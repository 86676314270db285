import TypeCatalog.Proofs.Catalog.Step
import TypeCatalog.Registration.Document

/-!
# The steps of a registration

**Rule.** Registering a document touches the catalog through registrations, member lists and base
lists only. Every other computation of a registration, spelling included, leaves the catalog alone.

**Algorithm.** `Builds` says of a computation that whenever it succeeds, the catalog after it is
reached from the one before it by successful steps of these kinds. It is closed under the operations
that registrations are written with, so each function has it for the reason that its parts have it.

**Results.**
* `Catalog.exists_trace_registerDocument`: so does the registration of a whole document.
-/

namespace TypeCatalog

/-- Whether a step is one of those that the registration of a document takes. -/
def Step.IsRegistration :
    Step → Prop
  | register _ | setMembersIn _ _ _ | setBases _ _ => True
  | put _ _ | resolve _ _ | measure _ => False

namespace Registration

variable {α β : Type}

/-- A computation that succeeds has taken successful registration steps. -/
def Builds
    (x : Registration α) :
    Prop :=
  ∀ state a state', x state = .ok (a, state') →
    ∃ steps, Trace state.catalog steps state'.catalog ∧ ∀ s ∈ steps, s.IsRegistration

namespace Builds

theorem pure
    (a : α) :
    Builds (Pure.pure a : Registration α) := by
  intro state b state' h
  obtain ⟨-, rfl⟩ := Prod.mk.inj (Except.ok.inj h)
  exact ⟨[], .nil _, by simp⟩

theorem bind
    {x : Registration α} {f : α → Registration β}
    (hx : Builds x)
    (hf : ∀ a, Builds (f a)) :
    Builds (x >>= f) := by
  intro state b state' h
  have hrun : (x >>= f) state = (x state).bind fun p => f p.1 p.2 := rfl
  rw [hrun] at h
  cases hxs : x state with
  | error e =>
      rw [hxs] at h
      cases h
  | ok p =>
      obtain ⟨a, mid⟩ := p
      rw [hxs] at h
      obtain ⟨first, htrace, hfirst⟩ := hx state a mid hxs
      obtain ⟨second, htrace', hsecond⟩ := hf a mid b state' h
      refine ⟨first ++ second, htrace.append htrace', ?_⟩
      intro s hs
      rcases List.mem_append.mp hs with hs | hs
      · exact hfirst s hs
      · exact hsecond s hs

theorem get :
    Builds (MonadState.get : Registration RegistrationState) := by
  intro state a state' h
  obtain ⟨-, rfl⟩ := Prod.mk.inj (Except.ok.inj h)
  exact ⟨[], .nil _, by simp⟩

/-- Reading the document changes nothing. -/
theorem lift
    (x : Except DocumentError α) :
    Builds (liftM x : Registration α) := by
  intro state a state' h
  cases x with
  | error e =>
      cases h
  | ok b =>
      obtain ⟨-, rfl⟩ := Prod.mk.inj (Except.ok.inj h)
      exact ⟨[], .nil _, by simp⟩

theorem spell
    (x : Spelled α) :
    Builds (Registration.spell x) := by
  intro state a state' h
  simp only [Registration.spell] at h
  split at h
  · obtain ⟨-, rfl⟩ := Prod.mk.inj (Except.ok.inj h)
    exact ⟨[], .nil _, by simp⟩
  · cases h

/-- A change of the catalog that is a step on it. -/
theorem change
    {f : Catalog → Except CatalogError α × Catalog} {s : Step}
    (hs : s.IsRegistration)
    (hf : ∀ c a c', f c = (.ok a, c') → s.apply c = (.ok (), c')) :
    Builds (Registration.change f) := by
  intro state a state' h
  simp only [Registration.change] at h
  split at h
  · next hstep =>
      obtain ⟨-, rfl⟩ := Prod.mk.inj (Except.ok.inj h)
      exact ⟨[s], .single (hf _ _ _ hstep), by simpa using hs⟩
  · cases h

theorem ite
    {p : Prop} [Decidable p] {x y : Registration α}
    (hx : Builds x)
    (hy : Builds y) :
    Builds (if p then x else y) := by
  split
  · exact hx
  · exact hy

theorem forM
    {f : α → Registration Unit}
    (hf : ∀ a, Builds (f a)) :
    ∀ xs : List α, Builds (xs.forM f)
  | [] => .pure ()
  | x :: xs => .bind (hf x) fun _ => forM hf xs

theorem mapM
    {f : α → Registration β}
    (hf : ∀ a, Builds (f a)) :
    ∀ xs : List α, Builds (xs.mapM f)
  | [] => by
      rw [List.mapM_nil]
      exact .pure []
  | x :: xs => by
      rw [List.mapM_cons]
      exact .bind (hf x) fun y => .bind (mapM hf xs) fun ys => .pure (y :: ys)

end Builds

theorem builds_register
    (e : Entity) :
    Builds (register e) := by
  refine .bind (.change (s := .register e) trivial ?_) fun _ => .pure ()
  intro c a c' h
  simp [Step.apply, h, Except.map]

theorem builds_registerType
    (t : DataType) :
    Builds (registerType t) := by
  refine .bind .get fun state => ?_
  split
  · exact .pure ()
  · exact builds_register _

end Registration

namespace Source

open Registration

variable (s : Source)

theorem builds_typeRef
    (id referrer : String) :
    Builds (s.typeRef id referrer) := by
  refine .bind (.spell _) fun name => ?_
  split
  · refine .bind (.spell _) fun underlying => ?_
    refine .bind (.lift _) fun size => ?_
    refine .bind (.lift _) fun kind => ?_
    exact .bind (builds_registerType _) fun _ => .pure name
  · exact .pure name

theorem builds_prototype
    (e : Element) :
    Builds (s.prototype e) := by
  refine .bind (.mapM (fun a => .bind (s.builds_typeRef _ _) fun _ => .pure _) _) fun params => ?_
  split
  · split
    · exact .bind (.pure _) fun result => .pure _
    · exact .bind (s.builds_typeRef _ _) fun result => .pure _
  · exact .bind (.pure _) fun result => .pure _

theorem builds_dataMember
    (e : Element) (offset : Except DocumentError UInt64) :
    Builds (s.dataMember e offset) := by
  refine .bind (.lift _) fun id => ?_
  refine .bind (s.builds_typeRef _ _) fun type => ?_
  refine .bind (.lift _) fun kind => ?_
  refine .bind (.lift _) fun bits => ?_
  exact .bind (.lift _) fun access => .pure _

theorem builds_member
    (record : Element) (name id : String) :
    Builds (s.member record name id) := by
  refine .bind (.lift _) fun e => ?_
  split
  · exact .bind (s.builds_dataMember _ _) fun m => .pure _
  · exact .bind (s.builds_dataMember _ _) fun m => .pure _
  · split
    · refine .bind (.spell _) fun qualified => ?_
      refine .bind (s.builds_prototype _) fun proto => ?_
      refine .bind (builds_registerType _) fun _ => ?_
      exact .bind (.lift _) fun access => .pure _
    · exact .pure _

theorem builds_members
    (record : Element) (name : String) :
    Builds (s.members record name) :=
  .bind (.mapM (fun id => s.builds_member record name id) _) fun _ => .pure _

theorem builds_bases
    (record : Element) :
    Builds (s.bases record) := by
  refine .mapM (fun b => ?_) _
  refine .bind (s.builds_typeRef _ _) fun type => ?_
  refine .bind (.lift _) fun access => ?_
  exact .bind (.lift _) fun offset => .pure _

theorem builds_fundamental
    (e : Element) :
    Builds (s.fundamental e) := by
  refine .bind (.spell _) fun name => ?_
  refine .bind (.lift _) fun kind => ?_
  exact .bind (.lift _) fun size => builds_registerType _

theorem builds_space
    (e : Element) :
    Builds (s.space e) := by
  refine .ite (.pure ()) ?_
  refine .bind (.spell _) fun name => ?_
  refine .bind .get fun state => ?_
  split
  · exact .pure ()
  · exact .bind (.spell _) fun scope => builds_register _

theorem builds_spaceAlias
    (e : Element) :
    Builds (s.spaceAlias e) := by
  refine .bind (.spell _) fun name => ?_
  refine .bind (.spell _) fun scope => ?_
  refine .bind (.lift _) fun id => ?_
  exact .bind (.spell _) fun target => builds_register _

theorem builds_enumeration
    (e : Element) :
    Builds (s.enumeration e) := by
  refine .bind (.spell _) fun name => ?_
  refine .bind (.spell _) fun scope => ?_
  refine .bind (.lift _) fun size => ?_
  refine .bind (.mapM (fun v => .bind (.lift _) fun value => .pure _) _) fun members => ?_
  exact builds_register _

theorem builds_shell
    (e : Element) :
    Builds (s.shell e) := by
  refine .bind (.spell _) fun name => ?_
  refine .bind (.spell _) fun scope => ?_
  exact .bind (.lift _) fun size => builds_register _

theorem builds_setMembersIn
    (record scope : String) (members : List Member) :
    Builds (change (·.setMembersIn record scope members)) := by
  refine .change (s := .setMembersIn record scope members) trivial ?_
  intro c a c' h
  exact h

theorem builds_setBases
    (record : String) (bases : List Base) :
    Builds (change (·.setBases record bases)) := by
  refine .change (s := .setBases record bases) trivial ?_
  intro c a c' h
  exact h

theorem builds_fillBases
    (e : Element) (name : String) :
    Builds (do
      if e.kind != .unionRecord && !e.bases.isEmpty then
        let bases ← s.bases e
        change (·.setBases name bases)) := by
  exact .ite (.bind (s.builds_bases e) fun bases => builds_setBases name bases) (.pure ())

theorem builds_fill
    (e : Element) :
    Builds (s.fill e) := by
  refine .bind (.spell _) fun name => ?_
  refine .bind (s.builds_members e name) fun members => ?_
  dsimp only
  refine .ite ?_ ?_
  · refine .bind (.spell _) fun scope => ?_
    exact .bind (builds_setMembersIn name scope members) fun _ => s.builds_fillBases e name
  · exact .bind (builds_setMembersIn name name members) fun _ => s.builds_fillBases e name

theorem builds_typedef
    (e : Element) :
    Builds (s.typedef e) := by
  refine .bind (.spell _) fun name => ?_
  refine .bind (.lift _) fun id => ?_
  refine .bind (s.builds_typeRef _ _) fun target => ?_
  refine .ite (.pure ()) ?_
  refine .bind (.spell _) fun scope => ?_
  exact .bind (.lift _) fun size => builds_register _

theorem builds_structuralType
    (e : Element) :
    Builds (s.structuralType e) := by
  refine .bind (.spell _) fun name => ?_
  have target : Builds (do s.typeRef (← e.required "type") e.id) :=
    .bind (.lift _) fun id => s.builds_typeRef id e.id
  dsimp only
  split
  · exact .bind target fun pointee => .bind (.lift _) fun size => .pure _
  · exact .bind target fun referent => .bind (.lift _) fun size => .pure _
  · refine .bind (.lift _) fun id => ?_
    refine .bind target fun underlying => ?_
    refine .bind (.lift _) fun size => ?_
    exact .bind (.lift _) fun kind => .pure _
  · refine .bind target fun element => ?_
    refine .bind (.lift _) fun length => ?_
    exact .bind (.lift _) fun size => .pure _
  · refine .bind target fun pointee => ?_
    refine .bind (.lift _) fun id => ?_
    refine .bind (s.builds_typeRef _ _) fun cls => ?_
    exact .bind (.lift _) fun size => .pure _
  · exact .bind (s.builds_prototype e) fun proto => .pure _
  · exact .bind (s.builds_prototype e) fun proto => .pure _

theorem builds_structural
    (e : Element) :
    Builds (s.structural e) :=
  .bind (s.builds_structuralType e) fun _ => builds_registerType _

theorem builds_function
    (e : Element) :
    Builds (s.function e) := by
  refine .bind ?_ fun f => builds_register _
  refine .bind (.spell _) fun qualified => ?_
  refine .bind (.spell _) fun scope => ?_
  exact .bind (s.builds_prototype e) fun proto => .pure _

theorem builds_variableAt
    (e : Element) :
    Builds (s.variableAt e) := by
  unfold variableAt
  have declared : Builds (do
      let qualified ← s.nameOf e.id
      let scope ← s.scopeOf e.id
      let type ← s.typeRef (← e.required "type") e.id
      let specifiers := (Specifiers.when (e.flag "extern") .external).union
        (.when (e.flag "static") .static)
      register (.ofVariable { qualified, scope, type := .named type, specifiers })) := by
    refine .bind (.spell _) fun qualified => ?_
    refine .bind (.spell _) fun scope => ?_
    refine .bind (.lift _) fun id => ?_
    exact .bind (s.builds_typeRef _ _) fun type => builds_register _
  split
  · exact .pure ()
  · split
    · refine .bind (.lift _) fun context => ?_
      exact .bind (.pure _) fun atNamespaceScope => .ite (.pure ()) declared
    · exact .bind (.pure _) fun atNamespaceScope => .ite (.pure ()) declared

theorem builds_registerAll :
    Builds s.registerAll := by
  refine .bind (.forM s.builds_fundamental _) fun _ => ?_
  refine .bind (.forM s.builds_space _) fun _ => ?_
  refine .bind (.forM s.builds_spaceAlias _) fun _ => ?_
  refine .bind (.forM s.builds_enumeration _) fun _ => ?_
  refine .bind (.forM s.builds_shell _) fun _ => ?_
  refine .bind (.forM s.builds_fill _) fun _ => ?_
  refine .bind (.forM s.builds_typedef _) fun _ => ?_
  refine .bind (.forM (fun k => .forM s.builds_structural _) _) fun _ => ?_
  refine .bind (.forM s.builds_function _) fun _ => ?_
  refine .bind (.forM s.builds_function _) fun _ => ?_
  exact .forM s.builds_variableAt _

end Source

/-- The registration of a document takes successful registration steps; if it fails, none. -/
theorem Catalog.exists_trace_registerDocument
    (c : Catalog) (d : Document) (n : Template.Normalizer) (o : RegistrationOptions) :
    ∃ steps, Trace c steps (c.registerDocument d n o).2 ∧ ∀ s ∈ steps, s.IsRegistration := by
  unfold registerDocument
  dsimp only
  split
  · next state h => exact (Source.ofDocument _ n o).builds_registerAll ⟨c, ∅⟩ _ state h
  · exact ⟨[], .nil c, by simp⟩

end TypeCatalog
