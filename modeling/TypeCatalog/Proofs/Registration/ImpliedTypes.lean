import TypeCatalog.Proofs.Registration.Declared
import TypeCatalog.Proofs.Registration.Layout
import TypeCatalog.Proofs.Spelling.ImpliedIds

/-!
# Implied qualified types are those that elements would state

**Input.** A document, and the same document without an element that states what its id implies.

**Rule.** Names, kinds and sizes are found in the same way with and without the element: from its id
they all go to the base. The type that a reference to the undefined id registers is the one that the
element describes.

**Results.**
* `Index.Implied.sizeWithin_eq`, `Index.Implied.kindWithin_eq`: sizes and kinds, up to the errors.
* `Source.run_structuralType`, `Source.run_typeRef`: both types, as the document alone gives them.
* `stated_eq_implied`: the two documents give the same names, sizes, kinds and types.
-/

namespace TypeCatalog

namespace Layout

theorem toOption_eq_some_iff
    {α : Type} {x : Except DocumentError α} {a : α} :
    x.toOption = some a ↔ x = .ok a := by
  cases x <;> simp [Except.toOption]

section Walks

variable (index : Index) (machine : UInt64)

/-- The kind of an id, at the end of at most `depth` rules. -/
def kindAlong :
    Nat → String → Option TypeKind
  | 0, _ => none
  | depth + 1, id =>
      (kindRule? index id).bind fun
        | .own k => some k
        | .sameAs target => kindAlong depth target

/-- The size of an id, at the end of at most `depth` rules. -/
def sizeAlong :
    Nat → String → Option UInt64
  | 0, _ => none
  | depth + 1, id =>
      (sizeRule? index machine id).bind fun
        | .own n => some n
        | .sameAs target => sizeAlong depth target
        | .times length element => (sizeAlong depth element).map (saturatingMul · length)

/-- The walk to the kind of an id follows the rules; who mentions the id matters for errors only. -/
theorem toOption_kindWithin
    (depth : Nat) (id referrer : String) :
    (kindWithin index referrer depth id).toOption = kindAlong index depth id := by
  induction depth generalizing id with
  | zero =>
      rfl
  | succ depth ih =>
      rw [kindWithin, kindAlong, kindRule?]
      cases index.find? id with
      | none =>
          rw [qualifiedBase]
          cases Spelling.qualifiedId? id with
          | none =>
              rfl
          | some p =>
              exact ih p.1
      | some e =>
          dsimp only
          rw [elementKindRule?]
          cases e.kind with
          | cvQualified =>
              rw [Element.required]
              cases e.attr? "type" with
              | none =>
                  rfl
              | some target =>
                  exact ih target
          | fundamental =>
              cases builtinKind e.name <;> rfl
          | _ =>
              rfl

/-- The size of an array follows its rule if the size of its element does. -/
theorem toOption_arraySize
    {e : Element} {walk : String → Except DocumentError UInt64} {along : String → Option UInt64}
    (hwalk : ∀ target, (walk target).toOption = along target) :
    (do
      let size := bytesOfBits (← e.uint "size")
      if size = 0 then
        let length := (← e.arrayLength).getD 0
        let element ← walk (← e.required "type")
        return saturatingMul element length
      else return size : Except DocumentError UInt64).toOption =
    (arraySizeRule? e).bind fun
      | .own n => some n
      | .sameAs target => along target
      | .times length element => (along element).map (saturatingMul · length) := by
  rw [arraySizeRule?]
  cases e.uint "size" with
  | error err =>
      rfl
  | ok bits =>
      by_cases hzero : bytesOfBits bits = 0
      · cases e.arrayLength with
        | error err =>
            simp [hzero, Except.toOption, bind, Except.bind]
        | ok length =>
            rw [Element.required]
            cases e.attr? "type" with
            | none =>
                simp [hzero, Except.toOption, bind, Except.bind]
            | some target =>
                have htarget := hwalk target
                cases hw : walk target with
                | error err =>
                    rw [hw] at htarget
                    simp [hzero, hw, ← htarget, Except.toOption, bind, Except.bind]
                | ok n =>
                    rw [hw] at htarget
                    simp [hzero, hw, ← htarget, Except.toOption, bind, Except.bind, pure, Except.pure]
      · simp [hzero, Except.toOption, bind, Except.bind, pure, Except.pure]

/-- The walk to the size of an id follows the rules; who mentions the id matters for errors only. -/
theorem toOption_sizeWithin
    (depth : Nat) (id referrer : String) :
    (sizeWithin index machine depth id referrer).toOption = sizeAlong index machine depth id := by
  induction depth generalizing id referrer with
  | zero =>
      rfl
  | succ depth ih =>
      rw [sizeWithin, sizeAlong, sizeRule?]
      cases index.find? id with
      | none =>
          rw [qualifiedBase]
          cases Spelling.qualifiedId? id with
          | none =>
              rfl
          | some p =>
              exact ih p.1 referrer
      | some e =>
          dsimp only
          rw [elementSizeRule?]
          cases e.kind with
          | cvQualified | typedef =>
              rw [Element.required]
              cases e.attr? "type" with
              | none =>
                  rfl
              | some target =>
                  exact ih target e.id
          | functionType | methodType =>
              rfl
          | pointer | reference | offset =>
              dsimp only
              cases pointerSize machine e <;> rfl
          | array =>
              exact toOption_arraySize fun target => ih target e.id
          | _ =>
              dsimp only
              cases e.uint "size" <;> rfl

variable {index machine}

/-- A kind that is found stays the same with more depth. -/
theorem kindAlong_succ
    {depth : Nat} {id : String} {k : TypeKind}
    (h : kindAlong index depth id = some k) :
    kindAlong index (depth + 1) id = some k := by
  induction depth generalizing id with
  | zero =>
      cases h
  | succ depth ih =>
      rw [kindAlong, Option.bind_eq_some_iff] at h ⊢
      obtain ⟨rule, hrule, hk⟩ := h
      refine ⟨rule, hrule, ?_⟩
      cases rule with
      | own k' =>
          exact hk
      | sameAs target =>
          exact ih hk

/-- A size that is found stays the same with more depth. -/
theorem sizeAlong_succ
    {depth : Nat} {id : String} {n : UInt64}
    (h : sizeAlong index machine depth id = some n) :
    sizeAlong index machine (depth + 1) id = some n := by
  induction depth generalizing id n with
  | zero =>
      cases h
  | succ depth ih =>
      rw [sizeAlong, Option.bind_eq_some_iff] at h ⊢
      obtain ⟨rule, hrule, hn⟩ := h
      refine ⟨rule, hrule, ?_⟩
      cases rule with
      | own n' =>
          exact hn
      | sameAs target =>
          exact ih hn
      | times length element =>
          obtain ⟨m, hm, rfl⟩ := Option.map_eq_some_iff.mp hn
          exact Option.map_eq_some_iff.mpr ⟨m, ih hm, rfl⟩

end Walks

end Layout

namespace Index.Implied

open Layout

variable {index index' : Index} {e : Element} {base : String} (h : index.Implied index' e base)
include h

theorem kindRule?_eq :
    kindRule? index = kindRule? index' := by
  funext id
  by_cases hid : id = e.id
  · subst hid
    rw [kindRule?_of_find h.found, elementKindRule?, h.kind, h.target,
      kindRule?_of_undefined h.missing h.qualifies]
    rfl
  · rw [kindRule?, kindRule?, h.others id hid]

theorem sizeRule?_eq
    (machine : UInt64) :
    sizeRule? index machine = sizeRule? index' machine := by
  funext id
  by_cases hid : id = e.id
  · subst hid
    rw [sizeRule?_of_find h.found, elementSizeRule?, h.kind, h.target,
      sizeRule?_of_undefined h.missing h.qualifies]
    rfl
  · rw [sizeRule?, sizeRule?, h.others id hid]

theorem kindAlong_eq
    (depth : Nat) :
    kindAlong index depth = kindAlong index' depth := by
  induction depth with
  | zero =>
      rfl
  | succ depth ih =>
      funext id
      rw [kindAlong, kindAlong, h.kindRule?_eq, ih]

theorem sizeAlong_eq
    (machine : UInt64) (depth : Nat) :
    sizeAlong index machine depth = sizeAlong index' machine depth := by
  induction depth with
  | zero =>
      rfl
  | succ depth ih =>
      funext id
      rw [sizeAlong, sizeAlong, h.sizeRule?_eq, ih]

/-- Ids have the same kinds with and without the element, or none in both. -/
theorem kindOf_eq
    (id referrer referrer' : String) :
    (kindOf index id referrer).toOption = (kindOf index' id referrer').toOption := by
  rw [kindOf, kindOf, toOption_kindWithin, toOption_kindWithin, h.kindAlong_eq]

/-- Ids have the same sizes with and without the element, or none in both. -/
theorem sizeOf_eq
    (machine : UInt64) (id referrer referrer' : String) :
    (Layout.sizeOf index machine id referrer).toOption =
      (Layout.sizeOf index' machine id referrer').toOption := by
  rw [Layout.sizeOf, Layout.sizeOf, toOption_sizeWithin, toOption_sizeWithin, h.sizeAlong_eq]

theorem kindAlong_succ_id
    (depth : Nat) :
    kindAlong index (depth + 1) e.id = kindAlong index depth base := by
  rw [kindAlong, kindRule?_of_find h.found, elementKindRule?, h.kind, h.target]
  rfl

theorem sizeAlong_succ_id
    (machine : UInt64) (depth : Nat) :
    sizeAlong index machine (depth + 1) e.id = sizeAlong index machine depth base := by
  rw [sizeAlong, sizeRule?_of_find h.found, elementSizeRule?, h.kind, h.target]
  rfl

/-- The base has the kind of the element. -/
theorem kindOf_base
    {referrer : String} {k : TypeKind}
    (hk : kindOf index e.id referrer = .ok k) (referrer' : String) :
    kindOf index base referrer' = .ok k := by
  obtain ⟨depth, hdepth⟩ : ∃ depth, longestChain = depth + 1 := ⟨1023, rfl⟩
  rw [← toOption_eq_some_iff, kindOf, toOption_kindWithin, hdepth] at hk ⊢
  rw [h.kindAlong_succ_id] at hk
  exact kindAlong_succ hk

/-- The base has the size of the element. -/
theorem sizeOf_base
    {machine : UInt64} {referrer : String} {n : UInt64}
    (hn : Layout.sizeOf index machine e.id referrer = .ok n) (referrer' : String) :
    Layout.sizeOf index machine base referrer' = .ok n := by
  obtain ⟨depth, hdepth⟩ : ∃ depth, longestChain = depth + 1 := ⟨1023, rfl⟩
  rw [← toOption_eq_some_iff, Layout.sizeOf, toOption_sizeWithin, hdepth] at hn ⊢
  rw [h.sizeAlong_succ_id] at hn
  exact sizeAlong_succ hn

end Index.Implied

namespace Registration

/-- A computation goes on from the result of a first one that succeeds. -/
theorem bind_of_ok
    {α β : Type} {x : Registration α} {f : α → Registration β} {state state' : RegistrationState}
    {a : α}
    (h : x state = .ok (a, state')) :
    (x >>= f) state = f a state' := by
  have hrun : (x >>= f) state = (x state).bind fun p => f p.1 p.2 := rfl
  rw [hrun, h]
  rfl

theorem lift_eq_ok
    {α : Type} {x : Except DocumentError α} {a : α}
    (h : x = .ok a) (state : RegistrationState) :
    (liftM x : Registration α) state = .ok (a, state) := by
  rw [h]
  rfl

/-- On a sound memo, a question gets the answer of a new namer. -/
theorem spell_eq_ok
    {n : Namer} {memo : SpellingMemo} {name : String}
    (hmemo : Namer.SoundMemo n memo) (q : Namer.Query)
    (hname : (Spelled.outcome (q.ask n) ∅).1 = .ok name) (c : Catalog) :
    ∃ memo', Namer.SoundMemo n memo' ∧ spell (q.ask n) ⟨c, memo⟩ = .ok (name, ⟨c, memo'⟩) := by
  obtain ⟨hsound, hsame⟩ := q.steady_ask memo hmemo
  have hanswer := (hsame ∅ Namer.soundMemo_empty).symm.trans hname
  refine ⟨_, hsound, ?_⟩
  have hrun : (q.ask n).run memo = Spelled.outcome (q.ask n) memo := rfl
  simp only [spell, hrun]
  rcases houtcome : Spelled.outcome (q.ask n) memo with ⟨answer, memo'⟩
  rw [houtcome] at hanswer
  obtain rfl : answer = .ok name := hanswer
  rfl

end Registration

namespace Source

open Registration Request

variable {s : Source} {e : Element} {id base : String} {q : Qualifiers} {t : DataType}
variable {memo : SpellingMemo}

/-- A reference to a type whose id ends in no qualifier letter is a spelling only. -/
theorem typeRef_of_unqualified
    (hbase : Spelling.qualifiedId? base = none) (referrer : String) :
    s.typeRef base referrer = spell (s.namer.referencedName base referrer) := by
  unfold typeRef
  rw [hbase]
  cases s.index.find? base <;> exact bind_pure _

/-- The type that an element of a qualified type describes is the one that its base demands. -/
theorem StructuralTypeOf.qualifiedDemand
    (ht : s.StructuralTypeOf e t)
    (hkind : e.kind = .cvQualified)
    (htarget : e.attr? "type" = some base) :
    s.qualifiedDemand e.id base e.qualifiers (.offer t) := by
  cases ht with
  | cvQualified _ hname hid hunderlying hsize hkindOf =>
      obtain rfl := Option.some.inj (hid.symm.trans htarget)
      exact ⟨_, _, _, _, hname, hunderlying, hsize, hkindOf, rfl⟩
  | _ hk =>
      simp [hkind] at hk

section Runs

variable (hmemo : Namer.SoundMemo s.namer memo) (c : Catalog)
include hmemo

/-- On a sound memo, an id that has a name gets it, whoever mentions the id. -/
theorem exists_referencedName
    {name : String}
    (hname : s.Names id name) (referrer : String) :
    ∃ memo', Namer.SoundMemo s.namer memo' ∧
      spell (s.namer.referencedName id referrer) ⟨c, memo⟩ = .ok (name, ⟨c, memo'⟩) :=
  spell_eq_ok hmemo (.reference id referrer)
    (Namer.outcome_referencedName_eq_ok_iff.mpr (names_iff.mp hname)) c

/-- On a sound memo, an element of a qualified type gives the type that its base demands. -/
theorem structuralType_eq_ok
    (hkind : e.kind = .cvQualified)
    (htarget : e.attr? "type" = some base)
    (hbase : Spelling.qualifiedId? base = none)
    (ht : s.qualifiedDemand e.id base e.qualifiers (.offer t)) :
    ∃ memo', (s.structuralType e).run ⟨c, memo⟩ = .ok (t, ⟨c, memo'⟩) := by
  obtain ⟨name, underlying, size, kind, hname, hunderlying, hsize, hkindOf, ht⟩ := ht
  obtain rfl := Request.offer.inj ht
  have hrequired : e.required "type" = .ok base := Namer.required_eq_ok_iff.mpr htarget
  obtain ⟨memo₁, hmemo₁, hrun₁⟩ := spell_eq_ok hmemo (.name e.id) hname c
  obtain ⟨memo₂, -, hrun₂⟩ := exists_referencedName hmemo₁ c hunderlying e.id
  have hreference : (do s.typeRef (← e.required "type") e.id : Registration String) ⟨c, memo₁⟩ =
      .ok (underlying, ⟨c, memo₂⟩) := by
    refine (bind_of_ok (lift_eq_ok hrequired _)).trans ?_
    rw [typeRef_of_unqualified hbase]
    exact hrun₂
  refine ⟨memo₂, ?_⟩
  unfold structuralType
  rw [hkind]
  refine (bind_of_ok hrun₁).trans ?_
  refine (bind_of_ok (lift_eq_ok hrequired _)).trans ?_
  refine (bind_of_ok hreference).trans ?_
  refine (bind_of_ok (lift_eq_ok hsize _)).trans ?_
  exact bind_of_ok (lift_eq_ok hkindOf _)

/-- On a sound memo, a reference to an undefined id registers the type that its base demands. -/
theorem typeRef_eq
    (hmissing : s.index.find? id = none)
    (hqualifies : Spelling.qualifiedId? id = some (base, q))
    (ht : s.qualifiedDemand id base q (.offer t)) (referrer : String) :
    ∃ memo', (s.typeRef id referrer).run ⟨c, memo⟩ =
      (registerType t >>= fun _ => pure t.header.qualified).run ⟨c, memo'⟩ := by
  obtain ⟨name, underlying, size, kind, hname, hunderlying, hsize, hkindOf, ht⟩ := ht
  obtain rfl := Request.offer.inj ht
  obtain ⟨memo₁, hmemo₁, hrun₁⟩ := exists_referencedName hmemo c hname referrer
  obtain ⟨memo₂, -, hrun₂⟩ := exists_referencedName hmemo₁ c hunderlying referrer
  refine ⟨memo₂, ?_⟩
  unfold typeRef
  rw [hmissing, hqualifies]
  refine (bind_of_ok hrun₁).trans ?_
  refine (bind_of_ok hrun₂).trans ?_
  refine (bind_of_ok (lift_eq_ok hsize _)).trans ?_
  exact bind_of_ok (lift_eq_ok hkindOf _)

end Runs

end Source

namespace Index.Implied

open Source Registration Request

variable {d d' : Document} {e : Element} {base : String} (h : d.index.Implied d'.index e base)
variable (n : Template.Normalizer) (o : RegistrationOptions)
include h

theorem names_iff
    {id name : String} :
    (ofDocument d n o).Names id name ↔ (ofDocument d' n o).Names id name :=
  Eq.to_iff (congrArg (fun x => (Spelled.outcome x ∅).1 = .ok name) (h.typeName_eq n o.keepAll id))

theorem sizeOf_iff
    {id referrer : String} {size : UInt64} :
    (ofDocument d n o).sizeOf id referrer = .ok size ↔
      (ofDocument d' n o).sizeOf id referrer = .ok size := by
  rw [← Layout.toOption_eq_some_iff, ← Layout.toOption_eq_some_iff]
  exact Eq.to_iff (congrArg (· = some size) (h.sizeOf_eq o.pointerSize id referrer referrer))

theorem kindOf_iff
    {id referrer : String} {kind : TypeKind} :
    (ofDocument d n o).kindOf id referrer = .ok kind ↔
      (ofDocument d' n o).kindOf id referrer = .ok kind := by
  rw [← Layout.toOption_eq_some_iff, ← Layout.toOption_eq_some_iff]
  exact Eq.to_iff (congrArg (· = some kind) (h.kindOf_eq id referrer referrer))

/-- Qualified ids demand the same types with and without the element. -/
theorem qualifiedDemand_iff
    {id : String} {q : Qualifiers} {r : Request} :
    (ofDocument d n o).qualifiedDemand id base q r ↔
      (ofDocument d' n o).qualifiedDemand id base q r := by
  simp only [qualifiedDemand, h.names_iff n o, h.sizeOf_iff n o, h.kindOf_iff n o]

/-- If an element has a name, a kind and a size, it gives the type of these, over the name of its
base. -/
theorem structuralType_of_names
    {memo : SpellingMemo} {name referrer : String} {size : UInt64} {kind : TypeKind}
    (hmemo : Namer.SoundMemo (ofDocument d n o).namer memo)
    (hname : (ofDocument d n o).Names e.id name)
    (hsize : (ofDocument d n o).sizeOf e.id referrer = .ok size)
    (hkind : (ofDocument d n o).kindOf e.id referrer = .ok kind) (c : Catalog) :
    ∃ underlying state, (ofDocument d n o).Names base underlying ∧
      ((ofDocument d n o).structuralType e).run ⟨c, memo⟩ =
        .ok (.cvQualified name (.named underlying) e.qualifiers size kind, state) := by
  have hyields := (Namer.spells_iff_yields .start).mp (Source.names_iff.mp hname)
  rw [Namer.plan_of_find h.found, Namer.elementPlan, h.kind] at hyields
  obtain ⟨id, underlying, hid, hspells, -⟩ := Namer.yields_targetPlan_iff.mp hyields
  obtain rfl := Option.some.inj (hid.symm.trans h.target)
  have hunderlying : (ofDocument d n o).Names id underlying := Source.names_iff.mpr hspells
  obtain ⟨memo', hrun⟩ := structuralType_eq_ok hmemo c h.kind h.target
    (Namer.qualifiedId?_base h.qualifies)
    ⟨name, underlying, size, kind, hname, hunderlying, h.sizeOf_base hsize e.id,
      h.kindOf_base hkind e.id, rfl⟩
  exact ⟨underlying, ⟨c, memo'⟩, hunderlying, hrun⟩

/-- If the element gives a type, a reference to its id registers that type without the element. -/
theorem typeRef_of_structuralType
    {memo memo' : SpellingMemo} {t : DataType} {c : Catalog} {state : RegistrationState}
    (hmemo : Namer.SoundMemo (ofDocument d n o).namer memo)
    (hmemo' : Namer.SoundMemo (ofDocument d' n o).namer memo')
    (ht : ((ofDocument d n o).structuralType e).run ⟨c, memo⟩ = .ok (t, state))
    (c' : Catalog) (referrer : String) :
    ∃ memo'', ((ofDocument d' n o).typeRef e.id referrer).run ⟨c', memo'⟩ =
      (registerType t >>= fun _ => pure t.header.qualified).run ⟨c', memo''⟩ := by
  have hkinds : e.kind ∈ structuralKinds := by
    simp [h.kind, structuralKinds]
  obtain ⟨-, hstructural, -⟩ :=
    (ofDocument d n o).asks_structuralType e hkinds ⟨c, memo⟩ t state hmemo ht
  have hdemand := (h.qualifiedDemand_iff n o).mp (hstructural.qualifiedDemand h.kind h.target)
  exact typeRef_eq hmemo' c' h.missing h.qualifies hdemand referrer

/-- If the element gives no type, a reference to its id fails without the element. -/
theorem typeRef_error_of_structuralType
    {memo memo' : SpellingMemo} {c : Catalog} {err : DocumentError}
    (hmemo : Namer.SoundMemo (ofDocument d n o).namer memo)
    (hmemo' : Namer.SoundMemo (ofDocument d' n o).namer memo')
    (herr : ((ofDocument d n o).structuralType e).run ⟨c, memo⟩ = .error err)
    (c' : Catalog) (referrer : String) :
    ∃ err', ((ofDocument d' n o).typeRef e.id referrer).run ⟨c', memo'⟩ = .error err' := by
  cases hrun : ((ofDocument d' n o).typeRef e.id referrer).run ⟨c', memo'⟩ with
  | error err' =>
      exact ⟨err', rfl⟩
  | ok p =>
      obtain ⟨-, -, rs, hcovers, -⟩ :=
        (ofDocument d' n o).asks_typeRef e.id referrer ⟨c', memo'⟩ p.1 p.2 hmemo' hrun
      have hdemands : (ofDocument d' n o).qualifiedDemand e.id base e.qualifiers ∈
          (ofDocument d' n o).refDemands e.id :=
        mem_refDemands_iff.mpr ⟨base, e.qualifiers, h.missing, h.qualifies, rfl⟩
      obtain ⟨r, -, hr⟩ := hcovers.met _ hdemands
      obtain ⟨t, rfl⟩ : ∃ t, r = .offer t := by
        obtain ⟨name, underlying, size, kind, -, -, -, -, rfl⟩ := hr
        exact ⟨_, rfl⟩
      obtain ⟨memo'', hok⟩ := structuralType_eq_ok hmemo c h.kind h.target
        (Namer.qualifiedId?_base h.qualifies) ((h.qualifiedDemand_iff n o).mpr hr)
      rw [herr] at hok
      cases hok

end Index.Implied

namespace Source

open Registration

/-- A document whose ids are distinct, and the document without an element that states what its id
implies and that is no context of another: every id has the same name or the same error in both, the
same size or none in both, and the same kind or none in both. The element gives the type of its name,
size and kind, if it has these. If it gives a type, a reference to its id in the second document does
what registering that type does; if it does not, the reference fails. -/
theorem stated_eq_implied
    (d : Document) (n : Template.Normalizer) (o : RegistrationOptions)
    (e : Element) (base letters : String)
    (hids : (d.elements.map (·.id)).Nodup)
    (he : e ∈ d.elements)
    (hstates : e.StatesImplied base letters)
    (hcontexts : ∀ x ∈ d.elements, x.context? ≠ some e.id) :
    (∀ id memo, Spelled.outcome ((ofDocument d n o).namer.typeName id) memo =
      Spelled.outcome ((ofDocument (d.without e.id) n o).namer.typeName id) memo) ∧
    (∀ id referrer, ((ofDocument d n o).sizeOf id referrer).toOption =
      ((ofDocument (d.without e.id) n o).sizeOf id referrer).toOption) ∧
    (∀ id referrer, ((ofDocument d n o).kindOf id referrer).toOption =
      ((ofDocument (d.without e.id) n o).kindOf id referrer).toOption) ∧
    ∀ (c c' : Catalog) (history history' : List Namer.Query) (referrer : String),
      (∀ name size kind, (ofDocument d n o).Names e.id name →
        (ofDocument d n o).sizeOf e.id referrer = .ok size →
        (ofDocument d n o).kindOf e.id referrer = .ok kind →
        ∃ underlying state, (ofDocument d n o).Names base underlying ∧
          ((ofDocument d n o).structuralType e).run
              ⟨c, (ofDocument d n o).namer.memoAfter history⟩ =
            .ok (.cvQualified name (.named underlying) e.qualifiers size kind, state)) ∧
      (∀ t state, ((ofDocument d n o).structuralType e).run
            ⟨c, (ofDocument d n o).namer.memoAfter history⟩ = .ok (t, state) →
        ∃ memo, ((ofDocument (d.without e.id) n o).typeRef e.id referrer).run
            ⟨c', (ofDocument (d.without e.id) n o).namer.memoAfter history'⟩ =
          (registerType t >>= fun _ => pure t.header.qualified).run ⟨c', memo⟩) ∧
      (∀ err, ((ofDocument d n o).structuralType e).run
            ⟨c, (ofDocument d n o).namer.memoAfter history⟩ = .error err →
        ∃ err', ((ofDocument (d.without e.id) n o).typeRef e.id referrer).run
            ⟨c', (ofDocument (d.without e.id) n o).namer.memoAfter history'⟩ = .error err') := by
  have h := Document.implied_without hids he hstates hcontexts
  refine ⟨?_, ?_, ?_, ?_⟩
  · intro id memo
    exact congrArg (Spelled.outcome · memo) (h.typeName_eq n o.keepAll id)
  · intro id referrer
    exact h.sizeOf_eq o.pointerSize id referrer referrer
  · intro id referrer
    exact h.kindOf_eq id referrer referrer
  · intro c c' history history' referrer
    have hmemo := Namer.soundMemo_memoAfter (n := (ofDocument d n o).namer) history
    have hmemo' :=
      Namer.soundMemo_memoAfter (n := (ofDocument (d.without e.id) n o).namer) history'
    refine ⟨?_, ?_, ?_⟩
    · intro name size kind hname hsize hkind
      exact h.structuralType_of_names n o hmemo hname hsize hkind c
    · intro t state ht
      exact h.typeRef_of_structuralType n o hmemo hmemo' ht c' referrer
    · intro err herr
      exact h.typeRef_error_of_structuralType n o hmemo hmemo' herr c' referrer

/-- The element of `const volatile int` over the id of `int`. -/
def qualifiedElement :
    Element :=
  { Element.bare "CvQualifiedType" "_1cv" with
    attributes := [("type", "_1"), ("const", "1"), ("volatile", "1")] }

/-- A document with the types `int`, `const volatile int` and the pointer to it. -/
def qualifiedDocument :
    Document :=
  .ofElements
    [{ Element.bare "FundamentalType" "_1" with attributes := [("name", "int"), ("size", "32")] },
     qualifiedElement,
     { Element.bare "PointerType" "_2" with attributes := [("type", "_1cv")] }]

/-- The source of a document with the usual settings. -/
def standardSource
    (d : Document) :
    Source :=
  ofDocument d .standard .standard

theorem statesImplied_qualifiedElement :
    qualifiedElement.StatesImplied "_1" "cv" where
  id := by decide
  kind := by decide
  target := by decide
  base_ne := by decide
  base_last := by simp [Spelling.qualifierLetters]
  letters_ne := by decide
  letters_mem := by decide
  const := by decide
  volatile := by decide
  restrict := by decide

theorem stated_eq_implied_qualifiedDocument :
    (qualifiedDocument.elements.map (·.id)).Nodup ∧
      (∀ x ∈ qualifiedDocument.elements, x.context? ≠ some qualifiedElement.id) ∧
      (standardSource (qualifiedDocument.without "_1cv")).Names "_2" "const volatile int*" ∧
      ((standardSource (qualifiedDocument.without "_1cv")).sizeOf "_1cv" "_2").toOption = some 4 ∧
      ∃ memo, ((standardSource (qualifiedDocument.without "_1cv")).typeRef "_1cv" "_2").run
          ⟨.empty, ∅⟩ =
        (registerType (.cvQualified "const volatile int" (.named "int") qualifiedElement.qualifiers 4
          .int) >>= fun _ => pure "const volatile int").run ⟨.empty, memo⟩ := by
  have hids : (qualifiedDocument.elements.map (·.id)).Nodup := by
    decide
  have hcontexts : ∀ x ∈ qualifiedDocument.elements, x.context? ≠ some qualifiedElement.id := by
    decide
  obtain ⟨hnames, hsizes, -, htypes⟩ := stated_eq_implied qualifiedDocument .standard .standard
    qualifiedElement "_1" "cv" hids (by decide) statesImplied_qualifiedElement hcontexts
  have hpointer : (standardSource qualifiedDocument).Names "_2" "const volatile int*" := by
    decide +kernel
  have hsize : (standardSource qualifiedDocument).sizeOf "_1cv" "_2" = .ok 4 := by
    decide +kernel
  obtain ⟨hgives, hregisters, -⟩ := htypes .empty .empty [] [] "_2"
  obtain ⟨underlying, state, hunderlying, hrun⟩ := hgives "const volatile int" 4 .int
    (by decide +kernel) hsize (by decide +kernel)
  have hint : (standardSource qualifiedDocument).Names "_1" "int" := by
    decide +kernel
  obtain rfl : underlying = "int" := hunderlying.unique hint
  refine ⟨hids, hcontexts, ?_, ?_, hregisters _ state hrun⟩
  · exact (congrArg Prod.fst (hnames "_2" ∅)).symm.trans hpointer
  · exact (hsizes "_1cv" "_2").symm.trans (congrArg Except.toOption hsize)

end Source
end TypeCatalog
