import TypeCatalog.Proofs.Catalog.Effect
import TypeCatalog.Proofs.Image.RoundTrip

/-!
# Slots have the names of their entities as keys

**Input.** A run of registrations, member lists, base lists, loads of any bytes and registrations of
any documents, each of which may fail. Only a bare `put`, which takes the key as it is told, is left
out.

**Rule.** A step opens slots under the names of their entities, and what it changes in a slot keeps
its name. A load puts only entities under keys that the envelope's check has compared with them.

**Results.**
* `Effect.keyed`: one step keeps a catalog keyed.
* `keyed_after`: so does an action of many steps.
* `coherent_keyed_run`: after a whole run the index points every key to its last slot, and every key
  is the name of what its slot holds.
-/

namespace TypeCatalog

namespace Catalog

@[simp] theorem header_withMembers
    (t : DataType) (members : List Member) :
    (withMembers t members).header = t.header := by
  unfold withMembers
  split <;> rfl

@[simp] theorem header_withBases
    (t : DataType) (bases : List Base) :
    (withBases t bases).header = t.header := by
  unfold withBases
  split <;> rfl

end Catalog

namespace Step

/-- Whether a step opens slots under the names of their entities. -/
def IsKeyed :
    Step → Prop
  | register _ | setMembersIn _ _ _ | setBases _ _ => True
  | put key e => key = e.qualified
  | resolve _ _ | measure _ => False

theorem IsKeyed.isUpdate
    {s : Step}
    (h : s.IsKeyed) :
    s.IsUpdate := by
  cases s <;> trivial

theorem IsRegistration.isKeyed
    {s : Step}
    (h : s.IsRegistration) :
    s.IsKeyed := by
  cases s <;> trivial

theorem IsKeyed.entries
    {s : Step} {p : String × Entity}
    (h : s.IsKeyed)
    (hp : p ∈ s.entries) :
    p.1 = p.2.qualified := by
  cases s with
  | register e =>
      cases e with
      | ofType t =>
          obtain ⟨header, shape⟩ := t
          cases shape with
          | enumeration members =>
              rcases List.mem_cons.mp hp with rfl | hp
              · rfl
              · obtain ⟨m, -, rfl⟩ := List.mem_map.mp hp
                rfl
          | _ =>
              obtain rfl := List.mem_singleton.mp hp
              rfl
      | _ =>
          obtain rfl := List.mem_singleton.mp hp
          rfl
  | setMembersIn record scope members =>
      obtain ⟨m, -, rfl⟩ := List.mem_map.mp hp
      rfl
  | put key e =>
      obtain rfl := List.mem_singleton.mp hp
      exact h
  | setBases record bases =>
      cases hp
  | resolve slot k =>
      cases h
  | measure slot =>
      cases h

theorem IsKeyed.retouches
    {s : Step} {key : String} {old new : Entity}
    (h : s.IsKeyed)
    (hnew : s.Retouches key old new)
    (hold : key = old.qualified) :
    key = new.qualified := by
  cases hnew with
  | overload f o =>
      exact hold
  | members hrecord =>
      rw [hold]
      simp [Entity.qualified]
  | bases hrecord =>
      rw [hold]
      simp [Entity.qualified]
  | replace key old e =>
      exact h

end Step

/-- Whether an action is not a query and lets the names of entities be their keys. -/
def Action.IsKeyed :
    Action → Prop
  | .step s => s.IsRegistration
  | .load _ _ | .registerDocument _ _ _ => True

namespace Catalog

theorem keyed_iff
    {c : Catalog} :
    c.Keyed ↔
      ∀ (i : Nat) (slot : Slot), c.slots[i]? = some slot → slot.key = slot.entity.qualified := by
  constructor
  · intro h i slot hslot
    exact h slot (Array.mem_of_getElem? hslot)
  · intro h slot hmem
    obtain ⟨i, hslot⟩ := Array.getElem?_of_mem hmem
    exact h i slot hslot

theorem Effect.keyed
    {s : Step} {c c' : Catalog}
    (h : Effect s c c')
    (hs : s.IsKeyed)
    (hc : c.Coherent)
    (hkeyed : c.Keyed) :
    c'.Keyed := by
  rw [keyed_iff] at hkeyed ⊢
  intro i slot hslot
  rcases h.slot_cases hc hslot with ⟨old, hold, hchange⟩ | ⟨-, hentry⟩
  · have hname := hkeyed i _ hold
    rcases hchange with hsame | hretouch
    · rw [hsame]
      exact hname
    · exact hs.retouches hretouch hname
  · exact hs.entries hentry

end Catalog

theorem Trace.keyed
    {c c' : Catalog} {steps : List Step}
    (h : Trace c steps c')
    (hsteps : ∀ s ∈ steps, s.IsKeyed)
    (hc : c.Coherent)
    (hkeyed : c.Keyed) :
    c'.Keyed := by
  induction h with
  | nil c =>
      exact hkeyed
  | @cons c d e s steps hstep _ ih =>
      have hs : s.IsKeyed := hsteps s (by simp)
      have heffect := Step.effect_of_ok hc hs.isUpdate hstep
      exact ih (fun t ht => hsteps t (List.mem_cons_of_mem s ht)) (heffect.coherent hc)
        (heffect.keyed hs hc hkeyed)

/-- Entries that pass the check have the names of their entities as keys. -/
theorem Image.qualified_of_firstMismatch?
    {entries : List (String × Entity)} {p : String × Entity}
    (h : firstMismatch? entries = none)
    (hp : p ∈ entries) :
    p.1 = p.2.qualified := by
  induction entries with
  | nil =>
      cases hp
  | cons q entries ih =>
      rw [firstMismatch?] at h
      split at h
      · next hq =>
          rcases List.mem_cons.mp hp with rfl | hp
          · exact hq
          · exact ih h hp
      · cases h

namespace Catalog

variable {c : Catalog}

/-- Whatever the bytes are, a load keeps a catalog keyed. -/
theorem keyed_loadImage
    (bytes : List UInt8)
    (hc : c.Coherent)
    (hkeyed : c.Keyed) :
    (Image.load c bytes).2.Keyed := by
  unfold Image.load
  split
  · exact hkeyed
  · next envelope rest _ =>
      split
      · exact hkeyed
      · next hcheck =>
          refine (trace_merge c _).keyed ?_ hc hkeyed
          intro s hs
          obtain ⟨p, hp, rfl⟩ := List.mem_map.mp hs
          unfold Image.Envelope.mismatch? at hcheck
          split at hcheck
          · cases hcheck
          · exact Image.qualified_of_firstMismatch? hcheck hp

/-- An action keeps a catalog keyed, whether it succeeds or fails. -/
theorem keyed_after
    {a : Action}
    (ha : a.IsKeyed)
    (hc : c.Coherent)
    (hkeyed : c.Keyed) :
    (c.after a).Keyed := by
  have hregistrations : (∀ s : Step, s.PartOf a → s.IsRegistration) → (c.after a).Keyed := by
    intro hpart
    obtain ⟨steps, htrace, hsteps⟩ := exists_trace_after c a
    exact htrace.keyed (fun s hs => (hpart s (hsteps s hs)).isKeyed) hc hkeyed
  cases a with
  | step s =>
      refine hregistrations ?_
      rintro t rfl
      exact ha
  | registerDocument d n o =>
      exact hregistrations fun s hs => hs
  | load l bytes =>
      cases l with
      | document n o =>
          exact hregistrations fun s hs => hs
      | image =>
          have himage := keyed_loadImage bytes hc hkeyed
          cases hload : Image.load c bytes with
          | mk outcome c' =>
              rw [hload] at himage
              cases outcome <;> simpa [after, Loader.load, hload] using himage

theorem keyed_foldl_after
    {actions : List Action}
    (hactions : ∀ a ∈ actions, a.IsKeyed)
    (hc : c.Coherent)
    (hkeyed : c.Keyed) :
    (actions.foldl after c).Keyed := by
  induction actions generalizing c with
  | nil =>
      exact hkeyed
  | cons a actions ih =>
      obtain ⟨steps, htrace, -⟩ := exists_trace_after c a
      exact ih (fun b hb => hactions b (List.mem_cons_of_mem a hb)) (htrace.coherent hc)
        (keyed_after (hactions a (by simp)) hc hkeyed)

/-- After a run of actions that let the names of entities be their keys, the index points every key
to the last slot that has it and knows no other name, and every key is the name of the entity that
its slot holds. -/
theorem coherent_keyed_run
    (actions : List Action)
    (hactions : ∀ a ∈ actions, a.IsKeyed) :
    (∀ key i, (run actions).indexOf? key = some i ↔
      (∃ e, (run actions).slots[i]? = some ⟨key, e⟩) ∧
        ∀ j e, i < j → (run actions).slots[j]? ≠ some ⟨key, e⟩) ∧
    (∀ (i : Nat) (slot : Slot), (run actions).slots[i]? = some slot →
      slot.key = slot.entity.qualified ∧ ∃ j, (run actions).indexOf? slot.key = some j) ∧
    ∀ key i, (run actions).indexOf? key = some i → i < (run actions).size := by
  have hc : (run actions).Coherent := Reachable.coherent ⟨actions, rfl⟩
  have hkeyed : (run actions).Keyed :=
    keyed_foldl_after hactions coherent_empty (by simp [Keyed, empty])
  have hkey : ∀ (j : Nat) (key : String), (run actions).keys[j]? = some key ↔
      ∃ e, (run actions).slots[j]? = some ⟨key, e⟩ := by
    intro j key
    rw [keys_getElem?_eq_some_iff]
    constructor
    · rintro ⟨slot, hslot, rfl⟩
      exact ⟨slot.entity, hslot⟩
    · rintro ⟨e, hslot⟩
      exact ⟨_, hslot, rfl⟩
  refine ⟨?_, ?_, fun key i hi => hc.lt_size hi⟩
  · intro key i
    rw [hc key i]
    simp only [ne_eq, hkey, not_exists]
    constructor
    · rintro ⟨hslot, hlast⟩
      exact ⟨hslot, fun j e hj => hlast j hj e⟩
    · rintro ⟨hslot, hlast⟩
      exact ⟨hslot, fun j hj e => hlast j e hj⟩
  · intro i slot hslot
    refine ⟨keyed_iff.mp hkeyed i slot hslot, ?_⟩
    exact hc.exists_indexOf?_of_mem (List.mem_of_getElem? ((hkey i slot.key).mpr ⟨_, hslot⟩))

/-- A run that opens two slots for the key `A`, fills a record, fails to load two bytes, and fails to
register a document whose only element is not a declaration. -/
def mixedRun :
    List Action :=
  [.step (.register repeatedEnumerator),
   .step (.register (.ofType (.record .structKey "S" "" 4))),
   .step (.setMembersIn "S" "S" [.declare "f" (.named "int") .int .pub 0]),
   .load .image [1, 2],
   .registerDocument (.ofElements [.bare "Typedef" "_1"]) .standard .standard]

theorem coherent_keyed_mixedRun :
    (∀ a ∈ mixedRun, a.IsKeyed) ∧
      (run mixedRun).indexOf? "A" = some 2 ∧
      (∀ j e, 2 < j → (run mixedRun).slots[j]? ≠ some ⟨"A", e⟩) ∧
      ∃ slot, (run mixedRun).slots[4]? = some slot ∧ slot.key = "S::f" ∧
        slot.key = slot.entity.qualified := by
  have hactions : ∀ a ∈ mixedRun, a.IsKeyed := by
    simp [mixedRun, Action.IsKeyed, Step.IsRegistration]
  have hindex : (run mixedRun).indexOf? "A" = some 2 := by
    decide +kernel
  have hslot : (run mixedRun).slots[4]? = some
      ⟨"S::f", .ofMember ((Member.declare "f" (.named "int") .int .pub 0).inScope "S")⟩ := by
    decide +kernel
  obtain ⟨hlast, hnames, -⟩ := coherent_keyed_run mixedRun hactions
  exact ⟨hactions, hindex, ((hlast "A" 2).mp hindex).2, _, hslot, rfl, (hnames 4 _ hslot).1⟩

end Catalog
end TypeCatalog
