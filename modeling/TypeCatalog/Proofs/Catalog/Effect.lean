import TypeCatalog.Proofs.Catalog.Step

/-!
# What one step does to the slots of a catalog

**Rule.** A successful step that is not a query either opens slots for all its entries, or changes
the entity of the slot of a name and then opens slots: a function joins an overload set, a record
gets members or bases, a key gets another entity.

**Results.**
* `Step.effect_of_ok`: these are the only effects.
* `Effect.mem_keys_iff`: after a step a key is one from before it or one of the step's batch.
* `Effect.exists_slot`, `Effect.slot_cases`: where every slot stays, and where it comes from.
-/

namespace TypeCatalog

namespace Step

/-- Whether a step is not a query. -/
def IsUpdate :
    Step → Prop
  | register _ | setMembersIn _ _ _ | setBases _ _ | put _ _ => True
  | resolve _ _ | measure _ => False

/-- The slots that a step may open. -/
def entries :
    Step → List (String × Entity)
  | register (.ofFunction f) => [(f.qualified, .ofOverloads (.single f))]
  | register (.ofType ⟨header, .enumeration members⟩) =>
      (header.qualified, .ofType ⟨header, .enumeration members⟩) ::
        members.map fun m => (m.qualified, .ofMember m)
  | register e => [(e.qualified, e)]
  | setMembersIn record scope members => Catalog.exposed scope (members.map (·.inScope record))
  | put key e => [(key, e)]
  | setBases _ _ | resolve _ _ | measure _ => []

/-- A step changes the entity in the slot of a key into another. -/
inductive Retouches :
    Step → String → Entity → Entity → Prop
  | overload
      (f : Function) (o : OverloadSet) :
      Retouches (register (.ofFunction f)) f.qualified (.ofOverloads o) (.ofOverloads (o.push f))
  | members
      {record scope : String} {members : List Member} {t : DataType}
      (hrecord : t.isRecord = true ∨ t.isUnion = true) :
      Retouches (setMembersIn record scope members) record (.ofType t)
        (.ofType (Catalog.withMembers t (members.map (·.inScope record))))
  | bases
      {record : String} {bases : List Base} {t : DataType}
      (hrecord : t.isRecord = true) :
      Retouches (setBases record bases) record (.ofType t) (.ofType (Catalog.withBases t bases))
  | replace
      (key : String) (old e : Entity) :
      Retouches (put key e) key old e

theorem map_fst_entries
    (s : Step) :
    s.entries.map Prod.fst = s.batch := by
  cases s with
  | register e =>
      cases e with
      | ofType t =>
          obtain ⟨header, shape⟩ := t
          cases shape with
          | enumeration members =>
              simp [entries, batch, Function.comp_def]
          | _ =>
              rfl
      | _ =>
          rfl
  | _ =>
      rfl

end Step

namespace Catalog

/-- What a successful step that is not a query makes of a catalog. -/
inductive Effect
    (s : Step) (c : Catalog) :
    Catalog → Prop
  | opens
      (hvacant : ∀ key ∈ s.batch, c.isVacant key = true) :
      Effect s c (c.pushAll s.entries)
  | retouches
      {i : Nat} {key : String} {old new : Entity} {opened : List (String × Entity)}
      (hindex : c.indexOf? key = some i)
      (hold : c.entityAt? i = some old)
      (hnew : s.Retouches key old new)
      (hopened : opened = s.entries ∨ opened = [] ∧ s.batch = [key]) :
      Effect s c ((c.setEntity i new).pushAll opened)

section Slots

variable (c : Catalog)

theorem slots_pushAll
    (entries : List (String × Entity)) :
    (c.pushAll entries).slots.toList = c.slots.toList ++ entries.map fun p => ⟨p.1, p.2⟩ := by
  induction entries generalizing c with
  | nil =>
      simp [pushAll]
  | cons p entries ih =>
      have hstep : c.pushAll (p :: entries) = (c.push p.1 p.2).pushAll entries := rfl
      rw [hstep, ih]
      simp [push]

theorem getElem?_slots_pushAll
    (entries : List (String × Entity)) (j : Nat) :
    (c.pushAll entries).slots[j]? =
      if j < c.slots.size then c.slots[j]?
      else (entries[j - c.slots.size]?).map fun p => ⟨p.1, p.2⟩ := by
  rw [← Array.getElem?_toList, slots_pushAll, List.getElem?_append]
  simp

theorem getElem?_slots_setEntity
    (i : Nat) (e : Entity) (j : Nat) :
    (c.setEntity i e).slots[j]? =
      if i = j then c.slots[j]?.map fun slot => ⟨slot.key, e⟩ else c.slots[j]? := by
  simp [setEntity, Array.getElem?_modify]

theorem entityAt?_eq_some_iff
    {i : Nat} {e : Entity} :
    c.entityAt? i = some e ↔ ∃ key, c.slots[i]? = some ⟨key, e⟩ := by
  rw [entityAt?, Option.map_eq_some_iff]
  constructor
  · rintro ⟨slot, hslot, rfl⟩
    exact ⟨slot.key, hslot⟩
  · rintro ⟨key, hslot⟩
    exact ⟨_, hslot, rfl⟩

end Slots

section Records

variable {c : Catalog} {record : String} {allowUnion : Bool} {i : Nat} {t : DataType}

theorem recordSlot_eq_ok
    (h : c.recordSlot record allowUnion = .ok (i, t)) :
    c.indexOf? record = some i ∧ c.entityAt? i = some (.ofType t) ∧
      (t.isRecord = true ∨ allowUnion = true ∧ t.isUnion = true) := by
  unfold recordSlot at h
  split at h
  · cases h
  · next j hj =>
      split at h
      · next t' ht' =>
          split at h
          · next hshape =>
              cases h
              rw [typeAt?, Option.bind_eq_some_iff] at ht'
              obtain ⟨e, he, htype⟩ := ht'
              have hofType : e = .ofType t := by
                cases e <;> simp_all [Entity.type?]
              subst hofType
              exact ⟨hj, he, by simpa using hshape⟩
          · cases h
      · cases h

end Records

end Catalog

namespace Step

open Catalog

theorem effect_register
    {c c' : Catalog} {e : Entity} {i : Nat}
    (h : c.register e = (.ok i, c')) :
    Effect (register e) c c' := by
  unfold Catalog.register at h
  split at h
  · next f =>
      unfold registerFunction at h
      split at h
      · next hnone =>
          obtain ⟨-, rfl⟩ := Prod.mk.inj h
          exact .opens (s := .register (.ofFunction f))
            (by simp [batch, Entity.qualified, isVacant, hnone])
      · next j hj =>
          split at h
          · next o ho =>
              obtain ⟨-, rfl⟩ := Prod.mk.inj h
              exact .retouches hj ho (.overload f o) (.inr ⟨rfl, rfl⟩)
          · simp at h
  · next header members =>
      unfold registerEnum at h
      split at h
      · simp at h
      · next hnone =>
          obtain ⟨-, rfl⟩ := Prod.mk.inj h
          exact .opens (s := .register (.ofType ⟨header, .enumeration members⟩))
            (isVacant_of_firstTaken?_eq_none hnone)
  · next hfun henum =>
      split at h
      · next hvacant =>
          obtain ⟨-, rfl⟩ := Prod.mk.inj h
          have hentries : (register e).entries = [(e.qualified, e)] := by
            cases e with
            | ofFunction f =>
                exact absurd rfl (hfun f)
            | ofType t =>
                obtain ⟨header, shape⟩ := t
                cases shape with
                | enumeration members =>
                    exact absurd rfl (henum header members)
                | _ =>
                    rfl
            | _ =>
                rfl
          have hopens : Effect (register e) c (c.pushAll (register e).entries) := by
            refine .opens ?_
            rw [← map_fst_entries, hentries]
            simpa using hvacant
          rwa [hentries] at hopens
      · simp at h

/-- The effects of a successful step that is not a query. -/
theorem effect_of_ok
    {s : Step} {c c' : Catalog}
    (hc : c.Coherent)
    (hupdate : s.IsUpdate)
    (h : s.apply c = (.ok (), c')) :
    Effect s c c' := by
  cases s with
  | register e =>
      simp only [apply] at h
      obtain ⟨hout, rfl⟩ := Prod.mk.inj h
      cases hreg : (c.register e).1 with
      | error err =>
          simp [hreg, Except.map] at hout
      | ok i =>
          exact effect_register (Prod.ext hreg rfl)
  | setMembersIn record scope members =>
      simp only [apply, Catalog.setMembersIn] at h
      split at h
      · simp at h
      · next i t hslot =>
          split at h
          · simp at h
          · obtain ⟨-, rfl⟩ := Prod.mk.inj h
            obtain ⟨hindex, hold, hshape⟩ := recordSlot_eq_ok hslot
            exact .retouches hindex hold (.members (by simpa using hshape)) (.inl rfl)
  | setBases record bases =>
      simp only [apply, Catalog.setBases] at h
      split at h
      · simp at h
      · next i t hslot =>
          obtain ⟨-, rfl⟩ := Prod.mk.inj h
          obtain ⟨hindex, hold, hshape⟩ := recordSlot_eq_ok hslot
          exact .retouches hindex hold (.bases (by simpa using hshape)) (.inl rfl)
  | put key e =>
      obtain ⟨-, rfl⟩ := Prod.mk.inj h
      unfold Catalog.put
      split
      · next i hi =>
          obtain ⟨old, hold⟩ :=
            Option.isSome_iff_exists.mp ((c.entityAt?_isSome_iff i).mpr (hc.lt_size hi))
          exact .retouches hi hold (.replace key old e) (.inr ⟨rfl, rfl⟩)
      · next hnone =>
          exact .opens (s := .put key e) (by simp [batch, isVacant, hnone])
  | resolve slot k =>
      cases hupdate
  | measure slot =>
      cases hupdate

end Step

namespace Catalog

/-- The slot that the index gives for a key has that key. -/
theorem Coherent.slot_of_indexOf?
    {c : Catalog} {key : String} {i : Nat} {e : Entity}
    (hc : c.Coherent)
    (hindex : c.indexOf? key = some i)
    (he : c.entityAt? i = some e) :
    c.slots[i]? = some ⟨key, e⟩ := by
  obtain ⟨key', hslot⟩ := c.entityAt?_eq_some_iff.mp he
  obtain ⟨slot, hslot', rfl⟩ := keys_getElem?_eq_some_iff.mp (hc.keys_of_indexOf? hindex)
  rw [hslot] at hslot'
  cases hslot'
  exact hslot

namespace Effect

variable {s : Step} {c c' : Catalog} {j : Nat}

theorem coherent
    (h : Effect s c c')
    (hc : c.Coherent) :
    c'.Coherent := by
  cases h with
  | opens hvacant =>
      exact hc.pushAll _
  | retouches hindex hold hnew hopened =>
      exact (hc.of_sameKeys (.setEntity c _ _)).pushAll _

/-- After a step, a key is one from before it or one of the step's batch. -/
theorem mem_keys_iff
    (h : Effect s c c')
    (hc : c.Coherent)
    {key : String} :
    key ∈ c'.keys ↔ key ∈ c.keys ∨ key ∈ s.batch := by
  cases h with
  | opens hvacant =>
      rw [keys_pushAll, Step.map_fst_entries, List.mem_append]
  | @retouches i name old new opened hindex hold hnew hopened =>
      rw [keys_pushAll, keys_setEntity]
      rcases hopened with rfl | ⟨rfl, hbatch⟩
      · rw [Step.map_fst_entries, List.mem_append]
      · have hname : name ∈ c.keys := hc.mem_keys_of_indexOf? hindex
        rw [hbatch, List.mem_singleton, List.map_nil, List.append_nil]
        constructor
        · exact .inl
        · rintro (hkey | rfl)
          · exact hkey
          · exact hname

/-- A slot stays where it is, with its key. -/
theorem exists_slot
    {slot : Slot}
    (h : Effect s c c')
    (hc : c.Coherent)
    (hslot : c.slots[j]? = some slot) :
    ∃ e, c'.slots[j]? = some ⟨slot.key, e⟩ ∧
      (e = slot.entity ∨ s.Retouches slot.key slot.entity e) := by
  have hlt : j < c.slots.size := (Array.getElem?_eq_some_iff.mp hslot).1
  cases h with
  | opens hvacant =>
      exact ⟨slot.entity, by rw [getElem?_slots_pushAll, if_pos hlt, hslot], .inl rfl⟩
  | @retouches i key old new opened hindex hold hnew hopened =>
      have hi := hc.slot_of_indexOf? hindex hold
      rw [getElem?_slots_pushAll, if_pos (by simpa using hlt), getElem?_slots_setEntity]
      by_cases hij : i = j
      · subst hij
        rw [hi] at hslot
        cases hslot
        exact ⟨new, by simp [hi], .inr hnew⟩
      · exact ⟨slot.entity, by rw [if_neg hij, hslot], .inl rfl⟩

/-- A slot after a step was there before it, with its key, or is one that the step opened. -/
theorem slot_cases
    {slot : Slot}
    (h : Effect s c c')
    (hc : c.Coherent)
    (hslot : c'.slots[j]? = some slot) :
    (∃ old, c.slots[j]? = some ⟨slot.key, old⟩ ∧
        (slot.entity = old ∨ s.Retouches slot.key old slot.entity)) ∨
      (c.slots.size ≤ j ∧ (slot.key, slot.entity) ∈ s.entries) := by
  by_cases hlt : j < c.slots.size
  · obtain ⟨slot', hslot'⟩ : ∃ slot', c.slots[j]? = some slot' :=
      ⟨_, Array.getElem?_eq_getElem hlt⟩
    obtain ⟨e, he, hchange⟩ := h.exists_slot hc hslot'
    rw [hslot] at he
    cases he
    exact .inl ⟨slot'.entity, hslot', hchange⟩
  · refine .inr ⟨Nat.le_of_not_lt hlt, ?_⟩
    -- beyond the old slots there is only what the step opened
    have hopened : ∀ (d : Catalog) (opened : List (String × Entity)),
        d.slots.size = c.slots.size → (d.pushAll opened).slots[j]? = some slot →
        (slot.key, slot.entity) ∈ opened := by
      intro d opened hsize hfound
      rw [getElem?_slots_pushAll, hsize, if_neg hlt, Option.map_eq_some_iff] at hfound
      obtain ⟨p, hp, rfl⟩ := hfound
      exact List.mem_of_getElem? hp
    cases h with
    | opens hvacant =>
        exact hopened c _ rfl hslot
    | @retouches i key old new opened hindex hold hnew hentries =>
        have hmem := hopened (c.setEntity i new) opened (by simp) hslot
        rcases hentries with rfl | ⟨rfl, -⟩
        · exact hmem
        · cases hmem

end Effect
end Catalog
end TypeCatalog
