import TypeCatalog.Proofs.Catalog.Locality

/-!
# What a name finds after the successful steps of a run

**Input.** A run of steps, each of which may fail.

**Rule.** A step that fails changes nothing, so a run leads where its successful steps lead. After a
successful registration a name finds what it found before, or what the step opened under a vacant
name, or what the step made of the entity under the name.

**Results.**
* `trace_successes`: a run amounts to its successful steps.
* `Step.finds_of_ok`: what a name finds after one of them.
-/

namespace TypeCatalog

/-- The steps that succeed when all are taken one after the other. -/
def successes :
    Catalog → List Step → List Step
  | _, [] => []
  | c, s :: steps =>
      match s.apply c with
      | (.ok _, c') => s :: successes c' steps
      | (.error _, c') => successes c' steps

theorem successes_sublist
    (c : Catalog) (steps : List Step) :
    (successes c steps).Sublist steps := by
  induction steps generalizing c with
  | nil =>
      exact .slnil
  | cons s steps ih =>
      rw [successes]
      split
      · next c' _ =>
          exact (ih c').cons_cons s
      · next c' _ =>
          exact (ih c').cons s

/-- A run of steps amounts to the successful ones. -/
theorem trace_successes
    (c : Catalog) (steps : List Step) :
    Trace c (successes c steps) ((steps.map Action.step).foldl Catalog.after c) := by
  induction steps generalizing c with
  | nil =>
      exact .nil c
  | cons s steps ih =>
      rw [successes, List.map_cons, List.foldl_cons, Catalog.after]
      split
      · next c' happly =>
          rw [happly]
          exact .cons happly (ih c')
      · next err c' happly =>
          obtain rfl : c' = c := s.eq_of_error happly
          rw [happly]
          exact ih c'

namespace Catalog

variable {c : Catalog}

section Lookups

variable (hc : c.Coherent)
include hc

theorem Coherent.lookup_push
    (key : String) (e : Entity) (name : String) :
    (c.push key e).lookup name = if key = name then some e else c.lookup name := by
  by_cases hk : key = name
  · simp [lookup, indexOf?_push, entityAt?_push, hk]
  · simp only [lookup, indexOf?_push, if_neg hk]
    cases hn : c.indexOf? name with
    | none =>
        rfl
    | some j =>
        have hlt : j < c.slots.size := hc.lt_size hn
        simp [entityAt?_push, Nat.ne_of_lt hlt]

theorem Coherent.lookup_setEntity
    {key : String} {i : Nat}
    (hindex : c.indexOf? key = some i) (e : Entity) (name : String) :
    (c.setEntity i e).lookup name = if key = name then some e else c.lookup name := by
  have hput : (c.put key e).2.lookup name = if key = name then some e else c.lookup name :=
    hc.lookup_put
  simpa only [Catalog.put, hindex] using hput

theorem Coherent.lookup_pushAll_of_not_mem
    {entries : List (String × Entity)} {name : String}
    (hname : name ∉ entries.map Prod.fst) :
    (c.pushAll entries).lookup name = c.lookup name := by
  induction entries generalizing c with
  | nil =>
      rfl
  | cons p entries ih =>
      simp only [List.map_cons, List.mem_cons, not_or] at hname
      have hrest := ih (hc.push p.1 p.2) hname.2
      rw [hc.lookup_push, if_neg (Ne.symm hname.1)] at hrest
      exact hrest

theorem Coherent.lookup_pushAll_of_mem
    {entries : List (String × Entity)} {name : String}
    (hname : name ∈ entries.map Prod.fst) :
    ∃ e, (name, e) ∈ entries ∧ (c.pushAll entries).lookup name = some e := by
  induction entries generalizing c with
  | nil =>
      cases hname
  | cons p entries ih =>
      by_cases hlater : name ∈ entries.map Prod.fst
      · obtain ⟨e, he, hlookup⟩ := ih (hc.push p.1 p.2) hlater
        exact ⟨e, List.mem_cons_of_mem p he, hlookup⟩
      · obtain rfl : name = p.1 := by
          rcases List.mem_cons.mp hname with h | h
          · exact h
          · exact absurd h hlater
        have hrest := (hc.push p.1 p.2).lookup_pushAll_of_not_mem hlater
        rw [hc.lookup_push, if_pos rfl] at hrest
        exact ⟨p.2, by simp, hrest⟩

/-- What names find after the entity of a key has been changed and slots for vacant keys have been
opened. -/
theorem Coherent.lookup_retouched
    {key : String} {i : Nat} {opened : List (String × Entity)}
    (hindex : c.indexOf? key = some i)
    (hvacant : ∀ k ∈ opened.map Prod.fst, c.isVacant k = true)
    (new : Entity) (name : String) :
    name = key ∧ ((c.setEntity i new).pushAll opened).lookup name = some new ∨
      name ≠ key ∧ name ∉ opened.map Prod.fst ∧
        ((c.setEntity i new).pushAll opened).lookup name = c.lookup name ∨
      name ≠ key ∧ c.lookup name = none ∧
        ∃ e, (name, e) ∈ opened ∧ ((c.setEntity i new).pushAll opened).lookup name = some e := by
  have hset : (c.setEntity i new).Coherent := hc.of_sameKeys (.setEntity c i new)
  have hentity := hc.lookup_setEntity hindex new name
  by_cases hopened : name ∈ opened.map Prod.fst
  · have hfree := hvacant name hopened
    have hne : name ≠ key := by
      rintro rfl
      simp [isVacant, hindex] at hfree
    have hnone : c.lookup name = none := by
      rw [hc.lookup_eq_none_iff]
      exact hc.isVacant_iff.mp hfree
    exact .inr (.inr ⟨hne, hnone, hset.lookup_pushAll_of_mem hopened⟩)
  · rw [hset.lookup_pushAll_of_not_mem hopened, hentity]
    by_cases hk : name = key
    · exact .inl ⟨hk, if_pos hk.symm⟩
    · exact .inr (.inl ⟨hk, hopened, if_neg (Ne.symm hk)⟩)

end Lookups

theorem lookup_eq_of_indexOf?
    {name : String} {i : Nat} {e : Entity}
    (hindex : c.indexOf? name = some i)
    (he : c.entityAt? i = some e) :
    c.lookup name = some e := by
  rw [lookup, hindex]
  exact he

end Catalog

namespace Step

open Catalog

/-- What a name finds before and after a step. -/
inductive Finds
    (s : Step) (name : String) :
    Option Entity → Option Entity → Prop
  | kept
      {found : Option Entity}
      (hbatch : name ∉ s.batch)
      (hfilled : s.filled? ≠ some name) :
      Finds s name found found
  | opened
      {e : Entity}
      (hfilled : s.filled? ≠ some name)
      (he : (name, e) ∈ s.entries) :
      Finds s name none (some e)
  | retouched
      {old new : Entity}
      (h : s.Retouches name old new) :
      Finds s name (some old) (some new)

variable {s : Step} {c c' : Catalog}

/-- What a step makes of the record that it fills. -/
theorem retouches_of_filled
    {record : String}
    (hfilled : s.filled? = some record)
    (h : s.apply c = (.ok (), c')) :
    ∃ i old new, c.indexOf? record = some i ∧ c.entityAt? i = some old ∧
      s.Retouches record old new ∧ c' = (c.setEntity i new).pushAll s.entries ∧
      ∀ key ∈ s.entries.map Prod.fst, c.isVacant key = true := by
  cases s with
  | setMembersIn record' scope members =>
      obtain rfl : record' = record := Option.some.inj hfilled
      simp only [apply, Catalog.setMembersIn] at h
      split at h
      · simp at h
      · next i t hslot =>
          split at h
          · simp at h
          · next hnone =>
              obtain ⟨-, rfl⟩ := Prod.mk.inj h
              obtain ⟨hindex, hold, hshape⟩ := recordSlot_eq_ok hslot
              exact ⟨i, _, _, hindex, hold, .members (by simpa using hshape), rfl,
                isVacant_of_firstTaken?_eq_none hnone⟩
  | setBases record' bases =>
      obtain rfl : record' = record := Option.some.inj hfilled
      simp only [apply, Catalog.setBases] at h
      split at h
      · simp at h
      · next i t hslot =>
          obtain ⟨-, rfl⟩ := Prod.mk.inj h
          obtain ⟨hindex, hold, hshape⟩ := recordSlot_eq_ok hslot
          exact ⟨i, _, _, hindex, hold, .bases (by simpa using hshape), rfl, by simp [entries]⟩
  | _ =>
      cases hfilled

/-- The slots that a step opens beside a changed one are for vacant keys. -/
theorem isVacant_of_opened
    {i : Nat} {new : Entity} {opened : List (String × Entity)}
    (h : s.apply c = (.ok (), (c.setEntity i new).pushAll opened)) :
    ∀ key ∈ opened.map Prod.fst, c.isVacant key = true := by
  obtain ⟨added, -, hext⟩ := extends_of_ok h
  have hkeys := hext.keys_eq
  rw [keys_pushAll, keys_setEntity] at hkeys
  rw [List.append_cancel_left hkeys]
  obtain ⟨d, entries, -, -, -, hvacant⟩ := hext
  exact hvacant

/-- What a name finds after a step has changed the entity of a key, and has opened its entries beside
it or none. -/
theorem finds_retouched
    {key name : String} {i : Nat} {old new : Entity} {opened : List (String × Entity)}
    (hc : c.Coherent)
    (hindex : c.indexOf? key = some i)
    (hold : c.entityAt? i = some old)
    (hnew : s.Retouches key old new)
    (hopened : opened = s.entries ∨ opened = [] ∧ s.batch = [key])
    (hvacant : ∀ k ∈ opened.map Prod.fst, c.isVacant k = true)
    (hfilled : name ≠ key → s.filled? ≠ some name) :
    s.Finds name (c.lookup name) (((c.setEntity i new).pushAll opened).lookup name) := by
  obtain ⟨rfl, hafter⟩ | ⟨hne, hnot, hafter⟩ | ⟨hne, hnone, e, he, hafter⟩ :=
    hc.lookup_retouched hindex hvacant new name
  · rw [hafter, lookup_eq_of_indexOf? hindex hold]
    exact .retouched hnew
  · rw [hafter]
    refine .kept ?_ (hfilled hne)
    rcases hopened with rfl | ⟨-, hbatch⟩
    · exact map_fst_entries s ▸ hnot
    · rw [hbatch]
      exact fun hmem => hne (List.mem_singleton.mp hmem)
  · rw [hafter, hnone]
    rcases hopened with rfl | ⟨rfl, -⟩
    · exact .opened (hfilled hne) he
    · cases he

/-- What a name finds after a successful registration. -/
theorem finds_of_ok
    (hc : c.Coherent)
    (hs : s.IsRegistration)
    (h : s.apply c = (.ok (), c')) (name : String) :
    s.Finds name (c.lookup name) (c'.lookup name) := by
  cases hfilled : s.filled? with
  | some record =>
      obtain ⟨i, old, new, hindex, hold, hnew, rfl, hvacant⟩ := retouches_of_filled hfilled h
      refine finds_retouched hc hindex hold hnew (.inl rfl) hvacant fun hne heq => ?_
      exact hne (Option.some.inj (heq.symm.trans hfilled))
  | none =>
      have hunfilled : s.filled? ≠ some name := by
        rw [hfilled]
        exact Option.some_ne_none name ∘ Eq.symm
      cases effect_of_ok hc hs.isUpdate h with
      | opens hvacant =>
          by_cases hname : name ∈ s.batch
          · have hnone : c.lookup name = none := by
              rw [hc.lookup_eq_none_iff]
              exact hc.isVacant_iff.mp (hvacant name hname)
            obtain ⟨e, he, hafter⟩ :=
              hc.lookup_pushAll_of_mem (map_fst_entries s ▸ hname : name ∈ s.entries.map Prod.fst)
            rw [hafter, hnone]
            exact .opened hunfilled he
          · rw [hc.lookup_pushAll_of_not_mem (map_fst_entries s ▸ hname)]
            exact .kept hname hunfilled
      | retouches hindex hold hnew hopened =>
          exact finds_retouched hc hindex hold hnew hopened (isVacant_of_opened h) fun _ => hunfilled

end Step
end TypeCatalog
