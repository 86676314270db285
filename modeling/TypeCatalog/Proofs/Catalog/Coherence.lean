import Mathlib.Data.List.Induction
import Mathlib.Data.List.Nodup
import TypeCatalog.Catalog.Register
import TypeCatalog.Catalog.Resolve

/-!
# Keys, slots and the index of a catalog

**State.** The keys of a catalog are read off its slots; the index is a second record of them. A
catalog is coherent when the index points every key to the last slot that has it, and knows no
other name.

**Results.**
* `Coherent.push`, `Coherent.of_sameKeys`: both primitive changes keep a catalog coherent.
* `Coherent.isVacant_iff`: in a coherent catalog the test for vacancy is exact.
* `Coherent.distinctKeys_iff_found`: the keys of a coherent catalog are distinct exactly when every
  slot is found under its key.
-/

namespace TypeCatalog
namespace Catalog

/-- The keys of the slots, in order. -/
def keys
    (c : Catalog) :
    List String :=
  c.slots.toList.map (·.key)

/-- The index points every key to the last slot that has it, and knows no other name. -/
def Coherent
    (c : Catalog) :
    Prop :=
  ∀ name i, c.indexOf? name = some i ↔
    c.keys[i]? = some name ∧ ∀ j, i < j → c.keys[j]? ≠ some name

/-- No two slots have the same key. -/
def DistinctKeys
    (c : Catalog) :
    Prop :=
  c.keys.Nodup

section Primitives

variable (c : Catalog)

@[simp] theorem keys_empty :
    empty.keys = [] :=
  rfl

@[simp] theorem length_keys :
    c.keys.length = c.slots.size := by
  simp [keys]

@[simp] theorem keys_push
    (key : String) (e : Entity) :
    (c.push key e).keys = c.keys ++ [key] := by
  simp [keys, push]

theorem indexOf?_push
    (key : String) (e : Entity) (name : String) :
    (c.push key e).indexOf? name = if key = name then some c.slots.size else c.indexOf? name := by
  simp [indexOf?, push, Std.TreeMap.getElem?_insert, Std.LawfulEqCmp.compare_eq_iff_eq]

theorem entityAt?_push
    (key : String) (e : Entity) (i : Nat) :
    (c.push key e).entityAt? i = if i = c.slots.size then some e else c.entityAt? i := by
  by_cases h : i = c.slots.size <;> simp [entityAt?, push, Array.getElem?_push, h]

@[simp] theorem indexOf?_setEntity
    (i : Nat) (e : Entity) (name : String) :
    (c.setEntity i e).indexOf? name = c.indexOf? name :=
  rfl

@[simp] theorem keys_setEntity
    (i : Nat) (e : Entity) :
    (c.setEntity i e).keys = c.keys := by
  apply List.ext_getElem?
  intro j
  by_cases hj : i = j
  · subst hj
    cases hs : c.slots[i]? <;> simp [keys, setEntity, hs]
  · simp [keys, setEntity, hj]

theorem entityAt?_setEntity
    (i : Nat) (e : Entity) (j : Nat) :
    (c.setEntity i e).entityAt? j =
      if i = j then (c.entityAt? j).map fun _ => e else c.entityAt? j := by
  by_cases hj : i = j
  · cases hs : c.slots[j]? <;> simp [entityAt?, setEntity, Array.getElem?_modify, hs, hj]
  · simp [entityAt?, setEntity, Array.getElem?_modify, hj]

@[simp] theorem setEntity_size
    (i : Nat) (e : Entity) :
    (c.setEntity i e).slots.size = c.slots.size := by
  simp [setEntity]

theorem entityAt?_isSome_iff
    (i : Nat) :
    (c.entityAt? i).isSome ↔ i < c.slots.size := by
  by_cases h : i < c.slots.size <;> simp [entityAt?, h]

end Primitives

/-- A name that occurs in a list of keys has a last occurrence. -/
theorem exists_last_of_mem
    {ks : List String} {name : String}
    (h : name ∈ ks) :
    ∃ i : Nat, ks[i]? = some name ∧ ∀ j, i < j → ks[j]? ≠ some name := by
  induction ks using List.reverseRecOn with
  | nil =>
      simp at h
  | append_singleton ks key ih =>
      by_cases hk : key = name
      · refine ⟨ks.length, by simp [hk], ?_⟩
        intro j hj
        rw [List.getElem?_eq_none (by simp; omega)]
        simp
      · have hmem : name ∈ ks := by
          rcases List.mem_append.mp h with h | h
          · exact h
          · exact absurd (List.mem_singleton.mp h).symm hk
        obtain ⟨i, hi, hlast⟩ := ih hmem
        have hlt : i < ks.length := (List.getElem?_eq_some_iff.mp hi).1
        refine ⟨i, by rw [List.getElem?_append_left hlt, hi], ?_⟩
        intro j hj
        rcases Nat.lt_trichotomy j ks.length with hjl | rfl | hjl
        · rw [List.getElem?_append_left hjl]
          exact hlast j hj
        · simp [hk]
        · rw [List.getElem?_eq_none (by simp; omega)]
          simp

theorem coherent_empty :
    empty.Coherent := by
  intro name i
  simp [indexOf?, empty, keys]

namespace Coherent

variable {c : Catalog} (hc : c.Coherent)
include hc

theorem keys_of_indexOf?
    {name : String} {i : Nat}
    (h : c.indexOf? name = some i) :
    c.keys[i]? = some name :=
  ((hc name i).mp h).1

theorem mem_keys_of_indexOf?
    {name : String} {i : Nat}
    (h : c.indexOf? name = some i) :
    name ∈ c.keys :=
  List.mem_of_getElem? (hc.keys_of_indexOf? h)

theorem lt_size
    {name : String} {i : Nat}
    (h : c.indexOf? name = some i) :
    i < c.slots.size := by
  have hlt := (List.getElem?_eq_some_iff.mp (hc.keys_of_indexOf? h)).1
  simpa using hlt

theorem exists_indexOf?_of_mem
    {name : String}
    (h : name ∈ c.keys) :
    ∃ i, c.indexOf? name = some i := by
  obtain ⟨i, hi, hlast⟩ := exists_last_of_mem h
  exact ⟨i, (hc name i).mpr ⟨hi, hlast⟩⟩

theorem indexOf?_eq_none_iff
    {name : String} :
    c.indexOf? name = none ↔ name ∉ c.keys := by
  constructor
  · intro hnone hmem
    obtain ⟨i, hi⟩ := hc.exists_indexOf?_of_mem hmem
    simp [hnone] at hi
  · intro hnot
    cases hi : c.indexOf? name with
    | none =>
        rfl
    | some i =>
        exact absurd (hc.mem_keys_of_indexOf? hi) hnot

/-- The test for vacancy is exact. -/
theorem isVacant_iff
    {name : String} :
    c.isVacant name = true ↔ name ∉ c.keys := by
  rw [isVacant, Option.isNone_iff_eq_none, hc.indexOf?_eq_none_iff]

theorem lookup_eq_none_iff
    {name : String} :
    c.lookup name = none ↔ name ∉ c.keys := by
  rw [← hc.indexOf?_eq_none_iff, lookup]
  cases hi : c.indexOf? name with
  | none =>
      simp
  | some i =>
      have hsome := (c.entityAt?_isSome_iff i).mpr (hc.lt_size hi)
      simp [Option.isSome_iff_ne_none.mp hsome]

theorem push
    (key : String) (e : Entity) :
    (c.push key e).Coherent := by
  intro name i
  rw [indexOf?_push, keys_push]
  by_cases hk : key = name
  · subst hk
    simp only [if_true, Option.some.injEq]
    constructor
    · rintro rfl
      refine ⟨by simp, ?_⟩
      intro j hj
      rw [List.getElem?_eq_none (by simp; omega)]
      simp
    · rintro ⟨hi, hlast⟩
      have hle : i < (c.keys ++ [key]).length := (List.getElem?_eq_some_iff.mp hi).1
      rcases Nat.lt_or_ge i c.slots.size with hlt | hge
      · have hend := hlast c.slots.size hlt
        simp at hend
      · simp at hle
        omega
  · have hold : ∀ j : Nat, (c.keys ++ [key])[j]? = some name ↔ c.keys[j]? = some name := by
      intro j
      rcases Nat.lt_trichotomy j c.keys.length with hj | rfl | hj
      · rw [List.getElem?_append_left hj]
      · simp [hk]
      · rw [List.getElem?_eq_none (by simp; simp at hj; omega), List.getElem?_eq_none (by omega)]
    rw [if_neg hk, hc name i, hold i]
    simp only [ne_eq, hold]

end Coherent

/-- Nothing but entities differs. -/
structure SameKeys
    (c c' : Catalog) :
    Prop where
  keys_eq : c'.keys = c.keys
  indexOf?_eq : ∀ name, c'.indexOf? name = c.indexOf? name

namespace SameKeys

theorem refl
    (c : Catalog) :
    SameKeys c c :=
  ⟨rfl, fun _ => rfl⟩

theorem trans
    {c d e : Catalog}
    (h : SameKeys c d)
    (h' : SameKeys d e) :
    SameKeys c e :=
  ⟨h'.keys_eq.trans h.keys_eq, fun name => (h'.indexOf?_eq name).trans (h.indexOf?_eq name)⟩

theorem setEntity
    (c : Catalog) (i : Nat) (e : Entity) :
    SameKeys c (c.setEntity i e) :=
  ⟨by simp, fun _ => rfl⟩

end SameKeys

theorem Coherent.of_sameKeys
    {c c' : Catalog}
    (hc : c.Coherent)
    (h : SameKeys c c') :
    c'.Coherent := by
  intro name i
  rw [h.indexOf?_eq, h.keys_eq]
  exact hc name i

/-- In a coherent catalog the keys are distinct exactly when the index finds every slot. -/
theorem Coherent.distinctKeys_iff
    {c : Catalog}
    (hc : c.Coherent) :
    c.DistinctKeys ↔ ∀ i name, c.keys[i]? = some name → c.indexOf? name = some i := by
  constructor
  · intro hd i name hi
    refine (hc name i).mpr ⟨hi, ?_⟩
    intro j hj hjn
    have hlt : i < c.keys.length := (List.getElem?_eq_some_iff.mp hi).1
    have hij : i = j := (List.getElem?_inj hlt hd).mp (hi.trans hjn.symm)
    omega
  · intro h
    rw [DistinctKeys, List.nodup_iff_getElem?_ne_getElem?]
    intro i j hij hj heq
    obtain ⟨name, hname⟩ : ∃ name, c.keys[j]? = some name := ⟨_, List.getElem?_eq_getElem hj⟩
    have hi' := h i name (heq.trans hname)
    have hj' := h j name hname
    rw [hi'] at hj'
    have : i = j := Option.some.inj hj'
    omega

theorem keys_getElem?_eq_some_iff
    {c : Catalog} {i : Nat} {name : String} :
    c.keys[i]? = some name ↔ ∃ slot, c.slots[i]? = some slot ∧ slot.key = name := by
  simp [keys]

/-- In a coherent catalog the keys are distinct exactly when every slot is found under its key. -/
theorem Coherent.distinctKeys_iff_found
    {c : Catalog}
    (hc : c.Coherent) :
    c.DistinctKeys ↔ ∀ i slot, c.slots[i]? = some slot →
      c.indexOf? slot.key = some i ∧ c.lookup slot.key = some slot.entity := by
  rw [hc.distinctKeys_iff]
  constructor
  · intro h i slot hslot
    have hindex := h i slot.key (keys_getElem?_eq_some_iff.mpr ⟨slot, hslot, rfl⟩)
    exact ⟨hindex, by simp [lookup, hindex, entityAt?, hslot]⟩
  · intro h i name hname
    obtain ⟨slot, hslot, rfl⟩ := keys_getElem?_eq_some_iff.mp hname
    exact (h i slot hslot).1

theorem nodup_allNames_iff
    {c : Catalog} :
    c.allNames.Nodup ↔ c.DistinctKeys :=
  (List.mergeSort_perm _ _).nodup_iff

end Catalog
end TypeCatalog
