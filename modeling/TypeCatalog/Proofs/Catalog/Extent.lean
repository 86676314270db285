import Mathlib.Data.Finset.Card
import Mathlib.Data.List.Forall2
import Mathlib.Logic.Relation
import TypeCatalog.Proofs.Catalog.Memo

/-!
# Sizes of types

**Rule.** A type with a recorded size, and any type that is no union, has the recorded size. A union
without a recorded size has the largest of the sizes of the types of its data members, as the
catalog holds them. This is `HasSize`; it does not look at computed sizes.

**Invariant.** A catalog is fresh when every computed size that it keeps is the size of its union.

**Results.**
* `HasSize.unique`: a type has at most one size.
* `hasSize_iff_of_largest`: the size of a union, from the sizes of its members' types.
* `Acyclic.within`: when no union contains itself, a descent through unions is at most as deep as
  there are slots.
-/

namespace TypeCatalog

/-- What the size of a type is taken from. -/
inductive Extent where
  | fixed (size : UInt64)
  /-- The largest of the types in some slots; a reference may not resolve to one. -/
  | largest (targets : List (Except CatalogError Nat))
deriving DecidableEq

/-- The computed size that a union without a recorded size carries. -/
def DataType.carried? :
    DataType → Option UInt64
  | ⟨header, .union _ computed⟩ => if header.size = 0 then computed else none
  | _ => none

namespace Catalog

section Sizes

/-- What the types of the data members resolve to. -/
def dataTargets
    (c : Catalog) (members : List Member) :
    List (Except CatalogError Nat) :=
  (members.filter (·.isData)).map fun m => (c.resolve m.type).1

/-- What the size of a type is taken from, computed sizes apart. -/
def extentOf
    (c : Catalog) :
    DataType → Extent
  | ⟨header, .union members _⟩ =>
      if header.size = 0 then .largest (c.dataTargets members) else .fixed header.size
  | ⟨header, _⟩ => .fixed header.size

/-- What the size of the type in a slot is taken from. -/
def extentAt?
    (c : Catalog) (i : Nat) :
    Option Extent :=
  (c.typeAt? i).map c.extentOf

/-- The size of the type in a slot. -/
inductive HasSize
    (c : Catalog) :
    Nat → UInt64 → Prop
  | fixed
      {i : Nat} {n : UInt64}
      (h : c.extentAt? i = some (.fixed n)) :
      HasSize c i n
  | largest
      {i : Nat} {targets : List Nat} {sizes : Nat → UInt64}
      (h : c.extentAt? i = some (.largest (targets.map .ok)))
      (hsizes : ∀ t ∈ targets, HasSize c t (sizes t)) :
      HasSize c i ((targets.map sizes).foldl max 0)

/-- All references resolve to types with a size, and the largest of these and `best` is `n`. -/
def LargestOf
    (c : Catalog) (outcomes : List (Except CatalogError Nat)) (best n : UInt64) :
    Prop :=
  ∃ targets sizes, outcomes = targets.map .ok ∧ List.Forall₂ c.HasSize targets sizes ∧
    n = sizes.foldl max best

/-- A union without a recorded size has a data member whose type is in the slot `j`. -/
def Contains
    (c : Catalog) (i j : Nat) :
    Prop :=
  ∃ targets, c.extentAt? i = some (.largest targets) ∧ .ok j ∈ targets

/-- No union contains itself, directly or through other unions. -/
def Acyclic
    (c : Catalog) :
    Prop :=
  ∀ i, ¬ Relation.TransGen c.Contains i i

/-- The computed size that is kept in a slot. -/
def kept?
    (c : Catalog) (i : Nat) :
    Option UInt64 :=
  (c.typeAt? i).bind DataType.carried?

/-- Every computed size that is kept is the size of its union. -/
def Fresh
    (c : Catalog) :
    Prop :=
  ∀ i n, c.kept? i = some n → c.HasSize i n

variable {c : Catalog}

theorem HasSize.unique
    {i : Nat} {m n : UInt64}
    (hm : c.HasSize i m)
    (hn : c.HasSize i n) :
    m = n := by
  induction hm generalizing n with
  | fixed h =>
      cases hn with
      | fixed h' =>
          rw [h] at h'
          cases h'
          rfl
      | largest h' _ =>
          rw [h] at h'
          cases h'
  | @largest i targets sizes h hsizes ih =>
      cases hn with
      | fixed h' =>
          rw [h] at h'
          cases h'
      | @largest _ targets' sizes' h' hsizes' =>
          rw [h] at h'
          have hsame := Extent.largest.inj (Option.some.inj h')
          obtain rfl := List.map_injective_iff.mpr (fun a b hab => Except.ok.inj hab) hsame
          rw [List.map_congr_left fun t ht => ih t ht (hsizes' t ht)]

/-- The size of a union without a recorded size. -/
theorem hasSize_iff_of_largest
    {i : Nat} {outcomes : List (Except CatalogError Nat)} {n : UInt64}
    (h : c.extentAt? i = some (.largest outcomes)) :
    c.HasSize i n ↔ c.LargestOf outcomes 0 n := by
  constructor
  · intro hn
    cases hn with
    | fixed h' =>
        rw [h] at h'
        cases h'
    | @largest _ targets sizes h' hsizes =>
        rw [h] at h'
        cases h'
        refine ⟨targets, targets.map sizes, rfl, ?_, rfl⟩
        rw [List.forall₂_map_right_iff, List.forall₂_same]
        exact hsizes
  · rintro ⟨targets, sizes, rfl, hsizes, rfl⟩
    -- the sizes as a function of the slots
    have hone : ∀ t, ∃ size, ∀ n, c.HasSize t n → size = n := by
      intro t
      by_cases hex : ∃ n, c.HasSize t n
      · obtain ⟨size, hsize⟩ := hex
        exact ⟨size, fun n hn => hsize.unique hn⟩
      · exact ⟨0, fun n hn => absurd ⟨n, hn⟩ hex⟩
    choose size hsize using hone
    have hall : ∀ targets sizes, List.Forall₂ c.HasSize targets sizes →
        targets.map size = sizes ∧ ∀ t ∈ targets, c.HasSize t (size t) := by
      intro targets sizes hsizes
      induction hsizes with
      | nil =>
          simp
      | cons hn _ ih =>
          obtain rfl := hsize _ _ hn
          simpa [ih.1, hn] using ih.2
    obtain ⟨rfl, heach⟩ := hall targets sizes hsizes
    exact .largest h heach

theorem largestOf_nil
    {best n : UInt64} :
    c.LargestOf [] best n ↔ n = best := by
  constructor
  · rintro ⟨targets, sizes, htargets, hsizes, rfl⟩
    obtain rfl : targets = [] := by
      simpa using htargets.symm
    cases hsizes
    rfl
  · rintro rfl
    exact ⟨[], [], rfl, .nil, rfl⟩

theorem not_largestOf_error
    {e : CatalogError} {outcomes : List (Except CatalogError Nat)} {best n : UInt64} :
    ¬ c.LargestOf (.error e :: outcomes) best n := by
  rintro ⟨targets, sizes, htargets, -, -⟩
  cases targets <;> simp at htargets

theorem largestOf_ok
    {t : Nat} {outcomes : List (Except CatalogError Nat)} {best n : UInt64} :
    c.LargestOf (.ok t :: outcomes) best n ↔
      ∃ m, c.HasSize t m ∧ c.LargestOf outcomes (max best m) n := by
  constructor
  · rintro ⟨targets, sizes, htargets, hsizes, rfl⟩
    cases hsizes with
    | nil =>
        simp at htargets
    | @cons t' m targets sizes hm hsizes =>
        obtain ⟨rfl, rfl⟩ : t = t' ∧ outcomes = targets.map .ok := by
          simpa using htargets
        exact ⟨m, hm, targets, sizes, rfl, hsizes, rfl⟩
  · rintro ⟨m, hm, targets, sizes, rfl, hsizes, rfl⟩
    exact ⟨t :: targets, m :: sizes, rfl, .cons hm hsizes, rfl⟩

theorem hasSize_iff_of_fixed
    {i : Nat} {m n : UInt64}
    (h : c.extentAt? i = some (.fixed m)) :
    c.HasSize i n ↔ n = m := by
  constructor
  · intro hn
    exact hn.unique (.fixed h)
  · rintro rfl
    exact .fixed h

theorem exists_typeAt?_of_extent
    {i : Nat} {extent : Extent}
    (h : c.extentAt? i = some extent) :
    ∃ t, c.typeAt? i = some t ∧ c.extentOf t = extent := by
  simpa [extentAt?] using h

theorem HasSize.exists_typeAt?
    {i : Nat} {n : UInt64}
    (h : c.HasSize i n) :
    ∃ t, c.typeAt? i = some t := by
  cases h with
  | fixed h | largest h _ =>
      obtain ⟨t, ht, -⟩ := exists_typeAt?_of_extent h
      exact ⟨t, ht⟩

theorem lt_size_of_typeAt?
    {i : Nat} {t : DataType}
    (h : c.typeAt? i = some t) :
    i < c.size :=
  (c.entityAt?_isSome_iff i).mp (by simp [typeAt?_eq_some_iff.mp h])

end Sizes

section Depth

variable {c : Catalog}

/-- The unions that a type contains are at most `depth` levels deep. -/
def Within
    (c : Catalog) :
    Nat → Nat → Prop
  | 0, _ => False
  | depth + 1, i => ∀ j, c.Contains i j → c.Within depth j

theorem Contains.lt_size
    {i j : Nat}
    (h : c.Contains i j) :
    i < c.size := by
  obtain ⟨targets, hextent, -⟩ := h
  obtain ⟨t, ht, -⟩ := exists_typeAt?_of_extent hextent
  exact lt_size_of_typeAt? ht

/-- When no union contains itself, a descent meets no slot twice. So it ends after as many levels as
there are slots. -/
theorem Acyclic.within
    (h : c.Acyclic) (i : Nat) :
    c.Within (c.size + 1) i := by
  -- the slots above the current one are distinct
  have hdescent : ∀ (depth : Nat) (above : Finset Nat) (i : Nat),
      (∀ a ∈ above, a < c.size ∧ Relation.TransGen c.Contains a i) →
      c.size + 1 ≤ depth + above.card → c.Within depth i := by
    intro depth
    induction depth with
    | zero =>
        intro above i habove hcard
        have hle : above.card ≤ c.size := by
          have hsub : above ⊆ Finset.range c.size := by
            intro a ha
            exact Finset.mem_range.mpr (habove a ha).1
          simpa using Finset.card_le_card hsub
        omega
    | succ depth ih =>
        intro above i habove hcard j hj
        have hnew : i ∉ above := fun hi => h i (habove i hi).2
        refine ih (insert i above) j ?_ ?_
        · intro a ha
          rcases Finset.mem_insert.mp ha with rfl | ha
          · exact ⟨hj.lt_size, .single hj⟩
          · exact ⟨(habove a ha).1, (habove a ha).2.tail hj⟩
        · rw [Finset.card_insert_of_notMem hnew]
          omega
  exact hdescent _ ∅ i (by simp) (by simp)

/-- Unions that contain types in earlier slots only do not contain themselves. -/
theorem acyclic_of_descending
    (h : ∀ i j, c.Contains i j → j < i) :
    c.Acyclic := by
  have hlt : ∀ i j, Relation.TransGen c.Contains i j → j < i := by
    intro i j hij
    induction hij with
    | single hij =>
        exact h _ _ hij
    | tail _ hjk ih =>
        exact (h _ _ hjk).trans ih
  exact fun i hi => Nat.lt_irrefl i (hlt i i hi)

end Depth

end Catalog
end TypeCatalog
