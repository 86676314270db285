import TypeCatalog.Proofs.Spelling.ArrayRanks
import TypeCatalog.Proofs.Spelling.Distinctness
import TypeCatalog.Proofs.Text.Numerals
import Mathlib.Data.List.TakeWhile

/-!
# Names of arrays, made from the element or spelled for a document

**Input.** The spelling of an element type and a length, zero standing for an unknown bound.

**Rule.** An array that is made from its element has its dimension in front of the first `[` of the
spelling, or at the end. For a document, a dimension goes to the end of the declarator group, or else
in front of the first `[` outside of template brackets, or else to the end.

**Notions.** An element is plain when it has no group, and no bracket is counted as open at its first
`[`. `RepeatsDimension e bound` says that from the first `[` up to the place of a dimension there is
nothing but the dimension itself, any number of times.

**Results.**
* `insertion_eq_iff`: when a dimension at two places gives the same text.
* `DimensionAt.eq_beforeSquare_iff`: the plain elements are those where both places are the same.
* `PlainElement.dimension_pointer`: what is made from a pointer to an array.
* `Namer.spells_array_iff`, `Namer.arrayLength_eq_ok_iff`: how an array of some length is spelled for
  a document.
* `Namer.array_names_agree_iff`: where the two names are the same, and whose name the first one is
  when it is made from a pointer to an array.
-/

namespace TypeCatalog
namespace Spelling

open Text TypeTerm

/-- What stands in front of the first `[`. -/
def beforeSquare
    (e : List Char) :
    List Char :=
  e.takeWhile (· != '[')

/-- What stands from the first `[` on. -/
def fromSquare
    (e : List Char) :
    List Char :=
  e.dropWhile (· != '[')

/-- The bound of an array; the length zero is an unknown bound. -/
def lengthBound
    (length : UInt64) :
    Option UInt64 :=
  if length = 0 then none else some length

/-- There is no group, and the first `[` is no part of a template argument. -/
structure PlainElement
    (e : List Char) :
    Prop where
  group : group? e = none
  square : '[' ∈ e → openAngles 0 (beforeSquare e) = 0

/-- From the first `[` up to the place of a dimension, the dimension is repeated. -/
def RepeatsDimension
    (e : List Char) (bound : Option UInt64) :
    Prop :=
  ∃ front back k, DimensionAt e front back ∧
    front = beforeSquare e ++ (List.replicate k (dimensionText bound)).flatten

section Squares

variable {e front back : List Char}

theorem beforeSquare_append
    (e : List Char) :
    beforeSquare e ++ fromSquare e = e :=
  List.takeWhile_append_dropWhile

theorem not_mem_beforeSquare
    (e : List Char) :
    '[' ∉ beforeSquare e := by
  intro hmem
  exact absurd (List.mem_takeWhile_imp hmem) (by decide)

theorem fromSquare_cases
    (e : List Char) :
    fromSquare e = [] ∨ ∃ rest, fromSquare e = '[' :: rest := by
  cases hfrom : fromSquare e with
  | nil =>
      exact .inl rfl
  | cons c rest =>
      have hhead := List.head?_dropWhile_not (· != '[') e
      rw [← fromSquare, hfrom] at hhead
      have hc : c = '[' := by
        simpa using hhead
      exact .inr ⟨rest, by rw [hc]⟩

theorem beforeSquare_of_split
    {head : List Char} (rest : List Char)
    (h : '[' ∉ head) :
    beforeSquare (head ++ '[' :: rest) = head ∧ fromSquare (head ++ '[' :: rest) = '[' :: rest := by
  have hhead : ∀ c ∈ head, (c != '[') = true := by
    intro c hc
    simpa using ne_of_mem_of_not_mem hc h
  rw [beforeSquare, fromSquare, List.takeWhile_append_of_pos hhead,
    List.dropWhile_append_of_pos hhead]
  simp

end Squares

section Repetition

theorem dimensionText_ne_nil
    (bound : Option UInt64) :
    dimensionText bound ≠ [] := by
  simp [dimensionText_eq]

/-- A dimension can be moved over exactly the texts that repeat it. -/
theorem append_comm_dimensionText_iff
    {bound : Option UInt64} {v : List Char} :
    dimensionText bound ++ v = v ++ dimensionText bound ↔
      ∃ k, v = (List.replicate k (dimensionText bound)).flatten := by
  constructor
  · intro h
    obtain ⟨k, r, m, rfl, hrm, hmr⟩ :=
      exists_repeated_of_append_comm (dimensionText_ne_nil bound) h
    cases m with
    | nil =>
        -- the part at the end is the whole dimension
        obtain rfl : dimensionText bound = r := hmr
        exact ⟨k + 1, by simp [List.replicate_succ']⟩
    | cons c m =>
        cases r with
        | nil =>
            exact ⟨k, by simp⟩
        | cons b r =>
            -- a dimension has only one opening bracket, at its begin
            rw [dimensionText_eq] at hrm hmr
            obtain rfl : '[' = b := (List.cons.inj hrm).1
            have htail : boundText bound ++ [']'] = m ++ '[' :: r := (List.cons.inj hmr).2
            have hsquare : '[' ∈ boundText bound ++ [']'] := by
              simp [htail]
            rcases List.mem_append.mp hsquare with hmem | hmem
            · exact absurd (unmarked_boundText bound '[' hmem) (by decide)
            · exact absurd hmem (by decide)
  · rintro ⟨k, rfl⟩
    rw [← List.flatten_cons, ← List.replicate_succ, List.replicate_succ', List.flatten_append,
      List.flatten_singleton]

/-- A text in front of another one, or behind it, gives the same if the two can be exchanged. -/
theorem insertion_shift_iff
    {front d m back : List Char} :
    front ++ (d ++ (m ++ back)) = front ++ m ++ (d ++ back) ↔ d ++ m = m ++ d := by
  rw [List.append_assoc, List.append_cancel_left_eq, ← List.append_assoc, ← List.append_assoc,
    List.append_cancel_right_eq]

/-- A dimension at the first `[` and at another place gives the same text exactly if it is repeated in
between. -/
theorem insertion_eq_iff
    {e front back : List Char} (bound : Option UInt64)
    (h : e = front ++ back) :
    beforeSquare e ++ (dimensionText bound ++ fromSquare e) =
        front ++ (dimensionText bound ++ back) ↔
      ∃ k, front = beforeSquare e ++ (List.replicate k (dimensionText bound)).flatten := by
  have hsplit : front ++ back = beforeSquare e ++ fromSquare e := by
    rw [beforeSquare_append, h]
  rcases List.append_eq_append_iff.mp hsplit with ⟨m, hbefore, hback⟩ | ⟨m, hfront, hfrom⟩
  · -- the place is in front of the first bracket, so the two are the same or nothing is repeated
    rw [hback, eq_comm, hbefore, insertion_shift_iff, append_comm_dimensionText_iff]
    constructor
    · rintro ⟨k, hk⟩
      cases k with
      | zero =>
          exact ⟨0, by simp [hk]⟩
      | succ k =>
          refine absurd ?_ (not_mem_beforeSquare e)
          rw [hbefore, hk]
          simp [List.replicate_succ, dimensionText_eq]
    · rintro ⟨k, hk⟩
      have hlength := congrArg List.length hk
      simp only [List.length_append] at hlength
      exact ⟨0, List.eq_nil_of_length_eq_zero (by omega)⟩
  · rw [hfrom, hfront, insertion_shift_iff, append_comm_dimensionText_iff]
    simp only [List.append_cancel_left_eq]

end Repetition

section PlainElements

variable {e front back front' back' : List Char} {bound : Option UInt64}

/-- There is only one place for a dimension. -/
theorem DimensionAt.unique
    (h : DimensionAt e front back)
    (h' : DimensionAt e front' back') :
    front = front' := by
  cases h with
  | inGroup hgroup =>
      cases h' with
      | inGroup hgroup' =>
          rw [Option.some.inj (hgroup.symm.trans hgroup')]
      | beforeDimensions hgroup' hsquare' =>
          exact absurd (hgroup.symm.trans hgroup') (by simp)
      | atEnd hgroup' hsquare' =>
          exact absurd (hgroup.symm.trans hgroup') (by simp)
  | beforeDimensions hgroup hsquare =>
      cases h' with
      | inGroup hgroup' =>
          exact absurd (hgroup.symm.trans hgroup') (by simp)
      | beforeDimensions hgroup' hsquare' =>
          exact congrArg Prod.fst (Option.some.inj (hsquare.symm.trans hsquare'))
      | atEnd hgroup' hsquare' =>
          exact absurd (hsquare.symm.trans hsquare') (by simp)
  | atEnd hgroup hsquare =>
      cases h' with
      | inGroup hgroup' =>
          exact absurd (hgroup.symm.trans hgroup') (by simp)
      | beforeDimensions hgroup' hsquare' =>
          exact absurd (hsquare.symm.trans hsquare') (by simp)
      | atEnd hgroup' hsquare' =>
          rfl

theorem PlainElement.reached
    (h : PlainElement e)
    (hmem : '[' ∈ e) :
    Reached '[' (beforeSquare e) :=
  ⟨covered_of_not_mem 0 (not_mem_beforeSquare e), h.square hmem⟩

theorem PlainElement.splitTop_eq
    {rest : List Char}
    (h : PlainElement e)
    (hfrom : fromSquare e = '[' :: rest) :
    splitTop '[' 0 e = some (beforeSquare e, rest) := by
  have hsplit : e = beforeSquare e ++ '[' :: rest := by
    rw [← hfrom, beforeSquare_append]
  have hmem : '[' ∈ e := by
    rw [hsplit]
    simp
  exact (splitTop_eq_some_iff (by decide)).mpr ⟨hsplit, h.reached hmem⟩

/-- A plain element gets a dimension in front of its first `[`. -/
theorem PlainElement.dimensionAt
    (h : PlainElement e) :
    DimensionAt e (beforeSquare e) (fromSquare e) := by
  rcases fromSquare_cases e with hnil | ⟨rest, hrest⟩
  · have hbefore : beforeSquare e = e := by
      rw [← List.append_nil (beforeSquare e), ← hnil, beforeSquare_append]
    have hcovered : Covered '[' 0 e := by
      rw [← hbefore]
      exact covered_of_not_mem 0 (not_mem_beforeSquare e)
    rw [hbefore, hnil]
    exact .atEnd h.group ((splitTop_eq_none_iff (by decide)).mpr hcovered)
  · rw [hrest]
    exact .beforeDimensions h.group (h.splitTop_eq hrest)

/-- The elements that get a dimension in front of their first `[`, if they have one, are the plain
ones. -/
theorem DimensionAt.eq_beforeSquare_iff
    (h : DimensionAt e front back) :
    front = beforeSquare e ↔ PlainElement e := by
  constructor
  · intro hfront
    have hsame : front ++ back = front ++ fromSquare e := by
      rw [← h.split, hfront, beforeSquare_append]
    have hback : back = fromSquare e := List.append_cancel_left hsame
    cases h with
    | inGroup hgroup =>
        -- behind the place stands the end of the group
        rcases fromSquare_cases e with hnil | ⟨rest, hrest⟩
        · rw [hnil] at hback
          cases hback
        · rw [hrest] at hback
          exact absurd (List.cons.inj hback).1 (by decide)
    | beforeDimensions hgroup hsquare =>
        obtain ⟨-, hreached⟩ := (splitTop_eq_some_iff (by decide)).mp hsquare
        exact ⟨hgroup, fun _ => hfront ▸ hreached.top⟩
    | atEnd hgroup hsquare =>
        refine ⟨hgroup, fun hmem => ?_⟩
        rw [hfront] at hmem
        exact absurd hmem (not_mem_beforeSquare e)
  · intro hplain
    exact h.unique hplain.dimensionAt

theorem DimensionAt.repeats_iff
    (h : DimensionAt e front back) :
    RepeatsDimension e bound ↔
      ∃ k, front = beforeSquare e ++ (List.replicate k (dimensionText bound)).flatten := by
  constructor
  · rintro ⟨front', back', k, hplace, hfront⟩
    exact ⟨k, by rw [h.unique hplace, hfront]⟩
  · rintro ⟨k, hfront⟩
    exact ⟨front, back, k, h, hfront⟩

/-- A dimension is written in front of the first `[` or at the end exactly if it is repeated from
there on up to its place. -/
theorem addDeclarator_eq_iff
    (e : List Char) (bound : Option UInt64) :
    beforeSquare e ++ (dimensionText bound ++ fromSquare e) =
        addDeclarator e (dimensionText bound) ↔
      RepeatsDimension e bound := by
  obtain ⟨front, back, hplace⟩ := exists_dimensionAt e
  rw [hplace.addDeclarator (head?_dimensionText bound), insertion_eq_iff bound hplace.split,
    hplace.repeats_iff]

/-- The plain elements are those for which this holds at all lengths. -/
theorem repeatsDimension_forall_iff
    (e : List Char) :
    (∀ length, RepeatsDimension e (lengthBound length)) ↔ PlainElement e := by
  obtain ⟨front, back, hplace⟩ := exists_dimensionAt e
  simp only [hplace.repeats_iff]
  rw [← hplace.eq_beforeSquare_iff]
  constructor
  · intro h
    -- nothing but the empty text repeats both `[]` and `[1]`
    obtain ⟨k, hk⟩ := h 0
    obtain ⟨j, hj⟩ := h 1
    have hsame : (List.replicate k (dimensionText none)).flatten =
        (List.replicate j (dimensionText (some 1))).flatten :=
      List.append_cancel_left (hk.symm.trans hj)
    cases k with
    | zero =>
        rw [hk, List.replicate_zero, List.flatten_nil, List.append_nil]
    | succ k =>
        cases j with
        | zero =>
            simp [List.replicate_succ, dimensionText] at hsame
        | succ j =>
            have hnone : dimensionText none = ['[', ']'] := rfl
            have hone : dimensionText (some 1) = ['[', '1', ']'] := by
              decide
            simp [List.replicate_succ, hnone, hone] at hsame
  · intro hfront length
    exact ⟨0, by rw [hfront, List.replicate_zero, List.flatten_nil, List.append_nil]⟩

end PlainElements

section Made

theorem dimension_eq
    (length : UInt64) :
    DataType.dimension length = dimensionText (lengthBound length) := by
  rw [DataType.dimension, lengthBound]
  split <;> rfl

theorem qualified_arrayOf
    (element : TypeRef) (length size : UInt64) :
    (DataType.arrayOf element length size).header.qualified.toList =
      beforeSquare element.name.toList ++
        (dimensionText (lengthBound length) ++ fromSquare element.name.toList) := by
  rw [← dimension_eq, ← List.append_assoc]
  exact String.toList_ofList

theorem addDeclarator_star
    {s head dims : List Char} {c : Char}
    (hgroup : group? s = none)
    (hsquare : splitTop '[' 0 s = some (head, dims))
    (hc : isStarOrAmp c = true) :
    addDeclarator s [c] = head ++ ['(', c, ')'] ++ '[' :: dims := by
  have hne : c ≠ '[' := by
    rintro rfl
    cases hc
  simp [addDeclarator, hgroup, hsquare, hne]

/-- A dimension in front of the first `[` of a pointer to an array makes it a pointer to an array of
arrays. -/
theorem PlainElement.dimension_pointer
    {s : List Char} {c : Char}
    (h : PlainElement s)
    (hmem : '[' ∈ s)
    (hc : isStarOrAmp c = true) (bound : Option UInt64) :
    beforeSquare (addDeclarator s [c]) ++
        (dimensionText bound ++ fromSquare (addDeclarator s [c])) =
      addDeclarator (beforeSquare s ++ (dimensionText bound ++ fromSquare s)) [c] := by
  obtain ⟨rest, hrest⟩ : ∃ rest, fromSquare s = '[' :: rest := by
    refine (fromSquare_cases s).resolve_left fun hnil => ?_
    rw [← beforeSquare_append s, hnil, List.append_nil] at hmem
    exact not_mem_beforeSquare s hmem
  -- the array of arrays is cut where the array is
  have hgroup : group? (beforeSquare s ++ (dimensionText bound ++ fromSquare s)) = none :=
    group?_insert (dimensions_single bound) (.inr (by rw [hrest]; rfl))
      (by rw [beforeSquare_append]; exact h.group)
  have hsquare : splitTop '[' 0 (beforeSquare s ++ (dimensionText bound ++ fromSquare s)) =
      some (beforeSquare s, boundText bound ++ ']' :: fromSquare s) := by
    rw [dimensionText_eq]
    simpa using
      splitTop_of_reached (by decide) (boundText bound ++ ']' :: fromSquare s) (h.reached hmem)
  have hfree : '[' ∉ beforeSquare s ++ ['(', c, ')'] := by
    have hne : c ≠ '[' := by
      rintro rfl
      cases hc
    simp [not_mem_beforeSquare s, Ne.symm hne]
  have hcut := beforeSquare_of_split rest hfree
  rw [addDeclarator_star h.group (h.splitTop_eq hrest) hc, hcut.1, hcut.2,
    addDeclarator_star hgroup hsquare hc, hrest, dimensionText_eq]
  simp

end Made

end Spelling

/-- The element is an array of the length, zero standing for an unknown bound. -/
structure Element.IsArray
    (e : Element) (target : String) (length : UInt64) :
    Prop where
  kind : e.kind = .array
  target : e.attr? "type" = some target
  unbounded : length = 0 → e.boundText = []
  bounded : length ≠ 0 → Text.Numeral e.boundText (length.toNat - 1)

namespace Namer

open Text Spelling TypeTerm

section Spelled

variable {n : Namer} {id target element name : String} {e : Element} {length : UInt64}

/-- The spelling of an array is that of its element with the dimension. -/
theorem spells_array_iff
    (he : n.index.find? id = some e)
    (hkind : e.kind = .array)
    (htarget : e.attr? "type" = some target)
    (helement : Spells n target element) :
    Spells n id name ↔
      ∃ bound, e.arrayLength = .ok bound ∧
        name = String.ofList (addDeclarator element.toList (dimensionText bound)) := by
  constructor
  · intro h
    rw [spells_iff_yields .start, plan_of_find he, elementPlan, hkind] at h
    obtain ⟨target', element', htarget', helement', hrest⟩ := yields_targetPlan_iff.mp h
    obtain rfl : target = target' := Option.some.inj (htarget.symm.trans htarget')
    obtain ⟨dimension, hdimension, rfl⟩ := yields_ofExcept_iff.mp hrest
    cases hlength : e.arrayLength with
    | error err =>
        rw [Element.arrayDimension, hlength] at hdimension
        cases hdimension
    | ok bound =>
        rw [arrayDimension_eq hlength] at hdimension
        cases hdimension
        exact ⟨bound, rfl, by rw [helement.unique helement']⟩
  · rintro ⟨bound, hlength, rfl⟩
    exact .array he hkind htarget helement (arrayDimension_eq hlength)

theorem toNat_toUInt64
    {v : Int64}
    (h : 0 ≤ v.toInt) :
    (v.toUInt64.toNat : Int) = v.toInt := by
  have hbits : v.toInt = v.toBitVec.toInt := rfl
  have hnat : v.toUInt64.toNat = v.toBitVec.toNat := rfl
  have hlt := v.toBitVec.isLt
  rw [hbits, BitVec.toInt_eq_toNat_cond] at h ⊢
  split at h
  · next hlow =>
      rw [hnat, if_pos hlow]
  · omega

/-- A bound is read as a signed word, so there are lengths up to half of the range of words. -/
theorem arrayLength_eq_ok_iff
    {bound : Option UInt64}
    (h : e.IsArray target length) :
    e.arrayLength = .ok bound ↔ length.toNat ≤ 2 ^ 63 ∧ bound = lengthBound length := by
  by_cases hzero : length = 0
  · have hlength : e.arrayLength = .ok none := by
      simp [Element.arrayLength, h.unbounded hzero]
    rw [hlength, lengthBound, if_pos hzero, hzero]
    simp [eq_comm]
  · have hbound := h.bounded hzero
    have hpos : 0 < length.toNat := UInt64.pos_iff_ne_zero.mpr hzero
    have hlt := length.toNat_lt
    rw [Element.arrayLength, lengthBound, if_neg hzero, List.isEmpty_eq_false_iff.mpr hbound.ne_nil]
    cases hread : signed64? e.boundText with
    | none =>
        have hhigh := signed64?_eq_none_iff.mp hread _ hbound (by omega)
        refine iff_of_false (by simp) fun hle => ?_
        omega
    | some v =>
        have hv : v.toInt = length.toNat - 1 := (signed64?_eq_some_iff.mp hread).unique hbound
        have hhigh := v.toInt_lt
        have hword := toNat_toUInt64 (v := v) (by omega)
        have hnonneg : ¬ v < 0 := by
          rw [Int64.lt_iff_toInt_lt, Int64.toInt_zero]
          omega
        have hsucc : v.toUInt64 + 1 = length := by
          rw [← UInt64.toNat_inj, UInt64.toNat_add, UInt64.toNat_one]
          omega
        simp only [Bool.false_eq_true, if_false, if_neg hnonneg, hsucc, Except.ok.injEq]
        constructor
        · intro heq
          exact ⟨by omega, heq.symm⟩
        · intro heq
          exact heq.2.symm

end Spelled

section Agreement

/-- The name that an array is made with is its spelling in a document exactly if its dimension is
repeated from the first `[` of the element up to its place. The elements for which this holds at every
length are the plain ones. If they are arrays, then an array of pointers to them is made with the name
of a pointer to an array of them. -/
theorem array_names_agree_iff
    {n : Namer} {id target : String} {e : Element} {element : TypeRef} {length : UInt64}
    (he : n.index.find? id = some e)
    (harray : e.IsArray target length)
    (helement : Spells n target element.name) (size : UInt64) :
    (Spells n id (DataType.arrayOf element length size).header.qualified ↔
      length.toNat ≤ 2 ^ 63 ∧ RepeatsDimension element.name.toList (lengthBound length)) ∧
    ((∀ m, (DataType.arrayOf element m size).header.qualified.toList =
        addDeclarator element.name.toList (DataType.dimension m)) ↔
      PlainElement element.name.toList) ∧
    (PlainElement element.name.toList → '[' ∈ element.name.toList →
      ∀ c, isStarOrAmp c = true →
        (DataType.arrayOf (.named (String.ofList (addDeclarator element.name.toList [c])))
            length size).header.qualified.toList =
          addDeclarator (DataType.arrayOf element length size).header.qualified.toList [c]) := by
  refine ⟨?_, ?_, ?_⟩
  · rw [spells_array_iff he harray.kind harray.target helement]
    simp only [arrayLength_eq_ok_iff harray, ← String.toList_inj, qualified_arrayOf,
      String.toList_ofList]
    rw [← addDeclarator_eq_iff]
    constructor
    · rintro ⟨bound, ⟨hle, rfl⟩, hname⟩
      exact ⟨hle, hname⟩
    · rintro ⟨hle, hname⟩
      exact ⟨_, ⟨hle, rfl⟩, hname⟩
  · rw [← repeatsDimension_forall_iff]
    refine forall_congr' fun m => ?_
    rw [qualified_arrayOf, dimension_eq, addDeclarator_eq_iff]
  · intro hplain hmem c hc
    rw [qualified_arrayOf, qualified_arrayOf]
    simpa [TypeRef.named] using hplain.dimension_pointer hmem hc (lengthBound length)

/-- Arrays of arrays, of pointers to arrays, and of an instance for an array type. -/
def arrayTypes :
    Namer where
  index := .ofElements
    [namedElement "FundamentalType" "_1" "int", arrayElement "_2" "_1", arrayElement "_3" "_2",
     pointerElement "_4" "_2", arrayElement "_5" "_4", pointerElement "_6" "_3",
     namedElement "Struct" "_7" "A<int[3]>", arrayElement "_8" "_7"]
  normalizer := .standard
  keepAll := false

theorem isArray_arrayElement
    (id target : String) :
    (arrayElement id target).IsArray target 3 := by
  have hmax : (arrayElement id target).attr "max" = "2" := rfl
  have hbound : (arrayElement id target).boundText = decimal 2 := by
    rw [Element.boundText, hmax]
    decide
  refine ⟨rfl, rfl, fun hzero => absurd hzero (by decide), fun _ => ?_⟩
  rw [hbound]
  exact numeral_decimal 2

theorem spells_arrayTypes :
    Spells arrayTypes "_2" "int[3]" ∧ Spells arrayTypes "_4" "int(*)[3]" ∧
      Spells arrayTypes "_5" "int(*[3])[3]" ∧ Spells arrayTypes "_6" "int(*)[3][3]" ∧
      Spells arrayTypes "_7" "A<int[3]>" ∧ Spells arrayTypes "_8" "A<int[3]>[3]" := by
  simp only [← outcome_typeName_eq_ok_iff]
  decide +kernel

/-- An array of arrays has the same name in both ways. -/
theorem array_names_agree_matrix :
    PlainElement "int[3]".toList ∧
      (DataType.arrayOf (.named "int[3]") 3 12).header.qualified = "int[3][3]" ∧
      Spells arrayTypes "_3" "int[3][3]" := by
  have hplain : PlainElement "int[3]".toList := ⟨by decide, fun _ => by decide⟩
  have hname : (DataType.arrayOf (.named "int[3]") 3 12).header.qualified = "int[3][3]" := by
    decide
  have he : arrayTypes.index.find? "_3" = some (arrayElement "_3" "_2") := by
    decide
  have helement : Spells arrayTypes "_2" (TypeRef.named "int[3]").name := spells_arrayTypes.1
  have hagree := array_names_agree_iff he (isArray_arrayElement "_3" "_2") helement 12
  have hspells := hagree.1.mpr ⟨by decide, (repeatsDimension_forall_iff _).mpr hplain 3⟩
  exact ⟨hplain, hname, hname ▸ hspells⟩

/-- Made from an instance for an array type, an array has the name of another instance, and made from
a pointer to an array, that of a pointer to an array of arrays. -/
theorem array_names_differ :
    (DataType.arrayOf (.named "A<int[3]>") 3 1).header.qualified = "A<int[3][3]>" ∧
      Spells arrayTypes "_7" "A<int[3]>" ∧ (arrayElement "_8" "_7").IsArray "_7" 3 ∧
      Spells arrayTypes "_8" "A<int[3]>[3]" ∧ ¬ Spells arrayTypes "_8" "A<int[3][3]>" ∧
    (DataType.arrayOf (.named "int(*)[3]") 3 8).header.qualified = "int(*)[3][3]" ∧
      Spells arrayTypes "_4" "int(*)[3]" ∧ (arrayElement "_5" "_4").IsArray "_4" 3 ∧
      Spells arrayTypes "_5" "int(*[3])[3]" ∧ ¬ Spells arrayTypes "_5" "int(*)[3][3]" ∧
      Spells arrayTypes "_6" "int(*)[3][3]" := by
  obtain ⟨-, hpointer, hpointers, hmatrix, hinstance, hinstances⟩ := spells_arrayTypes
  refine ⟨by decide, hinstance, isArray_arrayElement _ _, hinstances, fun h => ?_,
    by decide, hpointer, isArray_arrayElement _ _, hpointers, fun h => ?_, hmatrix⟩
  · exact absurd (h.unique hinstances) (by decide)
  · exact absurd (h.unique hpointers) (by decide)

end Agreement

end Namer
end TypeCatalog
