import TypeCatalog.Proofs.Registration.Layout
import TypeCatalog.Proofs.Spelling.ArrayNames
import TypeCatalog.Proofs.Spelling.ImpliedIds
import TypeCatalog.Proofs.Text.Numerals
import Mathlib.Algebra.BigOperators.Group.List.Basic

/-!
# Sizes of arrays of arrays

**Input.** The id of an array without a stated size, whose element is such an array in its turn, and
so on down to a type with a size of its own.

**Rule.** An array has the size of its element times its length, and a missing or negative bound
stands for length zero. Every product that is too large for a word is replaced by the largest word
before the next length is multiplied.

**Notions.** `Element.States` and `Element.HasLength` are the numbers that the attributes of an
element denote, as unbounded naturals. `ArrayChain index id lengths size` says that the arrays from
an id inwards have these lengths, and that their innermost element has that size in bytes.

**Results.**
* `Element.uint_eq_ok_iff`, `Element.arrayLength_iff`: numeric attributes and bounds are read as the
  numbers that they denote, and everything else is refused.
* `min_min_mul`: a capped product is the same when a factor has been capped before.
* `sizeOf_arrayChain`: the size of an array of arrays is the product of all lengths and the
  innermost size, capped once.
-/

namespace TypeCatalog

open Text

section Numbers

/-- The number that an attribute states; it is zero if the attribute is absent or empty. -/
inductive Element.States
    (e : Element) (attr : String) :
    Nat → Prop
  | nothing
      (h : e.attr attr = "") :
      States e attr 0
  | number
      {n : Nat}
      (hnumeral : Numeral (e.attr attr).toList n)
      (hsign : (e.attr attr).toList.head? ≠ some '-')
      (hhigh : n < 2 ^ 64) :
      States e attr n

/-- The length that an array states. A bound is the largest index, so the length is one more; it is
zero if the bound is missing or negative. -/
inductive Element.HasLength
    (e : Element) :
    Nat → Prop
  | missing
      (h : e.boundText = []) :
      HasLength e 0
  | negative
      {n : Int}
      (hnumeral : Numeral e.boundText n)
      (hlow : -2 ^ 63 ≤ n)
      (hneg : n < 0) :
      HasLength e 0
  | bounded
      {n : Nat}
      (hnumeral : Numeral e.boundText n)
      (hhigh : n < 2 ^ 63) :
      HasLength e (n + 1)

namespace Element

variable {e : Element} {attr : String} {n : Nat}

theorem States.lt
    (h : e.States attr n) :
    n < 2 ^ 64 := by
  cases h with
  | nothing _ =>
      decide
  | number _ _ hhigh =>
      exact hhigh

theorem states_iff_of_ne
    (h : e.attr attr ≠ "") :
    e.States attr n ↔
      Numeral (e.attr attr).toList n ∧ (e.attr attr).toList.head? ≠ some '-' ∧ n < 2 ^ 64 := by
  constructor
  · rintro (hempty | ⟨hnumeral, hsign, hhigh⟩)
    · exact absurd hempty h
    · exact ⟨hnumeral, hsign, hhigh⟩
  · rintro ⟨hnumeral, hsign, hhigh⟩
    exact .number hnumeral hsign hhigh

theorem states_iff_of_eq
    (h : e.attr attr = "") :
    e.States attr n ↔ n = 0 := by
  constructor
  · rintro (- | hnumeral)
    · rfl
    · exact absurd (by simp [h]) hnumeral.ne_nil
  · rintro rfl
    exact .nothing h

/-- A numeric attribute is read exactly as the number that it states. -/
theorem uint_eq_ok_iff
    {v : UInt64} :
    e.uint attr = .ok v ↔ e.States attr v.toNat := by
  rw [uint, readSize]
  by_cases hempty : e.attr attr = ""
  · rw [if_pos (by simp [hempty]), states_iff_of_eq hempty, ← UInt64.toNat_zero, UInt64.toNat_inj,
      Except.ok.injEq, eq_comm]
  · have hread : e.States attr v.toNat ↔ unsigned64? (e.attr attr).toList = some v := by
      rw [states_iff_of_ne hempty, unsigned64?_eq_some_iff, ← and_assoc]
      exact and_iff_left v.toNat_lt
    rw [if_neg (by simpa using hempty), hread]
    cases unsigned64? (e.attr attr).toList <;> simp

theorem States.exists_uint
    (h : e.States attr n) :
    ∃ v, e.uint attr = .ok v ∧ v.toNat = n := by
  have hword : (UInt64.ofNat n).toNat = n := UInt64.toNat_ofNat_of_lt' h.lt
  exact ⟨UInt64.ofNat n, uint_eq_ok_iff.mpr (by rwa [hword]), hword⟩

theorem hasLength_iff_of_eq
    (h : e.boundText = []) :
    e.HasLength n ↔ n = 0 := by
  constructor
  · rintro (- | hnumeral | hnumeral)
    · rfl
    · exact absurd h hnumeral.ne_nil
    · exact absurd h hnumeral.ne_nil
  · rintro rfl
    exact .missing h

/-- The length is the successor of the bound, and no negative bound has a positive successor. -/
theorem hasLength_iff_of_numeral
    {v : Int64}
    (h : Numeral e.boundText v.toInt) :
    e.HasLength n ↔ n = (v.toInt + 1).toNat := by
  constructor
  · intro hlength
    cases hlength with
    | missing hempty =>
        exact absurd hempty h.ne_nil
    | negative hnumeral _ hneg | bounded hnumeral _ =>
        have hsame := h.unique hnumeral
        omega
  · rintro rfl
    have hhigh := v.toInt_lt
    rcases lt_or_ge v.toInt 0 with hneg | hnonneg
    · rw [Int.toNat_of_nonpos (by omega)]
      exact .negative h v.le_toInt hneg
    · rw [Int.toNat_add hnonneg (by decide)]
      exact .bounded (by rwa [Int.toNat_of_nonneg hnonneg]) (by omega)

theorem not_hasLength
    (hne : e.boundText ≠ [])
    (hread : signed64? e.boundText = none) :
    ¬ e.HasLength n := by
  have hout := signed64?_eq_none_iff.mp hread
  rintro (hempty | ⟨hnumeral, hlow, hneg⟩ | ⟨hnumeral, hhigh⟩)
  · exact hne hempty
  · have hhigh := hout _ hnumeral hlow
    omega
  · have hhigh' := hout _ hnumeral (by omega)
    omega

/-- The successor of a signed word that is not negative is an unsigned word. -/
theorem toNat_length
    (v : Int64) :
    ((if v < 0 then none else some (v.toUInt64 + 1)).getD 0).toNat = (v.toInt + 1).toNat := by
  have hhigh := v.toInt_lt
  have hsign : v < 0 ↔ v.toInt < 0 := by
    rw [Int64.lt_iff_toInt_lt, Int64.toInt_zero]
  split
  · next hneg =>
      have hneg' := hsign.mp hneg
      rw [Option.getD_none, UInt64.toNat_zero]
      omega
  · next hnonneg =>
      have hword := Namer.toNat_toUInt64 (not_lt.mp (hsign.not.mp hnonneg))
      rw [Option.getD_some, UInt64.toNat_add, UInt64.toNat_one]
      omega

/-- A bound is read exactly as the length that it states, and no length is too large for a word. -/
theorem arrayLength_iff :
    (∃ bound, e.arrayLength = .ok bound ∧ (bound.getD 0).toNat = n) ↔ e.HasLength n := by
  rw [arrayLength]
  by_cases hempty : e.boundText = []
  · rw [if_pos (by simp [hempty]), hasLength_iff_of_eq hempty]
    simp [eq_comm]
  · rw [if_neg (by simpa using hempty)]
    cases hread : signed64? e.boundText with
    | none =>
        exact iff_of_false (by simp) (not_hasLength hempty hread)
    | some v =>
        rw [hasLength_iff_of_numeral (signed64?_eq_some_iff.mp hread), ← toNat_length v]
        simp only [Except.ok.injEq, exists_eq_left']
        exact eq_comm

end Element

end Numbers

section Products

/-- A product of sizes is capped at the largest word. -/
theorem toNat_saturatingMul
    (a b : UInt64) :
    (saturatingMul a b).toNat = min (2 ^ 64 - 1) (a.toNat * b.toNat) := by
  unfold saturatingMul
  split
  · next hlt =>
      rw [UInt64.toNat_mul, Nat.mod_eq_of_lt hlt]
      exact (min_eq_right (Nat.le_sub_one_of_lt hlt)).symm
  · next hge =>
      have hcap : 2 ^ 64 - 1 ≤ a.toNat * b.toNat := (Nat.sub_le _ 1).trans (not_lt.mp hge)
      rw [min_eq_left hcap]
      rfl

/-- A capped product is the same when a factor has been capped before, also when the other factor is
zero. -/
theorem min_min_mul
    (cap x y : Nat) :
    min cap (min cap x * y) = min cap (x * y) := by
  rcases Nat.eq_zero_or_pos y with rfl | hpos
  · simp
  · have hcap : cap ≤ cap * y := Nat.le_mul_of_pos_right cap hpos
    calc min cap (min cap x * y)
        = min cap (min (cap * y) (x * y)) := by rw [Nat.mul_min_mul_right]
      _ = min (min cap (cap * y)) (x * y) := (min_assoc _ _ _).symm
      _ = min cap (x * y) := by rw [min_eq_left hcap]

end Products

namespace Layout

/-- The kinds of types that are sized by what they state alone. -/
def statedKinds :
    List ElementKind :=
  [.fundamental, .classRecord, .structRecord, .unionRecord, .enumeration]

/-- The arrays from an id inwards have the lengths and do not state a size of a byte or more, and
their innermost element has a size in bytes. -/
inductive ArrayChain
    (index : Index) :
    String → List Nat → Nat → Prop
  | innermost
      {id : String} {e : Element} {bits : Nat}
      (he : index.find? id = some e)
      (hkind : e.kind ∈ statedKinds)
      (hbits : e.States "size" bits) :
      ArrayChain index id [] (bits / 8)
  | array
      {id element : String} {e : Element} {bits length size : Nat} {lengths : List Nat}
      (he : index.find? id = some e)
      (hkind : e.kind = .array)
      (hbits : e.States "size" bits)
      (hless : bits < 8)
      (hlength : e.HasLength length)
      (helement : e.attr? "type" = some element)
      (hrest : ArrayChain index element lengths size) :
      ArrayChain index id (length :: lengths) size

section Steps

variable {index : Index} {id : String} {e : Element} {bits : Nat}

theorem toNat_bytesOfBits
    (v : UInt64) :
    (bytesOfBits v).toNat = v.toNat / 8 := by
  rw [bytesOfBits, UInt64.toNat_div]
  rfl

/-- The last step of the walk to the size of an array. -/
theorem sizeWithin_of_stated
    (he : index.find? id = some e)
    (hkind : e.kind ∈ statedKinds)
    (hbits : e.States "size" bits)
    (machine : UInt64) (referrer : String) (depth : Nat) :
    ∃ n, sizeWithin index machine (depth + 1) id referrer = .ok n ∧ n.toNat = bits / 8 := by
  obtain ⟨v, hv, rfl⟩ := hbits.exists_uint
  refine ⟨bytesOfBits v, ?_, toNat_bytesOfBits v⟩
  have hstated : sizeWithin index machine (depth + 1) id referrer =
      (do return bytesOfBits (← e.uint "size")) := by
    rw [sizeWithin, he]
    simp only [statedKinds, List.mem_cons, List.not_mem_nil, or_false] at hkind
    rcases hkind with hkind | hkind | hkind | hkind | hkind <;> simp only [hkind]
  rw [hstated, hv]
  rfl

/-- One step of the walk, from an array without a stated size to its element. -/
theorem sizeWithin_of_array
    {element : String} {length : Nat}
    (he : index.find? id = some e)
    (hkind : e.kind = .array)
    (hbits : e.States "size" bits)
    (hless : bits < 8)
    (hlength : e.HasLength length)
    (helement : e.attr? "type" = some element)
    (machine : UInt64) (referrer : String) (depth : Nat) :
    ∃ l : UInt64, l.toNat = length ∧
      sizeWithin index machine (depth + 1) id referrer =
        (sizeWithin index machine depth element e.id).map (saturatingMul · l) := by
  obtain ⟨v, hv, rfl⟩ := hbits.exists_uint
  obtain ⟨bound, hbound, hl⟩ := Element.arrayLength_iff.mpr hlength
  refine ⟨bound.getD 0, hl, ?_⟩
  have hzero : bytesOfBits v = 0 := by
    rw [← UInt64.toNat_inj, toNat_bytesOfBits, UInt64.toNat_zero]
    omega
  have htarget : e.required "type" = .ok element := Namer.required_eq_ok_iff.mpr helement
  rw [sizeWithin, he]
  simp only [hkind, hv, hbound, htarget, bind, Except.bind, hzero, if_true]
  cases sizeWithin index machine depth element e.id <;> rfl

end Steps

section Runs

variable {index : Index} {id : String} {lengths : List Nat} {size : Nat}

/-- A walk with more steps than there are arrays ends with the capped product. -/
theorem ArrayChain.exists_size
    (h : ArrayChain index id lengths size)
    (machine : UInt64) (referrer : String) {depth : Nat}
    (hdepth : lengths.length < depth) :
    ∃ n, sizeWithin index machine depth id referrer = .ok n ∧
      n.toNat = min (2 ^ 64 - 1) (size * lengths.prod) := by
  -- inwards along the arrays: the walk caps the product again at each of them
  induction h generalizing depth referrer with
  | @innermost id e bits he hkind hbits =>
      obtain ⟨depth, rfl⟩ := Nat.exists_eq_add_one_of_ne_zero (Nat.ne_zero_of_lt hdepth)
      obtain ⟨n, hn, hsize⟩ := sizeWithin_of_stated he hkind hbits machine referrer depth
      refine ⟨n, hn, ?_⟩
      have hword := n.toNat_lt
      rw [List.prod_nil, mul_one, hsize, min_eq_right (by omega)]
  | @array id element e bits length size lengths he hkind hbits hless hlength helement _ ih =>
      obtain ⟨depth, rfl⟩ := Nat.exists_eq_add_one_of_ne_zero (Nat.ne_zero_of_lt hdepth)
      obtain ⟨l, rfl, hstep⟩ :=
        sizeWithin_of_array he hkind hbits hless hlength helement machine referrer depth
      obtain ⟨m, hm, hinner⟩ := ih e.id (Nat.lt_of_succ_lt_succ hdepth)
      refine ⟨saturatingMul m l, by rw [hstep, hm]; rfl, ?_⟩
      calc (saturatingMul m l).toNat
          = min (2 ^ 64 - 1) (min (2 ^ 64 - 1) (size * lengths.prod) * l.toNat) := by
            rw [toNat_saturatingMul, hinner]
        _ = min (2 ^ 64 - 1) (size * lengths.prod * l.toNat) := min_min_mul _ _ _
        _ = min (2 ^ 64 - 1) (size * (l.toNat :: lengths).prod) := by
            rw [List.prod_cons, mul_comm l.toNat, mul_assoc]

/-- A walk with no more steps than there are arrays takes them for a circle. -/
theorem ArrayChain.exists_cyclicReference
    (h : ArrayChain index id lengths size)
    (machine : UInt64) (referrer : String) {depth : Nat}
    (hdepth : depth ≤ lengths.length) :
    ∃ inner, sizeWithin index machine depth id referrer = .error (.cyclicReference inner) := by
  induction h generalizing depth referrer with
  | innermost =>
      obtain rfl := Nat.le_zero.mp hdepth
      exact ⟨_, rfl⟩
  | @array id element e bits length size lengths he hkind hbits hless hlength helement _ ih =>
      cases depth with
      | zero =>
          exact ⟨_, rfl⟩
      | succ depth =>
          obtain ⟨l, -, hstep⟩ :=
            sizeWithin_of_array he hkind hbits hless hlength helement machine referrer depth
          obtain ⟨inner, hinner⟩ := ih e.id (Nat.le_of_succ_le_succ hdepth)
          exact ⟨inner, by rw [hstep, hinner]; rfl⟩

/-- An array of up to 1023 dimensions has the product of its lengths and of the size of its
innermost element, or the largest word if that is less. Arrays of more dimensions are refused. -/
theorem sizeOf_arrayChain
    (h : ArrayChain index id lengths size)
    (machine : UInt64) (referrer : String) :
    (lengths.length ≤ 1023 →
      ∃ n, sizeOf index machine id referrer = .ok n ∧
        n.toNat = min (2 ^ 64 - 1) (size * lengths.prod)) ∧
    (1023 < lengths.length →
      ∃ inner, sizeOf index machine id referrer = .error (.cyclicReference inner)) :=
  ⟨fun hlength => h.exists_size machine referrer (Nat.lt_succ_of_le hlength),
    fun hlength => h.exists_cyclicReference machine referrer hlength⟩

-- the product of the inner arrays is capped, and a negative bound around them still gives zero
example :
    let array := fun id element max => { Element.bare "ArrayType" id with
      attributes := [("type", element), ("max", max), ("size", "7")] }
    let index := Index.ofElements
      [{ Element.bare "Union" "_1" with attributes := [("size", "39")] },
       array "_2" "_1" "+9223372036854775807u", array "_3" "_2" "1", array "_4" "_3" "-1"]
    sizeOf index 8 "_1" "_4" = .ok 4 ∧ sizeOf index 8 "_3" "_4" = .ok 18446744073709551615 ∧
      sizeOf index 8 "_4" "_4" = .ok 0 := by
  decide +kernel

end Runs

section Ranks

/-- The id of the array of a rank. -/
def rankId
    (rank : Nat) :
    String :=
  String.ofList ('_' :: List.replicate rank '1')

theorem rankId_injective :
    Function.Injective rankId := by
  intro i j h
  have hlength := congrArg List.length (String.ofList_injective h)
  simpa using hlength

/-- A number of four bytes, and above it arrays of three. -/
def rankElement :
    Nat → Element
  | 0 => { Element.bare "FundamentalType" (rankId 0) with
      attributes := [("name", "int"), ("size", "32")] }
  | rank + 1 => Namer.arrayElement (rankId (rank + 1)) (rankId rank)

/-- A document with the arrays up to a rank. -/
def arraysToRank
    (top : Nat) :
    Document :=
  .ofElements ((List.range (top + 1)).map rankElement)

@[simp] theorem id_rankElement
    (rank : Nat) :
    (rankElement rank).id = rankId rank := by
  cases rank <;> rfl

theorem find?_arraysToRank
    {rank top : Nat}
    (h : rank ≤ top) :
    (arraysToRank top).index.find? (rankId rank) = some (rankElement rank) := by
  have hids : ((arraysToRank top).elements.map (·.id)).Nodup := by
    have hmap : (arraysToRank top).elements.map (·.id) = (List.range (top + 1)).map rankId := by
      simp [arraysToRank, Document.ofElements]
    rw [hmap]
    exact List.nodup_range.map rankId_injective
  have hmem : rankElement rank ∈ (arraysToRank top).elements :=
    List.mem_map_of_mem (List.mem_range.mpr (Nat.lt_succ_of_le h))
  have hfind := Document.find?_of_mem hids hmem
  rwa [id_rankElement] at hfind

theorem arrayChain_arraysToRank
    {rank top : Nat}
    (h : rank ≤ top) :
    ArrayChain (arraysToRank top).index (rankId rank) (List.replicate rank 3) 4 := by
  induction rank with
  | zero =>
      have hread : (rankElement 0).uint "size" = .ok 32 := by
        decide
      exact .innermost (find?_arraysToRank h) (by decide) (Element.uint_eq_ok_iff.mp hread)
  | succ rank ih =>
      have harray := Namer.isArray_arrayElement (rankId (rank + 1)) (rankId rank)
      have hlength : (rankElement (rank + 1)).HasLength 3 :=
        .bounded (harray.bounded (by decide)) (by decide)
      exact .array (find?_arraysToRank h) harray.kind (.nothing rfl) (by decide) hlength
        harray.target (ih (Nat.le_of_succ_le h))

/-- An array of rank 1023 has the largest size, and an array of it is refused. -/
theorem sizeOf_arraysToRank :
    ArrayChain (arraysToRank 1024).index (rankId 1023) (List.replicate 1023 3) 4 ∧
    (∃ n, sizeOf (arraysToRank 1024).index 8 (rankId 1023) (rankId 1024) = .ok n ∧
      n.toNat = 2 ^ 64 - 1) ∧
    ArrayChain (arraysToRank 1024).index (rankId 1024) (List.replicate 1024 3) 4 ∧
    ∃ inner, sizeOf (arraysToRank 1024).index 8 (rankId 1024) (rankId 1024) =
      .error (.cyclicReference inner) := by
  have hlast : ArrayChain (arraysToRank 1024).index (rankId 1023) (List.replicate 1023 3) 4 :=
    arrayChain_arraysToRank (by decide)
  have hbeyond : ArrayChain (arraysToRank 1024).index (rankId 1024) (List.replicate 1024 3) 4 :=
    arrayChain_arraysToRank (by decide)
  have hlarge : ∀ rank, 64 ≤ rank → 2 ^ 64 - 1 ≤ 4 * 3 ^ rank := by
    intro rank hrank
    calc 2 ^ 64 - 1 ≤ 3 ^ 64 := by decide
      _ ≤ 3 ^ rank := Nat.pow_le_pow_right (by decide) hrank
      _ ≤ 4 * 3 ^ rank := Nat.le_mul_of_pos_left _ (by decide)
  obtain ⟨n, hn, hsize⟩ :=
    (sizeOf_arrayChain hlast 8 (rankId 1024)).1 (by rw [List.length_replicate])
  refine ⟨hlast, ⟨n, hn, ?_⟩, hbeyond, ?_⟩
  · rw [hsize, List.prod_replicate, min_eq_left (hlarge 1023 (by decide))]
  · exact (sizeOf_arrayChain hbeyond 8 (rankId 1024)).2 (by rw [List.length_replicate]; decide)

end Ranks

end Layout
end TypeCatalog
