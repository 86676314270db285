import TypeCatalog.Text.Integer
import TypeCatalog.Text.Search
import Mathlib.Data.List.Induction
import Mathlib.Data.Nat.Digits.Defs

/-!
# Integers that texts denote

**Input.** A text that is read as a number of 64 bits, with or without a sign.

**Rule.** `Numeral text n` says that the text is a sign, which may be missing, and one or more decimal
digits, and that `n` is the integer they stand for by their positions. Leading zeros are allowed, and
the digits may be of any number.

**Results.**
* `integer?_eq_some_iff`, `natural?_eq_some_iff`: the readers of unbounded numbers accept exactly the
  texts that denote one, the unsigned one those without a minus sign.
* `signed64?_eq_some_iff`, `unsigned64?_eq_some_iff`: the readers of words give the word that the text
  denotes, and refuse a text that denotes none.
* `signed64?_eq_none_iff`: a text that is no signed word denotes no integer in the signed range.
* `numeral_decimal`: the decimal digits of a number denote it.
-/

namespace TypeCatalog
namespace Text

/-- The number that decimal digits stand for, the last one being that of the units. -/
def placeValue
    (digits : List Char) :
    Nat :=
  Nat.ofDigits 10 (digits.reverse.map fun c => c.toNat - '0'.toNat)

/-- One or more decimal digits. -/
structure IsDigits
    (cs : List Char) :
    Prop where
  ne_nil : cs ≠ []
  digit : ∀ c ∈ cs, c.isDigit = true

/-- The text is digits behind a sign, which may be missing, and stands for the integer. -/
inductive Numeral :
    List Char → Int → Prop
  | bare
      {digits : List Char}
      (h : IsDigits digits) :
      Numeral digits (placeValue digits)
  | plus
      {digits : List Char}
      (h : IsDigits digits) :
      Numeral ('+' :: digits) (placeValue digits)
  | minus
      {digits : List Char}
      (h : IsDigits digits) :
      Numeral ('-' :: digits) (-(placeValue digits : Int))

section Readers

theorem digitsValue_eq_placeValue
    (digits : List Char) :
    digitsValue digits = placeValue digits := by
  -- the reader takes the digits from the left, positions count from the right
  induction digits using List.reverseRecOn with
  | nil =>
      rfl
  | append_singleton digits c ih =>
      have hread : digitsValue (digits ++ [c]) =
          10 * digitsValue digits + (c.toNat - '0'.toNat) := by
        simp [digitsValue]
      have hposition : placeValue (digits ++ [c]) = (c.toNat - '0'.toNat) + 10 * placeValue digits := by
        simp [placeValue, Nat.ofDigits_cons]
      rw [hread, hposition, ih, Nat.add_comm]

theorem digits?_eq_some
    {digits : List Char}
    (h : IsDigits digits) :
    digits? digits = some (placeValue digits) :=
  digits?_eq_some_iff.mpr ⟨⟨h.ne_nil, h.digit⟩, (digitsValue_eq_placeValue digits).symm⟩

theorem isDigits_of_digits?
    {digits : List Char} {n : Nat}
    (h : digits? digits = some n) :
    IsDigits digits ∧ n = placeValue digits := by
  obtain ⟨⟨hne, hdigit⟩, rfl⟩ := digits?_eq_some_iff.mp h
  exact ⟨⟨hne, hdigit⟩, digitsValue_eq_placeValue digits⟩

/-- No sign is a digit. -/
theorem IsDigits.head_ne
    {digits : List Char} {c : Char}
    (h : IsDigits digits)
    (hc : c.isDigit = false) :
    digits.head? ≠ some c := by
  intro hhead
  rw [h.digit c (List.mem_of_head? hhead)] at hc
  cases hc

theorem natural?_of_head_ne
    {cs : List Char}
    (h : cs.head? ≠ some '+') :
    natural? cs = digits? cs := by
  unfold natural?
  split
  · exact absurd rfl h
  · rfl

/-- The reader of numbers without a minus sign accepts the texts that denote one. -/
theorem natural?_eq_some_iff
    {cs : List Char} {n : Nat} :
    natural? cs = some n ↔ Numeral cs n ∧ cs.head? ≠ some '-' := by
  constructor
  · intro h
    unfold natural? at h
    split at h
    · obtain ⟨hdigits, rfl⟩ := isDigits_of_digits? h
      exact ⟨.plus hdigits, by simp⟩
    · obtain ⟨hdigits, rfl⟩ := isDigits_of_digits? h
      exact ⟨.bare hdigits, hdigits.head_ne (by decide)⟩
  · rintro ⟨h, hminus⟩
    generalize hi : (n : Int) = i at h
    cases h with
    | bare h =>
        rw [natural?_of_head_ne (h.head_ne (by decide)), digits?_eq_some h, Nat.cast_injective hi]
    | plus h =>
        rw [natural?, digits?_eq_some h, Nat.cast_injective hi]
    | minus h =>
        exact absurd rfl hminus

theorem integer?_minus
    (cs : List Char) :
    integer? ('-' :: cs) = (digits? cs).map fun n : Nat => -(n : Int) := by
  rw [integer?]
  cases digits? cs <;> rfl

theorem integer?_of_head_ne
    {cs : List Char}
    (h : cs.head? ≠ some '-') :
    integer? cs = (natural? cs).map fun n : Nat => (n : Int) := by
  unfold integer?
  split
  · exact absurd rfl h
  · cases natural? cs <;> rfl

/-- The reader of numbers with a sign accepts the texts that denote one. -/
theorem integer?_eq_some_iff
    {cs : List Char} {i : Int} :
    integer? cs = some i ↔ Numeral cs i := by
  by_cases hminus : cs.head? = some '-'
  · obtain ⟨digits, rfl⟩ := List.head?_eq_some_iff.mp hminus
    rw [integer?_minus, Option.map_eq_some_iff]
    constructor
    · rintro ⟨n, hn, rfl⟩
      obtain ⟨hdigits, rfl⟩ := isDigits_of_digits? hn
      exact .minus hdigits
    · intro h
      cases h with
      | bare h =>
          exact absurd rfl (h.head_ne (by decide))
      | minus h =>
          exact ⟨_, digits?_eq_some h, rfl⟩
  · rw [integer?_of_head_ne hminus, Option.map_eq_some_iff]
    constructor
    · rintro ⟨n, hn, rfl⟩
      exact (natural?_eq_some_iff.mp hn).1
    · intro h
      obtain ⟨n, rfl⟩ : ∃ n : Nat, (n : Int) = i := by
        cases h with
        | bare h =>
            exact ⟨_, rfl⟩
        | plus h =>
            exact ⟨_, rfl⟩
        | minus h =>
            exact absurd rfl hminus
      exact ⟨n, natural?_eq_some_iff.mpr ⟨h, hminus⟩, rfl⟩

end Readers

section Words

variable {cs : List Char} {i j : Int}

/-- A text denotes at most one integer. -/
theorem Numeral.unique
    (h : Numeral cs i)
    (h' : Numeral cs j) :
    i = j := by
  rw [← integer?_eq_some_iff] at h h'
  exact Option.some.inj (h.symm.trans h')

theorem Numeral.ne_nil
    (h : Numeral cs i) :
    cs ≠ [] := by
  cases h with
  | bare h =>
      exact h.ne_nil
  | plus h =>
      simp
  | minus h =>
      simp

/-- A text that denotes a positive number has no minus sign. -/
theorem Numeral.head_ne_minus
    (h : Numeral cs i)
    (hpos : 0 < i) :
    cs.head? ≠ some '-' := by
  cases h with
  | bare h =>
      exact h.head_ne (by decide)
  | plus h =>
      simp
  | minus h =>
      omega

/-- A word is read from a text exactly if the text denotes it. -/
theorem signed64?_eq_some_iff
    {v : Int64} :
    signed64? cs = some v ↔ Numeral cs v.toInt := by
  rw [← integer?_eq_some_iff, signed64?, Int64.toInt_minValue, Int64.toInt_maxValue]
  cases hread : integer? cs with
  | none =>
      simp
  | some i =>
      have hlow := v.le_toInt
      have hhigh := v.toInt_lt
      simp only [Option.some.injEq]
      split
      · next hrange =>
          rw [Option.some.injEq, ← Int64.toInt_inj,
            Int64.toInt_ofInt_of_le hrange.1 (by omega)]
      · next hrange =>
          refine iff_of_false (by simp) fun heq => hrange ?_
          omega

/-- A text is no signed word exactly if what it denotes, if anything, is outside of the range. -/
theorem signed64?_eq_none_iff :
    signed64? cs = none ↔ ∀ n, Numeral cs n → -2 ^ 63 ≤ n → 2 ^ 63 ≤ n := by
  rw [Option.eq_none_iff_forall_ne_some]
  constructor
  · intro h n hn hlow
    by_contra hhigh
    refine h (Int64.ofInt n) (signed64?_eq_some_iff.mpr ?_)
    rwa [Int64.toInt_ofInt_of_le hlow (by omega)]
  · intro h v hv
    have hrange := h v.toInt (signed64?_eq_some_iff.mp hv) v.le_toInt
    have hhigh := v.toInt_lt
    omega

/-- A word without sign is read from a text exactly if the text denotes it without a minus sign. -/
theorem unsigned64?_eq_some_iff
    {v : UInt64} :
    unsigned64? cs = some v ↔ Numeral cs v.toNat ∧ cs.head? ≠ some '-' := by
  rw [← natural?_eq_some_iff, unsigned64?]
  cases hread : natural? cs with
  | none =>
      simp
  | some n =>
      have hhigh := v.toNat_lt
      simp only [Option.some.injEq]
      split
      · next hrange =>
          rw [Option.some.injEq, ← UInt64.toNat_inj, UInt64.toNat_ofNat_of_lt' hrange]
      · next hrange =>
          refine iff_of_false (by simp) fun heq => hrange ?_
          rwa [heq]

theorem isDigits_decimal
    (n : Nat) :
    IsDigits (decimal n) :=
  ⟨Nat.toDigits_ne_nil, fun _ hc => Nat.isDigit_of_mem_toDigits (by decide) (by decide) hc⟩

/-- The decimal digits of a number denote it. -/
theorem numeral_decimal
    (n : Nat) :
    Numeral (decimal n) n := by
  have hvalue : placeValue (decimal n) = n := by
    rw [← digitsValue_eq_placeValue]
    exact Nat.ofDigitChars_toDigits (by decide) (by decide)
  have h := Numeral.bare (isDigits_decimal n)
  rwa [hvalue] at h

end Words

end Text
end TypeCatalog
