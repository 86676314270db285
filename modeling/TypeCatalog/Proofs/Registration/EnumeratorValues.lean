import TypeCatalog.Proofs.Text.Numerals
import TypeCatalog.Registration.Members
import Mathlib.Data.Int.ModEq

/-!
# Values of enumerators

**Input.** The text that a document states as the value of an enumerator.

**Rule.** Without the blanks at its ends, the text is read as a signed number, and when it is none as
an unsigned one, whose bits are kept. The two readers overlap: below `2 ^ 63` both accept a number
without a minus sign.

**Notions.** `EnumeratorValue text v` says that the text is empty and the value zero, or that the
text denotes an integer from `-2 ^ 63` to `2 ^ 64 - 1` to which the value is congruent.

**Results.**
* `not_enumeratorValue`: a text that neither reader accepts states no value.
* `enumValue_exact`: the value that is read is the one of the text, and every other text is refused
  with a problem that names it.
-/

namespace TypeCatalog

open Text

/-- The value that a text without blanks at its ends states. -/
inductive EnumeratorValue :
    List Char → Int64 → Prop
  | empty :
      EnumeratorValue [] 0
  | number
      {text : List Char} {n : Int} {v : Int64}
      (hnumeral : Numeral text n)
      (hlow : -2 ^ 63 ≤ n)
      (hhigh : n < 2 ^ 64)
      (hbits : v.toInt ≡ n [ZMOD 2 ^ 64]) :
      EnumeratorValue text v

section Words

/-- Signed words that are congruent are equal. -/
theorem eq_of_toInt_modEq
    {v w : Int64}
    (h : v.toInt ≡ w.toInt [ZMOD 2 ^ 64]) :
    v = w := by
  have hv := v.le_toInt
  have hv' := v.toInt_lt
  have hw := w.le_toInt
  have hw' := w.toInt_lt
  rw [← Int64.toInt_inj]
  unfold Int.ModEq at h
  omega

/-- A word keeps its bits, so its number modulo `2 ^ 64`, when it is read with a sign. -/
theorem toInt_toInt64_modEq
    (v : UInt64) :
    v.toInt64.toInt ≡ v.toNat [ZMOD 2 ^ 64] := by
  have hbmod : v.toInt64.toInt = (v.toNat : Int).bmod (2 ^ 64) := BitVec.toInt_eq_toNat_bmod _
  rw [hbmod]
  exact Int.bmod_emod

end Words

section Values

variable {text : List Char} {v w : Int64}

/-- A text states at most one value. -/
theorem EnumeratorValue.unique
    (h : EnumeratorValue text v)
    (h' : EnumeratorValue text w) :
    v = w := by
  cases h with
  | empty =>
      cases h' with
      | empty =>
          rfl
      | number hnumeral =>
          exact absurd rfl hnumeral.ne_nil
  | number hnumeral _ _ hbits =>
      cases h' with
      | empty =>
          exact absurd rfl hnumeral.ne_nil
      | number hnumeral' _ _ hbits' =>
          rw [hnumeral'.unique hnumeral] at hbits'
          exact eq_of_toInt_modEq (hbits.trans hbits'.symm)

theorem EnumeratorValue.of_signed64?
    (h : signed64? text = some v) :
    EnumeratorValue text v := by
  have hhigh := v.toInt_lt
  exact .number (signed64?_eq_some_iff.mp h) v.le_toInt (by omega) rfl

theorem EnumeratorValue.of_unsigned64?
    {u : UInt64}
    (h : unsigned64? text = some u) :
    EnumeratorValue text u.toInt64 := by
  have hhigh := u.toNat_lt
  exact .number (unsigned64?_eq_some_iff.mp h).1 (by omega) (by omega) (toInt_toInt64_modEq u)

/-- A text that neither reader accepts states no value. -/
theorem not_enumeratorValue
    (hne : text ≠ [])
    (hsigned : signed64? text = none)
    (hunsigned : unsigned64? text = none) :
    ¬ EnumeratorValue text v := by
  intro h
  cases h with
  | empty =>
      exact hne rfl
  | @number _ n _ hnumeral hlow hhigh hbits =>
      -- the number is above the signed range, so it has no minus sign
      have habove := signed64?_eq_none_iff.mp hsigned n hnumeral hlow
      have hnat : ((UInt64.ofNat n.toNat).toNat : Int) = n := by
        rw [UInt64.toNat_ofNat_of_lt' (by simp [UInt64.size]; omega)]
        omega
      have hread : unsigned64? text = some (UInt64.ofNat n.toNat) :=
        unsigned64?_eq_some_iff.mpr ⟨by rwa [hnat], hnumeral.head_ne_minus (by omega)⟩
      rw [hunsigned] at hread
      cases hread

/-- The reader gives the value that the text states, or there is none and it refuses the text. -/
theorem enumValue_cases
    (owner init : String) :
    (∃ v, enumValue owner init = .ok v ∧ EnumeratorValue (trim init.toList) v) ∨
      enumValue owner init =
          .error (.invalidInteger owner "init" (String.ofList (trim init.toList))) ∧
        ∀ v, ¬ EnumeratorValue (trim init.toList) v := by
  unfold enumValue
  by_cases hempty : trim init.toList = []
  · exact .inl ⟨0, by simp [hempty], by rw [hempty]; exact .empty⟩
  · rw [if_neg (by simpa using hempty)]
    cases hsigned : signed64? (trim init.toList) with
    | some v =>
        exact .inl ⟨v, rfl, .of_signed64? hsigned⟩
    | none =>
        cases hunsigned : unsigned64? (trim init.toList) with
        | some u =>
            exact .inl ⟨u.toInt64, rfl, .of_unsigned64? hunsigned⟩
        | none =>
            exact .inr ⟨rfl, fun v => not_enumeratorValue hempty hsigned hunsigned⟩

end Values

/-- An enumerator has a value exactly if the text without the blanks at its ends is empty, for zero,
or denotes an integer from `-2 ^ 63` to `2 ^ 64 - 1`, for the signed word congruent to it. Every
other text is refused with a problem that names it. -/
theorem enumValue_exact
    (owner init : String) :
    (∀ v, enumValue owner init = .ok v ↔ EnumeratorValue (trim init.toList) v) ∧
    ∀ e, enumValue owner init = .error e ↔
      e = .invalidInteger owner "init" (String.ofList (trim init.toList)) ∧
        ∀ v, ¬ EnumeratorValue (trim init.toList) v := by
  rcases enumValue_cases owner init with ⟨v, hread, hv⟩ | ⟨hread, hnone⟩
  · rw [hread]
    refine ⟨fun w => ?_, fun e => ?_⟩
    · constructor
      · rintro ⟨⟩
        exact hv
      · intro hw
        rw [hv.unique hw]
    · exact iff_of_false (by simp) fun h => h.2 v hv
  · rw [hread]
    refine ⟨fun w => iff_of_false (by simp) (hnone w), fun e => ?_⟩
    constructor
    · rintro ⟨⟩
      exact ⟨rfl, hnone⟩
    · rintro ⟨rfl, -⟩
      rfl

-- the ends of both ranges, between blanks and behind zeros
example : (enumValue "_1" " -9223372036854775808\n" = .ok (-9223372036854775808)) ∧
    enumValue "_1" "+018446744073709551615" = .ok (-1) ∧
    enumValue "_1" "18446744073709551616" =
      .error (.invalidInteger "_1" "init" "18446744073709551616") := by
  decide +kernel

end TypeCatalog
