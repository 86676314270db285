import TypeCatalog.Document.Repair
import TypeCatalog.Proofs.Text.Runs
import Mathlib.Data.List.Infix
import Mathlib.Data.List.TakeWhile

/-!
# The values of literals in a name

**Input.** A name with a template argument list, such as `fill<12ul,-0x0001>`.

**Notions.** A run of word characters denotes an integer, if it is a literal, and else nothing but
itself. The reading of a name keeps the text around its argument list and puts what they denote for
the runs of the list. `NegativesBelowTen` says of a name that the hexadecimal literals after a minus
sign, in its list, are below ten.

**Argument.** An unsigned suffix has no part in the value of a literal. Without its mark and
padding, a hexadecimal literal is read in base ten, or is no number when it holds a letter: of the
numbers with a significant digit, only those of one decimal digit keep their value. Each run is
changed within itself, so the runs of the patched list are the patched runs.

**Results.**
* `literalValue?_significant_iff`: which hexadecimal digits keep their value without the mark.
* `meanings_iff`: which lists keep what their runs denote.
* `readName_patchLiterals_iff`: which names read the same when they are patched.
* `literal_values_kept_iff`: this, and what follows for the names of classes and functions.
-/

namespace TypeCatalog
namespace Template

open Text

/-- The value of a decimal digit: the digits of a script follow each other from zero on. -/
def digitValue
    (c : Char) :
    Nat :=
  match (('0'.toNat, '9'.toNat) :: digitRanges).find? fun r =>
      decide (r.1 ≤ c.toNat) && decide (c.toNat ≤ r.2) with
  | some r => (c.toNat - r.1) % 10
  | none => 0

/-- The value of a hexadecimal digit. -/
def hexDigitValue
    (c : Char) :
    Nat :=
  if c.isDigit then c.toNat - '0'.toNat
  else if 'a' ≤ c then c.toNat - 'a'.toNat + 10
  else c.toNat - 'A'.toNat + 10

/-- The number that digits write in a base, after a number that is written before them. -/
def numeral
    (base : Nat) (value : Char → Nat) (before : Nat) (digits : List Char) :
    Nat :=
  digits.foldl (fun n c => base * n + value c) before

/-- The value of an integer literal: hexadecimal digits after `0x`, or decimal digits, also with an
unsigned suffix. -/
def literalValue? :
    List Char → Option Nat
  | '0' :: 'x' :: digits =>
      if !digits.isEmpty && digits.all isHexDigit then some (numeral 16 hexDigitValue 0 digits)
      else none
  | word =>
      let digits := word.takeWhile isDecimalDigit
      let suffix := word.dropWhile isDecimalDigit
      if !digits.isEmpty && (suffix == [] || suffix == ['u'] || suffix == ['u', 'l']) then
        some (numeral 10 digitValue 0 digits)
      else none

/-- What a word denotes: an integer, or nothing but itself. -/
inductive Meaning where
  | integer (value : Nat)
  | text (word : List Char)
deriving DecidableEq

/-- The meaning of a word. -/
def meaning
    (word : List Char) :
    Meaning :=
  match literalValue? word with
  | some n => .integer n
  | none => .text word

/-- If the word is a hexadecimal literal, its value is written with one decimal digit. -/
def BelowTen
    (word : List Char) :
    Prop :=
  ∀ n, ['0', 'x'] <+: word → literalValue? word = some n → n < 10

section Digits

theorem isDigit_iff
    (c : Char) :
    c.isDigit = true ↔ 48 ≤ c.toNat ∧ c.toNat ≤ 57 := by
  simp [Char.isDigit, UInt32.le_iff_toNat_le]

/-- A hexadecimal digit is a decimal digit, or a letter. -/
theorem isHexDigit_cases
    {c : Char}
    (h : isHexDigit c = true) :
    c.toNat < 128 ∧ (c.isDigit = true ∧ hexDigitValue c = c.toNat - 48 ∨
      c.isDigit = false ∧ 10 ≤ hexDigitValue c) := by
  have hle : ∀ a b : Char, a ≤ b ↔ a.toNat ≤ b.toNat := fun _ _ => Iff.rfl
  have hnumbers : 'a'.toNat = 97 ∧ 'f'.toNat = 102 ∧ 'A'.toNat = 65 ∧ 'F'.toNat = 70 := by
    decide
  simp only [isHexDigit, Bool.or_eq_true, Bool.and_eq_true, decide_eq_true_eq, hle,
    isDigit_iff] at h
  refine ⟨by omega, ?_⟩
  rw [hexDigitValue]
  cases hc : c.isDigit with
  | true =>
      exact .inl ⟨rfl, rfl⟩
  | false =>
      refine .inr ⟨rfl, ?_⟩
      simp only [Bool.false_eq_true, if_false]
      split <;> omega

theorem one_le_hexDigitValue
    {c : Char}
    (h : isHexDigit c = true)
    (hzero : c ≠ '0') :
    1 ≤ hexDigitValue c := by
  obtain ⟨-, ⟨hdigit, hvalue⟩ | ⟨-, hvalue⟩⟩ := isHexDigit_cases h
  · have hne : c.toNat ≠ 48 := fun heq => hzero (Char.toNat_inj.mp heq)
    have hrange := (isDigit_iff c).mp hdigit
    omega
  · omega

theorem isDecimalDigit_of_hex
    {c : Char}
    (h : isHexDigit c = true) :
    isDecimalDigit c = c.isDigit := by
  rw [isDecimalDigit, if_pos (isHexDigit_cases h).1]

theorem digitValue_of_isDigit
    {c : Char}
    (h : c.isDigit = true) :
    digitValue c = c.toNat - 48 := by
  have hrange := (isDigit_iff c).mp h
  have hfind : (decide ('0'.toNat ≤ c.toNat) && decide (c.toNat ≤ '9'.toNat)) = true := by
    simpa using hrange
  simp only [digitValue, List.find?_cons, hfind]
  simp only [Char.reduceToNat]
  omega

/-- A digit of both kinds has one value. -/
theorem digitValue_eq_hexDigitValue
    {c : Char}
    (hhex : isHexDigit c = true)
    (hdecimal : isDecimalDigit c = true) :
    digitValue c = hexDigitValue c ∧ hexDigitValue c < 10 := by
  rw [isDecimalDigit_of_hex hhex] at hdecimal
  have hrange := (isDigit_iff c).mp hdecimal
  obtain ⟨-, ⟨-, hvalue⟩ | ⟨hletter, -⟩⟩ := isHexDigit_cases hhex
  · rw [digitValue_of_isDigit hdecimal, hvalue]
    exact ⟨rfl, by omega⟩
  · rw [hdecimal] at hletter
    cases hletter

end Digits

section Numerals

theorem numeral_cons
    (base : Nat) (value : Char → Nat) (before : Nat) (c : Char) (digits : List Char) :
    numeral base value before (c :: digits) =
      numeral base value (base * before + value c) digits := rfl

theorem numeral_congr
    {base : Nat} {f g : Char → Nat} {digits : List Char}
    (h : ∀ c ∈ digits, f c = g c) (before : Nat) :
    numeral base f before digits = numeral base g before digits := by
  induction digits generalizing before with
  | nil =>
      rfl
  | cons c digits ih =>
      rw [numeral_cons, numeral_cons, h c (by simp)]
      exact ih (fun d hd => h d (List.mem_cons_of_mem c hd)) _

theorem le_numeral
    (value : Char → Nat) (before : Nat) (digits : List Char) :
    before ≤ numeral 16 value before digits := by
  induction digits generalizing before with
  | nil =>
      exact Nat.le_refl before
  | cons c digits ih =>
      have hrest := ih (16 * before + value c)
      rw [numeral_cons]
      omega

/-- The same digits after a larger number, and in a larger base, write a larger number. -/
theorem numeral_lt
    (value : Char → Nat) {m n : Nat} (digits : List Char)
    (h : m < n) :
    numeral 10 value m digits < numeral 16 value n digits := by
  induction digits generalizing m n with
  | nil =>
      exact h
  | cons c digits ih =>
      rw [numeral_cons, numeral_cons]
      exact ih (by omega)

theorem numeral_zeros
    {zeros : List Char} (digits : List Char)
    (h : ∀ c ∈ zeros, c = '0') :
    numeral 16 hexDigitValue 0 (zeros ++ digits) = numeral 16 hexDigitValue 0 digits := by
  induction zeros with
  | nil =>
      rfl
  | cons c zeros ih =>
      have hzero : 16 * 0 + hexDigitValue '0' = 0 := by
        decide
      rw [List.cons_append, numeral_cons, h c (by simp), hzero]
      exact ih fun d hd => h d (List.mem_cons_of_mem c hd)

end Numerals

section Values

theorem literalValue?_hexadecimal
    (digits : List Char) :
    literalValue? ('0' :: 'x' :: digits) =
      if !digits.isEmpty && digits.all isHexDigit then some (numeral 16 hexDigitValue 0 digits)
      else none := rfl

/-- The zeros in front of the significant digits have no part in the value. -/
theorem literalValue?_padded
    {zeros : List Char} (significant : List Char)
    (hzeros : ∀ c ∈ zeros, c = '0') :
    literalValue? ('0' :: 'x' :: (zeros ++ significant)) =
      if !(zeros ++ significant).isEmpty && significant.all isHexDigit then
        some (numeral 16 hexDigitValue 0 significant)
      else none := by
  have hall : zeros.all isHexDigit = true := by
    rw [List.all_eq_true]
    intro c hc
    rw [hzeros c hc]
    decide
  rw [literalValue?_hexadecimal, List.all_append, hall, Bool.true_and, numeral_zeros _ hzeros]

/-- A word of decimal digits, with a suffix or without, has no hexadecimal mark. -/
theorem decimal_ne_hexadecimal
    {digits suffix rest : List Char}
    (hne : digits ≠ [])
    (hdigits : ∀ c ∈ digits, isDecimalDigit c = true)
    (hsuffix : suffix = [] ∨ suffix = ['u'] ∨ suffix = ['u', 'l']) :
    digits ++ suffix ≠ '0' :: 'x' :: rest := by
  intro heq
  match digits, hne with
  | [d], _ =>
      rcases hsuffix with rfl | rfl | rfl <;> simp at heq
  | d :: e :: digits, _ =>
      obtain rfl : e = 'x' := by
        simpa using (List.cons.inj (List.cons.inj heq).2).1
      exact absurd (hdigits 'x' (by simp)) (by decide)

theorem literalValue?_decimal
    {digits suffix : List Char}
    (hne : digits ≠ [])
    (hdigits : ∀ c ∈ digits, isDecimalDigit c = true)
    (hsuffix : suffix = [] ∨ suffix = ['u'] ∨ suffix = ['u', 'l']) :
    literalValue? (digits ++ suffix) = some (numeral 10 digitValue 0 digits) := by
  have hstop : suffix.takeWhile isDecimalDigit = [] ∧ suffix.dropWhile isDecimalDigit = suffix := by
    rcases hsuffix with rfl | rfl | rfl <;> decide
  have htake : (digits ++ suffix).takeWhile isDecimalDigit = digits := by
    rw [List.takeWhile_append_of_pos hdigits, hstop.1, List.append_nil]
  have hdrop : (digits ++ suffix).dropWhile isDecimalDigit = suffix := by
    rw [List.dropWhile_append_of_pos hdigits, hstop.2]
  unfold literalValue?
  split
  · next rest heq =>
      exact absurd heq (decimal_ne_hexadecimal hne hdigits hsuffix)
  · simp only [htake, hdrop]
    rw [if_pos]
    rcases hsuffix with rfl | rfl | rfl <;> simp [hne]

/-- A word that denotes an integer has the hexadecimal mark, or is made of decimal digits and a
suffix. -/
theorem literalValue?_cases
    {word : List Char} {n : Nat}
    (h : literalValue? word = some n) :
    (∃ digits, word = '0' :: 'x' :: digits) ∨
      ∃ digits suffix, (∀ c ∈ digits, isDecimalDigit c = true) ∧
        (suffix = [] ∨ suffix = ['u'] ∨ suffix = ['u', 'l']) ∧ word = digits ++ suffix ∧
        n = numeral 10 digitValue 0 digits := by
  unfold literalValue? at h
  split at h
  · next digits => exact .inl ⟨digits, rfl⟩
  · right
    simp only at h
    split at h
    · next hparts =>
        rw [Bool.and_eq_true] at hparts
        refine ⟨word.takeWhile isDecimalDigit, word.dropWhile isDecimalDigit,
          fun c hc => List.mem_takeWhile_imp hc, ?_, List.takeWhile_append_dropWhile.symm,
          (Option.some.inj h).symm⟩
        simpa [or_assoc] using hparts.2
    · cases h

/-- Hexadecimal digits that are read as a word of their own are decimal: no letter of a suffix is a
hexadecimal digit. -/
theorem isDecimalDigit_of_significant
    {d : Char} {digits : List Char} {n : Nat}
    (hd : d ≠ '0')
    (hhex : ∀ c ∈ d :: digits, isHexDigit c = true)
    (h : literalValue? (d :: digits) = some n) :
    (∀ c ∈ d :: digits, isDecimalDigit c = true) ∧
      n = numeral 10 hexDigitValue 0 (d :: digits) := by
  obtain ⟨rest, hmark⟩ | ⟨decimals, suffix, hdecimals, hsuffix, hword, hn⟩ := literalValue?_cases h
  · exact absurd (List.cons.inj hmark).1 hd
  · have hnot : 'u' ∉ suffix := by
      intro hmem
      have hletter := hhex 'u' (hword ▸ List.mem_append_right decimals hmem)
      exact absurd hletter (by decide)
    obtain rfl : suffix = [] := by
      rcases hsuffix with rfl | rfl | rfl
      · rfl
      · exact absurd (by simp) hnot
      · exact absurd (by simp) hnot
    rw [List.append_nil] at hword
    subst hword
    refine ⟨hdecimals, hn.trans (numeral_congr (fun c hc => ?_) 0)⟩
    exact (digitValue_eq_hexDigitValue (hhex c hc) (hdecimals c hc)).1

/-- A number below ten has one significant digit. -/
theorem eq_nil_of_numeral_lt
    {d : Char} {digits : List Char}
    (hone : 1 ≤ hexDigitValue d)
    (h : numeral 16 hexDigitValue 0 (d :: digits) < 10) :
    digits = [] := by
  cases digits with
  | nil =>
      rfl
  | cons e digits =>
      have hmore := le_numeral hexDigitValue
        (16 * (16 * 0 + hexDigitValue d) + hexDigitValue e) digits
      simp only [numeral_cons] at h
      omega

/-- Significant hexadecimal digits, read as a word of their own, have the value that they have after
the mark exactly if that value is below ten. -/
theorem literalValue?_significant_iff
    {d : Char} {digits : List Char}
    (hd : d ≠ '0')
    (hhex : ∀ c ∈ d :: digits, isHexDigit c = true) :
    literalValue? (d :: digits) = some (numeral 16 hexDigitValue 0 (d :: digits)) ↔
      numeral 16 hexDigitValue 0 (d :: digits) < 10 := by
  have hone := one_le_hexDigitValue (hhex d (by simp)) hd
  have hvalue : numeral 16 hexDigitValue 0 [d] = hexDigitValue d := by
    simp [numeral]
  constructor
  · intro h
    obtain ⟨hdecimals, hn⟩ := isDecimalDigit_of_significant hd hhex h
    cases digits with
    | nil =>
        rw [hvalue]
        exact (digitValue_eq_hexDigitValue (hhex d (by simp)) (hdecimals d (by simp))).2
    | cons e digits =>
        -- From the second digit on, the larger base gives the larger number.
        have hless := numeral_lt hexDigitValue digits
          (show 10 * (10 * 0 + hexDigitValue d) + hexDigitValue e <
            16 * (16 * 0 + hexDigitValue d) + hexDigitValue e by omega)
        simp only [numeral_cons] at hn
        omega
  · intro hlt
    obtain rfl := eq_nil_of_numeral_lt hone hlt
    rw [hvalue] at hlt ⊢
    have hdigit : isDecimalDigit d = true := by
      rw [isDecimalDigit_of_hex (hhex d (by simp))]
      obtain ⟨-, ⟨hdigit, -⟩ | ⟨-, hletter⟩⟩ := isHexDigit_cases (hhex d (by simp))
      · exact hdigit
      · omega
    have hdecimal := literalValue?_decimal (show [d] ≠ [] by simp) (by simpa using hdigit)
      (.inl rfl)
    rw [List.append_nil] at hdecimal
    rw [hdecimal, ← (digitValue_eq_hexDigitValue (hhex d (by simp)) hdigit).1]
    simp [numeral]

end Values

section Words

/-- Dropping a suffix changes nothing, or leaves the digits in front of it. -/
theorem dropSuffix_cases
    (word : List Char) :
    dropSuffix word = word ∨ ∃ suffix, dropSuffix word ≠ [] ∧
      (∀ c ∈ dropSuffix word, isDecimalDigit c = true) ∧ (suffix = ['u'] ∨ suffix = ['u', 'l']) ∧
      word = dropSuffix word ++ suffix := by
  by_cases hparts : (!(word.takeWhile isDecimalDigit).isEmpty &&
      (word.dropWhile isDecimalDigit == ['u'] ||
        word.dropWhile isDecimalDigit == ['u', 'l'])) = true
  · right
    have hdrop : dropSuffix word = word.takeWhile isDecimalDigit := if_pos hparts
    rw [hdrop]
    refine ⟨word.dropWhile isDecimalDigit, ?_, fun c hc => List.mem_takeWhile_imp hc, ?_,
      List.takeWhile_append_dropWhile.symm⟩
    · intro hnil
      simp [hnil] at hparts
    · rw [Bool.and_eq_true] at hparts
      simpa using hparts.2
  · exact .inl (if_neg hparts)

theorem meaning_dropSuffix
    (word : List Char) :
    meaning (dropSuffix word) = meaning word := by
  obtain hsame | ⟨suffix, hne, hdigits, hsuffix, hword⟩ := dropSuffix_cases word
  · rw [hsame]
  · have hplain := literalValue?_decimal hne hdigits (.inl rfl)
    have hmarked := literalValue?_decimal hne hdigits (.inr hsuffix)
    rw [List.append_nil] at hplain
    rw [← hword] at hmarked
    rw [meaning, meaning, hplain, hmarked]

/-- Dropping the padding changes nothing, and then a negative literal is below ten, or leaves the
significant digits of a hexadecimal literal. -/
theorem dropPadding_cases
    (word : List Char) :
    dropPadding word = word ∧ BelowTen word ∨
      ∃ zeros d digits, d ≠ '0' ∧ (∀ c ∈ zeros, c = '0') ∧
        (∀ c ∈ d :: digits, isHexDigit c = true) ∧ dropPadding word = d :: digits ∧
        word = '0' :: 'x' :: (zeros ++ d :: digits) := by
  unfold dropPadding
  split
  · next digits =>
      have hcut : digits.takeWhile (· == '0') ++ digits.dropWhile (· == '0') = digits :=
        List.takeWhile_append_dropWhile
      have hzeros : ∀ c ∈ digits.takeWhile (· == '0'), c = '0' := fun c hc => by
        simpa using List.mem_takeWhile_imp hc
      have hvalue := literalValue?_padded (digits.dropWhile (· == '0')) hzeros
      rw [hcut] at hvalue
      cases hsignificant : digits.dropWhile (· == '0') with
      | nil =>
          refine .inl ⟨rfl, fun n _ hn => ?_⟩
          rw [hvalue, hsignificant] at hn
          split at hn
          · rw [← Option.some.inj hn]
            decide
          · cases hn
      | cons d rest =>
          have hd : d ≠ '0' := by
            have hfirst := List.head?_dropWhile_not (· == '0') digits
            rw [hsignificant] at hfirst
            simpa using hfirst
          simp only [List.isEmpty_cons, Bool.not_false, Bool.true_and]
          split
          · next hall =>
              exact .inr ⟨_, d, rest, hd, hzeros, List.all_eq_true.mp hall, rfl,
                by rw [← hsignificant, hcut]⟩
          · next hall =>
              refine .inl ⟨rfl, fun n _ hn => ?_⟩
              rw [hvalue, hsignificant, if_neg (by simp [hall])] at hn
              cases hn
  · next hother =>
      refine .inl ⟨rfl, fun n hmark _ => ?_⟩
      obtain ⟨rest, hword⟩ := hmark
      exact absurd hword.symm (hother rest)

/-- A negative hexadecimal literal without its padding denotes the same integer exactly if that is
written with one decimal digit. -/
theorem meaning_dropPadding_iff
    (word : List Char) :
    meaning (dropPadding word) = meaning word ↔ BelowTen word := by
  obtain ⟨hsame, hbelow⟩ | ⟨zeros, d, digits, hd, hzeros, hhex, hdrop, hword⟩ :=
    dropPadding_cases word
  · rw [hsame]
    exact iff_of_true rfl hbelow
  · have hvalue : literalValue? word = some (numeral 16 hexDigitValue 0 (d :: digits)) := by
      rw [hword, literalValue?_padded _ hzeros, List.all_eq_true.mpr hhex]
      simp
    have hbelow : BelowTen word ↔ numeral 16 hexDigitValue 0 (d :: digits) < 10 := by
      refine ⟨fun h => h _ ⟨zeros ++ d :: digits, hword.symm⟩ hvalue, fun h n _ hn => ?_⟩
      rw [hvalue] at hn
      rwa [← Option.some.inj hn]
    rw [hbelow, ← literalValue?_significant_iff hd hhex, hdrop, meaning, meaning, hvalue]
    cases literalValue? (d :: digits) <;> simp

theorem belowTen_dropSuffix_iff
    (word : List Char) :
    BelowTen (dropSuffix word) ↔ BelowTen word := by
  obtain hsame | ⟨suffix, hne, hdigits, hsuffix, hword⟩ := dropSuffix_cases word
  · rw [hsame]
  · have hplain : ∀ rest, dropSuffix word ≠ '0' :: 'x' :: rest := by
      intro rest
      rw [← List.append_nil (dropSuffix word)]
      exact decimal_ne_hexadecimal hne hdigits (.inl rfl)
    have hmarked : ∀ rest, word ≠ '0' :: 'x' :: rest := by
      intro rest
      rw [hword]
      exact decimal_ne_hexadecimal hne hdigits (.inr hsuffix)
    refine iff_of_true ?_ ?_
    · rintro n ⟨rest, hmark⟩
      exact absurd hmark.symm (hplain rest)
    · rintro n ⟨rest, hmark⟩
      exact absurd hmark.symm (hmarked rest)

/-- The last character of a word is no minus sign, with or without a suffix. -/
theorem getLast?_dropSuffix_iff
    (word : List Char) :
    (dropSuffix word).getLast? = some '-' ↔ word.getLast? = some '-' := by
  obtain hsame | ⟨suffix, hne, hdigits, hsuffix, hword⟩ := dropSuffix_cases word
  · rw [hsame]
  · refine iff_of_false (fun hlast => ?_) (fun hlast => ?_)
    · exact absurd (hdigits '-' (List.mem_of_getLast? hlast)) (by decide)
    · rw [hword] at hlast
      rcases hsuffix with rfl | rfl <;> simp at hlast

end Words

section Lists

/-- The meanings in a list are kept exactly if every hexadecimal literal after a minus sign is
below ten; `before` is the character in front of the first run. -/
theorem meanings_iff
    (before : Option Char) (runs : List (List Char)) :
    (dropPaddings before (runs.map dropSuffix)).map meaning = runs.map meaning ↔
      (before = some '-' → ∀ word, runs.head? = some word → BelowTen word) ∧
        ∀ run word, [run, word] <:+: runs → run.getLast? = some '-' → BelowTen word := by
  induction runs generalizing before with
  | nil =>
      simp [dropPaddings]
  | cons run runs ih =>
      have hword : meaning (if before = some '-' then dropPadding (dropSuffix run)
          else dropSuffix run) = meaning run ↔ (before = some '-' → BelowTen run) := by
        split
        · next hminus =>
            rw [← meaning_dropSuffix run, meaning_dropPadding_iff, belowTen_dropSuffix_iff]
            exact ⟨fun h _ => h, fun h => h hminus⟩
        · next hminus =>
            exact iff_of_true (meaning_dropSuffix run) fun h => absurd h hminus
      have hpairs : (∀ r word, [r, word] <:+: run :: runs → r.getLast? = some '-' →
            BelowTen word) ↔
          (run.getLast? = some '-' → ∀ word, runs.head? = some word → BelowTen word) ∧
            ∀ r word, [r, word] <:+: runs → r.getLast? = some '-' → BelowTen word := by
        constructor
        · intro h
          refine ⟨fun hlast word hhead => ?_, fun r word hin => h r word (List.infix_cons hin)⟩
          obtain ⟨rest, rfl⟩ := List.head?_eq_some_iff.mp hhead
          exact h run word ⟨[], rest, rfl⟩ hlast
        · rintro ⟨hfirst, hrest⟩ r word hin hlast
          rcases List.infix_cons_iff.mp hin with ⟨rest, hprefix⟩ | hin
          · obtain ⟨rfl, rfl⟩ := List.cons.inj hprefix
            exact hfirst hlast word rfl
          · exact hrest r word hin hlast
      rw [List.map_cons, dropPaddings, List.map_cons, List.map_cons, List.cons_eq_cons, hword, ih,
        getLast?_dropSuffix_iff, hpairs]
      simp only [List.head?_cons, Option.some.injEq, forall_eq']

theorem alternates_dropSuffix
    {b : Bool} {runs : List (List Char)}
    (h : Alternates isWord b runs) :
    Alternates isWord b (runs.map dropSuffix) := by
  induction h with
  | nil =>
      exact .nil
  | @cons b run rest hne hrun _ ih =>
      obtain hsame | ⟨suffix, hleft, -, -, hword⟩ := dropSuffix_cases run
      · rw [List.map_cons, hsame]
        exact .cons hne hrun ih
      · refine .cons hleft (fun c hc => hrun c ?_) ih
        rw [hword]
        exact List.mem_append_left suffix hc

theorem alternates_dropPaddings
    {b : Bool} {runs : List (List Char)} (before : Option Char)
    (h : Alternates isWord b runs) :
    Alternates isWord b (dropPaddings before runs) := by
  induction h generalizing before with
  | nil =>
      exact .nil
  | @cons b run rest hne hrun _ ih =>
      have hleft : dropPadding run ≠ [] ∧ ∀ c ∈ dropPadding run, c ∈ run := by
        obtain ⟨hsame, -⟩ | ⟨zeros, d, digits, -, -, -, hdrop, hword⟩ := dropPadding_cases run
        · rw [hsame]
          exact ⟨hne, fun c hc => hc⟩
        · rw [hdrop]
          refine ⟨by simp, fun c hc => ?_⟩
          rw [hword]
          exact List.mem_cons_of_mem _ (List.mem_cons_of_mem _ (List.mem_append_right zeros hc))
      rw [dropPaddings]
      split
      · exact .cons hleft.1 (fun c hc => hrun c (hleft.2 c hc)) (ih _)
      · exact .cons hne hrun (ih _)

/-- The runs of a patched list are the runs of the list, patched. -/
theorem wordRuns_patched
    (list : List Char) :
    wordRuns (unpadNegatives (dropSuffixes list)) =
      dropPaddings none ((wordRuns list).map dropSuffix) := by
  obtain ⟨b, hruns⟩ := alternates_runs isWord list
  have hdropped := alternates_dropSuffix hruns
  have hpadded := alternates_dropPaddings none hdropped
  have hsuffixes : wordRuns (dropSuffixes list) = (wordRuns list).map dropSuffix :=
    hdropped.runs_flatten
  rw [unpadNegatives, hsuffixes]
  exact hpadded.runs_flatten

end Lists

section Names

/-- A name with its integer literals read: the text around the argument list, and what the runs of
the list denote. -/
inductive NameReading where
  | plain (name : List Char)
  | applied (template : List Char) (words : List Meaning) (suffix : List Char)
deriving DecidableEq

/-- Reads the integer literals in the template argument list of a name. -/
def readName
    (name : String) :
    NameReading :=
  match instance? name.toList with
  | some ⟨template, inner, suffix, true⟩ =>
      .applied template ((wordRuns inner).map meaning) suffix
  | _ => .plain name.toList

/-- Every hexadecimal literal after a minus sign, in the template argument list of a name, is below
ten. -/
def NegativesBelowTen
    (name : String) :
    Prop :=
  ∀ i run word, instance? name.toList = some i → [run, word] <:+: wordRuns i.inner →
    run.getLast? = some '-' → BelowTen word

/-- Where a list opens does not depend on what is in it. -/
theorem splitOpen_replace
    {depth : Int} {name before after : List Char} (other : List Char)
    (h : splitOpen depth name = some (before, after)) :
    splitOpen depth (before ++ '<' :: other) = some (before, other) := by
  induction name generalizing depth before with
  | nil =>
      cases h
  | cons c name ih =>
      rw [splitOpen] at h
      split at h
      · next hopen =>
          obtain ⟨rfl, -⟩ := Prod.mk.inj (Option.some.inj h)
          exact if_pos ⟨rfl, hopen.2⟩
      · next hopen =>
          obtain ⟨⟨before, after⟩, hrest, hparts⟩ := Option.map_eq_some_iff.mp h
          obtain ⟨rfl, rfl⟩ := Prod.mk.inj hparts
          rw [List.cons_append, splitOpen, if_neg hopen, ih hrest]
          rfl

/-- The parts of a name stay the same when another text stands between the brackets. -/
theorem instance?_replace
    {name template inner suffix : List Char} (other : List Char)
    (h : instance? name = some ⟨template, inner, suffix, true⟩) :
    instance? (template ++ '<' :: other ++ '>' :: suffix) =
      some ⟨template, other, suffix, true⟩ := by
  obtain ⟨after, hopen⟩ : ∃ after, splitOpen 0 name = some (template, after) := by
    unfold instance? at h
    split at h
    · cases h
    · next before after hopen =>
        refine ⟨after, ?_⟩
        split at h <;> cases h
        exact hopen
  have hsuffix : '>' ∉ suffix := by
    obtain ⟨-, hsuffix, -⟩ | ⟨hclosed, -⟩ := instance?_cases h
    · exact hsuffix
    · cases hclosed
  have hother := splitOpen_replace (other ++ '>' :: suffix) hopen
  rw [List.append_assoc, List.cons_append]
  simp only [instance?, hother, splitLast_append other hsuffix]

/-- A name is patched in a closed argument list, and kept without one. -/
theorem patchLiterals_cases
    (name : String) :
    (∃ template inner suffix, instance? name.toList = some ⟨template, inner, suffix, true⟩ ∧
        patchLiterals name = String.ofList
          (template ++ '<' :: unpadNegatives (dropSuffixes inner) ++ '>' :: suffix)) ∨
      patchLiterals name = name ∧ ∀ i, instance? name.toList = some i → i.inner = [] := by
  unfold patchLiterals
  split
  · next template inner suffix hname =>
      exact .inl ⟨template, inner, suffix, hname, rfl⟩
  · next hother =>
      refine .inr ⟨rfl, fun i hname => ?_⟩
      obtain ⟨hclosed, -⟩ | ⟨-, hinner, -⟩ := instance?_cases hname
      · obtain ⟨template, inner, suffix, closed⟩ := i
        obtain rfl : closed = true := hclosed
        exact absurd hname (hother template inner suffix)
      · exact hinner

/-- A patched name reads as the name exactly if its negative hexadecimal literals are below ten. -/
theorem readName_patchLiterals_iff
    (name : String) :
    readName (patchLiterals name) = readName name ↔ NegativesBelowTen name := by
  obtain ⟨template, inner, suffix, hname, hpatched⟩ | ⟨hsame, hinner⟩ := patchLiterals_cases name
  · have hinstance : instance? (patchLiterals name).toList =
        some ⟨template, unpadNegatives (dropSuffixes inner), suffix, true⟩ := by
      rw [hpatched, String.toList_ofList]
      exact instance?_replace _ hname
    have hnegatives : NegativesBelowTen name ↔ ∀ run word, [run, word] <:+: wordRuns inner →
        run.getLast? = some '-' → BelowTen word := by
      refine ⟨fun h run word => h _ run word hname, fun h i run word hi => ?_⟩
      obtain rfl := Option.some.inj (hname.symm.trans hi)
      exact h run word
    have hruns := meanings_iff none (wordRuns inner)
    simp only [reduceCtorEq, false_implies, true_and] at hruns
    rw [hnegatives, ← hruns]
    simp only [readName, hinstance, hname, wordRuns_patched, NameReading.applied.injEq, true_and,
      and_true]
  · rw [hsame]
    refine iff_of_true rfl fun i run word hname hruns => ?_
    rw [hinner i hname] at hruns
    cases List.infix_nil.mp hruns

instance
    (name : String) :
    Decidable (NegativesBelowTen name) :=
  decidable_of_iff _ (readName_patchLiterals_iff name)

end Names

end Template

namespace Element

open Template

/-- The name of a class or function before its literals are patched: the declared name, for an
operator in its canonical form, with the template arguments that the signature shows. The compiler's
own symbols have no such arguments. -/
def statedName?
    (e : Element) :
    Option String :=
  let recovered := fun name =>
    if isCompilerSymbol name then name else Template.instanceName name (e.attr "demangled")
  match e.kind with
  | .classRecord | .structRecord | .unionRecord => some e.name
  | .function => some (Template.instanceName e.name (e.attr "demangled"))
  | .operatorFunction | .operatorMethod | .converter =>
      some (recovered (operatorName e.name (e.attr "demangled")))
  | .constructor | .method => some (recovered e.name)
  | _ => none

theorem name_rename
    (e : Element) (name : String) :
    (e.rename name).name = name := by
  unfold rename
  split
  · next hsame =>
      exact hsame.symm
  · rw [Element.name, attr, attr?_setAttr_same]
    rfl

/-- The repaired name of a class or function is the stated name, patched or as it is. -/
theorem name_repair
    {e : Element} {name : String} (n : Normalizer)
    (h : e.statedName? = some name) :
    (e.repair n).name = patchLiterals name ∨ (e.repair n).name = name := by
  unfold statedName? at h
  unfold repair
  cases hkind : e.kind with
  | classRecord | structRecord | unionRecord | function =>
      simp only [hkind, Option.some.injEq] at h
      rw [← h]
      exact .inl (e.name_rename _)
  | operatorFunction | operatorMethod | converter =>
      simp only [hkind, Option.some.injEq] at h
      rw [← h]
      simp only [e.name_rename]
      split
      · exact .inr rfl
      · exact .inl rfl
  | constructor | method =>
      simp only [hkind, Option.some.injEq] at h
      rw [← h]
      dsimp only
      split
      · exact .inr rfl
      · exact .inl (e.name_rename _)
  | _ =>
      simp only [hkind, reduceCtorEq] at h

/-- The repaired name of a class or function reads as the stated one, if the negative hexadecimal
literals in it are below ten. -/
theorem readName_repair
    {e : Element} {name : String} (n : Normalizer)
    (h : e.statedName? = some name)
    (hbelow : NegativesBelowTen name) :
    readName (e.repair n).name = readName name := by
  obtain hname | hname := name_repair n h
  · rw [hname]
    exact (readName_patchLiterals_iff name).mpr hbelow
  · rw [hname]

end Element

namespace Template

/-- Patching the integer literals of a name keeps what they denote, and all other text, exactly if
every negative hexadecimal literal is below ten; repaired names of classes and functions differ,
under this condition, where the stated names differ in more than the notation of literals. -/
theorem literal_values_kept_iff
    (name : String) :
    (readName (patchLiterals name) = readName name ↔ NegativesBelowTen name) ∧
      ∀ (n : Normalizer) (e e' : Element) (name' : String),
        e.statedName? = some name → e'.statedName? = some name' →
          NegativesBelowTen name → NegativesBelowTen name' → readName name ≠ readName name' →
            (e.repair n).name ≠ (e'.repair n).name := by
  refine ⟨readName_patchLiterals_iff name, ?_⟩
  intro n e e' name' hname hname' hbelow hbelow' hdiffer hsame
  apply hdiffer
  rw [← Element.readName_repair n hname hbelow, ← Element.readName_repair n hname' hbelow', hsame]

/-- Two instances of a class that differ in a negative literal keep different names. -/
theorem literal_values_kept_fill :
    NegativesBelowTen "fill<12u,-0x0001>" ∧ NegativesBelowTen "fill<12ul,-0x0002>" ∧
      readName (patchLiterals "fill<12u,-0x0001>") = readName "fill<12u,-0x0001>" ∧
      (((Element.bare "Class" "_1").setAttr "name" "fill<12u,-0x0001>").repair .standard).name ≠
        (((Element.bare "Class" "_2").setAttr "name" "fill<12ul,-0x0002>").repair
          .standard).name := by
  have hone : NegativesBelowTen "fill<12u,-0x0001>" := by
    decide +kernel
  have htwo : NegativesBelowTen "fill<12ul,-0x0002>" := by
    decide +kernel
  obtain ⟨hread, hrepair⟩ := literal_values_kept_iff "fill<12u,-0x0001>"
  refine ⟨hone, htwo, hread.mpr hone, ?_⟩
  exact hrepair .standard _ _ _ (by decide +kernel) (by decide +kernel) hone htwo
    (by decide +kernel)

/-- Without its mark, a hexadecimal literal of two digits reads as another number, and two names
become one. -/
theorem patchLiterals_shift_ne :
    patchLiterals "shift<-0x10>" = "shift<-10>" ∧ patchLiterals "shift<-10>" = "shift<-10>" ∧
      readName "shift<-0x10>" ≠ readName "shift<-10>" := by
  refine ⟨?_, ?_, ?_⟩ <;> decide +kernel

end Template
end TypeCatalog
