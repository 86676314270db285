/-!
# Searching and replacing in a text

**Input.** A text and a pattern, both lists of characters.

**Algorithm.** Every search walks the text from the left and is structurally recursive.

**Results.**
* `stripPrefix_eq_some_iff`: the front of a text is removed exactly when the text starts with it.
* `splitLast_eq_some`: the two sides of a split, with the character between them, are the text, and
  the side behind does not contain the character.
* `find?_eq_some`, `exists_find?`: the first occurrence of a pattern is found.
-/

namespace TypeCatalog
namespace Text

/-- What follows `pat` in a text that starts with `pat`. -/
def stripPrefix : List Char → List Char → Option (List Char)
  | [], text => some text
  | _ :: _, [] => none
  | p :: ps, c :: cs => if p = c then stripPrefix ps cs else none

/-- Whether `pat` occurs somewhere in the text. -/
def occurs (pat : List Char) : List Char → Bool
  | [] => pat.isEmpty
  | c :: cs => pat.isPrefixOf (c :: cs) || occurs pat cs

/-- Position of the first occurrence of `pat`. -/
def find? (pat : List Char) : List Char → Option Nat
  | [] => if pat.isEmpty then some 0 else none
  | c :: cs => if pat.isPrefixOf (c :: cs) then some 0 else (find? pat cs).map (· + 1)

/-- What follows the last occurrence of `pat`. -/
def afterLast (pat : List Char) : List Char → Option (List Char)
  | [] => if pat.isEmpty then some [] else none
  | c :: cs =>
      match afterLast pat cs with
      | some rest => some rest
      | none => stripPrefix pat (c :: cs)

/-- The texts before and after the first `x`. -/
def splitFirst (x : Char) : List Char → Option (List Char × List Char)
  | [] => none
  | c :: cs =>
      if c = x then some ([], cs)
      else (splitFirst x cs).map fun (before, after) => (c :: before, after)

/-- The texts before and after the last `x`. -/
def splitLast (x : Char) : List Char → Option (List Char × List Char)
  | [] => none
  | c :: cs =>
      match splitLast x cs with
      | some (before, after) => some (c :: before, after)
      | none => if c = x then some ([], cs) else none

/-- Copies a text, leaving out its first `skip` characters and writing `new` for each
occurrence of `pat` met from there on, from left to right and without overlap. -/
def replaceFrom (pat new : List Char) : Nat → List Char → List Char
  | _, [] => []
  | skip + 1, _ :: cs => replaceFrom pat new skip cs
  | 0, c :: cs =>
      if pat.isPrefixOf (c :: cs) then new ++ replaceFrom pat new (pat.length - 1) cs
      else c :: replaceFrom pat new 0 cs

/-- Writes `new` for every occurrence of `pat`, which is not empty. -/
def replaceAll (pat new text : List Char) : List Char := replaceFrom pat new 0 text

/-- The texts put together with `sep` between neighbours. -/
def joinWith (sep : String) (parts : List (List Char)) : List Char :=
  sep.toList.intercalate parts

/-- Decimal digits of a number, without leading zeros. -/
def decimal (n : Nat) : List Char := Nat.toDigits 10 n

theorem stripPrefix_eq_some_iff {pat text rest : List Char} :
    stripPrefix pat text = some rest ↔ text = pat ++ rest := by
  induction pat generalizing text with
  | nil => simp [stripPrefix]
  | cons p ps ih =>
    cases text with
    | nil => simp [stripPrefix]
    | cons c cs =>
      by_cases h : p = c
      · subst h
        simp [stripPrefix, ih]
      · have h' : c ≠ p := fun e => h e.symm
        simp [stripPrefix, h, h']

theorem splitLast_eq_none {x : Char} {text : List Char} (h : splitLast x text = none) :
    x ∉ text := by
  induction text with
  | nil => simp
  | cons c cs ih =>
    cases hcs : splitLast x cs with
    | some p => simp [splitLast, hcs] at h
    | none =>
      have hc : c ≠ x := by
        intro hc
        simp [splitLast, hcs, hc] at h
      simp [ih hcs, Ne.symm hc]

theorem splitLast_eq_some {x : Char} {text before after : List Char}
    (h : splitLast x text = some (before, after)) : text = before ++ x :: after ∧ x ∉ after := by
  induction text generalizing before with
  | nil => simp [splitLast] at h
  | cons c cs ih =>
    cases hcs : splitLast x cs with
    | some p =>
      obtain ⟨b, a⟩ := p
      simp only [splitLast, hcs, Option.some.injEq, Prod.mk.injEq] at h
      obtain ⟨rfl, rfl⟩ := h
      obtain ⟨htext, hnot⟩ := ih hcs
      exact ⟨by rw [htext]; rfl, hnot⟩
    | none =>
      by_cases hc : c = x
      · simp [splitLast, hcs, hc] at h
        obtain ⟨rfl, rfl⟩ := h
        exact ⟨by simp [hc], splitLast_eq_none hcs⟩
      · simp [splitLast, hcs, hc] at h

theorem splitLast_append {x : Char} (before : List Char) {after : List Char} (h : x ∉ after) :
    splitLast x (before ++ x :: after) = some (before, after) := by
  have hnone : splitLast x after = none := by
    cases hafter : splitLast x after with
    | none => rfl
    | some parts => exact absurd (by simp [(splitLast_eq_some hafter).1]) h
  induction before with
  | nil => simp [splitLast, hnone]
  | cons c before ih => simp [splitLast, ih]

/-- The pattern stands where it is found, and nowhere before. -/
theorem find?_eq_some {pat text : List Char} {pos : Nat} (h : find? pat text = some pos) :
    pat <+: text.drop pos ∧ ∀ i < pos, ¬ pat <+: text.drop i := by
  induction text generalizing pos with
  | nil =>
    rw [find?] at h
    split at h
    · next hpat =>
      cases h
      simp [List.isEmpty_iff.mp hpat]
    · cases h
  | cons c cs ih =>
    rw [find?] at h
    split at h
    · next hpat =>
      cases h
      exact ⟨List.isPrefixOf_iff_prefix.mp hpat, by simp⟩
    · next hpat =>
      obtain ⟨p, hp, rfl⟩ := Option.map_eq_some_iff.mp h
      obtain ⟨hhere, hbefore⟩ := ih hp
      refine ⟨hhere, fun i hi => ?_⟩
      cases i with
      | zero => exact fun hzero => hpat (List.isPrefixOf_iff_prefix.mpr hzero)
      | succ i => exact hbefore i (Nat.lt_of_succ_lt_succ hi)

theorem exists_find? {pat text : List Char} {i : Nat} (h : pat <+: text.drop i) :
    ∃ pos ≤ i, find? pat text = some pos := by
  induction text generalizing i with
  | nil =>
    rw [List.drop_nil, List.prefix_nil] at h
    exact ⟨0, Nat.zero_le i, by simp [find?, h]⟩
  | cons c cs ih =>
    rw [find?]
    split
    · exact ⟨0, Nat.zero_le i, rfl⟩
    · next hpat =>
      cases i with
      | zero => exact absurd (List.isPrefixOf_iff_prefix.mpr h) hpat
      | succ i =>
        obtain ⟨pos, hpos, hfind⟩ := ih h
        exact ⟨pos + 1, Nat.succ_le_succ hpos, by rw [hfind]; rfl⟩

end Text
end TypeCatalog
