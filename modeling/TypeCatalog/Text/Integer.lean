/-!
# Integers written in a text

**Rule.** A number is one or more ASCII digits after an optional sign. Unsigned numbers take no
minus sign. A number outside the range of its 64-bit type is refused, and so is every other text.

**Results.**
* `digits?_eq_some_iff`: exactly the non-empty digit strings have a value, and it is the decimal one.
-/

namespace TypeCatalog
namespace Text

/-- Value of a digit string read in base ten. -/
def digitsValue (cs : List Char) : Nat :=
  cs.foldl (fun n c => 10 * n + (c.toNat - '0'.toNat)) 0

/-- Value of a non-empty string of ASCII digits. -/
def digits? (cs : List Char) : Option Nat :=
  if cs ≠ [] ∧ cs.all Char.isDigit then some (digitsValue cs) else none

/-- An unsigned number, with an optional plus sign. -/
def natural? : List Char → Option Nat
  | '+' :: cs => digits? cs
  | cs => digits? cs

/-- A signed number, with an optional sign. -/
def integer? : List Char → Option Int
  | '-' :: cs => (digits? cs).map fun n => -(n : Int)
  | cs => (natural? cs).map fun n => (n : Int)

/-- An unsigned number below `2 ^ 64`. -/
def unsigned64? (cs : List Char) : Option UInt64 :=
  match natural? cs with
  | some n => if n < UInt64.size then some (UInt64.ofNat n) else none
  | none => none

/-- A signed number from `-2 ^ 63` to `2 ^ 63 - 1`. -/
def signed64? (cs : List Char) : Option Int64 :=
  match integer? cs with
  | some i =>
      if Int64.minValue.toInt ≤ i ∧ i ≤ Int64.maxValue.toInt then some (Int64.ofInt i) else none
  | none => none

theorem digits?_eq_some_iff {cs : List Char} {n : Nat} :
    digits? cs = some n ↔ (cs ≠ [] ∧ ∀ c ∈ cs, c.isDigit = true) ∧ n = digitsValue cs := by
  simp only [digits?, List.all_eq_true]
  constructor
  · intro h
    split at h
    · next hc => exact ⟨hc, (Option.some.inj h).symm⟩
    · simp at h
  · rintro ⟨hc, rfl⟩
    exact if_pos hc

end Text
end TypeCatalog
