/-!
# Blank characters

**Input.** A text as a list of characters.

**Rule.** A character is blank when it has the Unicode property `White_Space`. Trimming removes
blanks at the ends of a text; the words of a text are its maximal runs of characters that are not
blank.

**Results.**
* `length_trim_le`: trimming never makes a text longer.
* `trim_eq_self`: a text with no blank at either end is left as it is.
-/

namespace TypeCatalog
namespace Text

/-- Whether a character lies in one of the ranges `(first, last)` of code points. -/
def inRanges (ranges : List (Nat × Nat)) (c : Char) : Bool :=
  ranges.any fun r => decide (r.1 ≤ c.toNat) && decide (c.toNat ≤ r.2)

/-- Code points with the Unicode property `White_Space`. -/
def blankRanges : List (Nat × Nat) :=
  [(0x9, 0xd), (0x20, 0x20), (0x85, 0x85), (0xa0, 0xa0), (0x1680, 0x1680), (0x2000, 0x200a),
   (0x2028, 0x2029), (0x202f, 0x202f), (0x205f, 0x205f), (0x3000, 0x3000)]

/-- Whether a character is white space. -/
def isBlank (c : Char) : Bool := inRanges blankRanges c

/-- Removes the longest end of a text on which `p` holds. -/
def dropTrailing (p : Char → Bool) (cs : List Char) : List Char :=
  (cs.reverse.dropWhile p).reverse

/-- The text without the blanks at its end. -/
def trimEnd (cs : List Char) : List Char := dropTrailing isBlank cs

/-- The text without the blanks at its ends. -/
def trim (cs : List Char) : List Char := trimEnd (cs.dropWhile isBlank)

/-- The maximal runs of a text on which `p` is constant, in order. -/
def runs (p : Char → Bool) : List Char → List (List Char)
  | [] => []
  | c :: cs =>
      match runs p cs with
      | (d :: run) :: rest =>
          if p c = p d then (c :: d :: run) :: rest else [c] :: (d :: run) :: rest
      | rest => [c] :: rest

/-- The words of a text: its maximal runs of characters that are not blank. -/
def words (cs : List Char) : List (List Char) :=
  (runs isBlank cs).filter fun w => !w.all isBlank

/-- The runs of a text, put together, are the text. -/
theorem flatten_runs (p : Char → Bool) (cs : List Char) : (runs p cs).flatten = cs := by
  induction cs with
  | nil => rfl
  | cons c cs ih =>
    rw [runs]
    split
    · next d run rest h =>
      split <;> simp_all
    · simp_all

theorem length_dropWhile_le (p : Char → Bool) (cs : List Char) :
    (cs.dropWhile p).length ≤ cs.length :=
  (List.dropWhile_sublist p).length_le

theorem length_dropTrailing_le (p : Char → Bool) (cs : List Char) :
    (dropTrailing p cs).length ≤ cs.length := by
  simpa [dropTrailing] using length_dropWhile_le p cs.reverse

theorem length_trim_le (cs : List Char) : (trim cs).length ≤ cs.length :=
  Nat.le_trans (length_dropTrailing_le _ _) (length_dropWhile_le _ _)

/-- Nothing is dropped from the end of a text whose last character does not satisfy `p`. -/
theorem dropTrailing_eq_self {p : Char → Bool} {cs : List Char}
    (h : ∀ c, cs.getLast? = some c → p c = false) : dropTrailing p cs = cs := by
  unfold dropTrailing
  have hr : cs.reverse.dropWhile p = cs.reverse := by
    cases hcs : cs.reverse with
    | nil => rfl
    | cons c r =>
      have hlast : cs.getLast? = some c := by
        rw [← List.head?_reverse, hcs]
        rfl
      simp [h c hlast]
  rw [hr, List.reverse_reverse]

theorem trim_eq_self {cs : List Char} (hhead : ∀ c, cs.head? = some c → isBlank c = false)
    (hlast : ∀ c, cs.getLast? = some c → isBlank c = false) : trim cs = cs := by
  have hfront : cs.dropWhile isBlank = cs := by
    cases cs with
    | nil => rfl
    | cons c r => simp [hhead c rfl]
  rw [trim, hfront, trimEnd, dropTrailing_eq_self hlast]

end Text
end TypeCatalog
