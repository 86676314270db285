import TypeCatalog.Template.Arguments
import TypeCatalog.Text.Word

/-!
# Integer literals in template arguments

**Rule.** Between the opening `<` and the last `>` of a name, a whole word of decimal digits with
the suffix `u` or `ul` loses the suffix, and a whole word `0x...` directly after a minus sign, with
some digit other than zero, is replaced by its digits without the leading zeros. A name without a
closed template argument list is kept.
-/

namespace TypeCatalog
namespace Template

open Text

/-- A word of digits without its unsigned suffix; any other text as it is. -/
def dropSuffix (run : List Char) : List Char :=
  let digits := run.takeWhile isDecimalDigit
  let rest := run.dropWhile isDecimalDigit
  if !digits.isEmpty && (rest == ['u'] || rest == ['u', 'l']) then digits else run

/-- Whether a character is a hexadecimal digit. -/
def isHexDigit (c : Char) : Bool :=
  c.isDigit || (decide ('a' ≤ c) && decide (c ≤ 'f')) || (decide ('A' ≤ c) && decide (c ≤ 'F'))

/-- A hexadecimal word without its mark and its leading zeros; any other text, and zero, as it is. -/
def dropPadding : List Char → List Char
  | '0' :: 'x' :: digits =>
      let significant := digits.dropWhile (· == '0')
      if !significant.isEmpty && significant.all isHexDigit then significant
      else '0' :: 'x' :: digits
  | run => run

/-- Drops the padding of every run that directly follows a minus sign, `before` being the
character in front of the first run. -/
def dropPaddings : Option Char → List (List Char) → List (List Char)
  | _, [] => []
  | before, run :: rest =>
      (if before = some '-' then dropPadding run else run) :: dropPaddings run.getLast? rest

/-- Drops the unsigned suffix of every integer literal. -/
def dropSuffixes (text : List Char) : List Char := ((wordRuns text).map dropSuffix).flatten

/-- Drops the padding of every negative hexadecimal literal. -/
def unpadNegatives (text : List Char) : List Char :=
  (dropPaddings none (wordRuns text)).flatten

/-- Canonical integer literals in the template argument list of a name. -/
def patchLiterals (name : String) : String :=
  match instance? name.toList with
  | some ⟨template, inner, suffix, true⟩ =>
      String.ofList (template ++ '<' :: unpadNegatives (dropSuffixes inner) ++ '>' :: suffix)
  | _ => name

end Template
end TypeCatalog
