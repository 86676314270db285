import TypeCatalog.Markup.Character
import TypeCatalog.Text.Integer

/-!
# References and attribute values

**Rule.** A reference is a character by number or one of the five predefined names, between `&` and
`;`. A number that is no character stands for the replacement character; a number of a character
that may not occur is refused. In an attribute value, a line feed, tab or carriage return that is
not written by number becomes a blank, and a carriage return before a line feed is dropped. Nothing
that is proved about loading depends on these rules.
-/

namespace TypeCatalog
namespace Markup

open Text

/-- The value of a hexadecimal digit. -/
def hexDigit? (c : Char) : Option Nat :=
  if c.isDigit then some (c.toNat - '0'.toNat)
  else if 'a' ≤ c ∧ c ≤ 'f' then some (c.toNat - 'a'.toNat + 10)
  else if 'A' ≤ c ∧ c ≤ 'F' then some (c.toNat - 'A'.toNat + 10)
  else none

/-- The value of hexadecimal digits after a given value. -/
def hexFrom? : Nat → List Char → Option Nat
  | n, [] => some n
  | n, c :: cs => (hexDigit? c).bind fun d => hexFrom? (16 * n + d) cs

/-- The value of a non-empty string of hexadecimal digits. -/
def hex? : List Char → Option Nat
  | [] => none
  | cs => hexFrom? 0 cs

/-- The character with a given number, which has at most 32 bits. -/
def numbered? (n : Nat) : Option Char :=
  if n < UInt32.size then
    let c := if n.isValidChar then Char.ofNat n else '\ufffd'
    if isChar c then some c else none
  else none

/-- The character that the text between `&` and `;` stands for. -/
def referenced? : List Char → Option Char
  | '#' :: 'x' :: digits => (hex? digits).bind numbered?
  | '#' :: digits => (digits? digits).bind numbered?
  | body =>
      if body = "quot".toList then some '"'
      else if body = "amp".toList then some '&'
      else if body = "apos".toList then some '\x27'
      else if body = "lt".toList then some '<'
      else if body = "gt".toList then some '>'
      else none

/-- The value that a text stands for, in or outside a reference. Within a reference, the first
argument holds the characters after `&` in reverse. -/
def expand : Option (List Char) → List Char → Option (List Char)
  | none, [] => some []
  | some _, [] => none
  | some body, ';' :: cs => (referenced? body.reverse).bind fun c => (expand none cs).map (c :: ·)
  | some body, c :: cs => expand (some (c :: body)) cs
  | none, '&' :: cs => expand (some []) cs
  | none, '\r' :: '\n' :: cs => expand none ('\n' :: cs)
  | none, c :: cs =>
      let written := if c = '\n' ∨ c = '\r' ∨ c = '\t' then ' ' else c
      (expand none cs).map (written :: ·)

/-- The value of an attribute from the text between its quotes. -/
def attributeValue? (text : List Char) : Option String := (expand none text).map String.ofList

end Markup
end TypeCatalog
