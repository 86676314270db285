import TypeCatalog.Text.Printable

/-!
# Quoted text

**Rule.** A quoted text stands between double quotes. The double quote and the backslash are
escaped with a backslash, line feed, tab, carriage return and the null character have letters of
their own, every other character that is not printable is written as its hexadecimal code point in
braces, and all else stands for itself.
-/

namespace TypeCatalog
namespace Text

/-- How a quoted text writes one character. -/
def quoteChar (c : Char) : List Char :=
  if c = '\x00' then ['\\', '0']
  else if c = '\t' then ['\\', 't']
  else if c = '\r' then ['\\', 'r']
  else if c = '\n' then ['\\', 'n']
  else if c = '"' then ['\\', '"']
  else if c = '\\' then ['\\', '\\']
  else if isPrintable c then [c]
  else ['\\', 'u', '\x7b'] ++ Nat.toDigits 16 c.toNat ++ ['\x7d']

/-- The text between double quotes, with escapes. -/
def quote (s : String) : String :=
  String.ofList ('"' :: s.toList.flatMap quoteChar ++ ['"'])

end Text
end TypeCatalog
