import TypeCatalog.Text.Blank

/-!
# Characters of markup

**Rule.** The classes are those of the XML 1.0 grammar: characters that may occur at all, white
space, characters that begin a name and characters that continue one. Nothing that is proved about
loading depends on them.
-/

namespace TypeCatalog
namespace Markup

open Text

/-- Whether a character may occur in a document. -/
def isChar (c : Char) : Bool :=
  if c.toNat < 0x20 then c == '\t' || c == '\n' || c == '\r'
  else c.toNat != 0xfffe && c.toNat != 0xffff

/-- Whether a character is white space in markup. -/
def isSpace (c : Char) : Bool := c == ' ' || c == '\t' || c == '\n' || c == '\r'

/-- Code points above ASCII that begin a name. -/
def nameStartRanges : List (Nat × Nat) :=
  [(0xc0, 0xd6), (0xd8, 0xf6), (0xf8, 0x2ff), (0x370, 0x37d), (0x37f, 0x1fff), (0x200c, 0x200d),
   (0x2070, 0x218f), (0x2c00, 0x2fef), (0x3001, 0xd7ff), (0xf900, 0xfdcf), (0xfdf0, 0xfffd),
   (0x10000, 0xeffff)]

/-- Code points above ASCII that continue a name and do not begin one. -/
def nameExtraRanges : List (Nat × Nat) := [(0xb7, 0xb7), (0x300, 0x36f), (0x203f, 0x2040)]

/-- Whether a character begins a name. -/
def isNameStart (c : Char) : Bool :=
  if c.toNat < 128 then c.isAlpha || c == ':' || c == '_' else inRanges nameStartRanges c

/-- Whether a character continues a name. -/
def isNameChar (c : Char) : Bool :=
  if c.toNat < 128 then c.isAlphanum || c == ':' || c == '_' || c == '-' || c == '.'
  else inRanges nameStartRanges c || inRanges nameExtraRanges c

end Markup
end TypeCatalog
