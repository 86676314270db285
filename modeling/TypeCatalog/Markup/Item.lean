import TypeCatalog.Markup.Reference
import TypeCatalog.Text.Search

/-!
# Items of markup

**Input.** The text of a document.

**Algorithm.** `item?` reads what begins at the front of a text inside an element: a start tag, an
end tag, or something that carries no element (character data, a comment, a CDATA section, a
processing instruction). Document type declarations are not allowed. A reader gives what it read and
the rest of the text, or nothing when the text is malformed. Like all of `Markup` it stands for an XML
library, and nothing that is proved about loading depends on it.
-/

namespace TypeCatalog
namespace Markup

open Text

/-- A name with the qualifier in front of its colon, which may be empty. -/
structure QName where
  qualifier : String
  name : String
deriving DecidableEq

/-- An attribute as written, with its value expanded. -/
structure RawAttribute where
  name : QName
  value : String

/-- What begins at a place inside an element. -/
inductive Item where
  | opening (name : QName) (attributes : List RawAttribute) (isEmpty : Bool)
  | closing (name : QName)
  | other

/-- The text without the white space at its front. -/
def skipSpaces (cs : List Char) : List Char := cs.dropWhile isSpace

/-- What follows a given character. -/
def expect (c : Char) : List Char → Option (List Char)
  | [] => none
  | d :: cs => if c = d then some cs else none

/-- The text up to `stop` and the text after it; every character before `stop` must be allowed. -/
def upTo (stop : List Char) : List Char → Option (List Char × List Char)
  | [] => none
  | c :: cs =>
      match stripPrefix stop (c :: cs) with
      | some rest => some ([], rest)
      | none =>
          if isChar c then (upTo stop cs).map fun (before, rest) => (c :: before, rest) else none

/-- Whether a text is non-empty and begins like a name. -/
def beginsName : List Char → Bool
  | [] => false
  | c :: _ => isNameStart c

/-- A name with at most one colon. -/
def qname? (cs : List Char) : Option (QName × List Char) :=
  let run := cs.takeWhile isNameChar
  let rest := cs.dropWhile isNameChar
  match splitFirst ':' run with
  | none => if beginsName run then some (⟨"", String.ofList run⟩, rest) else none
  | some (qualifier, name) =>
      if name.contains ':' then none
      else if (qualifier.isEmpty || beginsName qualifier) && beginsName name then
        some (⟨String.ofList qualifier, String.ofList name⟩, rest)
      else none

/-- An attribute with its value in quotes; the value may not contain `<`. -/
def attribute? (cs : List Char) : Option (QName × List Char × List Char) :=
  match qname? cs with
  | none => none
  | some (name, cs) =>
      match (expect '=' (skipSpaces cs)).map skipSpaces with
      | some (q :: cs) =>
          if q = '"' ∨ q = '\x27' then
            let inside := fun c => isChar c && c != q && c != '<'
            match cs.dropWhile inside with
            | d :: rest => if d = q then some (name, cs.takeWhile inside, rest) else none
            | [] => none
          else none
      | _ => none

/-- The attributes and the end of a start tag, after its name. The first argument bounds the
number of attributes. -/
def attributes? : Nat → List Char → Option (List RawAttribute × Bool × List Char)
  | 0, _ => none
  | bound + 1, cs =>
      match skipSpaces cs with
      | '/' :: '>' :: rest => some ([], true, rest)
      | '>' :: rest => some ([], false, rest)
      | text =>
          if cs.head?.any isSpace then
            (attribute? text).bind fun (name, raw, rest) =>
              (attributeValue? raw).bind fun value =>
                (attributes? bound rest).map fun (others, isEmpty, rest) =>
                  (⟨name, value⟩ :: others, isEmpty, rest)
          else none

/-- A start tag, after its `<`. -/
def opening? (cs : List Char) : Option (Item × List Char) :=
  (qname? cs).bind fun (name, cs) =>
    (attributes? (cs.length + 1) cs).map fun (attributes, isEmpty, rest) =>
      (.opening name attributes isEmpty, rest)

/-- An end tag, after its `</`. -/
def closing? (cs : List Char) : Option (Item × List Char) :=
  (qname? cs).bind fun (name, cs) =>
    (expect '>' (skipSpaces cs)).map fun rest => (.closing name, rest)

/-- What follows a comment, after its `<!--`. -/
def comment? (cs : List Char) : Option (List Char) :=
  match upTo "-->".toList cs with
  | some (body, rest) =>
      if occurs "--".toList body || body.getLast? = some '-' then none else some rest
  | none => none

/-- What follows a processing instruction, after its `<?`. The name `xml` followed by a blank is
kept for the declaration at the start. -/
def instruction? (cs : List Char) : Option (List Char) :=
  if "xml ".toList.isPrefixOf cs then none
  else if beginsName cs then
    (upTo "?>".toList (skipSpaces (cs.dropWhile isNameChar))).map Prod.snd
  else none

/-- What follows character data. It may not contain the end of a CDATA section, and its references
must be valid. -/
def characters? (cs : List Char) : Option (List Char) :=
  let inside := fun c => isChar c && c != '<'
  let text := cs.takeWhile inside
  let rest := cs.dropWhile inside
  if occurs "]]>".toList text then none
  else
    match expand none text, rest with
    | some _, [] => some []
    | some _, '<' :: rest => some ('<' :: rest)
    | _, _ => none

/-- What begins at the front of a text inside an element. -/
def item? : List Char → Option (Item × List Char)
  | '<' :: '/' :: cs => closing? cs
  | '<' :: '?' :: cs => (instruction? cs).map fun rest => (.other, rest)
  | '<' :: '!' :: cs =>
      match stripPrefix "--".toList cs with
      | some cs => (comment? cs).map fun rest => (.other, rest)
      | none =>
          match stripPrefix "[CDATA[".toList cs with
          | some cs => (upTo "]]>".toList cs).map fun (_, rest) => (.other, rest)
          | none => none
  | '<' :: cs => opening? cs
  | [] => none
  | cs => (characters? cs).map fun rest => (.other, rest)

/-- What follows the white space, comments and processing instructions at the front of a text. The
first argument bounds their number. -/
def skipMisc : Nat → List Char → Option (List Char)
  | 0, _ => none
  | bound + 1, cs =>
      match skipSpaces cs with
      | '<' :: '!' :: '-' :: '-' :: cs => (comment? cs).bind (skipMisc bound)
      | '<' :: '?' :: cs => (instruction? cs).bind (skipMisc bound)
      | cs => some cs

/-- What follows the white space that must stand before more of a declaration. -/
def gap? (cs : List Char) : Option (List Char) :=
  if cs.head?.any isSpace || "?>".toList.isPrefixOf cs || cs.isEmpty then some (skipSpaces cs)
  else none

/-- What follows an attribute of a declaration if it begins with the given word. -/
def skipWord? (word : String) (cs : List Char) : Option (List Char) :=
  if word.toList.isPrefixOf cs then (attribute? cs).bind fun (_, _, rest) => gap? rest
  else some cs

/-- What follows the declaration at the start of a document, after its `<?xml`. -/
def declaration? (cs : List Char) : Option (List Char) :=
  (gap? cs).bind fun cs =>
    if "version".toList.isPrefixOf cs then
      (skipWord? "version" cs).bind fun cs =>
        (skipWord? "encoding" cs).bind fun cs =>
          let cs :=
            if "standalone".toList.isPrefixOf cs then (attribute? cs).map fun (_, _, rest) => rest
            else some cs
          cs.bind fun cs => stripPrefix "?>".toList (skipSpaces cs)
    else none

end Markup
end TypeCatalog
