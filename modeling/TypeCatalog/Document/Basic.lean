import Std.Data.TreeMap
import TypeCatalog.Document.Element
import TypeCatalog.Markup.Tree

/-!
# Documents

**Types.** A document is the tag of its root and its elements in order. The index gives for every id
the last element that has it, with its position; an element that the index does not give is shadowed
by a later one.

**Reading.** The children of the root become elements. Arguments, the ellipsis, bases and
enumerators are folded into the element around them; other inner elements are ignored.
-/

namespace TypeCatalog

/-- The elements of a document under the tag of their root. -/
structure Document where
  root : String
  elements : List Element

namespace Document

/-- The accepted root tags, the usual one first. -/
def rootTags : List String := ["GCC_XML", "CastXML"]

/-- A document of given elements. -/
def ofElements (elements : List Element) : Document := ⟨"GCC_XML", elements⟩

/-- An attribute that a part of an element must have. -/
def requiredOf (owner : Element) (part : Markup.Element) (name : String) :
    Except DocumentError String :=
  match part.attribute? name with
  | some v => .ok v
  | none => .error (.missingAttribute (owner.id ++ "/<" ++ part.name ++ ">") name)

/-- Adds a part to an element. -/
def addPart (e : Element) (part : Markup.Element) : Except DocumentError Element :=
  let text := fun name => (part.attribute? name).getD ""
  if part.name = "Argument" then do
    let type ← requiredOf e part "type"
    let arg : Argument := { name := text "name", type, default := part.attribute? "default" }
    return { e with arguments := e.arguments ++ [arg] }
  else if part.name = "Ellipsis" then .ok { e with ellipsis := true }
  else if part.name = "Base" then do
    let type ← requiredOf e part "type"
    let base : BaseSpec :=
      { type, access := text "access", offset := text "offset"
        isVirtual := isSet (part.attribute? "virtual") }
    return { e with bases := e.bases ++ [base] }
  else if part.name = "EnumValue" then
    .ok { e with values := e.values ++ [{ name := text "name", init := text "init" }] }
  else .ok e

/-- The element that a child of the root describes. -/
def readElement (child : Markup.Element) : Except DocumentError Element :=
  match child.attribute? "id" with
  | none => .error (.missingAttribute ("<" ++ child.name ++ ">") "id")
  | some id =>
      let own := child.attributes.filter fun a => a.name != "id"
      let start := own.foldl (fun e a => e.setAttr a.name a.value) (Element.bare child.name id)
      child.children.foldlM addPart start

/-- The document of a tree of markup. -/
def ofMarkup (root : Markup.Element) : Except DocumentError Document :=
  if rootTags.contains root.name then do
    let elements ← root.children.mapM readElement
    return ⟨root.name, elements⟩
  else .error (.unexpectedRoot root.name)

/-- Reads a document from its text. -/
def parse (text : String) : Except DocumentError Document :=
  match Markup.parse? text with
  | some root => ofMarkup root
  | none => .error .malformed

/-- Reads a document from the bytes of its text. -/
def read (bytes : List UInt8) : Except DocumentError Document :=
  match String.fromUTF8? ⟨bytes.toArray⟩ with
  | some text => parse text
  | none => .error .unreadable

/-- The number of elements. -/
def size (d : Document) : Nat := d.elements.length

end Document

/-- The last element of every id, with its position in the document. -/
abbrev Index := Std.TreeMap String (Nat × Element)

namespace Index

/-- The index of a list of elements. -/
def ofElements (elements : List Element) : Index :=
  elements.zipIdx.foldl (fun index p => index.insert p.1.id (p.2, p.1)) ∅

/-- The element of an id. -/
def find? (index : Index) (id : String) : Option Element := index[id]?.map Prod.snd

/-- The element of an id that `referrer` mentions. -/
def require (index : Index) (id referrer : String) : Except DocumentError Element :=
  match index.find? id with
  | some e => .ok e
  | none => .error (.unknownId id referrer)

/-- Whether the element at a position is the one that its id denotes. -/
def isCanonical (index : Index) (position : Nat) (e : Element) : Bool :=
  index[e.id]?.any fun p => p.1 == position

end Index

namespace Document

/-- The index of a document. -/
def index (d : Document) : Index := .ofElements d.elements

/-- The elements that their ids denote, in order. -/
def canonical (d : Document) (index : Index) : List Element :=
  (d.elements.zipIdx.filter fun p => index.isCanonical p.2 p.1).map Prod.fst

end Document
end TypeCatalog
