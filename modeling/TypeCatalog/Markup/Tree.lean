import TypeCatalog.Markup.Item

/-!
# Elements of markup

**Input.** The text of a document.

**Result.** The tree of its elements. Names are local names; a qualifier must be declared. The
qualifier `xml` has a fixed namespace, needs no declaration, and stands on attributes only. Of two
attributes of one element, the local names or the namespaces differ. Character data, comments and
processing instructions are checked and dropped.

**Algorithm.** The open elements are kept on a stack, the innermost first.

**Use.** `parse?` stands for an XML library, which is no part of the program. What is proved about
loading documents holds for any function from texts to elements in its place.
-/

namespace TypeCatalog
namespace Markup

open Text

/-- An attribute with its namespace, if its name is qualified. -/
structure Attribute where
  space : Option String
  name : String
  value : String

/-- An element. -/
inductive Element where
  | mk (name : String) (attributes : List Attribute) (children : List Element)

namespace Element

/-- The local name. -/
def name : Element → String
  | mk n _ _ => n

/-- The attributes, in the order of the document. -/
def attributes : Element → List Attribute
  | mk _ a _ => a

/-- The child elements. -/
def children : Element → List Element
  | mk _ _ c => c

/-- The value of an attribute without namespace. -/
def attribute? (e : Element) (name : String) : Option String :=
  (e.attributes.find? fun a => a.space.isNone && a.name == name).map (·.value)

end Element

/-- The namespace of the qualifier `xml`. -/
def xmlSpace : String := "http://www.w3.org/XML/1998/namespace"

/-- The namespace of namespace declarations. -/
def declarationSpace : String := "http://www.w3.org/2000/xmlns/"

/-- Namespaces by qualifier, the innermost declaration first; the default namespace has no
qualifier. -/
abbrev Bindings := List (Option String × String)

/-- The attributes of a start tag, sorted into declarations and others. -/
structure Sorted where
  declared : Bindings
  others : List RawAttribute

/-- Takes one more attribute of a start tag into account. -/
def Sorted.add (s : Sorted) (a : RawAttribute) : Option Sorted :=
  if a.name.qualifier = "xmlns" then
    if a.value = declarationSpace then none
    else if a.name.name = "xml" then if a.value = xmlSpace then some s else none
    else if a.value = xmlSpace then none
    else if s.declared.any fun b => b.1 == some a.name.name then none
    else some { s with declared := s.declared ++ [(some a.name.name, a.value)] }
  else if a.name.name = "xmlns" then
    if a.value = xmlSpace ∨ a.value = declarationSpace then none
    else some { s with declared := s.declared ++ [(none, a.value)] }
  else some { s with others := s.others ++ [a] }

/-- Sorts the attributes of a start tag. -/
def Sorted.ofList : List RawAttribute → Option Sorted
  | attributes => attributes.foldlM Sorted.add ⟨[], []⟩

/-- The namespace of an attribute with a given qualifier. -/
def attributeSpace? (bindings : Bindings) (qualifier : String) : Option (Option String) :=
  if qualifier = "xml" then some (some xmlSpace)
  else if qualifier = "" then some none
  else (bindings.lookup (some qualifier)).map some

/-- Resolves one more attribute; it must differ from those before it. -/
def addAttribute (bindings : Bindings) (done : List Attribute) (a : RawAttribute) :
    Option (List Attribute) :=
  match attributeSpace? bindings a.name.qualifier with
  | none => none
  | some space =>
      if done.any fun b => b.space == space && b.name == a.name.name then none
      else some (done ++ [⟨space, a.name.name, a.value⟩])

/-- Whether an element may have a given qualifier. No binding has the qualifier `xml`. -/
def elementQualifier (bindings : Bindings) (qualifier : String) : Bool :=
  qualifier == ""
    || (qualifier != "xmlns" && bindings.any fun b => b.1 == some qualifier)

/-- An element whose end tag has not been read. -/
structure Frame where
  name : QName
  bindings : Bindings
  attributes : List Attribute
  /-- The children so far, the last one first. -/
  children : List Element

namespace Frame

/-- The frame of a start tag inside the given bindings. -/
def start? (outer : Bindings) (name : QName) (raw : List RawAttribute) : Option Frame :=
  match Sorted.ofList raw with
  | none => none
  | some sorted =>
      let bindings := sorted.declared ++ outer
      if elementQualifier bindings name.qualifier then
        (sorted.others.foldlM (addAttribute bindings) []).map fun attributes =>
          ⟨name, bindings, attributes, []⟩
      else none

/-- The element of a frame. -/
def close (f : Frame) : Element := .mk f.name.name f.attributes f.children.reverse

/-- The frame with one more child. -/
def push (f : Frame) (e : Element) : Frame := { f with children := e :: f.children }

end Frame

/-- Reads the rest of the innermost open element and of all elements around it. The first argument
bounds the number of items. -/
def content? : Nat → Frame → List Frame → List Char → Option (Element × List Char)
  | 0, _, _, _ => none
  | bound + 1, frame, stack, cs =>
      match item? cs with
      | none => none
      | some (.other, cs) => content? bound frame stack cs
      | some (.opening name raw isEmpty, cs) =>
          match Frame.start? frame.bindings name raw with
          | none => none
          | some inner =>
              if isEmpty then content? bound (frame.push inner.close) stack cs
              else content? bound inner (frame :: stack) cs
      | some (.closing name, cs) =>
          if name = frame.name then
            match stack with
            | [] => some (frame.close, cs)
            | outer :: stack => content? bound (outer.push frame.close) stack cs
          else none

/-- Reads the outermost element. -/
def rootElement? (cs : List Char) : Option (Element × List Char) :=
  match cs with
  | '<' :: cs =>
      match opening? cs with
      | some (.opening name raw isEmpty, cs) =>
          match Frame.start? [] name raw with
          | none => none
          | some frame =>
              if isEmpty then some (frame.close, cs) else content? (cs.length + 1) frame [] cs
      | _ => none
  | _ => none

/-- The text after a byte order mark. -/
def skipMark : List Char → List Char
  | '\ufeff' :: cs => cs
  | cs => cs

/-- The outermost element of a document; nothing when the document is malformed. -/
def parse? (text : String) : Option Element :=
  let cs := skipMark text.toList
  let start :=
    match stripPrefix "<?xml ".toList cs with
    | some rest => declaration? (' ' :: rest)
    | none => some cs
  start.bind fun cs =>
    (skipMisc (cs.length + 1) cs).bind fun cs =>
      (rootElement? cs).bind fun (root, rest) =>
        match skipMisc (rest.length + 1) rest with
        | some [] => some root
        | _ => none

end Markup
end TypeCatalog
