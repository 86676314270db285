import TypeCatalog.Document.ElementKind
import TypeCatalog.Document.Error
import TypeCatalog.Entity.Flags
import TypeCatalog.Text.Blank
import TypeCatalog.Text.Integer
import TypeCatalog.Text.Search

/-!
# Elements of a document

**Types.** An element describes one declaration or type: a tag, an id, attributes by name, and the
arguments, bases and enumerators that belong to it.
-/

namespace TypeCatalog

/-- An argument of a function or function type. -/
structure Argument where
  name : String
  /-- The id of the type. -/
  type : String
  default : Option String
deriving DecidableEq

/-- A base class as a document states it. -/
structure BaseSpec where
  /-- The id of the type. -/
  type : String
  access : String
  /-- Offset in bytes. -/
  offset : String
  isVirtual : Bool
deriving DecidableEq

/-- An enumerator as a document states it. -/
structure EnumValue where
  name : String
  init : String
deriving DecidableEq

/-- One top-level element of a document. -/
structure Element where
  tag : String
  id : String
  attributes : List (String × String)
  arguments : List Argument
  ellipsis : Bool
  bases : List BaseSpec
  values : List EnumValue
deriving DecidableEq

/-- Whether an attribute's value means yes: not absent, not empty and not `0`. -/
def isSet : Option String → Bool
  | none => false
  | some v => v != "" && v != "0"

/-- An unsigned number as the text of an attribute; the empty text is zero. -/
def readSize (owner attr value : String) : Except DocumentError UInt64 :=
  if value.isEmpty then .ok 0
  else
    match Text.unsigned64? value.toList with
    | some n => .ok n
    | none => .error (.invalidInteger owner attr value)

namespace Element

/-- An element without attributes and parts. -/
def bare (tag id : String) : Element :=
  { tag, id, attributes := [], arguments := [], ellipsis := false, bases := [], values := [] }

/-- The kind that the tag names. -/
def kind (e : Element) : ElementKind := .ofTag e.tag

/-- The value of an attribute. -/
def attr? (e : Element) (name : String) : Option String := e.attributes.lookup name

/-- The value of an attribute, empty when there is none. -/
def attr (e : Element) (name : String) : String := (e.attr? name).getD ""

/-- Sets the value of a name in a list of pairs. -/
def assign (name value : String) : List (String × String) → List (String × String)
  | [] => [(name, value)]
  | (n, v) :: rest =>
      if name == n then (name, value) :: rest else (n, v) :: assign name value rest

/-- The element with another value of an attribute. -/
def setAttr (e : Element) (name value : String) : Element :=
  { e with attributes := assign name value e.attributes }

/-- The value of an attribute that must be present. -/
def required (e : Element) (name : String) : Except DocumentError String :=
  match e.attr? name with
  | some v => .ok v
  | none => .error (.missingAttribute e.id name)

/-- Whether an attribute means yes. -/
def flag (e : Element) (name : String) : Bool := isSet (e.attr? name)

/-- The value of a numeric attribute; absent or empty is zero. -/
def uint (e : Element) (name : String) : Except DocumentError UInt64 :=
  readSize e.id name (e.attr name)

/-- The declared name, empty when there is none. -/
def name (e : Element) : String := e.attr "name"

/-- The element under another name, which is written only if it differs. -/
def rename (e : Element) (name : String) : Element :=
  if name = e.name then e else e.setAttr "name" name

/-- The id of the enclosing declaration. -/
def context? (e : Element) : Option String := (e.attr? "context").filter fun c => !c.isEmpty

/-- The ids of the members. -/
def memberIds (e : Element) : List String := (Text.words (e.attr "members").toList).map String.ofList

/-- Whether a name holds a mark of the compiler: a dollar sign, or a dot that is not part of an
ellipsis. -/
def isMarked (text : String) : Bool :=
  (Text.replaceAll "...".toList [] text.toList).any fun c => c == '.' || c == '$'

/-- Whether the element has no name that a program can use. -/
def isUnnamed (e : Element) : Bool :=
  e.name.isEmpty || isMarked e.name || isMarked (e.attr "demangled")

/-- The qualifiers that the attributes state. -/
def qualifiers (e : Element) : Qualifiers :=
  ((Qualifiers.when (e.flag "const") .const).union
    (.when (e.flag "volatile") .volatile)).union (.when (e.flag "restrict") .restrict)

@[simp] theorem attr?_setAttr_same (e : Element) (name value : String) :
    (e.setAttr name value).attr? name = some value := by
  have h : ∀ l : List (String × String), (assign name value l).lookup name = some value := by
    intro l
    induction l with
    | nil => simp [assign]
    | cons p rest ih =>
      obtain ⟨n, v⟩ := p
      by_cases hn : name = n
      · simp [assign, hn]
      · have : (name == n) = false := by simpa using hn
        simp [assign, this, List.lookup_cons, ih]
  exact h e.attributes

theorem attr?_setAttr_of_ne (e : Element) {name other : String} (value : String)
    (h : other ≠ name) : (e.setAttr name value).attr? other = e.attr? other := by
  have hl : ∀ l : List (String × String), (assign name value l).lookup other = l.lookup other := by
    intro l
    induction l with
    | nil =>
      have : (other == name) = false := by simpa using h
      simp [assign, List.lookup_cons, this]
    | cons p rest ih =>
      obtain ⟨n, v⟩ := p
      by_cases hn : name = n
      · subst hn
        have : (other == name) = false := by simpa using h
        simp [assign, List.lookup_cons, this]
      · have : (name == n) = false := by simpa using hn
        simp [assign, this, List.lookup_cons, ih]
  exact hl e.attributes

end Element
end TypeCatalog
