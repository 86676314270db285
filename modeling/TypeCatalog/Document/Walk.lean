import TypeCatalog.Document.Basic

/-!
# Walking through a document

**Algorithm.** The walk visits the root, then every element in order, and after an element its
arguments, ellipsis, bases and enumerators. A visitor says for the root and for each element whether
to go on to what belongs to it.

**Results.** `Statistics` counts the elements by kind, and the parts.
-/

namespace TypeCatalog

/-- A place in a document. -/
inductive DocumentNode where
  | root (tag : String)
  | element (e : Element)
  | argument (owner : Element) (a : Argument)
  | ellipsis (owner : Element)
  | base (owner : Element) (b : BaseSpec)
  | value (owner : Element) (v : EnumValue)

/-- The name of a place. -/
def DocumentNode.label : DocumentNode → String
  | root tag => "root " ++ tag
  | element e => "record " ++ e.kind.tag ++ " " ++ e.id
  | argument owner a => "argument " ++ owner.id ++ " " ++ a.name
  | ellipsis owner => "ellipsis " ++ owner.id
  | base owner b => "base " ++ owner.id ++ " " ++ b.type
  | value owner v => "value " ++ owner.id ++ " " ++ v.name

/-- The parts of an element, in the order of the walk. -/
def Element.parts (e : Element) : List DocumentNode :=
  e.arguments.map (.argument e) ++ (if e.ellipsis then [.ellipsis e] else [])
    ++ e.bases.map (.base e) ++ e.values.map (.value e)

namespace Document

/-- The places visited, when `descend` says where to go on. -/
def walk (d : Document) (descend : DocumentNode → Bool) : List DocumentNode :=
  .root d.root ::
    if descend (.root d.root) then
      d.elements.flatMap fun e =>
        .element e :: if descend (.element e) then e.parts else []
    else []

/-- The elements of one kind, in order. -/
def ofKind (d : Document) (kind : ElementKind) : List Element :=
  d.elements.filter fun e => e.kind == kind

end Document

/-- How many elements of each kind and how many parts a document has. -/
structure Statistics where
  /-- The kinds that occur, in the order of `ElementKind.all`, with their counts. -/
  kinds : List (ElementKind × Nat)
  arguments : Nat
  bases : Nat
  values : Nat
deriving DecidableEq

namespace Statistics

/-- The number of elements. -/
def total (s : Statistics) : Nat := (s.kinds.map Prod.snd).foldl (· + ·) 0

/-- The statistics of a document. -/
def ofDocument (d : Document) : Statistics :=
  { kinds :=
      (ElementKind.all.map fun k => (k, (d.ofKind k).length)).filter fun p => p.2 != 0
    arguments := (d.elements.flatMap fun e => e.arguments).length
    bases := (d.elements.flatMap fun e => e.bases).length
    values := (d.elements.flatMap fun e => e.values).length }

end Statistics
end TypeCatalog
