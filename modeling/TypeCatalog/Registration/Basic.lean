import TypeCatalog.Catalog.Register
import TypeCatalog.Registration.Layout
import TypeCatalog.Spelling.Namer

/-!
# Registering the declarations of a document: references and prototypes

**State.** A registration works on a catalog and on the memo of spellings. It either ends with both
or fails.

**Rules.** A reference to a type is the spelling of its id. When the id is the undefined qualified
form of another, its type is registered on the way. A type whose spelling is the name of a type in
the catalog is not registered again.
-/

namespace TypeCatalog

/-- What a registration can be asked to do differently. -/
structure RegistrationOptions where
  /-- Whether template arguments equal to their defaults are written. -/
  keepAll : Bool
  /-- The size in bytes of pointers that state none. -/
  pointerSize : UInt64
deriving DecidableEq

/-- Defaults are not written, and pointers have eight bytes. -/
def RegistrationOptions.standard : RegistrationOptions := ⟨false, 8⟩

/-- What a registration reads. -/
structure Source where
  /-- The elements that their ids denote, in order. -/
  elements : List Element
  index : Index
  namer : Namer
  pointerSize : UInt64

/-- What a registration changes. -/
structure RegistrationState where
  catalog : Catalog
  memo : SpellingMemo

/-- A registration step. -/
abbrev Registration (α : Type) := StateT RegistrationState (Except DocumentError) α

namespace Registration

/-- Spells names, keeping the memo. -/
def spell {α : Type} (x : Spelled α) : Registration α := fun ⟨catalog, memo⟩ =>
  match x.run memo with
  | (.ok a, memo) => .ok (a, ⟨catalog, memo⟩)
  | (.error e, _) => .error e

/-- Takes a step on the catalog. -/
def change {α : Type} (step : Catalog → Except CatalogError α × Catalog) : Registration α :=
  fun ⟨catalog, memo⟩ =>
    match step catalog with
    | (.ok a, catalog) => .ok (a, ⟨catalog, memo⟩)
    | (.error e, _) => .error (.catalog e)

/-- Registers an entity. -/
def register (e : Entity) : Registration Unit := do
  let _ ← change (·.register e)

/-- Registers a type unless its spelling is the name of a type already. -/
def registerType (t : DataType) : Registration Unit := do
  match (← get).catalog.lookup t.header.qualified with
  | some (.ofType _) => return
  | _ => register (.ofType t)

end Registration

namespace Source

open Registration

/-- The elements of the kinds that `wanted` accepts. -/
def select (s : Source) (wanted : ElementKind → Bool) : List Element :=
  s.elements.filter fun e => wanted e.kind

/-- The spelling of an id. -/
def nameOf (s : Source) (id : String) : Registration String := spell (s.namer.typeName id)

/-- The scope that declares an id. -/
def scopeOf (s : Source) (id : String) : Registration String := spell (s.namer.scopeName id)

/-- The size of the type of an id. -/
def sizeOf (s : Source) (id referrer : String) : Except DocumentError UInt64 :=
  Layout.sizeOf s.index s.pointerSize id referrer

/-- The kind of the type of an id. -/
def kindOf (s : Source) (id referrer : String) : Except DocumentError TypeKind :=
  Layout.kindOf s.index id referrer

/-- The spelling of a type that `referrer` mentions. An undefined qualified form gets its type
registered. -/
def typeRef (s : Source) (id referrer : String) : Registration String := do
  let name ← spell (s.namer.referencedName id referrer)
  match s.index.find? id, Spelling.qualifiedId? id with
  | none, some (base, q) =>
      let underlying ← spell (s.namer.referencedName base referrer)
      let size ← s.sizeOf base id
      let kind ← s.kindOf base id
      registerType (.cvQualified name (.named underlying) q size kind)
      return name
  | _, _ => return name

/-- The parameters and the result of a function. -/
def prototype (s : Source) (e : Element) : Registration Prototype := do
  let params ← e.arguments.mapM fun a => do
    let type ← s.typeRef a.type e.id
    return ({ name := a.name, type := .named type, hasDefault := a.default.isSome } : Parameter)
  let result ←
    match e.attr? "returns" with
    | some id => if id.isEmpty then pure "void" else s.typeRef id e.id
    | none => pure "void"
  return { params, result := .named result, variadic := e.ellipsis }

end Source
end TypeCatalog
