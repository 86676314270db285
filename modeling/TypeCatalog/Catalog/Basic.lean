import Std.Data.TreeMap
import TypeCatalog.Entity.Basic

/-!
# The catalog

**State.** A catalog is a row of slots, each an entity under a key, with an index from keys to
slots. Slots are never removed, so the number of a slot stays valid.

**Operations.** `push` opens a slot at the end and points the index to it; `setEntity` changes the
entity of a slot and nothing else. All steps on a catalog are made of these two.
-/

namespace TypeCatalog

/-- Why a step on a catalog fails. -/
inductive CatalogError where
  /-- The name is in the catalog already. -/
  | duplicate (name : String)
  /-- No type of that name is in the catalog. -/
  | unresolved (name : String)
  /-- The name is not that of a struct, class or union. -/
  | notARecord (name : String)
deriving DecidableEq

/-- The text of a catalog error. -/
def CatalogError.message : CatalogError → String
  | .duplicate name => s!"identifier `{name}` already in registry"
  | .unresolved name => s!"no type named `{name}` in registry"
  | .notARecord name => s!"`{name}` is not a struct, class or union"

/-- An entity under a key. -/
structure Slot where
  key : String
  entity : Entity
deriving DecidableEq

/-- A store of entities by qualified name. -/
structure Catalog where
  slots : Array Slot
  index : Std.TreeMap String Nat

namespace Catalog

/-- The catalog without entities. -/
def empty : Catalog := ⟨#[], ∅⟩

/-- The number of slots. -/
def size (c : Catalog) : Nat := c.slots.size

/-- The slot of a name. -/
def indexOf? (c : Catalog) (name : String) : Option Nat := c.index[name]?

/-- The entity in a slot. -/
def entityAt? (c : Catalog) (i : Nat) : Option Entity := c.slots[i]?.map (·.entity)

/-- The entity of a name. -/
def lookup (c : Catalog) (name : String) : Option Entity := (c.indexOf? name).bind c.entityAt?

/-- The type in a slot. -/
def typeAt? (c : Catalog) (i : Nat) : Option DataType := (c.entityAt? i).bind Entity.type?

/-- The type of a name. -/
def lookupType (c : Catalog) (name : String) : Option DataType :=
  (c.lookup name).bind Entity.type?

/-- Whether no entity has the name. -/
def isVacant (c : Catalog) (name : String) : Bool := (c.indexOf? name).isNone

/-- All keys in ascending order; a key of two slots is listed twice. -/
def allNames (c : Catalog) : List String :=
  (c.slots.toList.map (·.key)).mergeSort fun a b => decide (a ≤ b)

/-- The entity that declares another; `none` for the global scope. -/
def declaringScope (c : Catalog) (e : Entity) : Option Entity :=
  if e.scope.isEmpty then none else c.lookup e.scope

/-- Opens a slot for an entity at the end. -/
def push (c : Catalog) (key : String) (e : Entity) : Catalog :=
  ⟨c.slots.push ⟨key, e⟩, c.index.insert key c.slots.size⟩

/-- Opens slots for several entities, in order. -/
def pushAll (c : Catalog) (slots : List (String × Entity)) : Catalog :=
  slots.foldl (fun c s => c.push s.1 s.2) c

/-- Puts another entity into a slot. -/
def setEntity (c : Catalog) (i : Nat) (e : Entity) : Catalog :=
  { c with slots := c.slots.modify i fun s => { s with entity := e } }

/-- The first of several names that is taken. -/
def firstTaken? (c : Catalog) (names : List String) : Option String :=
  names.find? fun n => !c.isVacant n

end Catalog
end TypeCatalog
