import TypeCatalog.Catalog.Basic

/-!
# Steps that fill a catalog

**Rules.**
* A function joins the overload set of its name, or opens one.
* An enumeration brings its enumerators into its own scope.
* Any other name can be registered once.
* A record is registered as an empty shell; its members and bases follow. Named data members are
  also entered under a scope, normally the record itself.
* `put` replaces what stands under a key, without any of these rules.

Each step gives an outcome and the catalog after it. Every key that a step would add is tested
before the first change, so a step that fails leaves the catalog as it was.
-/

namespace TypeCatalog
namespace Catalog

/-- Puts an entity under a key, in place of what stands there. -/
def put (c : Catalog) (key : String) (e : Entity) : Nat × Catalog :=
  match c.indexOf? key with
  | some i => (i, c.setEntity i e)
  | none => (c.size, c.push key e)

/-- Adds a function to the overload set of its name. -/
def registerFunction (c : Catalog) (f : Function) : Except CatalogError Nat × Catalog :=
  match c.indexOf? f.qualified with
  | none => (.ok c.size, c.push f.qualified (.ofOverloads (.single f)))
  | some i =>
      match c.entityAt? i with
      | some (.ofOverloads o) => (.ok i, c.setEntity i (.ofOverloads (o.push f)))
      | _ => (.error (.duplicate f.qualified), c)

/-- Registers an enumeration and enters its enumerators where they are declared. -/
def registerEnum (c : Catalog) (header : TypeHeader) (members : List Member) :
    Except CatalogError Nat × Catalog :=
  match c.firstTaken? (header.qualified :: members.map Member.qualified) with
  | some name => (.error (.duplicate name), c)
  | none =>
      (.ok c.size,
        (c.push header.qualified (.ofType ⟨header, .enumeration members⟩)).pushAll
          (members.map fun m => (m.qualified, .ofMember m)))

/-- Registers an entity under its qualified name. -/
def register (c : Catalog) (e : Entity) : Except CatalogError Nat × Catalog :=
  match e with
  | .ofFunction f => c.registerFunction f
  | .ofType ⟨header, .enumeration members⟩ => c.registerEnum header members
  | e =>
      if c.isVacant e.qualified then (.ok c.size, c.push e.qualified e)
      else (.error (.duplicate e.qualified), c)

/-- The slot of a struct or class, or of a union where those are allowed. -/
def recordSlot (c : Catalog) (record : String) (allowUnion : Bool) :
    Except CatalogError (Nat × DataType) :=
  match c.indexOf? record with
  | none => .error (.unresolved record)
  | some i =>
      match c.typeAt? i with
      | some t =>
          if t.isRecord || (allowUnion && t.isUnion) then .ok (i, t)
          else .error (.notARecord record)
      | none => .error (.notARecord record)

/-- A record or union with other members; a computed size is dropped. -/
def withMembers (t : DataType) (members : List Member) : DataType :=
  match t.shape with
  | .record key _ bases => { t with shape := .record key members bases }
  | .union _ _ => { t with shape := .union members none }
  | _ => t

/-- A record with other bases. -/
def withBases (t : DataType) (bases : List Base) : DataType :=
  match t.shape with
  | .record key members _ => { t with shape := .record key members bases }
  | _ => t

/-- The named data members, as they are entered under a scope. -/
def exposed (scope : String) (members : List Member) : List (String × Entity) :=
  (members.filter fun m => m.isData && !m.name.isEmpty).map fun m =>
    (Name.qualify scope m.name, .ofMember (m.inScope scope))

/-- Sets the members of a record and enters the named data members under `scope`. -/
def setMembersIn (c : Catalog) (record scope : String) (members : List Member) :
    Except CatalogError Unit × Catalog :=
  match c.recordSlot record true with
  | .error e => (.error e, c)
  | .ok (i, t) =>
      let own := members.map (·.inScope record)
      let entries := exposed scope own
      match c.firstTaken? (entries.map Prod.fst) with
      | some name => (.error (.duplicate name), c)
      | none => (.ok (), (c.setEntity i (.ofType (withMembers t own))).pushAll entries)

/-- Sets the members of a record and enters the named data members under it. -/
def setMembers (c : Catalog) (record : String) (members : List Member) :
    Except CatalogError Unit × Catalog :=
  c.setMembersIn record record members

/-- Sets the bases of a struct or class. -/
def setBases (c : Catalog) (record : String) (bases : List Base) :
    Except CatalogError Unit × Catalog :=
  match c.recordSlot record false with
  | .error e => (.error e, c)
  | .ok (i, t) => (.ok (), c.setEntity i (.ofType (withBases t bases)))

end Catalog
end TypeCatalog
