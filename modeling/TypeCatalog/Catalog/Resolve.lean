import TypeCatalog.Catalog.Basic

/-!
# Resolving type references

**Rule.** A reference resolves to the type of its name. Resolving it stores the slot in the
reference's memo. A memo is used only when its slot still holds a type of the very name; otherwise
the name is looked up again.

**Sizes.** A union without a recorded size is as large as its largest data member. The result is
kept in the union, and resolving the members leaves memos in them, also when a later member fails.
The recursion goes from union to union, and its depth is bounded by the number of slots.
-/

namespace TypeCatalog
namespace Catalog

/-- The slot that the memo of a reference rightly names. -/
def memoized? (c : Catalog) (r : TypeRef) : Option Nat :=
  match r.memo with
  | none => none
  | some i =>
      match c.typeAt? i with
      | some t => if t.header.qualified = r.name then some i else none
      | none => none

/-- The slot of the type that a reference names, and the reference with its memo. -/
def resolve (c : Catalog) (r : TypeRef) : Except CatalogError Nat × TypeRef :=
  match c.memoized? r with
  | some i => (.ok i, r)
  | none =>
      match c.indexOf? r.name with
      | none => (.error (.unresolved r.name), r)
      | some i =>
          match c.typeAt? i with
          | some _ => (.ok i, { r with memo := some i })
          | none => (.error (.unresolved r.name), r)

/-- The type that a reference names, and the reference with its memo. -/
def resolveType (c : Catalog) (r : TypeRef) : Except CatalogError DataType × TypeRef :=
  match c.resolve r with
  | (.error e, r) => (.error e, r)
  | (.ok i, r) =>
      match c.typeAt? i with
      | some t => (.ok t, r)
      | none => (.error (.unresolved r.name), r)

/-- Replaces one of the references stored in a slot's entity. -/
def setRef (c : Catalog) (slot k : Nat) (r : TypeRef) : Catalog :=
  match c.entityAt? slot with
  | some e => c.setEntity slot (e.withRefs (e.refs.set k r))
  | none => c

/-- Resolves a reference stored in a slot, leaving the memo there. -/
def resolveStored (c : Catalog) (slot k : Nat) : Except CatalogError Nat × Catalog :=
  match (c.entityAt? slot).bind fun e => e.refs[k]? with
  | none => (.error (.unresolved ""), c)
  | some r =>
      let (outcome, r) := c.resolve r
      (outcome, c.setRef slot k r)

/-- Keeps the computed size of a union. -/
def setComputed (c : Catalog) (slot : Nat) (size : UInt64) : Catalog :=
  match c.typeAt? slot with
  | some ⟨header, .union members _⟩ =>
      c.setEntity slot (.ofType ⟨header, .union members (some size)⟩)
  | _ => c

/-- The largest size among some of the references stored in a slot, given how to size a slot. -/
def largest (sizeOfSlot : Catalog → Nat → Except CatalogError UInt64 × Catalog) (slot : Nat) :
    List Nat → UInt64 → Catalog → Except CatalogError UInt64 × Catalog
  | [], best, c => (.ok best, c)
  | k :: ks, best, c =>
      match c.resolveStored slot k with
      | (.error e, c) => (.error e, c)
      | (.ok target, c) =>
          match sizeOfSlot c target with
          | (.error e, c) => (.error e, c)
          | (.ok n, c) => largest sizeOfSlot slot ks (max best n) c

/-- Positions of the data members in a member list. -/
def dataPositions (members : List Member) : List Nat :=
  (members.zipIdx.filter fun p => p.1.isData).map Prod.snd

/-- The size of the type in a slot, through at most `depth` unions. -/
def sizeWithin : Nat → Catalog → Nat → Except CatalogError UInt64 × Catalog
  | 0, c, _ => (.ok 0, c)
  | depth + 1, c, slot =>
      match c.typeAt? slot with
      | none => (.ok 0, c)
      | some ⟨header, .union members computed⟩ =>
          if header.size ≠ 0 then (.ok header.size, c)
          else
            match computed with
            | some n => (.ok n, c)
            | none =>
                match largest (sizeWithin depth) slot (dataPositions members) 0 c with
                | (.error e, c) => (.error e, c)
                | (.ok n, c) => (.ok n, c.setComputed slot n)
      | some t => (.ok t.header.size, c)

/-- The size of the type in a slot. -/
def sizeAt (c : Catalog) (slot : Nat) : Except CatalogError UInt64 × Catalog :=
  sizeWithin (c.size + 1) c slot

/-- What can be asked of a type reference, besides its name. -/
inductive RefQuery where
  | isResolved
  | type
  | size
  | kind
  | qualifiers
  | declaringScope
deriving DecidableEq

/-- The answer to a query on a type reference. -/
inductive RefAnswer where
  | isResolved (yes : Bool)
  | type (t : DataType)
  | size (n : UInt64)
  | kind (k : TypeKind)
  | qualifiers (q : Qualifiers)
  /-- The qualified name of the declaring scope, if it is in the catalog. -/
  | declaringScope (name : Option String)

/-- Answers a query on a reference. The reference may get a memo, and the catalog computed sizes. -/
def query (c : Catalog) (r : TypeRef) (q : RefQuery) :
    Except CatalogError RefAnswer × TypeRef × Catalog :=
  match q with
  | .isResolved => (.ok (.isResolved r.memo.isSome), r, c)
  | .size =>
      match c.resolve r with
      | (.error e, r) => (.error e, r, c)
      | (.ok slot, r) =>
          let (outcome, c) := c.sizeAt slot
          (outcome.map .size, r, c)
  | .type =>
      let (outcome, r) := c.resolveType r
      (outcome.map .type, r, c)
  | .kind =>
      let (outcome, r) := c.resolveType r
      (outcome.map fun t => .kind t.header.kind, r, c)
  | .qualifiers =>
      let (outcome, r) := c.resolveType r
      (outcome.map fun t => .qualifiers t.header.qualifiers, r, c)
  | .declaringScope =>
      let (outcome, r) := c.resolveType r
      (outcome.map fun t => .declaringScope ((c.lookup t.header.scope).map Entity.qualified), r, c)

/-- Answers a query on some of the references stored in a slot, one after the other. -/
def queryStored (q : RefQuery) (slot : Nat) :
    List Nat → Catalog → List (String × Except CatalogError RefAnswer) × Catalog
  | [], c => ([], c)
  | k :: ks, c =>
      match (c.entityAt? slot).bind fun e => e.refs[k]? with
      | none => queryStored q slot ks c
      | some r =>
          -- the memo is stored before sizes are computed, as a size may depend on the slot itself
          let c := if q = .isResolved then c else (c.resolveStored slot k).2
          let (outcome, _, c) := c.query r q
          let (answers, c) := queryStored q slot ks c
          ((r.name, outcome) :: answers, c)

/-- Answers a query on every reference stored in a slot. -/
def queryAll (c : Catalog) (q : RefQuery) (slot : Nat) :
    List (String × Except CatalogError RefAnswer) × Catalog :=
  queryStored q slot (List.range ((c.entityAt? slot).elim 0 fun e => e.refs.length)) c

end Catalog
end TypeCatalog
