import TypeCatalog.Entity.Basic

/-!
# Parts of an entity by number

**Rule.** Members, bases, parameters and overloads are counted from zero. A number that is too
large is refused, and the refusal says what was asked for.
-/

namespace TypeCatalog

/-- A part was asked for by a number that is too large. -/
inductive OutOfRange where
  | member (i : Nat) (record : String)
  | base (i : Nat) (record : String)
  | parameter (i count : Nat)
  | overload (i : Nat) (name : String)
  | slot (i count : Nat)
deriving DecidableEq

/-- The text of a refusal. -/
def OutOfRange.message : OutOfRange → String
  | .member i record => s!"member index {i} out of range for `{record}`"
  | .base i record => s!"base index {i} out of range for `{record}`"
  | .parameter i count => s!"param index {i} out of range ({count} params)"
  | .overload i name => s!"overload index {i} out of range for `{name}`"
  | .slot i count => s!"Idx({i}) out of range ({count} entries)"

/-- The `i`-th item of a list, or a refusal. -/
def select {α : Type} (items : List α) (i : Nat) (refusal : OutOfRange) : Except OutOfRange α :=
  match items[i]? with
  | some x => .ok x
  | none => .error refusal

/-- The `i`-th of the members of a type. -/
def DataType.member (t : DataType) (members : List Member) (i : Nat) : Except OutOfRange Member :=
  select members i (.member i t.header.qualified)

/-- The `i`-th of the bases of a type. -/
def DataType.base (t : DataType) (bases : List Base) (i : Nat) : Except OutOfRange Base :=
  select bases i (.base i t.header.qualified)

/-- Whether a type has a base of that name. -/
def DataType.hasBase (t : DataType) (name : String) : Bool :=
  (t.bases?.getD []).any fun b => b.type.name == name

/-- The `i`-th parameter. -/
def Prototype.param (p : Prototype) (i : Nat) : Except OutOfRange Parameter :=
  select p.params i (.parameter i p.params.length)

/-- The `i`-th function of an overload set. -/
def OverloadSet.function (o : OverloadSet) (i : Nat) : Except OutOfRange Function :=
  select o.functions i (.overload i o.qualified)

end TypeCatalog
