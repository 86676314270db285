import TypeCatalog.Entity.Flags
import TypeCatalog.Entity.Kind
import TypeCatalog.Name

/-!
# Type references, members and bases

**Types.** A type is referred to by its qualified name. A reference may carry a memo: the slot in
which the name was last found. The memo is no part of what the reference means, and `forget` clears
it; two references are the same when they are equal after `forget`.
-/

namespace TypeCatalog

/-- A reference to a type by its qualified name. -/
structure TypeRef where
  name : String
  /-- The slot where the name was last found. -/
  memo : Option Nat
deriving DecidableEq

namespace TypeRef

/-- A reference that has not been resolved. -/
def named (name : String) : TypeRef := ⟨name, none⟩

/-- The reference without its memo. -/
def forget (r : TypeRef) : TypeRef := ⟨r.name, none⟩

@[simp] theorem forget_forget (r : TypeRef) : r.forget.forget = r.forget := rfl

@[simp] theorem name_forget (r : TypeRef) : r.forget.name = r.name := rfl

end TypeRef

/-- A member of a record or an enumerator. -/
structure Member where
  name : String
  type : TypeRef
  /-- The kind of the member's type; `enumeration` for enumerators and `functionProto` for member
  functions. -/
  kind : TypeKind
  access : Access
  /-- Offset in bytes within the record. -/
  offset : UInt64
  /-- Qualified name of the declaring scope. -/
  scope : String
  /-- The value of an enumerator. -/
  value : Option Int64
deriving DecidableEq

namespace Member

/-- A member that is not yet in a scope. -/
def declare (name : String) (type : TypeRef) (kind : TypeKind) (access : Access)
    (offset : UInt64) : Member :=
  { name, type, kind, access, offset, scope := "", value := none }

/-- An enumerator of type `int`. -/
def enumerator (name : String) (value : Int64) : Member :=
  { declare name (.named "int") .enumeration .pub 0 with value := some value }

/-- The member declared in another scope. -/
def inScope (scope : String) (m : Member) : Member := { m with scope }

/-- The member's name within its scope. -/
def qualified (m : Member) : String := Name.qualify m.scope m.name

/-- Enumerators carry a value. -/
def isEnumerator (m : Member) : Bool := m.value.isSome

/-- Whether the member is a member function. -/
def isFunction (m : Member) : Bool := m.kind.isFunction

/-- Whether the member is neither a function nor an enumerator. -/
def isData (m : Member) : Bool := !m.isFunction && !m.isEnumerator

/-- The member with an unresolved type. -/
def forget (m : Member) : Member := { m with type := m.type.forget }

end Member

/-- A base class of a record. -/
structure Base where
  type : TypeRef
  access : Access
  /-- Offset in bytes within the record. -/
  offset : UInt64
  isVirtual : Bool
deriving DecidableEq

/-- The base with an unresolved type. -/
def Base.forget (b : Base) : Base := { b with type := b.type.forget }

end TypeCatalog
