import TypeCatalog.Entity.DataType

/-!
# Entities

**Types.** An entity is anything that a catalog holds under a qualified name: a namespace, a
function, an overload set, a variable, a member or a type. All cross references are names, so an
entity is a plain value.
-/

namespace TypeCatalog

/-- A namespace, or an alias of one. -/
structure Namespace where
  qualified : String
  scope : String
  aliasOf : Option String
deriving DecidableEq

/-- A variable at namespace scope. -/
structure Variable where
  qualified : String
  scope : String
  type : TypeRef
  specifiers : Specifiers
deriving DecidableEq

/-- Anything that has a qualified name. -/
inductive Entity where
  | ofNamespace (n : Namespace)
  | ofFunction (f : Function)
  | ofOverloads (o : OverloadSet)
  | ofVariable (v : Variable)
  | ofMember (m : Member)
  | ofType (t : DataType)
deriving DecidableEq

namespace Entity

/-- Fully qualified name. -/
def qualified : Entity → String
  | ofNamespace n => n.qualified
  | ofFunction f => f.qualified
  | ofOverloads o => o.qualified
  | ofVariable v => v.qualified
  | ofMember m => m.qualified
  | ofType t => t.header.qualified

/-- Qualified name of the declaring scope; empty for the global one. -/
def scope : Entity → String
  | ofNamespace n => n.scope
  | ofFunction f => f.scope
  | ofOverloads o => o.scope
  | ofVariable v => v.scope
  | ofMember m => m.scope
  | ofType t => t.header.scope

/-- The name within the declaring scope. -/
def name : Entity → String
  | ofMember m => m.name
  | e => Name.relativeTo e.scope e.qualified

/-- The kind of an entity. -/
def kind : Entity → EntityKind
  | ofNamespace _ => .space
  | ofFunction _ | ofOverloads _ => .function
  | ofVariable _ | ofMember _ => .data
  | ofType _ => .type

/-- The type that an entity is. -/
def type? : Entity → Option DataType
  | ofType t => some t
  | _ => none

/-- The overload set that an entity is. -/
def overloads? : Entity → Option OverloadSet
  | ofOverloads o => some o
  | _ => none

/-- The type references, in the order of the fields. -/
def refs : Entity → List TypeRef
  | ofNamespace _ => []
  | ofFunction f => f.proto.refs
  | ofOverloads o => o.functions.flatMap fun f => f.proto.refs
  | ofVariable v => [v.type]
  | ofMember m => [m.type]
  | ofType t => t.shape.refs

/-- The entity with other type references, in the order of `refs`. -/
def withRefs (e : Entity) (rs : List TypeRef) : Entity :=
  match e with
  | ofNamespace n => ofNamespace n
  | ofFunction f => ofFunction { f with proto := f.proto.withRefs rs }
  | ofOverloads o => ofOverloads { o with functions := OverloadSet.assignRefs o.functions rs }
  | ofVariable v => ofVariable { v with type := rs.headD v.type }
  | ofMember m => ofMember { m with type := rs.headD m.type }
  | ofType t => ofType { t with shape := t.shape.withRefs rs }

/-- The entity without memos and without computed sizes. -/
def forget : Entity → Entity
  | ofNamespace n => ofNamespace n
  | ofFunction f => ofFunction f.forget
  | ofOverloads o => ofOverloads o.forget
  | ofVariable v => ofVariable { v with type := v.type.forget }
  | ofMember m => ofMember m.forget
  | ofType t => ofType t.forget

/-- Whether two entities mean the same, memos and computed sizes apart. -/
def same (a b : Entity) : Bool := a.forget == b.forget

end Entity
end TypeCatalog
