import TypeCatalog.Entity.Basic
import TypeCatalog.Image.Bytes

/-!
# Bytes of entities

**Format.** The fields of a structure follow each other in order. A variant is its 32-bit number,
then its fields. A type reference is its name alone, so memos and computed sizes are not written.

Every encoder stands beside its decoder.
-/

namespace TypeCatalog
namespace Image

/-- The bytes of a type reference. -/
def putRef (r : TypeRef) : List UInt8 := putText r.name

/-- Reads a type reference. -/
def getRef : Decoder TypeRef := do return .named (← getText)

/-- The bytes of a kind of a type. -/
def putKind (k : TypeKind) : List UInt8 := putVariant k.tag

/-- Reads a kind of a type. -/
def getKind : Decoder TypeKind := getVariant TypeKind.ofTag?

/-- The bytes of an access level. -/
def putAccess (a : Access) : List UInt8 := putVariant a.tag

/-- Reads an access level. -/
def getAccess : Decoder Access := getVariant Access.ofTag?

/-- The bytes of a member. -/
def putMember (m : Member) : List UInt8 :=
  putText m.name ++ putRef m.type ++ putKind m.kind ++ putAccess m.access ++ putUInt64 m.offset
    ++ putText m.scope ++ putOption putInt64 m.value

/-- Reads a member. -/
def getMember : Decoder Member := do
  let name ← getText
  let type ← getRef
  let kind ← getKind
  let access ← getAccess
  let offset ← getUInt64
  let scope ← getText
  let value ← getOption getInt64
  return { name, type, kind, access, offset, scope, value }

/-- The bytes of a base. -/
def putBase (b : Base) : List UInt8 :=
  putRef b.type ++ putAccess b.access ++ putUInt64 b.offset ++ putBool b.isVirtual

/-- Reads a base. -/
def getBase : Decoder Base := do
  let type ← getRef
  let access ← getAccess
  let offset ← getUInt64
  let isVirtual ← getBool
  return { type, access, offset, isVirtual }

/-- The bytes of a parameter. -/
def putParameter (p : Parameter) : List UInt8 :=
  putText p.name ++ putRef p.type ++ putBool p.hasDefault

/-- Reads a parameter. -/
def getParameter : Decoder Parameter := do
  let name ← getText
  let type ← getRef
  let hasDefault ← getBool
  return { name, type, hasDefault }

/-- The bytes of a prototype. -/
def putPrototype (p : Prototype) : List UInt8 :=
  putList putParameter p.params ++ putRef p.result ++ putBool p.variadic

/-- Reads a prototype. -/
def getPrototype : Decoder Prototype := do
  let params ← getList getParameter
  let result ← getRef
  let variadic ← getBool
  return { params, result, variadic }

/-- The bytes of a set of qualifiers. -/
def putQualifiers (q : Qualifiers) : List UInt8 := putUInt8 q.bits

/-- Reads a set of qualifiers. -/
def getQualifiers : Decoder Qualifiers := do return ⟨← getUInt8⟩

/-- The bytes of a set of specifiers. -/
def putSpecifiers (s : Specifiers) : List UInt8 := putUInt32 s.bits

/-- Reads a set of specifiers. -/
def getSpecifiers : Decoder Specifiers := do return ⟨← getUInt32⟩

/-- The bytes of a function. -/
def putFunction (f : Function) : List UInt8 :=
  putText f.qualified ++ putText f.scope ++ putQualifiers f.qualifiers
    ++ putSpecifiers f.specifiers ++ putPrototype f.proto

/-- Reads a function. -/
def getFunction : Decoder Function := do
  let qualified ← getText
  let scope ← getText
  let qualifiers ← getQualifiers
  let specifiers ← getSpecifiers
  let proto ← getPrototype
  return { qualified, scope, qualifiers, specifiers, proto }

/-- The bytes of a header of a type. -/
def putHeader (h : TypeHeader) : List UInt8 :=
  putText h.qualified ++ putText h.scope ++ putUInt64 h.size ++ putKind h.kind
    ++ putQualifiers h.qualifiers ++ putSpecifiers h.specifiers

/-- Reads a header of a type. -/
def getHeader : Decoder TypeHeader := do
  let qualified ← getText
  let scope ← getText
  let size ← getUInt64
  let kind ← getKind
  let qualifiers ← getQualifiers
  let specifiers ← getSpecifiers
  return { qualified, scope, size, kind, qualifiers, specifiers }

/-- The variants of types, in the order of their numbers. -/
inductive ShapeTag where
  | fundamental
  | cvQualified
  | pointer
  | reference
  | typedef
  | array
  | structRecord
  | classRecord
  | enumeration
  | union
  | function
deriving DecidableEq

namespace ShapeTag

/-- All variants, in the order of their numbers. -/
def all : List ShapeTag :=
  [fundamental, cvQualified, pointer, reference, typedef, array, structRecord, classRecord,
   enumeration, union, function]

/-- The number of a variant. -/
def tag (t : ShapeTag) : Nat := all.idxOf t

/-- The variant with a given number. -/
def ofTag? (n : Nat) : Option ShapeTag := all[n]?

/-- The variant of a shape. -/
def of : TypeShape → ShapeTag
  | .fundamental => fundamental
  | .cvQualified _ => cvQualified
  | .pointer _ _ => pointer
  | .reference _ => reference
  | .typedef _ => typedef
  | .array _ _ => array
  | .record .structKey _ _ => structRecord
  | .record .classKey _ _ => classRecord
  | .enumeration _ => enumeration
  | .union _ _ => union
  | .function _ => function

end ShapeTag

/-- The fields of a shape. -/
def putShape : TypeShape → List UInt8
  | .fundamental => []
  | .cvQualified r => putRef r
  | .pointer r c => putRef r ++ putOption putText c
  | .reference r => putRef r
  | .typedef r => putRef r
  | .array r n => putRef r ++ putUInt64 n
  | .record _ members bases => putList putMember members ++ putList putBase bases
  | .enumeration members => putList putMember members
  | .union members _ => putList putMember members
  | .function p => putPrototype p

/-- The fields of a shape of a given variant. -/
def getShape : ShapeTag → Decoder TypeShape
  | .fundamental => return .fundamental
  | .cvQualified => do return .cvQualified (← getRef)
  | .pointer => do
      let pointee ← getRef
      let memberOf ← getOption getText
      return .pointer pointee memberOf
  | .reference => do return .reference (← getRef)
  | .typedef => do return .typedef (← getRef)
  | .array => do
      let element ← getRef
      let length ← getUInt64
      return .array element length
  | .structRecord => do
      let members ← getList getMember
      let bases ← getList getBase
      return .record .structKey members bases
  | .classRecord => do
      let members ← getList getMember
      let bases ← getList getBase
      return .record .classKey members bases
  | .enumeration => do return .enumeration (← getList getMember)
  | .union => do return .union (← getList getMember) none
  | .function => do return .function (← getPrototype)

/-- The bytes of a type. -/
def putType (t : DataType) : List UInt8 :=
  putVariant (ShapeTag.of t.shape).tag ++ putHeader t.header ++ putShape t.shape

/-- Reads a type. -/
def getType : Decoder DataType := do
  let variant ← getVariant ShapeTag.ofTag?
  let header ← getHeader
  let shape ← getShape variant
  return ⟨header, shape⟩

/-- The bytes of a namespace. -/
def putNamespace (n : Namespace) : List UInt8 :=
  putText n.qualified ++ putText n.scope ++ putOption putText n.aliasOf

/-- Reads a namespace. -/
def getNamespace : Decoder Namespace := do
  let qualified ← getText
  let scope ← getText
  let aliasOf ← getOption getText
  return { qualified, scope, aliasOf }

/-- The bytes of an overload set. -/
def putOverloads (o : OverloadSet) : List UInt8 :=
  putText o.qualified ++ putText o.scope ++ putList putFunction o.functions

/-- Reads an overload set. -/
def getOverloads : Decoder OverloadSet := do
  let qualified ← getText
  let scope ← getText
  let functions ← getList getFunction
  return { qualified, scope, functions }

/-- The bytes of a variable. -/
def putVariable (v : Variable) : List UInt8 :=
  putText v.qualified ++ putText v.scope ++ putRef v.type ++ putSpecifiers v.specifiers

/-- Reads a variable. -/
def getVariable : Decoder Variable := do
  let qualified ← getText
  let scope ← getText
  let type ← getRef
  let specifiers ← getSpecifiers
  return { qualified, scope, type, specifiers }

/-- The bytes of an entity. -/
def putEntity : Entity → List UInt8
  | .ofNamespace n => putVariant 0 ++ putNamespace n
  | .ofFunction f => putVariant 1 ++ putFunction f
  | .ofOverloads o => putVariant 2 ++ putOverloads o
  | .ofVariable v => putVariant 3 ++ putVariable v
  | .ofMember m => putVariant 4 ++ putMember m
  | .ofType t => putVariant 5 ++ putType t

/-- Reads an entity. -/
def getEntity : Decoder Entity := do
  match (← getUInt32).toNat with
  | 0 => return .ofNamespace (← getNamespace)
  | 1 => return .ofFunction (← getFunction)
  | 2 => return .ofOverloads (← getOverloads)
  | 3 => return .ofVariable (← getVariable)
  | 4 => return .ofMember (← getMember)
  | 5 => return .ofType (← getType)
  | _ => throw .invalidVariant

end Image
end TypeCatalog
