import TypeCatalog.Spelling.Declarator

/-!
# Kinds and sizes of the types of a document

**Input.** The index of a document, and the id of a type.

**Rules.** A qualified type has the kind of the type it qualifies. Qualified types and type aliases
have the size of their target, an array without a stated size the product of its length and the size
of its element, and a pointer without one the size of the machine's pointers. Sizes in a document
are in bits. Chains of more than `longestChain` types are taken for cyclic.
-/

namespace TypeCatalog
namespace Layout

/-- The longest chain of types that is followed. -/
def longestChain : Nat := 1024

/-- Whole bytes of a number of bits. -/
def bytesOfBits (bits : UInt64) : UInt64 := bits / 8

/-- The kind of a builtin type. Types of compiler extensions are not exposed. -/
def builtinKind (name : String) : Except DocumentError TypeKind :=
  match TypeKind.ofBuiltin? name with
  | some k => .ok k
  | none =>
      if name = "decltype(nullptr)" ∨ name = "std::nullptr_t" then .ok .nullPtr
      else if "__".toList.isPrefixOf name.toList || "_Float".toList.isPrefixOf name.toList then
        .ok .unexposed
      else .error (.unknownBuiltin name)

/-- The id that an undefined id qualifies. -/
def qualifiedBase (id referrer : String) : Except DocumentError String :=
  match Spelling.qualifiedId? id with
  | some (base, _) => .ok base
  | none => .error (.unknownId id referrer)

/-- The kind of the type of an id, at the end of at most `depth` qualifications. -/
def kindWithin (index : Index) (referrer : String) : Nat → String → Except DocumentError TypeKind
  | 0, id => .error (.cyclicReference id)
  | depth + 1, id =>
      match index.find? id with
      | none =>
          match qualifiedBase id referrer with
          | .error err => .error err
          | .ok base => kindWithin index referrer depth base
      | some e =>
          match e.kind with
          | .cvQualified =>
              match e.required "type" with
              | .error err => .error err
              | .ok target => kindWithin index referrer depth target
          | .fundamental => builtinKind e.name
          | .pointer | .offset => .ok .pointer
          | .reference => .ok .lvalueReference
          | .classRecord | .structRecord | .unionRecord => .ok .record
          | .enumeration => .ok .enumeration
          | .typedef => .ok .typedef
          | .array => .ok .constantArray
          | .functionType | .methodType => .ok .functionProto
          | _ => .ok .unexposed

/-- The kind of the type of an id. -/
def kindOf (index : Index) (id referrer : String) : Except DocumentError TypeKind :=
  kindWithin index referrer longestChain id

/-- The size of a pointer. -/
def pointerSize (machine : UInt64) (e : Element) : Except DocumentError UInt64 := do
  let size := bytesOfBits (← e.uint "size")
  return if size = 0 then machine else size

/-- The size in bytes of the type of an id, at the end of a chain of at most `depth` types. -/
def sizeWithin (index : Index) (machine : UInt64) :
    Nat → String → String → Except DocumentError UInt64
  | 0, id, _ => .error (.cyclicReference id)
  | depth + 1, id, referrer =>
      match index.find? id with
      | none =>
          match qualifiedBase id referrer with
          | .error err => .error err
          | .ok base => sizeWithin index machine depth base referrer
      | some e =>
          match e.kind with
          | .cvQualified | .typedef =>
              match e.required "type" with
              | .error err => .error err
              | .ok target => sizeWithin index machine depth target e.id
          | .functionType | .methodType => .ok 0
          | .pointer | .reference | .offset => pointerSize machine e
          | .array => do
              let size := bytesOfBits (← e.uint "size")
              if size = 0 then
                let length := (← e.arrayLength).getD 0
                let element ← sizeWithin index machine depth (← e.required "type") e.id
                return saturatingMul element length
              else return size
          | _ => do return bytesOfBits (← e.uint "size")

/-- The size in bytes of the type of an id. -/
def sizeOf (index : Index) (machine : UInt64) (id referrer : String) :
    Except DocumentError UInt64 :=
  sizeWithin index machine longestChain id referrer

end Layout
end TypeCatalog
