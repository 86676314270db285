import TypeCatalog.Entity.Function

/-!
# Types

**Types.** Every type has a header with its name, scope, size, kind and flags, and a shape that says
how it is made from other types. A union without a recorded size computes one from its members and
may carry the last result; like the memo of a reference, that result is no part of what the union
means.
-/

namespace TypeCatalog

/-- What all types have. -/
structure TypeHeader where
  /-- Fully qualified name. -/
  qualified : String
  /-- Qualified name of the declaring scope; empty for the global one. -/
  scope : String
  /-- Size in bytes. -/
  size : UInt64
  kind : TypeKind
  qualifiers : Qualifiers
  specifiers : Specifiers
deriving DecidableEq

/-- The name within the declaring scope. -/
def TypeHeader.name (h : TypeHeader) : String := Name.relativeTo h.scope h.qualified

/-- Whether a record is declared as a struct or as a class. -/
inductive ClassKey where
  | structKey
  | classKey
deriving DecidableEq

/-- How a type is made. -/
inductive TypeShape where
  | fundamental
  | cvQualified (underlying : TypeRef)
  /-- A pointer, or a pointer to a member of the named class. -/
  | pointer (pointee : TypeRef) (memberOf : Option String)
  | reference (referent : TypeRef)
  | typedef (underlying : TypeRef)
  /-- An array; length zero is an unknown bound. -/
  | array (element : TypeRef) (length : UInt64)
  | record (key : ClassKey) (members : List Member) (bases : List Base)
  | enumeration (members : List Member)
  | union (members : List Member) (computed : Option UInt64)
  | function (proto : Prototype)
deriving DecidableEq

namespace TypeShape

/-- The name of the variant. -/
def variantName : TypeShape → String
  | fundamental => "fundamental"
  | cvQualified _ => "cv-qualified"
  | pointer _ _ => "pointer"
  | reference _ => "reference"
  | typedef _ => "typedef"
  | array _ _ => "array"
  | record .structKey _ _ => "struct"
  | record .classKey _ _ => "class"
  | enumeration _ => "enum"
  | union _ _ => "union"
  | function _ => "function-type"

/-- The type references, in the order of the fields. -/
def refs : TypeShape → List TypeRef
  | fundamental => []
  | cvQualified r => [r]
  | pointer r _ => [r]
  | reference r => [r]
  | typedef r => [r]
  | array r _ => [r]
  | record _ members bases => members.map (·.type) ++ bases.map (·.type)
  | enumeration members => members.map (·.type)
  | union members _ => members.map (·.type)
  | function p => p.refs

/-- Members with other type references. -/
def assignMembers (members : List Member) (rs : List TypeRef) : List Member :=
  members.zipWith (fun m r => { m with type := r }) rs

/-- The shape with other type references, in the order of `refs`. -/
def withRefs (s : TypeShape) (rs : List TypeRef) : TypeShape :=
  match s with
  | fundamental => fundamental
  | cvQualified r => cvQualified (rs.headD r)
  | pointer r c => pointer (rs.headD r) c
  | reference r => reference (rs.headD r)
  | typedef r => typedef (rs.headD r)
  | array r n => array (rs.headD r) n
  | record key members bases =>
      record key (assignMembers members rs)
        (bases.zipWith (fun b r => { b with type := r }) (rs.drop members.length))
  | enumeration members => enumeration (assignMembers members rs)
  | union members size => union (assignMembers members rs) size
  | function p => function (p.withRefs rs)

/-- The shape without memos and without a computed size. -/
def forget : TypeShape → TypeShape
  | fundamental => fundamental
  | cvQualified r => cvQualified r.forget
  | pointer r c => pointer r.forget c
  | reference r => reference r.forget
  | typedef r => typedef r.forget
  | array r n => array r.forget n
  | record key members bases => record key (members.map Member.forget) (bases.map Base.forget)
  | enumeration members => enumeration (members.map Member.forget)
  | union members _ => union (members.map Member.forget) none
  | function p => function p.forget

/-- The members of a record, union or enumeration. -/
def members? : TypeShape → Option (List Member)
  | record _ members _ => some members
  | enumeration members => some members
  | union members _ => some members
  | _ => none

end TypeShape

/-- A type. -/
structure DataType where
  header : TypeHeader
  shape : TypeShape
deriving DecidableEq

/-- The product of two sizes, or the largest size when the product is too large. -/
def saturatingMul (a b : UInt64) : UInt64 :=
  if a.toNat * b.toNat < UInt64.size then a * b else UInt64.ofNat (UInt64.size - 1)

namespace DataType

/-- A type without qualifiers and specifiers. -/
def make (qualified scope : String) (size : UInt64) (kind : TypeKind) (shape : TypeShape) :
    DataType :=
  ⟨{ qualified, scope, size, kind, qualifiers := .none, specifiers := .none }, shape⟩

/-- The type with other specifiers. -/
def withSpecifiers (t : DataType) (s : Specifiers) : DataType :=
  { t with header := { t.header with specifiers := s } }

/-- The type with other qualifiers. -/
def withQualifiers (t : DataType) (q : Qualifiers) : DataType :=
  { t with header := { t.header with qualifiers := q } }

/-- A builtin type; it is in the global scope. -/
def fundamental (name : String) (size : UInt64) (kind : TypeKind) : DataType :=
  make name "" size kind .fundamental

/-- A qualified type, with the size and kind of the type it qualifies. -/
def cvQualified (name : String) (underlying : TypeRef) (q : Qualifiers) (size : UInt64)
    (kind : TypeKind) : DataType :=
  (make name "" size kind (.cvQualified underlying)).withQualifiers q

/-- A pointer with a given spelling. -/
def pointer (name : String) (pointee : TypeRef) (size : UInt64) : DataType :=
  make name "" size .pointer (.pointer pointee none)

/-- The pointer `T*`. -/
def pointerTo (pointee : TypeRef) (size : UInt64) : DataType :=
  pointer (pointee.name ++ "*") pointee size

/-- A pointer to a member of a class, with a given spelling. -/
def memberPointer (name : String) (pointee : TypeRef) (cls : String) (size : UInt64) : DataType :=
  make name "" size .pointer (.pointer pointee (some cls))

/-- The pointer to member `T C::*`. -/
def pointerToMember (pointee : TypeRef) (cls : String) (size : UInt64) : DataType :=
  memberPointer (pointee.name ++ " " ++ cls ++ "::*") pointee cls size

/-- A reference with a given spelling. -/
def reference (name : String) (referent : TypeRef) (size : UInt64) : DataType :=
  make name "" size .lvalueReference (.reference referent)

/-- The reference `T&`. -/
def referenceTo (referent : TypeRef) (size : UInt64) : DataType :=
  reference (referent.name ++ "&") referent size

/-- A type alias. -/
def typedef (name scope : String) (underlying : TypeRef) (size : UInt64) : DataType :=
  make name scope size .typedef (.typedef underlying)

/-- An array with a given spelling. -/
def array (name : String) (element : TypeRef) (length size : UInt64) : DataType :=
  make name "" size .constantArray (.array element length)

/-- The text of an array dimension; empty brackets for an unknown bound. -/
def dimension (length : UInt64) : List Char :=
  if length = 0 then ['[', ']'] else '[' :: Text.decimal length.toNat ++ [']']

/-- The array `T[n]`; the new dimension goes before the dimensions of the element. -/
def arrayOf (element : TypeRef) (length elementSize : UInt64) : DataType :=
  let spelling := element.name.toList
  let head := spelling.takeWhile (· != '[')
  let dims := spelling.dropWhile (· != '[')
  array (String.ofList (head ++ dimension length ++ dims)) element length
    (saturatingMul elementSize length)

/-- A record without members and bases. -/
def record (key : ClassKey) (name scope : String) (size : UInt64) : DataType :=
  make name scope size .record (.record key [] [])

/-- A union without members; size zero is unknown. -/
def union (name scope : String) (size : UInt64) : DataType :=
  make name scope size .record (.union [] none)

/-- An enumeration; its enumerators are declared in its own scope. -/
def enumeration (name scope : String) (size : UInt64) (members : List Member) : DataType :=
  make name scope size .enumeration (.enumeration (members.map (·.inScope scope)))

/-- A function type. -/
def function (name : String) (proto : Prototype) : DataType :=
  make name "" 0 .functionProto (.function proto)

/-- The type without memos and without a computed size. -/
def forget (t : DataType) : DataType := { t with shape := t.shape.forget }

/-- Whether the type is a struct or a class. -/
def isRecord (t : DataType) : Bool :=
  match t.shape with
  | .record _ _ _ => true
  | _ => false

/-- Whether the type is a union. -/
def isUnion (t : DataType) : Bool :=
  match t.shape with
  | .union _ _ => true
  | _ => false

/-- The bases of a struct or class. -/
def bases? (t : DataType) : Option (List Base) :=
  match t.shape with
  | .record _ _ bases => some bases
  | _ => none

end DataType
end TypeCatalog
