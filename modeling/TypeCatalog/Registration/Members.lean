import TypeCatalog.Registration.Basic

/-!
# Registering the declarations of a document: members, bases and enumerators

**Rules.** Fields, variables and member functions that a record lists are its members; nested types
are not. The type of a member function is registered under its spelling: for a static one that of a
plain function, otherwise that of a method of the record.
-/

namespace TypeCatalog

/-- The value of an enumerator: a signed or unsigned 64-bit number between blanks, an unsigned one
by its bits; empty is zero. -/
def enumValue (owner init : String) : Except DocumentError Int64 :=
  let text := Text.trim init.toList
  if text.isEmpty then .ok 0
  else
    match Text.signed64? text with
    | some n => .ok n
    | none =>
        match Text.unsigned64? text with
        | some n => .ok n.toInt64
        | none => .error (.invalidInteger owner "init" (String.ofList text))

/-- The access level that a text states about an element. -/
def readAccess (owner value : String) : Except DocumentError Access :=
  match Access.ofKeyword? value with
  | some a => .ok a
  | none => .error (.invalidAccess owner value)

/-- The access level of an element. -/
def Element.access (e : Element) : Except DocumentError Access := readAccess e.id (e.attr "access")

/-- The type of a function with a given spelling and prototype. -/
def methodType (name : String) (proto : Prototype) (q : Qualifiers) : DataType :=
  ((DataType.function name proto).withSpecifiers .method).withQualifiers q

namespace Source

open Registration

/-- The type of a member function of a class. -/
def memberFunctionType (e : Element) (cls : String) (proto : Prototype) : DataType :=
  let args := Spelling.argumentList (proto.params.map (·.type.name)) proto.variadic
  if e.flag "static" then .function (Spelling.functionSpelling proto.result.name args) proto
  else
    methodType
      (Spelling.methodSpelling proto.result.name cls args (e.flag "const") (e.flag "volatile"))
      proto e.qualifiers

/-- A data member, with its offset in bits as the document states it. -/
def dataMember (s : Source) (e : Element) (offset : Except DocumentError UInt64) :
    Registration Member := do
  let id ← e.required "type"
  let type ← s.typeRef id e.id
  let kind ← s.kindOf id e.id
  let bits ← offset
  let access ← e.access
  return .declare e.name (.named type) kind access (Layout.bytesOfBits bits)

/-- The member of a record that an id denotes, if it is one. -/
def member (s : Source) (record : Element) (name id : String) : Registration (Option Member) := do
  let e ← s.index.require id record.id
  match e.kind with
  | .field => return some (← s.dataMember e (e.uint "offset"))
  | .data => return some (← s.dataMember e (.ok 0))
  | k =>
      if k.isMemberFunction then
        let qualified ← s.nameOf e.id
        let proto ← s.prototype e
        let type := memberFunctionType e name proto.typeOnly
        registerType type
        let access ← e.access
        return some
          (.declare (Name.relativeTo name qualified) (.named type.header.qualified) .functionProto
            access 0)
      else return none

/-- The members of a record, in the order of their declaration. -/
def members (s : Source) (record : Element) (name : String) : Registration (List Member) := do
  let found ← record.memberIds.mapM (s.member record name)
  return found.filterMap id

/-- The bases of a record. -/
def bases (s : Source) (record : Element) : Registration (List Base) :=
  record.bases.mapM fun b => do
    let type ← s.typeRef b.type record.id
    let access ← readAccess record.id b.access
    let offset ← readSize record.id "offset" b.offset
    return { type := .named type, access, offset, isVirtual := b.isVirtual }

end Source
end TypeCatalog
