/-!
# Kinds of types and entities

**Types.** `TypeKind` classifies a type; the builtin kinds form one contiguous range. Every kind has
a display name and a number, its place in `TypeKind.all`.

**Results.**
* `ofTag?_tag`: a kind is recovered from its number.
* `tag_eq_of_ofTag?`: no other number denotes it.
-/

namespace TypeCatalog

/-- The kind of a type. -/
inductive TypeKind where
  | invalid
  | unexposed
  | void
  | bool
  | charU
  | uChar
  | char16
  | char32
  | uShort
  | uInt
  | uLong
  | uLongLong
  | uInt128
  | charS
  | sChar
  | wChar
  | short
  | int
  | long
  | longLong
  | int128
  | float
  | double
  | longDouble
  | nullPtr
  | overload
  | dependent
  | objCId
  | objCClass
  | objCSel
  | complex
  | pointer
  | blockPointer
  | lvalueReference
  | rvalueReference
  | record
  | enumeration
  | typedef
  | objCInterface
  | objCObjectPointer
  | functionNoProto
  | functionProto
  | constantArray
deriving DecidableEq

namespace TypeKind

/-- All kinds, in the order of their numbers. -/
def all : List TypeKind :=
  [invalid, unexposed, void, bool, charU, uChar, char16, char32, uShort, uInt, uLong, uLongLong,
   uInt128, charS, sChar, wChar, short, int, long, longLong, int128, float, double, longDouble,
   nullPtr, overload, dependent, objCId, objCClass, objCSel, complex, pointer, blockPointer,
   lvalueReference, rvalueReference, record, enumeration, typedef, objCInterface,
   objCObjectPointer, functionNoProto, functionProto, constantArray]

/-- The number of a kind. -/
def tag (k : TypeKind) : Nat := all.idxOf k

/-- The kind with a given number. -/
def ofTag? (n : Nat) : Option TypeKind := all[n]?

/-- The display name of a kind. -/
def name : TypeKind → String
  | invalid => "Invalid"
  | unexposed => "Unexposed"
  | void => "Void"
  | bool => "Bool"
  | charU => "Char_U"
  | uChar => "UChar"
  | char16 => "Char16"
  | char32 => "Char32"
  | uShort => "UShort"
  | uInt => "UInt"
  | uLong => "ULong"
  | uLongLong => "ULongLong"
  | uInt128 => "UInt128"
  | charS => "Char_S"
  | sChar => "SChar"
  | wChar => "WChar"
  | short => "Short"
  | int => "Int"
  | long => "Long"
  | longLong => "LongLong"
  | int128 => "Int128"
  | float => "Float"
  | double => "Double"
  | longDouble => "LongDouble"
  | nullPtr => "NullPtr"
  | overload => "Overload"
  | dependent => "Dependent"
  | objCId => "ObjCId"
  | objCClass => "ObjCClass"
  | objCSel => "ObjCSel"
  | complex => "Complex"
  | pointer => "Ptr"
  | blockPointer => "BlockPtr"
  | lvalueReference => "LValueRef"
  | rvalueReference => "RValueRef"
  | record => "Record"
  | enumeration => "Enum"
  | typedef => "Typedef"
  | objCInterface => "ObjCInterface"
  | objCObjectPointer => "ObjCObjectPointer"
  | functionNoProto => "FunctionNoProto"
  | functionProto => "FunctionProto"
  | constantArray => "ConstantArray"

/-- The kind with a given display name. -/
def ofName? (text : String) : Option TypeKind := all.find? fun k => k.name == text

/-- Whether a kind is that of a builtin type. -/
def isBuiltin (k : TypeKind) : Bool := decide (void.tag ≤ k.tag) && decide (k.tag ≤ objCSel.tag)

/-- Whether a kind is that of a function. -/
def isFunction (k : TypeKind) : Bool := k == functionProto || k == functionNoProto

/-- Canonical builtin spellings with their kinds; plain `char` is signed. -/
def builtinSpellings : List (String × TypeKind) :=
  [("void", void), ("bool", bool), ("char", charS), ("signed char", sChar),
   ("unsigned char", uChar), ("wchar_t", wChar), ("char16_t", char16), ("char32_t", char32),
   ("short", short), ("unsigned short", uShort), ("int", int), ("unsigned int", uInt),
   ("long", long), ("unsigned long", uLong), ("long long", longLong),
   ("unsigned long long", uLongLong), ("__int128", int128), ("unsigned __int128", uInt128),
   ("float", float), ("double", double), ("long double", longDouble),
   ("float complex", complex), ("double complex", complex), ("long double complex", complex)]

/-- The kind of a canonical builtin spelling. -/
def ofBuiltin? (spelling : String) : Option TypeKind := builtinSpellings.lookup spelling

theorem ofTag?_tag (k : TypeKind) : ofTag? k.tag = some k := by
  cases k <;> rfl

theorem nodup_all : all.Nodup := by decide

theorem tag_eq_of_ofTag? {n : Nat} {k : TypeKind} (h : ofTag? n = some k) : k.tag = n := by
  obtain ⟨hn, rfl⟩ := List.getElem?_eq_some_iff.mp h
  have hlen : all.length = 43 := rfl
  exact nodup_all.idxOf_getElem n hn

end TypeKind

/-- The kind of an entity. -/
inductive EntityKind where
  /-- A variable or a data member. -/
  | data
  | type
  | function
  /-- A namespace. -/
  | space
deriving DecidableEq

/-- The display name of an entity's kind. -/
def EntityKind.name : EntityKind → String
  | .data => "variable"
  | .type => "type"
  | .function => "function"
  | .space => "namespace"

end TypeCatalog
