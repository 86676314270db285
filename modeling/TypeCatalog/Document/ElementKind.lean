/-!
# Kinds of document elements

**Types.** Every element of a document has a kind, which its tag names. A tag that names no kind is
unimplemented.
-/

namespace TypeCatalog

/-- The kind of a top-level element. -/
inductive ElementKind where
  | space
  | spaceAlias
  | classRecord
  | structRecord
  | unionRecord
  | enumeration
  | function
  | operatorFunction
  | method
  | operatorMethod
  | constructor
  | destructor
  | converter
  | field
  | data
  | typedef
  | fundamental
  | array
  | pointer
  | reference
  | cvQualified
  | offset
  | functionType
  | methodType
  | file
  | unimplemented
deriving DecidableEq

namespace ElementKind

/-- All kinds, in the order of reports. -/
def all : List ElementKind :=
  [space, spaceAlias, classRecord, structRecord, unionRecord, enumeration, function,
   operatorFunction, method, operatorMethod, constructor, destructor, converter, field, data,
   typedef, fundamental, array, pointer, reference, cvQualified, offset, functionType, methodType,
   file, unimplemented]

/-- The tag of a kind. -/
def tag : ElementKind → String
  | space => "Namespace"
  | spaceAlias => "NamespaceAlias"
  | classRecord => "Class"
  | structRecord => "Struct"
  | unionRecord => "Union"
  | enumeration => "Enumeration"
  | function => "Function"
  | operatorFunction => "OperatorFunction"
  | method => "Method"
  | operatorMethod => "OperatorMethod"
  | constructor => "Constructor"
  | destructor => "Destructor"
  | converter => "Converter"
  | field => "Field"
  | data => "Variable"
  | typedef => "Typedef"
  | fundamental => "FundamentalType"
  | array => "ArrayType"
  | pointer => "PointerType"
  | reference => "ReferenceType"
  | cvQualified => "CvQualifiedType"
  | offset => "OffsetType"
  | functionType => "FunctionType"
  | methodType => "MethodType"
  | file => "File"
  | unimplemented => "Unimplemented"

/-- The kind that a tag names. -/
def ofTag (tag : String) : ElementKind := (all.find? fun k => k.tag == tag).getD unimplemented

/-- Whether elements of the kind are classes, structs or unions. -/
def isRecord : ElementKind → Bool
  | classRecord | structRecord | unionRecord => true
  | _ => false

/-- Whether elements of the kind are functions declared in a record. -/
def isMemberFunction : ElementKind → Bool
  | method | operatorMethod | constructor | destructor | converter => true
  | _ => false

/-- Whether elements of the kind are operators. -/
def isOperator : ElementKind → Bool
  | operatorFunction | operatorMethod | converter => true
  | _ => false

end ElementKind
end TypeCatalog
