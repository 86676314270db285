import TypeCatalog.Document.Walk
import TypeCatalog.Registration.Members

/-!
# Registering the declarations of a document

**Algorithm.** The document is repaired and indexed. Its elements are then registered kind by kind:
builtin types, namespaces and their aliases, enumerations, records (all shells first, then members
and bases), type aliases, the types made from other types, free functions, member functions, and the
variables at namespace scope. Elements shadowed by a later one of the same id are left out.

**Result.** The statistics of the repaired document. A registration that fails leaves the catalog as
it was.
-/

namespace TypeCatalog
namespace Source

open Registration

/-- Registers a builtin type. -/
def fundamental (s : Source) (e : Element) : Registration Unit := do
  let name ← s.nameOf e.id
  let kind ← Layout.builtinKind name
  let size ← e.uint "size"
  registerType (.fundamental name (Layout.bytesOfBits size) kind)

/-- Registers a namespace, unless it is the global one or is there already. -/
def space (s : Source) (e : Element) : Registration Unit := do
  if e.name = "::" then return
  let name ← s.nameOf e.id
  match (← get).catalog.lookup name with
  | some (.ofNamespace _) => return
  | _ =>
      let scope ← s.scopeOf e.id
      register (.ofNamespace { qualified := name, scope, aliasOf := none })

/-- Registers an alias of a namespace. -/
def spaceAlias (s : Source) (e : Element) : Registration Unit := do
  let name ← s.nameOf e.id
  let scope ← s.scopeOf e.id
  let target ← spell (s.namer.referencedName (← e.required "namespace") e.id)
  register (.ofNamespace { qualified := name, scope, aliasOf := some target })

/-- Registers an enumeration with its enumerators. -/
def enumeration (s : Source) (e : Element) : Registration Unit := do
  let name ← s.nameOf e.id
  let scope ← s.scopeOf e.id
  let size ← e.uint "size"
  let members ← e.values.mapM fun v => do return .enumerator v.name (← enumValue e.id v.init)
  register (.ofType (.enumeration name scope (Layout.bytesOfBits size) members))

/-- Registers a record without members and bases. -/
def shell (s : Source) (e : Element) : Registration Unit := do
  let name ← s.nameOf e.id
  let scope ← s.scopeOf e.id
  let size := Layout.bytesOfBits (← e.uint "size")
  let type :=
    if e.kind = .unionRecord then DataType.union name scope size
    else
      (DataType.record (if e.kind = .structRecord then .structKey else .classKey) name scope
        size).withSpecifiers (.when (e.flag "abstract") .abstract)
  register (.ofType type)

/-- Sets the members and bases of a record. The members of an unnamed record are found in the scope
around it. -/
def fill (s : Source) (e : Element) : Registration Unit := do
  let name ← s.nameOf e.id
  let members ← s.members e name
  if e.isUnnamed then
    let scope ← s.scopeOf e.id
    change (·.setMembersIn name scope members)
  else change (·.setMembers name members)
  if e.kind != .unionRecord && !e.bases.isEmpty then
    let bases ← s.bases e
    change (·.setBases name bases)

/-- Registers a type alias, unless it has the name of its target. -/
def typedef (s : Source) (e : Element) : Registration Unit := do
  let name ← s.nameOf e.id
  let id ← e.required "type"
  let target ← s.typeRef id e.id
  if target = name then return
  let scope ← s.scopeOf e.id
  let size ← s.sizeOf id e.id
  register (.ofType (.typedef name scope (.named target) size))

/-- The kinds of elements whose types are made from other types, in the order of registration. -/
def structuralKinds : List ElementKind :=
  [.pointer, .reference, .cvQualified, .array, .offset, .functionType, .methodType]

/-- The type made from other types that an element describes. -/
def structuralType (s : Source) (e : Element) : Registration DataType := do
  let name ← s.nameOf e.id
  let target := do s.typeRef (← e.required "type") e.id
  match e.kind with
  | .pointer => do
      let pointee ← target
      return .pointer name (.named pointee) (← Layout.pointerSize s.pointerSize e)
  | .reference => do
      let referent ← target
      return .reference name (.named referent) (← Layout.pointerSize s.pointerSize e)
  | .cvQualified => do
      let id ← e.required "type"
      let underlying ← target
      let size ← s.sizeOf id e.id
      let kind ← s.kindOf id e.id
      return .cvQualified name (.named underlying) e.qualifiers size kind
  | .array => do
      let element ← target
      let length := (← e.arrayLength).getD 0
      let size ← s.sizeOf e.id e.id
      return .array name (.named element) length size
  | .offset => do
      let pointee ← target
      let cls ← s.typeRef (← e.required "basetype") e.id
      return .memberPointer name (.named pointee) cls (← Layout.pointerSize s.pointerSize e)
  | .functionType => do
      let proto ← s.prototype e
      return .function name proto.typeOnly
  | _ => do
      let proto ← s.prototype e
      return methodType name proto.typeOnly e.qualifiers

/-- Registers a type made from other types. -/
def structural (s : Source) (e : Element) : Registration Unit := do
  registerType (← s.structuralType e)

/-- The specifiers that the kind of a function implies. -/
def kindSpecifiers : ElementKind → Specifiers
  | .operatorFunction => .operator
  | .method => .method
  | .operatorMethod => Specifiers.method.union .operator
  | .constructor => Specifiers.method.union .constructor
  | .destructor => Specifiers.method.union .destructor
  | .converter => Specifiers.method.union .converter
  | _ => .none

/-- The specifiers of a function that attributes state. -/
def functionFlags : List (String × Specifiers) :=
  [("extern", .external), ("inline", .inlined), ("static", .static), ("virtual", .virtual),
   ("pure_virtual", .abstract), ("explicit", .explicit), ("artificial", .artificial)]

/-- The spelling of the type that a reference refers to, without a leading `const`. -/
def referent? (spelling : String) : Option (List Char) :=
  match spelling.toList.reverse with
  | '&' :: rest => some ((Text.stripPrefix "const ".toList rest.reverse).getD rest.reverse)
  | _ => none

/-- Whether a constructor of a class copies: its first parameter is a reference to the class, and
all others have defaults. -/
def copies (proto : Prototype) (cls : String) : Bool :=
  match proto.params with
  | [] => false
  | first :: rest => referent? first.type.name == some cls.toList && rest.all (·.hasDefault)

/-- The function that an element describes. -/
def functionOf (s : Source) (e : Element) : Registration Function := do
  let qualified ← s.nameOf e.id
  let scope ← s.scopeOf e.id
  let proto ← s.prototype e
  let stated := functionFlags.foldl
    (fun (bits : Specifiers) p => bits.union (.when (e.flag p.1) p.2)) (kindSpecifiers e.kind)
  let specifiers :=
    stated.union (.when (e.kind = .constructor && copies proto scope) .copyConstructor)
  return { qualified, scope, qualifiers := e.qualifiers, specifiers, proto }

/-- Registers a function. -/
def function (s : Source) (e : Element) : Registration Unit := do
  register (.ofFunction (← s.functionOf e))

/-- Registers a variable at namespace scope that the program declares. -/
def variableAt (s : Source) (e : Element) : Registration Unit := do
  if e.flag "artificial" then return
  let atNamespaceScope ←
    match e.context? with
    | some id => do pure ((← s.index.require id e.id).kind == .space)
    | none => pure true
  if !atNamespaceScope then return
  let qualified ← s.nameOf e.id
  let scope ← s.scopeOf e.id
  let type ← s.typeRef (← e.required "type") e.id
  let specifiers := (Specifiers.when (e.flag "extern") .external).union
    (.when (e.flag "static") .static)
  register (.ofVariable { qualified, scope, type := .named type, specifiers })

/-- Registers all elements, kind by kind. -/
def registerAll (s : Source) : Registration Unit := do
  (s.select (· == .fundamental)).forM s.fundamental
  (s.select (· == .space)).forM s.space
  (s.select (· == .spaceAlias)).forM s.spaceAlias
  (s.select (· == .enumeration)).forM s.enumeration
  (s.select ElementKind.isRecord).forM s.shell
  (s.select ElementKind.isRecord).forM s.fill
  (s.select (· == .typedef)).forM s.typedef
  structuralKinds.forM fun k => (s.select (· == k)).forM s.structural
  (s.select fun k => k == .function || k == .operatorFunction).forM s.function
  (s.select ElementKind.isMemberFunction).forM s.function
  (s.select (· == .data)).forM s.variableAt

/-- What a registration of a document reads. -/
def ofDocument (d : Document) (n : Template.Normalizer) (o : RegistrationOptions) : Source :=
  let index := d.index
  { elements := d.canonical index, index, namer := ⟨index, n, o.keepAll⟩
    pointerSize := o.pointerSize }

end Source

namespace Catalog

/-- Registers the declarations of a document. -/
def registerDocument (c : Catalog) (d : Document) (n : Template.Normalizer)
    (o : RegistrationOptions) : Except DocumentError Statistics × Catalog :=
  let repaired := d.repair n
  match (Source.ofDocument repaired n o).registerAll.run ⟨c, ∅⟩ with
  | .ok (_, state) => (.ok (Statistics.ofDocument repaired), state.catalog)
  | .error e => (.error e, c)

end Catalog
end TypeCatalog
