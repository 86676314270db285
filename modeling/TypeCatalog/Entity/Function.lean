import TypeCatalog.Entity.Member

/-!
# Functions and overload sets

**Types.** A prototype is shared by functions and function types. All functions of one qualified
name form an overload set, in the order of their registration.
-/

namespace TypeCatalog

/-- A parameter of a function. -/
structure Parameter where
  name : String
  type : TypeRef
  hasDefault : Bool
deriving DecidableEq

/-- The parameter with an unresolved type. -/
def Parameter.forget (p : Parameter) : Parameter := { p with type := p.type.forget }

/-- Parameters and result of a function. -/
structure Prototype where
  params : List Parameter
  result : TypeRef
  variadic : Bool
deriving DecidableEq

namespace Prototype

/-- How many parameters have a default. -/
def defaultCount (p : Prototype) : Nat := p.params.countP (·.hasDefault)

/-- The prototype of a function type: parameters have neither names nor defaults. -/
def typeOnly (p : Prototype) : Prototype :=
  { p with params := p.params.map fun q => ⟨"", q.type, false⟩ }

/-- The type references: those of the parameters in order, then the result. -/
def refs (p : Prototype) : List TypeRef := p.params.map (·.type) ++ [p.result]

/-- The prototype with other type references, in the order of `refs`. -/
def withRefs (p : Prototype) (rs : List TypeRef) : Prototype :=
  { p with
    params := p.params.zipWith (fun q r => { q with type := r }) rs
    result := (rs.drop p.params.length).headD p.result }

/-- The prototype with unresolved types. -/
def forget (p : Prototype) : Prototype :=
  { p with params := p.params.map Parameter.forget, result := p.result.forget }

/-- The signature `[inline ][static ]name(type arg, ...)[ const][ -> result]`. -/
def signature (p : Prototype) (qualified : String) (specifiers : Specifiers)
    (qualifiers : Qualifiers) : String :=
  let written := p.params.map fun q =>
    if q.name.isEmpty then q.type.name else q.type.name ++ " " ++ q.name
  let all := if p.variadic then written ++ ["..."] else written
  let list :=
    if all.isEmpty && !specifiers.contains .method then "void" else ", ".intercalate all
  (if specifiers.contains .inlined then "inline " else "")
    ++ (if specifiers.contains .static then "static " else "")
    ++ qualified ++ "(" ++ list ++ ")"
    ++ (if qualifiers.contains .const then " const" else "")
    ++ (if specifiers.contains .constructor || specifiers.contains .destructor then ""
        else " -> " ++ p.result.name)

end Prototype

/-- A function declaration. -/
structure Function where
  qualified : String
  scope : String
  qualifiers : Qualifiers
  specifiers : Specifiers
  proto : Prototype
deriving DecidableEq

namespace Function

/-- The name within the declaring scope. -/
def name (f : Function) : String := Name.relativeTo f.scope f.qualified

/-- The function's signature. -/
def signature (f : Function) : String :=
  f.proto.signature f.qualified f.specifiers f.qualifiers

/-- The function with unresolved types. -/
def forget (f : Function) : Function := { f with proto := f.proto.forget }

end Function

/-- All functions of one qualified name. -/
structure OverloadSet where
  qualified : String
  scope : String
  functions : List Function
deriving DecidableEq

namespace OverloadSet

/-- The overload set of a single function. -/
def single (f : Function) : OverloadSet := ⟨f.qualified, f.scope, [f]⟩

/-- The overload set with one more function at its end. -/
def push (o : OverloadSet) (f : Function) : OverloadSet :=
  { o with functions := o.functions ++ [f] }

/-- The overload set with unresolved types. -/
def forget (o : OverloadSet) : OverloadSet := { o with functions := o.functions.map Function.forget }

/-- Gives functions other type references, taken from one list. -/
def assignRefs : List Function → List TypeRef → List Function
  | [], _ => []
  | f :: fs, rs =>
      let n := f.proto.refs.length
      { f with proto := f.proto.withRefs (rs.take n) } :: assignRefs fs (rs.drop n)

end OverloadSet
end TypeCatalog
