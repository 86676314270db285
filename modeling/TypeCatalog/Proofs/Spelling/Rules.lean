import Mathlib.Logic.Relation
import TypeCatalog.Spelling.Namer

/-!
# The rules of spelling

**Input.** A namer: the index of a document, a normalizer, and whether all template arguments are
kept. Nothing is assumed of the index, so ids may refer to each other in circles.

**Rules.** `Spells n id name` is the least relation that is closed under the rules, one constructor
for each shape of spelling. `Refers n id dep` says that the spelling of `id` asks for that of `dep`:
a target, a result, a class, an argument, the scope, or the base of an undefined id.
-/

namespace TypeCatalog
namespace Namer

/-- From a context without a usable name to the context around it. -/
def ClimbsPast
    (index : Index) (id outer : String) :
    Prop :=
  ∃ e, index.find? id = some e ∧ e.kind ≠ .space ∧ e.isUnnamed = true ∧ e.context? = some outer

/-- The nearest context that is a namespace or has a name; none when the climb ends outside. -/
inductive NearestContext
    (index : Index) :
    Option String → Option String → Prop
  | outside :
      NearestContext index none none
  | stop
      {id : String} {e : Element}
      (he : index.find? id = some e)
      (hnamed : e.kind = .space ∨ e.isUnnamed = false) :
      NearestContext index (some id) (some id)
  | climb
      {id : String} {e : Element} {found : Option String}
      (he : index.find? id = some e)
      (hkind : e.kind ≠ .space)
      (hunnamed : e.isUnnamed = true)
      (hrest : NearestContext index e.context? found) :
      NearestContext index (some id) found

/-- The kinds that are spelled by their declared name within their scope. -/
def plainKinds :
    List ElementKind :=
  [.spaceAlias, .typedef, .function, .operatorFunction, .method, .operatorMethod, .constructor,
    .converter, .field, .data]

/-- The name of an element within its scope. Records with a name are not among these, as their
qualified name is normalized. -/
inductive LocalName :
    Element → String → Prop
  | anonymousSpace
      {e : Element}
      (hkind : e.kind = .space)
      (hname : e.name = "") :
      LocalName e "@anonymous@namespace@"
  | space
      {e : Element}
      (hkind : e.kind = .space)
      (hname : e.name ≠ "")
      (hglobal : e.name ≠ "::") :
      LocalName e e.name
  | unnamed
      {e : Element}
      (hkind : e.kind.isRecord = true ∨ e.kind = .enumeration)
      (hunnamed : e.isUnnamed = true) :
      LocalName e ("@anon@" ++ e.id)
  | enumeration
      {e : Element}
      (hkind : e.kind = .enumeration)
      (hnamed : e.isUnnamed = false) :
      LocalName e e.name
  | tildeDestructor
      {e : Element}
      (hkind : e.kind = .destructor)
      (htilde : e.name.toList.head? = some '~') :
      LocalName e e.name
  | destructor
      {e : Element}
      (hkind : e.kind = .destructor)
      (htilde : e.name.toList.head? ≠ some '~') :
      LocalName e ("~" ++ e.name)
  | unimplemented
      {e : Element}
      (hkind : e.kind = .unimplemented) :
      LocalName e (((e.attr? "tree_code_name").filter (· != "")).getD e.tag)
  | plain
      {e : Element}
      (hkind : e.kind ∈ plainKinds) :
      LocalName e e.name

/-- The spelling of an element depends on its scope. -/
def Scoped
    (e : Element) :
    Prop :=
  (∃ name, LocalName e name) ∨ e.kind.isRecord = true

/-- The id has the spelling. -/
inductive Spells
    (n : Namer) :
    String → String → Prop
  | globalSpace
      {id : String} {e : Element}
      (he : n.index.find? id = some e)
      (hkind : e.kind = .space)
      (hname : e.name = "::") :
      Spells n id ""
  | declared
      {id name scope : String} {e : Element} {context : Option String}
      (he : n.index.find? id = some e)
      (hname : LocalName e name)
      (hcontext : NearestContext n.index e.context? context)
      (houter : context = none → scope = "")
      (hscope : ∀ cid, context = some cid → Spells n cid scope) :
      Spells n id (Name.qualify scope name)
  | record
      {id scope : String} {e : Element} {context : Option String}
      (he : n.index.find? id = some e)
      (hkind : e.kind.isRecord = true)
      (hnamed : e.isUnnamed = false)
      (hcontext : NearestContext n.index e.context? context)
      (houter : context = none → scope = "")
      (hscope : ∀ cid, context = some cid → Spells n cid scope) :
      Spells n id (n.normalizer.normalizeScoped n.keepAll (Name.qualify scope e.name))
  | pointer
      {id target pointee : String} {e : Element}
      (he : n.index.find? id = some e)
      (hkind : e.kind = .pointer)
      (htarget : e.attr? "type" = some target)
      (hpointee : Spells n target pointee) :
      Spells n id (String.ofList (Spelling.addDeclarator pointee.toList ['*']))
  | reference
      {id target referent : String} {e : Element}
      (he : n.index.find? id = some e)
      (hkind : e.kind = .reference)
      (htarget : e.attr? "type" = some target)
      (hreferent : Spells n target referent) :
      Spells n id (String.ofList (Spelling.addDeclarator referent.toList ['&']))
  | cvQualified
      {id target underlying : String} {e : Element}
      (he : n.index.find? id = some e)
      (hkind : e.kind = .cvQualified)
      (htarget : e.attr? "type" = some target)
      (hunderlying : Spells n target underlying) :
      Spells n id (String.ofList (Spelling.qualify underlying.toList e.qualifiers))
  | array
      {id target element : String} {e : Element} {dimension : List Char}
      (he : n.index.find? id = some e)
      (hkind : e.kind = .array)
      (htarget : e.attr? "type" = some target)
      (helement : Spells n target element)
      (hdimension : e.arrayDimension = .ok dimension) :
      Spells n id (String.ofList (Spelling.addDeclarator element.toList dimension))
  | functionType
      {id target result : String} {e : Element} {names : List String}
      (he : n.index.find? id = some e)
      (hkind : e.kind = .functionType)
      (htarget : e.attr? "returns" = some target)
      (hresult : Spells n target result)
      (hlength : names.length = e.arguments.length)
      (harguments : ∀ (i : Nat) a s,
        e.arguments[i]? = some a → names[i]? = some s → Spells n a.type s) :
      Spells n id (Spelling.functionSpelling result (Spelling.argumentList names e.ellipsis))
  | methodType
      {id target owner result cls : String} {e : Element} {names : List String}
      (he : n.index.find? id = some e)
      (hkind : e.kind = .methodType)
      (htarget : e.attr? "returns" = some target)
      (hresult : Spells n target result)
      (howner : e.attr? "basetype" = some owner)
      (hcls : Spells n owner cls)
      (hlength : names.length = e.arguments.length)
      (harguments : ∀ (i : Nat) a s,
        e.arguments[i]? = some a → names[i]? = some s → Spells n a.type s) :
      Spells n id (Spelling.methodSpelling result cls (Spelling.argumentList names e.ellipsis)
        (e.flag "const") (e.flag "volatile"))
  | offset
      {id target owner type cls : String} {e : Element}
      (he : n.index.find? id = some e)
      (hkind : e.kind = .offset)
      (htarget : e.attr? "type" = some target)
      (htype : Spells n target type)
      (howner : e.attr? "basetype" = some owner)
      (hcls : Spells n owner cls) :
      Spells n id (type ++ " " ++ cls ++ "::*")
  | fundamental
      {id : String} {e : Element}
      (he : n.index.find? id = some e)
      (hkind : e.kind = .fundamental) :
      Spells n id (n.normalizer.normalize false e.name)
  | file
      {id : String} {e : Element}
      (he : n.index.find? id = some e)
      (hkind : e.kind = .file) :
      Spells n id e.name
  | derived
      {id base underlying : String} {q : Qualifiers}
      (he : n.index.find? id = none)
      (hbase : Spelling.qualifiedId? id = some (base, q))
      (hunderlying : Spells n base underlying) :
      Spells n id (String.ofList (Spelling.qualify underlying.toList q))

/-- The spelling of the first id asks for the spelling of the second. -/
inductive Refers
    (n : Namer) :
    String → String → Prop
  | target
      {id dep : String} {e : Element}
      (he : n.index.find? id = some e)
      (hkind : e.kind ∈ [.pointer, .reference, .cvQualified, .array, .offset])
      (hattr : e.attr? "type" = some dep) :
      Refers n id dep
  | result
      {id dep : String} {e : Element}
      (he : n.index.find? id = some e)
      (hkind : e.kind ∈ [.functionType, .methodType])
      (hattr : e.attr? "returns" = some dep) :
      Refers n id dep
  | owner
      {id dep : String} {e : Element}
      (he : n.index.find? id = some e)
      (hkind : e.kind ∈ [.methodType, .offset])
      (hattr : e.attr? "basetype" = some dep) :
      Refers n id dep
  | argument
      {id : String} {e : Element} {a : Argument}
      (he : n.index.find? id = some e)
      (hkind : e.kind ∈ [.functionType, .methodType])
      (hmem : a ∈ e.arguments) :
      Refers n id a.type
  | scope
      {id dep : String} {e : Element}
      (he : n.index.find? id = some e)
      (hscoped : Scoped e)
      (hcontext : NearestContext n.index e.context? (some dep)) :
      Refers n id dep
  | base
      {id dep : String} {q : Qualifiers}
      (he : n.index.find? id = none)
      (hbase : Spelling.qualifiedId? id = some (dep, q)) :
      Refers n id dep

end Namer
end TypeCatalog
