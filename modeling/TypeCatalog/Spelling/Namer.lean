import TypeCatalog.Spelling.Declarator

/-!
# Canonical spelling of the ids of a document

**Input.** The index of a document, and an id.

**Rules.**

| element | spelling |
|---|---|
| global namespace | empty |
| anonymous namespace | `scope::@anonymous@namespace@` |
| unnamed record or enumeration | `scope::@anon@id` |
| pointer, reference, array | the declarator applied to the spelling of the target |
| qualified type | the qualifiers applied to the spelling of the target |
| function type | `R()(A, B)` |
| method type | `R(C::)(A) const` |
| member offset | `T C::*` |
| class, struct, union | the normalized qualified name |

The scope of an element is its nearest context that is a namespace or has a name. An id that is not
defined and ends in qualifier letters is the qualified form of the id without them.

**Algorithm.** Spellings found once are kept in a memo, also when a later one fails. The ids being
spelled form a trail; meeting one of them again is a cyclic reference. An id that is neither defined
nor a qualified form is reported with the innermost other id of the trail.

**Termination.** Every second id of a trail is defined, and none occurs twice, so a trail is at most
twice as long as the index, but for the ends. A climb past contexts without usable names ends unless
these contexts go round in a circle.
-/

namespace TypeCatalog

/-- How the ids of a document are spelled. -/
structure Namer where
  index : Index
  normalizer : Template.Normalizer
  /-- Whether template arguments equal to their defaults are written. -/
  keepAll : Bool

/-- The spellings found so far, by id. -/
abbrev SpellingMemo := Std.TreeMap String String

/-- A computation that may fail and keeps the memo either way. -/
abbrev Spelled (α : Type) := ExceptT DocumentError (StateM SpellingMemo) α

/-- The ids being spelled, the innermost first, and the id that mentions the outermost. -/
structure Trail where
  visiting : List String
  referrer : Option String

namespace Trail

/-- Nothing is being spelled. -/
def start : Trail := ⟨[], none⟩

/-- The trail inside one more id. -/
def enter (t : Trail) (id : String) : Trail := { t with visiting := id :: t.visiting }

/-- The error for an undefined id, which names the innermost other id. -/
def unknown (t : Trail) (id : String) : DocumentError :=
  .unknownId id (((t.visiting ++ t.referrer.toList).find? (· != id)).getD "<query>")

end Trail

namespace Namer

/-- The nearest context that is a namespace or has a name, among at most `bound` contexts. An
undefined context is reported against `owner`.

The climb that is modelled has no bound. One longer than the index never ends, as its contexts go
round in a circle; what is reported when the bound is met stands for no answer. -/
def namedContext? (index : Index) (owner : String) :
    Nat → Option String → Except DocumentError (Option String)
  | _, none => .ok none
  | 0, some _ => .error (.cyclicReference owner)
  | bound + 1, some id =>
      match index.require id owner with
      | .error e => .error e
      | .ok parent =>
          if parent.kind == .space || !parent.isUnnamed then .ok (some id)
          else namedContext? index owner bound parent.context?

/-- The spelling of the scope of an element, given how to spell an id. -/
def scopeOf (n : Namer) (nameOf : String → Spelled String) (e : Element) : Spelled String := do
  match namedContext? n.index e.id (n.index.size + 1) e.context? with
  | .error err => throw err
  | .ok none => return ""
  | .ok (some id) => nameOf id

/-- The spelling of an element, given how to spell the ids it mentions. -/
def spellElement (n : Namer) (nameOf : String → Spelled String) (e : Element) :
    Spelled String := do
  let target := fun (attr : String) => do nameOf (← e.required attr)
  let inScope := fun (name : String) => do return Name.qualify (← n.scopeOf nameOf e) name
  let arguments := do
    return Spelling.argumentList (← e.arguments.mapM fun a => nameOf a.type) e.ellipsis
  match e.kind with
  | .space =>
      if e.name = "::" then return ""
      else inScope (if e.name = "" then "@anonymous@namespace@" else e.name)
  | .classRecord | .structRecord | .unionRecord =>
      if e.isUnnamed then inScope ("@anon@" ++ e.id)
      else return n.normalizer.normalizeScoped n.keepAll (← inScope e.name)
  | .enumeration => inScope (if e.isUnnamed then "@anon@" ++ e.id else e.name)
  | .pointer => do
      let pointee ← target "type"
      return String.ofList (Spelling.addDeclarator pointee.toList ['*'])
  | .reference => do
      let referent ← target "type"
      return String.ofList (Spelling.addDeclarator referent.toList ['&'])
  | .cvQualified => do
      let underlying ← target "type"
      return String.ofList (Spelling.qualify underlying.toList e.qualifiers)
  | .array => do
      let element ← target "type"
      let dimension ← e.arrayDimension
      return String.ofList (Spelling.addDeclarator element.toList dimension)
  | .functionType => do
      let result ← target "returns"
      return Spelling.functionSpelling result (← arguments)
  | .methodType => do
      let result ← target "returns"
      let cls ← target "basetype"
      return Spelling.methodSpelling result cls (← arguments) (e.flag "const") (e.flag "volatile")
  | .offset => do
      let type ← target "type"
      let cls ← target "basetype"
      return type ++ " " ++ cls ++ "::*"
  | .fundamental => return n.normalizer.normalize false e.name
  | .destructor => inScope (if e.name.toList.head? = some '~' then e.name else "~" ++ e.name)
  | .unimplemented => inScope (((e.attr? "tree_code_name").filter (· != "")).getD e.tag)
  | .file => return e.name
  | .spaceAlias | .typedef | .function | .operatorFunction | .method | .operatorMethod
  | .constructor | .converter | .field | .data => inScope e.name

/-- The spelling of an id on a trail, given how to spell the ids it depends on. -/
def spellId (n : Namer) (trail : Trail) (nameOf : String → Spelled String) (id : String) :
    Spelled String := do
  match n.index.find? id with
  | some e => n.spellElement nameOf e
  | none =>
      match Spelling.qualifiedId? id with
      | none => throw (trail.unknown id)
      | some (base, q) => do
          let underlying ← nameOf base
          return String.ofList (Spelling.qualify underlying.toList q)

/-- The spelling of an id on a trail that may become at most `bound` longer. -/
def nameWithin (n : Namer) : Nat → Trail → String → Spelled String
  | 0, _, id => throw (.cyclicReference id)
  | bound + 1, trail, id => do
      match (← get)[id]? with
      | some name => return name
      | none =>
          if trail.visiting.contains id then throw (.cyclicReference id)
          else
            let inner := trail.enter id
            let name ← n.spellId inner (n.nameWithin bound inner) id
            modify (·.insert id name)
            return name

/-- The longest trail that can occur. -/
def bound (n : Namer) : Nat := 2 * n.index.size + 3

/-- The canonical spelling of an id. -/
def typeName (n : Namer) (id : String) : Spelled String := n.nameWithin n.bound .start id

/-- The canonical spelling of an id that `referrer` mentions. -/
def referencedName (n : Namer) (id referrer : String) : Spelled String :=
  n.nameWithin n.bound ⟨[], some referrer⟩ id

/-- The qualified name of the scope that declares an id. -/
def scopeName (n : Namer) (id : String) : Spelled String := do
  match n.index.find? id with
  | some e => n.scopeOf n.typeName e
  | none => throw (Trail.start.unknown id)

end Namer
end TypeCatalog
