/-!
# Lexical scopes

**Types.** A scope holds objects by name, in ascending order of the names, and may stand within an
outer scope. An object may carry the scope that it opens. Scopes are values: an object entered into
a scope is not seen by scopes made from it before.

**Rules.** A name is entered once per scope. `resolve` looks from the inside outwards.
-/

namespace TypeCatalog

/-- What an object of a scope names. -/
inductive ObjectKind where
  | bad
  | type
  | var
  | func
  | space
deriving DecidableEq

/-- The display name of an object's kind. -/
def ObjectKind.name : ObjectKind → String
  | .bad => "bad"
  | .type => "type"
  | .var => "var"
  | .func => "func"
  | .space => "namespace"

/-- The kind with a given display name. -/
def ObjectKind.ofName? (text : String) : Option ObjectKind :=
  [ObjectKind.bad, .type, .var, .func, .space].find? fun k => k.name == text

mutual

/-- A named object. -/
inductive ScopeObject where
  | mk (kind : ObjectKind) (name : String) (opens : Option Scope)

/-- A table of objects, at the outside or within another scope. -/
inductive Scope where
  | outermost (objects : List ScopeObject)
  | within (outer : Scope) (objects : List ScopeObject)

end

namespace ScopeObject

/-- What the object names. -/
def kind : ScopeObject → ObjectKind
  | mk k _ _ => k

/-- The object's name. -/
def name : ScopeObject → String
  | mk _ n _ => n

/-- The scope that the object opens. -/
def opens : ScopeObject → Option Scope
  | mk _ _ s => s

end ScopeObject

namespace Scope

/-- The empty scope. -/
def empty : Scope := outermost []

/-- The objects of this scope alone, in ascending order of their names. -/
def objects : Scope → List ScopeObject
  | outermost objs => objs
  | within _ objs => objs

/-- The enclosing scope. -/
def outer? : Scope → Option Scope
  | outermost _ => none
  | within outer _ => some outer

/-- The scope with other objects. -/
def withObjects : Scope → List ScopeObject → Scope
  | outermost _, objs => outermost objs
  | within outer _, objs => within outer objs

/-- An empty scope within this one. -/
def child (s : Scope) : Scope := within s []

/-- The object of a name in this scope alone. -/
def lookup (s : Scope) (name : String) : Option ScopeObject :=
  s.objects.find? fun o => o.name == name

/-- The object of a name in this scope or the nearest enclosing one that has it. -/
def resolve (name : String) : Scope → Option ScopeObject
  | outermost objs => objs.find? fun o => o.name == name
  | within outer objs =>
      match objs.find? fun o => o.name == name with
      | some o => some o
      | none => outer.resolve name

/-- Enters an object among others, before the first one with a larger name. -/
def enter (o : ScopeObject) : List ScopeObject → List ScopeObject
  | [] => [o]
  | p :: ps => if o.name < p.name then o :: p :: ps else p :: enter o ps

/-- Enters an object whose name is new. A name that is present keeps its object, which is given
back. -/
def insert (s : Scope) (o : ScopeObject) : Option ScopeObject × Scope :=
  match s.lookup o.name with
  | some existing => (some existing, s)
  | none => (none, s.withObjects (enter o s.objects))

/-- The names in this scope alone, in ascending order. -/
def names (s : Scope) : List String := s.objects.map (·.name)

/-- The spellings of the builtin types. -/
def builtinTypes : List String :=
  ["void", "bool", "char", "signed char", "unsigned char", "wchar_t", "short", "unsigned short",
   "int", "unsigned int", "long", "unsigned long", "long long", "unsigned long long", "float",
   "double", "long double", "float complex", "double complex", "long double complex"]

/-- The builtin environment: the builtin types, `sizeof`, and `std`, which opens a scope within
the rest of the environment. -/
def builtins : Scope :=
  let types := builtinTypes.foldl (fun s n => (s.insert (.mk .type n none)).2) empty
  let base := (types.insert (.mk .func "sizeof" none)).2
  (base.insert (.mk .space "std" (some base.child))).2

/-- The text of a scope: one line per object. -/
def display (s : Scope) : String :=
  let lines := s.objects.map fun o => "\t" ++ o.kind.name ++ " " ++ o.name ++ "\n"
  "scope \x7b\n" ++ String.join lines ++ "\x7d"

end Scope
end TypeCatalog
