import TypeCatalog.Document.Repair
import TypeCatalog.Entity.DataType

/-!
# Declarators, qualifiers and array bounds in a spelling

**Input.** The spelling of a type.

**Rules.**
* The first group of parentheses outside template brackets holds the declarator of the type when it
  is empty, begins with `*` or `&`, or is a class qualification followed by `*` and `&` only. A new
  declarator goes to the end of that group.
* Without such a group, a pointer or reference to an array opens one before the dimensions, and an
  array of arrays gets its dimension before the others.
* In all other cases the declarator goes to the end.
* Qualifiers follow the declarator of a pointer or reference, and precede any other type.
-/

namespace TypeCatalog
namespace Spelling

open Text

/-- The texts before and after the first `x` outside template brackets, `depth` of them being
open. -/
def splitTop (x : Char) : Nat → List Char → Option (List Char × List Char)
  | _, [] => none
  | depth, c :: cs =>
      let put := fun (p : List Char × List Char) => (c :: p.1, p.2)
      if c = '<' then (splitTop x (depth + 1) cs).map put
      else if c = '>' then (splitTop x (depth - 1) cs).map put
      else if c = x ∧ depth = 0 then some ([], cs)
      else (splitTop x depth cs).map put

/-- The texts before and after the parenthesis that closes a group, `depth` inner groups being
open. -/
def splitGroup : Nat → List Char → Option (List Char × List Char)
  | _, [] => none
  | depth, c :: cs =>
      let put := fun (p : List Char × List Char) => (c :: p.1, p.2)
      if c = '(' then (splitGroup (depth + 1) cs).map put
      else if c = ')' then
        if depth = 0 then some ([], cs) else (splitGroup (depth - 1) cs).map put
      else (splitGroup depth cs).map put

/-- A spelling cut at its first group of parentheses. -/
structure Group where
  before : List Char
  inner : List Char
  after : List Char

/-- Whether a character is a pointer or reference declarator. -/
def isStarOrAmp (c : Char) : Bool := c == '*' || c == '&'

/-- Whether a text begins with a pointer or reference declarator. -/
def beginsDeclarator (cs : List Char) : Bool := cs.head?.any isStarOrAmp

/-- Whether a text ends in a pointer or reference declarator. -/
def endsDeclarator (cs : List Char) : Bool := cs.getLast?.any isStarOrAmp

/-- Whether the text of a group is a declarator. -/
def isDeclarator (inner : List Char) : Bool :=
  inner.isEmpty || beginsDeclarator inner
    || (match afterLast "::".toList inner with
        | some tail => tail.all isStarOrAmp
        | none => false)

/-- The group of a spelling that holds its declarator. -/
def group? (spelling : List Char) : Option Group :=
  match splitTop '(' 0 spelling with
  | none => none
  | some (before, rest) =>
      match splitGroup 0 rest with
      | none => none
      | some (inner, after) => if isDeclarator inner then some ⟨before, inner, after⟩ else none

/-- Applies a pointer, reference or array declarator to a spelling. -/
def addDeclarator (base decl : List Char) : List Char :=
  match group? base with
  | some g => g.before ++ '(' :: g.inner ++ decl ++ ')' :: g.after
  | none =>
      match splitTop '[' 0 base with
      | some (head, dims) =>
          if decl.head? = some '[' then head ++ decl ++ '[' :: dims
          else head ++ '(' :: decl ++ ')' :: '[' :: dims
      | none => base ++ decl

/-- The words of the set qualifiers. -/
def qualifierWords (q : Qualifiers) : List Char :=
  joinWith " "
    (([(Qualifiers.const, "const"), (.volatile, "volatile"), (.restrict, "restrict")].filter
      fun p => q.contains p.1).map fun p => p.2.toList)

/-- Applies qualifiers to a spelling. -/
def qualify (underlying : List Char) (q : Qualifiers) : List Char :=
  let words := qualifierWords q
  let leading := words ++ ' ' :: underlying
  if words.isEmpty then underlying
  else if endsDeclarator underlying then underlying ++ ' ' :: words
  else
    match group? underlying with
    | some g =>
        if endsDeclarator g.inner then
          g.before ++ '(' :: g.inner ++ ' ' :: words ++ ')' :: g.after
        else leading
    | none => leading

/-- The spelling of a list of arguments. -/
def argumentList (args : List String) (ellipsis : Bool) : String :=
  let all := if ellipsis then args ++ ["..."] else args
  if all.isEmpty then "void" else ", ".intercalate all

/-- The spelling of a function type. -/
def functionSpelling (result args : String) : String := result ++ "()(" ++ args ++ ")"

/-- The spelling of the type of a member function. -/
def methodSpelling (result cls args : String) (isConst isVolatile : Bool) : String :=
  result ++ "(" ++ cls ++ "::)(" ++ args ++ ")" ++ (if isConst then " const" else "")
    ++ (if isVolatile then " volatile" else "")

/-- The base of an id that ends in qualifier letters, and the qualifiers they stand for. -/
def qualifiedId? (id : String) : Option (String × Qualifiers) :=
  let isLetter := fun c => c == 'c' || c == 'v' || c == 'r'
  let base := dropTrailing isLetter id.toList
  let letters := id.toList.drop base.length
  if base.isEmpty || letters.isEmpty then none
  else
    some (String.ofList base,
      letters.foldl
        (fun q c =>
          q.union (if c = 'c' then .const else if c = 'v' then .volatile else .restrict))
        .none)

end Spelling

namespace Element

/-- The number of elements of an array; `none` when the bound is absent or negative. -/
def arrayLength (e : Element) : Except DocumentError (Option UInt64) :=
  let bound := e.boundText
  if bound.isEmpty then .ok none
  else
    match Text.signed64? bound with
    | none => .error (.invalidInteger e.id "max" (String.ofList bound))
    | some n => .ok (if n < 0 then none else some (n.toUInt64 + 1))

/-- The spelling of an array's dimension. -/
def arrayDimension (e : Element) : Except DocumentError (List Char) := do
  match ← e.arrayLength with
  | some n => return '[' :: Text.decimal n.toNat ++ [']']
  | none => return ['[', ']']

end Element
end TypeCatalog
