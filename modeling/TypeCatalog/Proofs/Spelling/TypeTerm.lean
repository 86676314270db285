import TypeCatalog.Proofs.Spelling.Brackets

/-!
# Types as terms, and where a declarator goes

**Types.** A term is a type built from names by pointers, references, qualifiers, arrays, functions,
methods and member pointers. Its spelling is built bottom up by the same functions that spell the
elements of a document.

**Rule.** The place of a term says where the next declarator goes into its spelling. A term has no
place when the declarator would end up in a part of the spelling that does not belong to it: in the
result of a function that is itself spelled with parentheses, in the type of a member pointer, or in
the arguments behind a qualified pointer to a method. A term is clear when its outermost part is
written where it belongs: a declarator at the place of its target, qualifiers behind the declarator
of their target or before a mere name, and arguments other than a single `void`. Nothing is asked of
the parts inside.

The places and the spelling of a term are computed, so a term can be tried out.
-/

namespace TypeCatalog

open Text Spelling

/-- A type. -/
inductive TypeTerm where
  | named (name : List Char)
  | pointer (target : TypeTerm)
  | reference (target : TypeTerm)
  | qualified (q : Qualifiers) (target : TypeTerm)
  | array (bound : Option UInt64) (element : TypeTerm)
  | function (result : TypeTerm) (args : List TypeTerm) (ellipsis : Bool)
  | method (result cls : TypeTerm) (args : List TypeTerm) (ellipsis isConst isVolatile : Bool)
  | member (type cls : TypeTerm)

namespace TypeTerm

/-- The text of an array's dimension. -/
def dimensionText :
    Option UInt64 → List Char
  | some n => '[' :: decimal n.toNat ++ [']']
  | none => ['[', ']']

/-- The arguments, and the ellipsis after them. -/
def withEllipsis
    (args : List (List Char)) (ellipsis : Bool) :
    List (List Char) :=
  if ellipsis then args ++ ["...".toList] else args

/-- The text of a list of arguments. -/
def argumentText
    (args : List (List Char)) (ellipsis : Bool) :
    List Char :=
  if withEllipsis args ellipsis = [] then "void".toList
  else joinWith ", " (withEllipsis args ellipsis)

/-- The qualifiers of a method. -/
def methodWords
    (isConst isVolatile : Bool) :
    List Char :=
  (if isConst then " const".toList else []) ++ (if isVolatile then " volatile".toList else [])

/-- A text with a group in it. -/
def box
    (before inner after : List Char) :
    List Char :=
  before ++ '(' :: inner ++ ')' :: after

/-- The arguments and qualifiers that end the spelling of a function or method. -/
def callText
    (args : List Char) (isConst isVolatile : Bool) :
    List Char :=
  '(' :: args ++ ')' :: methodWords isConst isVolatile

mutual

/-- The spelling of a term. -/
def spelling :
    TypeTerm → List Char
  | named name => name
  | pointer t => addDeclarator t.spelling ['*']
  | reference t => addDeclarator t.spelling ['&']
  | qualified q t => qualify t.spelling q
  | array bound t => addDeclarator t.spelling (dimensionText bound)
  | function r args ellipsis =>
      box r.spelling [] (callText (argumentText (spellings args) ellipsis) false false)
  | method r cls args ellipsis isConst isVolatile =>
      box r.spelling (cls.spelling ++ [':', ':'])
        (callText (argumentText (spellings args) ellipsis) isConst isVolatile)
  | member t cls => t.spelling ++ ' ' :: cls.spelling ++ [':', ':', '*']

/-- The spellings of several terms. -/
def spellings :
    List TypeTerm → List (List Char)
  | [] => []
  | t :: ts => t.spelling :: spellings ts

end

/-- The characters that names do not have. -/
def marks :
    List Char :=
  ['(', ')', '[', ']', '*', '&', ',', '<', '>', '.']

/-- Whether a character is one that names do not have. -/
def isMark
    (c : Char) :
    Bool :=
  marks.contains c

/-- The words of one or more qualifiers, in the order in which they are written. -/
def wordTexts :
    List (List Char) :=
  ["const", "volatile", "restrict", "const volatile", "const restrict", "volatile restrict",
    "const volatile restrict"].map String.toList

/-- A text without marks that ends in no colon, as names with `::` between them and builtin spellings
are. -/
structure PlainText
    (name : List Char) :
    Prop where
  ne_nil : name ≠ []
  unmarked : ∀ c ∈ name, isMark c = false
  last : name.getLast? ≠ some ':'

/-- No group of the text takes a declarator and it has no dimension: a declarator goes to its end. -/
def isOpen
    (s : List Char) :
    Bool :=
  (group? s).isNone && !s.contains '['

/-- Where the next declarator goes into a spelling. -/
inductive Place where
  | atEnd
  /-- Before the dimensions at the end. -/
  | beforeDimensions
  | inEmptyGroup
  /-- At the end of a group that begins with a declarator. -/
  | inGroup
  | inMemberGroup
  /-- At the end of a group with a class and declarators. -/
  | inMemberPointer
  /-- Before the dimensions in the group of an array of functions or methods. -/
  | amidDimensions
  /-- Before dimensions that follow the group of a pointer. A dimension would not belong there. -/
  | behindPointer
  | nowhere
deriving DecidableEq

namespace Place

/-- The place after a pointer or reference declarator in the spelling. -/
def pointed
    (s : List Char) :
    Place → Place
  | beforeDimensions => if s.contains '(' then behindPointer else inGroup
  | inEmptyGroup => inGroup
  | inMemberGroup => inMemberPointer
  | amidDimensions => behindPointer
  | p => p

/-- The place after qualifiers. -/
def qualified :
    Place → Place
  | inMemberPointer => nowhere
  | p => p

/-- The place after a dimension in the spelling. -/
def dimensioned
    (s : List Char) :
    Place → Place
  | atEnd => beforeDimensions
  | inEmptyGroup | inMemberGroup | inMemberPointer =>
      if (s.takeWhile (· != '(')).contains '[' then nowhere else amidDimensions
  | behindPointer => nowhere
  | p => p

end Place

/-- The place of a term. -/
def place :
    TypeTerm → Place
  | named _ => .atEnd
  | pointer t => t.place.pointed t.spelling
  | reference t => t.place.pointed t.spelling
  | qualified q t =>
      if qualifierWords q = [] then t.place
      else if isOpen (qualified q t).spelling then .atEnd
      else t.place.qualified
  | array _ t => t.place.dimensioned t.spelling
  | function r args ellipsis =>
      if isOpen (function r args ellipsis).spelling then .atEnd
      else if r.spelling.contains '(' then .nowhere
      else .inEmptyGroup
  | method r cls args ellipsis isConst isVolatile =>
      if isOpen (method r cls args ellipsis isConst isVolatile).spelling then .atEnd
      else if r.spelling.contains '(' || cls.spelling.any isMark then .nowhere
      else .inMemberGroup
  | member t cls => if isOpen (member t cls).spelling then .atEnd else .nowhere

/-- Every name in the term is a plain text. -/
inductive Plain :
    TypeTerm → Prop
  | named
      {name : List Char}
      (hname : PlainText name) :
      Plain (.named name)
  | pointer
      {t : TypeTerm}
      (ht : Plain t) :
      Plain (.pointer t)
  | reference
      {t : TypeTerm}
      (ht : Plain t) :
      Plain (.reference t)
  | qualified
      {q : Qualifiers} {t : TypeTerm}
      (ht : Plain t) :
      Plain (.qualified q t)
  | array
      {bound : Option UInt64} {t : TypeTerm}
      (ht : Plain t) :
      Plain (.array bound t)
  | function
      {r : TypeTerm} {args : List TypeTerm} {ellipsis : Bool}
      (hr : Plain r)
      (hargs : ∀ a ∈ args, Plain a) :
      Plain (.function r args ellipsis)
  | method
      {r cls : TypeTerm} {args : List TypeTerm} {ellipsis isConst isVolatile : Bool}
      (hr : Plain r)
      (hcls : Plain cls)
      (hargs : ∀ a ∈ args, Plain a) :
      Plain (.method r cls args ellipsis isConst isVolatile)
  | member
      {t cls : TypeTerm}
      (ht : Plain t)
      (hcls : Plain cls) :
      Plain (.member t cls)

/-- The words before the text do not go on in it: with the words that it begins with, if any, they
are not the words of qualifiers. -/
def Apart
    (words s : List Char) :
    Prop :=
  ∀ w ∈ wordTexts, words ++ ' ' :: w ∈ wordTexts → ∀ rest, s ≠ w ++ ' ' :: rest

/-- Qualifiers of the term follow its own declarator, or precede a mere name. -/
def TakesWords
    (words : List Char) (t : TypeTerm) :
    Prop :=
  endsDeclarator t.spelling = true ∨
    (t.place ≠ .nowhere ∧ ∃ g, group? t.spelling = some g ∧ endsDeclarator g.inner = true) ∨
    (∀ c ∈ t.spelling, isMark c = false) ∧ Apart words t.spelling

/-- The outermost part of the term is written where it belongs. The parts inside may be spelled in
any way. -/
def Clear :
    TypeTerm → Prop
  | named _ => True
  | pointer t => t.place ≠ .nowhere
  | reference t => t.place ≠ .nowhere
  | qualified q t => qualifierWords q ≠ [] ∧ t.TakesWords (qualifierWords q)
  | array _ t => t.place ≠ .nowhere ∧ t.place ≠ .behindPointer
  | function _ args ellipsis => ¬ (spellings args = ["void".toList] ∧ ellipsis = false)
  | method _ _ args ellipsis _ _ => ¬ (spellings args = ["void".toList] ∧ ellipsis = false)
  | member _ cls => ' ' ∉ cls.spelling

example : (TypeTerm.function (.named "X".toList) [] false).place = .inEmptyGroup := by
  decide +kernel

-- the pointer goes into the first group, which belongs to the result of the function
example : (TypeTerm.pointer (.function (.pointer (.function (.named "X".toList) [] false)) []
    false)).spelling = "X(**)(void)()(void)".toList := by
  decide +kernel

/-- A class of characters that has none of the marks. -/
theorem isMark_eq_false_of_class
    {p : Char → Bool} {c : Char}
    (hmarks : ∀ m ∈ marks, p m = false)
    (hc : p c = true) :
    isMark c = false := by
  cases hmark : isMark c with
  | false =>
      rfl
  | true =>
      have hmem : c ∈ marks := by
        simpa only [isMark, List.contains_eq_mem, decide_eq_true_eq] using hmark
      rw [hmarks c hmem] at hc
      cases hc

theorem spellings_eq_map
    (ts : List TypeTerm) :
    spellings ts = ts.map spelling := by
  induction ts with
  | nil =>
      rfl
  | cons t ts ih =>
      rw [spellings, ih, List.map_cons]

end TypeTerm
end TypeCatalog
