/-!
# Qualifiers, specifiers and access

**Types.** Qualifiers and specifiers are bit sets; bits without a name are kept. Access is one of
three levels, public where nothing is said.
-/

namespace TypeCatalog

/-- The qualifiers `const`, `restrict` and `volatile` of a type. -/
structure Qualifiers where
  bits : UInt8
deriving DecidableEq

namespace Qualifiers

/-- No qualifier. -/
def none : Qualifiers := ⟨0⟩

/-- The qualifier `const`. -/
def const : Qualifiers := ⟨1⟩

/-- The qualifier `restrict`. -/
def restrict : Qualifiers := ⟨2⟩

/-- The qualifier `volatile`. -/
def volatile : Qualifiers := ⟨4⟩

/-- All bits of either set. -/
def union (a b : Qualifiers) : Qualifiers := ⟨a.bits ||| b.bits⟩

/-- Whether every bit of `b` is in `a`. -/
def contains (a b : Qualifiers) : Bool := a.bits &&& b.bits == b.bits

/-- `q` when the flag is set, and no qualifier otherwise. -/
def when (flag : Bool) (q : Qualifiers) : Qualifiers := if flag then q else none

/-- The words of the set qualifiers with bars between them, `<none>` for the empty set. -/
def display (q : Qualifiers) : String :=
  if q.bits = 0 then "<none>"
  else
    "|".intercalate
      (([("const", const), ("restrict", restrict), ("volatile", volatile)].filter
        fun p => q.contains p.2).map Prod.fst)

end Qualifiers

/-- Declaration specifiers of functions, variables and types. -/
structure Specifiers where
  bits : UInt32
deriving DecidableEq

namespace Specifiers

/-- No specifier. -/
def none : Specifiers := ⟨0⟩

/-- The specifier with a given bit number. -/
def bit (n : UInt32) : Specifiers := ⟨1 <<< n⟩

/-- A virtual function. -/
def virtual : Specifiers := bit 1

/-- A static function or variable. -/
def static : Specifiers := bit 2

/-- An inline function. -/
def inlined : Specifiers := bit 3

/-- Defined in another unit. -/
def external : Specifiers := bit 4

/-- A constructor. -/
def constructor : Specifiers := bit 8

/-- A destructor. -/
def destructor : Specifiers := bit 9

/-- A constructor that copies. -/
def copyConstructor : Specifiers := bit 10

/-- An operator. -/
def operator : Specifiers := bit 11

/-- A conversion function. -/
def converter : Specifiers := bit 12

/-- Declared inside a class. -/
def method : Specifiers := bit 13

/-- An explicit constructor. -/
def explicit : Specifiers := bit 14

/-- A pure virtual function, or a class that declares one. -/
def abstract : Specifiers := bit 18

/-- Generated by the compiler. -/
def artificial : Specifiers := bit 20

/-- All bits of either set. -/
def union (a b : Specifiers) : Specifiers := ⟨a.bits ||| b.bits⟩

/-- Whether every bit of `b` is in `a`. -/
def contains (a b : Specifiers) : Bool := a.bits &&& b.bits == b.bits

/-- `s` when the flag is set, and no specifier otherwise. -/
def when (flag : Bool) (s : Specifiers) : Specifiers := if flag then s else none

end Specifiers

/-- Access level of a member or base: private, protected or public. -/
inductive Access where
  | priv
  | prot
  | pub
deriving DecidableEq

namespace Access

/-- The level of a member that states none. -/
def default : Access := pub

/-- The keyword of an access level. -/
def keyword : Access → String
  | priv => "private"
  | prot => "protected"
  | pub => "public"

/-- The access level of a keyword; the empty text means the default. -/
def ofKeyword? (text : String) : Option Access :=
  if text = "" then some default
  else if text = "public" then some pub
  else if text = "protected" then some prot
  else if text = "private" then some priv
  else none

/-- The number of an access level. -/
def tag : Access → Nat
  | priv => 0
  | prot => 1
  | pub => 2

/-- The access level with a given number. -/
def ofTag? : Nat → Option Access
  | 0 => some priv
  | 1 => some prot
  | 2 => some pub
  | _ => .none

theorem ofTag?_tag (a : Access) : ofTag? a.tag = some a := by
  cases a <;> rfl

theorem tag_eq_of_ofTag? {n : Nat} {a : Access} (h : ofTag? n = some a) : a.tag = n := by
  unfold ofTag? at h
  split at h <;> simp_all [tag] <;> simp [← h]

end Access
end TypeCatalog
