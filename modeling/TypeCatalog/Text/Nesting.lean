/-!
# Nesting of brackets in a spelling

**Rule.** Parentheses always nest. An angle bracket nests only outside parentheses, because inside
them `<` and `>` are comparison operators. Both counts may go below zero on unbalanced text.

**Results.**
* `run_append`: the nesting after two texts is that of the second started after the first.
-/

namespace TypeCatalog
namespace Text

/-- How many angle brackets and parentheses are open. -/
structure Nesting where
  angle : Int
  paren : Int
deriving DecidableEq

namespace Nesting

/-- Nothing is open. -/
def start : Nesting := ⟨0, 0⟩

/-- The nesting after one more character. -/
def step (n : Nesting) (c : Char) : Nesting :=
  if c = '(' then ⟨n.angle, n.paren + 1⟩
  else if c = ')' then ⟨n.angle, n.paren - 1⟩
  else if c = '<' ∧ n.paren = 0 then ⟨n.angle + 1, n.paren⟩
  else if c = '>' ∧ n.paren = 0 then ⟨n.angle - 1, n.paren⟩
  else n

/-- The nesting after a text. -/
def run (n : Nesting) (cs : List Char) : Nesting := cs.foldl step n

/-- Whether nothing is open. -/
def isTop (n : Nesting) : Bool := n.angle == 0 && n.paren == 0

@[simp] theorem run_nil (n : Nesting) : n.run [] = n := rfl

@[simp] theorem run_cons (n : Nesting) (c : Char) (cs : List Char) :
    n.run (c :: cs) = (n.step c).run cs := rfl

theorem run_append (n : Nesting) (a b : List Char) : n.run (a ++ b) = (n.run a).run b :=
  List.foldl_append

theorem isTop_iff (n : Nesting) : n.isTop = true ↔ n = start := by
  cases n
  simp [isTop, start]

end Nesting
end Text
end TypeCatalog
