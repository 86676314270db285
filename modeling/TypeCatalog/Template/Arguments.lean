import TypeCatalog.Name
import TypeCatalog.Text.Blank

/-!
# Template arguments of a spelling

**Input.** A spelling such as `map<int,vector<int> >::iterator`.

**Rule.** The argument list opens at the first `<` outside parentheses and closes at the last `>`.
It is cut at its top-level commas, and every argument is trimmed. A blank list has no arguments.

**Results.**
* `joinWith_cutCommas`: the uncut list is its pieces joined with commas.
* `instance?_cases`: the parts of a spelling, with the brackets between them, are the spelling.
* `length_le_of_mem_arguments`, `length_inner_lt`: an argument is shorter than the spelling, which
  lets a recursion go into the arguments.
-/

namespace TypeCatalog
namespace Template

open Text Name

/-- The pieces of a text between the commas at the top of the nesting `n`. -/
def cutCommas : Nesting → List Char → List (List Char)
  | _, [] => [[]]
  | n, c :: cs =>
      if c = ',' ∧ n.isTop then [] :: cutCommas n cs else consHead c (cutCommas (n.step c) cs)

/-- The arguments of a template argument list. -/
def arguments (list : List Char) : List (List Char) :=
  if (trim list).isEmpty then [] else (cutCommas .start list).map trim

/-- The texts before and after the first `<` that stands outside parentheses, `depth` of them
being open at the start. -/
def splitOpen : Int → List Char → Option (List Char × List Char)
  | _, [] => none
  | depth, c :: cs =>
      if c = '<' ∧ depth = 0 then some ([], cs)
      else
        (splitOpen (if c = '(' then depth + 1 else if c = ')' then depth - 1 else depth) cs).map
          fun (before, after) => (c :: before, after)

/-- A spelling with a template argument list. -/
structure Instance where
  /-- The text before the opening `<`. -/
  template : List Char
  /-- The text between the brackets. -/
  inner : List Char
  /-- The text after the closing `>`. -/
  suffix : List Char
  /-- Whether there is a closing `>`; without one, the text after the opening bracket is in no
  field. -/
  closed : Bool

/-- The template argument list of a spelling, if it opens one. -/
def instance? (name : List Char) : Option Instance :=
  match splitOpen 0 name with
  | none => none
  | some (template, after) =>
      match splitLast '>' after with
      | some (inner, suffix) => some ⟨template, inner, suffix, true⟩
      | none => some ⟨template, [], [], false⟩

/-- The arguments between the opening `<` and the last `>` of a spelling. -/
def argumentsOf (name : List Char) : List (List Char) :=
  match instance? name with
  | some i => arguments i.inner
  | none => []

theorem cutCommas_ne_nil (n : Nesting) (cs : List Char) : cutCommas n cs ≠ [] := by
  cases cs with
  | nil => simp [cutCommas]
  | cons c cs =>
    rw [cutCommas]
    split
    · simp
    · exact consHead_ne_nil _ _

theorem joinWith_cutCommas (n : Nesting) (cs : List Char) :
    joinWith "," (cutCommas n cs) = cs := by
  induction cs generalizing n with
  | nil => rfl
  | cons c cs ih =>
    rw [cutCommas]
    split
    · next h =>
      have hne := cutCommas_ne_nil n cs
      cases hp : cutCommas n cs with
      | nil => exact absurd hp hne
      | cons p ps =>
        have := ih n
        rw [hp] at this
        rw [← this]
        simp [joinWith, List.intercalate, List.intersperse, h.1]
    · rw [joinWith_consHead _ _ (cutCommas_ne_nil _ _), ih]

theorem length_le_of_mem_arguments {list arg : List Char} (h : arg ∈ arguments list) :
    arg.length ≤ list.length := by
  unfold arguments at h
  split at h
  · simp at h
  · obtain ⟨piece, hpiece, rfl⟩ := List.mem_map.mp h
    have hlen := length_le_of_mem_joinWith "," hpiece
    rw [joinWith_cutCommas] at hlen
    exact Nat.le_trans (length_trim_le piece) hlen

theorem splitOpen_eq_some {depth : Int} {name before after : List Char}
    (h : splitOpen depth name = some (before, after)) : name = before ++ '<' :: after := by
  induction name generalizing depth before with
  | nil => simp [splitOpen] at h
  | cons c cs ih =>
    rw [splitOpen] at h
    split at h
    · next hc =>
      obtain ⟨rfl, rfl⟩ := Prod.mk.inj (Option.some.inj h)
      simp [hc.1]
    · obtain ⟨⟨b, a⟩, hba, heq⟩ := Option.map_eq_some_iff.mp h
      obtain ⟨rfl, rfl⟩ := Prod.mk.inj heq
      rw [ih hba]
      rfl

/-- A spelling is made of the parts that are read from it; without a closing bracket, nothing is read
from the text after the opening one. -/
theorem instance?_cases {name : List Char} {i : Instance} (h : instance? name = some i) :
    i.closed = true ∧ '>' ∉ i.suffix ∧ name = i.template ++ '<' :: (i.inner ++ '>' :: i.suffix) ∨
      i.closed = false ∧ i.inner = [] ∧ i.suffix = [] ∧
        ∃ after, '>' ∉ after ∧ name = i.template ++ '<' :: after := by
  unfold instance? at h
  split at h
  · cases h
  · next template after hopen =>
    have hname := splitOpen_eq_some hopen
    split at h
    · next inner suffix hclose =>
      obtain ⟨hafter, hsuffix⟩ := splitLast_eq_some hclose
      obtain rfl := Option.some.inj h
      exact .inl ⟨rfl, hsuffix, by rw [hname, hafter]⟩
    · next hclose =>
      obtain rfl := Option.some.inj h
      exact .inr ⟨rfl, rfl, rfl, after, splitLast_eq_none hclose, hname⟩

/-- The text between the brackets is shorter than the spelling. -/
theorem length_inner_lt {name : List Char} {i : Instance} (h : instance? name = some i) :
    i.inner.length < name.length := by
  rcases instance?_cases h with ⟨-, -, hname⟩ | ⟨-, hinner, -, after, -, hname⟩
  · rw [hname]
    simp only [List.length_append, List.length_cons]
    omega
  · rw [hinner, hname]
    simp only [List.length_append, List.length_cons, List.length_nil]
    omega

end Template
end TypeCatalog
