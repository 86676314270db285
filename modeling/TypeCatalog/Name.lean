import TypeCatalog.Text.Nesting
import TypeCatalog.Text.Search

/-!
# Qualified names

**Input.** A name whose components are separated by `::`. The global scope is the empty name.

**Rule.** A separator inside `<...>` or `(...)` belongs to a template argument or a signature and
does not separate components.

**Results.**
* `joinWith_pieces`: the pieces of a text joined with `::` are the text again.
* `length_le_of_mem_pieces`: no piece is longer than the text.
-/

namespace TypeCatalog
namespace Name

open Text

/-- Puts a character in front of the first piece. -/
def consHead (c : Char) : List (List Char) → List (List Char)
  | [] => [[c]]
  | p :: ps => (c :: p) :: ps

/-- The pieces between the separators that stand at the top of the nesting `n`. -/
def pieces : Nesting → List Char → List (List Char)
  | _, [] => [[]]
  | n, ':' :: ':' :: cs =>
      if n.isTop then [] :: pieces n cs else consHead ':' (pieces n (':' :: cs))
  | n, c :: cs => consHead c (pieces (n.step c) cs)

/-- The top-level components of a qualified name. -/
def components (name : String) : List String :=
  (pieces .start name.toList).map String.ofList

/-- A local name inside a scope. -/
def qualify (scope name : String) : String :=
  if scope.isEmpty then name else scope ++ "::" ++ name

/-- The name relative to `scope`; a name that is not inside `scope` is kept whole. -/
def relativeTo (scope name : String) : String :=
  if scope.isEmpty then name
  else
    match stripPrefix (scope.toList ++ [':', ':']) name.toList with
    | some rest => String.ofList rest
    | none => name

/-- Everything before the last top-level separator; empty for a name of one component. -/
def enclosing (name : String) : String :=
  String.ofList (joinWith "::" (pieces .start name.toList).dropLast)

theorem consHead_ne_nil (c : Char) (ps : List (List Char)) : consHead c ps ≠ [] := by
  cases ps <;> simp [consHead]

theorem pieces_ne_nil (n : Nesting) (cs : List Char) : pieces n cs ≠ [] := by
  fun_cases pieces n cs <;> simp_all [consHead_ne_nil]

theorem joinWith_consHead (sep : String) (c : Char) {ps : List (List Char)} (h : ps ≠ []) :
    joinWith sep (consHead c ps) = c :: joinWith sep ps := by
  match ps, h with
  | [p], _ => simp [consHead, joinWith]
  | p :: q :: ps, _ => simp [consHead, joinWith, List.intercalate, List.intersperse]

theorem joinWith_pieces (n : Nesting) (cs : List Char) : joinWith "::" (pieces n cs) = cs := by
  fun_induction pieces n cs with
  | case1 => rfl
  | case2 n cs h ih =>
    have hne := pieces_ne_nil n cs
    cases hp : pieces n cs with
    | nil => exact absurd hp hne
    | cons p ps =>
      rw [hp] at ih
      rw [← ih]
      simp [joinWith, List.intercalate, List.intersperse]
  | case3 n cs h ih => rw [joinWith_consHead _ _ (pieces_ne_nil _ _), ih]
  | case4 n c cs h ih => rw [joinWith_consHead _ _ (pieces_ne_nil _ _), ih]

theorem length_le_of_mem_joinWith (sep : String) {ps : List (List Char)} {p : List Char}
    (h : p ∈ ps) : p.length ≤ (joinWith sep ps).length := by
  induction ps with
  | nil => simp at h
  | cons q qs ih =>
    cases qs with
    | nil =>
      simp only [List.mem_singleton] at h
      simp [joinWith, h]
    | cons r rs =>
      have hcons : joinWith sep (q :: r :: rs) = q ++ sep.toList ++ joinWith sep (r :: rs) := by
        simp [joinWith, List.intercalate, List.intersperse]
      rw [hcons]
      rcases List.mem_cons.mp h with rfl | h
      · simp only [List.length_append]
        omega
      · have := ih h
        simp only [List.length_append]
        omega

theorem length_le_of_mem_pieces {n : Nesting} {cs p : List Char} (h : p ∈ pieces n cs) :
    p.length ≤ cs.length := by
  have := length_le_of_mem_joinWith "::" h
  rwa [joinWith_pieces] at this

end Name
end TypeCatalog
