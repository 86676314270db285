import TypeCatalog.Name

/-!
# Components of a qualified name

**Input.** A scope and a name, which are joined with `::` between them.

**Rule.** The scanner cuts at a separator when nothing is open, and goes on behind its second colon.
So a colon that a scope leaves at its end takes the first colon of what follows it, and the cut is
one character too early. A scope that leaves none, and leaves nothing open, is scanned to its end as
if nothing followed.

**Results.**
* `pieces_cons_of_not_separator`: a character that does not begin a separator goes to the front of
  the first piece.
* `pieces_append_separator`: the pieces of a text with a separator behind it, and of what follows.
* `components_of_qualified_name`: the components of a name make up the name, those of a joined name
  are those of the scope and of the name, and the scope and the name can be taken from it again.
-/

namespace TypeCatalog
namespace Name

open Text

/-- The last piece ends in a colon. -/
def EndsInColon
    (ps : List (List Char)) :
    Prop :=
  ∃ p, ps.getLast? = some p ∧ p.getLast? = some ':'

/-- A scope behind which components can be written: nothing is open at its end, and its last
component does not end in a colon. -/
structure Joinable
    (scope : String) :
    Prop where
  closed : Nesting.start.run scope.toList = .start
  last : ∀ p, (components scope).getLast? = some p → p.toList.getLast? ≠ some ':'

section Pieces

theorem endsInColon_cons
    {p : List Char} {ps : List (List Char)}
    (h : EndsInColon ps) :
    EndsInColon (p :: ps) := by
  obtain ⟨last, hlast, hcolon⟩ := h
  refine ⟨last, ?_, hcolon⟩
  cases ps with
  | nil =>
      cases hlast
  | cons q ps =>
      rwa [List.getLast?_cons_cons]

theorem endsInColon_consHead
    {c : Char} {ps : List (List Char)}
    (h : EndsInColon ps) :
    EndsInColon (consHead c ps) := by
  match ps, h with
  | [p], ⟨last, hlast, hcolon⟩ =>
      obtain rfl : p = last := Option.some.inj hlast
      exact ⟨c :: p, rfl, by simp [List.getLast?_cons, hcolon]⟩
  | p :: q :: ps, ⟨last, hlast, hcolon⟩ =>
      exact ⟨last, by simpa [consHead] using hlast, hcolon⟩

theorem consHead_append
    (c : Char) {ps : List (List Char)} (qs : List (List Char))
    (h : ps ≠ []) :
    consHead c (ps ++ qs) = consHead c ps ++ qs := by
  obtain ⟨p, ps, rfl⟩ := List.exists_cons_of_ne_nil h
  rfl

theorem step_colon
    (n : Nesting) :
    n.step ':' = n := by
  simp [Nesting.step]

/-- A character that does not begin a separator goes to the front of the first piece. -/
theorem pieces_cons_of_not_separator
    {n : Nesting} {c : Char} {cs : List Char}
    (h : ¬ (n.isTop = true ∧ c = ':' ∧ cs.head? = some ':')) :
    pieces n (c :: cs) = consHead c (pieces (n.step c) cs) := by
  by_cases hcolons : c = ':' ∧ cs.head? = some ':'
  · obtain ⟨rfl, hhead⟩ := hcolons
    obtain ⟨cs, rfl⟩ := List.head?_eq_some_iff.mp hhead
    have hnested : n.isTop = false :=
      Bool.eq_false_iff.mpr fun htop => h ⟨htop, rfl, rfl⟩
    rw [pieces, hnested, step_colon]
    rfl
  · rw [pieces]
    rintro cs' rfl rfl
    exact hcolons ⟨rfl, rfl⟩

/-- The pieces of a text with a separator behind it are those of the text and of what follows. -/
theorem pieces_append_separator
    {n : Nesting} {w : List Char} (rest : List Char)
    (hclosed : n.run w = .start)
    (hlast : ¬ EndsInColon (pieces n w)) :
    pieces n (w ++ ':' :: ':' :: rest) = pieces n w ++ pieces .start rest := by
  fun_induction pieces n w with
  | case1 n =>
      obtain rfl : n = .start := hclosed
      rfl
  | case2 n w htop ih =>
      rw [Nesting.run_cons, Nesting.run_cons, step_colon, step_colon] at hclosed
      rw [List.cons_append, List.cons_append, pieces, if_pos htop,
        ih hclosed fun h => hlast (endsInColon_cons h)]
      rfl
  | case3 n w htop ih =>
      rw [Nesting.run_cons, step_colon] at hclosed
      rw [List.cons_append, List.cons_append, pieces, if_neg htop, ← List.cons_append,
        ih hclosed fun h => hlast (endsInColon_consHead h),
        consHead_append _ _ (pieces_ne_nil _ _)]
  | case4 n c w hno ih =>
      -- a colon that meets the separator would be at the end of the last piece
      have hcut : ¬ (n.isTop = true ∧ c = ':' ∧ (w ++ ':' :: ':' :: rest).head? = some ':') := by
        rintro ⟨-, rfl, hhead⟩
        cases w with
        | nil =>
            exact hlast ⟨[':'], rfl, rfl⟩
        | cons d w =>
            obtain rfl : d = ':' := Option.some.inj hhead
            exact hno w rfl rfl
      rw [Nesting.run_cons] at hclosed
      rw [List.cons_append, pieces_cons_of_not_separator hcut,
        ih hclosed fun h => hlast (endsInColon_consHead h),
        consHead_append _ _ (pieces_ne_nil _ _)]

end Pieces

section Names

theorem toList_qualify
    {scope : String} (name : String)
    (h : scope ≠ "") :
    (qualify scope name).toList = scope.toList ++ ':' :: ':' :: name.toList := by
  rw [qualify, if_neg (by simpa using h)]
  simp

theorem intercalate_components
    (name : String) :
    "::".intercalate (components name) = name := by
  rw [← String.toList_inj, String.toList_intercalate, components, List.map_map]
  have hid : String.toList ∘ String.ofList = id := by
    funext cs
    exact String.toList_ofList
  rw [hid, List.map_id]
  exact joinWith_pieces .start name.toList

theorem Joinable.not_endsInColon
    {scope : String}
    (h : Joinable scope) :
    ¬ EndsInColon (pieces .start scope.toList) := by
  rintro ⟨p, hlast, hcolon⟩
  refine h.last (String.ofList p) ?_ (by rwa [String.toList_ofList])
  rw [components, List.getLast?_map, hlast]
  rfl

/-- The pieces of a name in a scope are those of the scope and of the name. -/
theorem Joinable.pieces_qualify
    {scope : String} (name : String)
    (h : Joinable scope)
    (hne : scope ≠ "") :
    pieces .start (qualify scope name).toList =
      pieces .start scope.toList ++ pieces .start name.toList := by
  rw [toList_qualify name hne]
  exact pieces_append_separator _ h.closed h.not_endsInColon

/-- What encloses a single component in a scope is the scope. -/
theorem Joinable.enclosing_qualify
    {scope name : String}
    (h : Joinable scope)
    (hne : scope ≠ "")
    (hone : (components name).length = 1) :
    enclosing (qualify scope name) = scope := by
  rw [components, List.length_map] at hone
  obtain ⟨p, hp⟩ := List.length_eq_one_iff.mp hone
  rw [enclosing, h.pieces_qualify name hne, hp, List.dropLast_concat, joinWith_pieces,
    String.ofList_toList]

theorem relativeTo_qualify
    (scope name : String) :
    relativeTo scope (qualify scope name) = name := by
  by_cases h : scope = ""
  · subst h
    rfl
  · have hfront : stripPrefix (scope.toList ++ [':', ':']) (qualify scope name).toList =
        some name.toList := by
      rw [stripPrefix_eq_some_iff, toList_qualify name h]
      simp
    rw [relativeTo, if_neg (by simpa using h), hfront]
    exact String.ofList_toList

end Names

/-- The components of a name, joined with `::`, are the name. Behind a scope that can be joined, the
components of a name are those of the scope and of the name, and what encloses a single component is
the scope. A name in a scope is the name again relative to the scope. -/
theorem components_of_qualified_name
    (scope name : String) :
    "::".intercalate (components name) = name ∧
    (scope ≠ "" → Joinable scope →
      components (qualify scope name) = components scope ++ components name ∧
      ((components name).length = 1 → enclosing (qualify scope name) = scope)) ∧
    relativeTo scope (qualify scope name) = name := by
  refine ⟨intercalate_components name, fun hne h => ⟨?_, h.enclosing_qualify hne⟩,
    relativeTo_qualify scope name⟩
  rw [components, h.pieces_qualify name hne, List.map_append]
  rfl

/-- A name behind an instance with a comparison among its arguments. -/
theorem components_behind_comparison :
    Joinable "ns::B<(1<2)>" ∧
      components (qualify "ns::B<(1<2)>" "f(a::b)::c") = ["ns", "B<(1<2)>", "f(a::b)", "c"] ∧
      enclosing (qualify "ns::B<(1<2)>" "f(a::b)") = "ns::B<(1<2)>" := by
  have hscope : components "ns::B<(1<2)>" = ["ns", "B<(1<2)>"] := by
    decide +kernel
  have hjoin : Joinable "ns::B<(1<2)>" := by
    refine ⟨by decide +kernel, fun p hp => ?_⟩
    rw [hscope] at hp
    cases hp
    decide +kernel
  refine ⟨hjoin, ?_, ?_⟩
  · rw [((components_of_qualified_name _ _).2.1 (by decide) hjoin).1, hscope]
    decide +kernel
  · exact ((components_of_qualified_name _ _).2.1 (by decide) hjoin).2 (by decide +kernel)

-- a colon at the end of the scope takes one of the separator
example : components (qualify "a:" "b") = ["a", ":b"] := by
  decide +kernel

end Name
end TypeCatalog
