import TypeCatalog.Proofs.Spelling.Formation

/-!
# Types that meet in one spelling

**Input.** A term whose names are plain and that is not clear.

**Rule.** A declarator goes into the first group or before the first dimension, which may be those of
the result of a function or of the type of a member. Qualifiers that follow no declarator go to the
front. In either case the outermost part is written where that of a part inside would be.

**Results.**
* `Sound.addDeclarator_append`: a declarator goes into a part that takes one, whatever follows.
* `spelling_pointer_function`, `spelling_pointer_method`, `spelling_pointer_member`: a pointer to a
  function is spelled like a function with a pointer as its result, and so on.
* `spelling_qualified_function`, `spelling_qualified_array`: a qualified function is spelled like a
  function with a qualified result, and a qualified array like an array of qualified elements.
* `spelling_void`: an argument `void` is spelled like no arguments.
-/

namespace TypeCatalog

open Text Spelling

namespace TypeTerm

section Declarators

theorem box_eq_append
    (before inner after : List Char) :
    box before inner after = before ++ ('(' :: (inner ++ ')' :: after)) := by
  simp [box]

/-- A declarator goes into a text that takes one in a group or before dimensions, whatever follows. -/
theorem Sound.addDeclarator_append
    {s rest : List Char}
    (h : Sound s)
    (hopen : isOpen s = false)
    (hrest : '(' ∈ s ∨ '(' ∉ rest) (decl : List Char) :
    Spelling.addDeclarator (s ++ rest) decl = Spelling.addDeclarator s decl ++ rest := by
  cases hgroup : group? s with
  | some g =>
      have hparen : '(' ∈ s := by
        rw [(group?_eq_some_iff.mp hgroup).1]
        simp [box]
      have hmore := group?_append h.closed.balanced h.angle hparen rest
      rw [hgroup, Option.map_some] at hmore
      simp [Spelling.addDeclarator, hgroup, hmore]
  | none =>
      have hmore : group? (s ++ rest) = none := by
        by_cases hparen : '(' ∈ s
        · rw [group?_append h.closed.balanced h.angle hparen, hgroup]
          rfl
        · refine group?_eq_none ?_
          simpa [hparen] using hrest
      have hsquare : '[' ∈ s := by
        by_contra hnot
        simp [isOpen, hgroup, hnot] at hopen
      obtain ⟨front, dims, rfl, hfront⟩ := List.eq_append_cons_of_mem hsquare
      have hangle : Lacks ['<', '>'] front := fun c hc => h.angle c (by simp [hc])
      have hsplit : ∀ back, splitTop '[' 0 (front ++ '[' :: back) = some (front, back) :=
        fun back => splitTop_of_reached (by decide) back
          ⟨covered_of_not_mem 0 hfront, openAngles_of_free 0 hangle.angleFree⟩
      rw [List.append_assoc, List.cons_append] at hmore ⊢
      simp only [Spelling.addDeclarator, hgroup, hmore, hsplit]
      split <;> simp

variable {r t cls : TypeTerm} {args : List TypeTerm} {ellipsis isConst isVolatile : Bool}

theorem Plain.addDeclarator_box
    (hr : Plain r)
    (hopen : isOpen r.spelling = false)
    (hparen : '(' ∈ r.spelling) (inner after decl : List Char) :
    addDeclarator (box r.spelling inner after) decl =
      box (addDeclarator r.spelling decl) inner after := by
  rw [box_eq_append, box_eq_append]
  exact hr.sound.addDeclarator_append hopen (.inl hparen) decl

/-- A pointer to a function goes into the spelling of its result when that takes declarators inside
and has a group. -/
theorem spelling_pointer_function
    (hr : Plain r)
    (hopen : isOpen r.spelling = false)
    (hparen : '(' ∈ r.spelling) :
    (pointer (function r args ellipsis)).spelling = (function (pointer r) args ellipsis).spelling := by
  simp only [spelling]
  exact hr.addDeclarator_box hopen hparen _ _ _

/-- A pointer to a method goes into the spelling of its result in the same case. -/
theorem spelling_pointer_method
    (hr : Plain r)
    (hopen : isOpen r.spelling = false)
    (hparen : '(' ∈ r.spelling) :
    (pointer (method r cls args ellipsis isConst isVolatile)).spelling =
      (method (pointer r) cls args ellipsis isConst isVolatile).spelling := by
  simp only [spelling]
  exact hr.addDeclarator_box hopen hparen _ _ _

/-- A pointer to a member pointer goes into the spelling of the member's type when that takes
declarators inside. -/
theorem spelling_pointer_member
    (ht : Plain t)
    (hopen : isOpen t.spelling = false)
    (hparen : '(' ∈ t.spelling ∨ '(' ∉ cls.spelling) :
    (pointer (member t cls)).spelling = (member (pointer t) cls).spelling := by
  simp only [spelling, List.append_assoc]
  exact ht.sound.addDeclarator_append hopen (hparen.imp_right fun h => by simpa using h) _

end Declarators

section Qualifiers

variable {r t : TypeTerm} {args : List TypeTerm} {q : Qualifiers} {ellipsis : Bool}

/-- Qualifiers of a function are written before its result. -/
theorem spelling_qualified_function
    (hr : Plain r)
    (hargs : ∀ a ∈ args, Plain a)
    (hwords : qualifierWords q ≠ [])
    (hlead : Leading r.spelling) :
    (qualified q (function r args ellipsis)).spelling =
      (function (qualified q r) args ellipsis).spelling := by
  have hbalanced := Plain.argumentsBalanced hargs ellipsis
  have hleading : Leading (function r args ellipsis).spelling := by
    rw [spelling]
    by_cases hparen : '(' ∈ r.spelling
    · refine ⟨endsDeclarator_box (tail_callText false false hbalanced), fun g hg => ?_⟩
      rw [box_eq_append, group?_append hr.sound.closed.balanced hr.sound.angle hparen] at hg
      obtain ⟨g', hg', rfl⟩ := Option.map_eq_some_iff.mp hg
      exact hlead.group g' hg'
    · exact leading_function (hr.sound.flat hparen) hbalanced
  rw [spelling, hleading.qualify_eq hwords, spelling, spelling, spelling, hlead.qualify_eq hwords]
  simp [box]

/-- Qualifiers of an array are written before its elements. -/
theorem spelling_qualified_array
    {bound : Option UInt64}
    (ht : Plain t)
    (hopen : isOpen t.spelling = true)
    (hwords : qualifierWords q ≠ [])
    (hends : endsDeclarator t.spelling = false) :
    (qualified q (array bound t)).spelling = (array bound (qualified q t)).spelling := by
  obtain ⟨hlead, hsquare⟩ := flat_leading hwords
  have hfront := ht.sound.openFront hopen
  have hmore := hfront.prepend hlead hsquare
  have hdim := dimensions_single bound
  have hnone : group? (t.spelling ++ dimensionText bound) = none :=
    hfront.group?_append (.inr hdim.flat.parenFree.1)
  have hlast : endsDeclarator (t.spelling ++ dimensionText bound) = false :=
    Tail.endsDeclarator_append (.inl hdim)
  have hsplit : qualifierWords q ++ ' ' :: t.spelling = (qualifierWords q ++ [' ']) ++ t.spelling := by
    simp
  simp only [spelling]
  rw [hfront.addDeclarator, qualify_leading hwords hlast hnone,
    qualify_leading hwords hends hfront.group, hsplit, hmore.addDeclarator]
  simp

/-- A single argument `void` is spelled like no arguments. -/
theorem spelling_void
    {a : TypeTerm}
    (ha : a.spelling = "void".toList) :
    (function r [a] false).spelling = (function r [] false).spelling := by
  simp only [spelling, spellings, ha]
  rfl

end Qualifiers

end TypeTerm
end TypeCatalog
