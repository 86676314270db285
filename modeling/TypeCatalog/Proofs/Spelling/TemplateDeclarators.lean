import TypeCatalog.Proofs.Spelling.Placement
import TypeCatalog.Proofs.Template.Scanning
import Mathlib.Data.List.Infix

/-!
# Declarators of template instances

**Input.** A spelling in which every `(` and `[` stands inside template arguments, as the scanner of
scopes counts brackets: to it, an angle bracket inside parentheses is a comparison.

**Rule.** A declarator goes to the end of such a spelling, unless the scanner of spellings finds a
place inside the template arguments. It counts comparisons like brackets, so that a `>` in
parentheses closes the template arguments for it.

**Notions.** A text is placeless when no `[`, and no group with a declarator, stands where the
scanner of spellings counts no open bracket. It is tame when in no front part of it brackets,
parentheses or comparisons are closed that were not opened.

**Results.**
* `angle_le_openAngles`: the scanner of spellings counts at least the brackets and comparisons that
  are open.
* `Tame.placeless`: a tame text is placeless.
* `declarator_at_end_iff`: a declarator goes to the end exactly if the spelling is placeless; where
  it does not, a pointer to an instance reads as another instance.
-/

namespace TypeCatalog
namespace Spelling

open Text TypeTerm Template

/-- Every parenthesis and square bracket that opens in the text stands inside brackets, and none is
open at its end. -/
structure Sheltered
    (s : List Char) :
    Prop where
  paren : Whole '(' s
  square : Whole '[' s

/-- The scanner of spellings finds no place for a declarator in the text. -/
structure Placeless
    (s : List Char) :
    Prop where
  square : Covered '[' 0 s
  group : ∀ before inner after, s = box before inner after → Reached '(' before →
    Balanced inner → isDeclarator inner = false

/-- The comparisons that a text opens more than it closes: the angle brackets that it has inside
parentheses, from a nesting. -/
def comparisons :
    Nesting → List Char → Int
  | _, [] => 0
  | n, c :: cs =>
      (if n.paren = 0 then 0 else if c = '<' then 1 else if c = '>' then -1 else 0) +
        comparisons (n.step c) cs

/-- No front part of the text closes more brackets, parentheses or comparisons than it opens. -/
def Tame
    (s : List Char) :
    Prop :=
  ∀ u, u <+: s → 0 ≤ (Nesting.start.run u).angle ∧ 0 ≤ (Nesting.start.run u).paren ∧
    0 ≤ comparisons .start u

section Decisions

instance
    (s : List Char) :
    Decidable (Sheltered s) :=
  decidable_of_iff (Whole '(' s ∧ Whole '[' s)
    ⟨fun h => ⟨h.1, h.2⟩, fun h => ⟨h.paren, h.square⟩⟩

instance
    (s : List Char) :
    Decidable (Tame s) :=
  decidable_of_iff
    (∀ u ∈ s.inits, 0 ≤ (Nesting.start.run u).angle ∧ 0 ≤ (Nesting.start.run u).paren ∧
      0 ≤ comparisons .start u)
    ⟨fun h u hu => h u ((List.mem_inits u s).mpr hu),
      fun h u hu => h u ((List.mem_inits u s).mp hu)⟩

end Decisions

section Counting

/-- A bracket that is counted by one scanner is counted by the other as a bracket or as a
comparison. -/
theorem angle_le_openAngles
    (n : Nesting) (depth : Nat) (u : List Char) :
    (n.run u).angle + comparisons n u + depth ≤ openAngles depth u + n.angle := by
  induction u generalizing n depth with
  | nil =>
      simp [comparisons, openAngles, Int.add_comm]
  | cons c u ih =>
      rw [Nesting.run_cons, comparisons, openAngles]
      by_cases hopen : c = '<'
      · subst hopen
        have hnext := ih (n.step '<') (depth + 1)
        by_cases hparen : n.paren = 0 <;> simp [Nesting.step, hparen] at hnext ⊢ <;> omega
      · by_cases hclose : c = '>'
        · subst hclose
          have hnext := ih (n.step '>') (depth - 1)
          by_cases hparen : n.paren = 0 <;> simp [Nesting.step, hparen] at hnext ⊢ <;> omega
        · have hangle : (n.step c).angle = n.angle := by
            rw [Nesting.step]
            split
            · rfl
            · split
              · rfl
              · simp [hopen, hclose]
          have hnext := ih (n.step c) depth
          rw [hangle] at hnext
          simpa [hopen, hclose] using hnext

/-- A step keeps that inside parentheses a bracket is open, when no parenthesis opens at the top. -/
theorem deep_step
    {n : Nesting} {c : Char}
    (hdeep : n.paren ≠ 0 → n.angle ≠ 0)
    (htop : n.isTop = true → c ≠ '(')
    (hafter : 0 ≤ (n.step c).paren) :
    (n.step c).paren ≠ 0 → (n.step c).angle ≠ 0 := by
  by_cases hopen : c = '('
  · subst hopen
    have hnot : ¬ (n.angle = 0 ∧ n.paren = 0) := by
      simpa [Nesting.isTop] using htop
    by_cases hparen : n.paren = 0
    · simpa [Nesting.step, hparen] using hnot
    · simpa [Nesting.step] using fun _ => hdeep hparen
  · by_cases hclose : c = ')'
    · subst hclose
      simp only [Nesting.step, Char.reduceEq, if_false, if_true] at hafter ⊢
      exact fun _ => hdeep (by omega)
    · rw [Nesting.step, if_neg hopen, if_neg hclose]
      split
      · next hangle => exact fun hparen => absurd hangle.2 hparen
      · split
        · next hangle => exact fun hparen => absurd hangle.2 hparen
        · exact hdeep

/-- Inside parentheses a bracket is open, when none of them opens at the top. -/
theorem angle_ne_zero_of_deep
    {n : Nesting} {u : List Char}
    (hdeep : n.paren ≠ 0 → n.angle ≠ 0)
    (hquiet : Quiet '(' n u)
    (hnonneg : ∀ v, v <+: u → 0 ≤ (n.run v).paren) :
    (n.run u).paren ≠ 0 → (n.run u).angle ≠ 0 := by
  induction u generalizing n with
  | nil =>
      exact hdeep
  | cons c u ih =>
      refine ih (deep_step hdeep hquiet.1 (hnonneg [c] ⟨u, rfl⟩)) hquiet.2 fun v hv => ?_
      exact hnonneg (c :: v) (List.cons_prefix_cons.mpr ⟨rfl, hv⟩)

/-- What stands in a text is not at the top, when no such character is met there. -/
theorem not_isTop_of_quiet
    {sep : Char} {n : Nesting} {u v : List Char}
    (h : Quiet sep n (u ++ sep :: v)) :
    (n.run u).isTop = false := by
  have hhere := (quiet_append.mp h).2.1
  cases htop : (n.run u).isTop with
  | false =>
      rfl
  | true =>
      exact absurd rfl (hhere htop)

/-- Where a tame text is not at the top, the scanner of spellings counts an open bracket. -/
theorem Tame.openAngles_ne_zero
    {s u v : List Char}
    (htame : Tame s)
    (hquiet : Quiet '(' .start s)
    (hs : s = u ++ v)
    (htop : (Nesting.start.run u).isTop = false) :
    openAngles 0 u ≠ 0 := by
  have hprefix : u <+: s := ⟨v, hs.symm⟩
  obtain ⟨hangle, -, hcomparisons⟩ := htame u hprefix
  have hdeep : (Nesting.start.run u).paren ≠ 0 → (Nesting.start.run u).angle ≠ 0 := by
    rw [hs] at hquiet
    exact angle_ne_zero_of_deep (absurd rfl) (quiet_append.mp hquiet).1
      fun w hw => (htame w (hw.trans hprefix)).2.1
  have hopen : (Nesting.start.run u).angle ≠ 0 := by
    intro hzero
    by_cases hparen : (Nesting.start.run u).paren = 0
    · simp [Nesting.isTop, hzero, hparen] at htop
    · exact hdeep hparen hzero
  have hcount := angle_le_openAngles .start 0 u
  have hstart : Nesting.start.angle = 0 := rfl
  omega

/-- A tame text is placeless. -/
theorem Tame.placeless
    {s : List Char}
    (htame : Tame s)
    (hs : Sheltered s) :
    Placeless s := by
  refine ⟨fun u v huv => ?_, fun before inner after hbox hbefore => ?_⟩
  · have hsquare := hs.square.quiet
    rw [huv] at hsquare
    exact htame.openAngles_ne_zero hs.paren.quiet huv
      (not_isTop_of_quiet hsquare)
  · have hsplit : s = before ++ '(' :: (inner ++ ')' :: after) := by
      simpa [box] using hbox
    have hparen := hs.paren.quiet
    rw [hsplit] at hparen
    exact absurd hbefore.top (htame.openAngles_ne_zero hs.paren.quiet hsplit
      (not_isTop_of_quiet hparen))

end Counting

section Places

theorem placeless_iff
    {s : List Char} :
    Placeless s ↔ group? s = none ∧ splitTop '[' 0 s = none := by
  rw [splitTop_eq_none_iff (by decide)]
  constructor
  · intro h
    refine ⟨?_, h.square⟩
    cases hgroup : group? s with
    | none =>
        rfl
    | some g =>
        obtain ⟨hs, hbefore, hinner, hdecl⟩ := group?_eq_some_iff.mp hgroup
        rw [h.group _ _ _ hs hbefore hinner] at hdecl
        cases hdecl
  · rintro ⟨hgroup, hsquare⟩
    refine ⟨hsquare, fun before inner after hs hbefore hinner => ?_⟩
    rw [hs, group?_box_eq after hbefore hinner] at hgroup
    simpa using hgroup

theorem Declarator.not_isBracket
    {decl : List Char}
    (h : Declarator decl) :
    ∀ c ∈ decl, isBracket c = false := by
  intro c hc
  have hbad := h.flat c hc
  simp only [List.mem_cons, List.not_mem_nil, or_false, not_or] at hbad
  simp [isBracket, hbad]

theorem run_of_plain
    {w : List Char} (n : Nesting)
    (h : ∀ c ∈ w, isBracket c = false) :
    n.run w = n := by
  induction w generalizing n with
  | nil =>
      rfl
  | cons c w ih =>
      rw [Nesting.run_cons, step_of_not_bracket n (h c (by simp))]
      exact ih n fun d hd => h d (List.mem_cons_of_mem c hd)

/-- A bracket stands after every `[` of a sheltered text. -/
theorem Sheltered.exists_bracket
    {s front back : List Char}
    (hs : Sheltered s)
    (hsplit : s = front ++ '[' :: back) :
    ∃ c ∈ '[' :: back, isBracket c = true := by
  by_contra hnone
  have hplain : ∀ c ∈ '[' :: back, isBracket c = false := by
    intro c hc
    cases hbracket : isBracket c with
    | false =>
        rfl
    | true =>
        exact absurd ⟨c, hc, hbracket⟩ hnone
  have hquiet := hs.square.quiet
  have hrun := hs.square.run
  rw [hsplit] at hquiet hrun
  rw [Nesting.run_append, run_of_plain _ hplain] at hrun
  have htop := not_isTop_of_quiet hquiet
  rw [hrun] at htop
  cases htop

/-- Where a text is not placeless, a declarator is written inside of it: as it is in front of a part
that has a bracket, or in parentheses in front of a dimension. -/
theorem addDeclarator_inside
    {s : List Char} (decl : List Char)
    (hs : Sheltered s)
    (hplace : ¬ Placeless s) :
    ∃ front back, back ≠ [] ∧ s = front ++ back ∧
      ((addDeclarator s decl = front ++ decl ++ back ∧ ∃ c ∈ back, isBracket c = true) ∨
        (addDeclarator s decl = front ++ '(' :: decl ++ ')' :: back ∧ back.head? = some '[')) := by
  rw [placeless_iff, not_and] at hplace
  cases hgroup : group? s with
  | some g =>
      obtain ⟨hsplit, -⟩ := group?_eq_some_iff.mp hgroup
      refine ⟨g.before ++ '(' :: g.inner, ')' :: g.after, by simp, by simp [hsplit, box],
        .inl ⟨?_, ')', by simp, rfl⟩⟩
      simp [addDeclarator, hgroup]
  | none =>
      cases hsquare : splitTop '[' 0 s with
      | none =>
          exact absurd hsquare (hplace hgroup)
      | some p =>
          obtain ⟨head, dims⟩ := p
          obtain ⟨hsplit, -⟩ := (splitTop_eq_some_iff (by decide)).mp hsquare
          refine ⟨head, '[' :: dims, by simp, hsplit, ?_⟩
          simp only [addDeclarator, hgroup, hsquare]
          split
          · exact .inl ⟨rfl, hs.exists_bracket hsplit⟩
          · exact .inr ⟨by simp, rfl⟩

theorem addDeclarator_of_placeless
    {s : List Char} (decl : List Char)
    (h : Placeless s) :
    addDeclarator s decl = s ++ decl := by
  obtain ⟨hgroup, hsquare⟩ := placeless_iff.mp h
  simp [addDeclarator, hgroup, hsquare]

/-- A declarator that is written inside of a text is not at its end. -/
theorem addDeclarator_ne_append
    {s decl : List Char}
    (hs : Sheltered s)
    (hdecl : Declarator decl)
    (hplace : ¬ Placeless s) :
    addDeclarator s decl ≠ s ++ decl := by
  obtain ⟨front, back, -, rfl, ⟨hinside, c, hc, hbracket⟩ | ⟨hinside, hhead⟩⟩ :=
    addDeclarator_inside decl hs hplace
  · rw [hinside]
    intro heq
    have hcomm : decl ++ back = back ++ decl := by
      simpa using heq
    have hmem := mem_of_append_comm hdecl.ne_nil hcomm c hc
    rw [hdecl.not_isBracket c hmem] at hbracket
    cases hbracket
  · rw [hinside]
    intro heq
    obtain ⟨rest, rfl⟩ : ∃ rest, back = '[' :: rest := by
      cases back with
      | nil =>
          cases hhead
      | cons d rest =>
          exact ⟨rest, by rw [Option.some.inj hhead]⟩
    simp at heq

end Places

/-- A declarator goes to the end of a sheltered spelling exactly if the spelling is placeless. So a
pointer to a template instance, a reference to it or an array of it ends in a bracket, like another
instance, exactly if it is not. Tame spellings are placeless. -/
theorem declarator_at_end_iff
    {s decl : List Char}
    (hs : Sheltered s)
    (hdecl : Declarator decl) :
    (addDeclarator s decl = s ++ decl ↔ Placeless s) ∧
    (s.getLast? = some '>' →
      ((addDeclarator s decl).getLast? = some '>' ↔ ¬ Placeless s)) ∧
    (Tame s → Placeless s) := by
  have hplace : addDeclarator s decl = s ++ decl ↔ Placeless s :=
    ⟨fun h => by_contra fun hnot => addDeclarator_ne_append hs hdecl hnot h,
      addDeclarator_of_placeless decl⟩
  refine ⟨hplace, fun hlast => ⟨?_, ?_⟩, fun htame => htame.placeless hs⟩
  · intro hend hplaceless
    rw [hplace.mpr hplaceless, List.getLast?_append_of_ne_nil s hdecl.ne_nil] at hend
    have hbracket := hdecl.not_isBracket '>' (List.mem_of_getLast? hend)
    cases hbracket
  · intro hnot
    -- the end of the spelling stays behind the declarator
    obtain ⟨front, back, hback, rfl, ⟨hinside, -⟩ | ⟨hinside, -⟩⟩ :=
      addDeclarator_inside decl hs hnot
    · rw [hinside, List.getLast?_append_of_ne_nil _ hback]
      rwa [List.getLast?_append_of_ne_nil _ hback] at hlast
    · have hclose : front ++ '(' :: decl ++ ')' :: back = (front ++ '(' :: decl ++ [')']) ++ back := by
        simp
      rw [hinside, hclose, List.getLast?_append_of_ne_nil _ hback]
      rwa [List.getLast?_append_of_ne_nil _ hback] at hlast

/-- An array type and a function type among the arguments take no declarator of the instance. -/
theorem declarator_at_end_signature :
    Sheltered "call<void(list<int>),int[3]>".toList ∧ Tame "call<void(list<int>),int[3]>".toList ∧
      addDeclarator "call<void(list<int>),int[3]>".toList ['*'] =
        "call<void(list<int>),int[3]>*".toList := by
  have hs : Sheltered "call<void(list<int>),int[3]>".toList := by decide
  have htame : Tame "call<void(list<int>),int[3]>".toList := by decide
  obtain ⟨hend, -, hplaceless⟩ := declarator_at_end_iff hs (.star (c := '*') rfl)
  exact ⟨hs, htame, hend.mpr (hplaceless htame)⟩

/-- After a comparison that closes, the declarator of a pointer goes to an array type among the
arguments, and the pointer to the instance is spelled like an instance with other arguments. -/
theorem declarator_inside_arguments :
    Sheltered "test<(1>2),int[3]>".toList ∧
      addDeclarator "test<(1>2),int[3]>".toList ['*'] ≠ "test<(1>2),int[3]>".toList ++ ['*'] ∧
      addDeclarator "test<(1>2),int[3]>".toList ['*'] = "test<(1>2),int(*)[3]>".toList ∧
      argumentsOf "test<(1>2),int[3]>".toList = ["(1>2)".toList, "int[3]".toList] ∧
      argumentsOf (addDeclarator "test<(1>2),int[3]>".toList ['*']) =
        ["(1>2)".toList, "int(*)[3]".toList] := by
  decide

end Spelling
end TypeCatalog
