import TypeCatalog.Proofs.Spelling.Placement

/-!
# The spelling of a term

**Input.** A term whose names are plain.

**Notions.** `Placed p s` describes the text of a spelling whose next declarator goes to the place
`p`: what stands before and after that place, and which characters do not occur there. A sound text
is closed, begins with a name, and ends neither in the middle of a name nor in a group of a
declarator.

**Results.**
* `Placed.pointed`, `Placed.dimensioned`, `Placed.qualified`: the form after a declarator or
  qualifiers were written.
* `Sound.addDeclarator`, `Sound.qualify`: one step of building a spelling, wherever it writes.
* `Plain.sound`: the spelling of every term is sound.
* `Plain.placed`: the spelling of a term has the form that its place states.
-/

namespace TypeCatalog

open Text Spelling

namespace TypeTerm

/-- A group at the end of the text, if it has no group inside, does not begin with a declarator. -/
def ArgumentsLast
    (s : List Char) :
    Prop :=
  ∀ u v, ParenFree v → s = u ++ '(' :: v ++ [')'] → v ≠ [] ∧ beginsDeclarator v = false

/-- The form of a spelling whose next declarator goes to the place. -/
inductive Placed :
    Place → List Char → Prop
  | atEnd
      {s : List Char}
      (hs : OpenFront s) :
      Placed .atEnd s
  | beforeDimensions
      {front dims : List Char}
      (hfront : OpenFront front)
      (hlast : ArgumentsLast front)
      (hdims : Dimensions dims) :
      Placed .beforeDimensions (front ++ dims)
  | inEmptyGroup
      {before args : List Char}
      (hbefore : Flat before)
      (hargs : Balanced args) :
      Placed .inEmptyGroup (box before [] (callText args false false))
  | inGroup
      {before inner after : List Char}
      (hbefore : Flat before)
      (hinner : ParenFree inner)
      (hbegins : beginsDeclarator inner = true)
      (hafter : Tail after) :
      Placed .inGroup (box before inner after)
  | inMemberGroup
      {before cls args : List Char} {isConst isVolatile : Bool}
      (hbefore : Flat before)
      (hcls : ∀ c ∈ cls, isMark c = false)
      (hargs : Balanced args) :
      Placed .inMemberGroup (box before (cls ++ [':', ':']) (callText args isConst isVolatile))
  | inMemberPointer
      {before cls stars args : List Char} {isConst isVolatile : Bool}
      (hbefore : Flat before)
      (hcls : ∀ c ∈ cls, isMark c = false)
      (hne : stars ≠ [])
      (hstars : ∀ c ∈ stars, isStarOrAmp c = true)
      (hargs : Balanced args) :
      Placed .inMemberPointer
        (box before (cls ++ ':' :: ':' :: stars) (callText args isConst isVolatile))
  | amidDimensions
      {before front dims args : List Char} {isConst isVolatile : Bool}
      (hbefore : Flat before)
      (hsquare : '[' ∉ before)
      (hfront : InnerFront front)
      (hopen : '(' ∉ front)
      (hdims : Dimensions dims)
      (hargs : Balanced args) :
      Placed .amidDimensions (box before (front ++ dims) (callText args isConst isVolatile))
  | behindPointer
      {front dims : List Char}
      (hfront : OpenFront front)
      (hopen : '(' ∈ front)
      (hdims : Dimensions dims) :
      Placed .behindPointer (front ++ dims)
  | behindInnerPointer
      {before front dims args : List Char} {isConst isVolatile : Bool}
      (hbefore : Flat before)
      (hsquare : '[' ∉ before)
      (hfront : InnerFront front)
      (hopen : '(' ∈ front)
      (hdims : Dimensions dims)
      (hargs : Balanced args) :
      Placed .behindPointer (box before (front ++ dims) (callText args isConst isVolatile))

/-- What the spelling of every type looks like. -/
structure Sound
    (s : List Char) :
    Prop where
  closed : Closed s
  angle : Lacks ['<', '>'] s
  begins : ∃ c rest, s = c :: rest ∧ isMark c = false
  last : s.getLast? ≠ some ':'
  arguments : ArgumentsLast s

section Steps

/-- What a text with a group was before the last declarator went into the group. A pointer or
reference to an array opens the group. -/
def unbox
    (before inner after : List Char) :
    List Char :=
  if inner = [] ∧ after.head? = some '[' then before ++ after else box before inner after

theorem Dimensions.head?
    {s : List Char}
    (h : Dimensions s) :
    s.head? = some '[' := by
  obtain ⟨bound, bounds, rfl⟩ := h
  simp [dimensionText_eq]

theorem head?_star_ne
    {c : Char}
    (hc : isStarOrAmp c = true) :
    [c].head? ≠ some '[' := by
  rcases star_eq hc with rfl | rfl <;> decide

/-- The group that a pointer opens behind a front. -/
theorem balanced_starGroup
    {c : Char}
    (hc : isStarOrAmp c = true) :
    Balanced ['(', c, ')'] ∧ Lacks ['<', '>'] ['(', c, ')'] ∧ '[' ∉ ['(', c, ')'] := by
  rcases star_eq hc with rfl | rfl <;> exact ⟨rfl, by decide, by decide⟩

theorem OpenFront.star
    {s : List Char} {c : Char}
    (h : OpenFront s)
    (hc : isStarOrAmp c = true) :
    OpenFront (s ++ [c]) := by
  have hnot : '[' ∉ [c] := by
    rcases star_eq hc with rfl | rfl <;> decide
  exact h.append (.inr (flat_star hc).parenFree.1) hnot (flat_star hc).parenFree.balanced
    (flat_star hc).angle

theorem OpenFront.starGroup
    {s : List Char} {c : Char}
    (h : OpenFront s)
    (hopen : '(' ∈ s)
    (hc : isStarOrAmp c = true) :
    OpenFront (s ++ ['(', c, ')']) := by
  obtain ⟨hbalanced, hangle, hsquare⟩ := balanced_starGroup hc
  exact h.append (.inl hopen) hsquare hbalanced hangle

theorem InnerFront.starGroup
    {s : List Char} {c : Char}
    (h : InnerFront s)
    (hc : isStarOrAmp c = true) :
    InnerFront (s ++ ['(', c, ')']) := by
  obtain ⟨hbalanced, hangle, hsquare⟩ := balanced_starGroup hc
  refine ⟨?_, by simpa [h.square] using hsquare, h.balanced.append hbalanced,
    h.angle.append hangle⟩
  cases s with
  | nil =>
      rfl
  | cons x s =>
      exact h.begins

theorem box_starGroup
    (front dims : List Char) (c : Char) :
    box front [c] dims = front ++ ['(', c, ')'] ++ dims := by
  simp [box]

theorem beginsDeclarator_member
    {cls : List Char} (stars : List Char)
    (hcls : ∀ c ∈ cls, isMark c = false) :
    beginsDeclarator (cls ++ ':' :: ':' :: stars) = false := by
  cases cls with
  | nil =>
      rfl
  | cons c cls =>
      refine Bool.eq_false_iff.mpr fun hc => ?_
      have hmark : isMark c = true := isMark_star (by simpa [beginsDeclarator] using hc)
      rw [hcls c (by simp)] at hmark
      cases hmark

theorem parenFree_member
    {cls stars : List Char}
    (hcls : ∀ c ∈ cls, isMark c = false)
    (hstars : ∀ c ∈ stars, isStarOrAmp c = true) :
    ParenFree (cls ++ ':' :: ':' :: stars) := by
  have hopen : '(' ∉ ':' :: ':' :: stars := not_mem_member (by decide) hstars
  have hclose : ')' ∉ ':' :: ':' :: stars := not_mem_member (by decide) hstars
  exact (flat_of_unmarked hcls).parenFree.append ⟨hopen, hclose⟩

theorem InnerFront.member
    {cls stars : List Char}
    (hcls : ∀ c ∈ cls, isMark c = false)
    (hstars : ∀ c ∈ stars, isStarOrAmp c = true) :
    InnerFront (cls ++ ':' :: ':' :: stars) := by
  have hlacks : ∀ {bad : List Char}, (∀ c ∈ bad, isMark c = true ∧ c ≠ ':' ∧ isStarOrAmp c = false) →
      Lacks bad (cls ++ ':' :: ':' :: stars) := by
    intro bad hbad
    refine (lacks_of_unmarked hcls fun c hc => (hbad c hc).1).append fun c hc hmem => ?_
    exact not_mem_member (hbad c hmem).2 hstars hc
  have hsquare : Lacks ['['] (cls ++ ':' :: ':' :: stars) := hlacks (by decide)
  exact ⟨beginsDeclarator_member stars hcls, hsquare.not_mem (by simp),
    (parenFree_member hcls hstars).balanced, hlacks (by decide)⟩

theorem InnerFront.nil :
    InnerFront [] :=
  ⟨rfl, by simp, rfl, by simp [Lacks]⟩

/-- The form after a pointer or reference declarator. -/
theorem Placed.pointed
    {p : Place} {s : List Char} {c : Char}
    (h : Placed p s)
    (hc : isStarOrAmp c = true) :
    Placed (p.pointed s) (addDeclarator s [c]) := by
  have hstar : ParenFree [c] := (flat_star hc).parenFree
  have hbegin : beginsDeclarator [c] = true := beginsDeclarator_star hc
  have hnot := head?_star_ne hc
  cases h with
  | atEnd hs =>
      rw [hs.addDeclarator]
      exact .atEnd (hs.star hc)
  | @beforeDimensions front dims hfront hlast hdims =>
      rw [hfront.addDeclarator_dimensions hdims, if_neg hnot, Place.pointed]
      by_cases hopen : '(' ∈ front
      · rw [if_pos (by simp [hopen]), box_starGroup]
        exact .behindPointer (hfront.starGroup hopen hc) (by simp) hdims
      · have hwhole : '(' ∉ front ++ dims := by
          simp [hopen, hdims.flat.parenFree.1]
        rw [if_neg (by simpa using hwhole)]
        exact .inGroup (flat_of_balanced hopen hfront.balanced hfront.angle) hstar hbegin (.inl hdims)
  | inEmptyGroup hbefore hargs =>
      rw [addDeclarator_box hbefore balanced_nil rfl]
      exact .inGroup hbefore hstar hbegin (tail_callText false false hargs)
  | inGroup hbefore hinner hbegins hafter =>
      rw [addDeclarator_box hbefore hinner.balanced (isDeclarator_of_begins hbegins)]
      exact .inGroup hbefore (hinner.append hstar) (beginsDeclarator_append hbegins [c]) hafter
  | @inMemberGroup before cls args isConst isVolatile hbefore hcls hargs =>
      have hnone : ∀ x ∈ ([] : List Char), isStarOrAmp x = true := by simp
      have hassoc : cls ++ [':', ':'] ++ [c] = cls ++ ':' :: ':' :: [c] := by simp
      rw [addDeclarator_box hbefore (parenFree_member hcls hnone).balanced
        (isDeclarator_member hnone), hassoc]
      exact .inMemberPointer hbefore hcls (by simp) (by simpa using hc) hargs
  | @inMemberPointer before cls stars args isConst isVolatile hbefore hcls hne hstars hargs =>
      have hassoc : cls ++ ':' :: ':' :: stars ++ [c] = cls ++ ':' :: ':' :: (stars ++ [c]) := by
        simp
      rw [addDeclarator_box hbefore (parenFree_member hcls hstars).balanced
        (isDeclarator_member hstars), hassoc]
      exact .inMemberPointer hbefore hcls (by simp) (stars_concat hstars hc) hargs
  | amidDimensions hbefore hsquare hfront hopen hdims hargs =>
      rw [hfront.addDeclarator hdims hbefore hsquare, if_neg hnot, box_starGroup]
      exact .behindInnerPointer hbefore hsquare (hfront.starGroup hc) (by simp) hdims hargs
  | @behindPointer front dims hfront hopen hdims =>
      rw [hfront.addDeclarator_dimensions hdims, if_neg hnot, box_starGroup]
      exact .behindPointer (hfront.starGroup hopen hc) (by simp) hdims
  | behindInnerPointer hbefore hsquare hfront hopen hdims hargs =>
      rw [hfront.addDeclarator hdims hbefore hsquare, if_neg hnot, box_starGroup]
      exact .behindInnerPointer hbefore hsquare (hfront.starGroup hc) (by simp) hdims hargs

theorem takeWhile_box
    {before : List Char} (inner after : List Char)
    (hbefore : Flat before) :
    (box before inner after).takeWhile (· != '(') = before := by
  have hall : ∀ c ∈ before, (c != '(') = true := by
    intro c hc
    have hne : c ≠ '(' := by
      rintro rfl
      exact hbefore.parenFree.1 hc
    simpa using hne
  simp [box, List.takeWhile_append_of_pos hall]

/-- The form after a dimension. -/
theorem Placed.dimensioned
    {p : Place} {s : List Char}
    (h : Placed p s)
    (hlast : ArgumentsLast s) (bound : Option UInt64)
    (hp : p.dimensioned s ≠ .nowhere) :
    Placed (p.dimensioned s) (addDeclarator s (dimensionText bound)) := by
  have hdim := dimensions_single bound
  have hsome : (dimensionText bound).head? = some '[' := hdim.head?
  -- a first dimension in a group of arguments
  have hfirst : ∀ {before front args : List Char} {isConst isVolatile : Bool}, Flat before →
      InnerFront front → '(' ∉ front → Balanced args →
      (if ((box before front (callText args isConst isVolatile)).takeWhile
          (· != '(')).contains '[' then Place.nowhere else .amidDimensions) ≠ .nowhere →
      Placed (if ((box before front (callText args isConst isVolatile)).takeWhile
          (· != '(')).contains '[' then Place.nowhere else .amidDimensions)
        (box before (front ++ dimensionText bound) (callText args isConst isVolatile)) := by
    intro before front args isConst isVolatile hbefore hfront hopen hargs hplace
    rw [takeWhile_box _ _ hbefore] at hplace ⊢
    by_cases hsquare : '[' ∈ before
    · rw [if_pos (by simpa using hsquare)] at hplace
      exact absurd rfl hplace
    · rw [if_neg (by simpa using hsquare)]
      exact .amidDimensions hbefore hsquare hfront hopen hdim hargs
  cases h with
  | atEnd hs =>
      rw [hs.addDeclarator]
      exact .beforeDimensions hs hlast hdim
  | beforeDimensions hfront harguments hdims =>
      rw [hfront.addDeclarator_dimensions hdims, if_pos hsome]
      exact .beforeDimensions hfront harguments (hdims.cons bound)
  | inEmptyGroup hbefore hargs =>
      rw [addDeclarator_box hbefore balanced_nil rfl]
      exact hfirst hbefore .nil (by simp) hargs hp
  | inGroup hbefore hinner hbegins hafter =>
      rw [addDeclarator_box hbefore hinner.balanced (isDeclarator_of_begins hbegins)]
      exact .inGroup hbefore (hinner.append hdim.flat.parenFree)
        (beginsDeclarator_append hbegins _) hafter
  | inMemberGroup hbefore hcls hargs =>
      have hnone : ∀ x ∈ ([] : List Char), isStarOrAmp x = true := by simp
      rw [addDeclarator_box hbefore (parenFree_member hcls hnone).balanced
        (isDeclarator_member hnone)]
      exact hfirst hbefore (.member hcls hnone) (parenFree_member hcls hnone).1 hargs hp
  | inMemberPointer hbefore hcls hne hstars hargs =>
      rw [addDeclarator_box hbefore (parenFree_member hcls hstars).balanced
        (isDeclarator_member hstars)]
      exact hfirst hbefore (.member hcls hstars) (parenFree_member hcls hstars).1 hargs hp
  | amidDimensions hbefore hsquare hfront hopen hdims hargs =>
      rw [hfront.addDeclarator hdims hbefore hsquare, if_pos hsome]
      exact .amidDimensions hbefore hsquare hfront hopen (hdims.cons bound) hargs
  | behindPointer hfront hopen hdims =>
      exact absurd rfl hp
  | behindInnerPointer hbefore hsquare hfront hopen hdims hargs =>
      exact absurd rfl hp

theorem not_mem_append
    {c : Char} {s t : List Char}
    (hs : c ∉ s)
    (ht : c ∉ t) :
    c ∉ s ++ t :=
  fun hmem => (List.mem_append.mp hmem).elim hs ht

theorem ArgumentsLast.prepend
    {s t : List Char}
    (hs : '(' ∉ s)
    (ht : ArgumentsLast t) :
    ArgumentsLast (s ++ t) := by
  intro u v hv heq
  rw [List.append_assoc] at heq
  obtain ⟨m, -, hm⟩ := exists_behind hs heq
  exact ht m v hv (by simpa using hm)

theorem flat_leading
    {q : Qualifiers}
    (hwords : qualifierWords q ≠ []) :
    Flat (qualifierWords q ++ [' ']) ∧ '[' ∉ qualifierWords q ++ [' '] := by
  have hunmarked : ∀ c ∈ qualifierWords q ++ [' '], isMark c = false := by
    intro c hc
    rcases List.mem_append.mp hc with hc | hc
    · exact unmarked_words (qualifierWords_mem hwords) c hc
    · rw [List.mem_singleton.mp hc]
      rfl
  have hsquare : Lacks ['['] (qualifierWords q ++ [' ']) := lacks_of_unmarked hunmarked (by decide)
  exact ⟨flat_of_unmarked hunmarked, hsquare.not_mem (by simp)⟩

/-- Qualifiers in front do not change the group of a text. -/
theorem group?_prepend
    {w s : List Char}
    (hw : Flat w)
    (hs : group? s = none) :
    group? (w ++ s) = none := by
  by_contra hsome
  obtain ⟨g, hg⟩ := Option.ne_none_iff_exists'.mp hsome
  obtain ⟨hbox, hbefore, hinner, hdecl⟩ := group?_eq_some_iff.mp hg
  have hopen : w ++ s = g.before ++ '(' :: (g.inner ++ ')' :: g.after) := by
    rw [hbox]
    simp [box]
  obtain ⟨front, hfront, hrest⟩ := exists_behind hw.parenFree.1 hopen
  rw [hfront] at hbefore
  have hreached := hbefore.of_prepend hw.angle.angleFree
  have hfound : group? s = some ⟨front, g.inner, g.after⟩ :=
    group?_eq_some_iff.mpr ⟨by simpa [box] using hrest, hreached, hinner, hdecl⟩
  rw [hs] at hfound
  cases hfound

theorem OpenFront.prepend
    {w s : List Char}
    (hw : Flat w)
    (hsquare : '[' ∉ w)
    (hs : OpenFront s) :
    OpenFront (w ++ s) :=
  ⟨group?_prepend hw hs.group, by simp [hsquare, hs.square], hw.parenFree.balanced.append hs.balanced,
    hw.angle.append hs.angle⟩

theorem box_prepend
    (w before inner after : List Char) :
    w ++ box before inner after = box (w ++ before) inner after := by
  simp [box]

/-- Qualifiers of a function go in front, since no declarator ends its group. -/
theorem leading_function
    {before args : List Char}
    (hbefore : Flat before)
    (hargs : Balanced args) :
    Leading (box before [] (callText args false false)) := by
  refine ⟨endsDeclarator_box (tail_callText false false hargs), fun g hg => ?_⟩
  rw [group?_box hbefore balanced_nil rfl] at hg
  cases hg
  rfl

theorem leading_method
    {before cls args : List Char} {isConst isVolatile : Bool}
    (hbefore : Flat before)
    (hcls : ∀ c ∈ cls, isMark c = false)
    (hargs : Balanced args) :
    Leading (box before (cls ++ [':', ':']) (callText args isConst isVolatile)) := by
  have hnone : ∀ x ∈ ([] : List Char), isStarOrAmp x = true := by simp
  refine ⟨endsDeclarator_box (tail_callText _ _ hargs), fun g hg => ?_⟩
  rw [group?_box hbefore (parenFree_member hcls hnone).balanced (isDeclarator_member hnone)] at hg
  cases hg
  exact endsDeclarator_append (by simp)

/-- The form after qualifiers. -/
theorem Placed.qualified
    {p : Place} {s : List Char} {q : Qualifiers}
    (h : Placed p s)
    (hwords : qualifierWords q ≠ [])
    (hp : p.qualified ≠ .nowhere) :
    Placed p.qualified (qualify s q) := by
  obtain ⟨hlead, hsquare⟩ := flat_leading hwords
  have htrail : Flat (' ' :: qualifierWords q) :=
    flat_of_unmarked (unmarked_trailing (qualifierWords_mem hwords))
  have hsplit : ∀ t, qualifierWords q ++ ' ' :: t = (qualifierWords q ++ [' ']) ++ t := by
    simp
  cases h with
  | atEnd hs =>
      rcases qualify_cases s with ⟨-, heq⟩ | ⟨-, heq⟩ | ⟨g, -, hgroup, -⟩
      · rw [heq q hwords, hsplit]
        exact .atEnd (hs.prepend hlead hsquare)
      · rw [heq q hwords]
        exact .atEnd (hs.append (.inr htrail.parenFree.1) (not_mem_words hwords rfl)
          htrail.parenFree.balanced htrail.angle)
      · rw [hs.group] at hgroup
        cases hgroup
  | @beforeDimensions front dims hfront hlast hdims =>
      have hgroup := hfront.group?_append (.inr hdims.flat.parenFree.1)
      rw [qualify_leading hwords (Tail.endsDeclarator_append (.inl hdims)) hgroup, hsplit,
        ← List.append_assoc]
      exact .beforeDimensions (hfront.prepend hlead hsquare) (hlast.prepend hlead.parenFree.1) hdims
  | @inEmptyGroup before args hbefore hargs =>
      rw [(leading_function hbefore hargs).qualify_eq hwords, hsplit, box_prepend]
      exact .inEmptyGroup (hlead.append hbefore) hargs
  | @inGroup before inner after hbefore hinner hbegins hafter =>
      have hgroup : group? (box before inner after) = some ⟨before, inner, after⟩ :=
        group?_box hbefore hinner.balanced (isDeclarator_of_begins hbegins)
      rcases qualify_cases (box before inner after) with ⟨-, heq⟩ | ⟨hends, -⟩ | ⟨g, -, hg, -, heq⟩
      · rw [heq q hwords, hsplit, box_prepend]
        exact .inGroup (hlead.append hbefore) hinner hbegins hafter
      · rw [endsDeclarator_box hafter] at hends
        cases hends
      · rw [hgroup] at hg
        cases hg
        rw [heq q hwords]
        exact .inGroup hbefore (hinner.append htrail.parenFree) (beginsDeclarator_append hbegins _)
          hafter
  | @inMemberGroup before cls args isConst isVolatile hbefore hcls hargs =>
      rw [(leading_method hbefore hcls hargs).qualify_eq hwords, hsplit, box_prepend]
      exact .inMemberGroup (hlead.append hbefore) hcls hargs
  | inMemberPointer hbefore hcls hne hstars hargs =>
      exact absurd rfl hp
  | amidDimensions hbefore hnot hfront hopen hdims hargs =>
      rw [qualify_leading hwords (endsDeclarator_box (tail_callText _ _ hargs))
        (hfront.group?_eq_none hdims hbefore _), hsplit, box_prepend]
      exact .amidDimensions (hlead.append hbefore) (not_mem_append hsquare hnot) hfront hopen hdims
        hargs
  | @behindPointer front dims hfront hopen hdims =>
      have hgroup := hfront.group?_append (.inr hdims.flat.parenFree.1)
      rw [qualify_leading hwords (Tail.endsDeclarator_append (.inl hdims)) hgroup, hsplit,
        ← List.append_assoc]
      exact .behindPointer (hfront.prepend hlead hsquare) (by simp [hopen]) hdims
  | behindInnerPointer hbefore hnot hfront hopen hdims hargs =>
      rw [qualify_leading hwords (endsDeclarator_box (tail_callText _ _ hargs))
        (hfront.group?_eq_none hdims hbefore _), hsplit, box_prepend]
      exact .behindInnerPointer (hlead.append hbefore) (not_mem_append hsquare hnot) hfront hopen
        hdims hargs

end Steps

section Sounds

theorem not_star_of_unmarked
    {c : Char}
    (hc : isMark c = false) :
    isStarOrAmp c = false := by
  refine Bool.eq_false_iff.mpr fun hstar => ?_
  rw [isMark_star hstar] at hc
  cases hc

/-- A text of several items in a row is closed when the text around it and it are. -/
theorem Closed.insert
    {front m back : List Char}
    (h : Closed (front ++ back))
    (hm : Closed m) :
    Closed (front ++ (m ++ back)) := by
  obtain ⟨d, hfront, hback⟩ : ∃ d, depthAfter 0 front = some d ∧ depthAfter d back = some 0 := by
    have hbalanced := h.balanced
    rw [Spelling.Balanced, depthAfter_append] at hbalanced
    exact Option.bind_eq_some_iff.mp hbalanced
  have hskip : ∀ w, depthAfter 0 (front ++ (m ++ w)) = depthAfter 0 (front ++ w) := by
    intro w
    simp [depthAfter_append, hfront, hm.balanced.depthAfter d]
  refine ⟨?_, fun p q heq => ?_⟩
  · rw [Spelling.Balanced, hskip]
    exact h.balanced
  · rcases append_eq_cut heq with ⟨r, rfl, rfl⟩ | ⟨r, rfl, hrest⟩
    · exact h.comma p (r ++ back) (by simp)
    · rcases append_eq_cut hrest with ⟨r', rfl, rfl⟩ | ⟨r', rfl, rfl⟩
      · -- inside the text that is inserted the depth is not less than within it alone
        have hinner := hm.balanced
        rw [Spelling.Balanced, depthAfter_append] at hinner
        obtain ⟨k, hk, -⟩ := Option.bind_eq_some_iff.mp hinner
        have hne := hm.comma r r' rfl
        rw [hk] at hne
        have hshift := depthAfter_add hk d
        rw [Nat.zero_add] at hshift
        rw [depthAfter_append, hfront, Option.bind_some, hshift]
        intro hzero
        have hsum := Option.some.inj hzero
        exact hne (by rw [show k = 0 by omega])
      · rw [hskip]
        exact h.comma (front ++ r') q (by simp)

/-- What is inserted into a text leaves arguments at its end where they are. -/
theorem ArgumentsLast.insert
    {front m back : List Char}
    (h : ArgumentsLast (front ++ back))
    (hm : Balanced m)
    (hne : m ≠ [])
    (hend : back = [] → m.getLast? ≠ some ')')
    (hback : back ≠ [] → back.head? = some ')' ∨ beginsDeclarator m = false) :
    ArgumentsLast (front ++ (m ++ back)) := by
  intro u v hv heq
  rcases List.eq_nil_or_concat back with rfl | ⟨init, last, rfl⟩
  · have hlast := congrArg List.getLast? heq
    rw [List.append_nil, List.getLast?_append_of_ne_nil _ hne, List.getLast?_concat] at hlast
    exact absurd hlast (hend rfl)
  · rw [List.concat_eq_append] at heq h hback
    have hclose : last = ')' := by
      have hlast := congrArg List.getLast? heq
      rw [← List.append_assoc, ← List.append_assoc, List.getLast?_concat,
        List.getLast?_concat] at hlast
      exact Option.some.inj hlast
    subst hclose
    have hcut : front ++ (m ++ init) = u ++ '(' :: v := by
      have hsame : front ++ (m ++ init) ++ [')'] = u ++ '(' :: v ++ [')'] := by
        simpa using heq
      exact List.append_cancel_right hsame
    rcases append_eq_cut hcut with ⟨r, rfl, rfl⟩ | ⟨r, rfl, hrest⟩
    · -- the group opens before the place
      obtain ⟨hopen, hclosed⟩ := hv
      simp only [List.mem_append, not_or] at hopen hclosed
      have hold := h u (r ++ init) ⟨by simp [hopen], by simp [hclosed]⟩ (by simp)
      cases r with
      | cons c r =>
          exact ⟨by simp, hold.2⟩
      | nil =>
          obtain ⟨c, rest, rfl⟩ := List.exists_cons_of_ne_nil hne
          refine ⟨by simp, ?_⟩
          rcases hback (by simp) with hback | hback
          · cases init with
            | nil =>
                exact absurd rfl hold.1
            | cons x init =>
                obtain rfl : x = ')' := by simpa using hback
                simp at hclosed
          · exact hback
    · rcases append_eq_cut hrest with ⟨r', rfl, rfl⟩ | ⟨r', rfl, rfl⟩
      · exact absurd (List.mem_append_left init hm.close_mem) hv.2
      · exact h (front ++ r') v hv (by simp)

/-- A text that is inserted behind the first character of a sound text. -/
theorem Sound.insert
    {front m back : List Char}
    (h : Sound (front ++ back))
    (hfront : front ≠ [])
    (hm : Closed m)
    (hangle : Lacks ['<', '>'] m)
    (hne : m ≠ [])
    (hend : back = [] → m.getLast? ≠ some ')' ∧ m.getLast? ≠ some ':')
    (hback : back ≠ [] → back.head? = some ')' ∨ beginsDeclarator m = false) :
    Sound (front ++ (m ++ back)) := by
  have hlacks : Lacks ['<', '>'] front ∧ Lacks ['<', '>'] back :=
    ⟨fun c hc => h.angle c (by simp [hc]), fun c hc => h.angle c (by simp [hc])⟩
  refine ⟨Closed.insert h.closed hm, hlacks.1.append (hangle.append hlacks.2), ?_, ?_,
    h.arguments.insert hm.balanced hne (fun hb => (hend hb).1) hback⟩
  · obtain ⟨x, front, rfl⟩ := List.exists_cons_of_ne_nil hfront
    obtain ⟨c, rest, heq, hc⟩ := h.begins
    obtain ⟨rfl, -⟩ := List.cons.inj heq
    exact ⟨x, front ++ (m ++ back), rfl, hc⟩
  · by_cases hb : back = []
    · rw [hb, List.append_nil, List.getLast?_append_of_ne_nil _ hne]
      exact (hend hb).2
    · have hlast := h.last
      rw [List.getLast?_append_of_ne_nil _ hb] at hlast
      rwa [← List.append_assoc, List.getLast?_append_of_ne_nil _ hb]

/-- The spelling with a declarator is sound. -/
theorem Sound.addDeclarator
    {s decl : List Char}
    (h : Sound s)
    (hdecl : Declarator decl) :
    Sound (addDeclarator s decl) := by
  obtain ⟨c, tail, hhead, hc⟩ := h.begins
  have hclosed : Closed decl := .of_free hdecl.flat.parenFree hdecl.comma_not_mem
  have hend : decl.getLast? ≠ some ')' ∧ decl.getLast? ≠ some ':' :=
    ⟨fun hlast => hdecl.flat.parenFree.2 (List.mem_of_getLast? hlast), hdecl.getLast?_ne⟩
  cases hgroup : group? s with
  | some g =>
      obtain ⟨hbox, -⟩ := group?_eq_some_iff.mp hgroup
      have hsplit : s = (g.before ++ '(' :: g.inner) ++ ')' :: g.after := by
        rw [hbox]
        simp [box]
      have heq : Spelling.addDeclarator s decl =
          (g.before ++ '(' :: g.inner) ++ (decl ++ ')' :: g.after) := by
        simp [Spelling.addDeclarator, hgroup]
      rw [heq]
      rw [hsplit] at h
      exact h.insert (by simp) hclosed hdecl.flat.angle hdecl.ne_nil (by simp) (by simp)
  | none =>
      cases hsquare : splitTop '[' 0 s with
      | none =>
          have heq : Spelling.addDeclarator s decl = s ++ (decl ++ []) := by
            simp [Spelling.addDeclarator, hgroup, hsquare]
          rw [heq]
          exact Sound.insert (by rwa [List.append_nil]) (by simp [hhead]) hclosed hdecl.flat.angle
            hdecl.ne_nil (fun _ => hend) (by simp)
      | some p =>
          obtain ⟨hsplit, -⟩ := (splitTop_eq_some_iff (by decide)).mp hsquare
          have hne : p.1 ≠ [] := by
            intro hnil
            rw [hhead, hnil] at hsplit
            obtain ⟨rfl, -⟩ := List.cons.inj hsplit
            cases hc
          rw [hsplit] at h
          cases hdecl with
          | @star d hstar =>
              have heq : Spelling.addDeclarator s [d] = p.1 ++ (['(', d, ')'] ++ '[' :: p.2) := by
                have hnot : d ≠ '[' := by simpa using head?_star_ne hstar
                simp [Spelling.addDeclarator, hgroup, hsquare, hnot]
              obtain ⟨hbalanced, hangle, -⟩ := balanced_starGroup hstar
              rw [heq]
              exact h.insert hne (Closed.group (flat_star hstar).parenFree.balanced) hangle (by simp)
                (by simp) (fun _ => .inr rfl)
          | dimension bound =>
              have hopen := (dimensions_single bound).head?
              have heq : Spelling.addDeclarator s (dimensionText bound) =
                  p.1 ++ (dimensionText bound ++ '[' :: p.2) := by
                simp [Spelling.addDeclarator, hgroup, hsquare, hopen]
              obtain ⟨rest, hrest⟩ := (dimensions_single bound).exists_cons
              rw [heq]
              exact h.insert hne hclosed (flat_dimensionText bound).angle (by simp [hrest]) (by simp)
                (fun _ => .inr (by rw [hrest]; rfl))

theorem closed_of_unmarked
    {s : List Char}
    (hs : ∀ c ∈ s, isMark c = false) :
    Closed s := by
  have hcomma : Lacks [','] s := lacks_of_unmarked hs (by decide)
  exact .of_free (flat_of_unmarked hs).parenFree (hcomma.not_mem (by simp))

/-- Words in front of a sound text. -/
theorem Sound.prepend
    {w s : List Char}
    (h : Sound s)
    (hne : w ≠ [])
    (hw : ∀ c ∈ w, isMark c = false) :
    Sound (w ++ s) := by
  obtain ⟨c, rest, hs, -⟩ := h.begins
  refine ⟨(closed_of_unmarked hw).append h.closed, (flat_of_unmarked hw).angle.append h.angle, ?_, ?_,
    h.arguments.prepend (flat_of_unmarked hw).parenFree.1⟩
  · obtain ⟨x, w, rfl⟩ := List.exists_cons_of_ne_nil hne
    exact ⟨x, w ++ s, rfl, hw x (by simp)⟩
  · rw [List.getLast?_append_of_ne_nil _ (by simp [hs])]
    exact h.last

theorem getLast?_words
    {words : List Char}
    (h : words ∈ wordTexts) :
    (' ' :: words).getLast? ≠ some ')' ∧ (' ' :: words).getLast? ≠ some ':' := by
  have hall : ∀ w ∈ wordTexts,
      (' ' :: w).getLast? ≠ some ')' ∧ (' ' :: w).getLast? ≠ some ':' := by
    decide
  exact hall words h

/-- The spelling with qualifiers is sound. -/
theorem Sound.qualify
    {s : List Char}
    (h : Sound s) (q : Qualifiers) :
    Sound (qualify s q) := by
  by_cases hwords : qualifierWords q = []
  · have heq : Spelling.qualify s q = s := by
      simp [Spelling.qualify, hwords]
    rwa [heq]
  · have hunmarked := unmarked_trailing (qualifierWords_mem hwords)
    have hlead : ∀ c ∈ qualifierWords q ++ [' '], isMark c = false :=
      fun c hc => hunmarked c (by simpa [or_comm] using hc)
    obtain ⟨c, rest, hhead, -⟩ := h.begins
    rcases qualify_cases s with ⟨-, heq⟩ | ⟨-, heq⟩ | ⟨g, -, hgroup, -, heq⟩
    · have hsplit : qualifierWords q ++ ' ' :: s = (qualifierWords q ++ [' ']) ++ s := by
        simp
      rw [heq q hwords, hsplit]
      exact h.prepend (by simp) hlead
    · rw [heq q hwords, ← List.append_nil (' ' :: qualifierWords q)]
      exact Sound.insert (by rwa [List.append_nil]) (by simp [hhead]) (closed_of_unmarked hunmarked)
        (flat_of_unmarked hunmarked).angle (by simp)
        (fun _ => getLast?_words (qualifierWords_mem hwords)) (by simp)
    · obtain ⟨hbox, -⟩ := group?_eq_some_iff.mp hgroup
      have hsplit : s = (g.before ++ '(' :: g.inner) ++ ')' :: g.after := by
        rw [hbox]
        simp [box]
      have hword : box g.before (g.inner ++ ' ' :: qualifierWords q) g.after =
          (g.before ++ '(' :: g.inner) ++ (' ' :: qualifierWords q ++ ')' :: g.after) := by
        simp [box]
      rw [heq q hwords, hword]
      rw [hsplit] at h
      exact h.insert (by simp) (closed_of_unmarked hunmarked) (flat_of_unmarked hunmarked).angle
        (by simp) (by simp) (by simp)

end Sounds

section Lists

theorem closed_withEllipsis
    {args : List (List Char)} (ellipsis : Bool)
    (h : ∀ a ∈ args, Closed a) :
    ∀ a ∈ withEllipsis args ellipsis, Closed a := by
  intro a ha
  cases ellipsis with
  | false =>
      exact h a ha
  | true =>
      rcases List.mem_append.mp ha with ha | ha
      · exact h a ha
      · rw [List.mem_singleton.mp ha]
        exact .of_free (by decide) (by decide)

theorem balanced_argumentText
    {args : List (List Char)} (ellipsis : Bool)
    (h : ∀ a ∈ args, Closed a) :
    Balanced (argumentText args ellipsis) := by
  rw [argumentText]
  split
  · rfl
  · exact balanced_joinWith fun a ha => (closed_withEllipsis ellipsis h a ha).balanced

theorem lacks_joinWith
    {bad : List Char} {args : List (List Char)}
    (hsep : Lacks bad [',', ' '])
    (h : ∀ a ∈ args, Lacks bad a) :
    Lacks bad (joinWith ", " args) := by
  induction args with
  | nil =>
      intro c hc
      cases hc
  | cons x args ih =>
      cases args with
      | nil =>
          rw [joinWith_singleton]
          exact h x (by simp)
      | cons y args =>
          have hrest := ih fun a ha => h a (List.mem_cons_of_mem x ha)
          have hjoin : joinWith ", " (x :: y :: args) =
              x ++ ([',', ' '] ++ joinWith ", " (y :: args)) := joinWith_cons_cons x y args
          rw [hjoin]
          exact (h x (by simp)).append (hsep.append hrest)

theorem angle_argumentText
    {args : List (List Char)} (ellipsis : Bool)
    (h : ∀ a ∈ args, Lacks ['<', '>'] a) :
    Lacks ['<', '>'] (argumentText args ellipsis) := by
  rw [argumentText]
  split
  · decide
  · refine lacks_joinWith (by decide) fun a ha => ?_
    cases ellipsis with
    | false =>
        exact h a ha
    | true =>
        rcases List.mem_append.mp ha with ha | ha
        · exact h a ha
        · rw [List.mem_singleton.mp ha]
          decide

/-- The text of arguments does not begin with a declarator. -/
theorem argumentText_begins
    {args : List (List Char)} (ellipsis : Bool)
    (h : ∀ a ∈ args, Sound a) :
    argumentText args ellipsis ≠ [] ∧ beginsDeclarator (argumentText args ellipsis) = false := by
  have hfirst : ∀ {x : List Char} {xs : List (List Char)},
      (∃ c rest, x = c :: rest ∧ isStarOrAmp c = false) →
      joinWith ", " (x :: xs) ≠ [] ∧ beginsDeclarator (joinWith ", " (x :: xs)) = false := by
    rintro x xs ⟨c, rest, rfl, hc⟩
    cases xs with
    | nil =>
        rw [joinWith_singleton]
        exact ⟨by simp, by simpa [beginsDeclarator] using hc⟩
    | cons y xs =>
        rw [joinWith_cons_cons]
        exact ⟨by simp, by simpa [beginsDeclarator] using hc⟩
  rw [argumentText]
  split
  · exact ⟨by simp, by decide⟩
  · next hne =>
      cases args with
      | nil =>
          cases ellipsis with
          | false =>
              exact absurd rfl hne
          | true =>
              exact hfirst ⟨'.', _, rfl, by decide⟩
      | cons a args =>
          obtain ⟨c, rest, ha, hc⟩ := (h a (by simp)).begins
          have hcons : withEllipsis (a :: args) ellipsis = a :: withEllipsis args ellipsis := by
            cases ellipsis <;> rfl
          rw [hcons]
          exact hfirst ⟨c, rest, ha, not_star_of_unmarked hc⟩

end Lists

section Terms

theorem closed_box
    {before inner after : List Char}
    (hbefore : Closed before)
    (hinner : Balanced inner)
    (hafter : Closed after) :
    Closed (box before inner after) := by
  have hsplit : box before inner after = before ++ ('(' :: inner ++ [')']) ++ after := by
    simp [box]
  rw [hsplit]
  exact (hbefore.append (Closed.group hinner)).append hafter

theorem closed_callText
    {args : List Char} (isConst isVolatile : Bool)
    (hargs : Balanced args) :
    Closed (callText args isConst isVolatile) := by
  have hsplit : callText args isConst isVolatile =
      ('(' :: args ++ [')']) ++ methodWords isConst isVolatile := by
    simp [callText]
  rw [hsplit]
  exact (Closed.group hargs).append (closed_of_unmarked (unmarked_methodWords _ _))

theorem getLast?_methodWords
    (isConst isVolatile : Bool) :
    (')' :: methodWords isConst isVolatile).getLast? ≠ some ':' ∧
      (methodWords isConst isVolatile = [] ∨
        (')' :: methodWords isConst isVolatile).getLast? ≠ some ')') := by
  cases isConst <;> cases isVolatile <;> decide

/-- The spelling of a function or method is sound. -/
theorem Sound.call
    {r v args : List Char} {isConst isVolatile : Bool}
    (h : Sound r)
    (hv : Balanced v)
    (hvangle : Lacks ['<', '>'] v)
    (hargs : Balanced args)
    (hangle : Lacks ['<', '>'] args)
    (hbegins : args ≠ [] ∧ beginsDeclarator args = false) :
    Sound (box r v (callText args isConst isVolatile)) := by
  obtain ⟨hlast, hwords⟩ := getLast?_methodWords isConst isVolatile
  have hgroup : ∀ {s : List Char}, Lacks ['<', '>'] s → Lacks ['<', '>'] ('(' :: s ++ [')']) :=
    fun hs => (Lacks.append (s := ['(']) (by decide) hs).append (by decide)
  have hend : Lacks ['<', '>'] (methodWords isConst isVolatile) :=
    lacks_of_unmarked (unmarked_methodWords _ _) (by decide)
  have hsplit : box r v (callText args isConst isVolatile) =
      (r ++ '(' :: v ++ [')']) ++ '(' :: args ++ ')' :: methodWords isConst isVolatile := by
    simp [box, callText]
  refine ⟨closed_box h.closed hv (closed_callText _ _ hargs), ?_, ?_, ?_, ?_⟩
  · have hgroups : box r v (callText args isConst isVolatile) =
        r ++ ('(' :: v ++ [')']) ++ ('(' :: args ++ [')']) ++ methodWords isConst isVolatile := by
      simp [box, callText]
    rw [hgroups]
    exact ((h.angle.append (hgroup hvangle)).append (hgroup hangle)).append hend
  · obtain ⟨c, rest, rfl, hc⟩ := h.begins
    exact ⟨c, _, rfl, hc⟩
  · rw [hsplit, List.getLast?_append_of_ne_nil _ (by simp)]
    exact hlast
  · intro u w hw heq
    rw [hsplit] at heq
    rcases hwords with hwords | hwords
    · rw [hwords] at heq
      obtain ⟨-, rfl⟩ := last_group_unique hargs hw.balanced heq
      exact hbegins
    · -- the qualifiers of a method stand behind the arguments
      have hlasts := congrArg List.getLast? heq
      rw [List.getLast?_append_of_ne_nil _ (by simp), List.getLast?_concat] at hlasts
      exact absurd hlasts hwords

/-- The spelling of a member pointer is sound. -/
theorem Sound.member
    {s cls : List Char}
    (h : Sound s)
    (hcls : Sound cls) :
    Sound (s ++ ' ' :: cls ++ [':', ':', '*']) := by
  have hblank : Closed [' '] := .of_free (by decide) (by decide)
  have hstar : Closed [':', ':', '*'] := .of_free (by decide) (by decide)
  have hsplit : s ++ ' ' :: cls ++ [':', ':', '*'] = (s ++ ([' '] ++ cls)) ++ [':', ':', '*'] := by
    simp
  rw [hsplit]
  refine ⟨(h.closed.append (hblank.append hcls.closed)).append hstar,
    (h.angle.append (Lacks.append (by decide) hcls.angle)).append (by decide), ?_, ?_, ?_⟩
  · obtain ⟨c, rest, rfl, hc⟩ := h.begins
    exact ⟨c, _, rfl, hc⟩
  · rw [List.getLast?_append_of_ne_nil _ (by simp)]
    decide
  · intro u v hv heq
    have hlasts := congrArg List.getLast? heq
    rw [List.getLast?_append_of_ne_nil _ (by simp), List.getLast?_concat] at hlasts
    exact absurd hlasts (by decide)

theorem PlainText.sound
    {name : List Char}
    (h : PlainText name) :
    Sound name := by
  obtain ⟨c, rest, hname⟩ := List.exists_cons_of_ne_nil h.ne_nil
  refine ⟨closed_of_unmarked h.unmarked, (flat_of_unmarked h.unmarked).angle,
    ⟨c, rest, hname, h.unmarked c (by simp [hname])⟩, h.last, fun u v hv heq => ?_⟩
  exact absurd (h.unmarked '(' (by simp [heq])) (by decide)

/-- The spelling of a term is sound. -/
theorem Plain.sound
    {t : TypeTerm}
    (h : Plain t) :
    Sound t.spelling := by
  have hlist : ∀ {args : List TypeTerm}, (∀ a ∈ args, Sound a.spelling) →
      ∀ s ∈ spellings args, Sound s := by
    intro args hargs s hs
    rw [spellings_eq_map] at hs
    obtain ⟨a, ha, rfl⟩ := List.mem_map.mp hs
    exact hargs a ha
  have hcall : ∀ {r v : List Char} {args : List TypeTerm} {isConst isVolatile : Bool},
      Sound r → Balanced v → Lacks ['<', '>'] v → (∀ a ∈ args, Sound a.spelling) →
      ∀ ellipsis, Sound (box r v
        (callText (argumentText (spellings args) ellipsis) isConst isVolatile)) := by
    intro r v args isConst isVolatile hr hv hangle hargs ellipsis
    have hargs := hlist hargs
    exact hr.call hv hangle (balanced_argumentText ellipsis fun a ha => (hargs a ha).closed)
      (angle_argumentText ellipsis fun a ha => (hargs a ha).angle)
      (argumentText_begins ellipsis hargs)
  induction h with
  | named hname =>
      exact hname.sound
  | pointer ht ih =>
      exact ih.addDeclarator (.star rfl)
  | reference ht ih =>
      exact ih.addDeclarator (.star rfl)
  | qualified ht ih =>
      exact ih.qualify _
  | array ht ih =>
      exact ih.addDeclarator (.dimension _)
  | function hr hargs ihr ihargs =>
      exact hcall ihr balanced_nil (by simp [Lacks]) ihargs _
  | method hr hcls hargs ihr ihc ihargs =>
      have hcolons : Balanced [':', ':'] := rfl
      exact hcall ihr (ihc.closed.balanced.append hcolons) (ihc.angle.append (by decide)) ihargs _
  | member ht hcls ih ihc =>
      exact ih.member ihc

theorem Plain.argumentsBalanced
    {args : List TypeTerm}
    (h : ∀ a ∈ args, Plain a) (ellipsis : Bool) :
    Balanced (argumentText (spellings args) ellipsis) := by
  refine balanced_argumentText ellipsis fun s hs => ?_
  rw [spellings_eq_map] at hs
  obtain ⟨a, ha, rfl⟩ := List.mem_map.mp hs
  exact (h a ha).sound.closed

/-- A sound text that is open. -/
theorem Sound.openFront
    {s : List Char}
    (h : Sound s)
    (hopen : isOpen s = true) :
    OpenFront s := by
  rw [isOpen, Bool.and_eq_true, Option.isNone_iff_eq_none] at hopen
  exact ⟨hopen.1, by simpa using hopen.2, h.closed.balanced, h.angle⟩

theorem Sound.flat
    {s : List Char}
    (h : Sound s)
    (hopen : '(' ∉ s) :
    Flat s :=
  flat_of_balanced hopen h.closed.balanced h.angle

theorem PlainText.openFront
    {name : List Char}
    (h : PlainText name) :
    OpenFront name := by
  have hlacks : Lacks ['(', '['] name := lacks_of_unmarked h.unmarked (by decide)
  exact ⟨group?_eq_none (hlacks.not_mem (by simp)), hlacks.not_mem (by simp),
    h.sound.closed.balanced, h.sound.angle⟩

/-- The spelling of a term has the form that its place states. -/
theorem Plain.placed
    {t : TypeTerm}
    (h : Plain t)
    (hplace : t.place ≠ .nowhere) :
    Placed t.place t.spelling := by
  have hpointed : ∀ {p : Place} {s : List Char}, p.pointed s ≠ .nowhere → p ≠ .nowhere := by
    rintro p s hp rfl
    exact hp rfl
  have hsound := h.sound
  induction h with
  | named hname =>
      exact .atEnd hname.openFront
  | pointer ht ih =>
      exact (ih (hpointed hplace) ht.sound).pointed rfl
  | reference ht ih =>
      exact (ih (hpointed hplace) ht.sound).pointed rfl
  | @qualified q t ht ih =>
      rw [place] at hplace ⊢
      split at hplace
      · next hwords =>
          have heq : qualify t.spelling q = t.spelling := by
            simp [qualify, hwords]
          rw [if_pos hwords, spelling, heq]
          exact ih hplace ht.sound
      · next hwords =>
          rw [if_neg hwords]
          split at hplace
          · next hopen =>
              rw [if_pos hopen]
              exact .atEnd (hsound.openFront hopen)
          · next hopen =>
              have hsub : t.place ≠ .nowhere := by
                intro hnowhere
                rw [hnowhere] at hplace
                exact hplace rfl
              rw [if_neg hopen]
              exact (ih hsub ht.sound).qualified hwords hplace
  | @array bound t ht ih =>
      have hsub : t.place ≠ .nowhere := by
        intro hnowhere
        rw [place, hnowhere] at hplace
        exact hplace rfl
      exact (ih hsub ht.sound).dimensioned ht.sound.arguments bound hplace
  | @function r args ellipsis hr hargs ihr ihargs =>
      rw [place] at hplace ⊢
      split at hplace
      · next hopen =>
          rw [if_pos hopen]
          exact .atEnd (hsound.openFront hopen)
      · next hopen =>
          split at hplace
          · exact absurd rfl hplace
          · next hparen =>
              rw [if_neg hopen, if_neg hparen]
              exact .inEmptyGroup (hr.sound.flat (by simpa using hparen))
                (Plain.argumentsBalanced hargs ellipsis)
  | @method r cls args ellipsis isConst isVolatile hr hcls hargs ihr ihc ihargs =>
      rw [place] at hplace ⊢
      split at hplace
      · next hopen =>
          rw [if_pos hopen]
          exact .atEnd (hsound.openFront hopen)
      · next hopen =>
          split at hplace
          · exact absurd rfl hplace
          · next hmarks =>
              rw [if_neg hopen, if_neg hmarks]
              simp only [Bool.or_eq_true, not_or, List.any_eq_true, not_exists] at hmarks
              refine .inMemberGroup (hr.sound.flat (by simpa using hmarks.1)) ?_
                (Plain.argumentsBalanced hargs ellipsis)
              intro c hc
              simpa using fun hmark => hmarks.2 c ⟨hc, hmark⟩
  | @member t cls ht hcls ih ihc =>
      rw [place] at hplace ⊢
      split at hplace
      · next hopen =>
          rw [if_pos hopen]
          exact .atEnd (hsound.openFront hopen)
      · exact absurd rfl hplace

end Terms

end TypeTerm
end TypeCatalog
