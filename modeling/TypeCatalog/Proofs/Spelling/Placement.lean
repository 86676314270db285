import TypeCatalog.Proofs.Spelling.TopLevel

/-!
# The form of a spelling

**Rule.** `Placed p s` describes the text of a spelling whose next declarator goes to the place `p`:
what stands before and after that place, and which characters do not occur there.

**Results.**
* `OpenFront.addDeclarator`, `addDeclarator_box`, `addDeclarator_before`: where a declarator goes.
* `qualify_cases`: where qualifiers go.
* `Placed.pointed`, `Placed.dimensioned`, `Placed.qualified`: the form after a declarator or
  qualifiers were written.
-/

namespace TypeCatalog

open Text Spelling

namespace TypeTerm

/-- None of the characters occurs in the text. -/
def Lacks
    (bad s : List Char) :
    Prop :=
  ∀ c ∈ s, c ∉ bad

instance
    (bad s : List Char) :
    Decidable (Lacks bad s) :=
  decidableAllChars s

/-- The text has no parenthesis or angle bracket. -/
def Flat
    (s : List Char) :
    Prop :=
  Lacks ['(', ')', '<', '>'] s

instance
    (s : List Char) :
    Decidable (Flat s) :=
  decidableAllChars s

/-- The text is made of dimensions, at least one. -/
def Dimensions
    (s : List Char) :
    Prop :=
  ∃ bound bounds, s = dimensionText bound ++ (bounds : List (Option UInt64)).flatMap dimensionText

/-- What can follow a group: dimensions, or arguments with the qualifiers of a method. -/
def Tail
    (s : List Char) :
    Prop :=
  Dimensions s ∨ ∃ args isConst isVolatile, Balanced args ∧ s = callText args isConst isVolatile

/-- A text without dimensions of which no group takes a declarator. -/
structure OpenFront
    (s : List Char) :
    Prop where
  group : group? s = none
  square : '[' ∉ s
  balanced : Balanced s
  angle : Lacks ['<', '>'] s

/-- The text before the dimensions in a group. -/
structure InnerFront
    (s : List Char) :
    Prop where
  begins : beginsDeclarator s = false
  square : '[' ∉ s
  balanced : Balanced s
  angle : Lacks ['<', '>'] s

section Characters

theorem Lacks.append
    {bad s t : List Char}
    (hs : Lacks bad s)
    (ht : Lacks bad t) :
    Lacks bad (s ++ t) := by
  intro c hc
  rcases List.mem_append.mp hc with hc | hc
  · exact hs c hc
  · exact ht c hc

theorem Lacks.not_mem
    {bad s : List Char}
    (hs : Lacks bad s) {c : Char}
    (hc : c ∈ bad) :
    c ∉ s :=
  fun hmem => hs c hmem hc

theorem Lacks.mono
    {bad bad' s : List Char}
    (hs : Lacks bad s)
    (hbad : ∀ c ∈ bad', c ∈ bad) :
    Lacks bad' s :=
  fun c hc hmem => hs c hc (hbad c hmem)

theorem Lacks.angleFree
    {s : List Char}
    (hs : Lacks ['<', '>'] s) :
    '<' ∉ s ∧ '>' ∉ s :=
  ⟨hs.not_mem (by simp), hs.not_mem (by simp)⟩

theorem Flat.append
    {s t : List Char}
    (hs : Flat s)
    (ht : Flat t) :
    Flat (s ++ t) :=
  Lacks.append hs ht

theorem Flat.parenFree
    {s : List Char}
    (hs : Flat s) :
    ParenFree s :=
  ⟨hs.not_mem (by simp), hs.not_mem (by simp)⟩

theorem Flat.angle
    {s : List Char}
    (hs : Flat s) :
    Lacks ['<', '>'] s :=
  Lacks.mono hs (by decide)

theorem Flat.reached
    {s : List Char}
    (hs : Flat s) :
    Reached '(' s :=
  ⟨covered_of_not_mem 0 (hs.not_mem (by simp)), openAngles_of_free 0 hs.angle.angleFree⟩

theorem flat_of_balanced
    {s : List Char}
    (hopen : '(' ∉ s)
    (hbalanced : Balanced s)
    (hangle : Lacks ['<', '>'] s) :
    Flat s := by
  have hclose := hbalanced.close_not_mem hopen
  intro c hc hmem
  simp only [List.mem_cons, List.not_mem_nil, or_false] at hmem
  rcases hmem with rfl | rfl | hmem
  · exact hopen hc
  · exact hclose hc
  · exact hangle c hc (by simpa using hmem)

theorem lacks_of_unmarked
    {bad s : List Char}
    (hs : ∀ c ∈ s, isMark c = false)
    (hbad : ∀ c ∈ bad, isMark c = true) :
    Lacks bad s := by
  intro c hc hmem
  have hmark := hbad c hmem
  rw [hs c hc] at hmark
  cases hmark

theorem flat_of_unmarked
    {s : List Char}
    (hs : ∀ c ∈ s, isMark c = false) :
    Flat s :=
  lacks_of_unmarked hs (by decide)

/-- The text between the brackets of a dimension. -/
def boundText :
    Option UInt64 → List Char
  | some n => decimal n.toNat
  | none => []

theorem dimensionText_eq
    (bound : Option UInt64) :
    dimensionText bound = '[' :: boundText bound ++ [']'] := by
  cases bound <;> rfl

theorem unmarked_boundText
    (bound : Option UInt64) :
    ∀ c ∈ boundText bound, isMark c = false := by
  intro c hc
  cases bound with
  | none =>
      cases hc
  | some n =>
      exact isMark_eq_false_of_class (p := Char.isDigit) (by decide)
        (Nat.isDigit_of_mem_toDigits (by decide) (by decide) hc)

theorem flat_dimensionText
    (bound : Option UInt64) :
    Flat (dimensionText bound) := by
  have hbound : Flat (boundText bound) := flat_of_unmarked (unmarked_boundText bound)
  have hopen : Flat ['['] := by decide
  have hclose : Flat [']'] := by decide
  rw [dimensionText_eq]
  exact (hopen.append hbound).append hclose

theorem flat_flatMap_dimensionText
    (bounds : List (Option UInt64)) :
    Flat (bounds.flatMap dimensionText) := by
  intro c hc
  obtain ⟨b, -, hb⟩ := List.mem_flatMap.mp hc
  exact flat_dimensionText b c hb

theorem Dimensions.flat
    {s : List Char}
    (h : Dimensions s) :
    Flat s := by
  obtain ⟨bound, bounds, rfl⟩ := h
  exact (flat_dimensionText bound).append (flat_flatMap_dimensionText bounds)

theorem dimensions_single
    (bound : Option UInt64) :
    Dimensions (dimensionText bound) :=
  ⟨bound, [], by simp⟩

theorem Dimensions.cons
    {s : List Char}
    (h : Dimensions s) (bound : Option UInt64) :
    Dimensions (dimensionText bound ++ s) := by
  obtain ⟨b, bounds, rfl⟩ := h
  exact ⟨bound, b :: bounds, rfl⟩

theorem Dimensions.exists_cons
    {s : List Char}
    (h : Dimensions s) :
    ∃ rest, s = '[' :: rest := by
  obtain ⟨bound, bounds, rfl⟩ := h
  exact ⟨_, by rw [dimensionText_eq]; rfl⟩

theorem Dimensions.exists_close
    {s : List Char}
    (h : Dimensions s) :
    ∃ front, s = front ++ [']'] := by
  obtain ⟨bound, bounds, rfl⟩ := h
  rcases List.eq_nil_or_concat bounds with rfl | ⟨bounds, b, rfl⟩
  · exact ⟨'[' :: boundText bound, by simp [dimensionText_eq]⟩
  · refine ⟨dimensionText bound ++ bounds.flatMap dimensionText ++ '[' :: boundText b, ?_⟩
    simp [dimensionText_eq]

/-- The words of qualifiers are one of the texts, unless there are none. -/
theorem qualifierWords_mem
    {q : Qualifiers}
    (h : qualifierWords q ≠ []) :
    qualifierWords q ∈ wordTexts := by
  unfold qualifierWords at h ⊢
  cases hc : q.contains .const <;> cases hv : q.contains .volatile <;>
    cases hr : q.contains .restrict <;>
    simp only [hc, hv, hr, List.filter_cons, List.filter_nil, Bool.false_eq_true, if_true,
      if_false, List.map_cons, List.map_nil] at h ⊢ <;> first | decide | exact absurd rfl h

theorem unmarked_words
    {words : List Char}
    (h : words ∈ wordTexts) :
    ∀ c ∈ words, isMark c = false := by
  have hall : ∀ w ∈ wordTexts, ∀ c ∈ w, isMark c = false := by decide
  exact hall words h

theorem unmarked_trailing
    {words : List Char}
    (h : words ∈ wordTexts) :
    ∀ c ∈ ' ' :: words, isMark c = false := by
  intro c hc
  rcases List.mem_cons.mp hc with rfl | hc
  · rfl
  · exact unmarked_words h c hc

end Characters

section Declarators

theorem afterLast_eq_some
    {front stars : List Char}
    (hstars : ∀ c ∈ stars, isStarOrAmp c = true) :
    afterLast [':', ':'] (front ++ ':' :: ':' :: stars) = some stars := by
  have hnone : ∀ s : List Char, (∀ c ∈ s, isStarOrAmp c = true) →
      afterLast [':', ':'] s = none ∧ afterLast [':', ':'] (':' :: s) = none := by
    intro s hs
    have hbase : afterLast [':', ':'] s = none := by
      induction s with
      | nil =>
          rfl
      | cons c s ih =>
          have hc : ':' ≠ c := by
            rintro rfl
            exact absurd (hs ':' (by simp)) (by decide)
          simp [afterLast, ih fun x hx => hs x (List.mem_cons_of_mem c hx), stripPrefix, hc]
    refine ⟨hbase, ?_⟩
    cases s with
    | nil =>
        rfl
    | cons c s =>
        have hc : ':' ≠ c := by
          rintro rfl
          exact absurd (hs ':' (by simp)) (by decide)
        rw [afterLast, hbase]
        simp [stripPrefix, hc]
  induction front with
  | nil =>
      rw [List.nil_append, afterLast, (hnone stars hstars).2]
      rfl
  | cons c front ih =>
      rw [List.cons_append, afterLast, ih]

theorem isDeclarator_of_begins
    {inner : List Char}
    (h : beginsDeclarator inner = true) :
    isDeclarator inner = true := by
  simp [isDeclarator, h]

theorem isDeclarator_member
    {cls stars : List Char}
    (hstars : ∀ c ∈ stars, isStarOrAmp c = true) :
    isDeclarator (cls ++ ':' :: ':' :: stars) = true := by
  have hall : stars.all isStarOrAmp = true := by
    simpa using hstars
  have hafter : afterLast "::".toList (cls ++ ':' :: ':' :: stars) = some stars :=
    afterLast_eq_some hstars
  rw [isDeclarator, hafter]
  simp [hall]

theorem beginsDeclarator_append
    {s : List Char}
    (hs : beginsDeclarator s = true) (t : List Char) :
    beginsDeclarator (s ++ t) = true := by
  cases s with
  | nil =>
      cases hs
  | cons c s =>
      exact hs

theorem star_eq
    {c : Char}
    (hc : isStarOrAmp c = true) :
    c = '*' ∨ c = '&' := by
  simpa [isStarOrAmp] using hc

theorem isMark_star
    {c : Char}
    (hc : isStarOrAmp c = true) :
    isMark c = true := by
  rcases star_eq hc with rfl | rfl <;> rfl

theorem flat_star
    {c : Char}
    (hc : isStarOrAmp c = true) :
    Flat [c] := by
  rcases star_eq hc with rfl | rfl <;> decide

theorem beginsDeclarator_star
    {c : Char}
    (hc : isStarOrAmp c = true) :
    beginsDeclarator [c] = true := by
  simpa [beginsDeclarator] using hc

theorem stars_concat
    {stars : List Char} {c : Char}
    (hstars : ∀ x ∈ stars, isStarOrAmp x = true)
    (hc : isStarOrAmp c = true) :
    ∀ x ∈ stars ++ [c], isStarOrAmp x = true := by
  intro x hx
  rcases List.mem_append.mp hx with hx | hx
  · exact hstars x hx
  · rw [List.mem_singleton.mp hx]
    exact hc

theorem eq_append_of_afterLast
    {pat s tail : List Char}
    (h : afterLast pat s = some tail) :
    ∃ front, s = front ++ (pat ++ tail) := by
  induction s with
  | nil =>
      rw [afterLast] at h
      split at h
      · next hpat =>
          obtain rfl := Option.some.inj h
          exact ⟨[], by simp [List.isEmpty_iff.mp hpat]⟩
      · cases h
  | cons c s ih =>
      rw [afterLast] at h
      split at h
      · next rest hrest =>
          obtain rfl := Option.some.inj h
          obtain ⟨front, hs⟩ := ih hrest
          exact ⟨c :: front, by rw [hs]; rfl⟩
      · exact ⟨[], by rw [stripPrefix_eq_some_iff.mp h, List.nil_append]⟩

/-- A group holds a declarator when it is empty, begins with a declarator, or is a class followed by
declarators. -/
theorem isDeclarator_iff
    {s : List Char} :
    isDeclarator s = true ↔
      s = [] ∨ beginsDeclarator s = true ∨
        ∃ cls stars, s = cls ++ ':' :: ':' :: stars ∧ ∀ c ∈ stars, isStarOrAmp c = true := by
  constructor
  · intro h
    simp only [isDeclarator, Bool.or_eq_true, List.isEmpty_iff] at h
    rcases h with (h | h) | h
    · exact .inl h
    · exact .inr (.inl h)
    · split at h
      · next tail htail =>
          obtain ⟨cls, hs⟩ := eq_append_of_afterLast htail
          exact .inr (.inr ⟨cls, tail, hs, by simpa using h⟩)
      · cases h
  · rintro (rfl | h | ⟨cls, stars, rfl, hstars⟩)
    · rfl
    · exact isDeclarator_of_begins h
    · exact isDeclarator_member hstars

theorem not_mem_member
    {c : Char} {stars : List Char}
    (hc : c ≠ ':' ∧ isStarOrAmp c = false)
    (hstars : ∀ x ∈ stars, isStarOrAmp x = true) :
    c ∉ ':' :: ':' :: stars := by
  simp only [List.mem_cons, not_or]
  refine ⟨hc.1, hc.1, fun hmem => ?_⟩
  rw [hstars c hmem] at hc
  cases hc.2

/-- With dimensions at its end, a group holds a declarator when it begins with one. -/
theorem isDeclarator_dimensions
    {dims : List Char} (inner : List Char)
    (h : Dimensions dims) :
    isDeclarator (inner ++ dims) = beginsDeclarator inner := by
  obtain ⟨rest, hrest⟩ := h.exists_cons
  obtain ⟨init, hinit⟩ := h.exists_close
  rw [Bool.eq_iff_iff, isDeclarator_iff]
  constructor
  · rintro (hnil | hbegins | ⟨cls, stars, hs, hstars⟩)
    · simp [hrest] at hnil
    · cases inner with
      | nil =>
          rw [List.nil_append, hrest] at hbegins
          cases hbegins
      | cons c inner =>
          exact hbegins
    · have hlast : (inner ++ dims).getLast? = some ']' := by
        rw [hinit, ← List.append_assoc, List.getLast?_concat]
      rw [hs, List.getLast?_append_of_ne_nil cls (by simp)] at hlast
      exact absurd (List.mem_of_getLast? hlast) (not_mem_member (by decide) hstars)
  · intro hbegins
    exact .inr (.inl (beginsDeclarator_append hbegins dims))

end Declarators

section Groups

/-- The first group of a text is found when it holds a declarator. -/
theorem group?_box
    {before inner after : List Char}
    (hbefore : Flat before)
    (hinner : Balanced inner)
    (hdecl : isDeclarator inner = true) :
    group? (box before inner after) = some ⟨before, inner, after⟩ := by
  rw [group?_box_eq after hbefore.reached hinner, if_pos hdecl]

theorem addDeclarator_box
    {before inner after : List Char}
    (hbefore : Flat before)
    (hinner : Balanced inner)
    (hdecl : isDeclarator inner = true) (decl : List Char) :
    addDeclarator (box before inner after) decl = box before (inner ++ decl) after := by
  rw [addDeclarator, group?_box hbefore hinner hdecl]
  simp [box]

theorem group?_eq_none
    {s : List Char}
    (hopen : '(' ∉ s) :
    group? s = none := by
  have hsplit : splitTop '(' 0 s = none :=
    (splitTop_eq_none_iff (by decide)).mpr (covered_of_not_mem 0 hopen)
  simp [group?, hsplit]

/-- What follows a balanced text does not matter to whether its group takes a declarator. -/
theorem group?_append
    {s : List Char}
    (hbalanced : Balanced s)
    (hangle : Lacks ['<', '>'] s)
    (hopen : '(' ∈ s) (rest : List Char) :
    group? (s ++ rest) = (group? s).map fun g => ⟨g.before, g.inner, g.after ++ rest⟩ := by
  obtain ⟨before, inner, after, hbefore, hinner, rfl⟩ := hbalanced.exists_box hopen
  have hreached : Reached '(' before := by
    refine ⟨covered_of_not_mem 0 hbefore, openAngles_of_free 0 (Lacks.angleFree fun c hc => ?_)⟩
    exact hangle c (by simp [box, hc])
  have hsplit : box before inner after ++ rest = box before inner (after ++ rest) := by
    simp [box]
  rw [hsplit, group?_box_eq _ hreached hinner, group?_box_eq _ hreached hinner]
  split <;> rfl

theorem OpenFront.group?_append
    {s rest : List Char}
    (h : OpenFront s)
    (hrest : '(' ∈ s ∨ '(' ∉ rest) :
    group? (s ++ rest) = none := by
  by_cases hopen : '(' ∈ s
  · rw [TypeTerm.group?_append h.balanced h.angle hopen, h.group]
    rfl
  · refine group?_eq_none ?_
    simpa [hopen] using hrest

theorem OpenFront.append
    {s t : List Char}
    (h : OpenFront s)
    (hrest : '(' ∈ s ∨ '(' ∉ t)
    (hsquare : '[' ∉ t)
    (hbalanced : Balanced t)
    (hangle : Lacks ['<', '>'] t) :
    OpenFront (s ++ t) :=
  ⟨h.group?_append hrest, by simp [h.square, hsquare], h.balanced.append hbalanced,
    h.angle.append hangle⟩

theorem OpenFront.addDeclarator
    {s : List Char}
    (h : OpenFront s) (decl : List Char) :
    addDeclarator s decl = s ++ decl := by
  have hsplit : splitTop '[' 0 s = none :=
    (splitTop_eq_none_iff (by decide)).mpr (covered_of_not_mem 0 h.square)
  simp [Spelling.addDeclarator, h.group, hsplit]

/-- Without a group, a dimension goes before the others, and a pointer or reference opens a group
before them. -/
theorem addDeclarator_before
    {front dims back : List Char}
    (hgroup : group? (front ++ (dims ++ back)) = none)
    (hsquare : '[' ∉ front)
    (hangle : Lacks ['<', '>'] front)
    (hdims : Dimensions dims) (decl : List Char) :
    addDeclarator (front ++ (dims ++ back)) decl =
      if decl.head? = some '[' then front ++ (decl ++ (dims ++ back))
      else box front decl (dims ++ back) := by
  obtain ⟨rest, rfl⟩ := hdims.exists_cons
  have hsplit : splitTop '[' 0 (front ++ '[' :: (rest ++ back)) = some (front, rest ++ back) :=
    splitTop_of_reached (by decide) _
      ⟨covered_of_not_mem 0 hsquare, openAngles_of_free 0 hangle.angleFree⟩
  rw [List.cons_append] at hgroup ⊢
  simp only [addDeclarator, hgroup, hsplit]
  split <;> simp [box]

theorem OpenFront.addDeclarator_dimensions
    {front dims : List Char}
    (h : OpenFront front)
    (hdims : Dimensions dims) (decl : List Char) :
    Spelling.addDeclarator (front ++ dims) decl =
      if decl.head? = some '[' then front ++ (decl ++ dims) else box front decl dims := by
  have hgroup : group? (front ++ (dims ++ [])) = none :=
    h.group?_append (.inr (by simpa using hdims.flat.parenFree.1))
  have hplace := addDeclarator_before hgroup h.square h.angle hdims decl
  simpa only [List.append_nil] using hplace

theorem InnerFront.group?_eq_none
    {before front dims : List Char}
    (h : InnerFront front)
    (hdims : Dimensions dims)
    (hbefore : Flat before) (after : List Char) :
    group? (box before (front ++ dims) after) = none := by
  have hinner : Balanced (front ++ dims) := h.balanced.append hdims.flat.parenFree.balanced
  rw [group?_box_eq after hbefore.reached hinner, isDeclarator_dimensions front hdims, h.begins]
  rfl

theorem InnerFront.addDeclarator
    {before front dims : List Char}
    (h : InnerFront front)
    (hdims : Dimensions dims)
    (hbefore : Flat before)
    (hsquare : '[' ∉ before) (after decl : List Char) :
    Spelling.addDeclarator (box before (front ++ dims) after) decl =
      if decl.head? = some '[' then box before (front ++ (decl ++ dims)) after
      else box before (box front decl dims) after := by
  have hbox : ∀ d, box before (front ++ d) after = (before ++ '(' :: front) ++ (d ++ ')' :: after) := by
    simp [box]
  have hgroup := h.group?_eq_none hdims hbefore after
  have hangle : Lacks ['<', '>'] (before ++ '(' :: front) :=
    hbefore.angle.append (Lacks.append (s := ['(']) (by decide) h.angle)
  have hnot : '[' ∉ before ++ '(' :: front := by
    simp [hsquare, h.square]
  rw [hbox] at hgroup ⊢
  rw [addDeclarator_before hgroup hnot hangle hdims]
  split <;> simp [box]

end Groups

section Ends

theorem endsDeclarator_append
    {s t : List Char}
    (ht : t ≠ []) :
    endsDeclarator (s ++ t) = endsDeclarator t := by
  rw [endsDeclarator, endsDeclarator, List.getLast?_append_of_ne_nil s ht]

theorem endsDeclarator_of_unmarked
    {s : List Char}
    (hs : ∀ c ∈ s, isMark c = false) :
    endsDeclarator s = false := by
  rw [endsDeclarator]
  cases hlast : s.getLast? with
  | none =>
      rfl
  | some c =>
      have hmark := hs c (List.mem_of_getLast? hlast)
      cases hc : isStarOrAmp c with
      | false =>
          simpa using hc
      | true =>
          rcases star_eq hc with rfl | rfl <;> cases hmark

theorem unmarked_methodWords
    (isConst isVolatile : Bool) :
    ∀ c ∈ methodWords isConst isVolatile, isMark c = false := by
  cases isConst <;> cases isVolatile <;> decide

/-- No declarator ends what follows a group. -/
theorem Tail.not_endsDeclarator
    {s : List Char}
    (h : Tail s) :
    s ≠ [] ∧ endsDeclarator s = false := by
  rcases h with ⟨bound, bounds, rfl⟩ | ⟨args, isConst, isVolatile, -, rfl⟩
  · refine ⟨by simp [dimensionText_eq], ?_⟩
    have hdims : ∀ b : Option UInt64, endsDeclarator (dimensionText b) = false := by
      intro b
      rw [dimensionText_eq, endsDeclarator_append (by simp)]
      rfl
    rcases List.eq_nil_or_concat bounds with rfl | ⟨bounds, b, rfl⟩
    · simpa using hdims bound
    · rw [List.concat_eq_append, List.flatMap_append, ← List.append_assoc,
        endsDeclarator_append (by simp [dimensionText_eq])]
      simpa using hdims b
  · refine ⟨by simp [callText], ?_⟩
    rw [callText, endsDeclarator_append (by simp)]
    cases hw : methodWords isConst isVolatile with
    | nil =>
        rfl
    | cons c rest =>
        have hunmarked := unmarked_methodWords isConst isVolatile
        rw [hw] at hunmarked
        have hsplit : ')' :: c :: rest = [')'] ++ c :: rest := rfl
        rw [hsplit, endsDeclarator_append (by simp)]
        exact endsDeclarator_of_unmarked hunmarked

theorem Tail.endsDeclarator_append
    {s tail : List Char}
    (h : Tail tail) :
    endsDeclarator (s ++ tail) = false := by
  obtain ⟨hne, hends⟩ := h.not_endsDeclarator
  rw [TypeTerm.endsDeclarator_append hne, hends]

theorem endsDeclarator_box
    {before inner after : List Char}
    (hafter : Tail after) :
    endsDeclarator (box before inner after) = false := by
  have hsplit : box before inner after = (before ++ '(' :: inner ++ [')']) ++ after := by
    simp [box]
  rw [hsplit]
  exact hafter.endsDeclarator_append

theorem balanced_nil :
    Balanced [] :=
  rfl

theorem tail_callText
    {args : List Char} (isConst isVolatile : Bool)
    (hargs : Balanced args) :
    Tail (callText args isConst isVolatile) :=
  .inr ⟨args, isConst, isVolatile, hargs, rfl⟩

end Ends

end TypeTerm

namespace Spelling

open TypeTerm

/-- Neither the spelling nor its group ends in a declarator. -/
structure Leading
    (s : List Char) :
    Prop where
  ends : endsDeclarator s = false
  group : ∀ g, group? s = some g → endsDeclarator g.inner = false

section Qualifiers

variable {q : Qualifiers} (hwords : qualifierWords q ≠ [])
include hwords

theorem qualify_trailing
    {s : List Char}
    (hs : endsDeclarator s = true) :
    qualify s q = s ++ ' ' :: qualifierWords q := by
  simp [qualify, hwords, hs]

theorem qualify_leading
    {s : List Char}
    (hs : endsDeclarator s = false)
    (hgroup : group? s = none) :
    qualify s q = qualifierWords q ++ ' ' :: s := by
  simp [qualify, hwords, hs, hgroup]

end Qualifiers

/-- The declarators of pointers, references and arrays. -/
inductive Declarator :
    List Char → Prop
  | star
      {c : Char}
      (hc : isStarOrAmp c = true) :
      Declarator [c]
  | dimension
      (bound : Option UInt64) :
      Declarator (dimensionText bound)

theorem Declarator.ne_nil
    {decl : List Char}
    (h : Declarator decl) :
    decl ≠ [] := by
  cases h with
  | star hc =>
      simp
  | dimension bound =>
      simp [dimensionText_eq]

theorem Declarator.flat
    {decl : List Char}
    (h : Declarator decl) :
    Flat decl := by
  cases h with
  | star hc =>
      exact flat_star hc
  | dimension bound =>
      exact flat_dimensionText bound

theorem Declarator.comma_not_mem
    {decl : List Char}
    (h : Declarator decl) :
    ',' ∉ decl := by
  cases h with
  | star hc =>
      rcases star_eq hc with rfl | rfl <;> decide
  | dimension bound =>
      have hbound : Lacks [','] (boundText bound) :=
        lacks_of_unmarked (unmarked_boundText bound) (by decide)
      simpa [dimensionText_eq] using hbound.not_mem (c := ',') (by simp)

theorem Declarator.getLast?_ne
    {decl : List Char}
    (h : Declarator decl) :
    decl.getLast? ≠ some ':' := by
  cases h with
  | star hc =>
      rcases star_eq hc with rfl | rfl <;> decide
  | dimension bound =>
      obtain ⟨front, hfront⟩ := (dimensions_single bound).exists_close
      rw [hfront, List.getLast?_concat]
      decide

section Places

theorem endsDeclarator_words
    (s : List Char) {q : Qualifiers}
    (hq : qualifierWords q ≠ []) :
    endsDeclarator (s ++ ' ' :: qualifierWords q) = false := by
  rw [endsDeclarator_append (by simp)]
  exact endsDeclarator_of_unmarked (unmarked_trailing (qualifierWords_mem hq))

theorem not_mem_words
    {q : Qualifiers}
    (hq : qualifierWords q ≠ []) {c : Char}
    (hc : isMark c = true) :
    c ∉ ' ' :: qualifierWords q := by
  intro hmem
  rw [unmarked_trailing (qualifierWords_mem hq) c hmem] at hc
  cases hc

/-- The place of qualifiers: in front, at the end, or in the group. -/
theorem qualify_cases
    (s : List Char) :
    (Leading s ∧ ∀ q, qualifierWords q ≠ [] → qualify s q = qualifierWords q ++ ' ' :: s) ∨
      (endsDeclarator s = true ∧
        ∀ q, qualifierWords q ≠ [] → qualify s q = s ++ ' ' :: qualifierWords q) ∨
      ∃ g, endsDeclarator s = false ∧ group? s = some g ∧ endsDeclarator g.inner = true ∧
        ∀ q, qualifierWords q ≠ [] →
          qualify s q = box g.before (g.inner ++ ' ' :: qualifierWords q) g.after := by
  cases hends : endsDeclarator s with
  | true =>
      exact .inr (.inl ⟨rfl, fun q hq => qualify_trailing hq hends⟩)
  | false =>
      cases hgroup : group? s with
      | none =>
          exact .inl ⟨⟨hends, by simp [hgroup]⟩, fun q hq => qualify_leading hq hends hgroup⟩
      | some g =>
          cases hinner : endsDeclarator g.inner with
          | false =>
              refine .inl ⟨⟨hends, by simp [hgroup, hinner]⟩, fun q hq => ?_⟩
              simp [qualify, hq, hends, hgroup, hinner]
          | true =>
              refine .inr (.inr ⟨g, rfl, rfl, hinner, fun q hq => ?_⟩)
              simp [qualify, hq, hends, hgroup, hinner, box]

theorem Leading.qualify_eq
    {s : List Char} {q : Qualifiers}
    (h : Leading s)
    (hq : qualifierWords q ≠ []) :
    qualify s q = qualifierWords q ++ ' ' :: s := by
  rcases qualify_cases s with ⟨-, hwords⟩ | ⟨hends, -⟩ | ⟨g, -, hgroup, hinner, -⟩
  · exact hwords q hq
  · rw [h.ends] at hends
    cases hends
  · rw [h.group g hgroup] at hinner
    cases hinner

/-- A spelling stays leading when qualifiers are written in front. -/
theorem Leading.prepend
    {s : List Char} {q : Qualifiers}
    (h : Leading s)
    (hq : qualifierWords q ≠ []) :
    Leading (qualifierWords q ++ ' ' :: s) := by
  have hfree : ∀ {c : Char}, isMark c = true → c ∉ qualifierWords q ++ [' '] := by
    intro c hc hmem
    exact not_mem_words hq hc (by simpa [or_comm] using hmem)
  have hsplit : qualifierWords q ++ ' ' :: s = (qualifierWords q ++ [' ']) ++ s := by
    simp
  refine ⟨?_, fun g hg => ?_⟩
  · by_cases hs : s = []
    · subst hs
      exact endsDeclarator_append (by simp)
    · rw [hsplit, endsDeclarator_append hs]
      exact h.ends
  · obtain ⟨hbox, hbefore, hinner, hdecl⟩ := group?_eq_some_iff.mp hg
    have hopen : (qualifierWords q ++ [' ']) ++ s =
        g.before ++ '(' :: (g.inner ++ ')' :: g.after) := by
      rw [← hsplit, hbox]
      simp [box]
    obtain ⟨front, hfront, hs⟩ := exists_behind (hfree rfl) hopen
    rw [hfront] at hbefore
    have hreached := hbefore.of_prepend ⟨hfree rfl, hfree rfl⟩
    refine h.group ⟨front, g.inner, g.after⟩ (group?_eq_some_iff.mpr ⟨?_, hreached, hinner, hdecl⟩)
    simpa [box] using hs

end Places

end Spelling

namespace TypeTerm

end TypeTerm
end TypeCatalog
