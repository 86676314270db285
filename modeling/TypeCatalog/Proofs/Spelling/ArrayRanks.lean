import TypeCatalog.Proofs.Spelling.Reading
import TypeCatalog.Proofs.Spelling.TopLevel

/-!
# Arrays of several dimensions

**Input.** The spelling of an element type and the bounds of an array of it, from the outermost to
the innermost. The dimensions are written one after the other, the innermost first.

**Rule.** A dimension goes to the end of the group of the spelling, or else in front of the first
dimension, or else to the end. In a group that begins with a declarator every further dimension goes
behind the last one.

**Notions.** `DimensionAt e front back` says that a dimension goes between `front` and `back`. A
further dimension goes first when the group does not begin with a declarator and the scanner comes to
the place. It goes last when the group begins with one, or when there is no group and a bracket is
counted as open at the end.

**Results.**
* `group?_insert`: no group comes into being where dimensions are written.
* `OutermostFirst.addDeclarator`, `OutermostLast.addDeclarator`: where a further dimension goes.
* `OutermostFirst.arraySpelling_eq`, `OutermostLast.arraySpelling_eq`: the order of any number of
  dimensions.
* `dimensions_in_order_iff`: a dimension is written in front of the one inside of it exactly if it
  goes first, or goes last and is the same.
-/

namespace TypeCatalog
namespace Spelling

open Text TypeTerm

/-- The spelling of an array, by its bounds from the outermost to the innermost. -/
def arraySpelling
    (bounds : List (Option UInt64)) (element : List Char) :
    List Char :=
  bounds.foldr (fun bound s => addDeclarator s (dimensionText bound)) element

/-- A dimension goes between the two parts of the spelling. -/
inductive DimensionAt
    (e : List Char) :
    List Char → List Char → Prop
  | inGroup
      {g : Group}
      (hgroup : group? e = some g) :
      DimensionAt e (g.before ++ '(' :: g.inner) (')' :: g.after)
  | beforeDimensions
      {head dims : List Char}
      (hgroup : group? e = none)
      (hsquare : splitTop '[' 0 e = some (head, dims)) :
      DimensionAt e head ('[' :: dims)
  | atEnd
      (hgroup : group? e = none)
      (hsquare : splitTop '[' 0 e = none) :
      DimensionAt e e []

/-- A further dimension goes in front of the one that follows `front`. -/
structure OutermostFirst
    (e front : List Char) :
    Prop where
  group : ∀ g, group? e = some g → beginsDeclarator g.inner = false
  reached : Reached '[' front

/-- A further dimension goes behind the one that follows `front`. -/
def OutermostLast
    (e front : List Char) :
    Prop :=
  (∃ g, group? e = some g ∧ beginsDeclarator g.inner = true) ∨
    group? e = none ∧ openAngles 0 front ≠ 0

section Declarators

/-- Dimensions in front of a dimension do not make a group hold a declarator. -/
theorem isDeclarator_of_insert
    {front dims back : List Char}
    (hdims : Dimensions dims)
    (hback : back.head? = some '[')
    (h : isDeclarator (front ++ (dims ++ back)) = true) :
    isDeclarator (front ++ back) = true := by
  obtain ⟨rest, hrest⟩ := hdims.exists_cons
  obtain ⟨back, rfl⟩ : ∃ b, back = '[' :: b := by
    cases back with
    | nil =>
        cases hback
    | cons c back =>
        exact ⟨back, by rw [Option.some.inj hback]⟩
  rw [isDeclarator_iff] at h ⊢
  rcases h with hnil | hbegins | ⟨cls, stars, hs, hstars⟩
  · simp at hnil
  · cases front with
    | nil =>
        rw [List.nil_append, hrest] at hbegins
        cases hbegins
    | cons c front =>
        exact .inr (.inl hbegins)
  · -- the class goes on beyond the dimensions
    have hcut : cls ++ ':' :: ':' :: stars = (front ++ dims) ++ '[' :: back := by
      rw [← hs, List.append_assoc]
    obtain ⟨m, hm, -⟩ := exists_ahead (not_mem_member (by decide) hstars) hcut
    exact .inr (.inr ⟨front ++ '[' :: m, stars, by simp [hm], hstars⟩)

end Declarators

section Insertion

/-- What the scanner of groups finds behind dimensions, it finds without them. -/
theorem splitGroup_dimensions
    {dims : List Char} (depth : Nat) (back : List Char)
    (hdims : Dimensions dims) :
    splitGroup depth (dims ++ back) =
      (splitGroup depth back).map fun p => (dims ++ p.1, p.2) :=
  splitGroup_append (hdims.flat.parenFree.balanced.depthAfter depth) back

theorem splitTop_dimensions_append
    {dims : List Char} (depth : Nat) (back : List Char)
    (hdims : Dimensions dims) :
    splitTop '(' depth (dims ++ back) =
      (splitTop '(' depth back).map fun p => (dims ++ p.1, p.2) := by
  have hcovered : Covered '(' depth dims :=
    covered_of_not_mem depth (hdims.flat.not_mem (by simp))
  rw [splitTop_append (by decide), (splitTop_eq_none_iff (by decide)).mpr hcovered,
    openAngles_of_free depth ⟨hdims.flat.not_mem (by simp), hdims.flat.not_mem (by simp)⟩]
  simp

theorem group?_of_split
    {s before rest : List Char}
    (h : splitTop '(' 0 s = some (before, rest)) :
    group? s = none ↔
      ∀ inner after, splitGroup 0 rest = some (inner, after) → isDeclarator inner = false := by
  rw [group?, h]
  cases hgroup : splitGroup 0 rest with
  | none =>
      simp [hgroup]
  | some p =>
      obtain ⟨inner, after⟩ := p
      cases hdecl : isDeclarator inner <;> simp [hgroup, hdecl]

/-- What the scanner of groups finds is no declarator either when dimensions are written at the end
or in front of others. -/
theorem splitGroup_insert
    {front dims back : List Char}
    (hdims : Dimensions dims)
    (hback : back = [] ∨ back.head? = some '[')
    (h : ∀ inner after, splitGroup 0 (front ++ back) = some (inner, after) →
      isDeclarator inner = false) :
    ∀ inner after, splitGroup 0 (front ++ (dims ++ back)) = some (inner, after) →
      isDeclarator inner = false := by
  intro inner after hinner
  cases hclose : splitGroup 0 front with
  | some r =>
      -- the group ends before the dimensions
      obtain ⟨hfront, hbalanced⟩ := splitGroup_eq_some hclose
      have hfound : ∀ w, splitGroup 0 (front ++ w) = some (r.1, r.2 ++ w) := by
        intro w
        rw [hfront, List.append_assoc, List.cons_append]
        exact splitGroup_balanced hbalanced _
      rw [hfound] at hinner
      obtain ⟨rfl, -⟩ := Prod.mk.inj (Option.some.inj hinner)
      exact h _ _ (hfound back)
  | none =>
      -- the dimensions are in the group, which ends behind them
      obtain ⟨depth, hdepth⟩ := depthAfter_of_splitGroup hclose
      rw [splitGroup_append hdepth, splitGroup_dimensions depth back hdims] at hinner
      obtain ⟨p, hp, heq⟩ := Option.map_eq_some_iff.mp hinner
      obtain ⟨⟨last, rest⟩, hlast, rfl⟩ := Option.map_eq_some_iff.mp hp
      obtain ⟨rfl, rfl⟩ := Prod.mk.inj heq
      have hold := h (front ++ last) rest (by rw [splitGroup_append hdepth, hlast]; rfl)
      have hhead : last.head? = some '[' := by
        obtain ⟨hsplit, -⟩ := splitGroup_eq_some hlast
        rw [hsplit] at hback
        cases last with
        | nil =>
            simp at hback
        | cons c last =>
            simpa using hback
      refine Bool.eq_false_iff.mpr fun hdecl => ?_
      rw [isDeclarator_of_insert hdims hhead hdecl] at hold
      cases hold

/-- No group comes into being where dimensions are written at the end or in front of others. -/
theorem group?_insert
    {front dims back : List Char}
    (hdims : Dimensions dims)
    (hback : back = [] ∨ back.head? = some '[')
    (h : group? (front ++ back) = none) :
    group? (front ++ (dims ++ back)) = none := by
  cases hopen : splitTop '(' 0 front with
  | some p =>
      have hsplit : ∀ w, splitTop '(' 0 (front ++ w) = some (p.1, p.2 ++ w) := by
        intro w
        rw [splitTop_append (by decide), hopen]
        rfl
      rw [group?_of_split (hsplit _)] at h ⊢
      exact splitGroup_insert hdims hback h
  | none =>
      have hsplit : ∀ w, splitTop '(' 0 (front ++ w) =
          (splitTop '(' (openAngles 0 front) w).map fun p => (front ++ p.1, p.2) := by
        intro w
        rw [splitTop_append (by decide), hopen]
        rfl
      have hnew := hsplit (dims ++ back)
      rw [splitTop_dimensions_append _ back hdims] at hnew
      cases hfound : splitTop '(' (openAngles 0 front) back with
      | none =>
          rw [hfound] at hnew
          simp [group?, hnew]
      | some p =>
          rw [hfound] at hnew
          have hold := hsplit back
          rw [hfound] at hold
          rw [group?_of_split hold] at h
          exact (group?_of_split hnew).mpr h

end Insertion

section Places

variable {e front back : List Char}

theorem exists_dimensionAt
    (e : List Char) :
    ∃ front back, DimensionAt e front back := by
  cases hgroup : group? e with
  | some g =>
      exact ⟨_, _, .inGroup hgroup⟩
  | none =>
      cases hsquare : splitTop '[' 0 e with
      | some p =>
          exact ⟨_, _, .beforeDimensions hgroup hsquare⟩
      | none =>
          exact ⟨_, _, .atEnd hgroup hsquare⟩

theorem DimensionAt.split
    (h : DimensionAt e front back) :
    e = front ++ back := by
  cases h with
  | inGroup hgroup =>
      rw [(group?_eq_some_iff.mp hgroup).1]
      simp [box]
  | beforeDimensions hgroup hsquare =>
      exact ((splitTop_eq_some_iff (by decide)).mp hsquare).1
  | atEnd hgroup hsquare =>
      simp

theorem DimensionAt.addDeclarator
    (h : DimensionAt e front back) {decl : List Char}
    (hdecl : decl.head? = some '[') :
    addDeclarator e decl = front ++ (decl ++ back) := by
  cases h with
  | inGroup hgroup =>
      simp [Spelling.addDeclarator, hgroup]
  | beforeDimensions hgroup hsquare =>
      simp [Spelling.addDeclarator, hgroup, hsquare, hdecl]
  | atEnd hgroup hsquare =>
      simp [Spelling.addDeclarator, hgroup, hsquare]

theorem head?_dimensionText
    (bound : Option UInt64) :
    (dimensionText bound).head? = some '[' := by
  rw [dimensionText_eq]
  rfl

/-- After dimensions were written in a group, it is one when it begins with a declarator. -/
theorem group?_box_dimensions
    {g : Group} {dims : List Char}
    (hg : group? e = some g)
    (hdims : Dimensions dims) :
    group? (g.before ++ '(' :: g.inner ++ (dims ++ ')' :: g.after)) =
      if beginsDeclarator g.inner then some ⟨g.before, g.inner ++ dims, g.after⟩ else none := by
  obtain ⟨-, hbefore, hinner, -⟩ := group?_eq_some_iff.mp hg
  have hbox : g.before ++ '(' :: g.inner ++ (dims ++ ')' :: g.after) =
      box g.before (g.inner ++ dims) g.after := by
    simp [box]
  rw [hbox, group?_box_eq g.after hbefore (hinner.append hdims.flat.parenFree.balanced),
    isDeclarator_dimensions g.inner hdims]

/-- Where the group does not begin with a declarator, there is none after a dimension was written. -/
theorem DimensionAt.group?_dimensions
    (h : DimensionAt e front back) {dims : List Char}
    (hdims : Dimensions dims)
    (hgroup : ∀ g, group? e = some g → beginsDeclarator g.inner = false) :
    group? (front ++ (dims ++ back)) = none := by
  have hsplit := h.split
  cases h with
  | @inGroup g hg =>
      rw [group?_box_dimensions hg hdims, hgroup g hg]
      rfl
  | beforeDimensions hg hsquare =>
      exact group?_insert hdims (.inr rfl) (by rwa [← hsplit])
  | atEnd hg hsquare =>
      exact group?_insert hdims (.inl rfl) (by rwa [← hsplit])

/-- A further dimension goes in front of those that are there. -/
theorem OutermostFirst.addDeclarator
    (hfirst : OutermostFirst e front)
    (h : DimensionAt e front back) {dims : List Char}
    (hdims : Dimensions dims) (bound : Option UInt64) :
    addDeclarator (front ++ (dims ++ back)) (dimensionText bound) =
      front ++ (dimensionText bound ++ (dims ++ back)) := by
  obtain ⟨rest, hrest⟩ := hdims.exists_cons
  have hsquare : splitTop '[' 0 (front ++ (dims ++ back)) = some (front, rest ++ back) := by
    rw [hrest]
    exact splitTop_of_reached (by decide) _ hfirst.reached
  have hplace : DimensionAt (front ++ (dims ++ back)) front ('[' :: (rest ++ back)) :=
    .beforeDimensions (h.group?_dimensions hdims hfirst.group) hsquare
  rw [hplace.addDeclarator (head?_dimensionText bound), hrest, List.cons_append]

theorem OutermostLast.openAngles_ne_zero
    (hlast : OutermostLast e front)
    (hg : group? e = none) :
    openAngles 0 front ≠ 0 := by
  rcases hlast with ⟨g, hg', -⟩ | ⟨-, hopen⟩
  · rw [hg] at hg'
    cases hg'
  · exact hopen

/-- A further dimension goes behind those that are there. -/
theorem OutermostLast.addDeclarator
    (hlast : OutermostLast e front)
    (h : DimensionAt e front back) {dims : List Char}
    (hdims : Dimensions dims) (bound : Option UInt64) :
    addDeclarator (front ++ (dims ++ back)) (dimensionText bound) =
      front ++ (dims ++ (dimensionText bound ++ back)) := by
  cases h with
  | @inGroup g hg =>
      have hbegins : beginsDeclarator g.inner = true := by
        rcases hlast with ⟨g', hg', hbegins⟩ | ⟨hnone, -⟩
        · rw [hg] at hg'
          rwa [Option.some.inj hg']
        · rw [hg] at hnone
          cases hnone
      have hgroup := group?_box_dimensions hg hdims
      rw [if_pos hbegins] at hgroup
      rw [(DimensionAt.inGroup hgroup).addDeclarator (head?_dimensionText bound)]
      simp
  | beforeDimensions hg hsquare =>
      obtain ⟨-, hreached⟩ := (splitTop_eq_some_iff (by decide)).mp hsquare
      exact absurd hreached.top (hlast.openAngles_ne_zero hg)
  | atEnd hg hsquare =>
      have hopen := hlast.openAngles_ne_zero hg
      have hgroup : group? (e ++ (dims ++ [])) = none :=
        group?_insert hdims (.inl rfl) (by rwa [List.append_nil])
      have hcovered : splitTop '[' (openAngles 0 e) dims = none :=
        (splitTop_eq_none_iff (by decide)).mpr
          (covered_of_open hopen ⟨hdims.flat.not_mem (by simp), hdims.flat.not_mem (by simp)⟩)
      have hnone : splitTop '[' 0 (e ++ (dims ++ [])) = none := by
        rw [List.append_nil, splitTop_append (by decide), hsquare, hcovered]
        rfl
      rw [(DimensionAt.atEnd hgroup hnone).addDeclarator (head?_dimensionText bound)]
      simp

/-- Dimensions of which each goes first are written from the outermost to the innermost. -/
theorem OutermostFirst.arraySpelling_eq
    (hfirst : OutermostFirst e front)
    (h : DimensionAt e front back) (bounds : List (Option UInt64)) :
    arraySpelling bounds e = front ++ (bounds.flatMap dimensionText ++ back) := by
  induction bounds with
  | nil =>
      exact h.split
  | cons bound bounds ih =>
      rw [arraySpelling, List.foldr_cons, ← arraySpelling, ih]
      cases bounds with
      | nil =>
          rw [List.flatMap_nil, List.nil_append, ← h.split,
            h.addDeclarator (head?_dimensionText bound), List.flatMap_singleton]
      | cons b bounds =>
          rw [hfirst.addDeclarator h ⟨b, bounds, List.flatMap_cons⟩]
          simp

/-- Dimensions of which each goes last are written from the innermost to the outermost. -/
theorem OutermostLast.arraySpelling_eq
    (hlast : OutermostLast e front)
    (h : DimensionAt e front back) (bounds : List (Option UInt64)) :
    arraySpelling bounds e = front ++ (bounds.reverse.flatMap dimensionText ++ back) := by
  induction bounds with
  | nil =>
      exact h.split
  | cons bound bounds ih =>
      rw [arraySpelling, List.foldr_cons, ← arraySpelling, ih]
      cases hreverse : bounds.reverse with
      | nil =>
          rw [List.flatMap_nil, List.nil_append, ← h.split,
            h.addDeclarator (head?_dimensionText bound)]
          simp [hreverse]
      | cons b rest =>
          rw [hlast.addDeclarator h ⟨b, rest, List.flatMap_cons⟩]
          simp [hreverse]

end Places

section Elsewhere

theorem not_mem_dimensionText
    {c : Char} (bound : Option UInt64)
    (hc : c ≠ '[' ∧ c ≠ ']' ∧ c.isDigit = false) :
    c ∉ dimensionText bound := by
  have hbound : c ∉ boundText bound := by
    intro hmem
    cases bound with
    | none =>
        cases hmem
    | some n =>
        have hdigit := Nat.isDigit_of_mem_toDigits (by decide) (by decide) hmem
        rw [hc.2.2] at hdigit
        cases hdigit
  simp [dimensionText_eq, hc, hbound]

/-- Two dimensions in a row begin like no text that goes on otherwise after the first of them. -/
theorem dimensionText_append_ne
    {c : Char} {m n : Option UInt64} (v w : List Char)
    (hc : c ≠ '[') :
    dimensionText n ++ c :: v ≠ dimensionText m ++ (dimensionText n ++ w) := by
  have hclose : ∀ b : Option UInt64, ']' ∉ '[' :: boundText b := by
    intro b hmem
    rcases List.mem_cons.mp hmem with hmem | hmem
    · cases hmem
    · exact absurd (unmarked_boundText b ']' hmem) (by decide)
  intro heq
  have hcut : ('[' :: boundText n) ++ ']' :: (c :: v) =
      ('[' :: boundText m) ++ ']' :: (dimensionText n ++ w) := by
    simpa [dimensionText_eq] using heq
  obtain ⟨-, hrest⟩ := first_split_unique (hclose n) (hclose m) hcut
  rw [dimensionText_eq] at hrest
  exact hc (List.cons.inj hrest).1

/-- Behind a `[` in front of the end of a group stands a character that no dimension has. -/
theorem exists_mark
    {g : Group} {head rest : List Char}
    (hdecl : isDeclarator g.inner = true)
    (hbegins : beginsDeclarator g.inner = false)
    (h : g.before ++ '(' :: g.inner = head ++ '[' :: rest) :
    '(' ∈ rest ∨ ':' ∈ rest := by
  rcases List.append_eq_append_iff.mp h with ⟨w, -, hw⟩ | ⟨w, -, hw⟩
  · cases w with
    | nil =>
        cases hw
    | cons c w =>
        -- it stands in the name of the class of a member
        have hinner : g.inner = w ++ '[' :: rest := (List.cons.inj hw).2
        rcases isDeclarator_iff.mp hdecl with hnil | hbegins' | ⟨cls, stars, hs, hstars⟩
        · simp [hinner] at hnil
        · rw [hbegins] at hbegins'
          cases hbegins'
        · obtain ⟨m, hm, -⟩ :=
            exists_ahead (not_mem_member (by decide) hstars) (hs.symm.trans hinner)
          exact .inr (by simp [hm])
  · cases w with
    | nil =>
        cases hw
    | cons c w =>
        have hrest : rest = w ++ '(' :: g.inner := (List.cons.inj hw).2
        exact .inl (by simp [hrest])

variable {e : List Char} {g : Group} (hgroup : group? e = some g)
  (hbegins : beginsDeclarator g.inner = false)
include hgroup hbegins

/-- A dimension in front of the group takes the further ones. -/
theorem addDeclarator_ne_of_ahead
    {head rest : List Char}
    (hsquare : splitTop '[' 0 (g.before ++ '(' :: g.inner) = some (head, rest))
    (m n : Option UInt64) :
    addDeclarator (g.before ++ '(' :: g.inner ++ (dimensionText n ++ ')' :: g.after))
        (dimensionText m) ≠
      g.before ++ '(' :: g.inner ++
        (dimensionText m ++ (dimensionText n ++ ')' :: g.after)) := by
  obtain ⟨-, -, -, hdecl⟩ := group?_eq_some_iff.mp hgroup
  obtain ⟨hsplit, -⟩ := (splitTop_eq_some_iff (by decide)).mp hsquare
  have hnone := (DimensionAt.inGroup hgroup).group?_dimensions (dimensions_single n)
    (fun g' hg' => by rw [hgroup] at hg'; rwa [← Option.some.inj hg'])
  have hwhole : splitTop '[' 0
      (g.before ++ '(' :: g.inner ++ (dimensionText n ++ ')' :: g.after)) =
        some (head, rest ++ (dimensionText n ++ ')' :: g.after)) := by
    rw [splitTop_append (by decide), hsquare]
    rfl
  rw [(DimensionAt.beforeDimensions hnone hwhole).addDeclarator (head?_dimensionText m), hsplit]
  intro heq
  have hcomm : dimensionText m ++ '[' :: rest = '[' :: rest ++ dimensionText m := by
    have hcancel : dimensionText m ++ '[' :: rest ++ (dimensionText n ++ ')' :: g.after) =
        '[' :: rest ++ dimensionText m ++ (dimensionText n ++ ')' :: g.after) := by
      simpa using heq
    exact List.append_cancel_right hcancel
  have hmem := mem_of_append_comm (by simp [dimensionText_eq]) hcomm
  rcases exists_mark hdecl hbegins hsplit with hmark | hmark
  · exact not_mem_dimensionText m (by decide) (hmem _ (List.mem_cons_of_mem _ hmark))
  · exact not_mem_dimensionText m (by decide) (hmem _ (List.mem_cons_of_mem _ hmark))

/-- Where a bracket is counted as open, further dimensions go behind the group. -/
theorem addDeclarator_ne_of_behind
    (hcovered : Covered '[' 0 (g.before ++ '(' :: g.inner))
    (hopen : openAngles 0 (g.before ++ '(' :: g.inner) ≠ 0)
    (m n : Option UInt64) :
    addDeclarator (g.before ++ '(' :: g.inner ++ (dimensionText n ++ ')' :: g.after))
        (dimensionText m) ≠
      g.before ++ '(' :: g.inner ++
        (dimensionText m ++ (dimensionText n ++ ')' :: g.after)) := by
  have hnone := (DimensionAt.inGroup hgroup).group?_dimensions (dimensions_single n)
    (fun g' hg' => by rw [hgroup] at hg'; rwa [← Option.some.inj hg'])
  -- all that stands before the end of the group is covered
  have hfront : Covered '[' 0 (g.before ++ '(' :: g.inner ++ (dimensionText n ++ [')'])) := by
    have hflat := flat_dimensionText n
    have hangle : '<' ∉ dimensionText n ++ [')'] ∧ '>' ∉ dimensionText n ++ [')'] := by
      simp [show '<' ∉ dimensionText n from hflat.not_mem (by simp),
        show '>' ∉ dimensionText n from hflat.not_mem (by simp)]
    exact (covered_append (by decide)).mpr ⟨hcovered, covered_of_open hopen hangle⟩
  have htext : g.before ++ '(' :: g.inner ++ (dimensionText n ++ ')' :: g.after) =
      (g.before ++ '(' :: g.inner ++ (dimensionText n ++ [')'])) ++ g.after := by
    simp
  obtain ⟨last, back, hplace⟩ : ∃ last back, DimensionAt
      (g.before ++ '(' :: g.inner ++ (dimensionText n ++ ')' :: g.after))
      (g.before ++ '(' :: g.inner ++ (dimensionText n ++ [')']) ++ last) back := by
    cases hsquare : splitTop '[' 0
        (g.before ++ '(' :: g.inner ++ (dimensionText n ++ ')' :: g.after)) with
    | none =>
        have hplace := DimensionAt.atEnd hnone hsquare
        exact ⟨g.after, [], by rwa [htext] at hplace ⊢⟩
    | some p =>
        have hplace := DimensionAt.beforeDimensions hnone hsquare
        rw [htext] at hsquare
        obtain ⟨last, hlast⟩ := exists_of_covered (by decide) hfront hsquare
        exact ⟨last, _, by rwa [hlast] at hplace⟩
  rw [hplace.addDeclarator (head?_dimensionText m)]
  intro heq
  have hparen : ')' ≠ '[' := by
    decide
  exact dimensionText_append_ne (last ++ (dimensionText m ++ back)) (')' :: g.after) hparen
    (by simpa using heq)

omit hgroup hbegins in
/-- A further dimension that goes neither first nor last is not written next to the other one in
front of it. -/
theorem DimensionAt.addDeclarator_ne
    {front back : List Char}
    (h : DimensionAt e front back)
    (hfirst : ¬ OutermostFirst e front)
    (hlast : ¬ OutermostLast e front) (m n : Option UInt64) :
    Spelling.addDeclarator (front ++ (dimensionText n ++ back)) (dimensionText m) ≠
      front ++ (dimensionText m ++ (dimensionText n ++ back)) := by
  cases h with
  | @inGroup g hgroup =>
      have hbegins : beginsDeclarator g.inner = false :=
        Bool.eq_false_iff.mpr fun hbegins => hlast (.inl ⟨g, hgroup, hbegins⟩)
      have hnone : ∀ g', group? e = some g' → beginsDeclarator g'.inner = false := by
        intro g' hg'
        rw [hgroup] at hg'
        rwa [← Option.some.inj hg']
      cases hsquare : splitTop '[' 0 (g.before ++ '(' :: g.inner) with
      | some p =>
          exact addDeclarator_ne_of_ahead hgroup hbegins hsquare m n
      | none =>
          have hcovered := (splitTop_eq_none_iff (by decide)).mp hsquare
          exact addDeclarator_ne_of_behind hgroup hbegins hcovered
            (fun htop => hfirst ⟨hnone, hcovered, htop⟩) m n
  | beforeDimensions hgroup hsquare =>
      have hreached := ((splitTop_eq_some_iff (by decide)).mp hsquare).2
      exact absurd ⟨by simp [hgroup], hreached⟩ hfirst
  | atEnd hgroup hsquare =>
      have hcovered := (splitTop_eq_none_iff (by decide)).mp hsquare
      by_cases htop : openAngles 0 e = 0
      · exact absurd ⟨by simp [hgroup], hcovered, htop⟩ hfirst
      · exact absurd (.inr ⟨hgroup, htop⟩) hlast

end Elsewhere

/-- A dimension goes to a place in the spelling of the element. An array of arrays has its dimension
immediately before that of its elements exactly if further dimensions go first, or go last and both
bounds are the same. Where they go first, all dimensions are in order from the outermost to the
innermost; where they go last, they are in the opposite order. -/
theorem dimensions_in_order_iff
    (e : List Char) :
    ∃ front back, e = front ++ back ∧
      (∀ n, addDeclarator e (dimensionText n) = front ++ (dimensionText n ++ back)) ∧
      (∀ m n, addDeclarator (addDeclarator e (dimensionText n)) (dimensionText m) =
          front ++ (dimensionText m ++ (dimensionText n ++ back)) ↔
        OutermostFirst e front ∨ m = n ∧ OutermostLast e front) ∧
      (OutermostFirst e front → ∀ bounds,
        arraySpelling bounds e = front ++ (bounds.flatMap dimensionText ++ back)) ∧
      (OutermostLast e front → ∀ bounds,
        arraySpelling bounds e = front ++ (bounds.reverse.flatMap dimensionText ++ back)) := by
  obtain ⟨front, back, hplace⟩ := exists_dimensionAt e
  refine ⟨front, back, hplace.split, fun n => hplace.addDeclarator (head?_dimensionText n),
    fun m n => ?_, fun hfirst => hfirst.arraySpelling_eq hplace,
    fun hlast => hlast.arraySpelling_eq hplace⟩
  rw [hplace.addDeclarator (head?_dimensionText n)]
  constructor
  · intro heq
    by_cases hfirst : OutermostFirst e front
    · exact .inl hfirst
    · by_cases hlast : OutermostLast e front
      · rw [hlast.addDeclarator hplace (dimensions_single n)] at heq
        have hswap : dimensionText n ++ dimensionText m ++ back =
            dimensionText m ++ dimensionText n ++ back := by
          simpa using heq
        exact .inr ⟨(dimensionText_unique (List.append_cancel_right hswap)).2, hlast⟩
      · exact absurd heq (hplace.addDeclarator_ne hfirst hlast m n)
  · rintro (hfirst | ⟨rfl, hlast⟩)
    · exact hfirst.addDeclarator hplace (dimensions_single n) m
    · exact hlast.addDeclarator hplace (dimensions_single m) m

-- a pointer to a member function keeps the order, since its group begins with the class
example : arraySpelling [some 2, some 3, none] "int(S::*)(void)".toList =
    "int(S::*[2][3][])(void)".toList := by
  decide

/-- An array of two arrays of three pointers to functions, of pointers to arrays, and of instances
with a comparison has the dimensions of an array of three arrays of two. -/
theorem dimensions_reversed :
    addDeclarator (addDeclarator "int(*)(void)".toList "[3]".toList) "[2]".toList =
        "int(*[3][2])(void)".toList ∧
      addDeclarator (addDeclarator "int(*)[4]".toList "[3]".toList) "[2]".toList =
        "int(*[3][2])[4]".toList ∧
      addDeclarator (addDeclarator "test<(1<2)>".toList "[3]".toList) "[2]".toList =
        "test<(1<2)>[3][2]".toList := by
  decide

end Spelling
end TypeCatalog
