import TypeCatalog.Proofs.Spelling.Formation

/-!
# Reading a spelling back

**Input.** The spelling of a clear term that is not a name.

**Rule.** The form of a text is found from its last mark. The form says where the outermost part of
the type was written: before a name, at the end, before the dimensions, or into a group.

**Results.**
* `box_unique`: the group that a declarator goes into is determined by the text.
* `argumentText_injective`: the arguments of a function are determined by their list.
* `Reading.unique`: a text is read in at most one way.
* `Plain.reading`: the spelling of a clear term is read as its outermost part.
* `Plain.head_unique`: clear terms of one spelling have the same outermost part.
-/

namespace TypeCatalog

open Text Spelling

namespace TypeTerm

/-- The outermost part of a type, with the spellings of the types that it refers to. -/
inductive TypeHead where
  | pointer (target : List Char)
  | reference (target : List Char)
  | qualified (words target : List Char)
  | array (bound : Option UInt64) (element : List Char)
  | function (result : List Char) (args : List (List Char)) (ellipsis : Bool)
  | method (result cls : List Char) (args : List (List Char)) (ellipsis isConst isVolatile : Bool)
  | member (type cls : List Char)

/-- The outermost part of a term that is not a name. -/
def head? :
    TypeTerm → Option TypeHead
  | named _ => none
  | pointer t => some (.pointer t.spelling)
  | reference t => some (.reference t.spelling)
  | qualified q t => some (.qualified (qualifierWords q) t.spelling)
  | array bound t => some (.array bound t.spelling)
  | function r args ellipsis => some (.function r.spelling (spellings args) ellipsis)
  | method r cls args ellipsis isConst isVolatile =>
      some (.method r.spelling cls.spelling (spellings args) ellipsis isConst isVolatile)
  | member t cls => some (.member t.spelling cls.spelling)

section Groups

theorem methodWords_injective
    {isConst isVolatile isConst' isVolatile' : Bool}
    (h : methodWords isConst isVolatile = methodWords isConst' isVolatile') :
    isConst = isConst' ∧ isVolatile = isVolatile' := by
  revert h
  revert isConst isVolatile isConst' isVolatile'
  decide

theorem close_not_mem_methodWords
    (isConst isVolatile : Bool) :
    ')' ∉ methodWords isConst isVolatile := by
  cases isConst <;> cases isVolatile <;> decide

theorem callText_injective
    {args args' : List Char} {isConst isVolatile isConst' isVolatile' : Bool}
    (h : callText args isConst isVolatile = callText args' isConst' isVolatile') :
    args = args' ∧ isConst = isConst' ∧ isVolatile = isVolatile' := by
  obtain ⟨hargs, hwords⟩ := last_split_unique (close_not_mem_methodWords _ _)
    (close_not_mem_methodWords _ _) h
  exact ⟨(List.cons.inj hargs).2, methodWords_injective hwords⟩

theorem Dimensions.ne_methodWords
    {s : List Char} {isConst isVolatile : Bool}
    (h : Dimensions s) :
    s ≠ methodWords isConst isVolatile := by
  intro heq
  have hhead := h.head?
  rw [heq] at hhead
  revert hhead
  cases isConst <;> cases isVolatile <;> decide

theorem box_callText
    (u v args : List Char) (isConst isVolatile : Bool) :
    box u v (callText args isConst isVolatile) =
      box u v ('(' :: args) ++ ')' :: methodWords isConst isVolatile := by
  simp [box, callText]

/-- The group that a declarator goes into is determined by the text: it is the last one, or the last
but one before arguments. -/
theorem box_unique
    {u v a u' v' a' : List Char}
    (hv : Balanced v)
    (hv' : Balanced v')
    (ha : Tail a)
    (ha' : Tail a')
    (h : box u v a = box u' v' a') :
    u = u' ∧ v = v' ∧ a = a' := by
  -- both texts are cut after the last parenthesis
  rcases ha with hdims | ⟨args, isConst, isVolatile, hargs, rfl⟩
  · have hclose : ')' ∉ a := hdims.flat.not_mem (by simp)
    rcases ha' with hdims' | ⟨args', isConst', isVolatile', hargs', rfl⟩
    · have hclose' : ')' ∉ a' := hdims'.flat.not_mem (by simp)
      obtain ⟨hgroup, rfl⟩ := last_split_unique hclose hclose' h
      obtain ⟨rfl, rfl⟩ := last_group_unique hv hv' (congrArg (· ++ [')']) hgroup)
      exact ⟨rfl, rfl, rfl⟩
    · rw [box_callText] at h
      have hwords := (last_split_unique hclose (close_not_mem_methodWords _ _) h).2
      exact absurd hwords hdims.ne_methodWords
  · rw [box_callText] at h
    rcases ha' with hdims' | ⟨args', isConst', isVolatile', hargs', rfl⟩
    · have hclose' : ')' ∉ a' := hdims'.flat.not_mem (by simp)
      have hwords := (last_split_unique (close_not_mem_methodWords _ _) hclose' h).2
      exact absurd hwords.symm hdims'.ne_methodWords
    · rw [box_callText] at h
      obtain ⟨hcall, hwords⟩ := last_split_unique (close_not_mem_methodWords _ _)
        (close_not_mem_methodWords _ _) h
      obtain ⟨rfl, rfl⟩ := methodWords_injective hwords
      have hlast : (u ++ '(' :: v ++ [')']) ++ '(' :: args ++ [')'] =
          (u' ++ '(' :: v' ++ [')']) ++ '(' :: args' ++ [')'] := by
        simpa [box] using congrArg (· ++ [')']) hcall
      obtain ⟨hbefore, rfl⟩ := last_group_unique hargs hargs' hlast
      obtain ⟨rfl, rfl⟩ := last_group_unique hv hv' hbefore
      exact ⟨rfl, rfl, rfl⟩

end Groups

section Arguments

/-- What an argument of a function is spelled like. -/
structure ArgumentText
    (a : List Char) :
    Prop where
  closed : Closed a
  ne_ellipsis : a ≠ "...".toList

theorem withEllipsis_injective
    {args args' : List (List Char)} {ellipsis ellipsis' : Bool}
    (hargs : ∀ a ∈ args, a ≠ "...".toList)
    (hargs' : ∀ a ∈ args', a ≠ "...".toList)
    (h : withEllipsis args ellipsis = withEllipsis args' ellipsis') :
    args = args' ∧ ellipsis = ellipsis' := by
  cases ellipsis with
  | false =>
      cases ellipsis' with
      | false =>
          exact ⟨h, rfl⟩
      | true =>
          have heq : args = args' ++ ["...".toList] := h
          have hmem : "...".toList ∈ args := by simp [heq]
          exact absurd rfl (hargs _ hmem)
  | true =>
      cases ellipsis' with
      | false =>
          have heq : args ++ ["...".toList] = args' := h
          have hmem : "...".toList ∈ args' := by simp [← heq]
          exact absurd rfl (hargs' _ hmem)
      | true =>
          exact ⟨List.append_cancel_right h, rfl⟩

/-- A list of arguments other than a single `void` is not spelled like no arguments. -/
theorem joinWith_ne_void
    {args : List (List Char)} {ellipsis : Bool}
    (hargs : ∀ a ∈ args, ArgumentText a)
    (hvoid : ¬ (args = ["void".toList] ∧ ellipsis = false))
    (hne : withEllipsis args ellipsis ≠ []) :
    joinWith ", " (withEllipsis args ellipsis) ≠ "void".toList := by
  intro h
  have hclosed : ∀ a ∈ ["void".toList], Closed a := by
    intro a ha
    rw [List.mem_singleton.mp ha]
    exact closed_of_unmarked (by decide)
  have heq : withEllipsis args ellipsis = ["void".toList] := by
    refine joinWith_injective (closed_withEllipsis ellipsis fun a ha => (hargs a ha).closed) hclosed
      hne (by simp) ?_
    rw [h, joinWith_singleton]
  cases ellipsis with
  | false =>
      exact hvoid ⟨heq, rfl⟩
  | true =>
      have hlast := congrArg List.getLast? heq
      rw [withEllipsis, if_pos rfl, List.getLast?_concat] at hlast
      exact absurd (Option.some.inj hlast) (by decide)

/-- The arguments of a function are determined by their list. -/
theorem argumentText_injective
    {args args' : List (List Char)} {ellipsis ellipsis' : Bool}
    (hargs : ∀ a ∈ args, ArgumentText a)
    (hargs' : ∀ a ∈ args', ArgumentText a)
    (hvoid : ¬ (args = ["void".toList] ∧ ellipsis = false))
    (hvoid' : ¬ (args' = ["void".toList] ∧ ellipsis' = false))
    (h : argumentText args ellipsis = argumentText args' ellipsis') :
    args = args' ∧ ellipsis = ellipsis' := by
  have hclosed := closed_withEllipsis ellipsis fun a ha => (hargs a ha).closed
  have hclosed' := closed_withEllipsis ellipsis' fun a ha => (hargs' a ha).closed
  refine withEllipsis_injective (fun a ha => (hargs a ha).ne_ellipsis)
    (fun a ha => (hargs' a ha).ne_ellipsis) ?_
  rw [argumentText, argumentText] at h
  by_cases hnil : withEllipsis args ellipsis = []
  · by_cases hnil' : withEllipsis args' ellipsis' = []
    · rw [hnil, hnil']
    · rw [if_pos hnil, if_neg hnil'] at h
      exact absurd h.symm (joinWith_ne_void hargs' hvoid' hnil')
  · by_cases hnil' : withEllipsis args' ellipsis' = []
    · rw [if_neg hnil, if_pos hnil'] at h
      exact absurd h (joinWith_ne_void hargs hvoid hnil)
    · rw [if_neg hnil, if_neg hnil'] at h
      exact joinWith_injective hclosed hclosed' hnil hnil' h

end Arguments

section Suffixes

/-- What is written at the end of a spelling, or of the group in it. -/
inductive Suffix where
  | pointer
  | reference
  | words (text : List Char)
  | dimension (bound : Option UInt64)

namespace Suffix

/-- The text of a suffix. -/
def text :
    Suffix → List Char
  | pointer => ['*']
  | reference => ['&']
  | words w => ' ' :: w
  | dimension bound => dimensionText bound

/-- The outermost part of the type that the suffix makes of another. -/
def head :
    Suffix → List Char → TypeHead
  | pointer => .pointer
  | reference => .reference
  | words w => .qualified w
  | dimension bound => .array bound

/-- Qualifiers follow a pointer or reference, and a dimension stands in the group of one. -/
def Fits
    (w : List Char) :
    Suffix → Prop
  | words text => text ∈ wordTexts ∧ endsDeclarator w = true
  | dimension _ => beginsDeclarator w = true
  | _ => True

/-- The last character tells the suffixes apart. -/
def Ends :
    Suffix → Char → Prop
  | pointer, c => c = '*'
  | reference, c => c = '&'
  | words _, c => isMark c = false ∧ c ≠ ':'
  | dimension _, c => c = ']'

theorem exists_ends
    {x : Suffix} {w : List Char}
    (hfits : x.Fits w) :
    ∃ c, (w ++ x.text).getLast? = some c ∧ x.Ends c := by
  cases x with
  | pointer =>
      exact ⟨'*', List.getLast?_concat, rfl⟩
  | reference =>
      exact ⟨'&', List.getLast?_concat, rfl⟩
  | words text =>
      have hall : ∀ t ∈ wordTexts,
          (' ' :: t).getLast? = some 't' ∨ (' ' :: t).getLast? = some 'e' := by
        decide
      rw [Suffix.text, List.getLast?_append_of_ne_nil w (by simp)]
      rcases hall text hfits.1 with hlast | hlast
      · exact ⟨'t', hlast, rfl, by decide⟩
      · exact ⟨'e', hlast, rfl, by decide⟩
  | dimension bound =>
      refine ⟨']', ?_, rfl⟩
      rw [text, dimensionText_eq, ← List.append_assoc, List.getLast?_concat]

end Suffix

theorem boundText_injective
    {bound bound' : Option UInt64}
    (h : boundText bound = boundText bound') :
    bound = bound' := by
  have hne : ∀ n : UInt64, decimal n.toNat ≠ [] := fun n => Nat.toDigits_ne_nil
  cases bound with
  | none =>
      cases bound' with
      | none =>
          rfl
      | some n =>
          exact absurd h.symm (hne n)
  | some m =>
      cases bound' with
      | none =>
          exact absurd h (hne m)
      | some n =>
          have hnat : m.toNat = n.toNat := by
            have hread := congrArg (Nat.ofDigitChars 10 · 0) h
            simpa [boundText, decimal, Nat.ofDigitChars_toDigits] using hread
          rw [UInt64.toNat_inj.mp hnat]

theorem dimensionText_unique
    {w w' : List Char} {bound bound' : Option UInt64}
    (h : w ++ dimensionText bound = w' ++ dimensionText bound') :
    w = w' ∧ bound = bound' := by
  have hfree : ∀ b : Option UInt64, '[' ∉ boundText b := by
    intro b hb
    exact absurd (unmarked_boundText b '[' hb) (by decide)
  rw [dimensionText_eq, dimensionText_eq, ← List.append_assoc, ← List.append_assoc] at h
  obtain ⟨hw, hbound⟩ :=
    last_split_unique (hfree bound) (hfree bound') (List.append_cancel_right h)
  exact ⟨hw, boundText_injective hbound⟩

theorem exists_star_of_endsDeclarator
    {w : List Char}
    (h : endsDeclarator w = true) :
    ∃ front c, isStarOrAmp c = true ∧ w = front ++ [c] := by
  rcases List.eq_nil_or_concat w with rfl | ⟨front, c, rfl⟩
  · cases h
  · rw [List.concat_eq_append] at h ⊢
    rw [endsDeclarator_append (by simp)] at h
    exact ⟨front, c, by simpa [endsDeclarator] using h, rfl⟩

/-- Qualifiers at the end begin after the last declarator. -/
theorem words_unique
    {w w' words words' : List Char}
    (hwords : words ∈ wordTexts)
    (hwords' : words' ∈ wordTexts)
    (hends : endsDeclarator w = true)
    (hends' : endsDeclarator w' = true)
    (h : w ++ ' ' :: words = w' ++ ' ' :: words') :
    w = w' ∧ words = words' := by
  obtain ⟨front, c, hc, rfl⟩ := exists_star_of_endsDeclarator hends
  obtain ⟨front', c', hc', rfl⟩ := exists_star_of_endsDeclarator hends'
  rw [List.append_assoc, List.append_assoc] at h
  obtain ⟨rfl, rfl, htail⟩ := last_cut_unique (P := fun c => isMark c = true) (isMark_star hc)
    (isMark_star hc')
    (fun x hx hmark => by simp [unmarked_trailing hwords x hx] at hmark)
    (fun x hx hmark => by simp [unmarked_trailing hwords' x hx] at hmark) h
  exact ⟨rfl, (List.cons.inj htail).2⟩

/-- A suffix and the text before it are determined by the whole text. -/
theorem Suffix.unique
    {x x' : Suffix} {w w' : List Char}
    (hfits : x.Fits w)
    (hfits' : x'.Fits w')
    (h : w ++ x.text = w' ++ x'.text) :
    w = w' ∧ x = x' := by
  obtain ⟨c, hc, hends⟩ := Suffix.exists_ends hfits
  obtain ⟨c', hc', hends'⟩ := Suffix.exists_ends hfits'
  rw [h, hc'] at hc
  cases hc
  cases x with
  | pointer =>
      cases hends
      cases x' with
      | pointer =>
          exact ⟨List.append_cancel_right h, rfl⟩
      | reference =>
          cases hends'
      | words text =>
          exact absurd hends'.1 (by decide)
      | dimension bound =>
          cases hends'
  | reference =>
      cases hends
      cases x' with
      | pointer =>
          cases hends'
      | reference =>
          exact ⟨List.append_cancel_right h, rfl⟩
      | words text =>
          exact absurd hends'.1 (by decide)
      | dimension bound =>
          cases hends'
  | words text =>
      cases x' with
      | pointer =>
          cases hends'
          exact absurd hends.1 (by decide)
      | reference =>
          cases hends'
          exact absurd hends.1 (by decide)
      | words text' =>
          obtain ⟨rfl, rfl⟩ := words_unique hfits.1 hfits'.1 hfits.2 hfits'.2 h
          exact ⟨rfl, rfl⟩
      | dimension bound =>
          cases hends'
          exact absurd hends.1 (by decide)
  | dimension bound =>
      cases hends
      cases x' with
      | pointer =>
          cases hends'
      | reference =>
          cases hends'
      | words text =>
          exact absurd hends'.1 (by decide)
      | dimension bound' =>
          obtain ⟨rfl, rfl⟩ := dimensionText_unique h
          exact ⟨rfl, rfl⟩

end Suffixes

section Forms

/-- Where the outermost part of a type is written. -/
inductive Form where
  | leading
  | outer
  | member
  | bracketed
  | called
  | other
deriving DecidableEq

/-- The form of a text, from its last mark. -/
def form
    (s : List Char) :
    Form :=
  match s.reverse.find? isMark with
  | none => .leading
  | some c =>
      if isStarOrAmp c then if s.reverse.take 2 = ['*', ':'] then .member else .outer
      else if c = ']' then .bracketed
      else if c = ')' then .called
      else .other

/-- A text with arguments, read at the group before them. -/
inductive Boxed
    (u v a : List Char) (h : TypeHead) :
    Prop
  | suffix
      {w : List Char} {x : Suffix}
      (hfits : x.Fits w)
      (hv : v = w ++ x.text)
      (hh : h = x.head (box u w a))
  | dimension
      {front dims : List Char} {bound : Option UInt64}
      (hbegins : beginsDeclarator v = false)
      (hsquare : '[' ∉ front)
      (hopen : '(' ∉ front)
      (hdims : Dimensions (dimensionText bound ++ dims))
      (hv : v = front ++ (dimensionText bound ++ dims))
      (hh : h = .array bound (box u (front ++ dims) a))
  | opened
      {front dims : List Char} {x : Suffix}
      (hstar : x = .pointer ∨ x = .reference)
      (hbegins : beginsDeclarator v = false)
      (hsquare : '[' ∉ front)
      (hdims : Dimensions dims)
      (hv : v = box front x.text dims)
      (hh : h = x.head (box u (front ++ dims) a))
  | function
      {args : List (List Char)} {ellipsis : Bool}
      (hargs : ∀ arg ∈ args, ArgumentText arg)
      (hvoid : ¬ (args = ["void".toList] ∧ ellipsis = false))
      (hv : v = [])
      (ha : a = callText (argumentText args ellipsis) false false)
      (hh : h = .function u args ellipsis)
  | method
      {cls : List Char} {args : List (List Char)} {ellipsis isConst isVolatile : Bool}
      (hargs : ∀ arg ∈ args, ArgumentText arg)
      (hvoid : ¬ (args = ["void".toList] ∧ ellipsis = false))
      (hv : v = cls ++ [':', ':'])
      (ha : a = callText (argumentText args ellipsis) isConst isVolatile)
      (hh : h = .method u cls args ellipsis isConst isVolatile)

/-- The outermost part of the type that a text of the form spells. -/
inductive Reading
    (s : List Char) (h : TypeHead) :
    Form → Prop
  | leading
      {words name : List Char}
      (hwords : words ∈ wordTexts)
      (hapart : Apart words name)
      (hs : s = words ++ ' ' :: name)
      (hh : h = .qualified words name) :
      Reading s h .leading
  | outer
      {w : List Char} {x : Suffix}
      (hfits : x.Fits w)
      (hs : s = w ++ x.text)
      (hh : h = x.head w) :
      Reading s h .outer
  | member
      {type cls : List Char}
      (hblank : ' ' ∉ cls)
      (hs : s = type ++ ' ' :: cls ++ [':', ':', '*'])
      (hh : h = .member type cls) :
      Reading s h .member
  | dimensions
      {front dims : List Char} {bound : Option UInt64}
      (hsquare : '[' ∉ front)
      (hlast : ArgumentsLast front)
      (hdims : Dimensions (dimensionText bound ++ dims))
      (hs : s = front ++ (dimensionText bound ++ dims))
      (hh : h = .array bound (front ++ dims)) :
      Reading s h .bracketed
  | pointed
      {u v w dims : List Char} {x : Suffix}
      (hv : ParenFree v)
      (hbegins : beginsDeclarator v = true)
      (hdims : Dimensions dims)
      (hs : s = box u v dims)
      (hfits : x.Fits w)
      (hvw : v = w ++ x.text)
      (hh : h = x.head (unbox u w dims)) :
      Reading s h .bracketed
  | called
      {u v a args : List Char} {isConst isVolatile : Bool}
      (hv : Balanced v)
      (hargs : Balanced args)
      (ha : a = callText args isConst isVolatile)
      (hs : s = box u v a)
      (hread : Boxed u v a h) :
      Reading s h .called

theorem Suffix.ne_class
    {x : Suffix} {w : List Char}
    (hfits : x.Fits w) (cls : List Char) :
    w ++ x.text ≠ [] ∧ w ++ x.text ≠ cls ++ [':', ':'] := by
  obtain ⟨c, hc, hends⟩ := Suffix.exists_ends hfits
  constructor
  · intro h
    rw [h] at hc
    cases hc
  · intro h
    rw [h, List.getLast?_append_of_ne_nil _ (by simp)] at hc
    cases hc
    cases x with
    | pointer =>
        cases hends
    | reference =>
        cases hends
    | words text =>
        exact hends.2 rfl
    | dimension bound =>
        cases hends

/-- Only a dimension of a group that begins with a declarator ends in a bracket. -/
theorem Suffix.begins_of_close
    {x : Suffix} {w : List Char}
    (hfits : x.Fits w)
    (hlast : (w ++ x.text).getLast? = some ']') :
    beginsDeclarator (w ++ x.text) = true := by
  obtain ⟨c, hc, hends⟩ := Suffix.exists_ends hfits
  rw [hlast] at hc
  cases hc
  cases x with
  | pointer =>
      cases hends
  | reference =>
      cases hends
  | words text =>
      exact absurd hends.1 (by decide)
  | dimension bound =>
      exact beginsDeclarator_append hfits _

theorem first_dimension_unique
    {front front' dims dims' : List Char} {bound bound' : Option UInt64}
    (hfront : '[' ∉ front)
    (hfront' : '[' ∉ front')
    (h : front ++ (dimensionText bound ++ dims) = front' ++ (dimensionText bound' ++ dims')) :
    front = front' ∧ bound = bound' ∧ dims = dims' := by
  have hclose : ∀ b : Option UInt64, ']' ∉ boundText b := by
    intro b hb
    exact absurd (unmarked_boundText b ']' hb) (by decide)
  have heq : front ++ '[' :: (boundText bound ++ ']' :: dims) =
      front' ++ '[' :: (boundText bound' ++ ']' :: dims') := by
    simpa [dimensionText_eq] using h
  obtain ⟨rfl, hrest⟩ := first_split_unique hfront hfront' heq
  obtain ⟨hbound, rfl⟩ := first_split_unique (hclose bound) (hclose bound') hrest
  exact ⟨rfl, boundText_injective hbound, rfl⟩

theorem getLast?_dimensions
    {dims : List Char} (s : List Char)
    (h : Dimensions dims) :
    (s ++ dims).getLast? = some ']' := by
  obtain ⟨front, rfl⟩ := h.exists_close
  rw [← List.append_assoc, List.getLast?_concat]

theorem Dimensions.append_ne_nil
    {front dims : List Char}
    (h : Dimensions dims) :
    front ++ dims ≠ [] := by
  obtain ⟨rest, rfl⟩ := h.exists_cons
  simp

theorem Dimensions.append_ne_class
    {front dims : List Char}
    (h : Dimensions dims) (cls : List Char) :
    front ++ dims ≠ cls ++ [':', ':'] := by
  intro heq
  have hlast := getLast?_dimensions front h
  rw [heq, List.getLast?_append_of_ne_nil _ (by simp)] at hlast
  exact absurd hlast (by decide)

/-- In a group that does not begin with a declarator, a dimension is no suffix. -/
theorem Suffix.ne_dimensions
    {x : Suffix} {w front dims : List Char}
    (hfits : x.Fits w)
    (hdims : Dimensions dims)
    (hbegins : beginsDeclarator (front ++ dims) = false) :
    w ++ x.text ≠ front ++ dims := by
  intro heq
  have hlast := getLast?_dimensions front hdims
  rw [← heq] at hlast hbegins
  rw [Suffix.begins_of_close hfits hlast] at hbegins
  cases hbegins

section Starred

variable {front dims front' dims' : List Char} {x x' : Suffix}

theorem starred_eq_append
    (front dims : List Char) (x : Suffix) :
    box front x.text dims = (front ++ '(' :: x.text ++ [')']) ++ dims := by
  simp [box]

theorem square_not_mem_starred
    (hstar : x = .pointer ∨ x = .reference)
    (hsquare : '[' ∉ front) :
    '[' ∉ front ++ '(' :: x.text ++ [')'] := by
  rcases hstar with rfl | rfl <;> simp [hsquare, Suffix.text]

/-- The first dimension behind a text without groups is not one behind the group of a pointer. -/
theorem dimension_ne_starred
    {bound : Option UInt64}
    (hsquare : '[' ∉ front)
    (hopen : '(' ∉ front)
    (hstar : x = .pointer ∨ x = .reference)
    (hsquare' : '[' ∉ front')
    (hdims' : Dimensions dims') :
    front ++ (dimensionText bound ++ dims) ≠ box front' x.text dims' := by
  intro heq
  obtain ⟨b, bounds, rfl⟩ := hdims'
  rw [starred_eq_append] at heq
  obtain ⟨rfl, -⟩ := first_dimension_unique hsquare (square_not_mem_starred hstar hsquare') heq
  simp at hopen

/-- The group of a pointer before the first dimension is determined by the text. -/
theorem starred_unique
    (hstar : x = .pointer ∨ x = .reference)
    (hstar' : x' = .pointer ∨ x' = .reference)
    (hsquare : '[' ∉ front)
    (hsquare' : '[' ∉ front')
    (hdims : Dimensions dims)
    (hdims' : Dimensions dims')
    (h : box front x.text dims = box front' x'.text dims') :
    front = front' ∧ x = x' ∧ dims = dims' := by
  obtain ⟨b, bounds, rfl⟩ := hdims
  obtain ⟨b', bounds', rfl⟩ := hdims'
  rw [starred_eq_append, starred_eq_append] at h
  obtain ⟨hfront, rfl, hbounds⟩ := first_dimension_unique
    (square_not_mem_starred hstar hsquare) (square_not_mem_starred hstar' hsquare') h
  have hcut : (front ++ ['(']) ++ x.text = (front' ++ ['(']) ++ x'.text := by
    have hinit := List.append_cancel_right hfront
    simpa using hinit
  have hfits : x.Fits (front ++ ['(']) ∧ x'.Fits (front' ++ ['(']) := by
    rcases hstar with rfl | rfl <;> rcases hstar' with rfl | rfl <;> exact ⟨trivial, trivial⟩
  obtain ⟨hopen, rfl⟩ := Suffix.unique hfits.1 hfits.2 hcut
  exact ⟨List.append_cancel_right hopen, rfl, by rw [hbounds]⟩

end Starred

/-- A group before arguments is read in at most one way. -/
theorem Boxed.unique
    {u v a : List Char} {h h' : TypeHead}
    (hread : Boxed u v a h)
    (hread' : Boxed u v a h') :
    h = h' := by
  cases hread with
  | suffix hfits hv hh =>
      cases hread' with
      | suffix hfits' hv' hh' =>
          obtain ⟨rfl, rfl⟩ := Suffix.unique hfits hfits' (hv.symm.trans hv')
          rw [hh, hh']
      | dimension hbegins' hsquare' hopen' hdims' hv' hh' =>
          exact absurd (hv.symm.trans hv') (Suffix.ne_dimensions hfits hdims' (hv' ▸ hbegins'))
      | opened hstar' hbegins' hsquare' hdims' hv' hh' =>
          rw [starred_eq_append] at hv'
          exact absurd (hv.symm.trans hv') (Suffix.ne_dimensions hfits hdims' (hv' ▸ hbegins'))
      | function hargs' hvoid' hv' ha' hh' =>
          exact absurd (hv.symm.trans hv') (Suffix.ne_class hfits []).1
      | method hargs' hvoid' hv' ha' hh' =>
          exact absurd (hv.symm.trans hv') (Suffix.ne_class hfits _).2
  | dimension hbegins hsquare hopen hdims hv hh =>
      cases hread' with
      | suffix hfits' hv' hh' =>
          exact absurd (hv'.symm.trans hv) (Suffix.ne_dimensions hfits' hdims (hv ▸ hbegins))
      | dimension hbegins' hsquare' hopen' hdims' hv' hh' =>
          obtain ⟨rfl, rfl, rfl⟩ := first_dimension_unique hsquare hsquare' (hv.symm.trans hv')
          rw [hh, hh']
      | opened hstar' hbegins' hsquare' hdims' hv' hh' =>
          exact absurd (hv.symm.trans hv')
            (dimension_ne_starred hsquare hopen hstar' hsquare' hdims')
      | function hargs' hvoid' hv' ha' hh' =>
          exact absurd (hv.symm.trans hv') hdims.append_ne_nil
      | method hargs' hvoid' hv' ha' hh' =>
          exact absurd (hv.symm.trans hv') (hdims.append_ne_class _)
  | opened hstar hbegins hsquare hdims hv hh =>
      cases hread' with
      | suffix hfits' hv' hh' =>
          rw [starred_eq_append] at hv
          exact absurd (hv'.symm.trans hv) (Suffix.ne_dimensions hfits' hdims (hv ▸ hbegins))
      | dimension hbegins' hsquare' hopen' hdims' hv' hh' =>
          exact absurd (hv'.symm.trans hv)
            (dimension_ne_starred hsquare' hopen' hstar hsquare hdims)
      | opened hstar' hbegins' hsquare' hdims' hv' hh' =>
          obtain ⟨rfl, rfl, rfl⟩ :=
            starred_unique hstar hstar' hsquare hsquare' hdims hdims' (hv.symm.trans hv')
          rw [hh, hh']
      | function hargs' hvoid' hv' ha' hh' =>
          rw [starred_eq_append] at hv
          exact absurd (hv.symm.trans hv') hdims.append_ne_nil
      | method hargs' hvoid' hv' ha' hh' =>
          rw [starred_eq_append] at hv
          exact absurd (hv.symm.trans hv') (hdims.append_ne_class _)
  | function hargs hvoid hv ha hh =>
      cases hread' with
      | suffix hfits' hv' hh' =>
          exact absurd (hv'.symm.trans hv) (Suffix.ne_class hfits' []).1
      | dimension hbegins' hsquare' hopen' hdims' hv' hh' =>
          exact absurd (hv'.symm.trans hv) hdims'.append_ne_nil
      | opened hstar' hbegins' hsquare' hdims' hv' hh' =>
          rw [starred_eq_append] at hv'
          exact absurd (hv'.symm.trans hv) hdims'.append_ne_nil
      | function hargs' hvoid' hv' ha' hh' =>
          have hcall := callText_injective (ha.symm.trans ha')
          obtain ⟨rfl, rfl⟩ := argumentText_injective hargs hargs' hvoid hvoid' hcall.1
          rw [hh, hh']
      | method hargs' hvoid' hv' ha' hh' =>
          simp [hv] at hv'
  | method hargs hvoid hv ha hh =>
      cases hread' with
      | suffix hfits' hv' hh' =>
          exact absurd (hv'.symm.trans hv) (Suffix.ne_class hfits' _).2
      | dimension hbegins' hsquare' hopen' hdims' hv' hh' =>
          exact absurd (hv'.symm.trans hv) (hdims'.append_ne_class _)
      | opened hstar' hbegins' hsquare' hdims' hv' hh' =>
          rw [starred_eq_append] at hv'
          exact absurd (hv'.symm.trans hv) (hdims'.append_ne_class _)
      | function hargs' hvoid' hv' ha' hh' =>
          simp [hv] at hv'
      | method hargs' hvoid' hv' ha' hh' =>
          obtain ⟨hcall, rfl, rfl⟩ := callText_injective (ha.symm.trans ha')
          obtain ⟨rfl, rfl⟩ := argumentText_injective hargs hargs' hvoid hvoid' hcall
          have hcls := List.append_cancel_right (hv.symm.trans hv')
          rw [hh, hh', hcls]

/-- Qualifiers that go on with qualifiers do not stand apart from what follows. -/
theorem Apart.append_eq_nil
    {words more name name' : List Char}
    (hwords : words ∈ wordTexts)
    (hmore : words ++ more ∈ wordTexts)
    (hname : Apart words name)
    (h : ' ' :: name = more ++ ' ' :: name') :
    more = [] := by
  -- what is left of longer qualifiers after shorter ones are qualifiers again
  have hrest : ∀ w ∈ wordTexts, ∀ w' ∈ wordTexts, ∀ m ∈ stripPrefix (w ++ [' ']) w',
      m ∈ wordTexts := by
    decide
  cases more with
  | nil =>
      rfl
  | cons c m =>
      obtain ⟨rfl, hname_eq⟩ := List.cons.inj h
      have hstrip : stripPrefix (words ++ [' ']) (words ++ ' ' :: m) = some m := by
        rw [stripPrefix_eq_some_iff]
        simp
      exact absurd hname_eq (hname m (hrest words hwords _ hmore m hstrip) hmore name')

/-- Qualifiers before a text end where the text begins, when it does not go on with qualifiers. -/
theorem leading_unique
    {words words' name name' : List Char}
    (hwords : words ∈ wordTexts)
    (hwords' : words' ∈ wordTexts)
    (hname : Apart words name)
    (hname' : Apart words' name')
    (h : words ++ ' ' :: name = words' ++ ' ' :: name') :
    words = words' ∧ name = name' := by
  rcases List.append_eq_append_iff.mp h with ⟨m, rfl, heq⟩ | ⟨m, rfl, heq⟩
  · obtain rfl := Apart.append_eq_nil hwords hwords' hname heq
    exact ⟨by simp, by simpa using heq⟩
  · obtain rfl := Apart.append_eq_nil hwords' hwords hname' heq
    exact ⟨by simp, by simpa using heq.symm⟩

/-- Before dimensions behind arguments stands no group of a pointer. -/
theorem dimensions_ne_pointed
    {front u v dims dims' : List Char}
    (hsquare : '[' ∉ front)
    (hlast : ArgumentsLast front)
    (hdims : Dimensions dims)
    (hv : ParenFree v)
    (hbegins : beginsDeclarator v = true)
    (hdims' : Dimensions dims') :
    front ++ dims ≠ box u v dims' := by
  intro heq
  have hcut : front ++ dims = (u ++ '(' :: v) ++ ')' :: dims' := by
    rw [heq]
    simp [box]
  rcases append_eq_cut hcut with ⟨m, hfront, hm⟩ | ⟨m, -, hm⟩
  · cases m with
    | nil =>
        have hnot := (hlast u v hv (by simpa using hfront)).2
        rw [hbegins] at hnot
        cases hnot
    | cons c m =>
        obtain ⟨rest, hrest⟩ := hdims'.exists_cons
        rw [hrest] at hm
        obtain ⟨rfl, -⟩ := List.cons.inj hm
        exact hsquare (by simp [hfront])
  · exact hdims.flat.parenFree.2 (by simp [hm])

/-- A text of a form is read in at most one way. -/
theorem Reading.unique
    {s : List Char} {h h' : TypeHead} {k : Form}
    (hread : Reading s h k)
    (hread' : Reading s h' k) :
    h = h' := by
  cases hread with
  | leading hwords hapart hs hh =>
      cases hread' with
      | leading hwords' hapart' hs' hh' =>
          obtain ⟨rfl, rfl⟩ := leading_unique hwords hwords' hapart hapart' (hs.symm.trans hs')
          rw [hh, hh']
  | outer hfits hs hh =>
      cases hread' with
      | outer hfits' hs' hh' =>
          obtain ⟨rfl, rfl⟩ := Suffix.unique hfits hfits' (hs.symm.trans hs')
          rw [hh, hh']
  | member hblank hs hh =>
      cases hread' with
      | member hblank' hs' hh' =>
          have hcut := List.append_cancel_right (hs.symm.trans hs')
          obtain ⟨rfl, rfl⟩ := last_split_unique hblank hblank' hcut
          rw [hh, hh']
  | dimensions hsquare hlast hdims hs hh =>
      cases hread' with
      | dimensions hsquare' hlast' hdims' hs' hh' =>
          obtain ⟨rfl, rfl, rfl⟩ := first_dimension_unique hsquare hsquare' (hs.symm.trans hs')
          rw [hh, hh']
      | pointed hv' hbegins' hdims' hs' hfits' hvw' hh' =>
          exact absurd (hs.symm.trans hs')
            (dimensions_ne_pointed hsquare hlast hdims hv' hbegins' hdims')
  | pointed hv hbegins hdims hs hfits hvw hh =>
      cases hread' with
      | dimensions hsquare' hlast' hdims' hs' hh' =>
          exact absurd (hs'.symm.trans hs)
            (dimensions_ne_pointed hsquare' hlast' hdims' hv hbegins hdims)
      | pointed hv' hbegins' hdims' hs' hfits' hvw' hh' =>
          obtain ⟨rfl, rfl, rfl⟩ :=
            box_unique hv.balanced hv'.balanced (.inl hdims) (.inl hdims') (hs.symm.trans hs')
          obtain ⟨rfl, rfl⟩ := Suffix.unique hfits hfits' (hvw.symm.trans hvw')
          rw [hh, hh']
  | called hv hargs ha hs hread =>
      cases hread' with
      | called hv' hargs' ha' hs' hread' =>
          obtain ⟨rfl, rfl, rfl⟩ := box_unique hv hv' (ha ▸ tail_callText _ _ hargs)
            (ha' ▸ tail_callText _ _ hargs') (hs.symm.trans hs')
          exact hread.unique hread'

end Forms

section FormOf

theorem find?_last_mark
    {front tail : List Char} {c : Char}
    (hc : isMark c = true)
    (htail : ∀ x ∈ tail, isMark x = false) :
    (front ++ c :: tail).reverse.find? isMark = some c := by
  have hnone : tail.reverse.find? isMark = none := by
    simpa using htail
  rw [List.reverse_append, List.reverse_cons, List.append_assoc, List.find?_append, hnone]
  simp [hc]

theorem form_leading
    {s : List Char}
    (hs : ∀ c ∈ s, isMark c = false) :
    form s = .leading := by
  have hnone : s.reverse.find? isMark = none := by
    simpa using hs
  rw [form, hnone]

theorem not_ends_member
    {s : List Char} {c : Char}
    (hlast : s.getLast? = some c)
    (hc : c ≠ '*') :
    s.reverse.take 2 ≠ ['*', ':'] := by
  intro h
  have hhead := congrArg List.head? h
  rw [List.head?_take, List.head?_reverse, hlast] at hhead
  exact hc (by simpa using hhead)

theorem form_star
    {w : List Char} {c : Char}
    (hc : isStarOrAmp c = true)
    (hlast : w.getLast? ≠ some ':') :
    form (w ++ [c]) = .outer := by
  have hmark : (w ++ [c]).reverse.find? isMark = some c :=
    find?_last_mark (isMark_star hc) (by simp)
  have hmember : (w ++ [c]).reverse.take 2 ≠ ['*', ':'] := by
    rw [List.reverse_append, List.reverse_singleton, List.singleton_append, List.take_succ_cons]
    intro h
    have hhead := congrArg List.head? (List.cons.inj h).2
    rw [List.head?_take, List.head?_reverse] at hhead
    exact hlast (by simpa using hhead)
  rw [form, hmark]
  simp only [hc, if_true, if_neg hmember]

theorem form_words
    {w words : List Char}
    (hwords : words ∈ wordTexts)
    (hends : endsDeclarator w = true) :
    form (w ++ ' ' :: words) = .outer := by
  obtain ⟨front, c, hc, rfl⟩ := exists_star_of_endsDeclarator hends
  have hmark : (front ++ [c] ++ ' ' :: words).reverse.find? isMark = some c := by
    rw [List.append_assoc]
    exact find?_last_mark (isMark_star hc) (unmarked_trailing hwords)
  have hmember : (front ++ [c] ++ ' ' :: words).reverse.take 2 ≠ ['*', ':'] := by
    obtain ⟨x, hx, hunmarked, -⟩ :=
      Suffix.exists_ends (x := .words words) (w := front ++ [c]) ⟨hwords, hends⟩
    refine not_ends_member hx ?_
    rintro rfl
    cases hunmarked
  rw [form, hmark]
  simp only [hc, if_true, if_neg hmember]

theorem form_member
    (s cls : List Char) :
    form (s ++ ' ' :: cls ++ [':', ':', '*']) = .member := by
  have hsplit : s ++ ' ' :: cls ++ [':', ':', '*'] = (s ++ ' ' :: cls ++ [':', ':']) ++ ['*'] := by
    simp
  have hmark : (s ++ ' ' :: cls ++ [':', ':', '*']).reverse.find? isMark = some '*' := by
    rw [hsplit]
    exact find?_last_mark rfl (by simp)
  have hmember : (s ++ ' ' :: cls ++ [':', ':', '*']).reverse.take 2 = ['*', ':'] := by
    simp
  rw [form, hmark]
  simp only [hmember, if_true]
  rfl

theorem form_bracketed
    {s : List Char}
    (hlast : s.getLast? = some ']') :
    form s = .bracketed := by
  obtain ⟨front, rfl⟩ := List.getLast?_eq_some_iff.mp hlast
  have hmark : (front ++ [']']).reverse.find? isMark = some ']' := find?_last_mark rfl (by simp)
  rw [form, hmark]
  rfl

theorem form_called
    (u v args : List Char) (isConst isVolatile : Bool) :
    form (box u v (callText args isConst isVolatile)) = .called := by
  have hmark : (box u v (callText args isConst isVolatile)).reverse.find? isMark = some ')' := by
    rw [box_callText]
    exact find?_last_mark rfl (unmarked_methodWords isConst isVolatile)
  rw [form, hmark]
  rfl

end FormOf

section Terms

/-- A declarator or qualifiers at the end of a group that begins with a declarator. -/
theorem reading_group
    {before inner after : List Char} {x : Suffix}
    (hinner : ParenFree inner)
    (hbegins : beginsDeclarator inner = true)
    (htext : ParenFree x.text)
    (hfits : x.Fits inner)
    (hafter : Tail after) :
    Reading (box before (inner ++ x.text) after) (x.head (box before inner after))
      (form (box before (inner ++ x.text) after)) := by
  have hmore := hinner.append htext
  rcases hafter with hdims | ⟨args, isConst, isVolatile, hargs, rfl⟩
  · have hlast : (box before (inner ++ x.text) after).getLast? = some ']' := by
      have hsplit : box before (inner ++ x.text) after =
          (before ++ '(' :: (inner ++ x.text) ++ [')']) ++ after := by
        simp [box]
      rw [hsplit]
      exact getLast?_dimensions _ hdims
    have hne : inner ≠ [] := by
      rintro rfl
      cases hbegins
    rw [form_bracketed hlast]
    refine .pointed hmore (beginsDeclarator_append hbegins _) hdims rfl hfits rfl ?_
    rw [unbox, if_neg fun h => hne h.1]
  · rw [form_called]
    exact .called hmore.balanced hargs rfl rfl (.suffix hfits rfl rfl)

/-- A declarator or qualifiers at the end of a group before arguments. -/
theorem reading_call
    {before inner args : List Char} {isConst isVolatile : Bool} {x : Suffix}
    (hinner : ParenFree inner)
    (htext : ParenFree x.text)
    (hfits : x.Fits inner)
    (hargs : Balanced args) :
    Reading (box before (inner ++ x.text) (callText args isConst isVolatile))
      (x.head (box before inner (callText args isConst isVolatile)))
      (form (box before (inner ++ x.text) (callText args isConst isVolatile))) := by
  rw [form_called]
  exact .called (hinner.append htext).balanced hargs rfl rfl (.suffix hfits rfl rfl)

/-- A group that a pointer opens before dimensions. -/
theorem reading_opened
    {front dims : List Char} {x : Suffix} {c : Char}
    (hc : isStarOrAmp c = true)
    (hx : x.text = [c])
    (hfits : x.Fits [])
    (hdims : Dimensions dims) :
    Reading (box front x.text dims) (x.head (front ++ dims)) (form (box front x.text dims)) := by
  have hlast : (box front x.text dims).getLast? = some ']' := by
    have hsplit : box front x.text dims = (front ++ '(' :: x.text ++ [')']) ++ dims := by
      simp [box]
    rw [hsplit]
    exact getLast?_dimensions _ hdims
  rw [form_bracketed hlast]
  refine .pointed (hx ▸ (flat_star hc).parenFree) (hx ▸ beginsDeclarator_star hc) hdims rfl hfits
    rfl ?_
  rw [unbox, if_pos ⟨rfl, hdims.head?⟩]

/-- A group that a pointer opens before dimensions that are in a group themselves. -/
theorem reading_opened_inside
    {before front dims args : List Char} {isConst isVolatile : Bool} {x : Suffix} {c : Char}
    (hc : isStarOrAmp c = true)
    (hx : x.text = [c])
    (hstar : x = .pointer ∨ x = .reference)
    (hfront : InnerFront front)
    (hdims : Dimensions dims)
    (hargs : Balanced args) :
    Reading (box before (box front x.text dims) (callText args isConst isVolatile))
      (x.head (box before (front ++ dims) (callText args isConst isVolatile)))
      (form (box before (box front x.text dims) (callText args isConst isVolatile))) := by
  have hinner := hfront.starGroup hc
  have hsplit := box_starGroup front dims c
  have hbalanced : Balanced (box front x.text dims) := by
    rw [hx, hsplit]
    exact hinner.balanced.append hdims.flat.parenFree.balanced
  have hbegins : beginsDeclarator (box front x.text dims) = false := by
    rw [hx, hsplit]
    cases front with
    | nil =>
        rfl
    | cons y front =>
        exact hfront.begins
  rw [form_called]
  exact .called hbalanced hargs rfl rfl (.opened hstar hbegins hfront.square hdims rfl rfl)

/-- A first dimension in a group before arguments. -/
theorem reading_dimension_inside
    {before front dims args : List Char} {isConst isVolatile : Bool} {bound : Option UInt64}
    (hfront : InnerFront front)
    (hopen : '(' ∉ front)
    (hdims : Dimensions (dimensionText bound ++ dims))
    (hargs : Balanced args) :
    Reading (box before (front ++ (dimensionText bound ++ dims)) (callText args isConst isVolatile))
      (.array bound (box before (front ++ dims) (callText args isConst isVolatile)))
      (form (box before (front ++ (dimensionText bound ++ dims))
        (callText args isConst isVolatile))) := by
  have hbegins : beginsDeclarator (front ++ (dimensionText bound ++ dims)) = false := by
    cases front with
    | nil =>
        obtain ⟨rest, hrest⟩ := hdims.exists_cons
        rw [List.nil_append, hrest]
        rfl
    | cons y front =>
        exact hfront.begins
  rw [form_called]
  exact .called (hfront.balanced.append hdims.flat.parenFree.balanced) hargs rfl rfl
    (.dimension hbegins hfront.square hopen hdims rfl rfl)

/-- A pointer or reference is read where it was written. -/
theorem Placed.reading_star
    {p : Place} {s : List Char} {x : Suffix} {c : Char}
    (h : Placed p s)
    (hlast : s.getLast? ≠ some ':')
    (hc : isStarOrAmp c = true)
    (hx : x.text = [c])
    (hstar : x = .pointer ∨ x = .reference) :
    Reading (addDeclarator s x.text) (x.head s) (form (addDeclarator s x.text)) := by
  have hfits : ∀ w, x.Fits w := by
    intro w
    rcases hstar with rfl | rfl <;> trivial
  have htext : ParenFree x.text := hx ▸ (flat_star hc).parenFree
  have hnot : x.text.head? ≠ some '[' := hx ▸ head?_star_ne hc
  cases h with
  | atEnd hs =>
      rw [hs.addDeclarator, hx, form_star hc hlast]
      exact .outer (hfits s) (by rw [hx]) rfl
  | beforeDimensions hfront harguments hdims =>
      rw [hfront.addDeclarator_dimensions hdims, if_neg hnot]
      exact reading_opened hc hx (hfits []) hdims
  | inEmptyGroup hbefore hargs =>
      rw [addDeclarator_box hbefore balanced_nil rfl]
      exact reading_call (by decide) htext (hfits []) hargs
  | inGroup hbefore hinner hbegins hafter =>
      rw [addDeclarator_box hbefore hinner.balanced (isDeclarator_of_begins hbegins)]
      exact reading_group hinner hbegins htext (hfits _) hafter
  | inMemberGroup hbefore hcls hargs =>
      have hnone : ∀ x ∈ ([] : List Char), isStarOrAmp x = true := by simp
      rw [addDeclarator_box hbefore (parenFree_member hcls hnone).balanced
        (isDeclarator_member hnone)]
      exact reading_call (parenFree_member hcls hnone) htext (hfits _) hargs
  | inMemberPointer hbefore hcls hne hstars hargs =>
      rw [addDeclarator_box hbefore (parenFree_member hcls hstars).balanced
        (isDeclarator_member hstars)]
      exact reading_call (parenFree_member hcls hstars) htext (hfits _) hargs
  | amidDimensions hbefore hsquare hfront hopen hdims hargs =>
      rw [hfront.addDeclarator hdims hbefore hsquare, if_neg hnot]
      exact reading_opened_inside hc hx hstar hfront hdims hargs
  | behindPointer hfront hopen hdims =>
      rw [hfront.addDeclarator_dimensions hdims, if_neg hnot]
      exact reading_opened hc hx (hfits []) hdims
  | behindInnerPointer hbefore hsquare hfront hopen hdims hargs =>
      rw [hfront.addDeclarator hdims hbefore hsquare, if_neg hnot]
      exact reading_opened_inside hc hx hstar hfront hdims hargs

/-- A dimension is read where it was written. -/
theorem Placed.reading_dimension
    {p : Place} {s : List Char}
    (h : Placed p s)
    (hlast : ArgumentsLast s)
    (hp : p ≠ .behindPointer) (bound : Option UInt64) :
    Reading (addDeclarator s (dimensionText bound)) (.array bound s)
      (form (addDeclarator s (dimensionText bound))) := by
  have hdim := dimensions_single bound
  have hsome := hdim.head?
  have hsingle : Dimensions (dimensionText bound ++ []) := by simpa using hdim
  -- dimensions that are not in a group
  have houter : ∀ {front dims : List Char}, '[' ∉ front → ArgumentsLast front →
      Dimensions (dimensionText bound ++ dims) →
      Reading (front ++ (dimensionText bound ++ dims)) (.array bound (front ++ dims))
        (form (front ++ (dimensionText bound ++ dims))) := by
    intro front dims hsquare hlast hdims
    rw [form_bracketed (getLast?_dimensions front hdims)]
    exact .dimensions hsquare hlast hdims rfl rfl
  -- a first dimension in a group
  have hfirst : ∀ {before front args : List Char} {isConst isVolatile : Bool}, InnerFront front →
      '(' ∉ front → Balanced args →
      Reading (box before (front ++ dimensionText bound) (callText args isConst isVolatile))
        (.array bound (box before front (callText args isConst isVolatile)))
        (form (box before (front ++ dimensionText bound) (callText args isConst isVolatile))) := by
    intro before front args isConst isVolatile hfront hopen hargs
    have hread : Reading (box before (front ++ (dimensionText bound ++ []))
        (callText args isConst isVolatile)) (.array bound _) _ :=
      reading_dimension_inside hfront hopen hsingle hargs
    simpa only [List.append_nil] using hread
  cases h with
  | atEnd hs =>
      have hread := houter hs.square hlast hsingle
      rw [hs.addDeclarator]
      simpa only [List.append_nil] using hread
  | beforeDimensions hfront harguments hdims =>
      rw [hfront.addDeclarator_dimensions hdims, if_pos hsome]
      exact houter hfront.square harguments (hdims.cons bound)
  | inEmptyGroup hbefore hargs =>
      rw [addDeclarator_box hbefore balanced_nil rfl]
      exact hfirst .nil (by simp) hargs
  | inGroup hbefore hinner hbegins hafter =>
      rw [addDeclarator_box hbefore hinner.balanced (isDeclarator_of_begins hbegins)]
      exact reading_group (x := .dimension bound) hinner hbegins hdim.flat.parenFree hbegins hafter
  | inMemberGroup hbefore hcls hargs =>
      have hnone : ∀ x ∈ ([] : List Char), isStarOrAmp x = true := by simp
      rw [addDeclarator_box hbefore (parenFree_member hcls hnone).balanced
        (isDeclarator_member hnone)]
      exact hfirst (.member hcls hnone) (parenFree_member hcls hnone).1 hargs
  | inMemberPointer hbefore hcls hne hstars hargs =>
      rw [addDeclarator_box hbefore (parenFree_member hcls hstars).balanced
        (isDeclarator_member hstars)]
      exact hfirst (.member hcls hstars) (parenFree_member hcls hstars).1 hargs
  | amidDimensions hbefore hsquare hfront hopen hdims hargs =>
      rw [hfront.addDeclarator hdims hbefore hsquare, if_pos hsome]
      exact reading_dimension_inside hfront hopen (hdims.cons bound) hargs
  | behindPointer hfront hopen hdims =>
      exact absurd rfl hp
  | behindInnerPointer hbefore hsquare hfront hopen hdims hargs =>
      exact absurd rfl hp

/-- Qualifiers are read where they were written in a group. -/
theorem Placed.reading_words
    {p : Place} {s : List Char} {g : Group} {q : Qualifiers}
    (h : Placed p s)
    (hwords : qualifierWords q ≠ [])
    (hgroup : group? s = some g)
    (hends : endsDeclarator g.inner = true) :
    Reading (qualify s q) (.qualified (qualifierWords q) s) (form (qualify s q)) := by
  have hmem := qualifierWords_mem hwords
  have hfits : (Suffix.words (qualifierWords q)).Fits g.inner := ⟨hmem, hends⟩
  have htext : ParenFree (Suffix.words (qualifierWords q)).text :=
    (flat_of_unmarked (unmarked_trailing hmem)).parenFree
  have hnone : ∀ {P : Prop}, group? s = none → P := by
    intro P hnone
    rw [hgroup] at hnone
    cases hnone
  -- the words go into the group when it ends in a declarator and nothing follows the group that does
  have hqualify : ∀ {before inner after : List Char}, s = box before inner after → Tail after →
      g = ⟨before, inner, after⟩ → qualify s q = box before (inner ++ ' ' :: qualifierWords q) after := by
    rintro before inner after rfl hafter rfl
    rcases qualify_cases (box before inner after) with ⟨hlead, -⟩ | ⟨hend, -⟩ | ⟨g', -, hg', -, heq⟩
    · rw [hlead.group _ hgroup] at hends
      cases hends
    · rw [endsDeclarator_box hafter] at hend
      cases hend
    · rw [hgroup] at hg'
      cases hg'
      exact heq q hwords
  cases h with
  | atEnd hs =>
      exact hnone hs.group
  | beforeDimensions hfront harguments hdims =>
      exact hnone (hfront.group?_append (.inr hdims.flat.parenFree.1))
  | inEmptyGroup hbefore hargs =>
      rw [group?_box hbefore balanced_nil rfl] at hgroup
      cases hgroup
      cases hends
  | inGroup hbefore hinner hbegins hafter =>
      have hfound := hgroup
      rw [group?_box hbefore hinner.balanced (isDeclarator_of_begins hbegins)] at hfound
      cases hfound
      rw [hqualify rfl hafter rfl]
      exact reading_group (x := .words (qualifierWords q)) hinner hbegins htext hfits hafter
  | inMemberGroup hbefore hcls hargs =>
      have hstars : ∀ x ∈ ([] : List Char), isStarOrAmp x = true := by simp
      rw [group?_box hbefore (parenFree_member hcls hstars).balanced
        (isDeclarator_member hstars)] at hgroup
      cases hgroup
      rw [endsDeclarator_append (by simp)] at hends
      cases hends
  | inMemberPointer hbefore hcls hne hstars hargs =>
      have hinner := parenFree_member hcls hstars
      have hfound := hgroup
      rw [group?_box hbefore hinner.balanced (isDeclarator_member hstars)] at hfound
      cases hfound
      rw [hqualify rfl (tail_callText _ _ hargs) rfl]
      exact reading_call (x := .words (qualifierWords q)) hinner htext hfits hargs
  | amidDimensions hbefore hsquare hfront hopen hdims hargs =>
      exact hnone (hfront.group?_eq_none hdims hbefore _)
  | behindPointer hfront hopen hdims =>
      exact hnone (hfront.group?_append (.inr hdims.flat.parenFree.1))
  | behindInnerPointer hbefore hsquare hfront hopen hdims hargs =>
      exact hnone (hfront.group?_eq_none hdims hbefore _)

/-- Qualifiers are read back when they follow a declarator or precede a mere name. -/
theorem Plain.reading_qualified
    {t : TypeTerm} {q : Qualifiers}
    (h : Plain t)
    (hwords : qualifierWords q ≠ [])
    (htakes : t.TakesWords (qualifierWords q)) :
    Reading (qualify t.spelling q) (.qualified (qualifierWords q) t.spelling)
      (form (qualify t.spelling q)) := by
  have hmem := qualifierWords_mem hwords
  rcases htakes with hends | ⟨hplace, g, hgroup, hends⟩ | ⟨hunmarked, hapart⟩
  · rw [qualify_trailing hwords hends, form_words hmem hends]
    exact .outer (x := .words (qualifierWords q)) ⟨hmem, hends⟩ rfl rfl
  · exact (h.placed hplace).reading_words hwords hgroup hends
  · have hopen : '(' ∉ t.spelling := (flat_of_unmarked hunmarked).parenFree.1
    rw [qualify_leading hwords (endsDeclarator_of_unmarked hunmarked) (group?_eq_none hopen),
      form_leading]
    · exact .leading hmem hapart rfl rfl
    · intro c hc
      rcases List.mem_append.mp hc with hc | hc
      · exact unmarked_words hmem c hc
      · rcases List.mem_cons.mp hc with rfl | hc
        · rfl
        · exact hunmarked c hc

theorem Sound.ne_ellipsis
    {s : List Char}
    (h : Sound s) :
    s ≠ "...".toList := by
  rintro rfl
  obtain ⟨c, rest, heq, hc⟩ := h.begins
  obtain ⟨rfl, -⟩ := List.cons.inj heq
  cases hc

theorem argumentText_of_terms
    {args : List TypeTerm}
    (hargs : ∀ a ∈ args, Plain a) :
    ∀ s ∈ spellings args, ArgumentText s := by
  rw [spellings_eq_map]
  intro s hs
  obtain ⟨a, ha, rfl⟩ := List.mem_map.mp hs
  have hsound := (hargs a ha).sound
  exact ⟨hsound.closed, hsound.ne_ellipsis⟩

/-- The spelling of a clear term is read as its outermost part. -/
theorem Plain.reading
    {t : TypeTerm} {h : TypeHead}
    (ht : Plain t)
    (hclear : t.Clear)
    (hhead : t.head? = some h) :
    Reading t.spelling h (form t.spelling) := by
  cases ht with
  | named hname =>
      cases hhead
  | pointer ht =>
      cases hhead
      exact (ht.placed hclear).reading_star (x := .pointer) ht.sound.last rfl rfl (.inl rfl)
  | reference ht =>
      cases hhead
      exact (ht.placed hclear).reading_star (x := .reference) ht.sound.last rfl rfl (.inr rfl)
  | qualified ht =>
      cases hhead
      exact ht.reading_qualified hclear.1 hclear.2
  | @array bound t ht =>
      cases hhead
      exact (ht.placed hclear.1).reading_dimension ht.sound.arguments hclear.2 bound
  | @function r args ellipsis hr hargs =>
      cases hhead
      rw [spelling, form_called]
      exact .called balanced_nil (Plain.argumentsBalanced hargs ellipsis) rfl rfl
        (.function (argumentText_of_terms hargs) hclear rfl rfl rfl)
  | @method r cls args ellipsis isConst isVolatile hr hcls hargs =>
      have hcolons : Balanced [':', ':'] := rfl
      cases hhead
      rw [spelling, form_called]
      exact .called (hcls.sound.closed.balanced.append hcolons)
        (Plain.argumentsBalanced hargs ellipsis) rfl rfl
        (.method (argumentText_of_terms hargs) hclear rfl rfl rfl)
  | @member t cls ht hcls =>
      cases hhead
      rw [spelling, form_member]
      exact .member hclear rfl rfl

/-- Clear terms of one spelling have the same outermost part. -/
theorem Plain.head_unique
    {t t' : TypeTerm} {h h' : TypeHead}
    (ht : Plain t)
    (ht' : Plain t')
    (hclear : t.Clear)
    (hclear' : t'.Clear)
    (hhead : t.head? = some h)
    (hhead' : t'.head? = some h')
    (heq : t.spelling = t'.spelling) :
    h = h' := by
  have hread := ht.reading hclear hhead
  rw [heq] at hread
  exact hread.unique (ht'.reading hclear' hhead')

end Terms

end TypeTerm
end TypeCatalog
