import TypeCatalog.Proofs.Spelling.TypeTerm

/-!
# What the scanner of a spelling finds

**Input.** A spelling. The scanner counts every angle bracket, also one inside parentheses, and a
closing one only when a bracket is open. It takes a character for one of the type itself, and not of
a template argument, where it counts no open bracket.

**Notions.** `openAngles d s` is the count after the text `s`, from `d` before it. A character is
covered in a text when it stands in it only where the count is not zero. A text is reached for a
character when the character is covered in it and the count is zero at its end.

**Results.**
* `splitTop_eq_some_iff`, `splitTop_eq_none_iff`: a text is cut at a character that follows a text
  reached for it, and is not cut when the character is covered.
* `group?_box_eq`, `group?_eq_some_iff`: the group that is found is the first one that is not
  covered, when it holds a declarator.
* `exists_repeated_of_append_comm`: a text that can be moved over another one repeats it.
-/

namespace TypeCatalog
namespace Spelling

open Text TypeTerm

/-- The angle brackets that are counted as open after a text, given those before it. -/
def openAngles :
    Nat → List Char → Nat
  | depth, [] => depth
  | depth, c :: cs =>
      openAngles (if c = '<' then depth + 1 else if c = '>' then depth - 1 else depth) cs

/-- The character stands in the text only where a bracket is counted as open. -/
def Covered
    (x : Char) (depth : Nat) (s : List Char) :
    Prop :=
  ∀ u v, s = u ++ x :: v → openAngles depth u ≠ 0

/-- A scan of the text for the character comes to its end with no bracket open. -/
structure Reached
    (x : Char) (s : List Char) :
    Prop where
  covered : Covered x 0 s
  top : openAngles 0 s = 0

section Angles

theorem openAngles_append
    (depth : Nat) (u v : List Char) :
    openAngles depth (u ++ v) = openAngles (openAngles depth u) v := by
  induction u generalizing depth with
  | nil =>
      rfl
  | cons c u ih =>
      rw [List.cons_append, openAngles, openAngles, ih]

theorem openAngles_of_free
    {w : List Char} (depth : Nat)
    (h : '<' ∉ w ∧ '>' ∉ w) :
    openAngles depth w = depth := by
  induction w with
  | nil =>
      rfl
  | cons c w ih =>
      simp only [List.mem_cons, not_or] at h
      rw [openAngles, if_neg (Ne.symm h.1.1), if_neg (Ne.symm h.2.1)]
      exact ih ⟨h.1.2, h.2.2⟩

theorem covered_cons
    {x c : Char} {depth : Nat} {cs : List Char} :
    Covered x depth (c :: cs) ↔
      ¬ (c = x ∧ depth = 0) ∧ Covered x (openAngles depth [c]) cs := by
  constructor
  · intro h
    refine ⟨?_, ?_⟩
    · rintro ⟨rfl, hdepth⟩
      exact h [] cs rfl hdepth
    · intro u v hcs
      have hu := h (c :: u) v (by rw [hcs]; rfl)
      rwa [← List.singleton_append, openAngles_append] at hu
  · rintro ⟨hc, hcs⟩ u v huv
    cases u with
    | nil =>
        obtain ⟨rfl, -⟩ := List.cons.inj huv
        exact fun hdepth => hc ⟨rfl, hdepth⟩
    | cons d u =>
        obtain ⟨rfl, hrest⟩ := List.cons.inj huv
        rw [← List.singleton_append, openAngles_append]
        exact hcs u v hrest

theorem covered_of_not_mem
    {x : Char} (depth : Nat) {s : List Char}
    (h : x ∉ s) :
    Covered x depth s := by
  intro u v hs
  exact absurd (by simp [hs]) h

/-- Where a bracket is open, all of a text without brackets is covered. -/
theorem covered_of_open
    {x : Char} {depth : Nat} {w : List Char}
    (hdepth : depth ≠ 0)
    (hw : '<' ∉ w ∧ '>' ∉ w) :
    Covered x depth w := by
  intro u v hsplit
  rw [hsplit] at hw
  simp only [List.mem_append, not_or] at hw
  rwa [openAngles_of_free depth ⟨hw.1.1, hw.2.1⟩]

/-- A text without brackets in front does not matter to what is reached. -/
theorem Reached.of_prepend
    {x : Char} {w s : List Char}
    (h : Reached x (w ++ s))
    (hw : '<' ∉ w ∧ '>' ∉ w) :
    Reached x s := by
  refine ⟨fun u v hs => ?_, ?_⟩
  · have hcovered := h.covered (w ++ u) v (by rw [hs, List.append_assoc])
    rwa [openAngles_append, openAngles_of_free 0 hw] at hcovered
  · have htop := h.top
    rwa [openAngles_append, openAngles_of_free 0 hw] at htop

end Angles

section Cuts

variable {x : Char} (hx : x ≠ '<' ∧ x ≠ '>')
include hx

theorem splitTop_cons
    (depth : Nat) (c : Char) (cs : List Char) :
    splitTop x depth (c :: cs) =
      if c = x ∧ depth = 0 then some ([], cs)
      else (splitTop x (openAngles depth [c]) cs).map fun p => (c :: p.1, p.2) := by
  rw [splitTop, openAngles, openAngles]
  by_cases hopen : c = '<'
  · rw [if_pos hopen, if_pos hopen, if_neg fun h => hx.1 (h.1.symm.trans hopen)]
  · by_cases hclose : c = '>'
    · rw [if_neg hopen, if_neg hopen, if_pos hclose, if_pos hclose,
        if_neg fun h => hx.2 (h.1.symm.trans hclose)]
    · rw [if_neg hopen, if_neg hopen, if_neg hclose, if_neg hclose]

/-- A text in two parts is cut in the first one, or else in the second. -/
theorem splitTop_append
    (depth : Nat) (u v : List Char) :
    splitTop x depth (u ++ v) =
      ((splitTop x depth u).map fun p => (p.1, p.2 ++ v)).or
        ((splitTop x (openAngles depth u) v).map fun p => (u ++ p.1, p.2)) := by
  induction u generalizing depth with
  | nil =>
      cases hv : splitTop x depth v <;> simp [splitTop, openAngles, hv]
  | cons c u ih =>
      have hcount : openAngles depth (c :: u) = openAngles (openAngles depth [c]) u := by
        rw [← List.singleton_append, openAngles_append]
      rw [List.cons_append, splitTop_cons hx, splitTop_cons hx, hcount]
      split
      · simp
      · rw [ih]
        simp [Option.map_or, Function.comp_def]

theorem splitTop_eq_none_iff
    {depth : Nat} {s : List Char} :
    splitTop x depth s = none ↔ Covered x depth s := by
  induction s generalizing depth with
  | nil =>
      simp [splitTop, Covered]
  | cons c s ih =>
      rw [splitTop_cons hx, covered_cons, ← ih]
      split
      · next h => simp [h]
      · next h => simp [h]

theorem covered_append
    {depth : Nat} {u v : List Char} :
    Covered x depth (u ++ v) ↔ Covered x depth u ∧ Covered x (openAngles depth u) v := by
  rw [← splitTop_eq_none_iff hx, ← splitTop_eq_none_iff hx, ← splitTop_eq_none_iff hx,
    splitTop_append hx]
  simp

/-- A text is cut behind a front part in which the character is covered. -/
theorem exists_of_covered
    {depth : Nat} {w s before after : List Char}
    (hw : Covered x depth w)
    (h : splitTop x depth (w ++ s) = some (before, after)) :
    ∃ m, before = w ++ m := by
  rw [splitTop_append hx, (splitTop_eq_none_iff hx).mpr hw] at h
  obtain ⟨p, -, hp⟩ := Option.map_eq_some_iff.mp h
  exact ⟨p.1, (Prod.mk.inj hp).1.symm⟩

theorem splitTop_of_reached
    {s : List Char} (rest : List Char)
    (h : Reached x s) :
    splitTop x 0 (s ++ x :: rest) = some (s, rest) := by
  have hhead : splitTop x 0 (x :: rest) = some ([], rest) := by
    rw [splitTop_cons hx, if_pos ⟨rfl, rfl⟩]
  rw [splitTop_append hx, (splitTop_eq_none_iff hx).mpr h.covered, h.top, hhead]
  simp

/-- A text is cut at the character that follows a text reached for it. -/
theorem splitTop_eq_some_iff
    {s before after : List Char} :
    splitTop x 0 s = some (before, after) ↔ s = before ++ x :: after ∧ Reached x before := by
  constructor
  · have hfrom : ∀ depth before, splitTop x depth s = some (before, after) →
        s = before ++ x :: after ∧ openAngles depth before = 0 ∧ Covered x depth before := by
      induction s with
      | nil =>
          intro depth before h
          cases h
      | cons c s ih =>
          intro depth before h
          rw [splitTop_cons hx] at h
          split at h
          · next hc =>
              obtain ⟨rfl, rfl⟩ := Prod.mk.inj (Option.some.inj h)
              exact ⟨by rw [hc.1]; rfl, hc.2, covered_of_not_mem depth (by simp)⟩
          · next hc =>
              obtain ⟨⟨b, a⟩, hba, heq⟩ := Option.map_eq_some_iff.mp h
              obtain ⟨rfl, rfl⟩ := Prod.mk.inj heq
              obtain ⟨hs, htop, hcovered⟩ := ih _ b hba
              refine ⟨by rw [hs]; rfl, ?_, covered_cons.mpr ⟨hc, hcovered⟩⟩
              rwa [← List.singleton_append, openAngles_append]
    intro h
    obtain ⟨hs, htop, hcovered⟩ := hfrom 0 before h
    exact ⟨hs, hcovered, htop⟩
  · rintro ⟨rfl, hreached⟩
    exact splitTop_of_reached hx after hreached

end Cuts

section Groups

theorem splitGroup_eq_some
    {depth : Nat} {s inner after : List Char}
    (h : splitGroup depth s = some (inner, after)) :
    s = inner ++ ')' :: after ∧ depthAfter depth inner = some 0 := by
  induction s generalizing depth inner with
  | nil =>
      cases h
  | cons c s ih =>
      rw [splitGroup] at h
      split at h
      · next hc =>
          obtain ⟨⟨i, a⟩, hia, heq⟩ := Option.map_eq_some_iff.mp h
          obtain ⟨rfl, rfl⟩ := Prod.mk.inj heq
          obtain ⟨hs, hdepth⟩ := ih hia
          exact ⟨by rw [hs]; rfl, by rw [depthAfter, if_pos hc, hdepth]⟩
      · next hc =>
          split at h
          · next hclose =>
              split at h
              · next hzero =>
                  obtain ⟨rfl, rfl⟩ := Prod.mk.inj (Option.some.inj h)
                  exact ⟨by rw [hclose]; rfl, by rw [depthAfter, hzero]⟩
              · next hzero =>
                  obtain ⟨⟨i, a⟩, hia, heq⟩ := Option.map_eq_some_iff.mp h
                  obtain ⟨rfl, rfl⟩ := Prod.mk.inj heq
                  obtain ⟨hs, hdepth⟩ := ih hia
                  exact ⟨by rw [hs]; rfl,
                    by rw [depthAfter, if_neg hc, if_pos hclose, if_neg hzero, hdepth]⟩
          · next hclose =>
              obtain ⟨⟨i, a⟩, hia, heq⟩ := Option.map_eq_some_iff.mp h
              obtain ⟨rfl, rfl⟩ := Prod.mk.inj heq
              obtain ⟨hs, hdepth⟩ := ih hia
              exact ⟨by rw [hs]; rfl, by rw [depthAfter, if_neg hc, if_neg hclose, hdepth]⟩

/-- A group that does not end in a text leaves a depth at its end. -/
theorem depthAfter_of_splitGroup
    {depth : Nat} {s : List Char}
    (h : splitGroup depth s = none) :
    ∃ e, depthAfter depth s = some e := by
  induction s generalizing depth with
  | nil =>
      exact ⟨depth, rfl⟩
  | cons c s ih =>
      rw [splitGroup] at h
      rw [depthAfter]
      split at h
      · next hc =>
          rw [if_pos hc]
          exact ih (Option.map_eq_none_iff.mp h)
      · next hc =>
          rw [if_neg hc]
          split at h
          · next hclose =>
              rw [if_pos hclose]
              split at h
              · cases h
              · next hzero =>
                  rw [if_neg hzero]
                  exact ih (Option.map_eq_none_iff.mp h)
          · next hclose =>
              rw [if_neg hclose]
              exact ih (Option.map_eq_none_iff.mp h)

/-- The first parenthesis of a balanced text opens a group. -/
theorem Balanced.exists_box
    {s : List Char}
    (h : Balanced s)
    (hopen : '(' ∈ s) :
    ∃ before inner after, '(' ∉ before ∧ Balanced inner ∧ s = box before inner after := by
  obtain ⟨before, rest, rfl, hbefore⟩ := List.eq_append_cons_of_mem hopen
  have hfree : ParenFree before := by
    refine ⟨hbefore, fun hclose => ?_⟩
    obtain ⟨b, c, rfl, hb⟩ := List.eq_append_cons_of_mem hclose
    have hfront : ParenFree b := ⟨fun hmem => hbefore (List.mem_append_left _ hmem), hb⟩
    have hend : Spelling.depthAfter 0 (')' :: c ++ '(' :: rest) = none := rfl
    rw [Balanced, List.append_assoc, depthAfter_append, hfront.balanced, Option.bind_some,
      hend] at h
    cases h
  cases hgroup : splitGroup 0 rest with
  | some p =>
      obtain ⟨hrest, hinner⟩ := splitGroup_eq_some hgroup
      exact ⟨before, p.1, p.2, hbefore, hinner, by rw [hrest]; simp [box]⟩
  | none =>
      -- the group would stay open
      obtain ⟨e, he⟩ := depthAfter_of_splitGroup hgroup
      have hrest : Spelling.depthAfter 0 ('(' :: rest) = some (e + 1) := depthAfter_add he 1
      rw [Balanced, depthAfter_append, hfree.balanced, Option.bind_some, hrest] at h
      cases h

/-- The first group that is not covered is found when it holds a declarator. -/
theorem group?_box_eq
    {before inner : List Char} (after : List Char)
    (hbefore : Reached '(' before)
    (hinner : Balanced inner) :
    group? (box before inner after) =
      if isDeclarator inner then some ⟨before, inner, after⟩ else none := by
  have hbox : box before inner after = before ++ '(' :: (inner ++ ')' :: after) := by
    simp [box]
  rw [group?, hbox, splitTop_of_reached (by decide) _ hbefore]
  simp only [splitGroup_balanced hinner]

theorem group?_eq_some_iff
    {s : List Char} {g : Group} :
    group? s = some g ↔
      s = box g.before g.inner g.after ∧ Reached '(' g.before ∧ Balanced g.inner ∧
        isDeclarator g.inner = true := by
  constructor
  · intro h
    unfold group? at h
    split at h
    · cases h
    · next before rest hsplit =>
        split at h
        · cases h
        · next inner after hgroup =>
            split at h
            · next hdecl =>
                obtain rfl := Option.some.inj h
                obtain ⟨hs, hbefore⟩ := (splitTop_eq_some_iff (by decide)).mp hsplit
                obtain ⟨hrest, hinner⟩ := splitGroup_eq_some hgroup
                exact ⟨by rw [hs, hrest]; simp [box], hbefore, hinner, hdecl⟩
            · cases h
  · rintro ⟨rfl, hbefore, hinner, hdecl⟩
    rw [group?_box_eq g.after hbefore hinner, if_pos hdecl]

end Groups

section Texts

/-- A character of a text in two parts stands in one of them. -/
theorem append_eq_cut
    {c : Char} {s t before after : List Char}
    (h : s ++ t = before ++ c :: after) :
    (∃ m, s = before ++ c :: m ∧ after = m ++ t) ∨ ∃ m, before = s ++ m ∧ t = m ++ c :: after := by
  rcases List.append_eq_append_iff.mp h with ⟨m, hbefore, ht⟩ | ⟨m, hs, hm⟩
  · exact .inr ⟨m, hbefore, ht⟩
  · cases m with
    | nil =>
        exact .inr ⟨[], by simpa using hs.symm, hm.symm⟩
    | cons d m =>
        obtain ⟨rfl, hafter⟩ := List.cons.inj hm
        exact .inl ⟨m, hs, hafter⟩

/-- A character that is not in the front part stands behind it. -/
theorem exists_behind
    {c : Char} {w s before after : List Char}
    (hc : c ∉ w)
    (h : w ++ s = before ++ c :: after) :
    ∃ m, before = w ++ m ∧ s = m ++ c :: after := by
  rcases append_eq_cut h with ⟨m, rfl, -⟩ | hbehind
  · exact absurd (by simp) hc
  · exact hbehind

/-- A character that is not in the end part stands in front of it. -/
theorem exists_ahead
    {c : Char} {s t before after : List Char}
    (hc : c ∉ t)
    (h : s ++ t = before ++ c :: after) :
    ∃ m, after = m ++ t ∧ s = before ++ c :: m := by
  rcases append_eq_cut h with ⟨m, hs, hafter⟩ | ⟨m, -, rfl⟩
  · exact ⟨m, hafter, hs⟩
  · exact absurd (by simp) hc

/-- Where two texts give the same in either order, the second is the first repeated, and at its end a
part of the first that can be moved over the rest of it. -/
theorem exists_repeated_of_append_comm
    {d v : List Char}
    (hd : d ≠ [])
    (h : d ++ v = v ++ d) :
    ∃ k r m, v = (List.replicate k d).flatten ++ r ∧ d = r ++ m ∧ d = m ++ r := by
  -- the first text is taken off the front of the second as often as it fits
  induction hlen : v.length using Nat.strongRecOn generalizing v with
  | ind l ih =>
      rcases List.append_eq_append_iff.mp h with ⟨w, hv, hw⟩ | ⟨m, hdm, hmd⟩
      · have hshort : w.length < l := by
          have hpos := List.length_pos_of_ne_nil hd
          rw [← hlen, hv, List.length_append]
          omega
        obtain ⟨k, r, m, hrepeated, hparts⟩ := ih w.length hshort (hv.symm.trans hw) rfl
        refine ⟨k + 1, r, m, ?_, hparts⟩
        rw [hv, hrepeated, List.replicate_succ, List.flatten_cons, List.append_assoc]
      · exact ⟨0, v, m, rfl, hdm, hmd⟩

/-- Where two texts give the same in either order, one has only characters of the other. -/
theorem mem_of_append_comm
    {d v : List Char}
    (hd : d ≠ [])
    (h : d ++ v = v ++ d) :
    ∀ c ∈ v, c ∈ d := by
  obtain ⟨k, r, m, rfl, hdr, -⟩ := exists_repeated_of_append_comm hd h
  intro c hc
  rcases List.mem_append.mp hc with hc | hc
  · obtain ⟨w, hw, hc⟩ := List.mem_flatten.mp hc
    rwa [← List.eq_of_mem_replicate hw]
  · rw [hdr]
    exact List.mem_append_left m hc

end Texts

end Spelling
end TypeCatalog
