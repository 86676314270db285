import Mathlib.Data.List.Basic
import TypeCatalog.Spelling.Declarator

/-!
# Groups of parentheses and lists in a text

**Notion.** `depthAfter d cs` is the number of open parentheses after a text, `d` of them being open
before it; there is none when a parenthesis closes that was not opened. A text is balanced when it
leaves the depth as it was. It is closed when, besides, no comma stands outside its parentheses.

**Results.**
* `splitGroup_balanced`: the group that a balanced text is in ends after the text.
* `last_cut_unique`: a text is cut in one way at its last character of a kind.
* `last_group_unique`: the last group of a text is determined by the text.
* `joinWith_injective`: closed items are determined by the list that they are joined to.
-/

namespace TypeCatalog
namespace Spelling

open Text

-- characters are finitely many, which gives another instance that cannot be evaluated
instance (priority := high) decidableAllChars
    {P : Char → Prop} [DecidablePred P] (s : List Char) :
    Decidable (∀ c ∈ s, P c) :=
  List.decidableBAll P s

/-- The open parentheses after a text, given those before it. -/
def depthAfter :
    Nat → List Char → Option Nat
  | d, [] => some d
  | d, c :: cs =>
      if c = '(' then depthAfter (d + 1) cs
      else if c = ')' then if d = 0 then none else depthAfter (d - 1) cs
      else depthAfter d cs

/-- The text opens as many parentheses as it closes, and opens them first. -/
def Balanced
    (cs : List Char) :
    Prop :=
  depthAfter 0 cs = some 0

/-- The text has no parentheses. -/
def ParenFree
    (cs : List Char) :
    Prop :=
  '(' ∉ cs ∧ ')' ∉ cs

instance
    (cs : List Char) :
    Decidable (ParenFree cs) :=
  inferInstanceAs (Decidable (_ ∧ _))

/-- A balanced text in which every comma stands inside parentheses. -/
structure Closed
    (cs : List Char) :
    Prop where
  balanced : Balanced cs
  comma : ∀ p q, cs = p ++ ',' :: q → depthAfter 0 p ≠ some 0

section Depth

theorem depthAfter_append
    (d : Nat) (a b : List Char) :
    depthAfter d (a ++ b) = (depthAfter d a).bind fun e => depthAfter e b := by
  induction a generalizing d with
  | nil =>
      rfl
  | cons c a ih =>
      rw [List.cons_append, depthAfter, depthAfter]
      split
      · exact ih (d + 1)
      · split
        · split
          · rfl
          · exact ih (d - 1)
        · exact ih d

theorem depthAfter_add
    {d e : Nat} {a : List Char}
    (h : depthAfter d a = some e) (k : Nat) :
    depthAfter (d + k) a = some (e + k) := by
  induction a generalizing d with
  | nil =>
      cases h
      rfl
  | cons c a ih =>
      rw [depthAfter] at h ⊢
      split at h
      · have hnext := ih h
        rwa [if_pos ‹_›, Nat.add_right_comm]
      · rw [if_neg ‹_›]
        split at h
        · rw [if_pos ‹_›]
          split at h
          · cases h
          · have hnext := ih h
            rwa [if_neg (by omega), Nat.sub_add_comm (by omega)]
        · have hnext := ih h
          rwa [if_neg ‹_›]

theorem Balanced.depthAfter
    {a : List Char}
    (h : Balanced a) (d : Nat) :
    depthAfter d a = some d := by
  have hshift := depthAfter_add h d
  rwa [Nat.zero_add] at hshift

theorem Balanced.append
    {a b : List Char}
    (ha : Balanced a)
    (hb : Balanced b) :
    Balanced (a ++ b) := by
  rw [Balanced, depthAfter_append, ha, Option.bind_some]
  exact hb

theorem Balanced.group
    {a : List Char}
    (ha : Balanced a) :
    Balanced ('(' :: a ++ [')']) := by
  have hopen : Spelling.depthAfter 0 ('(' :: (a ++ [')'])) =
      Spelling.depthAfter 1 (a ++ [')']) := rfl
  rw [Balanced, List.cons_append, hopen, depthAfter_append, ha.depthAfter 1]
  rfl

theorem ParenFree.balanced
    {a : List Char}
    (h : ParenFree a) :
    Balanced a := by
  have hsame : ∀ d, Spelling.depthAfter d a = some d := by
    obtain ⟨hopen, hclose⟩ := h
    induction a with
    | nil =>
        intro d
        rfl
    | cons c a ih =>
        intro d
        simp only [List.mem_cons, not_or] at hopen hclose
        rw [Spelling.depthAfter, if_neg (Ne.symm hopen.1), if_neg (Ne.symm hclose.1)]
        exact ih hopen.2 hclose.2 d
  exact hsame 0

/-- A balanced text that opens no parenthesis closes none. -/
theorem Balanced.close_not_mem
    {a : List Char}
    (h : Balanced a)
    (hopen : '(' ∉ a) :
    ')' ∉ a := by
  intro hclose
  obtain ⟨b, c, rfl, hb⟩ := List.eq_append_cons_of_mem hclose
  have hfree : ParenFree b := ⟨fun hmem => hopen (List.mem_append_left _ hmem), hb⟩
  have hend : Spelling.depthAfter 0 (')' :: c) = none := rfl
  rw [Balanced, depthAfter_append, hfree.balanced, Option.bind_some, hend] at h
  cases h

theorem le_of_depthAfter
    {d e : Nat} {a : List Char}
    (hclose : ')' ∉ a)
    (h : depthAfter d a = some e) :
    d ≤ e := by
  induction a generalizing d with
  | nil =>
      cases h
      exact Nat.le_refl _
  | cons c a ih =>
      simp only [List.mem_cons, not_or] at hclose
      rw [depthAfter, if_neg (Ne.symm hclose.1)] at h
      split at h
      · exact Nat.le_of_succ_le (ih hclose.2 h)
      · exact ih hclose.2 h

/-- A parenthesis that is opened in a balanced text is closed behind. -/
theorem Balanced.close_mem
    {a b : List Char}
    (h : Balanced (a ++ '(' :: b)) :
    ')' ∈ b := by
  by_contra hclose
  rw [Balanced, depthAfter_append] at h
  obtain ⟨k, -, hk⟩ := Option.bind_eq_some_iff.mp h
  have hopen : Spelling.depthAfter k ('(' :: b) = Spelling.depthAfter (k + 1) b := rfl
  rw [hopen] at hk
  exact absurd (le_of_depthAfter hclose hk) (by omega)

theorem ParenFree.append
    {a b : List Char}
    (ha : ParenFree a)
    (hb : ParenFree b) :
    ParenFree (a ++ b) := by
  simp only [ParenFree, List.mem_append, not_or]
  exact ⟨⟨ha.1, hb.1⟩, ha.2, hb.2⟩

end Depth

section Cuts

/-- A text is cut in one way at its last character of a kind. -/
theorem last_cut_unique
    {P : Char → Prop} {s s' t t' : List Char} {c c' : Char}
    (hc : P c)
    (hc' : P c')
    (ht : ∀ x ∈ t, ¬ P x)
    (ht' : ∀ x ∈ t', ¬ P x)
    (h : s ++ c :: t = s' ++ c' :: t') :
    s = s' ∧ c = c' ∧ t = t' := by
  rcases List.append_eq_append_iff.mp h with ⟨m, hs, hm⟩ | ⟨m, hs, hm⟩
  · cases m with
    | nil =>
        rw [List.nil_append] at hm
        obtain ⟨hcc, htt⟩ := List.cons.inj hm
        exact ⟨by simpa using hs.symm, hcc, htt⟩
    | cons x m =>
        have htail : t = m ++ c' :: t' := (List.cons.inj hm).2
        exact absurd hc' (ht c' (by simp [htail]))
  · cases m with
    | nil =>
        rw [List.nil_append] at hm
        obtain ⟨hcc, htt⟩ := List.cons.inj hm
        exact ⟨by simpa using hs, hcc.symm, htt.symm⟩
    | cons x m =>
        have htail : t' = m ++ c :: t := (List.cons.inj hm).2
        exact absurd hc (ht' c (by simp [htail]))

theorem last_split_unique
    {c : Char} {s s' t t' : List Char}
    (ht : c ∉ t)
    (ht' : c ∉ t')
    (h : s ++ c :: t = s' ++ c :: t') :
    s = s' ∧ t = t' := by
  have hcut := last_cut_unique (P := fun x => x = c) rfl rfl
    (fun x hx hxc => ht (hxc ▸ hx)) (fun x hx hxc => ht' (hxc ▸ hx)) h
  exact ⟨hcut.1, hcut.2.2⟩

theorem first_split_unique
    {c : Char} {s s' t t' : List Char}
    (hs : c ∉ s)
    (hs' : c ∉ s')
    (h : s ++ c :: t = s' ++ c :: t') :
    s = s' ∧ t = t' := by
  have hreverse : t.reverse ++ c :: s.reverse = t'.reverse ++ c :: s'.reverse := by
    simpa using congrArg List.reverse h
  obtain ⟨ht, hs⟩ := last_split_unique (by simpa using hs) (by simpa using hs') hreverse
  exact ⟨List.reverse_injective hs, List.reverse_injective ht⟩

end Cuts

section Groups

theorem splitGroup_append
    {d e : Nat} {a : List Char}
    (h : depthAfter d a = some e) (rest : List Char) :
    splitGroup d (a ++ rest) = (splitGroup e rest).map fun p => (a ++ p.1, p.2) := by
  induction a generalizing d with
  | nil =>
      cases h
      cases hrest : splitGroup e rest <;> simp [hrest]
  | cons c a ih =>
      rw [depthAfter] at h
      rw [List.cons_append, splitGroup]
      split at h
      · rw [if_pos ‹_›, ih h, Option.map_map]
        rfl
      · rw [if_neg ‹_›]
        split at h
        · rw [if_pos ‹_›]
          split at h
          · cases h
          · rw [if_neg ‹_›, ih h, Option.map_map]
            rfl
        · rw [if_neg ‹_›, ih h, Option.map_map]
          rfl

/-- The group that a balanced text is in ends after the text. -/
theorem splitGroup_balanced
    {a : List Char}
    (h : Balanced a) (rest : List Char) :
    splitGroup 0 (a ++ ')' :: rest) = some (a, rest) := by
  rw [splitGroup_append h]
  simp [splitGroup]

/-- The last group of a text is determined by the text. -/
theorem last_group_unique
    {u u' a a' : List Char}
    (ha : Balanced a)
    (ha' : Balanced a')
    (h : u ++ '(' :: a ++ [')'] = u' ++ '(' :: a' ++ [')']) :
    u = u' ∧ a = a' := by
  have hcut : u ++ '(' :: a = u' ++ '(' :: a' := List.append_cancel_right h
  -- if one opening parenthesis stood before the other, it would stay open
  have hfirst : ∀ {m b b' : List Char}, Balanced b → Balanced b' →
      '(' :: b = m ++ '(' :: b' → m = [] := by
    intro m b b' hb hb' hm
    cases m with
    | nil =>
        rfl
    | cons c m =>
        have hb_eq : b = m ++ '(' :: b' := (List.cons.inj hm).2
        rw [hb_eq, Balanced, depthAfter_append] at hb
        obtain ⟨k, -, hk⟩ := Option.bind_eq_some_iff.mp hb
        have hopen : depthAfter k ('(' :: b') = some (k + 1) := hb'.depthAfter (k + 1)
        rw [hopen] at hk
        cases hk
  rcases List.append_eq_append_iff.mp hcut with ⟨m, hu, hm⟩ | ⟨m, hu, hm⟩
  · have hnil := hfirst ha ha' hm
    subst hnil
    rw [List.append_nil] at hu
    rw [List.nil_append] at hm
    exact ⟨hu.symm, (List.cons.inj hm).2⟩
  · have hnil := hfirst ha' ha hm
    subst hnil
    rw [List.append_nil] at hu
    rw [List.nil_append] at hm
    exact ⟨hu, (List.cons.inj hm).2.symm⟩

end Groups

section Lists

theorem Closed.of_free
    {a : List Char}
    (hparen : ParenFree a)
    (hcomma : ',' ∉ a) :
    Closed a := by
  refine ⟨hparen.balanced, ?_⟩
  intro p q h
  exact absurd (by simp [h]) hcomma

theorem Closed.append
    {a b : List Char}
    (ha : Closed a)
    (hb : Closed b) :
    Closed (a ++ b) := by
  refine ⟨ha.balanced.append hb.balanced, ?_⟩
  intro p q h
  rcases List.append_eq_append_iff.mp h with ⟨m, hp, hm⟩ | ⟨m, hp, hm⟩
  · -- the comma is in the second text
    rw [hp, depthAfter_append, ha.balanced, Option.bind_some]
    exact hb.comma m q hm
  · cases m with
    | nil =>
        rw [List.append_nil] at hp
        rw [← hp, ha.balanced]
        have hfront : depthAfter 0 [] ≠ some 0 := hb.comma [] q hm.symm
        exact absurd rfl hfront
    | cons c m =>
        have hc : ',' = c := (List.cons.inj hm).1
        rw [← hc] at hp
        exact ha.comma p m hp

theorem Closed.group
    {a : List Char}
    (ha : Balanced a) :
    Closed ('(' :: a ++ [')']) := by
  refine ⟨ha.group, ?_⟩
  intro p q h
  cases p with
  | nil =>
      cases h
  | cons c p =>
      obtain ⟨rfl, hrest⟩ : '(' = c ∧ a ++ [')'] = p ++ ',' :: q := by
        simpa using h
      -- inside the group the depth is one more than within the text
      obtain ⟨m, hm⟩ : ∃ m, a = p ++ m := by
        rcases List.append_eq_append_iff.mp hrest with ⟨m, hp, hm⟩ | ⟨m, hp, hm⟩
        · cases m with
          | nil =>
              cases hm
          | cons c m =>
              simp at hm
        · exact ⟨m, hp⟩
      have hinner := ha
      rw [hm, Balanced, depthAfter_append] at hinner
      obtain ⟨k, hk, -⟩ := Option.bind_eq_some_iff.mp hinner
      have hopen : depthAfter 0 ('(' :: p) = depthAfter 1 p := rfl
      have hshift := depthAfter_add hk 1
      rw [Nat.zero_add] at hshift
      rw [hopen, hshift]
      simp

/-- A closed text before a comma is determined by the text around it. -/
theorem Closed.comma_unique
    {a a' r r' : List Char}
    (ha : Closed a)
    (ha' : Closed a')
    (h : a ++ ',' :: r = a' ++ ',' :: r') :
    a = a' ∧ r = r' := by
  have hfirst : ∀ {m b b' : List Char} {s s' : List Char}, Closed b → Closed b' →
      b' = b ++ m → ',' :: s = m ++ ',' :: s' → m = [] := by
    intro m b b' s s' hb hb' hm hs
    cases m with
    | nil =>
        rfl
    | cons c m =>
        have hc : ',' = c := (List.cons.inj hs).1
        rw [← hc] at hm
        exact absurd hb.balanced (hb'.comma b m hm)
  rcases List.append_eq_append_iff.mp h with ⟨m, hm, hs⟩ | ⟨m, hm, hs⟩
  · have hnil := hfirst ha ha' hm hs
    subst hnil
    rw [List.append_nil] at hm
    rw [List.nil_append] at hs
    exact ⟨hm.symm, (List.cons.inj hs).2⟩
  · have hnil := hfirst ha' ha hm hs
    subst hnil
    rw [List.append_nil] at hm
    rw [List.nil_append] at hs
    exact ⟨hm, (List.cons.inj hs).2.symm⟩

theorem joinWith_cons_cons
    (x y : List Char) (zs : List (List Char)) :
    joinWith ", " (x :: y :: zs) = x ++ ',' :: ' ' :: joinWith ", " (y :: zs) := by
  simp [joinWith, List.intercalate, List.intersperse]

theorem joinWith_singleton
    (x : List Char) :
    joinWith ", " [x] = x := by
  simp [joinWith, List.intercalate, List.intersperse]

theorem balanced_joinWith
    {xs : List (List Char)}
    (h : ∀ x ∈ xs, Balanced x) :
    Balanced (joinWith ", " xs) := by
  induction xs with
  | nil =>
      rfl
  | cons x xs ih =>
      cases xs with
      | nil =>
          rw [joinWith_singleton]
          exact h x (by simp)
      | cons y zs =>
          have hrest := ih fun z hz => h z (List.mem_cons_of_mem x hz)
          have hsep : Balanced [',', ' '] := rfl
          rw [joinWith_cons_cons]
          exact (h x (by simp)).append (hsep.append hrest)

/-- Closed items are determined by the list that they are joined to. -/
theorem joinWith_injective
    {xs ys : List (List Char)}
    (hxs : ∀ x ∈ xs, Closed x)
    (hys : ∀ y ∈ ys, Closed y)
    (hx : xs ≠ [])
    (hy : ys ≠ [])
    (h : joinWith ", " xs = joinWith ", " ys) :
    xs = ys := by
  induction xs generalizing ys with
  | nil =>
      exact absurd rfl hx
  | cons x xs ih =>
      cases ys with
      | nil =>
          exact absurd rfl hy
      | cons y ys =>
          have hclosed := hxs x (by simp)
          have hclosed' := hys y (by simp)
          cases xs with
          | nil =>
              cases ys with
              | nil =>
                  rw [joinWith_singleton, joinWith_singleton] at h
                  rw [h]
              | cons y' ys =>
                  rw [joinWith_singleton, joinWith_cons_cons] at h
                  exact absurd hclosed'.balanced (hclosed.comma y _ h)
          | cons x' xs =>
              cases ys with
              | nil =>
                  rw [joinWith_singleton, joinWith_cons_cons] at h
                  exact absurd hclosed.balanced (hclosed'.comma x _ h.symm)
              | cons y' ys =>
                  rw [joinWith_cons_cons, joinWith_cons_cons] at h
                  obtain ⟨rfl, hrest⟩ := hclosed.comma_unique hclosed' h
                  have htail := ih (fun z hz => hxs z (List.mem_cons_of_mem x hz))
                    (fun z hz => hys z (List.mem_cons_of_mem x hz)) (by simp) (by simp)
                    (List.cons.inj hrest).2
                  rw [htail]

end Lists

end Spelling
end TypeCatalog
