import TypeCatalog.Proofs.Spelling.Reading
import TypeCatalog.Proofs.Spelling.Rules
import TypeCatalog.Proofs.Spelling.TopLevel

/-!
# Qualifying in steps

**Input.** A spelling, and two sets of qualifiers that are applied to it one after the other.

**Rule.** Qualifiers are written after the declarator at the end of a spelling, or else after the one
at the end of its group, or else in front of the spelling. The words of a set are written in a fixed
order. What was qualified after a declarator no longer ends in it, so the next qualifiers go to
another place.

**Notions.** A spelling is leading when its qualifiers are written in front. One set is written
before another when each of its qualifiers precedes each one of the other in the fixed order.

**Results.**
* `words_ordered_iff`: the words of two sets in a row are those of both sets together, exactly if
  the first set is written before the second.
* `qualify_steps_iff`: qualifying in steps gives the spelling of qualifying at once, exactly if the
  spelling is leading and the qualifiers of the second step are written before those of the first.
-/

namespace TypeCatalog
namespace Spelling

open Text TypeTerm

/-- The qualifiers in the order in which they are written. -/
def written :
    Fin 3 → Qualifiers
  | 0 => .const
  | 1 => .volatile
  | 2 => .restrict

/-- Every qualifier of the first set is written before every one of the second. -/
def WrittenBefore
    (p q : Qualifiers) :
    Prop :=
  ∀ i j, p.contains (written i) = true → q.contains (written j) = true → i < j

instance
    (p q : Qualifiers) :
    Decidable (WrittenBefore p q) :=
  inferInstanceAs (Decidable (∀ _ _, _))

section Words

/-- A set contains a qualifier of one bit when it has the bit. -/
theorem contains_eq_getLsbD
    (q : Qualifiers) {f : Qualifiers} {i : Nat}
    (hf : f.bits.toBitVec = BitVec.twoPow 8 i)
    (hi : BitVec.twoPow 8 i ≠ 0) :
    q.contains f = q.bits.toBitVec.getLsbD i := by
  rw [Bool.eq_iff_iff, Qualifiers.contains, beq_iff_eq, ← UInt8.toBitVec_inj, UInt8.toBitVec_and,
    hf, BitVec.and_twoPow]
  cases q.bits.toBitVec.getLsbD i with
  | true =>
      simp
  | false =>
      simpa using Ne.symm hi

theorem contains_union
    (p q : Qualifiers) (i : Fin 3) :
    (p.union q).contains (written i) = (p.contains (written i) || q.contains (written i)) := by
  obtain ⟨k, hbit, hk⟩ :
      ∃ k, (written i).bits.toBitVec = BitVec.twoPow 8 k ∧ BitVec.twoPow 8 k ≠ 0 := by
    match i with
    | 0 => exact ⟨0, by decide⟩
    | 1 => exact ⟨2, by decide⟩
    | 2 => exact ⟨1, by decide⟩
  simp only [contains_eq_getLsbD _ hbit hk, Qualifiers.union, UInt8.toBitVec_or,
    BitVec.getLsbD_or]

/-- The words of the qualifiers for which flags are set. -/
def wordsOf
    (isConst isVolatile isRestrict : Bool) :
    List Char :=
  joinWith " "
    (([(isConst, "const"), (isVolatile, "volatile"), (isRestrict, "restrict")].filter
      Prod.fst).map fun p => p.2.toList)

theorem qualifierWords_eq
    (q : Qualifiers) :
    qualifierWords q =
      wordsOf (q.contains (written 0)) (q.contains (written 1)) (q.contains (written 2)) := by
  simp only [qualifierWords, wordsOf, written, List.filter_cons, List.filter_nil]
  cases q.contains .const <;> cases q.contains .volatile <;> cases q.contains .restrict <;> rfl

/-- The words of two sets in a row are those of the sets together, exactly if the first set is
written before the second. -/
theorem words_ordered_iff
    {p q : Qualifiers}
    (hp : qualifierWords p ≠ [])
    (hq : qualifierWords q ≠ []) :
    qualifierWords q ++ ' ' :: qualifierWords p = qualifierWords (p.union q) ↔
      WrittenBefore q p := by
  have hflags : ∀ c v r c' v' r' : Bool, wordsOf c v r ≠ [] → wordsOf c' v' r' ≠ [] →
      (wordsOf c' v' r' ++ ' ' :: wordsOf c v r = wordsOf (c || c') (v || v') (r || r') ↔
        ∀ i j : Fin 3, [c', v', r'][i] = true → [c, v, r][j] = true → i < j) := by
    decide +kernel
  have hlist : ∀ (s : Qualifiers) (i : Fin 3),
      [s.contains (written 0), s.contains (written 1), s.contains (written 2)][i] =
        s.contains (written i) := by
    intro s i
    match i with
    | 0 => rfl
    | 1 => rfl
    | 2 => rfl
  rw [qualifierWords_eq] at hp hq
  have hwords := hflags _ _ _ _ _ _ hp hq
  simp only [hlist, ← contains_union, ← qualifierWords_eq] at hwords
  exact hwords

end Words

section Places

/-- A spelling becomes leading when qualifiers are written in its group. -/
theorem leading_of_group
    {s : List Char} {g : Group} {q : Qualifiers}
    (hq : qualifierWords q ≠ [])
    (hends : endsDeclarator s = false)
    (hgroup : group? s = some g) :
    Leading (box g.before (g.inner ++ ' ' :: qualifierWords q) g.after) := by
  obtain ⟨hs, hbefore, hinner, -⟩ := group?_eq_some_iff.mp hgroup
  have hclose : ∀ inner, endsDeclarator (box g.before inner g.after) =
      endsDeclarator (')' :: g.after) := by
    intro inner
    rw [box, endsDeclarator_append (by simp)]
  refine ⟨?_, fun g' hg' => ?_⟩
  · rw [hclose, ← hclose g.inner, ← hs]
    exact hends
  · have hwords : ParenFree (' ' :: qualifierWords q) :=
      ⟨not_mem_words hq rfl, not_mem_words hq rfl⟩
    rw [group?_box_eq g.after hbefore (hinner.append hwords.balanced)] at hg'
    split at hg'
    · obtain rfl := Option.some.inj hg'
      exact endsDeclarator_words g.inner hq
    · cases hg'

end Places

section Steps

variable {p q : Qualifiers} (hp : qualifierWords p ≠ []) (hq : qualifierWords q ≠ [])
include hp hq

/-- Words that follow a declarator mark where it ends. -/
theorem front_eq_of_words
    {w w' : List Char} (rest : List Char)
    (hw : endsDeclarator w = true)
    (hw' : endsDeclarator w' = true)
    (h : w ++ ' ' :: qualifierWords p ++ rest = w' ++ ' ' :: qualifierWords q ++ rest) :
    w = w' :=
  (words_unique (qualifierWords_mem hp) (qualifierWords_mem hq) hw hw'
    (List.append_cancel_right h)).1

omit hq in
theorem words_union_ne_nil
    (q : Qualifiers) :
    qualifierWords (p.union q) ≠ [] := by
  have hflags : ∀ c v r c' v' r' : Bool, wordsOf c v r ≠ [] →
      wordsOf (c || c') (v || v') (r || r') ≠ [] := by
    decide +kernel
  rw [qualifierWords_eq] at hp
  rw [qualifierWords_eq, contains_union, contains_union, contains_union]
  exact hflags _ _ _ _ _ _ hp

/-- After qualifiers at the end of a pointer, the next ones are not written behind its declarator. -/
theorem qualify_trailing_ne
    {s : List Char}
    (hs : endsDeclarator s = true) :
    qualify (s ++ ' ' :: qualifierWords p) q ≠ s ++ ' ' :: qualifierWords (p.union q) := by
  have hboth := words_union_ne_nil hp q
  intro heq
  rcases qualify_cases (s ++ ' ' :: qualifierWords p) with
    ⟨-, hwords⟩ | ⟨hends, -⟩ | ⟨g, -, hgroup, -, hwords⟩
  · rw [hwords q hq] at heq
    have hlead : endsDeclarator (qualifierWords q ++ ' ' :: s) = true := by
      have hne : s ≠ [] := by
        rintro rfl
        cases hs
      rw [← List.singleton_append, ← List.append_assoc, endsDeclarator_append hne]
      exact hs
    have hsame := front_eq_of_words hp hboth [] hlead hs (by simpa using heq)
    have hlength := congrArg List.length hsame
    simp only [List.length_append, List.length_cons] at hlength
    omega
  · rw [endsDeclarator_words s hp] at hends
    cases hends
  · rw [hwords q hq] at heq
    -- the group is one of the pointer itself, and ends before its declarator
    obtain ⟨hbox, -⟩ := group?_eq_some_iff.mp hgroup
    obtain ⟨after, hafter, hsplit⟩ := exists_ahead (not_mem_words hp rfl) hbox
    have hlast : ∀ inner, endsDeclarator (box g.before inner after) =
        endsDeclarator (')' :: after) := by
      intro inner
      rw [box, endsDeclarator_append (by simp)]
    have hgrown : endsDeclarator (box g.before (g.inner ++ ' ' :: qualifierWords q) after) =
        true := by
      rw [hlast, ← hlast g.inner]
      rwa [hsplit] at hs
    have hsame := front_eq_of_words hp hboth [] hgrown hs
      (by rw [hafter] at heq; simpa [box] using heq)
    have hlength := congrArg List.length hsame
    rw [hsplit] at hlength
    simp only [box, List.length_append, List.length_cons] at hlength
    omega

/-- After qualifiers in the group of a pointer, the next ones are not written there. -/
theorem qualify_group_ne
    {s : List Char} {g : Group}
    (hends : endsDeclarator s = false)
    (hgroup : group? s = some g)
    (hinner : endsDeclarator g.inner = true) :
    qualify (box g.before (g.inner ++ ' ' :: qualifierWords p) g.after) q ≠
      box g.before (g.inner ++ ' ' :: qualifierWords (p.union q)) g.after := by
  have hboth := words_union_ne_nil hp q
  have hne : g.inner ≠ [] := by
    intro hnil
    rw [hnil] at hinner
    cases hinner
  have hfront : ∀ w : List Char, endsDeclarator (w ++ '(' :: g.inner) = true := by
    intro w
    rw [← List.singleton_append, ← List.append_assoc, endsDeclarator_append hne]
    exact hinner
  rw [(leading_of_group hp hends hgroup).qualify_eq hq]
  intro heq
  have hsame := front_eq_of_words hp hboth (')' :: g.after)
    (hfront (qualifierWords q ++ ' ' :: g.before)) (hfront g.before)
    (by simpa [box] using heq)
  have hlength := congrArg List.length hsame
  simp only [List.length_append, List.length_cons] at hlength
  omega

/-- Qualifying in steps is qualifying at once exactly if both steps write in front, the words of the
second before those of the first. -/
theorem qualify_qualify_iff
    (s : List Char) :
    qualify (qualify s p) q = qualify s (p.union q) ↔ Leading s ∧ WrittenBefore q p := by
  have hboth := words_union_ne_nil hp q
  rcases qualify_cases s with ⟨hlead, hwords⟩ | ⟨hends, hwords⟩ | ⟨g, hends, hgroup, hinner, hwords⟩
  · rw [hwords p hp, hwords _ hboth, ← words_ordered_iff hp hq]
    have hrow : qualifierWords q ++ ' ' :: (qualifierWords p ++ ' ' :: s) =
        (qualifierWords q ++ ' ' :: qualifierWords p) ++ ' ' :: s := by
      simp
    rw [(hlead.prepend hp).qualify_eq hq, hrow, List.append_left_inj, and_iff_right hlead]
  · rw [hwords p hp, hwords _ hboth]
    refine iff_of_false (qualify_trailing_ne hp hq hends) fun h => ?_
    rw [h.1.ends] at hends
    cases hends
  · rw [hwords p hp, hwords _ hboth]
    refine iff_of_false (qualify_group_ne hp hq hends hgroup hinner) fun h => ?_
    rw [h.1.group g hgroup] at hinner
    cases hinner

end Steps

end Spelling

namespace Namer

open Spelling

/-- The id stands for the target with qualifiers: it is a qualified type of the target, or it is not
defined and ends in the letters of the qualifiers. -/
inductive Qualified
    (n : Namer) (id target : String) (q : Qualifiers) :
    Prop
  | stated
      {e : Element}
      (he : n.index.find? id = some e)
      (hkind : e.kind = .cvQualified)
      (htarget : e.attr? "type" = some target)
      (hq : e.qualifiers = q)
  | implied
      (he : n.index.find? id = none)
      (hbase : qualifiedId? id = some (target, q))

theorem Qualified.spells
    {n : Namer} {id target underlying : String} {q : Qualifiers}
    (h : n.Qualified id target q)
    (hunderlying : n.Spells target underlying) :
    n.Spells id (String.ofList (qualify underlying.toList q)) := by
  cases h with
  | stated he hkind htarget hq =>
      rw [← hq]
      exact .cvQualified he hkind htarget hunderlying
  | implied he hbase =>
      exact .derived he hbase hunderlying

end Namer

namespace Spelling

/-- Qualifying in steps gives the spelling of qualifying at once exactly if qualifiers are written in
front of the spelling, and those of the second step before those of the first. So it is for the ids
of a document: a qualified type of a qualified type is spelled like one qualified type exactly in
this case. -/
theorem qualify_steps_iff
    {p q : Qualifiers} (s : String)
    (hp : qualifierWords p ≠ [])
    (hq : qualifierWords q ≠ []) :
    (qualify (qualify s.toList p) q = qualify s.toList (p.union q) ↔
      Leading s.toList ∧ WrittenBefore q p) ∧
    ∀ (n : Namer) (target once twice joint : String), n.Spells target s →
      n.Qualified once target p → n.Qualified twice once q → n.Qualified joint target (p.union q) →
      ∃ name name', n.Spells twice name ∧ n.Spells joint name' ∧
        (name = name' ↔ Leading s.toList ∧ WrittenBefore q p) := by
  have hsteps := qualify_qualify_iff hp hq s.toList
  refine ⟨hsteps, fun n target once twice joint hs honce htwice hjoint => ?_⟩
  refine ⟨_, _, htwice.spells (honce.spells hs), hjoint.spells hs, ?_⟩
  rw [String.toList_ofList, String.ofList_inj, hsteps]

/-- A constant volatile integer: the second step writes its word before that of the first. -/
theorem qualify_steps_integer :
    qualify (qualify "int".toList .volatile) .const = "const volatile int".toList := by
  have hlead : Leading "int".toList := ⟨by decide, by simp [group?, splitTop]⟩
  rw [(qualify_steps_iff "int" (by decide) (by decide)).1.mpr ⟨hlead, by decide⟩]
  decide

/-- In the other order the words are not in their fixed order, and at a pointer the second step
qualifies what is pointed to. -/
theorem qualify_steps_differ :
    qualify (qualify "int".toList .const) .volatile = "volatile const int".toList ∧
      qualify "int".toList (.union .const .volatile) = "const volatile int".toList ∧
      qualify (qualify "int*".toList .const) .volatile = "volatile int* const".toList ∧
      qualify "int*".toList (.union .const .volatile) = "int* const volatile".toList ∧
      qualify (qualify "int(*)(void)".toList .const) .volatile =
        "volatile int(* const)(void)".toList ∧
      qualify "int(*)(void)".toList (.union .const .volatile) =
        "int(* const volatile)(void)".toList := by
  decide

end Spelling
end TypeCatalog
