import TypeCatalog.Text.Word
import Mathlib.Data.List.Basic

/-!
# Runs of a text

**Notion.** `Alternates p b rs` says of a list of texts that none is empty, and that `p` is constant
on each of them: `b` on the first, and the opposite from one to the next.

**Results.**
* `alternates_runs`: the runs of a text alternate.
* `Alternates.runs_flatten`: texts that alternate are the runs of the text that they make up.
* `isWord_of_isBlank`: no blank stands inside a word.
-/

namespace TypeCatalog
namespace Text

/-- Texts, none of them empty, on which `p` is constant and changes from one to the next. -/
inductive Alternates
    (p : Char → Bool) :
    Bool → List (List Char) → Prop
  | nil
      {b : Bool} :
      Alternates p b []
  | cons
      {b : Bool} {run : List Char} {rest : List (List Char)}
      (hne : run ≠ [])
      (hrun : ∀ c ∈ run, p c = b)
      (hrest : Alternates p (!b) rest) :
      Alternates p b (run :: rest)

section Runs

variable {p : Char → Bool}

/-- The first character of texts that alternate is of the first class. -/
theorem Alternates.head
    {b : Bool} {rs : List (List Char)} {c : Char}
    (h : Alternates p b rs)
    (hc : rs.flatten.head? = some c) :
    p c = b := by
  cases h with
  | nil =>
      cases hc
  | @cons _ run rest hne hrun _ =>
      rw [List.flatten_cons, List.head?_append_of_ne_nil _ hne] at hc
      exact hrun c (List.mem_of_head? hc)

theorem alternates_runs
    (p : Char → Bool) (cs : List Char) :
    ∃ b, Alternates p b (runs p cs) := by
  induction cs with
  | nil =>
      exact ⟨true, .nil⟩
  | cons c cs ih =>
      obtain ⟨b, hcs⟩ := ih
      have hone : ∀ {rest : List (List Char)}, Alternates p (!p c) rest →
          Alternates p (p c) ([c] :: rest) :=
        fun hrest => .cons (by simp) (by simp) hrest
      rw [runs]
      split
      · next d run rest hruns =>
          rw [hruns] at hcs
          obtain _ | ⟨-, hrun, hrest⟩ := hcs
          have hd : p d = b := hrun d (by simp)
          split
          · next hsame =>
              refine ⟨b, .cons (by simp) ?_ hrest⟩
              intro x hx
              rcases List.mem_cons.mp hx with rfl | hx
              · rw [hsame, hd]
              · exact hrun x hx
          · next hdiffer =>
              have hb : (!p c) = b := by
                rw [← hd]
                exact Bool.not_eq.mpr hdiffer
              exact ⟨p c, hone (hb ▸ .cons (by simp) hrun hrest)⟩
      · next hother =>
          generalize runs p cs = rs at hcs hother
          cases hcs with
          | nil =>
              exact ⟨p c, hone .nil⟩
          | @cons _ run rest hne _ _ =>
              obtain ⟨d, run, rfl⟩ := List.exists_cons_of_ne_nil hne
              exact absurd rfl (hother d run rest)

/-- A run is scanned as a whole, up to a character of the other class. -/
theorem runs_append
    {b : Bool} {run : List Char} (text : List Char)
    (hne : run ≠ [])
    (hrun : ∀ c ∈ run, p c = b)
    (htext : ∀ c, text.head? = some c → p c = !b) :
    runs p (run ++ text) = run :: runs p text := by
  induction run with
  | nil =>
      exact absurd rfl hne
  | cons c run ih =>
      have hc := hrun c (by simp)
      cases run with
      | nil =>
          rw [List.cons_append, List.nil_append, runs]
          split
          · next d more rest hruns =>
              have hd : text.head? = some d := by
                rw [← flatten_runs p text, hruns]
                rfl
              rw [if_neg (by simp [hc, htext d hd]), hruns]
          · rfl
      | cons d run =>
          have hrest := ih (by simp) fun x hx => hrun x (List.mem_cons_of_mem c hx)
          have hd := hrun d (by simp)
          rw [List.cons_append, runs, hrest]
          simp [hc, hd]

/-- Texts that alternate are the runs of the text that they make up. -/
theorem Alternates.runs_flatten
    {b : Bool} {rs : List (List Char)}
    (h : Alternates p b rs) :
    runs p rs.flatten = rs := by
  induction h with
  | nil =>
      rfl
  | cons hne hrun hrest ih =>
      rw [List.flatten_cons, runs_append _ hne hrun fun c hc => hrest.head hc, ih]

end Runs

/-- No blank stands inside a word. -/
theorem isWord_of_isBlank
    {c : Char}
    (h : isBlank c = true) :
    isWord c = false := by
  have hascii : ∀ n < 128, isBlank (Char.ofNat n) = true → isWord (Char.ofNat n) = false := by
    decide +kernel
  have hapart : (blankRanges.all fun b => wordRanges.all fun w =>
      b.2.blt w.1 || w.2.blt b.1) = true := by
    decide +kernel
  by_cases hlow : c.toNat < 128
  · rw [← Char.ofNat_toNat c] at h ⊢
    exact hascii c.toNat hlow h
  · obtain ⟨b, hb, hin⟩ := List.any_eq_true.mp h
    rw [isWord, if_neg hlow, inRanges, List.any_eq_false]
    intro w hw
    have hwb := List.all_eq_true.mp (List.all_eq_true.mp hapart b hb) w hw
    simp only [Bool.or_eq_true, Bool.and_eq_true, decide_eq_true_eq, Nat.blt_eq] at hwb hin ⊢
    omega

end Text
end TypeCatalog
