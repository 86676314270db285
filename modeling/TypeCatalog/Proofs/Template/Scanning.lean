import TypeCatalog.Proofs.Name.Components
import TypeCatalog.Proofs.Spelling.PlainNames

/-!
# Scanning texts with brackets

**Input.** A text and a separator. The scanners for scopes and for argument lists cut a text at the
separators that they meet at the top of the nesting.

**Rule.** `Quiet sep n w` says that a scan of `w` from the nesting `n` meets no `sep` at the top. In
such a text nothing is cut: what is scanned before a cut goes to the front of the first piece.

**Results.**
* `pieces_append`, `cutCommas_append`: a quiet text is scanned as a whole.
* `pieces_joinWith`, `cutCommas_joinWith`: joined texts are cut where they were joined.
* `Nested.run`, `Nested.quiet`: text with matched angle brackets and no parentheses, below an open
  bracket, holds nothing that is at the top.
* `arguments_joinWith`: an argument list gives its arguments back.
-/

namespace TypeCatalog
namespace Template

open Text Name

/-- Puts a text in front of the first piece. -/
def prependHead
    (w : List Char) :
    List (List Char) → List (List Char)
  | [] => [w]
  | p :: ps => (w ++ p) :: ps

/-- A scan of the text from a nesting meets no separator at the top. -/
def Quiet
    (sep : Char) :
    Nesting → List Char → Prop
  | _, [] => True
  | n, c :: cs => (n.isTop = true → c ≠ sep) ∧ Quiet sep (n.step c) cs

/-- A scan of the text from the top meets no separator there, and ends at the top. -/
structure Whole
    (sep : Char) (w : List Char) :
    Prop where
  quiet : Quiet sep .start w
  run : Nesting.start.run w = .start

instance decidableQuiet
    (sep : Char) :
    (n : Nesting) → (w : List Char) → Decidable (Quiet sep n w)
  | _, [] => .isTrue trivial
  | n, c :: cs =>
      have := decidableQuiet sep (n.step c) cs
      inferInstanceAs (Decidable ((n.isTop = true → c ≠ sep) ∧ Quiet sep (n.step c) cs))

instance
    (sep : Char) (w : List Char) :
    Decidable (Whole sep w) :=
  decidable_of_iff (Quiet sep .start w ∧ Nesting.start.run w = .start)
    ⟨fun h => ⟨h.1, h.2⟩, fun h => ⟨h.quiet, h.run⟩⟩

section Scans

theorem quiet_append
    {sep : Char} {n : Nesting} {u v : List Char} :
    Quiet sep n (u ++ v) ↔ Quiet sep n u ∧ Quiet sep (n.run u) v := by
  induction u generalizing n with
  | nil =>
      simp [Quiet]
  | cons c u ih =>
      simp [Quiet, ih, and_assoc]

theorem Whole.append
    {sep : Char} {u v : List Char}
    (hu : Whole sep u)
    (hv : Whole sep v) :
    Whole sep (u ++ v) := by
  refine ⟨quiet_append.mpr ⟨hu.quiet, ?_⟩, ?_⟩
  · rw [hu.run]
    exact hv.quiet
  · rw [Nesting.run_append, hu.run, hv.run]

theorem prependHead_cons
    (c : Char) (w : List Char) (ps : List (List Char)) :
    prependHead (c :: w) ps = consHead c (prependHead w ps) := by
  cases ps <;> rfl

/-- A character that is no separator here goes to the front of the first piece. -/
theorem pieces_cons
    {n : Nesting} {c : Char} (cs : List Char)
    (h : n.isTop = true → c ≠ ':') :
    pieces n (c :: cs) = consHead c (pieces (n.step c) cs) :=
  pieces_cons_of_not_separator fun hcut => h hcut.1 hcut.2.1

theorem pieces_append
    {n : Nesting} {w : List Char} (rest : List Char)
    (h : Quiet ':' n w) :
    pieces n (w ++ rest) = prependHead w (pieces (n.run w) rest) := by
  induction w generalizing n with
  | nil =>
      cases hp : pieces n rest with
      | nil =>
          exact absurd hp (pieces_ne_nil n rest)
      | cons p ps =>
          simp [prependHead, hp]
  | cons c w ih =>
      rw [List.cons_append, pieces_cons _ h.1, ih h.2, prependHead_cons]
      rfl

theorem cutCommas_append
    {n : Nesting} {w : List Char} (rest : List Char)
    (h : Quiet ',' n w) :
    cutCommas n (w ++ rest) = prependHead w (cutCommas (n.run w) rest) := by
  induction w generalizing n with
  | nil =>
      cases hp : cutCommas n rest with
      | nil =>
          exact absurd hp (cutCommas_ne_nil n rest)
      | cons p ps =>
          simp [prependHead, hp]
  | cons c w ih =>
      have hc : ¬ (c = ',' ∧ n.isTop = true) := fun hboth => h.1 hboth.2 hboth.1
      rw [List.cons_append, cutCommas, if_neg hc, ih h.2, prependHead_cons]
      rfl

theorem joinWith_cons
    (sep : String) (p q : List Char) (ps : List (List Char)) :
    joinWith sep (p :: q :: ps) = p ++ (sep.toList ++ joinWith sep (q :: ps)) := by
  simp [joinWith, List.intercalate, List.intersperse]

theorem joinWith_one
    (sep : String) (p : List Char) :
    joinWith sep [p] = p := by
  simp [joinWith, List.intercalate, List.intersperse]

/-- What holds of the parts, and of any two texts with the separator between them, holds of the
joined text. -/
theorem joinWith_induct
    {P : List Char → Prop} {sep : String} {parts : List (List Char)}
    (hjoin : ∀ u v, P u → P v → P (u ++ (sep.toList ++ v)))
    (hne : parts ≠ [])
    (h : ∀ p ∈ parts, P p) :
    P (joinWith sep parts) := by
  induction parts with
  | nil =>
      exact absurd rfl hne
  | cons p parts ih =>
      cases parts with
      | nil =>
          rw [joinWith_one]
          exact h p (by simp)
      | cons q parts =>
          rw [joinWith_cons]
          exact hjoin p _ (h p (by simp))
            (ih (by simp) fun r hr => h r (List.mem_cons_of_mem p hr))

/-- Components joined to a name are its components. -/
theorem pieces_joinWith
    {parts : List (List Char)}
    (hne : parts ≠ [])
    (h : ∀ p ∈ parts, Whole ':' p) :
    pieces .start (joinWith "::" parts) = parts := by
  induction parts with
  | nil =>
      exact absurd rfl hne
  | cons p parts ih =>
      have hp := h p (by simp)
      cases parts with
      | nil =>
          have hscan := pieces_append [] hp.quiet
          rw [List.append_nil, hp.run] at hscan
          rw [joinWith_one, hscan]
          simp [pieces, prependHead]
      | cons q parts =>
          have hrest := ih (by simp) fun r hr => h r (List.mem_cons_of_mem p hr)
          have hcut : pieces .start ("::".toList ++ joinWith "::" (q :: parts)) =
              [] :: pieces .start (joinWith "::" (q :: parts)) := rfl
          rw [joinWith_cons, pieces_append _ hp.quiet, hp.run, hcut, hrest]
          simp [prependHead]

/-- Arguments joined to a list are its arguments; what follows the last one stays with it. -/
theorem cutCommas_joinWith
    {args : List (List Char)} {last pad : List Char}
    (hargs : ∀ a ∈ args, Whole ',' a)
    (hlast : Whole ',' last)
    (hpad : Whole ',' pad) :
    cutCommas .start (joinWith "," (args ++ [last]) ++ pad) = args ++ [last ++ pad] := by
  induction args with
  | nil =>
      have hwhole := hlast.append hpad
      have hscan := cutCommas_append [] hwhole.quiet
      rw [List.append_nil, hwhole.run] at hscan
      rw [List.nil_append, joinWith_one, hscan]
      simp [cutCommas, prependHead]
  | cons a args ih =>
      have ha := hargs a (by simp)
      have hrest := ih fun b hb => hargs b (List.mem_cons_of_mem a hb)
      obtain ⟨b, bs, hbs⟩ : ∃ b bs, args ++ [last] = b :: bs :=
        List.exists_cons_of_ne_nil (by simp)
      rw [hbs] at hrest
      have hcut : cutCommas .start (",".toList ++ (joinWith "," (b :: bs) ++ pad)) =
          [] :: cutCommas .start (joinWith "," (b :: bs) ++ pad) := rfl
      rw [List.cons_append, hbs, joinWith_cons, List.append_assoc, List.append_assoc,
        cutCommas_append _ ha.quiet, ha.run, hcut, hrest]
      simp [prependHead]

end Scans

section Brackets

/-- The characters that nest. -/
def isBracket
    (c : Char) :
    Bool :=
  c == '<' || c == '>' || c == '(' || c == ')'

/-- Text in which every angle bracket has its match, and parentheses do not occur. -/
inductive Nested :
    List Char → Prop
  | nil :
      Nested []
  | char
      {c : Char} {w : List Char}
      (hc : isBracket c = false)
      (hw : Nested w) :
      Nested (c :: w)
  | group
      {w v : List Char}
      (hw : Nested w)
      (hv : Nested v) :
      Nested ('<' :: (w ++ '>' :: v))

theorem step_of_not_bracket
    {c : Char} (n : Nesting)
    (h : isBracket c = false) :
    n.step c = n := by
  simp only [isBracket, Bool.or_eq_false_iff, beq_eq_false_iff_ne, ne_eq] at h
  simp [Nesting.step, h]

theorem Nested.append
    {u v : List Char}
    (hu : Nested u)
    (hv : Nested v) :
    Nested (u ++ v) := by
  induction hu with
  | nil =>
      exact hv
  | char hc _ ih =>
      exact .char hc ih
  | group hw _ _ ih =>
      simpa using Nested.group hw ih

theorem nested_of_plain
    {w : List Char}
    (h : ∀ c ∈ w, isBracket c = false) :
    Nested w := by
  induction w with
  | nil =>
      exact .nil
  | cons c w ih =>
      exact .char (h c (by simp)) (ih fun d hd => h d (List.mem_cons_of_mem c hd))

/-- A nested text ends at the depth where it begins. -/
theorem Nested.run
    {w : List Char}
    (h : Nested w) (a : Int) :
    (⟨a, 0⟩ : Nesting).run w = ⟨a, 0⟩ := by
  induction h generalizing a with
  | nil =>
      rfl
  | char hc _ ih =>
      rw [Nesting.run_cons, step_of_not_bracket _ hc, ih]
  | @group w v _ _ ihw ihv =>
      have hopen : (⟨a, 0⟩ : Nesting).step '<' = ⟨a + 1, 0⟩ := by
        simp [Nesting.step]
      have hclose : (⟨a + 1, 0⟩ : Nesting).step '>' = ⟨a, 0⟩ := by
        simp [Nesting.step]
      rw [Nesting.run_cons, hopen, Nesting.run_append, ihw, Nesting.run_cons, hclose, ihv]

/-- Below an open bracket nothing of a nested text is at the top. -/
theorem Nested.quiet
    {w : List Char} {a : Int} (sep : Char)
    (h : Nested w)
    (ha : 0 < a) :
    Quiet sep ⟨a, 0⟩ w := by
  have hdeep : ∀ b : Int, 0 < b → (⟨b, 0⟩ : Nesting).isTop = false := by
    intro b hb
    simp [Nesting.isTop]
    omega
  induction h generalizing a with
  | nil =>
      trivial
  | char hc _ ih =>
      refine ⟨by simp [hdeep a ha], ?_⟩
      rw [step_of_not_bracket _ hc]
      exact ih ha
  | @group w v hw _ ihw ihv =>
      have hopen : (⟨a, 0⟩ : Nesting).step '<' = ⟨a + 1, 0⟩ := by
        simp [Nesting.step]
      have hclose : (⟨a + 1, 0⟩ : Nesting).step '>' = ⟨a, 0⟩ := by
        simp [Nesting.step]
      refine ⟨by simp [hdeep a ha], ?_⟩
      rw [hopen, quiet_append, hw.run]
      refine ⟨ihw (by omega), by simp [hdeep (a + 1) (by omega)], ?_⟩
      rw [hclose]
      exact ihv ha

theorem whole_of_plain
    {sep : Char} {w : List Char}
    (hplain : ∀ c ∈ w, isBracket c = false)
    (hsep : sep ∉ w) :
    Whole sep w := by
  refine ⟨?_, (nested_of_plain hplain).run 0⟩
  induction w with
  | nil =>
      trivial
  | cons c w ih =>
      simp only [List.mem_cons, not_or] at hsep
      refine ⟨fun _ => Ne.symm hsep.1, ?_⟩
      rw [step_of_not_bracket _ (hplain c (by simp))]
      exact ih (fun d hd => hplain d (List.mem_cons_of_mem c hd)) hsep.2

/-- A bracketed text holds no separator at the top. -/
theorem whole_group
    {sep : Char} {w : List Char}
    (hsep : isBracket sep = false)
    (hw : Nested w) :
    Whole sep ('<' :: (w ++ ['>'])) := by
  have hne : '<' ≠ sep ∧ '>' ≠ sep := by
    constructor
    · rintro rfl
      cases hsep
    · rintro rfl
      cases hsep
  have hopen : Nesting.start.step '<' = ⟨1, 0⟩ := rfl
  have hclose : (⟨1, 0⟩ : Nesting).step '>' = .start := rfl
  refine ⟨⟨fun _ => hne.1, ?_⟩, (Nested.group hw .nil).run 0⟩
  rw [hopen, quiet_append, hw.run]
  exact ⟨hw.quiet sep (by decide), fun _ => hne.2, trivial⟩

end Brackets

section Blanks

/-- A text with no blank at either end. -/
structure Tidy
    (w : List Char) :
    Prop where
  ne_nil : w ≠ []
  head : ∀ c, w.head? = some c → isBlank c = false
  last : ∀ c, w.getLast? = some c → isBlank c = false

theorem Tidy.trim_eq
    {w : List Char}
    (h : Tidy w) :
    trim w = w :=
  trim_eq_self h.head h.last

/-- Blanks around a text without blanks at its ends are what trimming takes away. -/
theorem Tidy.trim_padded
    {before w after : List Char}
    (h : Tidy w)
    (hbefore : ∀ c ∈ before, isBlank c = true)
    (hafter : ∀ c ∈ after, isBlank c = true) :
    trim (before ++ (w ++ after)) = w := by
  have hfront : (before ++ (w ++ after)).dropWhile isBlank = w ++ after := by
    obtain ⟨c, cs, rfl⟩ := List.exists_cons_of_ne_nil h.ne_nil
    rw [List.dropWhile_append_of_pos hbefore]
    simp [h.head c rfl]
  have hend : dropTrailing isBlank (w ++ after) = dropTrailing isBlank w := by
    rw [dropTrailing, List.reverse_append, List.dropWhile_append_of_pos (by simpa using hafter),
      dropTrailing]
  rw [trim, hfront, trimEnd, hend, dropTrailing_eq_self h.last]

theorem Tidy.trim_blank
    {w : List Char}
    (h : Tidy w) :
    trim (w ++ [' ']) = w := by
  have hblank : ∀ c ∈ [' '], isBlank c = true := by
    decide
  exact h.trim_padded (List.forall_mem_nil _) hblank

theorem Tidy.append
    {u v : List Char} (mid : List Char)
    (hu : Tidy u)
    (hv : Tidy v) :
    Tidy (u ++ (mid ++ v)) := by
  refine ⟨by simp [hu.ne_nil], ?_, ?_⟩
  · intro c hc
    rw [List.head?_append_of_ne_nil _ hu.ne_nil] at hc
    exact hu.head c hc
  · intro c hc
    rw [← List.append_assoc, List.getLast?_append_of_ne_nil _ hv.ne_nil] at hc
    exact hv.last c hc

theorem tidy_of_unblank
    {w : List Char}
    (hne : w ≠ [])
    (h : ∀ c ∈ w, isBlank c = false) :
    Tidy w :=
  ⟨hne, fun c hc => h c (List.mem_of_head? hc), fun c hc => h c (List.mem_of_getLast? hc)⟩

theorem tidy_joinWith
    (sep : String) {parts : List (List Char)}
    (hne : parts ≠ [])
    (h : ∀ p ∈ parts, Tidy p) :
    Tidy (joinWith sep parts) :=
  joinWith_induct (fun _ _ hu hv => hu.append _ hv) hne h

end Blanks

/-- An argument list gives its arguments back, also with a blank at its end. -/
theorem arguments_joinWith
    {args : List (List Char)} {pad : List Char}
    (hwhole : ∀ a ∈ args, Whole ',' a)
    (htidy : ∀ a ∈ args, Tidy a)
    (hpad : pad = [] ∨ pad = [' '] ∧ args ≠ []) :
    arguments (joinWith "," args ++ pad) = args := by
  rcases List.eq_nil_or_concat args with rfl | ⟨init, last, rfl⟩
  · obtain rfl : pad = [] := by
      simpa using hpad
    rfl
  · rw [List.concat_eq_append] at hwhole htidy hpad ⊢
    have hlast : Tidy last := htidy last (by simp)
    have hinit : init.map trim = init := by
      conv_rhs => rw [← List.map_id init]
      exact List.map_congr_left fun a ha => (htidy a (by simp [ha])).trim_eq
    have hpadWhole : Whole ',' pad := by
      rcases hpad with rfl | ⟨rfl, -⟩ <;> exact whole_of_plain (by decide) (by decide)
    have htrim : trim (last ++ pad) = last := by
      rcases hpad with rfl | ⟨rfl, -⟩
      · rw [List.append_nil, hlast.trim_eq]
      · exact hlast.trim_blank
    have hlist : Tidy (joinWith "," (init ++ [last])) := tidy_joinWith "," (by simp) htidy
    have hfull : (trim (joinWith "," (init ++ [last]) ++ pad)).isEmpty = false := by
      have hkept : trim (joinWith "," (init ++ [last]) ++ pad) = joinWith "," (init ++ [last]) := by
        rcases hpad with rfl | ⟨rfl, -⟩
        · rw [List.append_nil, hlist.trim_eq]
        · exact hlist.trim_blank
      rw [hkept]
      simp [hlist.ne_nil]
    rw [arguments, hfull, cutCommas_joinWith (fun a ha => hwhole a (by simp [ha]))
      (hwhole last (by simp)) hpadWhole]
    simp [hinit, htrim]

end Template
end TypeCatalog
