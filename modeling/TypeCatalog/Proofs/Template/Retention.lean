import TypeCatalog.Proofs.Template.Canonicalization
import Mathlib.Algebra.Order.BigOperators.Group.List
import Mathlib.Algebra.Order.Ring.Nat

/-!
# The text that normalizing keeps

**Input.** A name without a synonym to fold, and the normalizer that knows no defaults.

**Notions.** The ink of a text are its characters that are not blank. `ListsClosed` says of a name
that each of its components closes the argument list that it opens, if it opens one, and that so do
the arguments in these lists.

**Argument.** In a component that closes its list, the ink is cut into the name of the template, the
arguments and what follows, and is put together again. A component that does not close its list is
written with an empty one: a closing bracket more than it had. No component loses a closing bracket,
so the number of them tells whether all lists were closed.

**Results.**
* `ListsClosed.ink_normalizeScopedChars`: where all lists are closed, the ink is kept.
* `count_normalizeScopedChars`: closing brackets are never lost, and there are more of them unless
  all lists are closed.
* `ink_normalizeScoped_iff`: the ink is kept exactly if all lists are closed.
-/

namespace TypeCatalog
namespace Template

open Text Name

/-- The characters of a text that are not blank, in order. -/
def ink
    (text : List Char) :
    List Char :=
  text.filter fun c => !isBlank c

/-- The text holds none of the spellings that are folded. -/
def SynonymFree
    (text : List Char) :
    Prop :=
  ∀ p ∈ integerSynonyms ++ complexSynonyms, ¬ p.1.toList <:+: text

/-- Every argument list that a scoped name opens is closed: in its components, and in the arguments
of these. -/
inductive ListsClosed :
    List Char → Prop
  | intro
      {name : List Char}
      (closed : ∀ piece ∈ pieces .start name, ∀ i, instance? (trim piece) = some i →
        i.closed = true)
      (nested : ∀ piece ∈ pieces .start name, ∀ i, instance? (trim piece) = some i →
        ∀ arg ∈ arguments i.inner, ListsClosed arg) :
      ListsClosed name

section Ink

theorem ink_append
    (u v : List Char) :
    ink (u ++ v) = ink u ++ ink v :=
  List.filter_append u v

theorem ink_cons
    {c : Char} (text : List Char)
    (hc : isBlank c = false) :
    ink (c :: text) = c :: ink text := by
  simp [ink, hc]

theorem ink_dropWhile
    (text : List Char) :
    ink (text.dropWhile isBlank) = ink text := by
  induction text with
  | nil =>
      rfl
  | cons c text ih =>
      rw [List.dropWhile_cons]
      split
      · next hc => simpa [ink, hc] using ih
      · rfl

theorem ink_trim
    (text : List Char) :
    ink (trim text) = ink text := by
  have hreverse : ∀ t : List Char, ink t.reverse = (ink t).reverse := by
    intro t
    simp [ink]
  rw [trim, trimEnd, dropTrailing, hreverse, ink_dropWhile, hreverse, List.reverse_reverse,
    ink_dropWhile]

/-- Texts that are written in place of others of the same ink are joined to the same ink. -/
theorem ink_joinWith_map
    (sep : String) {f : List Char → List Char} {parts : List (List Char)}
    (h : ∀ p ∈ parts, ink (f p) = ink p) :
    ink (joinWith sep (parts.map f)) = ink (joinWith sep parts) := by
  induction parts with
  | nil =>
      rfl
  | cons p parts ih =>
      have hp := h p (by simp)
      have hrest := ih fun q hq => h q (List.mem_cons_of_mem p hq)
      cases parts with
      | nil =>
          simpa [joinWith_one] using hp
      | cons q parts =>
          rw [List.map_cons] at hrest
          rw [List.map_cons, List.map_cons, joinWith_cons, joinWith_cons, ink_append, ink_append,
            ink_append, ink_append, hp, hrest]

/-- The arguments of a list, joined again, have the ink of the list. -/
theorem ink_arguments
    (list : List Char) :
    ink (joinWith "," (arguments list)) = ink list := by
  rw [arguments]
  split
  · next hblank =>
      rw [← ink_trim list, List.isEmpty_iff.mp hblank]
      rfl
  · rw [ink_joinWith_map "," fun p _ => ink_trim p, joinWith_cutCommas]

theorem ink_writeInstance
    (template : List Char) (args : List (List Char)) (suffix : List Char) :
    ink (writeInstance template args suffix) =
      ink template ++ '<' :: (ink (joinWith "," args) ++ '>' :: ink suffix) := by
  have hopen : isBlank '<' = false := by
    decide
  have hclose : ink (if (joinWith "," args).getLast? = some '>' then [' ', '>'] else ['>']) =
      ['>'] := by
    split <;> decide
  rw [writeInstance, ink_append, ink_append, hclose, ink_append, ink_cons _ hopen]
  simp

end Ink

section Parts

theorem replaceAll_eq_self_of_not_infix
    {pat text : List Char} (new : List Char)
    (h : ¬ pat <:+: text) :
    replaceAll pat new text = text := by
  rw [replaceAll]
  induction text with
  | nil =>
      rfl
  | cons c text ih =>
      rw [List.infix_cons_iff, not_or, ← List.isPrefixOf_iff_prefix] at h
      rw [replaceFrom, if_neg h.1, ih h.2]

theorem SynonymFree.foldSynonyms_eq
    {text : List Char}
    (h : SynonymFree text) :
    foldSynonyms text = text := by
  rw [foldSynonyms]
  rw [SynonymFree] at h
  generalize integerSynonyms ++ complexSynonyms = pairs at h
  induction pairs with
  | nil =>
      rfl
  | cons p pairs ih =>
      rw [List.foldl_cons, replaceAll_eq_self_of_not_infix _ (h p (by simp))]
      exact ih fun p' hp' => h p' (List.mem_cons_of_mem p hp')

theorem SynonymFree.of_isInfix
    {part text : List Char}
    (h : SynonymFree text)
    (hpart : part <:+: text) :
    SynonymFree part :=
  fun p hp hin => h p hp (hin.trans hpart)

theorem infix_joinWith
    (sep : String) {parts : List (List Char)} {p : List Char}
    (h : p ∈ parts) :
    p <:+: joinWith sep parts := by
  induction parts with
  | nil =>
      cases h
  | cons q parts ih =>
      cases parts with
      | nil =>
          exact ⟨[], [], by simp [List.mem_singleton.mp h, joinWith_one]⟩
      | cons r parts =>
          rw [joinWith_cons]
          rcases List.mem_cons.mp h with rfl | h
          · exact (List.prefix_append _ _).isInfix
          · have hsuffix : joinWith sep (r :: parts) <:+
                q ++ (sep.toList ++ joinWith sep (r :: parts)) := by
              rw [← List.append_assoc]
              exact List.suffix_append _ _
            exact (ih h).trans hsuffix.isInfix

theorem infix_of_mem_pieces
    {name piece : List Char}
    (h : piece ∈ pieces .start name) :
    piece <:+: name := by
  have hin := infix_joinWith "::" h
  rwa [joinWith_pieces] at hin

theorem trim_isInfix
    (text : List Char) :
    trim text <:+: text := by
  have hend : trimEnd (text.dropWhile isBlank) <+: text.dropWhile isBlank := by
    rw [← List.reverse_suffix, trimEnd, dropTrailing, List.reverse_reverse]
    exact List.dropWhile_suffix _
  exact hend.isInfix.trans (List.dropWhile_suffix _).isInfix

theorem infix_of_mem_arguments
    {list arg : List Char}
    (h : arg ∈ arguments list) :
    arg <:+: list := by
  rw [arguments] at h
  split at h
  · cases h
  · obtain ⟨cut, hcut, rfl⟩ := List.mem_map.mp h
    have hin := infix_joinWith "," hcut
    rw [joinWith_cutCommas] at hin
    exact (trim_isInfix cut).trans hin

theorem inner_isInfix
    {name : List Char} {i : Instance}
    (h : instance? name = some i) :
    i.inner <:+: name := by
  rcases instance?_cases h with ⟨-, -, hname⟩ | ⟨-, hinner, -⟩
  · refine ⟨i.template ++ ['<'], '>' :: i.suffix, ?_⟩
    rw [hname]
    simp
  · rw [hinner]
    exact List.nil_infix

/-- An argument of a component stands in the name. -/
theorem infix_of_argument
    {name piece arg : List Char} {i : Instance}
    (hpiece : piece ∈ pieces .start name)
    (hi : instance? (trim piece) = some i)
    (harg : arg ∈ arguments i.inner) :
    arg <:+: name :=
  (infix_of_mem_arguments harg).trans ((inner_isInfix hi).trans
    ((trim_isInfix piece).trans (infix_of_mem_pieces hpiece)))

/-- Induction over a scoped name and the arguments in it, which are shorter than the name. -/
theorem scoped_induct
    {P : List Char → Prop}
    (step : ∀ name, (∀ piece ∈ pieces .start name, ∀ i, instance? (trim piece) = some i →
      ∀ arg ∈ arguments i.inner, P arg) → P name)
    (name : List Char) :
    P name := by
  induction hlength : name.length using Nat.strong_induction_on generalizing name with
  | _ length ih =>
      refine step name fun piece hpiece i hi arg harg => ih arg.length ?_ arg rfl
      have hinner := length_inner_lt hi
      have htrim := length_trim_le piece
      have hin := length_le_of_mem_pieces hpiece
      have hargument := length_le_of_mem_arguments harg
      omega

end Parts

section Kept

theorem keptArguments_empty
    (keepAll : Bool) (template : List Char) (args : List (List Char)) :
    Normalizer.empty.keptArguments keepAll template args = args := by
  cases keepAll <;> rfl

theorem normalizeChars_of_plain
    (n : Normalizer) (keepAll : Bool) {raw : List Char}
    (h : instance? (trim raw) = none) :
    n.normalizeChars keepAll raw = foldSynonyms (trim raw) := by
  rw [Normalizer.normalizeChars]
  split
  · rfl
  · next i hi =>
      rw [h] at hi
      cases hi

theorem ink_normalizeChars
    (keepAll : Bool) {raw : List Char} {i : Instance}
    (h : instance? (trim raw) = some i) :
    ink (Normalizer.empty.normalizeChars keepAll raw) = ink i.template ++ '<' ::
      (ink (joinWith "," ((arguments i.inner).map
        (Normalizer.empty.normalizeScopedChars keepAll))) ++ '>' :: ink i.suffix) := by
  rw [normalizeChars_of_instance _ _ h, keptArguments_empty, ink_writeInstance]

/-- Where all argument lists are closed, no text is lost and none is added. -/
theorem ListsClosed.ink_normalizeScopedChars
    (keepAll : Bool) {name : List Char}
    (h : ListsClosed name)
    (hfree : SynonymFree name) :
    ink (Normalizer.empty.normalizeScopedChars keepAll name) = ink name := by
  induction h with
  | @intro name closed _ ih =>
      have hpieces : ∀ piece ∈ pieces .start name,
          ink (Normalizer.empty.normalizeChars keepAll piece) = ink piece := by
        intro piece hpiece
        cases hi : instance? (trim piece) with
        | none =>
            have htrim := hfree.of_isInfix ((trim_isInfix piece).trans (infix_of_mem_pieces hpiece))
            rw [normalizeChars_of_plain _ _ hi, htrim.foldSynonyms_eq, ink_trim]
        | some i =>
            have hargs : ∀ arg ∈ arguments i.inner,
                ink (Normalizer.empty.normalizeScopedChars keepAll arg) = ink arg := by
              intro arg harg
              exact ih piece hpiece i hi arg harg
                (hfree.of_isInfix (infix_of_argument hpiece hi harg))
            have hinner := ink_joinWith_map "," hargs
            rw [ink_arguments] at hinner
            obtain ⟨-, -, hparts⟩ | ⟨hopen, -⟩ := instance?_cases hi
            · have hopen : isBlank '<' = false := by
                decide
              have hclose : isBlank '>' = false := by
                decide
              rw [ink_normalizeChars keepAll hi, hinner, ← ink_trim piece, hparts, ink_append,
                ink_cons _ hopen, ink_append, ink_cons _ hclose]
            · rw [closed piece hpiece i hi] at hopen
              cases hopen
      rw [normalizeScopedChars_eq, ink_joinWith_map "::" hpieces, joinWith_pieces]

end Kept

section Closing

theorem count_ink
    (text : List Char) :
    (ink text).count '>' = text.count '>' :=
  List.count_filter (by decide)

theorem count_trim
    (text : List Char) :
    (trim text).count '>' = text.count '>' := by
  rw [← count_ink, ink_trim, count_ink]

theorem count_joinWith
    {sep : String} (parts : List (List Char))
    (hsep : '>' ∉ sep.toList) :
    (joinWith sep parts).count '>' = (parts.map (List.count '>')).sum := by
  induction parts with
  | nil =>
      rfl
  | cons p parts ih =>
      cases parts with
      | nil =>
          simp [joinWith_one]
      | cons q parts =>
          rw [joinWith_cons, List.count_append, List.count_append, List.count_eq_zero.mpr hsep, ih]
          simp

theorem count_arguments
    (list : List Char) :
    list.count '>' = ((arguments list).map (List.count '>')).sum := by
  have hsep : '>' ∉ ",".toList := by
    decide
  rw [← count_joinWith _ hsep, ← count_ink list, ← ink_arguments, count_ink]

theorem count_normalizeChars
    (keepAll : Bool) {raw : List Char} {i : Instance}
    (h : instance? (trim raw) = some i) :
    (Normalizer.empty.normalizeChars keepAll raw).count '>' = i.template.count '>' +
      ((arguments i.inner).map fun arg =>
        (Normalizer.empty.normalizeScopedChars keepAll arg).count '>').sum + 1 +
      i.suffix.count '>' := by
  have hsep : '>' ∉ ",".toList := by
    decide
  rw [← count_ink, ink_normalizeChars keepAll h]
  simp only [List.count_append, count_ink, List.count_cons, count_joinWith _ hsep, List.map_map,
    Function.comp_def]
  simp
  omega

/-- The closing brackets of a component: those of a component that closes its list are counted part
by part, and one that does not has none after its opening bracket. -/
theorem count_component
    {raw : List Char} {i : Instance}
    (h : instance? (trim raw) = some i) :
    raw.count '>' = i.template.count '>' + ((arguments i.inner).map (List.count '>')).sum +
      (if i.closed then 1 else 0) + i.suffix.count '>' := by
  rw [← count_trim raw, ← count_arguments i.inner]
  rcases instance?_cases h with
    ⟨hclosed, -, hparts⟩ | ⟨hopen, hinner, hsuffix, after, hafter, hparts⟩
  · rw [hparts, hclosed]
    simp
    omega
  · rw [hparts, hopen, hinner, hsuffix]
    simp [List.count_eq_zero.mpr hafter]

/-- A component loses no closing bracket, if none of its arguments does. -/
theorem count_component_le
    (keepAll : Bool) {piece : List Char}
    (hfree : SynonymFree piece)
    (hargs : ∀ i, instance? (trim piece) = some i → ∀ arg ∈ arguments i.inner,
      arg.count '>' ≤ (Normalizer.empty.normalizeScopedChars keepAll arg).count '>') :
    piece.count '>' ≤ (Normalizer.empty.normalizeChars keepAll piece).count '>' := by
  cases hi : instance? (trim piece) with
  | none =>
      rw [normalizeChars_of_plain _ _ hi, (hfree.of_isInfix (trim_isInfix piece)).foldSynonyms_eq,
        count_trim]
  | some i =>
      have hsum := List.sum_le_sum (hargs i hi)
      rw [count_component hi, count_normalizeChars keepAll hi]
      split <;> omega

/-- A component gets another closing bracket if its list is not closed, or if an argument gets
one. -/
theorem count_component_lt
    (keepAll : Bool) {piece : List Char} {i : Instance}
    (hi : instance? (trim piece) = some i)
    (hargs : ∀ arg ∈ arguments i.inner,
      arg.count '>' ≤ (Normalizer.empty.normalizeScopedChars keepAll arg).count '>')
    (hmore : i.closed = false ∨ ∃ arg ∈ arguments i.inner,
      arg.count '>' < (Normalizer.empty.normalizeScopedChars keepAll arg).count '>') :
    piece.count '>' < (Normalizer.empty.normalizeChars keepAll piece).count '>' := by
  have hsum := List.sum_le_sum hargs
  rw [count_component hi, count_normalizeChars keepAll hi]
  rcases hmore with hopen | hmore
  · rw [hopen]
    simp only [Bool.false_eq_true, if_false]
    omega
  · have hless := List.sum_lt_sum _ _ hargs hmore
    split <;> omega

/-- A name of which not all lists are closed has a component that does not close its list, or one
with such an argument. -/
theorem exists_unclosed
    {name : List Char}
    (h : ¬ ListsClosed name) :
    ∃ piece ∈ pieces .start name, ∃ i, instance? (trim piece) = some i ∧
      (i.closed = false ∨ ∃ arg ∈ arguments i.inner, ¬ ListsClosed arg) := by
  by_contra hnone
  push Not at hnone
  refine h ⟨fun piece hpiece i hi => ?_, fun piece hpiece i hi => ?_⟩
  · simpa using (hnone piece hpiece i hi).1
  · exact (hnone piece hpiece i hi).2

/-- Normalizing loses no closing bracket, and adds some unless all lists are closed. -/
theorem count_normalizeScopedChars
    (keepAll : Bool) {name : List Char}
    (hfree : SynonymFree name) :
    name.count '>' ≤ (Normalizer.empty.normalizeScopedChars keepAll name).count '>' ∧
      (¬ ListsClosed name →
        name.count '>' < (Normalizer.empty.normalizeScopedChars keepAll name).count '>') := by
  induction name using scoped_induct with
  | step name ih =>
      have hsep : '>' ∉ "::".toList := by
        decide
      have hname : name.count '>' = ((pieces .start name).map (List.count '>')).sum := by
        rw [← count_joinWith _ hsep, joinWith_pieces]
      have hnormal : (Normalizer.empty.normalizeScopedChars keepAll name).count '>' =
          ((pieces .start name).map fun p =>
            (Normalizer.empty.normalizeChars keepAll p).count '>').sum := by
        rw [normalizeScopedChars_eq, count_joinWith _ hsep, List.map_map]
        rfl
      have hargs : ∀ piece ∈ pieces .start name, ∀ i, instance? (trim piece) = some i →
          ∀ arg ∈ arguments i.inner,
            arg.count '>' ≤ (Normalizer.empty.normalizeScopedChars keepAll arg).count '>' ∧
              (¬ ListsClosed arg → arg.count '>' <
                (Normalizer.empty.normalizeScopedChars keepAll arg).count '>') :=
        fun piece hpiece i hi arg harg =>
          ih piece hpiece i hi arg harg (hfree.of_isInfix (infix_of_argument hpiece hi harg))
      have hle : ∀ piece ∈ pieces .start name,
          piece.count '>' ≤ (Normalizer.empty.normalizeChars keepAll piece).count '>' := by
        intro piece hpiece
        exact count_component_le keepAll (hfree.of_isInfix (infix_of_mem_pieces hpiece))
          fun i hi arg harg => (hargs piece hpiece i hi arg harg).1
      rw [hname, hnormal]
      refine ⟨List.sum_le_sum hle, fun hopen => ?_⟩
      obtain ⟨piece, hpiece, i, hi, hmore⟩ := exists_unclosed hopen
      refine List.sum_lt_sum _ _ hle ⟨piece, hpiece, ?_⟩
      refine count_component_lt keepAll hi (fun arg harg => (hargs piece hpiece i hi arg harg).1)
        (hmore.imp_right ?_)
      rintro ⟨arg, harg, hargOpen⟩
      exact ⟨arg, harg, (hargs piece hpiece i hi arg harg).2 hargOpen⟩

end Closing

/-- Without synonyms to fold and defaults to drop, normalizing keeps the ink of a name exactly if
every argument list that is opened is closed. -/
theorem ink_normalizeScoped_iff
    (keepAll : Bool) {name : String}
    (hfree : SynonymFree name.toList) :
    ink (Normalizer.empty.normalizeScoped keepAll name).toList = ink name.toList ↔
      ListsClosed name.toList := by
  rw [Normalizer.normalizeScoped, String.toList_ofList]
  refine ⟨fun hink => ?_, fun hclosed => hclosed.ink_normalizeScopedChars keepAll hfree⟩
  by_contra hopen
  have hmore := (count_normalizeScopedChars keepAll hfree).2 hopen
  have hsame : (Normalizer.empty.normalizeScopedChars keepAll name.toList).count '>' =
      name.toList.count '>' := by
    rw [← count_ink, hink, count_ink]
  omega

section Cases

theorem listsClosed_of_plain
    {name : List Char}
    (h : '<' ∉ name) :
    ListsClosed name := by
  have hnone : ∀ piece ∈ pieces .start name, ∀ i, instance? (trim piece) ≠ some i := by
    intro piece hpiece i
    have hplain : '<' ∉ trim piece := fun hmem =>
      h (((trim_isInfix piece).trans (infix_of_mem_pieces hpiece)).subset hmem)
    simp [instance?_eq_none hplain]
  exact ⟨fun piece hpiece i hi => absurd hi (hnone piece hpiece i),
    fun piece hpiece i hi => absurd hi (hnone piece hpiece i)⟩

/-- A name with one unpaired bracket before its argument list and another one inside. -/
theorem ink_normalizeScoped_arrow :
    SynonymFree "operator->::Flag< (0>1), b >".toList ∧
      ListsClosed "operator->::Flag< (0>1), b >".toList ∧
      ink (Normalizer.empty.normalizeScoped true "operator->::Flag< (0>1), b >").toList =
        ink "operator->::Flag< (0>1), b >".toList := by
  have hfree : SynonymFree "operator->::Flag< (0>1), b >".toList := by
    unfold SynonymFree
    decide +kernel
  have hpieces : pieces .start "operator->::Flag< (0>1), b >".toList =
      ["operator->::Flag< (0>1), b >".toList] := by
    decide
  have hinstance : instance? (trim "operator->::Flag< (0>1), b >".toList) =
      some ⟨"operator->::Flag".toList, " (0>1), b ".toList, [], true⟩ := rfl
  have hargs : arguments " (0>1), b ".toList = ["(0>1)".toList, "b".toList] := by
    decide
  have hclosed : ListsClosed "operator->::Flag< (0>1), b >".toList := by
    constructor
    · intro piece hpiece i hi
      rw [hpieces, List.mem_singleton] at hpiece
      rw [hpiece, hinstance] at hi
      rw [← Option.some.inj hi]
    · intro piece hpiece i hi arg harg
      rw [hpieces, List.mem_singleton] at hpiece
      rw [hpiece, hinstance] at hi
      rw [← Option.some.inj hi, hargs] at harg
      refine listsClosed_of_plain ?_
      revert arg
      decide
  exact ⟨hfree, hclosed, (ink_normalizeScoped_iff true hfree).mpr hclosed⟩

/-- A class in the scope of a comparison operator loses its own name. -/
theorem ink_normalizeScoped_less_ne :
    SynonymFree "operator<::Local".toList ∧
      Normalizer.empty.normalizeScoped false "operator<::Local" = "operator<>" ∧
      ink (Normalizer.empty.normalizeScoped false "operator<::Local").toList ≠
        ink "operator<::Local".toList := by
  have hfree : SynonymFree "operator<::Local".toList := by
    unfold SynonymFree
    decide +kernel
  have hpieces : pieces .start "operator<::Local".toList = ["operator<::Local".toList] := by
    decide
  have hinstance : instance? (trim "operator<::Local".toList) =
      some ⟨"operator".toList, [], [], false⟩ := rfl
  have hargs : arguments [] = [] := rfl
  have hnormal : Normalizer.empty.normalizeScoped false "operator<::Local" = "operator<>" := by
    rw [Normalizer.normalizeScoped, normalizeScopedChars_eq, hpieces, List.map_singleton,
      normalizeChars_of_instance _ _ hinstance, hargs, List.map_nil, joinWith_one]
    rfl
  refine ⟨hfree, hnormal, ?_⟩
  rw [hnormal]
  decide

end Cases

end Template
end TypeCatalog
