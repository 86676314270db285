import TypeCatalog.Template.Normalizer
import TypeCatalog.Template.Signature
import TypeCatalog.Proofs.Text.Runs
import Mathlib.Data.List.Infix
import Mathlib.Data.List.TakeWhile

/-!
# Names recovered from signatures

**Input.** The plain name of a function, and the signature of an instance of it: a return type, a
scope, the name with its template arguments, and a parameter list.

**Notions.** `Completes` relates a text to the same text with each bare `unsigned` completed; blanks
between that word and the punctuation after it are left out. `ShowsInstance` says of a signature
that the instance stands where its name is looked for.

**Argument.** A text is completed run by run and, since no bare word reaches over punctuation, piece
by piece. The name is read from a text with the instance in it: from the first place where the name
stands, up to the last parenthesis. What stands before and after the instance is completed to some
text, unless it is empty, so the instance alone is recovered exactly if both are empty.

**Results.**
* `Completes.unique`, `completes_completeUnsigned`: a text has one completion, which completing its
  runs gives.
* `completion_around_iff`: text around a piece shows in the completion.
* `find?_signature`, `splitLast_signature`, `endsInstance_signature`: where the name is looked for.
* `instanceName_signature_iff`: the signatures from which an instance is recovered.
-/

namespace TypeCatalog
namespace Template

open Text

/-- Whether a character is neither blank nor part of a word. -/
def isPunctuation
    (c : Char) :
    Bool :=
  !isWord c && !isBlank c

/-- A text starts with the word `unsigned` and, blanks apart, goes on with a punctuation character;
`rest` is the text from that character on. -/
def Bare
    (text rest : List Char) :
    Prop :=
  ∃ blanks c more, (∀ b ∈ blanks, isBlank b = true) ∧ isPunctuation c = true ∧ rest = c :: more ∧
    text = "unsigned".toList ++ (blanks ++ rest)

/-- The second text is the first with each bare `unsigned` completed to `unsigned int`. The flag
tells whether a word is being read where the text starts. -/
inductive Completes :
    Bool → List Char → List Char → Prop
  | nil
      {inWord : Bool} :
      Completes inWord [] []
  | bare
      {text rest completed : List Char}
      (hbare : Bare text rest)
      (hrest : Completes false rest completed) :
      Completes false text ("unsigned int".toList ++ completed)
  | char
      {inWord : Bool} {c : Char} {text completed : List Char}
      (hkept : inWord = true ∨ ∀ rest, ¬ Bare (c :: text) rest)
      (htext : Completes (isWord c) text completed) :
      Completes inWord (c :: text) (c :: completed)

/-- The text in front of the name in a signature: the return type and the enclosing scope. -/
def qualification
    (result scope : List Char) :
    List Char :=
  result ++ [' '] ++ scope ++ [':', ':']

/-- The signature of an instance of a function template. -/
def signature
    (result scope base args params : List Char) :
    List Char :=
  qualification result scope ++ (writeInstance base [args] [] ++ '(' :: (params ++ [')']))

/-- The signature shows the instance where the name is looked for. -/
structure ShowsInstance
    (result scope base args params : List Char) :
    Prop where
  /-- The last parenthesis opens the parameter list. -/
  parameters : '(' ∉ params
  /-- The argument list ends in a letter, a digit or an underscore. -/
  arguments : ∃ c, args.getLast? = some c ∧ (c.isAlphanum || c == '_') = true
  /-- No instance of the same name stands before. -/
  first : ¬ base ++ ['<'] <:+: qualification result scope

section Completion

theorem isPunctuation_iff
    (c : Char) :
    isPunctuation c = true ↔ isWord c = false ∧ isBlank c = false := by
  simp [isPunctuation]

theorem isWord_unsigned :
    ∀ c ∈ "unsigned".toList, isWord c = true :=
  List.all_eq_true.mp (by decide)

theorem Bare.rest_eq
    {text rest : List Char}
    (h : Bare text rest) :
    rest = (text.drop 8).dropWhile isBlank := by
  obtain ⟨blanks, c, more, hblanks, hc, rfl, rfl⟩ := h
  rw [isPunctuation_iff] at hc
  rw [List.drop_left' (by decide), List.dropWhile_append_of_pos hblanks,
    List.dropWhile_cons_of_neg (by simp [hc.2])]

/-- The word at the front of a text with a bare `unsigned` is just that. -/
theorem Bare.takeWhile_eq
    {text rest : List Char}
    (h : Bare text rest) :
    text.takeWhile isWord = "unsigned".toList := by
  obtain ⟨blanks, c, more, hblanks, hc, rfl, rfl⟩ := h
  rw [isPunctuation_iff] at hc
  have hstop : (blanks ++ c :: more).takeWhile isWord = [] := by
    cases blanks with
    | nil =>
        exact List.takeWhile_cons_of_neg (by simp [hc.1])
    | cons b blanks =>
        exact List.takeWhile_cons_of_neg (by simp [isWord_of_isBlank (hblanks b (by simp))])
  rw [List.takeWhile_append_of_pos isWord_unsigned, hstop, List.append_nil]

theorem Completes.unique
    {inWord : Bool} {text s t : List Char}
    (hs : Completes inWord text s)
    (ht : Completes inWord text t) :
    s = t := by
  induction hs generalizing t with
  | nil =>
      cases ht
      · rfl
      · next hbare =>
          cases hbare.takeWhile_eq
  | bare hbare _ ih =>
      cases ht with
      | nil =>
          cases hbare.takeWhile_eq
      | bare hbare' hrest =>
          rw [hbare'.rest_eq, ← hbare.rest_eq] at hrest
          rw [ih hrest]
      | char hkept _ =>
          rcases hkept with hword | hnone
          · cases hword
          · exact absurd hbare (hnone _)
  | char hkept _ ih =>
      cases ht with
      | bare hbare _ =>
          rcases hkept with hword | hnone
          · cases hword
          · exact absurd hbare (hnone _)
      | char _ htext =>
          rw [ih htext]

theorem notMem_unsigned
    {blanks : List Char} {c : Char}
    (hblanks : ∀ b ∈ blanks, isBlank b = true)
    (hc : isPunctuation c = true) :
    c ∉ "unsigned".toList ++ blanks := by
  intro hmem
  rw [isPunctuation_iff] at hc
  rcases List.mem_append.mp hmem with hword | hblank
  · rw [isWord_unsigned c hword] at hc
    cases hc.1
  · rw [hblanks c hblank] at hc
    cases hc.2

/-- Whether a text starts with a bare `unsigned` is settled by its first punctuation character. -/
theorem bare_append_iff
    {text rest : List Char} {c : Char} (more : List Char)
    (hlast : text.getLast? = some c)
    (hc : isPunctuation c = true) :
    Bare (text ++ more) rest ↔ ∃ front, rest = front ++ more ∧ Bare text front := by
  constructor
  · rintro ⟨blanks, d, tail, hblanks, hd, rfl, heq⟩
    have hnot := notMem_unsigned hblanks hc
    rw [← List.append_assoc] at heq
    obtain ⟨left, hleft, -⟩ | ⟨front, htext, hrest⟩ := List.append_eq_append_iff.mp heq
    · rw [hleft] at hnot
      exact absurd (List.mem_append_left left (List.mem_of_getLast? hlast)) hnot
    · cases front with
      | nil =>
          rw [List.append_nil] at htext
          exact absurd (htext ▸ List.mem_of_getLast? hlast) hnot
      | cons e front =>
          obtain ⟨rfl, rfl⟩ := List.cons.inj hrest
          exact ⟨d :: front, rfl, blanks, d, front, hblanks, hd, rfl, by rw [htext]; simp⟩
  · rintro ⟨front, rfl, blanks, d, tail, hblanks, hd, rfl, rfl⟩
    exact ⟨blanks, d, tail ++ more, hblanks, hd, rfl, by simp⟩

theorem not_bare_cons
    {c : Char}
    (hc : isWord c = false) (text rest : List Char) :
    ¬ Bare (c :: text) rest := by
  intro hbare
  have hword := hbare.takeWhile_eq
  rw [List.takeWhile_cons_of_neg (by simp [hc])] at hword
  cases hword

/-- A text is completed piece by piece, when each piece ends in a punctuation character. -/
theorem Completes.append
    {inWord : Bool} {text more s t : List Char} {c : Char}
    (hs : Completes inWord text s)
    (hlast : text.getLast? = some c)
    (hc : isPunctuation c = true)
    (ht : Completes false more t) :
    Completes inWord (text ++ more) (s ++ t) := by
  induction hs with
  | nil =>
      cases hlast
  | @bare text rest completed hbare _ ih =>
      rw [List.append_assoc]
      refine .bare ((bare_append_iff more hlast hc).mpr ⟨rest, rfl, hbare⟩) (ih ?_)
      obtain ⟨blanks, d, tail, -, -, rfl, rfl⟩ := hbare
      rwa [← List.append_assoc, List.getLast?_append_of_ne_nil _ (by simp)] at hlast
  | @char inWord d text completed hkept htext ih =>
      have hkept' : inWord = true ∨ ∀ rest, ¬ Bare (d :: text ++ more) rest := by
        refine hkept.imp_right fun hnone rest hbare => ?_
        obtain ⟨front, -, hfront⟩ := (bare_append_iff more hlast hc).mp hbare
        exact hnone front hfront
      refine .char hkept' ?_
      cases text with
      | nil =>
          obtain rfl : d = c := by
            simpa using hlast
          obtain rfl := htext.unique .nil
          rwa [((isPunctuation_iff d).mp hc).1]
      | cons e text =>
          exact ih (by rwa [List.getLast?_cons_cons] at hlast)

/-- Punctuation is kept. -/
theorem Completes.mem
    {inWord : Bool} {text s : List Char} {c : Char}
    (h : Completes inWord text s)
    (hc : isPunctuation c = true)
    (hmem : c ∈ text) :
    c ∈ s := by
  induction h with
  | nil =>
      exact hmem
  | bare hbare _ ih =>
      obtain ⟨blanks, d, tail, hblanks, -, rfl, rfl⟩ := hbare
      apply List.mem_append_right
      rw [← List.append_assoc] at hmem
      rcases List.mem_append.mp hmem with hfront | hrest
      · exact absurd hfront (notMem_unsigned hblanks hc)
      · exact ih hrest
  | @char inWord d text completed _ _ ih =>
      rcases List.mem_cons.mp hmem with rfl | hmem
      · exact List.mem_cons_self
      · exact List.mem_cons_of_mem d (ih hmem)

theorem Completes.eq_nil
    {inWord : Bool} {text : List Char}
    (h : Completes inWord text []) :
    text = [] := by
  generalize hs : ([] : List Char) = s at h
  cases h with
  | nil =>
      rfl
  | bare hbare _ =>
      cases hs
  | char _ _ =>
      cases hs

/-- A run is kept, unless it is a bare `unsigned`. -/
theorem Completes.run
    {b inWord : Bool} {run text s : List Char}
    (hne : run ≠ [])
    (hrun : ∀ c ∈ run, isWord c = b)
    (hkept : inWord = true ∨ ∀ rest, ¬ Bare (run ++ text) rest)
    (h : Completes b text s) :
    Completes inWord (run ++ text) (run ++ s) := by
  induction run generalizing inWord with
  | nil =>
      exact absurd rfl hne
  | cons c run ih =>
      refine .char hkept ?_
      rw [hrun c (by simp)]
      cases run with
      | nil =>
          exact h
      | cons d run =>
          refine ih (by simp) (fun x hx => hrun x (List.mem_cons_of_mem c hx)) ?_
          cases b with
          | true =>
              exact .inl rfl
          | false =>
              exact .inr (not_bare_cons (hrun d (by simp)) _)

theorem Completes.gap
    {inWord : Bool} {run text s : List Char}
    (hne : run ≠ [])
    (hrun : ∀ c ∈ run, isWord c = false)
    (h : Completes false text s) :
    Completes inWord (run ++ text) (run ++ s) := by
  obtain ⟨c, run, rfl⟩ := List.exists_cons_of_ne_nil hne
  exact .run hne hrun (.inr (not_bare_cons (hrun c (by simp)) _)) h

/-- A run is bare only if it is the word `unsigned`. -/
theorem Bare.run_eq
    {b : Bool} {run text rest : List Char}
    (h : Bare (run ++ text) rest)
    (hne : run ≠ [])
    (hrun : ∀ c ∈ run, isWord c = b)
    (htext : ∀ c, text.head? = some c → isWord c = !b) :
    run = "unsigned".toList := by
  rw [← h.takeWhile_eq]
  cases b with
  | true =>
      have hstop : text.takeWhile isWord = [] := by
        cases text with
        | nil =>
            rfl
        | cons c text =>
            exact List.takeWhile_cons_of_neg (by simp [htext c rfl])
      rw [List.takeWhile_append_of_pos hrun, hstop, List.append_nil]
  | false =>
      obtain ⟨c, run, rfl⟩ := List.exists_cons_of_ne_nil hne
      exact absurd h (not_bare_cons (hrun c (by simp)) _ rest)

/-- The word `unsigned` is bare if what follows it, blanks apart, starts with punctuation. -/
theorem bare_unsigned_iff
    {text rest : List Char} :
    Bare ("unsigned".toList ++ text) rest ↔
      rest = text.dropWhile isBlank ∧ ∃ c, rest.head? = some c ∧ isPunctuation c = true := by
  constructor
  · intro h
    have hrest := h.rest_eq
    rw [List.drop_left' (by decide)] at hrest
    obtain ⟨-, c, more, -, hc, rfl, -⟩ := h
    exact ⟨hrest, c, rfl, hc⟩
  · rintro ⟨hrest, c, hhead, hc⟩
    obtain ⟨more, rfl⟩ := List.head?_eq_some_iff.mp hhead
    refine ⟨text.takeWhile isBlank, c, more, fun b hb => List.mem_takeWhile_imp hb, hc, rfl, ?_⟩
    rw [hrest, List.takeWhile_append_dropWhile]

theorem dropWhile_of_word
    {text : List Char}
    (h : ∀ c, text.head? = some c → isWord c = true) :
    text.dropWhile isBlank = text := by
  cases text with
  | nil =>
      rfl
  | cons c text =>
      refine List.dropWhile_cons_of_neg fun hc => ?_
      have hword := h c rfl
      rw [isWord_of_isBlank hc] at hword
      cases hword

/-- Completing the runs of a text completes the text. -/
theorem completes_completeUnsigned
    {b inWord : Bool} {rs : List (List Char)}
    (h : Alternates isWord b rs)
    (hflag : b = true → inWord = false) :
    Completes inWord rs.flatten (completeUnsigned rs).flatten := by
  fun_induction completeUnsigned rs generalizing b inWord with
  | case1 =>
      exact .nil
  | case2 run =>
      obtain _ | ⟨hne, hrun, -⟩ := h
      refine .run hne hrun (.inr fun rest hbare => ?_) .nil
      obtain rfl := hbare.run_eq hne hrun (by simp)
      obtain ⟨rfl, c, hhead, -⟩ := bare_unsigned_iff.mp hbare
      cases hhead
  | case3 next rest hblank ih =>
      -- After the word `unsigned` and blanks, there is another word or the end.
      obtain _ | ⟨hne, hrun, _ | ⟨hnext, hgap, hrest⟩⟩ := h
      obtain rfl : b = true := (hrun 'u' (by decide)).symm.trans (by decide)
      refine .run hne hrun (.inr fun rest' hbare => ?_) (.gap hnext hgap (ih hrest (by simp)))
      obtain ⟨rfl, c, hhead, hc⟩ := bare_unsigned_iff.mp hbare
      rw [List.flatten_cons, List.dropWhile_append_of_pos (List.dropWhile_eq_nil_iff.mp hblank),
        dropWhile_of_word fun d hd => hrest.head hd] at hhead
      have hword : isWord c = true := hrest.head hhead
      rw [((isPunctuation_iff c).mp hc).1] at hword
      cases hword
  | case4 next rest hpunctuation ih =>
      obtain _ | ⟨-, hrun, _ | ⟨-, hgap, hrest⟩⟩ := h
      obtain rfl : b = true := (hrun 'u' (by decide)).symm.trans (by decide)
      obtain rfl := hflag rfl
      have hkept : ∀ c ∈ next.dropWhile isBlank, isWord c = false := fun c hc =>
        hgap c ((List.dropWhile_sublist isBlank).subset hc)
      refine .bare (bare_unsigned_iff.mpr ⟨?_, ?_⟩) (.gap hpunctuation hkept (ih hrest (by simp)))
      · rw [List.flatten_cons, List.dropWhile_append, if_neg (mt List.isEmpty_iff.mp hpunctuation)]
      · obtain ⟨c, more, hcut⟩ := List.exists_cons_of_ne_nil hpunctuation
        have hfirst := List.head?_dropWhile_not isBlank next
        rw [hcut] at hfirst hkept
        refine ⟨c, by rw [hcut]; rfl, (isPunctuation_iff c).mpr ⟨hkept c (by simp), ?_⟩⟩
        simpa using hfirst
  | case5 run next rest hother ih =>
      obtain _ | ⟨hne, hrun, hrest⟩ := h
      refine .run hne hrun (.inr fun rest' hbare => ?_) (ih hrest ?_)
      · exact hother (hbare.run_eq hne hrun fun c hc => hrest.head hc)
      · cases b <;> simp

/-- A text with each bare `unsigned` completed. -/
def completion
    (text : List Char) :
    List Char :=
  (completeUnsigned (wordRuns text)).flatten

theorem completes_iff
    {text s : List Char} :
    Completes false text s ↔ s = completion text := by
  have hcompletes : Completes false text (completion text) := by
    obtain ⟨b, hruns⟩ := alternates_runs isWord text
    have hflatten := completes_completeUnsigned hruns fun _ => rfl
    rwa [flatten_runs] at hflatten
  exact ⟨fun h => h.unique hcompletes, fun h => h ▸ hcompletes⟩

theorem completion_append
    {text : List Char} {c : Char} (more : List Char)
    (hlast : text.getLast? = some c)
    (hc : isPunctuation c = true) :
    completion (text ++ more) = completion text ++ completion more :=
  (completes_iff.mp ((completes_iff.mpr rfl).append hlast hc (completes_iff.mpr rfl))).symm

theorem completion_eq_nil_iff
    (text : List Char) :
    completion text = [] ↔ text = [] := by
  refine ⟨fun h => (completes_iff.mpr h.symm).eq_nil, ?_⟩
  rintro rfl
  rfl

/-- Text around a piece, up to punctuation in front of it and at its end, is not lost. -/
theorem completion_around_iff
    {front piece : List Char} {c d : Char} (middle : List Char)
    (hfront : front = [] ∨ front.getLast? = some c)
    (hc : isPunctuation c = true)
    (hpiece : piece.getLast? = some d)
    (hd : isPunctuation d = true) :
    completion (front ++ (piece ++ middle)) = completion piece ↔ front = [] ∧ middle = [] := by
  have hcut : completion (front ++ (piece ++ middle)) =
      completion front ++ (completion piece ++ completion middle) := by
    rw [← completion_append middle hpiece hd]
    rcases hfront with rfl | hfront
    · rfl
    · exact completion_append _ hfront hc
  rw [hcut, ← completion_eq_nil_iff front, ← completion_eq_nil_iff middle]
  constructor
  · intro heq
    have hlength := congrArg List.length heq
    simp only [List.length_append] at hlength
    exact ⟨List.eq_nil_of_length_eq_zero (by omega), List.eq_nil_of_length_eq_zero (by omega)⟩
  · rintro ⟨hnil, hnil'⟩
    rw [hnil, hnil', List.nil_append, List.append_nil]

end Completion

section Signatures

variable (result scope base args params : List Char)

/-- An instance is written as the name and the arguments in brackets, with a blank between two
closing brackets. -/
theorem writeInstance_one :
    ∃ inner, writeInstance base [args] [] = base ++ ['<'] ++ inner ++ ['>'] ∧
      (args.getLast? = some '>' ∧ inner = args ++ [' '] ∨
        args.getLast? ≠ some '>' ∧ inner = args) := by
  by_cases hlast : args.getLast? = some '>'
  · exact ⟨args ++ [' '], by simp [writeInstance, joinWith, hlast], .inl ⟨hlast, rfl⟩⟩
  · exact ⟨args, by simp [writeInstance, joinWith, hlast], .inr ⟨hlast, rfl⟩⟩

theorem getLast?_writeInstance :
    (writeInstance base [args] []).getLast? = some '>' := by
  obtain ⟨inner, hwrite, -⟩ := writeInstance_one base args
  rw [hwrite, List.getLast?_concat]

theorem getLast?_drop_qualification
    {pos : Nat}
    (h : pos < (qualification result scope).length) :
    ((qualification result scope).drop pos).getLast? = some ':' := by
  rw [List.getLast?_drop, if_neg (Nat.not_le.mpr h), qualification,
    List.getLast?_append_of_ne_nil _ (by simp)]
  rfl

/-- The text in front of the last parenthesis: up to the parameter list, and further if there are
parentheses in it. -/
theorem splitLast_signature :
    ∃ middle after, splitLast '(' (signature result scope base args params) =
        some (qualification result scope ++ (writeInstance base [args] [] ++ middle), after) ∧
      (middle = [] ↔ '(' ∉ params) := by
  cases hsplit : splitLast '(' params with
  | none =>
      have hnot := splitLast_eq_none hsplit
      refine ⟨[], params ++ [')'], ?_, iff_of_true rfl hnot⟩
      rw [signature, ← List.append_assoc, splitLast_append _ (by simp [hnot]), List.append_nil]
  | some parts =>
      obtain ⟨before, after⟩ := parts
      obtain ⟨hparams, hnot⟩ := splitLast_eq_some hsplit
      refine ⟨'(' :: before, after ++ [')'], ?_, iff_of_false (by simp) (by simp [hparams])⟩
      rw [← splitLast_append _ (show '(' ∉ after ++ [')'] by simp [hnot]), signature, hparams]
      simp

/-- Where the name is found: at the end of the qualification, or before if it also stands there. -/
theorem find?_signature
    (hbase : ∀ c ∈ base, isWord c = true) :
    ∃ pos ≤ (qualification result scope).length,
      find? (base ++ ['<']) (signature result scope base args params) = some pos ∧
        (pos = (qualification result scope).length ↔
          ¬ base ++ ['<'] <:+: qualification result scope) := by
  have hthere : base ++ ['<'] <+: (signature result scope base args params).drop
      (qualification result scope).length := by
    obtain ⟨inner, hwrite, -⟩ := writeInstance_one base args
    rw [signature, List.drop_left, hwrite, List.append_assoc, List.append_assoc]
    exact List.prefix_append _ _
  obtain ⟨pos, hpos, hfind⟩ := exists_find? hthere
  obtain ⟨hhere, hbefore⟩ := find?_eq_some hfind
  refine ⟨pos, hpos, hfind, ?_, ?_⟩
  · rintro rfl ⟨front, back, hinfix⟩
    refine hbefore front.length ?_ ?_
    · rw [← hinfix]
      simp only [List.length_append, List.length_cons, List.length_nil]
      omega
    · rw [signature, ← hinfix, List.append_assoc, List.append_assoc, List.drop_left]
      exact List.prefix_append _ _
  · intro hinfix
    apply Nat.le_antisymm hpos
    by_contra hlt
    have hlast := getLast?_drop_qualification result scope (Nat.lt_of_not_le hlt)
    rw [signature, List.drop_append_of_le_length hpos] at hhere
    -- The name can not stand across the end of the qualification, which is a colon.
    rcases List.prefix_or_prefix_of_prefix hhere (List.prefix_append _ _) with hinside | hacross
    · exact hinfix (hinside.isInfix.trans (List.drop_suffix pos _).isInfix)
    · rcases List.mem_append.mp (hacross.subset (List.mem_of_getLast? hlast)) with hcolon | hcolon
      · exact absurd (hbase ':' hcolon) (by decide)
      · exact absurd hcolon (by decide)

theorem endsInstance_append
    (front : List Char) (c : Char) :
    endsInstance (front ++ [c, '>']) = (c.isAlphanum || c == '_') := by
  simp [endsInstance]

/-- The arguments end in a letter, a digit or an underscore where the instance is recognized. -/
theorem endsInstance_signature :
    endsInstance (qualification result scope ++ writeInstance base [args] []) = true ↔
      ∃ c, args.getLast? = some c ∧ (c.isAlphanum || c == '_') = true := by
  obtain ⟨inner, hwrite, hinner⟩ := writeInstance_one base args
  rw [hwrite]
  rcases hinner with ⟨hlast, hinner⟩ | ⟨-, hinner⟩ <;> rw [hinner]
  · have hends := endsInstance_append (qualification result scope ++ base ++ ['<'] ++ args) ' '
    simp only [List.append_assoc, List.cons_append, List.nil_append] at hends ⊢
    rw [hends, hlast]
    refine iff_of_false (by decide) ?_
    rintro ⟨c, hc, hword⟩
    obtain rfl := Option.some.inj hc
    exact absurd hword (by decide)
  · rcases List.eq_nil_or_concat args with rfl | ⟨init, c, rfl⟩
    · have hends := endsInstance_append (qualification result scope ++ base) '<'
      simp only [List.append_assoc, List.cons_append, List.nil_append] at hends ⊢
      rw [hends]
      exact iff_of_false (by decide) (by simp)
    · have hends := endsInstance_append (qualification result scope ++ base ++ ['<'] ++ init) c
      simp only [List.concat_eq_append, List.append_assoc, List.cons_append,
        List.nil_append] at hends ⊢
      rw [hends]
      simp

/-- The text that the name is read from: the instance, what stands between the first place where its
name stands and the instance, and what stands between the instance and the last parenthesis. -/
theorem instanceName_signature
    (hbase : ∀ c ∈ base, isWord c = true) :
    ∃ front middle,
      (front = [] ∨ front.getLast? = some ':') ∧
      (front = [] ↔ ¬ base ++ ['<'] <:+: qualification result scope) ∧
      (middle = [] ↔ '(' ∉ params) ∧
      instanceName (String.ofList base)
          (String.ofList (signature result scope base args params)) =
        String.ofList
          (if endsInstance (qualification result scope ++ (writeInstance base [args] [] ++ middle))
            then completion (front ++ (writeInstance base [args] [] ++ middle)) else base) := by
  obtain ⟨middle, after, hsplit, hmiddle⟩ := splitLast_signature result scope base args params
  obtain ⟨pos, hpos, hfind, hfirst⟩ := find?_signature result scope base args params hbase
  refine ⟨(qualification result scope).drop pos, middle, ?_, ?_, hmiddle, ?_⟩
  · rcases Nat.eq_or_lt_of_le hpos with rfl | hlt
    · exact .inl (List.drop_length)
    · exact .inr (getLast?_drop_qualification result scope hlt)
  · rw [← hfirst, List.drop_eq_nil_iff]
    omega
  · have hinside : pos < (qualification result scope ++
        (writeInstance base [args] [] ++ middle)).length := by
      obtain ⟨inner, hwrite, -⟩ := writeInstance_one base args
      rw [hwrite]
      simp only [List.length_append, List.length_cons, List.length_nil]
      omega
    simp only [instanceName, String.toList_ofList, hsplit, hfind, if_pos hinside,
      List.drop_append_of_le_length hpos]
    split <;> rfl

/-- The plain name has no bracket. -/
theorem completion_writeInstance_ne
    (hbase : ∀ c ∈ base, isWord c = true) :
    completion (writeInstance base [args] []) ≠ base := by
  intro heq
  obtain ⟨inner, hwrite, -⟩ := writeInstance_one base args
  have hopen : '<' ∈ completion (writeInstance base [args] []) :=
    Completes.mem (completes_iff.mpr rfl) (by decide) (by simp [hwrite])
  rw [heq] at hopen
  exact absurd (hbase '<' hopen) (by decide)

end Signatures

/-- The name of an instance is recovered from its signature, with each bare `unsigned` completed,
exactly if the signature shows the instance where it is looked for; the plain name is another
one. -/
theorem instanceName_signature_iff
    (result scope args params : List Char) {base : List Char}
    (hbase : ∀ c ∈ base, isWord c = true) :
    ∃ recovered,
      (∀ text, Completes false (writeInstance base [args] []) text ↔ text = recovered) ∧
      recovered ≠ base ∧
      (instanceName (String.ofList base)
          (String.ofList (signature result scope base args params)) = String.ofList recovered ↔
        ShowsInstance result scope base args params) := by
  refine ⟨completion (writeInstance base [args] []), fun text => completes_iff,
    completion_writeInstance_ne base args hbase, ?_⟩
  obtain ⟨front, middle, hfront, hfirst, hmiddle, hname⟩ :=
    instanceName_signature result scope base args params hbase
  have haround := completion_around_iff middle hfront (by decide)
    (getLast?_writeInstance base args) (by decide)
  rw [hname, String.ofList_inj]
  constructor
  · intro hrecovered
    split at hrecovered
    · next hends =>
        obtain ⟨hnofront, hnomiddle⟩ := haround.mp hrecovered
        rw [hnomiddle, List.append_nil, endsInstance_signature] at hends
        exact ⟨hmiddle.mp hnomiddle, hends, hfirst.mp hnofront⟩
    · exact absurd hrecovered.symm (completion_writeInstance_ne base args hbase)
  · rintro ⟨hparams, hargs, hqualification⟩
    obtain rfl := hmiddle.mpr hparams
    rw [if_pos]
    · exact haround.mpr ⟨hfirst.mpr hqualification, rfl⟩
    · rwa [List.append_nil, endsInstance_signature]

/-- The name of an instance with a bare `unsigned` among its arguments. -/
theorem instanceName_signature_unsigned :
    (∀ c ∈ "f".toList, isWord c = true) ∧
      ShowsInstance "void".toList "NS".toList "f".toList "int,unsigned".toList "int".toList ∧
      Completes false "f<int,unsigned>".toList "f<int,unsigned int>".toList ∧
      instanceName "f" "void NS::f<int,unsigned>(int)" = "f<int,unsigned int>" := by
  have hbase : ∀ c ∈ "f".toList, isWord c = true :=
    List.all_eq_true.mp (by decide)
  have hshows : ShowsInstance "void".toList "NS".toList "f".toList "int,unsigned".toList
      "int".toList :=
    ⟨by decide, ⟨'d', by decide, by decide⟩, by decide⟩
  have hcompletes : Completes false "f<int,unsigned>".toList "f<int,unsigned int>".toList :=
    completes_iff.mpr (by decide +kernel)
  obtain ⟨recovered, hrecovered, -, hname⟩ := instanceName_signature_iff "void".toList "NS".toList
    "int,unsigned".toList "int".toList hbase
  refine ⟨hbase, hshows, hcompletes, ?_⟩
  have heq := hname.mpr hshows
  rw [← (hrecovered _).mp hcompletes] at heq
  exact heq

/-- An instance is not recognized by an argument that ends in a pointer or by a parameter that is a
function pointer, and an instance in the return type is taken for the function. -/
theorem instanceName_misses :
    instanceName "f" "void NS::f<int*>(int)" = "f" ∧
      instanceName "f" "void NS::f<int>(void (*)(int))" = "f" ∧
      instanceName "f" "f<char> NS::f<int>(int)" = "f<char> NS::f<int>" := by
  refine ⟨?_, ?_, ?_⟩ <;> decide +kernel

end Template
end TypeCatalog
