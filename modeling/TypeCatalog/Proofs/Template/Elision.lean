import TypeCatalog.Proofs.Template.Retention

/-!
# The arguments that normalizing drops

**Input.** A table of defaults and a component `name<a1,...,an>` whose arguments leave no bracket
open.

**Rule.** An argument is normalized, and it is dropped if it and all arguments after it begin like
the default of their position: with the template of the matcher, and there with the end of the text
or an opening bracket.

**Notions.** A text is a default of a template if it is the template's name, alone or with one
argument list that ends the text. It extends an instance of the template if it goes on after such a
list: a member type, a pointer or a reference. It leaves the instance open if the list has no end.

**Results.**
* `elide_eq_take`: what is left of an argument list, and which arguments are dropped.
* `arguments_of_component`: the arguments of a component are those that it was joined from.
* `instance_cases`, `IsDefaultOf.exact`: a text that begins like an instance is one, extends one or
  leaves one open, and a default does neither of the last two.
* `elided_defaults_iff`: every argument that is dropped is a default of its position, exactly if
  none of them extends an instance of the matcher's template or leaves one open.
-/

namespace TypeCatalog
namespace Template

open Text Name

/-- A bracket that is opened in front of the text is open all through it, and is the only one that
is open at its end. -/
structure Enclosed
    (inner : List Char) :
    Prop where
  deep : ∀ u, u <+: inner → 0 < ((⟨1, 0⟩ : Nesting).run u).angle
  run : (⟨1, 0⟩ : Nesting).run inner = ⟨1, 0⟩

/-- The text is the template's name, one argument list, and a suffix. -/
def IsInstanceWith
    (template : String) (suffix text : List Char) :
    Prop :=
  ∃ inner, Enclosed inner ∧ text = template.toList ++ '<' :: (inner ++ '>' :: suffix)

/-- The text is the template's name, alone or with one argument list that ends the text. -/
def IsDefaultOf
    (template : String) (text : List Char) :
    Prop :=
  text = template.toList ∨ IsInstanceWith template [] text

/-- The text begins with an instance of the template, and goes on: a member type, a pointer or a
reference. -/
def ExtendsInstance
    (template : String) (text : List Char) :
    Prop :=
  ∃ suffix, suffix ≠ [] ∧ IsInstanceWith template suffix text

/-- The text begins with the template's name and a bracket that it does not close. -/
def LeavesOpen
    (template : String) (text : List Char) :
    Prop :=
  ∃ rest, text = template.toList ++ '<' :: rest ∧
    ∀ u, u <+: rest → 0 < ((⟨1, 0⟩ : Nesting).run u).angle

/-- The matcher of a position accepts every argument from there on. -/
def AcceptedFrom
    (params : List DefaultArg) (texts : List (List Char)) (j : Nat) :
    Prop :=
  ∀ l text, j ≤ l → texts[l]? = some text → ∃ p, params[l]? = some (.instanceOf p) ∧
    (text = p.toList ∨ p.toList ++ ['<'] <+: text)

section Brackets

/-- Only a closing bracket outside parentheses lowers the count of open brackets, and by one. -/
theorem closes_of_angle_step_lt
    {n : Nesting} {c : Char}
    (h : (n.step c).angle < n.angle) :
    c = '>' ∧ n.paren = 0 ∧ (n.step c).angle = n.angle - 1 := by
  by_cases hclose : c = '>' ∧ n.paren = 0
  · obtain ⟨rfl, hparen⟩ := hclose
    exact ⟨rfl, hparen, by simp [Nesting.step, hparen]⟩
  · unfold Nesting.step at h
    split_ifs at h <;> simp at h

/-- A bracket stays open through a text, or there is a first place where it is closed. -/
theorem open_or_closed
    {n : Nesting} (rest : List Char)
    (hn : 0 < n.angle) :
    (∀ u, u <+: rest → 0 < (n.run u).angle) ∨
      ∃ inner suffix, (∀ u, u <+: inner → 0 < (n.run u).angle) ∧ n.run inner = ⟨1, 0⟩ ∧
        rest = inner ++ '>' :: suffix := by
  induction rest generalizing n with
  | nil =>
      left
      intro u hu
      rwa [List.prefix_nil.mp hu]
  | cons c rest ih =>
      have hcons : ∀ {w : List Char}, (∀ u, u <+: w → 0 < ((n.step c).run u).angle) →
          ∀ u, u <+: c :: w → 0 < (n.run u).angle := by
        intro w hw u hu
        rcases List.prefix_cons_iff.mp hu with rfl | ⟨v, rfl, hv⟩
        · exact hn
        · exact hw v hv
      by_cases hopen : 0 < (n.step c).angle
      · rcases ih hopen with hall | ⟨inner, suffix, hdeep, hrun, rfl⟩
        · exact .inl (hcons hall)
        · exact .inr ⟨c :: inner, suffix, hcons hdeep, hrun, rfl⟩
      · right
        have hless : (n.step c).angle < n.angle := by
          omega
        obtain ⟨rfl, hparen, hangle⟩ := closes_of_angle_step_lt hless
        have hone : n = ⟨1, 0⟩ := by
          obtain ⟨angle, paren⟩ := n
          simp only [Nesting.mk.injEq] at hparen hangle hn hopen ⊢
          omega
        refine ⟨[], rest, fun u hu => ?_, hone, rfl⟩
        rwa [List.prefix_nil.mp hu]

/-- What begins with a template's name and a bracket is an instance, extends one, or leaves the
bracket open. -/
theorem instance_cases
    {template : String} {text : List Char}
    (h : template.toList ++ ['<'] <+: text) :
    IsInstanceWith template [] text ∨ ExtendsInstance template text ∨ LeavesOpen template text := by
  obtain ⟨rest, rfl⟩ := h
  have htext : template.toList ++ ['<'] ++ rest = template.toList ++ '<' :: rest := by
    simp
  rw [htext]
  rcases open_or_closed rest (show 0 < (⟨1, 0⟩ : Nesting).angle by decide) with
    hopen | ⟨inner, suffix, hdeep, hrun, rfl⟩
  · exact .inr (.inr ⟨rest, rfl, hopen⟩)
  · cases suffix with
    | nil =>
        exact .inl ⟨inner, ⟨hdeep, hrun⟩, rfl⟩
    | cons c suffix =>
        exact .inr (.inl ⟨c :: suffix, by simp, inner, ⟨hdeep, hrun⟩, rfl⟩)

/-- The closing bracket of an enclosed text is the first one that closes. -/
theorem Enclosed.angle_closed
    {inner : List Char}
    (h : Enclosed inner) :
    ((⟨1, 0⟩ : Nesting).run (inner ++ ['>'])).angle = 0 := by
  rw [Nesting.run_append, h.run]
  rfl

theorem enclosed_of_plain
    {inner : List Char}
    (h : ∀ c ∈ inner, isBracket c = false) :
    Enclosed inner := by
  refine ⟨fun u hu => ?_, (nested_of_plain h).run 1⟩
  rw [(nested_of_plain fun c hc => h c (hu.subset hc)).run 1]
  decide

/-- A default neither goes on after its list nor leaves it open. -/
theorem IsDefaultOf.exact
    {template : String} {text : List Char}
    (h : IsDefaultOf template text) :
    ¬ ExtendsInstance template text ∧ ¬ LeavesOpen template text := by
  rcases h with rfl | ⟨inner, hinner, rfl⟩
  · refine ⟨?_, ?_⟩
    · rintro ⟨suffix, -, inner, -, heq⟩
      simp at heq
    · rintro ⟨rest, heq, -⟩
      simp at heq
  · refine ⟨?_, ?_⟩
    · rintro ⟨suffix, hsuffix, inner', hinner', heq⟩
      have hsame : inner ++ ['>'] = inner' ++ '>' :: suffix := by
        simpa using heq
      have hprefix : inner' ++ ['>'] <+: inner := by
        obtain ⟨init, last, rfl⟩ := (List.eq_nil_or_concat suffix).resolve_left hsuffix
        refine ⟨init, ?_⟩
        have hcut : inner ++ ['>'] = (inner' ++ ['>'] ++ init) ++ [last] := by
          simpa using hsame
        exact (List.append_inj' hcut rfl).1.symm
      have hdeep := hinner.deep _ hprefix
      have hclosed := hinner'.angle_closed
      omega
    · rintro ⟨rest, heq, hopen⟩
      obtain rfl : inner ++ ['>'] = rest := by
        simpa using heq
      have hdeep := hopen _ List.prefix_rfl
      have hclosed := hinner.angle_closed
      omega

end Brackets

section Matchers

theorem accepts_iff
    (matcher : DefaultArg) (text : List Char) :
    matcher.accepts text = true ↔ ∃ p, matcher = .instanceOf p ∧
      (text = p.toList ∨ p.toList ++ ['<'] <+: text) := by
  cases matcher with
  | required =>
      simp [DefaultArg.accepts]
  | instanceOf template =>
      simp only [DefaultArg.accepts, DefaultArg.instanceOf.injEq, exists_eq_left']
      cases hrest : stripPrefix template.toList text with
      | none =>
          have hnot : ∀ rest, text ≠ template.toList ++ rest := by
            intro rest htext
            rw [stripPrefix_eq_some_iff.mpr htext] at hrest
            cases hrest
          simp only [Bool.false_eq_true, false_iff, not_or]
          refine ⟨by simpa using hnot [], ?_⟩
          rintro ⟨rest, htext⟩
          exact hnot ('<' :: rest) (by simp [← htext])
      | some rest =>
          obtain rfl := stripPrefix_eq_some_iff.mp hrest
          cases rest with
          | nil =>
              simp
          | cons c rest =>
              simp only [beq_iff_eq]
              constructor
              · rintro rfl
                exact .inr ⟨rest, by simp⟩
              · rintro (htext | hprefix)
                · simp at htext
                · have hhead := (List.prefix_append_right_inj _).mp hprefix
                  exact (List.cons_prefix_cons.mp hhead).1.symm

theorem acceptedFrom_cons_succ
    (params : List DefaultArg) (text : List Char) (texts : List (List Char)) (j : Nat) :
    AcceptedFrom params (text :: texts) (j + 1) ↔ AcceptedFrom params.tail texts j := by
  constructor
  · intro h l t hl ht
    have hnext := h (l + 1) t (by omega) (by simpa using ht)
    rwa [← List.getElem?_tail] at hnext
  · intro h l t hl ht
    obtain ⟨l, rfl⟩ : ∃ k, l = k + 1 := ⟨l - 1, by omega⟩
    rw [← List.getElem?_tail]
    exact h l t (by omega) (by simpa using ht)

theorem acceptedFrom_cons_zero
    (params : List DefaultArg) (text : List Char) (texts : List (List Char)) :
    AcceptedFrom params (text :: texts) 0 ↔
      (params.head?.any fun p => p.accepts text) = true ∧ AcceptedFrom params.tail texts 0 := by
  rw [← acceptedFrom_cons_succ params text texts 0]
  constructor
  · intro h
    refine ⟨?_, fun l t hl ht => h l t (by omega) ht⟩
    obtain ⟨p, hp, htext⟩ := h 0 text le_rfl rfl
    rw [List.head?_eq_getElem?, hp]
    exact (accepts_iff _ text).mpr ⟨p, rfl, htext⟩
  · rintro ⟨hhead, hrest⟩ l t - ht
    cases l with
    | zero =>
        obtain rfl : text = t := by simpa using ht
        cases params with
        | nil =>
            cases hhead
        | cons matcher params =>
            obtain ⟨p, rfl, htext⟩ := (accepts_iff matcher text).mp hhead
            exact ⟨p, rfl, htext⟩
    | succ l =>
        exact hrest (l + 1) t (by omega) ht

/-- What is left of an argument list, and which arguments are dropped: those from which on every
argument is accepted. -/
theorem elide_eq_take
    (params : List DefaultArg) (texts : List (List Char)) :
    ∃ kept ≤ texts.length, elide params texts = texts.take kept ∧
      ∀ j < texts.length, kept ≤ j ↔ AcceptedFrom params texts j := by
  induction texts generalizing params with
  | nil =>
      exact ⟨0, le_rfl, rfl, by simp⟩
  | cons text texts ih =>
      obtain ⟨kept, hkept, hrest, hdropped⟩ := ih params.tail
      -- All arguments after the first are dropped exactly if they are all accepted.
      have hempty : (texts.take kept).isEmpty = true ↔ AcceptedFrom params.tail texts 0 := by
        cases texts with
        | nil =>
            simp [AcceptedFrom]
        | cons t ts =>
            rw [← hdropped 0 (by simp)]
            simp
      rw [elide, hrest]
      by_cases hall : AcceptedFrom params (text :: texts) 0
      · obtain ⟨hhead, htail⟩ := (acceptedFrom_cons_zero params text texts).mp hall
        refine ⟨0, by simp, by simp [hhead, hempty.mpr htail], fun j _ => ?_⟩
        exact iff_of_true (Nat.zero_le j) fun l t _ ht => hall l t (Nat.zero_le l) ht
      · refine ⟨kept + 1, by simpa using hkept, ?_, fun j hj => ?_⟩
        · have hnot : ¬ ((texts.take kept).isEmpty && params.head?.any fun p => p.accepts text) =
              true := by
            rw [Bool.and_eq_true, hempty, and_comm, ← acceptedFrom_cons_zero]
            exact hall
          simp [hnot]
        · cases j with
          | zero =>
              exact iff_of_false (by omega) hall
          | succ j =>
              rw [acceptedFrom_cons_succ, ← hdropped j (by simpa using hj)]
              omega

end Matchers

section Components

theorem elide_nil
    (texts : List (List Char)) :
    elide [] texts = texts := by
  induction texts with
  | nil =>
      rfl
  | cons text texts ih =>
      simp [elide, ih]

theorem keptArguments_eq_elide
    (n : Normalizer) (name : List Char) (texts : List (List Char)) :
    n.keptArguments false name texts =
      elide ((n.defaultsOf (String.ofList name)).getD []) texts := by
  rw [Normalizer.keptArguments]
  cases n.defaultsOf (String.ofList name) with
  | none =>
      simp [elide_nil]
  | some params =>
      simp

theorem paren_step
    (n : Nesting) (c : Char) :
    (n.step c).paren =
      if c = '(' then n.paren + 1 else if c = ')' then n.paren - 1 else n.paren := by
  unfold Nesting.step
  split
  · rfl
  · split
    · rfl
    · split
      · rfl
      · split <;> rfl

/-- The argument list of a name opens behind it, if the name has no opening bracket of its own and
closes its parentheses. -/
theorem splitOpen_of_name
    {n : Nesting} {name : List Char} (after : List Char)
    (hname : '<' ∉ name)
    (hparen : (n.run name).paren = 0) :
    splitOpen n.paren (name ++ '<' :: after) = some (name, after) := by
  induction name generalizing n with
  | nil =>
      have hzero : n.paren = 0 := hparen
      simp [splitOpen, hzero]
  | cons c name ih =>
      simp only [List.mem_cons, not_or] at hname
      have hc : ¬ (c = '<' ∧ n.paren = 0) := fun h => hname.1 h.1.symm
      rw [List.cons_append, splitOpen, if_neg hc, ← paren_step, ih hname.2 hparen]
      rfl

theorem trim_eq_nil_iff
    {text : List Char} :
    trim text = [] ↔ ∀ c ∈ text, isBlank c = true := by
  constructor
  · intro h c hc
    by_contra hblank
    have hmem : c ∈ ink text := List.mem_filter.mpr ⟨hc, by simpa using hblank⟩
    rw [← ink_trim, h] at hmem
    cases hmem
  · intro h
    have hfront : text.dropWhile isBlank = [] := List.dropWhile_eq_nil_iff.mpr h
    rw [trim, hfront]
    rfl

/-- The arguments that a list was joined from are its arguments, without the blanks at their
ends. -/
theorem arguments_of_component
    {args : List (List Char)}
    (hwhole : ∀ a ∈ args, Whole ',' a)
    (hblank : ∀ a, args = [a] → trim a ≠ []) :
    arguments (joinWith "," args) = args.map trim := by
  rcases List.eq_nil_or_concat args with rfl | ⟨init, last, rfl⟩
  · rfl
  · rw [List.concat_eq_append] at hwhole hblank ⊢
    have hpad : Whole ',' [] := ⟨trivial, rfl⟩
    have hinit : ∀ a ∈ init, Whole ',' a := fun a ha => hwhole a (by simp [ha])
    have hcut := cutCommas_joinWith hinit (hwhole last (by simp)) hpad
    rw [List.append_nil, List.append_nil] at hcut
    have hsome : trim (joinWith "," (init ++ [last])) ≠ [] := by
      cases init with
      | nil =>
          rw [List.nil_append, joinWith_one]
          exact hblank last rfl
      | cons first init =>
          -- The comma after the first argument is not blank.
          obtain ⟨b, bs, hbs⟩ : ∃ b bs, init ++ [last] = b :: bs :=
            List.exists_cons_of_ne_nil (by simp)
          intro hnil
          have hcomma := trim_eq_nil_iff.mp hnil ',' (by
            rw [List.cons_append, hbs, joinWith_cons]
            simp)
          exact absurd hcomma (by decide)
    rw [arguments, hcut, if_neg (by simpa using hsome)]

/-- The text of a component. -/
def componentText
    (name : List Char) (args : List (List Char)) :
    List Char :=
  name ++ '<' :: (joinWith "," args ++ ['>'])

theorem instance?_componentText
    {name : List Char} (args : List (List Char))
    (hfirst : ∀ c, name.head? = some c → isBlank c = false)
    (hname : '<' ∉ name)
    (hparen : (Nesting.start.run name).paren = 0) :
    instance? (trim (componentText name args)) =
      some ⟨name, joinWith "," args, [], true⟩ := by
  have htrim : trim (componentText name args) = componentText name args := by
    refine trim_eq_self (fun c hc => ?_) fun c hc => ?_
    · cases name with
      | nil =>
          obtain rfl : '<' = c := by simpa [componentText] using hc
          decide
      | cons d name =>
          exact hfirst c (by simpa [componentText] using hc)
    · have hlast : componentText name args = (name ++ '<' :: joinWith "," args) ++ ['>'] := by
        simp [componentText]
      rw [hlast, List.getLast?_concat] at hc
      obtain rfl := Option.some.inj hc
      decide
  have hopen := splitOpen_of_name (joinWith "," args ++ ['>']) hname hparen
  have hstart : Nesting.start.paren = 0 := rfl
  rw [hstart] at hopen
  rw [htrim, instance?, componentText, hopen]
  simp only [splitLast_append _ List.not_mem_nil]

end Components

/-- A component is written with its first arguments, and all others are dropped: those from which on
every argument begins like the default of its position. All of them are defaults exactly if none of
them goes on after the argument list of its template, or leaves it open. -/
theorem elided_defaults_iff
    (n : Normalizer) {name : List Char} {args : List (List Char)}
    (hfirst : ∀ c, name.head? = some c → isBlank c = false)
    (hname : '<' ∉ name)
    (hparen : (Nesting.start.run name).paren = 0)
    (hwhole : ∀ a ∈ args, Whole ',' a)
    (hblank : ∀ a, args = [a] → trim a ≠ []) :
    let params := (n.defaultsOf (String.ofList name)).getD []
    let texts := args.map fun a => n.normalizeScopedChars false (trim a)
    ∃ kept ≤ texts.length,
      n.normalizeChars false (componentText name args) = writeInstance name (texts.take kept) [] ∧
      (∀ j < texts.length, kept ≤ j ↔ AcceptedFrom params texts j) ∧
      ((∀ j text, kept ≤ j → texts[j]? = some text →
          ∃ p, params[j]? = some (.instanceOf p) ∧ IsDefaultOf p text) ↔
        ∀ j text p, AcceptedFrom params texts j → texts[j]? = some text →
          params[j]? = some (.instanceOf p) →
          ¬ ExtendsInstance p text ∧ ¬ LeavesOpen p text) := by
  intro params texts
  obtain ⟨kept, hkept, htake, hdropped⟩ := elide_eq_take params texts
  have hargs : (arguments (joinWith "," args)).map (n.normalizeScopedChars false) = texts := by
    rw [arguments_of_component hwhole hblank, List.map_map]
    rfl
  have hlength : ∀ {j : Nat} {text : List Char}, texts[j]? = some text → j < texts.length :=
    fun htext => (List.getElem?_eq_some_iff.mp htext).1
  refine ⟨kept, hkept, ?_, hdropped, ?_, ?_⟩
  · rw [normalizeChars_of_instance n false (instance?_componentText args hfirst hname hparen),
      hargs, keptArguments_eq_elide, htake]
  · intro hdefaults j text p haccepted htext hp
    obtain ⟨p', hp', hdefault⟩ :=
      hdefaults j text ((hdropped j (hlength htext)).mpr haccepted) htext
    obtain rfl : p' = p := by
      simpa [hp'] using hp
    exact hdefault.exact
  · intro hexact j text hj htext
    have haccepted := (hdropped j (hlength htext)).mp hj
    obtain ⟨p, hp, hbegins⟩ := haccepted j text le_rfl htext
    obtain ⟨hextends, hopen⟩ := hexact j text p haccepted htext hp
    refine ⟨p, hp, hbegins.imp_right fun hprefix => ?_⟩
    rcases instance_cases hprefix with hinstance | hbad | hbad
    · exact hinstance
    · exact absurd hbad hextends
    · exact absurd hbad hopen

section Cases

/-- The standard defaults leave an allocator, and a pointer to one, as they are. -/
theorem normalizeScopedChars_allocator
    {suffix : List Char}
    (h : suffix = [] ∨ suffix = ['*']) :
    Normalizer.standard.normalizeScopedChars false ("std::allocator<int>".toList ++ suffix) =
      "std::allocator<int>".toList ++ suffix := by
  have hpieces : pieces .start ("std::allocator<int>".toList ++ suffix) =
      ["std".toList, "allocator<int>".toList ++ suffix] := by
    rcases h with rfl | rfl <;> decide
  have hinstance : instance? (trim ("allocator<int>".toList ++ suffix)) =
      some ⟨"allocator".toList, "int".toList, suffix, true⟩ := by
    rcases h with rfl | rfl <;> rfl
  have hargs : arguments "int".toList = ["int".toList] := by
    decide
  have hint : Normalizer.standard.normalizeScopedChars false "int".toList = "int".toList :=
    normalizeScopedChars_eq_self _ _ (by decide) (by decide)
  have hstd : Normalizer.standard.normalizeChars false "std".toList = "std".toList :=
    normalizeChars_eq_self _ _ (by decide) (by decide)
  rw [normalizeScopedChars_eq, hpieces, List.map_cons, List.map_singleton, hstd,
    normalizeChars_of_instance _ _ hinstance, hargs, List.map_singleton, hint]
  rcases h with rfl | rfl <;> rfl

/-- The allocator of a vector is dropped, and all that is dropped are defaults. -/
theorem elided_defaults_vector :
    Normalizer.standard.normalizeChars false "vector<int, std::allocator<int> >".toList =
        "vector<int>".toList ∧
      ∀ j text, 1 ≤ j → ["int".toList, "std::allocator<int>".toList][j]? = some text →
        ∃ p, [DefaultArg.required, .instanceOf "std::allocator"][j]? = some (.instanceOf p) ∧
          IsDefaultOf p text := by
  have hwhole : ∀ a ∈ ["int".toList, " std::allocator<int> ".toList], Whole ',' a := by
    have hint : Whole ',' "int".toList := whole_of_plain (by decide) (by decide)
    have hfront : Whole ',' " std::allocator".toList := whole_of_plain (by decide) (by decide)
    have hlist : Whole ',' ('<' :: ("int".toList ++ ['>'])) :=
      whole_group (by decide) (nested_of_plain (by decide))
    have hpad : Whole ',' " ".toList := whole_of_plain (by decide) (by decide)
    simpa using ⟨hint, (hfront.append hlist).append hpad⟩
  have hfirst : ∀ c, "vector".toList.head? = some c → isBlank c = false := by
    intro c hc
    obtain rfl : 'v' = c := Option.some.inj hc
    decide
  obtain ⟨kept, hkept, hwritten, hdropped, hdefaults⟩ := @elided_defaults_iff .standard
    "vector".toList ["int".toList, " std::allocator<int> ".toList] hfirst (by decide) rfl
    hwhole (by simp)
  have htexts : (["int".toList, " std::allocator<int> ".toList].map fun a =>
      Normalizer.standard.normalizeScopedChars false (trim a)) =
        ["int".toList, "std::allocator<int>".toList] := by
    have hint : Normalizer.standard.normalizeScopedChars false (trim "int".toList) = "int".toList :=
      normalizeScopedChars_eq_self _ _ (by decide) (by decide)
    have htrim : trim " std::allocator<int> ".toList = "std::allocator<int>".toList ++ [] := rfl
    rw [List.map_cons, List.map_singleton, hint, htrim, normalizeScopedChars_allocator (.inl rfl)]
    rfl
  have hparams : (Normalizer.standard.defaultsOf (String.ofList "vector".toList)).getD [] =
      [.required, .instanceOf "std::allocator"] := rfl
  rw [htexts] at hkept hwritten hdropped hdefaults
  rw [hparams] at hdropped hdefaults
  have haccepted : AcceptedFrom [.required, .instanceOf "std::allocator"]
      ["int".toList, "std::allocator<int>".toList] 1 := by
    intro l text hl htext
    match l, hl with
    | 1, _ =>
        obtain rfl := Option.some.inj htext
        exact ⟨"std::allocator", rfl, .inr ⟨"int>".toList, rfl⟩⟩
  have hrequired : ¬ AcceptedFrom [.required, .instanceOf "std::allocator"]
      ["int".toList, "std::allocator<int>".toList] 0 := by
    intro h
    obtain ⟨p, hp, -⟩ := h 0 _ le_rfl rfl
    simp at hp
  obtain rfl : kept = 1 := by
    have hone := (hdropped 1 (by simp)).mpr haccepted
    have hzero := mt (hdropped 0 (by simp)).mp hrequired
    omega
  refine ⟨hwritten, hdefaults.mpr fun j text p _ htext hp => ?_⟩
  match j with
  | 0 =>
      simp at hp
  | 1 =>
      obtain rfl := Option.some.inj htext
      obtain rfl : "std::allocator" = p := by
        simpa using hp
      have hdefault : IsDefaultOf "std::allocator" "std::allocator<int>".toList :=
        .inr ⟨"int".toList, enclosed_of_plain (by decide), rfl⟩
      exact hdefault.exact

/-- A pointer to the allocator is dropped like the allocator. -/
theorem normalize_drops_pointer :
    Normalizer.standard.normalize false "vector<int,std::allocator<int>*>" = "vector<int>" ∧
      ExtendsInstance "std::allocator" "std::allocator<int>*".toList ∧
      ¬ IsDefaultOf "std::allocator" "std::allocator<int>*".toList := by
  have hinstance : instance? (trim "vector<int,std::allocator<int>*>".toList) =
      some ⟨"vector".toList, "int,std::allocator<int>*".toList, [], true⟩ := rfl
  have hargs : arguments "int,std::allocator<int>*".toList =
      ["int".toList, "std::allocator<int>".toList ++ ['*']] := by
    decide
  have hint : Normalizer.standard.normalizeScopedChars false "int".toList = "int".toList :=
    normalizeScopedChars_eq_self _ _ (by decide) (by decide)
  have hextends : ExtendsInstance "std::allocator" "std::allocator<int>*".toList := by
    exact ⟨['*'], by simp, "int".toList, enclosed_of_plain (by decide), rfl⟩
  refine ⟨?_, hextends, fun hdefault => hdefault.exact.1 hextends⟩
  rw [Normalizer.normalize, normalizeChars_of_instance _ _ hinstance, hargs, List.map_cons,
    List.map_singleton, hint, normalizeScopedChars_allocator (.inr rfl)]
  rfl

end Cases

end Template
end TypeCatalog
