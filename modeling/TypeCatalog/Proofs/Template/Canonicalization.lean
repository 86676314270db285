import TypeCatalog.Proofs.Template.Scanning
import TypeCatalog.Proofs.Template.TypeTree

/-!
# Canonical spellings of type trees

**Input.** The text of a type tree.

**Results.**
* `render_argument`: the text of a tree is one argument for the scanner of argument lists, and the
  text of a component is one piece for the scanner of scopes.
* `instance?_render`, `arguments_render`: the arguments of a component are read from its text.
* `writeInstance_render`: a component is written as `render` writes it.
* `normalizeScopedChars_render`: normalizing the text of a tree gives the text of its canonical
  form.
* `normalizeScoped_spelling`: so normalizing is idempotent on such texts, and keeping all arguments
  first changes nothing.
-/

namespace TypeCatalog
namespace Template

open Text Name

section Texts

/-- A text that the scanner of argument lists takes as one argument, also below other brackets. -/
structure Argument
    (w : List Char) :
    Prop where
  nested : Nested w
  whole : Whole ',' w
  tidy : Tidy w

theorem Identifier.not_isBracket
    (name : Identifier) :
    ∀ c ∈ name.text.toList, isBracket c = false := by
  intro c hc
  have hmarks := name.unmarked c hc
  simp only [List.mem_cons, List.not_mem_nil, or_false, not_or] at hmarks
  simp [isBracket, hmarks]

theorem Identifier.whole
    (name : Identifier) {sep : Char}
    (hsep : sep = ',' ∨ sep = ':') :
    Whole sep name.text.toList := by
  refine whole_of_plain name.not_isBracket fun hmem => name.unmarked sep hmem ?_
  rcases hsep with rfl | rfl <;> simp

theorem Identifier.tidy
    (name : Identifier) :
    Tidy name.text.toList :=
  tidy_of_unblank name.ne_nil name.unblank

/-- The builtin spellings hold no marks, and blanks only between words. -/
theorem builtinSpellings_clean :
    ∀ s ∈ builtinSpellings, (∀ c ∈ s.toList, isBracket c = false ∧ c ≠ ',' ∧ c ≠ ':') ∧
      s.toList ≠ [] ∧ s.toList.head?.all (fun c => !isBlank c) ∧
      s.toList.getLast?.all (fun c => !isBlank c) := by
  decide +kernel

theorem Builtin.whole
    (b : Builtin) {sep : Char}
    (hsep : sep = ',' ∨ sep = ':') :
    Whole sep b.spelling.toList := by
  have hchars := (builtinSpellings_clean b.spelling b.known).1
  refine whole_of_plain (fun c hc => (hchars c hc).1) fun hmem => ?_
  rcases hsep with rfl | rfl
  · exact (hchars ',' hmem).2.1 rfl
  · exact (hchars ':' hmem).2.2 rfl

theorem Builtin.argument
    (b : Builtin) :
    Argument b.spelling.toList := by
  obtain ⟨hchars, hne, hhead, hlast⟩ := builtinSpellings_clean b.spelling b.known
  refine ⟨nested_of_plain fun c hc => (hchars c hc).1, b.whole (.inl rfl), hne, ?_, ?_⟩
  · intro c hc
    simpa [hc] using hhead
  · intro c hc
    simpa [hc] using hlast

/-- The blank in front of the closing bracket. -/
def padding
    (texts : List (List Char)) :
    List Char :=
  if texts.getLast?.any (fun t => t.getLast? == some '>') then [' '] else []

theorem padding_cases
    (texts : List (List Char)) :
    padding texts = [] ∨ padding texts = [' '] ∧ texts ≠ [] := by
  rw [padding]
  split
  · next h =>
      refine .inr ⟨rfl, ?_⟩
      rintro rfl
      cases h
  · exact .inl rfl

theorem render_applied
    (name : Identifier) (args : List TypeTree) :
    (Component.applied name args).render = name.text.toList ++ '<' ::
      ((joinWith "," (args.map TypeTree.render) ++ padding (args.map TypeTree.render)) ++
        ['>']) := by
  rw [Component.render, padding]
  split <;> simp

/-- What stands between the brackets of a component is nested. -/
theorem nested_inner
    {args : List TypeTree}
    (h : ∀ t ∈ args, Argument t.render) :
    Nested (joinWith "," (args.map TypeTree.render) ++ padding (args.map TypeTree.render)) := by
  have hcomma : Nested ",".toList := nested_of_plain (by decide)
  have hlist : Nested (joinWith "," (args.map TypeTree.render)) := by
    by_cases hnone : args = []
    · subst hnone
      exact .nil
    · refine joinWith_induct (fun u v hu hv => hu.append (hcomma.append hv)) (by simpa) ?_
      intro p hp
      obtain ⟨t, ht, rfl⟩ := List.mem_map.mp hp
      exact (h t ht).nested
  refine hlist.append (nested_of_plain ?_)
  rcases padding_cases (args.map TypeTree.render) with hpad | ⟨hpad, -⟩ <;> rw [hpad] <;> decide

/-- Every tree is one argument, and every component is one argument and one piece of a scoped
name. -/
theorem render_argument :
    (∀ t : TypeTree, Argument t.render) ∧
      ∀ c : Component, Argument c.render ∧ Whole ':' c.render := by
  refine treeAndComponent_induct ?_ ?_ ?_ ?_
  · intro type
    rw [TypeTree.render]
    exact type.argument
  · intro first rest hfirst hrest
    have hall : ∀ p ∈ first.render :: rest.map Component.render, Argument p := by
      intro p hp
      rcases List.mem_cons.mp hp with rfl | hp
      · exact hfirst.1
      · obtain ⟨c, hc, rfl⟩ := List.mem_map.mp hp
        exact (hrest c hc).1
    have hnested : Nested "::".toList := nested_of_plain (by decide)
    have hwhole : Whole ',' "::".toList := whole_of_plain (by decide) (by decide)
    rw [TypeTree.render]
    refine joinWith_induct (fun u v hu hv => ⟨?_, ?_, ?_⟩) (by simp) hall
    · exact hu.nested.append (hnested.append hv.nested)
    · exact hu.whole.append (hwhole.append hv.whole)
    · exact hu.tidy.append _ hv.tidy
  · intro name
    rw [Component.render]
    exact ⟨⟨nested_of_plain name.not_isBracket, name.whole (.inl rfl), name.tidy⟩,
      name.whole (.inr rfl)⟩
  · intro name args hargs
    have hinner := nested_inner hargs
    have hclose : Tidy ['>'] := tidy_of_unblank (by simp) (by decide)
    rw [render_applied]
    refine ⟨⟨?_, ?_, ?_⟩, ?_⟩
    · exact (nested_of_plain name.not_isBracket).append (.group hinner .nil)
    · exact (name.whole (.inl rfl)).append (whole_group (by decide) hinner)
    · exact name.tidy.append ('<' :: _) hclose
    · exact (name.whole (.inr rfl)).append (whole_group (by decide) hinner)

end Texts

section Instances

theorem splitOpen_append
    {name : List Char} (after : List Char)
    (h : ∀ c ∈ name, isBracket c = false) :
    splitOpen 0 (name ++ '<' :: after) = some (name, after) := by
  induction name with
  | nil =>
      simp [splitOpen]
  | cons c name ih =>
      have hc := h c (by simp)
      simp only [isBracket, Bool.or_eq_false_iff, beq_eq_false_iff_ne, ne_eq] at hc
      rw [List.cons_append, splitOpen]
      simp [hc, ih fun d hd => h d (List.mem_cons_of_mem c hd)]

/-- A component with arguments is read as it is written. -/
theorem instance?_render
    (name : Identifier) (args : List TypeTree) :
    instance? (Component.applied name args).render = some
      ⟨name.text.toList, joinWith "," (args.map TypeTree.render) ++
        padding (args.map TypeTree.render), [], true⟩ := by
  rw [render_applied, instance?, splitOpen_append _ name.not_isBracket]
  simp only [splitLast_append _ List.not_mem_nil]

theorem arguments_render
    (args : List TypeTree) :
    arguments (joinWith "," (args.map TypeTree.render) ++ padding (args.map TypeTree.render)) =
      args.map TypeTree.render := by
  refine arguments_joinWith ?_ ?_ (padding_cases _)
  · intro a ha
    obtain ⟨t, -, rfl⟩ := List.mem_map.mp ha
    exact (render_argument.1 t).whole
  · intro a ha
    obtain ⟨t, -, rfl⟩ := List.mem_map.mp ha
    exact (render_argument.1 t).tidy

theorem joinWith_ne_nil
    (sep : String) {p : List Char} (parts : List (List Char))
    (h : p ≠ []) :
    joinWith sep (p :: parts) ≠ [] := by
  cases parts with
  | nil =>
      rwa [joinWith_one]
  | cons q parts =>
      simp [joinWith_cons, h]

/-- The end of a joined text is the end of its last part. -/
theorem getLast?_joinWith
    (sep : String) {parts : List (List Char)}
    (h : ∀ p ∈ parts, p ≠ []) :
    (joinWith sep parts).getLast? = parts.getLast?.bind List.getLast? := by
  induction parts with
  | nil =>
      rfl
  | cons p parts ih =>
      cases parts with
      | nil =>
          simp [joinWith_one]
      | cons q parts =>
          have hrest := ih fun r hr => h r (List.mem_cons_of_mem p hr)
          have hne : joinWith sep (q :: parts) ≠ [] :=
            joinWith_ne_nil sep parts (h q (by simp))
          rw [joinWith_cons, ← List.append_assoc, List.getLast?_append_of_ne_nil _ hne, hrest]
          simp

/-- A component with arguments is written as a tree is rendered. -/
theorem writeInstance_render
    (name : Identifier) (args : List TypeTree) :
    writeInstance name.text.toList (args.map TypeTree.render) [] =
      (Component.applied name args).render := by
  have hne : ∀ p ∈ args.map TypeTree.render, p ≠ [] := by
    intro p hp
    obtain ⟨t, -, rfl⟩ := List.mem_map.mp hp
    exact (render_argument.1 t).tidy.ne_nil
  rw [render_applied, writeInstance, padding, getLast?_joinWith "," hne]
  cases hlast : (args.map TypeTree.render).getLast? with
  | none =>
      simp
  | some t =>
      by_cases hclose : t.getLast? = some '>' <;> simp [hclose]

end Instances

section Normalizing

theorem normalizeScopedChars_eq
    (n : Normalizer) (keepAll : Bool) (name : List Char) :
    n.normalizeScopedChars keepAll name =
      joinWith "::" ((pieces .start name).map (n.normalizeChars keepAll)) := by
  rw [Normalizer.normalizeScopedChars, List.map_attach_eq_pmap]
  simp

theorem normalizeChars_of_instance
    (n : Normalizer) (keepAll : Bool) {raw : List Char} {i : Instance}
    (h : instance? (trim raw) = some i) :
    n.normalizeChars keepAll raw = writeInstance i.template
      (n.keptArguments keepAll i.template
        ((arguments i.inner).map (n.normalizeScopedChars keepAll))) i.suffix := by
  rw [Normalizer.normalizeChars]
  split
  · next hnone =>
      rw [h] at hnone
      cases hnone
  · next i' hi =>
      rw [h] at hi
      cases hi
      simp

theorem keptArguments_render
    (n : Normalizer) (keepAll : Bool) (name : Identifier) (args : List TypeTree) :
    n.keptArguments keepAll name.text.toList (args.map TypeTree.render) =
      (n.keptTrees keepAll name args).map TypeTree.render := by
  cases keepAll with
  | true =>
      rfl
  | false =>
      rw [Normalizer.keptArguments, Normalizer.keptTrees, String.ofList_toList]
      cases hparams : n.defaultsOf name.text with
      | none =>
          simp [dropDefaults_nil]
      | some params =>
          simp [elide_render]

theorem mem_builtinForms :
    ∀ s ∈ builtinSpellings, (s, canonicalSpelling s) ∈ builtinForms := by
  decide

theorem normalizeChars_builtinSpelling
    (n : Normalizer) (keepAll : Bool) (b : Builtin) :
    n.normalizeChars keepAll b.spelling.toList = b.canonical.spelling.toList := by
  have hangle : '<' ∉ trim b.spelling.toList := by
    rw [b.argument.tidy.trim_eq]
    intro hmem
    have hchars := (builtinSpellings_clean b.spelling b.known).1 '<' hmem
    simp [isBracket] at hchars
  rw [normalizeChars_eq n keepAll hangle, ← normalizeChars_eq n false hangle]
  exact normalizeChars_builtin n (mem_builtinForms b.spelling b.known)

/-- Normalizing the text of a tree gives the text of its canonical form. -/
theorem normalizeScopedChars_render
    (n : Normalizer) (keepAll : Bool) (t : TypeTree) :
    n.normalizeScopedChars keepAll t.render = (t.canonical n keepAll).render := by
  have hboth :
      (∀ t : TypeTree, n.normalizeScopedChars keepAll t.render = (t.canonical n keepAll).render) ∧
      ∀ c : Component, n.normalizeChars keepAll c.render = (c.canonical n keepAll).render := by
    refine treeAndComponent_induct ?_ ?_ ?_ ?_
    · intro type
      have hpiece : pieces .start type.spelling.toList = [type.spelling.toList] := by
        have hone := @pieces_joinWith [type.spelling.toList] (by simp)
          (by simpa using type.whole (.inr rfl))
        rwa [joinWith_one] at hone
      rw [TypeTree.render, normalizeScopedChars_eq, hpiece, List.map_singleton, joinWith_one,
        normalizeChars_builtinSpelling, TypeTree.canonical, TypeTree.render]
    · intro first rest hfirst hrest
      have hwhole : ∀ p ∈ first.render :: rest.map Component.render, Whole ':' p := by
        intro p hp
        rw [← List.map_cons] at hp
        obtain ⟨c, -, rfl⟩ := List.mem_map.mp hp
        exact (render_argument.2 c).2
      have hmap : (rest.map Component.render).map (n.normalizeChars keepAll) =
          (rest.map fun c => c.canonical n keepAll).map Component.render := by
        rw [List.map_map, List.map_map]
        exact List.map_congr_left hrest
      rw [TypeTree.render, normalizeScopedChars_eq, pieces_joinWith (by simp) hwhole, List.map_cons,
        hfirst, hmap, TypeTree.canonical, TypeTree.render]
    · intro name
      have hangle : '<' ∉ name.text.toList := by
        intro hmem
        exact name.unmarked '<' hmem (by simp)
      rw [Component.canonical, Component.render,
        normalizeChars_eq_self n keepAll name.unblank hangle]
    · intro name args hargs
      have hmap : (args.map TypeTree.render).map (n.normalizeScopedChars keepAll) =
          (args.map fun t => t.canonical n keepAll).map TypeTree.render := by
        rw [List.map_map, List.map_map]
        exact List.map_congr_left hargs
      have htrim := (render_argument.2 (.applied name args)).1.tidy.trim_eq
      have hinstance := instance?_render name args
      rw [← htrim] at hinstance
      rw [normalizeChars_of_instance n keepAll hinstance, arguments_render, hmap,
        keptArguments_render, writeInstance_render, Component.canonical]
  exact hboth.1 t

/-- Normalizing the spelling of a tree is taking its canonical form. Hence it is idempotent, and
keeping all arguments first changes nothing. -/
theorem normalizeScoped_spelling
    (n : Normalizer) (t : TypeTree) :
    (∀ keepAll, n.normalizeScoped keepAll t.spelling = (t.canonical n keepAll).spelling) ∧
    (∀ keepAll, n.normalizeScoped keepAll (n.normalizeScoped keepAll t.spelling) =
      n.normalizeScoped keepAll t.spelling) ∧
    n.normalizeScoped false (n.normalizeScoped true t.spelling) =
      n.normalizeScoped false t.spelling := by
  have hcanonical : ∀ keepAll (t : TypeTree),
      n.normalizeScoped keepAll t.spelling = (t.canonical n keepAll).spelling := by
    intro keepAll t
    rw [Normalizer.normalizeScoped, TypeTree.spelling, String.toList_ofList,
      normalizeScopedChars_render]
    rfl
  refine ⟨fun keepAll => hcanonical keepAll t, ?_, ?_⟩
  · intro keepAll
    rw [hcanonical keepAll t, hcanonical, TypeTree.canonical_canonical, Bool.and_self]
  · rw [hcanonical true t, hcanonical false, hcanonical false t, TypeTree.canonical_canonical,
      Bool.true_and]

end Normalizing

end Template
end TypeCatalog
