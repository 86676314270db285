import TypeCatalog.Proofs.Template.Elision

/-!
# Names behind `const`

**Input.** The text of a type tree, and the same text behind `const`.

**Argument.** The word and its blank go to the front of the first component. They hold no bracket, so
the components and their arguments are found as before, and no synonym begins in them. But the table
is asked for the template by all that stands in front of its argument list, the word included: an
instance at the front of the name keeps the arguments that the table has no defaults for under that
longer text. Every other instance is written as it is without the word.

**Results.**
* `foldSynonyms_const`: no synonym begins in the word.
* `normalizeScopedChars_const`: behind `const`, a name is written as `canonicalAfterConst` says.
* `Component.applied_render_inj`: the text of an instance tells how many of its arguments it keeps.
* `normalizeScoped_const_iff`: the word changes nothing else exactly if the instance at the front
  keeps the same arguments under both texts. Where the table knows no template by a text that begins
  with the word, these are all of them.
-/

namespace TypeCatalog
namespace Template

open Text Name

/-- The arguments that are written where the table is asked for a text. -/
def Normalizer.keptUnder
    (n : Normalizer) (keepAll : Bool) (template : String) (args : List TypeTree) :
    List TypeTree :=
  if keepAll then args else dropDefaults ((n.defaultsOf template).getD []) args

/-- The instance at the front of a name: the template and its arguments. -/
def TypeTree.leadingInstance? :
    TypeTree → Option (Identifier × List TypeTree)
  | .path (.applied name args) _ => some (name, args)
  | .path (.plain _) _ => none
  | .builtin _ => none

/-- The canonical form of a component behind `const`. -/
def Component.canonicalAfterConst
    (n : Normalizer) (keepAll : Bool) :
    Component → Component
  | .plain name => .plain name
  | .applied name args =>
      .applied name (n.keptUnder keepAll ("const " ++ name.text)
        (args.map fun t => t.canonical n keepAll))

/-- The canonical form of a tree behind `const`. -/
def TypeTree.canonicalAfterConst
    (n : Normalizer) (keepAll : Bool) :
    TypeTree → TypeTree
  | .builtin type => .builtin type.canonical
  | .path first rest =>
      .path (first.canonicalAfterConst n keepAll) (rest.map fun c => c.canonical n keepAll)

section Words

theorem joinWith_append_cons
    (sep : String) (w p : List Char) (parts : List (List Char)) :
    joinWith sep ((w ++ p) :: parts) = w ++ joinWith sep (p :: parts) := by
  cases parts with
  | nil =>
      rw [joinWith_one, joinWith_one]
  | cons q parts =>
      rw [joinWith_cons, joinWith_cons, List.append_assoc]

theorem pieces_of_whole
    {p : List Char}
    (h : Whole ':' p) :
    pieces .start p = [p] := by
  have hone := @pieces_joinWith [p] (by simp) (by simpa using h)
  rwa [joinWith_one] at hone

theorem const_not_isBracket :
    ∀ c ∈ "const ".toList, isBracket c = false := by
  decide

theorem whole_const :
    Whole ':' "const ".toList :=
  whole_of_plain const_not_isBracket (by decide)

theorem Tidy.const_append
    {w : List Char}
    (h : Tidy w) :
    Tidy ("const ".toList ++ w) :=
  (tidy_of_unblank (by decide) (by decide) : Tidy "const".toList).append [' '] h

/-- A front part in which the pattern does not begin is kept. -/
theorem replaceAll_append
    {pat front : List Char} (new rest : List Char)
    (h : ∀ u ∈ front.tails, u ≠ [] → ¬ u <+: pat ∧ ¬ pat <+: u) :
    replaceAll pat new (front ++ rest) = front ++ replaceAll pat new rest := by
  induction front with
  | nil =>
      rfl
  | cons c front ih =>
      have hbegin : ¬ pat.isPrefixOf (c :: (front ++ rest)) = true := by
        rw [List.isPrefixOf_iff_prefix]
        intro hpat
        obtain ⟨hlong, hshort⟩ := h (c :: front) (by simp) (by simp)
        rcases List.prefix_or_prefix_of_prefix hpat (List.prefix_append (c :: front) rest) with
          hprefix | hprefix
        · exact hshort hprefix
        · exact hlong hprefix
      have hrest := ih fun u hu => h u (List.mem_cons_of_mem (c :: front) hu)
      rw [List.cons_append, replaceAll, replaceFrom, if_neg hbegin]
      exact congrArg (List.cons c) hrest

/-- No synonym begins in the word. -/
theorem foldSynonyms_const
    (text : List Char) :
    foldSynonyms ("const ".toList ++ text) = "const ".toList ++ foldSynonyms text := by
  have hapart : ∀ p ∈ integerSynonyms ++ complexSynonyms, ∀ u ∈ "const ".toList.tails, u ≠ [] →
      ¬ u <+: p.1.toList ∧ ¬ p.1.toList <+: u := by
    decide
  rw [foldSynonyms, foldSynonyms]
  generalize integerSynonyms ++ complexSynonyms = pairs at hapart
  induction pairs generalizing text with
  | nil =>
      rfl
  | cons p pairs ih =>
      rw [List.foldl_cons, List.foldl_cons, replaceAll_append _ _ (hapart p (by simp))]
      exact ih _ fun p' hp' => hapart p' (List.mem_cons_of_mem p hp')

/-- Where no argument list opens, a text is written behind the word as it is without it. -/
theorem normalizeChars_const_of_plain
    (n : Normalizer) (keepAll : Bool) {w : List Char}
    (hw : Tidy w)
    (hangle : '<' ∉ w) :
    n.normalizeChars keepAll ("const ".toList ++ w) =
      "const ".toList ++ n.normalizeChars keepAll w := by
  have hboth : '<' ∉ "const ".toList ++ w := by
    simpa using hangle
  rw [normalizeChars_eq n keepAll (by rwa [hw.const_append.trim_eq]), hw.const_append.trim_eq,
    foldSynonyms_const, normalizeChars_eq n keepAll (by rwa [hw.trim_eq]), hw.trim_eq]

end Words

section Instances

theorem Normalizer.keptTrees_eq_keptUnder
    (n : Normalizer) (keepAll : Bool) (template : Identifier) (args : List TypeTree) :
    n.keptTrees keepAll template args = n.keptUnder keepAll template.text args :=
  rfl

theorem Normalizer.keptUnder_isPrefix
    (n : Normalizer) (keepAll : Bool) (template : String) (args : List TypeTree) :
    n.keptUnder keepAll template args <+: args := by
  rw [keptUnder]
  split
  · exact List.prefix_rfl
  · exact dropDefaults_isPrefix _ args

theorem Normalizer.keptUnder_of_unknown
    {n : Normalizer} {template : String} (keepAll : Bool) (args : List TypeTree)
    (h : n.defaultsOf template = none) :
    n.keptUnder keepAll template args = args := by
  simp [keptUnder, h, dropDefaults_nil]

theorem keptArguments_eq_keptUnder
    (n : Normalizer) (keepAll : Bool) (template : String) (args : List TypeTree) :
    n.keptArguments keepAll template.toList (args.map TypeTree.render) =
      (n.keptUnder keepAll template args).map TypeTree.render := by
  cases keepAll with
  | true =>
      rfl
  | false =>
      rw [keptArguments_eq_elide, String.ofList_toList, elide_render]
      rfl

/-- The text of an instance tells how many of the arguments of a list it has. -/
theorem Component.applied_render_inj
    {name : Identifier} {args kept kept' : List TypeTree}
    (hkept : kept <+: args)
    (hkept' : kept' <+: args)
    (h : (Component.applied name kept).render = (Component.applied name kept').render) :
    kept = kept' := by
  have hinstance := congrArg instance? h
  rw [instance?_render, instance?_render] at hinstance
  have hinner := congrArg Instance.inner (Option.some.inj hinstance)
  have htexts := congrArg arguments hinner
  simp only [arguments_render] at htexts
  have hlength : kept.length = kept'.length := by
    simpa using congrArg List.length htexts
  rw [List.prefix_iff_eq_take.mp hkept, List.prefix_iff_eq_take.mp hkept', hlength]

theorem normalizeChars_render
    (n : Normalizer) (keepAll : Bool) (c : Component) :
    n.normalizeChars keepAll c.render = (c.canonical n keepAll).render := by
  have hpath := normalizeScopedChars_render n keepAll (.path c [])
  rw [TypeTree.canonical, TypeTree.render, TypeTree.render, List.map_nil, List.map_nil,
    List.map_nil, joinWith_one, joinWith_one, normalizeScopedChars_eq,
    pieces_of_whole (render_argument.2 c).2, List.map_singleton, joinWith_one] at hpath
  exact hpath

/-- Behind `const`, an instance is read with the word as a part of the template's text. -/
theorem instance?_const_render
    (name : Identifier) (args : List TypeTree) :
    instance? ("const ".toList ++ (Component.applied name args).render) = some
      ⟨"const ".toList ++ name.text.toList, joinWith "," (args.map TypeTree.render) ++
        padding (args.map TypeTree.render), [], true⟩ := by
  have hname : ∀ c ∈ "const ".toList ++ name.text.toList, isBracket c = false := by
    intro c hc
    rcases List.mem_append.mp hc with hc | hc
    · exact const_not_isBracket c hc
    · exact name.not_isBracket c hc
  rw [render_applied, ← List.append_assoc, instance?, splitOpen_append _ hname]
  simp only [splitLast_append _ List.not_mem_nil]

theorem writeInstance_append
    (w template : List Char) (args : List (List Char)) (suffix : List Char) :
    writeInstance (w ++ template) args suffix = w ++ writeInstance template args suffix := by
  simp [writeInstance]

theorem normalizeChars_const
    (n : Normalizer) (keepAll : Bool) (c : Component) :
    n.normalizeChars keepAll ("const ".toList ++ c.render) =
      "const ".toList ++ (c.canonicalAfterConst n keepAll).render := by
  have htidy := (render_argument.2 c).1.tidy
  cases c with
  | plain name =>
      have hangle : '<' ∉ (Component.plain name).render := by
        rw [Component.render]
        exact fun hmem => name.unmarked '<' hmem (by simp)
      rw [normalizeChars_const_of_plain n keepAll htidy hangle, normalizeChars_render,
        Component.canonical, Component.canonicalAfterConst]
  | applied name args =>
      have hinstance := instance?_const_render name args
      rw [← htidy.const_append.trim_eq] at hinstance
      have hmap : (args.map TypeTree.render).map (n.normalizeScopedChars keepAll) =
          (args.map fun t => t.canonical n keepAll).map TypeTree.render := by
        rw [List.map_map, List.map_map]
        exact List.map_congr_left fun t _ => normalizeScopedChars_render n keepAll t
      have htext : "const ".toList ++ name.text.toList = ("const " ++ name.text).toList := by
        simp
      rw [normalizeChars_of_instance n keepAll hinstance, arguments_render, hmap, htext,
        keptArguments_eq_keptUnder, ← htext, writeInstance_append, writeInstance_render,
        Component.canonicalAfterConst]

end Instances

section Names

/-- Behind `const`, a name is written as its canonical form there. -/
theorem normalizeScopedChars_const
    (n : Normalizer) (keepAll : Bool) (t : TypeTree) :
    n.normalizeScopedChars keepAll ("const ".toList ++ t.render) =
      "const ".toList ++ (t.canonicalAfterConst n keepAll).render := by
  cases t with
  | builtin type =>
      have hwhole : Whole ':' ("const ".toList ++ type.spelling.toList) :=
        whole_const.append (type.whole (.inr rfl))
      have hangle : '<' ∉ type.spelling.toList := by
        intro hmem
        have hchars := (builtinSpellings_clean type.spelling type.known).1 '<' hmem
        simp [isBracket] at hchars
      rw [TypeTree.render, normalizeScopedChars_eq, pieces_of_whole hwhole, List.map_singleton,
        joinWith_one, normalizeChars_const_of_plain n keepAll type.argument.tidy hangle,
        normalizeChars_builtinSpelling, TypeTree.canonicalAfterConst, TypeTree.render]
  | path first rest =>
      have hwhole : ∀ p ∈ ("const ".toList ++ first.render) :: rest.map Component.render,
          Whole ':' p := by
        intro p hp
        rcases List.mem_cons.mp hp with rfl | hp
        · exact whole_const.append (render_argument.2 first).2
        · obtain ⟨c, -, rfl⟩ := List.mem_map.mp hp
          exact (render_argument.2 c).2
      have hmap : (rest.map Component.render).map (n.normalizeChars keepAll) =
          (rest.map fun c => c.canonical n keepAll).map Component.render := by
        rw [List.map_map, List.map_map]
        exact List.map_congr_left fun c _ => normalizeChars_render n keepAll c
      rw [TypeTree.render, ← joinWith_append_cons, normalizeScopedChars_eq,
        pieces_joinWith (by simp) hwhole, List.map_cons, normalizeChars_const, hmap,
        joinWith_append_cons, TypeTree.canonicalAfterConst, TypeTree.render]

theorem toList_const_spelling
    (t : TypeTree) :
    ("const " ++ t.spelling).toList = "const ".toList ++ t.render := by
  simp [TypeTree.spelling]

/-- The canonical forms with and without `const` have one text exactly if the instance at the front
keeps the same arguments in both. -/
theorem canonicalAfterConst_render_iff
    (n : Normalizer) (keepAll : Bool) (t : TypeTree) :
    (t.canonicalAfterConst n keepAll).render = (t.canonical n keepAll).render ↔
      ∀ name args, t.leadingInstance? = some (name, args) →
        n.keptUnder keepAll ("const " ++ name.text) (args.map fun t => t.canonical n keepAll) =
          n.keptUnder keepAll name.text (args.map fun t => t.canonical n keepAll) := by
  match t with
  | .builtin type =>
      simp [TypeTree.canonicalAfterConst, TypeTree.canonical, TypeTree.leadingInstance?]
  | .path (.plain name) rest =>
      simp [TypeTree.canonicalAfterConst, TypeTree.canonical, TypeTree.leadingInstance?,
        Component.canonicalAfterConst, Component.canonical]
  | .path (.applied name args) rest =>
      constructor
      · intro h name' args' hleading
        obtain ⟨rfl, rfl⟩ : name = name' ∧ args = args' := by
          simpa [TypeTree.leadingInstance?] using hleading
        rw [TypeTree.canonicalAfterConst, TypeTree.canonical, TypeTree.render,
          TypeTree.render] at h
        -- The components of a text are known, the first one among them.
        have hwhole : ∀ first : Component, ∀ p ∈ first.render :: (rest.map fun c =>
            c.canonical n keepAll).map Component.render, Whole ':' p := by
          intro first p hp
          rw [← List.map_cons] at hp
          obtain ⟨c, -, rfl⟩ := List.mem_map.mp hp
          exact (render_argument.2 c).2
        have hpieces := congrArg (pieces .start) h
        rw [pieces_joinWith (by simp) (hwhole _), pieces_joinWith (by simp) (hwhole _)] at hpieces
        have hfirst := (List.cons.inj hpieces).1
        rw [Component.canonicalAfterConst, Component.canonical] at hfirst
        exact Component.applied_render_inj (n.keptUnder_isPrefix keepAll _ _)
          (n.keptUnder_isPrefix keepAll _ _) hfirst
      · intro h
        have hkept := h name args rfl
        rw [TypeTree.canonicalAfterConst, TypeTree.canonical, Component.canonicalAfterConst,
          Component.canonical, hkept, Normalizer.keptTrees_eq_keptUnder]

end Names

/-- Behind `const`, a name is written as its canonical form there. This is `const` in front of what
is written for the name alone exactly if the instance at the front of the name keeps the same
arguments under both texts that the table is asked for. Where the table knows no template by a text
that begins with `const`, it is so exactly if no argument of that instance is dropped. -/
theorem normalizeScoped_const_iff
    (n : Normalizer) (keepAll : Bool) (t : TypeTree) :
    n.normalizeScoped keepAll ("const " ++ t.spelling) =
        "const " ++ (t.canonicalAfterConst n keepAll).spelling ∧
      (n.normalizeScoped keepAll ("const " ++ t.spelling) =
          "const " ++ n.normalizeScoped keepAll t.spelling ↔
        ∀ name args, t.leadingInstance? = some (name, args) →
          n.keptUnder keepAll ("const " ++ name.text) (args.map fun t => t.canonical n keepAll) =
            n.keptUnder keepAll name.text (args.map fun t => t.canonical n keepAll)) ∧
      ((∀ template, n.defaultsOf ("const " ++ template) = none) →
        (n.normalizeScoped keepAll ("const " ++ t.spelling) =
            "const " ++ n.normalizeScoped keepAll t.spelling ↔
          ∀ name args, t.leadingInstance? = some (name, args) →
            n.keptUnder keepAll name.text (args.map fun t => t.canonical n keepAll) =
              args.map fun t => t.canonical n keepAll)) := by
  have hwritten : n.normalizeScoped keepAll ("const " ++ t.spelling) =
      "const " ++ (t.canonicalAfterConst n keepAll).spelling := by
    rw [Normalizer.normalizeScoped, toList_const_spelling, normalizeScopedChars_const,
      ← toList_const_spelling, String.ofList_toList]
  have hiff : n.normalizeScoped keepAll ("const " ++ t.spelling) =
      "const " ++ n.normalizeScoped keepAll t.spelling ↔
        ∀ name args, t.leadingInstance? = some (name, args) →
          n.keptUnder keepAll ("const " ++ name.text) (args.map fun t => t.canonical n keepAll) =
            n.keptUnder keepAll name.text (args.map fun t => t.canonical n keepAll) := by
    have halone : n.normalizeScoped keepAll t.spelling = (t.canonical n keepAll).spelling := by
      rw [Normalizer.normalizeScoped, TypeTree.spelling, String.toList_ofList,
        normalizeScopedChars_render, TypeTree.spelling]
    rw [hwritten, halone, ← canonicalAfterConst_render_iff, ← String.toList_inj,
      toList_const_spelling, toList_const_spelling]
    exact List.append_right_inj "const ".toList
  refine ⟨hwritten, hiff, fun hunknown => ?_⟩
  rw [hiff]
  refine forall_congr' fun name => forall_congr' fun args => imp_congr_right fun _ => ?_
  rw [Normalizer.keptUnder_of_unknown keepAll _ (hunknown name.text)]
  exact eq_comm

section Cases

/-- The type `int`. -/
def intTree :
    TypeTree :=
  .builtin ⟨"int", by decide⟩

/-- The namespace `std`. -/
def stdSpace :
    Component :=
  .plain ⟨"std", by decide, by decide, by decide⟩

/-- The instance `vector<int,std::allocator<int> >`. -/
def vectorInstance :
    Component :=
  .applied ⟨"vector", by decide, by decide, by decide⟩ [intTree,
    .path stdSpace [.applied ⟨"allocator", by decide, by decide, by decide⟩ [intTree]]]

theorem render_vectorInstance :
    vectorInstance.render = "vector<int,std::allocator<int> >".toList := by
  simp [vectorInstance, intTree, stdSpace, Component.render, TypeTree.render, joinWith,
    List.intercalate, List.intersperse]

/-- The arguments of a vector, as they are normalized for any text in front of them. -/
theorem normalizeChars_vector
    {template : List Char}
    (h : instance? (trim (template ++ "<int,std::allocator<int> >".toList)) =
      some ⟨template, "int,std::allocator<int> ".toList, [], true⟩) :
    Normalizer.standard.normalizeChars false (template ++ "<int,std::allocator<int> >".toList) =
      writeInstance template (Normalizer.standard.keptArguments false template
        ["int".toList, "std::allocator<int>".toList]) [] := by
  have hargs : arguments "int,std::allocator<int> ".toList =
      ["int".toList, "std::allocator<int>".toList ++ []] := by
    decide
  have hint : Normalizer.standard.normalizeScopedChars false "int".toList = "int".toList :=
    normalizeScopedChars_eq_self _ _ (by decide) (by decide)
  rw [normalizeChars_of_instance _ _ h, hargs, List.map_cons, List.map_singleton, hint,
    normalizeScopedChars_allocator (.inl rfl), List.append_nil]

/-- The standard table knows no template by a text that begins with `const`. -/
theorem standard_defaultsOf_const
    (template : String) :
    Normalizer.standard.defaultsOf ("const " ++ template) = none := by
  have hkeys : ∀ p ∈ Normalizer.standard.defaults, p.1.toList.head? ≠ some 'c' := by
    decide
  rw [Normalizer.defaultsOf, List.lookup_eq_none_iff]
  intro p hp
  have hne : "const " ++ template ≠ p.1 := by
    intro heq
    exact hkeys p hp (by simp [← heq])
  simpa using hne

/-- Behind `const`, a vector of the namespace is written without its allocator. -/
theorem normalizeScoped_const_qualified :
    (∀ template, Normalizer.standard.defaultsOf ("const " ++ template) = none) ∧
      (TypeTree.path stdSpace [vectorInstance]).leadingInstance? = none ∧
      (TypeTree.path stdSpace [vectorInstance]).spelling =
        "std::vector<int,std::allocator<int> >" ∧
      Normalizer.standard.normalizeScoped false "const std::vector<int,std::allocator<int> >" =
        "const std::vector<int>" := by
  have hspelling : (TypeTree.path stdSpace [vectorInstance]).spelling =
      "std::vector<int,std::allocator<int> >" := by
    rw [TypeTree.spelling, TypeTree.render, List.map_singleton, render_vectorInstance, stdSpace,
      Component.render]
    rfl
  have hpieces : pieces .start "std::vector<int,std::allocator<int> >".toList =
      ["std".toList, "vector".toList ++ "<int,std::allocator<int> >".toList] := by
    decide
  have hstd : Normalizer.standard.normalizeChars false "std".toList = "std".toList :=
    normalizeChars_eq_self _ _ (by decide) (by decide)
  have halone : Normalizer.standard.normalizeScoped false "std::vector<int,std::allocator<int> >" =
      "std::vector<int>" := by
    rw [Normalizer.normalizeScoped, normalizeScopedChars_eq, hpieces, List.map_cons,
      List.map_singleton, hstd, normalizeChars_vector rfl]
    rfl
  have hsame := ((normalizeScoped_const_iff .standard false (.path stdSpace [vectorInstance])).2.2
    standard_defaultsOf_const).mpr (by
      intro name args hleading
      cases hleading)
  rw [hspelling, halone] at hsame
  exact ⟨standard_defaultsOf_const, rfl, hspelling, hsame⟩

/-- Behind `const`, a vector without its namespace keeps its allocator. -/
theorem normalizeScoped_const_unqualified :
    (TypeTree.path vectorInstance []).spelling = "vector<int,std::allocator<int> >" ∧
      Normalizer.standard.normalizeScoped false "const vector<int,std::allocator<int> >" =
        "const vector<int,std::allocator<int> >" ∧
      "const " ++ Normalizer.standard.normalizeScoped false "vector<int,std::allocator<int> >" =
        "const vector<int>" := by
  have hpieces : ∀ template ∈ ["vector".toList, "const vector".toList],
      pieces .start (template ++ "<int,std::allocator<int> >".toList) =
        [template ++ "<int,std::allocator<int> >".toList] := by
    decide
  have hspelling : (TypeTree.path vectorInstance []).spelling =
      "vector<int,std::allocator<int> >" := by
    rw [TypeTree.spelling, TypeTree.render, List.map_nil, render_vectorInstance, joinWith_one,
      String.ofList_toList]
  have hconst : Normalizer.standard.normalizeScopedChars false
      ("const vector".toList ++ "<int,std::allocator<int> >".toList) =
        "const vector<int,std::allocator<int> >".toList := by
    rw [normalizeScopedChars_eq, hpieces _ (by simp), List.map_singleton, joinWith_one,
      normalizeChars_vector rfl]
    rfl
  have halone : Normalizer.standard.normalizeScopedChars false
      ("vector".toList ++ "<int,std::allocator<int> >".toList) = "vector<int>".toList := by
    rw [normalizeScopedChars_eq, hpieces _ (by simp), List.map_singleton, joinWith_one,
      normalizeChars_vector rfl]
    rfl
  exact ⟨hspelling, congrArg String.ofList hconst,
    congrArg (fun text => "const " ++ String.ofList text) halone⟩

end Cases

end Template
end TypeCatalog
