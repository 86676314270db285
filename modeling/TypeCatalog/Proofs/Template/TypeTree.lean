import TypeCatalog.Scope
import TypeCatalog.Template.Normalizer
import Mathlib.Data.List.DropRight

/-!
# Type trees

**Types.** A type tree is a builtin type or a scoped name. A component of a scoped name is an
identifier, with or without a list of argument trees.

**Rules.** `render` writes a tree. `canonical` replaces every builtin spelling by its canonical form
and, unless all arguments are to be kept, drops the arguments at the end of every argument list that
the matchers at their positions accept.

**Results.**
* `TypeTree.induct`: induction over a tree and all trees in it.
* `TypeTree.canonical_canonical`: canonical forms taken one after the other are one canonical form,
  in which arguments are kept if both keep them.
-/

namespace TypeCatalog
namespace Template

open Text

/-- A name without blanks, brackets, commas and colons. -/
structure Identifier where
  text : String
  ne_nil : text.toList ≠ []
  unblank : ∀ c ∈ text.toList, isBlank c = false
  unmarked : ∀ c ∈ text.toList, c ∉ ['<', '>', '(', ')', ',', ':']

/-- The spellings of the builtin types: both sides of the synonym tables, and the types of the
builtin environment. -/
def builtinSpellings :
    List String :=
  (integerSynonyms ++ complexSynonyms).map Prod.fst ++
    (integerSynonyms ++ complexSynonyms).map Prod.snd ++ Scope.builtinTypes

/-- The form that the synonym tables give to a spelling; other spellings are kept. -/
def canonicalSpelling
    (spelling : String) :
    String :=
  ((integerSynonyms ++ complexSynonyms).lookup spelling).getD spelling

/-- A builtin type in one of its spellings. -/
structure Builtin where
  spelling : String
  known : spelling ∈ builtinSpellings

theorem canonicalSpelling_known :
    ∀ s ∈ builtinSpellings, canonicalSpelling s ∈ builtinSpellings := by
  decide

theorem canonicalSpelling_idem :
    ∀ s ∈ builtinSpellings, canonicalSpelling (canonicalSpelling s) = canonicalSpelling s := by
  decide

/-- The builtin type in its canonical spelling. -/
def Builtin.canonical
    (b : Builtin) :
    Builtin :=
  ⟨canonicalSpelling b.spelling, canonicalSpelling_known b.spelling b.known⟩

mutual

/-- A type as it is written in a template argument list. -/
inductive TypeTree where
  | builtin (type : Builtin)
  | path (first : Component) (rest : List Component)

/-- One component of a scoped name. -/
inductive Component where
  | plain (name : Identifier)
  | applied (name : Identifier) (args : List TypeTree)

end

mutual

/-- The text of a tree. -/
def TypeTree.render :
    TypeTree → List Char
  | .builtin type => type.spelling.toList
  | .path first rest => joinWith "::" (first.render :: rest.map Component.render)

/-- The text of a component. A list whose last argument ends in a bracket is closed after a
blank. -/
def Component.render :
    Component → List Char
  | .plain name => name.text.toList
  | .applied name args =>
      let texts := args.map TypeTree.render
      let closing := if texts.getLast?.any (fun t => t.getLast? == some '>') then " >" else ">"
      name.text.toList ++ "<".toList ++ joinWith "," texts ++ closing.toList

end

/-- The text of a tree as a string. -/
def TypeTree.spelling
    (t : TypeTree) :
    String :=
  String.ofList t.render

/-- The argument at a position is accepted by the matcher at that position. -/
def isDefault
    (params : List DefaultArg) (arg : TypeTree × Nat) :
    Bool :=
  params[arg.2]?.any fun p => p.accepts arg.1.render

/-- Drops arguments from the end while they are accepted by the matchers at their positions. -/
def dropDefaults
    (params : List DefaultArg) (args : List TypeTree) :
    List TypeTree :=
  (args.zipIdx.rdropWhile (isDefault params)).map Prod.fst

/-- The arguments of a component that are written. -/
def Normalizer.keptTrees
    (n : Normalizer) (keepAll : Bool) (template : Identifier) (args : List TypeTree) :
    List TypeTree :=
  if keepAll then args else dropDefaults ((n.defaultsOf template.text).getD []) args

mutual

/-- The canonical form of a tree. -/
def TypeTree.canonical
    (n : Normalizer) (keepAll : Bool) :
    TypeTree → TypeTree
  | .builtin type => .builtin type.canonical
  | .path first rest =>
      .path (first.canonical n keepAll) (rest.map fun c => c.canonical n keepAll)

/-- The canonical form of a component. -/
def Component.canonical
    (n : Normalizer) (keepAll : Bool) :
    Component → Component
  | .plain name => .plain name
  | .applied name args =>
      .applied name (n.keptTrees keepAll name (args.map fun t => t.canonical n keepAll))

end

section Induction

/-- Induction over trees and components together. -/
theorem treeAndComponent_induct
    {P : TypeTree → Prop} {Q : Component → Prop}
    (builtin : ∀ type, P (.builtin type))
    (path : ∀ first rest, Q first → (∀ c ∈ rest, Q c) → P (.path first rest))
    (plain : ∀ name, Q (.plain name))
    (applied : ∀ name args, (∀ t ∈ args, P t) → Q (.applied name args)) :
    (∀ t, P t) ∧ ∀ c, Q c := by
  have hcomponent : ∀ c cs, Q c → (∀ c' ∈ cs, Q c') → ∀ c' ∈ c :: cs, Q c' := by
    intro c cs hc hcs
    simpa using ⟨hc, hcs⟩
  have htree : ∀ t ts, P t → (∀ t' ∈ ts, P t') → ∀ t' ∈ t :: ts, P t' := by
    intro t ts ht hts
    simpa using ⟨ht, hts⟩
  exact ⟨@TypeTree.rec P Q (fun cs => ∀ c ∈ cs, Q c) (fun ts => ∀ t ∈ ts, P t) builtin path plain
      applied (by simp) hcomponent (by simp) htree,
    @Component.rec P Q (fun cs => ∀ c ∈ cs, Q c) (fun ts => ∀ t ∈ ts, P t) builtin path plain
      applied (by simp) hcomponent (by simp) htree⟩

end Induction

section Defaults

/-- Whether the first element is dropped depends on whether all others are. -/
theorem rdropWhile_cons
    {α : Type} (p : α → Bool) (a : α) (l : List α) :
    (a :: l).rdropWhile p =
      if (l.rdropWhile p).isEmpty && p a then [] else a :: l.rdropWhile p := by
  rw [List.rdropWhile, List.reverse_cons, List.dropWhile_append, List.rdropWhile]
  cases hrest : l.reverse.dropWhile p with
  | nil =>
      cases hp : p a <;> simp [hp]
  | cons b rest =>
      simp

/-- The texts that are left of an argument list are the texts of the trees that are left. -/
theorem elide_render
    (params : List DefaultArg) (args : List TypeTree) :
    elide params (args.map TypeTree.render) = (dropDefaults params args).map TypeTree.render := by
  -- The matchers in front have been used up, and the positions count from their number.
  have hfrom : ∀ k, elide (params.drop k) (args.map TypeTree.render) =
      ((args.zipIdx k).rdropWhile (isDefault params)).map fun p => p.1.render := by
    induction args with
    | nil =>
        intro k
        rfl
    | cons arg args ih =>
        intro k
        have hhead : ((params.drop k).head?.any fun p => p.accepts arg.render) =
            isDefault params (arg, k) := by
          rw [List.head?_drop]
          rfl
        rw [List.map_cons, elide, List.tail_drop, ih, hhead, List.zipIdx_cons, rdropWhile_cons]
        simp only [List.isEmpty_map]
        split <;> rfl
  have hstart := hfrom 0
  rw [List.drop_zero] at hstart
  rw [hstart, dropDefaults, List.map_map]
  rfl

theorem dropDefaults_nil
    (args : List TypeTree) :
    dropDefaults [] args = args := by
  have hkeep : args.zipIdx.rdropWhile (isDefault []) = args.zipIdx := by
    rw [List.rdropWhile_eq_self_iff]
    intro _
    simp [isDefault]
  rw [dropDefaults, hkeep]
  simp

theorem dropDefaults_isPrefix
    (params : List DefaultArg) (args : List TypeTree) :
    dropDefaults params args <+: args := by
  have hkept := List.rdropWhile_prefix (isDefault params) args.zipIdx
  simpa [dropDefaults] using hkept.map Prod.fst

/-- After defaults are dropped, the last argument is none. -/
theorem dropDefaults_idem
    (params : List DefaultArg) (args : List TypeTree) :
    dropDefaults params (dropDefaults params args) = dropDefaults params args := by
  have hpositions : (dropDefaults params args).zipIdx =
      args.zipIdx.rdropWhile (isDefault params) := by
    obtain ⟨dropped, hargs⟩ := dropDefaults_isPrefix params args
    obtain ⟨rest, hzip⟩ := List.rdropWhile_prefix (isDefault params) args.zipIdx
    have hsame : (dropDefaults params args ++ dropped).zipIdx =
        args.zipIdx.rdropWhile (isDefault params) ++ rest := by
      rw [hargs, hzip]
    rw [List.zipIdx_append] at hsame
    exact List.append_inj_left hsame (by simp [dropDefaults])
  rw [dropDefaults, hpositions, List.rdropWhile_idempotent]
  rfl

theorem Normalizer.mem_keptTrees
    {n : Normalizer} {keepAll : Bool} {template : Identifier} {args : List TypeTree} {t : TypeTree}
    (h : t ∈ n.keptTrees keepAll template args) :
    t ∈ args := by
  cases keepAll with
  | true =>
      exact h
  | false =>
      exact (dropDefaults_isPrefix _ args).subset h

theorem Normalizer.keptTrees_keptTrees
    (n : Normalizer) (k k' : Bool) (template : Identifier) (args : List TypeTree) :
    n.keptTrees k' template (n.keptTrees k template args) =
      n.keptTrees (k && k') template args := by
  cases k <;> cases k' <;> simp [keptTrees, dropDefaults_idem]

end Defaults

section Canonical

theorem Builtin.canonical_canonical
    (b : Builtin) :
    b.canonical.canonical = b.canonical := by
  simp [canonical, canonicalSpelling_idem b.spelling b.known]

/-- Canonical forms taken one after the other are one canonical form. -/
theorem TypeTree.canonical_canonical
    (n : Normalizer) (k k' : Bool) (t : TypeTree) :
    (t.canonical n k).canonical n k' = t.canonical n (k && k') := by
  have hboth : (∀ t : TypeTree, (t.canonical n k).canonical n k' = t.canonical n (k && k')) ∧
      ∀ c : Component, (c.canonical n k).canonical n k' = c.canonical n (k && k') := by
    refine treeAndComponent_induct ?_ ?_ ?_ ?_
    · intro type
      simp only [TypeTree.canonical, Builtin.canonical_canonical]
    · intro first rest hfirst hrest
      simp only [TypeTree.canonical, hfirst, List.map_map]
      congr 1
      exact List.map_congr_left hrest
    · intro name
      simp only [Component.canonical]
    · intro name args hargs
      simp only [Component.canonical]
      congr 1
      cases k with
      | true =>
          have hmap : (args.map fun t => (t.canonical n true).canonical n k') =
              args.map fun t => t.canonical n k' := List.map_congr_left hargs
          have hall : n.keptTrees true name (args.map fun t => t.canonical n true) =
              args.map fun t => t.canonical n true := rfl
          rw [hall, List.map_map, Bool.true_and]
          exact congrArg (n.keptTrees k' name) hmap
      | false =>
          -- What is left is canonical already.
          have hfixed : ∀ t ∈ n.keptTrees false name (args.map fun t => t.canonical n false),
              t.canonical n k' = t := by
            intro t ht
            obtain ⟨arg, harg, rfl⟩ := List.mem_map.mp (Normalizer.mem_keptTrees ht)
            exact hargs arg harg
          rw [List.map_congr_left hfixed, List.map_id', Normalizer.keptTrees_keptTrees,
            Bool.false_and]
  exact hboth.1 t

end Canonical

end Template
end TypeCatalog
