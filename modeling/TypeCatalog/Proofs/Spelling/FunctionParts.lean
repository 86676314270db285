import TypeCatalog.Proofs.Spelling.Distinctness
import TypeCatalog.Proofs.Template.Scanning
import TypeCatalog.Registration.Members

/-!
# The parts of a function type and its spelling

**Input.** The parts of a function type: the spellings of its result and arguments, whether other
arguments may follow and, for a method, its class and qualifiers.

**Rule.** The result of a function type may be spelled in any way. Its last group of parentheses
holds the arguments, and the group before that one the class. Commas between arguments are those
outside of parentheses and template brackets. No arguments are written as `void`, and `restrict` is
not written.

**Results.**
* `joinWith_injective_of_whole`: the items of a list are found again.
* `eq_of_spelling_eq`: the parts are found again, but for what is not written.
* `type_eq_iff_of_spelling_eq`: function types of one spelling differ in what is not written only.
-/

namespace TypeCatalog

open Text Spelling

section Lists

open Template Name

/-- What an argument may be spelled like to be found again in a list: its parentheses and template
brackets match, no comma stands outside of them, and it is not the ellipsis. -/
structure LegibleArgument
    (a : List Char) :
    Prop where
  balanced : Balanced a
  whole : Whole ',' a
  ne_ellipsis : a ≠ "...".toList

/-- A list is cut where its items were joined; the blank after a comma stays with the next item. -/
theorem cutCommas_joinWith_blank
    {x : List Char} {xs : List (List Char)}
    (h : ∀ y ∈ x :: xs, Whole ',' y) :
    cutCommas .start (joinWith ", " (x :: xs)) = x :: xs.map (' ' :: ·) := by
  induction xs generalizing x with
  | nil =>
      have hx := h x (by simp)
      have hscan := cutCommas_append [] hx.quiet
      rw [List.append_nil, hx.run] at hscan
      rw [joinWith_one, hscan]
      simp [cutCommas, prependHead]
  | cons y ys ih =>
      have hx := h x (by simp)
      have hrest := ih fun z hz => h z (List.mem_cons_of_mem x hz)
      have hcut : cutCommas .start (", ".toList ++ joinWith ", " (y :: ys)) =
          [] :: consHead ' ' (cutCommas .start (joinWith ", " (y :: ys))) := rfl
      rw [joinWith_cons, cutCommas_append _ hx.quiet, hx.run, hcut, hrest]
      simp [prependHead, consHead]

/-- Items without a comma outside of brackets are determined by the list that they are joined to. -/
theorem joinWith_injective_of_whole
    {xs ys : List (List Char)}
    (hxs : ∀ x ∈ xs, Whole ',' x)
    (hys : ∀ y ∈ ys, Whole ',' y)
    (hx : xs ≠ [])
    (hy : ys ≠ [])
    (h : joinWith ", " xs = joinWith ", " ys) :
    xs = ys := by
  obtain ⟨x, xs, rfl⟩ := List.exists_cons_of_ne_nil hx
  obtain ⟨y, ys, rfl⟩ := List.exists_cons_of_ne_nil hy
  have hcut := congrArg (cutCommas .start) h
  rw [cutCommas_joinWith_blank hxs, cutCommas_joinWith_blank hys] at hcut
  obtain ⟨rfl, hrest⟩ := List.cons.inj hcut
  have hinj : Function.Injective fun z : List Char => ' ' :: z :=
    fun _ _ hz => (List.cons.inj hz).2
  rw [List.map_injective_iff.mpr hinj hrest]

end Lists

namespace TypeTerm

theorem withEllipsis_eq_nil_iff
    {args : List (List Char)} {ellipsis : Bool} :
    withEllipsis args ellipsis = [] ↔ args = [] ∧ ellipsis = false := by
  cases ellipsis <;> simp [withEllipsis]

theorem whole_withEllipsis
    {args : List (List Char)} (ellipsis : Bool)
    (h : ∀ a ∈ args, LegibleArgument a) :
    ∀ a ∈ withEllipsis args ellipsis, Template.Whole ',' a := by
  intro a ha
  cases ellipsis with
  | false =>
      exact (h a ha).whole
  | true =>
      rcases List.mem_append.mp ha with ha | ha
      · exact (h a ha).whole
      · rw [List.mem_singleton.mp ha]
        exact Template.whole_of_plain (by decide) (by decide)

theorem balanced_argumentText_of_legible
    {args : List (List Char)} (ellipsis : Bool)
    (h : ∀ a ∈ args, LegibleArgument a) :
    Balanced (argumentText args ellipsis) := by
  rw [argumentText]
  split
  · rfl
  · refine balanced_joinWith fun a ha => ?_
    cases ellipsis with
    | false =>
        exact (h a ha).balanced
    | true =>
        rcases List.mem_append.mp ha with ha | ha
        · exact (h a ha).balanced
        · rw [List.mem_singleton.mp ha]
          rfl

/-- Arguments are determined by their list and their number, which tells no arguments from one
argument `void`. -/
theorem argumentText_injective_of_length
    {args args' : List (List Char)} {ellipsis ellipsis' : Bool}
    (hargs : ∀ a ∈ args, LegibleArgument a)
    (hargs' : ∀ a ∈ args', LegibleArgument a)
    (hlength : args.length = args'.length)
    (h : argumentText args ellipsis = argumentText args' ellipsis') :
    args = args' ∧ ellipsis = ellipsis' := by
  have hempty : ∀ b b' : Bool, argumentText [] b = argumentText [] b' → b = b' := by
    decide
  by_cases hnil : args = []
  · obtain rfl : args' = [] := by simpa [hnil] using hlength.symm
    subst hnil
    exact ⟨rfl, hempty ellipsis ellipsis' h⟩
  · have hnil' : args' ≠ [] := by
      rintro rfl
      exact hnil (List.length_eq_zero_iff.mp hlength)
    have hne : withEllipsis args ellipsis ≠ [] := fun heq => hnil (withEllipsis_eq_nil_iff.mp heq).1
    have hne' : withEllipsis args' ellipsis' ≠ [] := fun heq =>
      hnil' (withEllipsis_eq_nil_iff.mp heq).1
    rw [argumentText, argumentText, if_neg hne, if_neg hne'] at h
    refine withEllipsis_injective (fun a ha => (hargs a ha).ne_ellipsis)
      (fun a ha => (hargs' a ha).ne_ellipsis) ?_
    exact joinWith_injective_of_whole (whole_withEllipsis ellipsis hargs)
      (whole_withEllipsis ellipsis' hargs') hne hne' h

end TypeTerm

/-- The class of a method and its qualifiers. -/
structure MethodPart where
  cls : String
  isConst : Bool
  isVolatile : Bool
  isRestrict : Bool

/-- The class, and the qualifiers that an element states. -/
def MethodPart.ofElement
    (cls : String) (e : Element) :
    MethodPart :=
  ⟨cls, e.flag "const", e.flag "volatile", e.flag "restrict"⟩

/-- The qualifiers of a method as a set. -/
def MethodPart.qualifiers
    (m : MethodPart) :
    Qualifiers :=
  ((Qualifiers.when m.isConst .const).union (.when m.isVolatile .volatile)).union
    (.when m.isRestrict .restrict)

/-- The parts of a function type; a method has a class and qualifiers. -/
structure FunctionParts where
  result : String
  args : List String
  ellipsis : Bool
  method : Option MethodPart

namespace FunctionParts

/-- The spelling of the type. -/
def spelling
    (p : FunctionParts) :
    String :=
  match p.method with
  | none => functionSpelling p.result (argumentList p.args p.ellipsis)
  | some m => methodSpelling p.result m.cls (argumentList p.args p.ellipsis) m.isConst m.isVolatile

/-- The prototype of the type. -/
def proto
    (p : FunctionParts) :
    Prototype :=
  ⟨p.args.map fun a => ⟨"", .named a, false⟩, .named p.result, p.ellipsis⟩

/-- The type. -/
def type
    (p : FunctionParts) :
    DataType :=
  match p.method with
  | none => .function p.spelling p.proto
  | some m => methodType p.spelling p.proto m.qualifiers

/-- Whether the type is that of a method with the qualifier `restrict`. -/
def isRestrict
    (p : FunctionParts) :
    Bool :=
  p.method.any (·.isRestrict)

/-- The arguments can be found again, and the parentheses of the class match. -/
structure Legible
    (p : FunctionParts) :
    Prop where
  args : ∀ a ∈ p.args, LegibleArgument a.toList
  cls : ∀ m ∈ p.method, Balanced m.cls.toList

/-- What the group before the arguments holds. -/
def group
    (p : FunctionParts) :
    List Char :=
  p.method.elim [] fun m => m.cls.toList ++ [':', ':']

section Text

variable {p q : FunctionParts}

theorem toList_spelling
    (p : FunctionParts) :
    p.spelling.toList =
      TypeTerm.box p.result.toList p.group
        (TypeTerm.callText (TypeTerm.argumentText (p.args.map String.toList) p.ellipsis)
          (p.method.any (·.isConst)) (p.method.any (·.isVolatile))) := by
  have hargs : (argumentList p.args p.ellipsis).toList =
      TypeTerm.argumentText (p.args.map String.toList) p.ellipsis := by
    rw [← Namer.toList_argumentList, List.map_map]
    simp [Function.comp_def]
  cases hm : p.method with
  | none =>
      simp only [spelling, group, hm, Namer.toList_functionSpelling, hargs]
      rfl
  | some m =>
      simp only [spelling, group, hm, Namer.toList_methodSpelling, hargs]
      rfl

theorem Legible.balanced_group
    (h : p.Legible) :
    Balanced p.group := by
  cases hm : p.method with
  | none =>
      rw [group, hm]
      rfl
  | some m =>
      have hcolons : Balanced [':', ':'] := rfl
      rw [group, hm]
      exact (h.cls m hm).append hcolons

theorem Legible.legibleArgument
    (h : p.Legible) :
    ∀ a ∈ p.args.map String.toList, LegibleArgument a := by
  intro a ha
  obtain ⟨arg, harg, rfl⟩ := List.mem_map.mp ha
  exact h.args arg harg

theorem method_eq_of_group_eq
    (hgroup : p.group = q.group)
    (hconst : p.method.any (·.isConst) = q.method.any (·.isConst))
    (hvolatile : p.method.any (·.isVolatile) = q.method.any (·.isVolatile))
    (hrestrict : p.isRestrict = q.isRestrict) :
    p.method = q.method := by
  unfold group at hgroup
  unfold isRestrict at hrestrict
  cases hm : p.method with
  | none =>
      cases hm' : q.method with
      | none =>
          rfl
      | some m' =>
          simp [hm, hm'] at hgroup
  | some m =>
      cases hm' : q.method with
      | none =>
          simp [hm, hm'] at hgroup
      | some m' =>
          obtain ⟨cls, isConst, isVolatile, isRestrict⟩ := m
          obtain ⟨cls', isConst', isVolatile', isRestrict'⟩ := m'
          simp only [hm, hm', Option.elim_some, Option.any_some]
            at hgroup hconst hvolatile hrestrict
          rw [String.toList_inj.mp (List.append_cancel_right hgroup), hconst, hvolatile, hrestrict]

/-- The parts of a function type are determined by its spelling and the number of arguments, but for
the qualifier `restrict`. -/
theorem eq_of_spelling_eq
    (hp : p.Legible)
    (hq : q.Legible)
    (hspelling : p.spelling = q.spelling)
    (hlength : p.args.length = q.args.length)
    (hrestrict : p.isRestrict = q.isRestrict) :
    p = q := by
  have htext := congrArg String.toList hspelling
  rw [toList_spelling, toList_spelling] at htext
  have htail : ∀ {p : FunctionParts}, p.Legible → TypeTerm.Tail (TypeTerm.callText
      (TypeTerm.argumentText (p.args.map String.toList) p.ellipsis) (p.method.any (·.isConst))
      (p.method.any (·.isVolatile))) := fun hlegible =>
    TypeTerm.tail_callText _ _
      (TypeTerm.balanced_argumentText_of_legible _ hlegible.legibleArgument)
  obtain ⟨hresult, hgroup, hcall⟩ :=
    TypeTerm.box_unique hp.balanced_group hq.balanced_group (htail hp) (htail hq) htext
  obtain ⟨hargs, hconst, hvolatile⟩ := TypeTerm.callText_injective hcall
  obtain ⟨hargs, hellipsis⟩ := TypeTerm.argumentText_injective_of_length hp.legibleArgument
    hq.legibleArgument (by simpa using hlength) hargs
  have hmethod := method_eq_of_group_eq hgroup hconst hvolatile hrestrict
  obtain ⟨result, args, ellipsis, method⟩ := p
  obtain ⟨result', args', ellipsis', method'⟩ := q
  have hinj : Function.Injective String.toList := fun _ _ => String.toList_inj.mp
  simp only at hresult hargs hellipsis hmethod
  rw [hinj hresult, List.map_injective_iff.mpr hinj hargs, hellipsis, hmethod]

theorem qualified_type
    (p : FunctionParts) :
    p.type.header.qualified = p.spelling := by
  unfold type
  split <;> rfl

theorem shape_type
    (p : FunctionParts) :
    p.type.shape = .function p.proto := by
  unfold type
  split <;> rfl

theorem contains_restrict_type
    (p : FunctionParts) :
    p.type.header.qualifiers.contains .restrict = p.isRestrict := by
  have hall : ∀ isConst isVolatile isRestrict : Bool,
      (((Qualifiers.when isConst .const).union (.when isVolatile .volatile)).union
        (.when isRestrict .restrict)).contains .restrict = isRestrict := by
    decide
  have hnone : Qualifiers.none.contains .restrict = false := by
    decide
  unfold type isRestrict
  split
  · next hm =>
      rw [hm]
      exact hnone
  · next m hm =>
      rw [hm]
      exact hall m.isConst m.isVolatile m.isRestrict

/-- Function types of one spelling are equal exactly if they agree in what is not written: the
qualifier `restrict`, and whether an argument `void` is stated. -/
theorem type_eq_iff_of_spelling_eq
    (hp : p.Legible)
    (hq : q.Legible)
    (hspelling : p.spelling = q.spelling) :
    p.type = q.type ↔ p.isRestrict = q.isRestrict ∧ p.args.length = q.args.length := by
  constructor
  · intro heq
    refine ⟨?_, ?_⟩
    · rw [← contains_restrict_type, heq, contains_restrict_type]
    · have hshape : TypeShape.function p.proto = .function q.proto := by
        rw [← shape_type, heq, shape_type]
      have hparams := congrArg Prototype.params (TypeShape.function.inj hshape)
      simpa [proto] using congrArg List.length hparams
  · rintro ⟨hrestrict, hlength⟩
    rw [eq_of_spelling_eq hp hq hspelling hlength hrestrict]

end Text

end FunctionParts

end TypeCatalog
