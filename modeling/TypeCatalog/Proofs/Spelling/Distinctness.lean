import TypeCatalog.Proofs.Spelling.Exact
import TypeCatalog.Proofs.Spelling.Misplacement
import TypeCatalog.Proofs.Spelling.PlainNames
import TypeCatalog.Proofs.Spelling.Reading

/-!
# Different types have different spellings

**Input.** A document with plain names, and two of its elements that are pointers, references,
qualified types, arrays, function types, method types or member offsets.

**Assumption.** What the elements refer to are types, and the types that the elements denote are
clear: the outermost part of each is written where it belongs. Nothing is assumed of the parts inside.

**Results.**
* `Denotes.spells`: an id is spelled as the type that it denotes.
* `typeName_injective`: elements with the same spelling are of the same kind, have the same bound and
  ellipsis, and have parts of the same spellings. They have the same qualifiers exactly when they do
  not differ in the `restrict` of a method type, which no spelling shows.
* `typeName_ambiguous`: types that are not clear meet in one spelling, and so do two method types that
  differ in `restrict`.
-/

namespace TypeCatalog
namespace Namer

open Text Spelling TypeTerm

/-- The id denotes the type. -/
inductive Denotes
    (n : Namer) :
    String → TypeTerm → Prop
  | named
      {id name : String} {e : Element}
      (he : n.index.find? id = some e)
      (hkind : e.kind ∈ namedKinds)
      (hname : Spells n id name) :
      Denotes n id (.named name.toList)
  | pointer
      {id target : String} {e : Element} {t : TypeTerm}
      (he : n.index.find? id = some e)
      (hkind : e.kind = .pointer)
      (htarget : e.attr? "type" = some target)
      (ht : Denotes n target t) :
      Denotes n id (.pointer t)
  | reference
      {id target : String} {e : Element} {t : TypeTerm}
      (he : n.index.find? id = some e)
      (hkind : e.kind = .reference)
      (htarget : e.attr? "type" = some target)
      (ht : Denotes n target t) :
      Denotes n id (.reference t)
  | cvQualified
      {id target : String} {e : Element} {t : TypeTerm}
      (he : n.index.find? id = some e)
      (hkind : e.kind = .cvQualified)
      (htarget : e.attr? "type" = some target)
      (ht : Denotes n target t) :
      Denotes n id (.qualified e.qualifiers t)
  | array
      {id target : String} {e : Element} {t : TypeTerm} {bound : Option UInt64}
      (he : n.index.find? id = some e)
      (hkind : e.kind = .array)
      (htarget : e.attr? "type" = some target)
      (ht : Denotes n target t)
      (hbound : e.arrayLength = .ok bound) :
      Denotes n id (.array bound t)
  | functionType
      {id target : String} {e : Element} {r : TypeTerm} {args : List TypeTerm}
      (he : n.index.find? id = some e)
      (hkind : e.kind = .functionType)
      (htarget : e.attr? "returns" = some target)
      (hr : Denotes n target r)
      (hlength : args.length = e.arguments.length)
      (hargs : ∀ (i : Nat) a t, e.arguments[i]? = some a → args[i]? = some t → Denotes n a.type t) :
      Denotes n id (.function r args e.ellipsis)
  | methodType
      {id target owner : String} {e : Element} {r cls : TypeTerm} {args : List TypeTerm}
      (he : n.index.find? id = some e)
      (hkind : e.kind = .methodType)
      (htarget : e.attr? "returns" = some target)
      (hr : Denotes n target r)
      (howner : e.attr? "basetype" = some owner)
      (hcls : Denotes n owner cls)
      (hlength : args.length = e.arguments.length)
      (hargs : ∀ (i : Nat) a t, e.arguments[i]? = some a → args[i]? = some t → Denotes n a.type t) :
      Denotes n id (.method r cls args e.ellipsis (e.flag "const") (e.flag "volatile"))
  | offset
      {id target owner : String} {e : Element} {t cls : TypeTerm}
      (he : n.index.find? id = some e)
      (hkind : e.kind = .offset)
      (htarget : e.attr? "type" = some target)
      (ht : Denotes n target t)
      (howner : e.attr? "basetype" = some owner)
      (hcls : Denotes n owner cls) :
      Denotes n id (.member t cls)
  | derived
      {id base : String} {q : Qualifiers} {t : TypeTerm}
      (he : n.index.find? id = none)
      (hbase : qualifiedId? id = some (base, q))
      (ht : Denotes n base t) :
      Denotes n id (.qualified q t)

section Spellings

theorem toList_argumentList
    (args : List (List Char)) (ellipsis : Bool) :
    (argumentList (args.map String.ofList) ellipsis).toList = argumentText args ellipsis := by
  have hall : (if ellipsis then args.map String.ofList ++ ["..."] else args.map String.ofList) =
      (withEllipsis args ellipsis).map String.ofList := by
    cases ellipsis <;> simp [withEllipsis]
  simp only [argumentList, hall, argumentText, List.isEmpty_iff, List.map_eq_nil_iff]
  split
  · rfl
  · simp [String.toList_intercalate, joinWith, List.map_map]

theorem toList_functionSpelling
    (result : String) (args : String) :
    (functionSpelling result args).toList =
      box result.toList [] (callText args.toList false false) := by
  simp [functionSpelling, box, callText, methodWords]

theorem toList_methodSpelling
    (result cls args : String) (isConst isVolatile : Bool) :
    (methodSpelling result cls args isConst isVolatile).toList =
      box result.toList (cls.toList ++ [':', ':']) (callText args.toList isConst isVolatile) := by
  cases isConst <;> cases isVolatile <;> simp [methodSpelling, box, callText, methodWords]

theorem arrayDimension_eq
    {e : Element} {bound : Option UInt64}
    (h : e.arrayLength = .ok bound) :
    e.arrayDimension = .ok (dimensionText bound) := by
  rw [Element.arrayDimension, h]
  cases bound <;> rfl

theorem map_spellings
    (args : List TypeTerm) :
    (spellings args).map String.ofList = args.map fun t => String.ofList t.spelling := by
  rw [spellings_eq_map, List.map_map]
  rfl

/-- An id is spelled as the type that it denotes. -/
theorem Denotes.spells
    {n : Namer} {id : String} {t : TypeTerm}
    (h : Denotes n id t) :
    Spells n id (String.ofList t.spelling) := by
  have hnames : ∀ {e : Element} {args : List TypeTerm},
      (∀ (i : Nat) a t, e.arguments[i]? = some a → args[i]? = some t →
        Spells n a.type (String.ofList t.spelling)) →
      ∀ (i : Nat) a s, e.arguments[i]? = some a →
        ((spellings args).map String.ofList)[i]? = some s → Spells n a.type s := by
    intro e args hargs i a s ha hs
    rw [map_spellings, List.getElem?_map, Option.map_eq_some_iff] at hs
    obtain ⟨t, ht, rfl⟩ := hs
    exact hargs i a t ha ht
  have hlengths : ∀ args : List TypeTerm,
      ((spellings args).map String.ofList).length = args.length := by
    intro args
    rw [map_spellings, List.length_map]
  induction h with
  | @named id name e he hkind hname =>
      rw [spelling, String.ofList_toList]
      exact hname
  | pointer he hkind htarget ht ih =>
      have hspells := Spells.pointer he hkind htarget ih
      rwa [String.toList_ofList] at hspells
  | reference he hkind htarget ht ih =>
      have hspells := Spells.reference he hkind htarget ih
      rwa [String.toList_ofList] at hspells
  | cvQualified he hkind htarget ht ih =>
      have hspells := Spells.cvQualified he hkind htarget ih
      rwa [String.toList_ofList] at hspells
  | array he hkind htarget ht hbound ih =>
      have hspells := Spells.array he hkind htarget ih (arrayDimension_eq hbound)
      rwa [String.toList_ofList] at hspells
  | @functionType id target e r args he hkind htarget hr hlength hargs ih ihs =>
      have hspells := Spells.functionType he hkind htarget ih
        ((hlengths args).trans hlength) (hnames ihs)
      have htext : functionSpelling (String.ofList r.spelling)
          (argumentList ((spellings args).map String.ofList) e.ellipsis) =
            String.ofList (TypeTerm.function r args e.ellipsis).spelling := by
        rw [← String.toList_inj, toList_functionSpelling, toList_argumentList,
          String.toList_ofList, String.toList_ofList, spelling]
      rwa [htext] at hspells
  | @methodType id target owner e r cls args he hkind htarget hr howner hcls hlength hargs ih ihc
      ihs =>
      have hspells := Spells.methodType he hkind htarget ih howner ihc
        ((hlengths args).trans hlength) (hnames ihs)
      have htext : methodSpelling (String.ofList r.spelling) (String.ofList cls.spelling)
          (argumentList ((spellings args).map String.ofList) e.ellipsis) (e.flag "const")
          (e.flag "volatile") =
            String.ofList (TypeTerm.method r cls args e.ellipsis (e.flag "const")
              (e.flag "volatile")).spelling := by
        rw [← String.toList_inj, toList_methodSpelling, toList_argumentList,
          String.toList_ofList, String.toList_ofList, String.toList_ofList, spelling]
      rwa [htext] at hspells
  | @offset id target owner e t cls he hkind htarget ht howner hcls ih ihc =>
      have hspells := Spells.offset he hkind htarget ih howner ihc
      have htext : String.ofList t.spelling ++ " " ++ String.ofList cls.spelling ++ "::*" =
          String.ofList (TypeTerm.member t cls).spelling := by
        rw [← String.toList_inj]
        simp [spelling]
      rwa [htext] at hspells
  | derived he hbase ht ih =>
      have hspells := Spells.derived he hbase ih
      rwa [String.toList_ofList] at hspells

/-- In a document with plain names, the names in a type are plain. -/
theorem Denotes.plain
    {n : Namer} {id : String} {t : TypeTerm}
    (hplain : PlainNames n.index)
    (h : Denotes n id t) :
    Plain t := by
  have hmem : ∀ {e : Element} {args : List TypeTerm}, args.length = e.arguments.length →
      (∀ (i : Nat) a t, e.arguments[i]? = some a → args[i]? = some t → Plain t) →
      ∀ t ∈ args, Plain t := by
    intro e args hlength hargs t ht
    obtain ⟨i, hi, rfl⟩ := List.mem_iff_getElem.mp ht
    exact hargs i (e.arguments[i]) args[i] (List.getElem?_eq_getElem _) (List.getElem?_eq_getElem _)
  induction h with
  | named he hkind hname =>
      exact .named (hplain.plainText hname he hkind)
  | pointer he hkind htarget ht ih =>
      exact .pointer ih
  | reference he hkind htarget ht ih =>
      exact .reference ih
  | cvQualified he hkind htarget ht ih =>
      exact .qualified ih
  | array he hkind htarget ht hbound ih =>
      exact .array ih
  | functionType he hkind htarget hr hlength hargs ih ihs =>
      exact .function ih (hmem hlength ihs)
  | methodType he hkind htarget hr howner hcls hlength hargs ih ihc ihs =>
      exact .method ih ihc (hmem hlength ihs)
  | offset he hkind htarget ht howner hcls ih ihc =>
      exact .member ih ihc
  | derived he hbase ht ih =>
      exact .qualified ih

end Spellings

section Parts

/-- Both ids have a spelling, and it is the same. -/
def SameSpelling
    (n : Namer) (i j : String) :
    Prop :=
  ∃ name, (Spelled.outcome (n.typeName i) ∅).1 = .ok name ∧
    (Spelled.outcome (n.typeName j) ∅).1 = .ok name

/-- The kinds of types that are built from others. -/
def builtKinds :
    List ElementKind :=
  [.pointer, .reference, .cvQualified, .array, .functionType, .methodType, .offset]

/-- The attributes that refer to the types that a type is built from. -/
def partAttributes :
    ElementKind → List String
  | .pointer | .reference | .cvQualified | .array => ["type"]
  | .functionType => ["returns"]
  | .methodType => ["returns", "basetype"]
  | .offset => ["type", "basetype"]
  | _ => []

/-- The attribute refers to types of the same spelling in both elements. -/
def SameAt
    (n : Namer) (e f : Element) (attr : String) :
    Prop :=
  ∃ i j, e.attr? attr = some i ∧ f.attr? attr = some j ∧ SameSpelling n i j

/-- The elements denote the same type, up to the spellings of the types that it is built from. -/
structure SameParts
    (n : Namer) (e f : Element) :
    Prop where
  kind : e.kind = f.kind
  parts : ∀ attr ∈ partAttributes e.kind, SameAt n e f attr
  qualifiers : e.kind = .cvQualified ∨ e.kind = .methodType → e.qualifiers = f.qualifiers
  bound : e.kind = .array → e.arrayLength = f.arrayLength
  arguments : e.kind = .functionType ∨ e.kind = .methodType →
    List.Forall₂ (fun a b => SameSpelling n a.type b.type) e.arguments f.arguments
  ellipsis : e.kind = .functionType ∨ e.kind = .methodType → e.ellipsis = f.ellipsis

/-- The element has the outermost part. -/
inductive HasHead
    (n : Namer) (e : Element) :
    TypeHead → Prop
  | pointer
      {target : String} {s : List Char}
      (hkind : e.kind = .pointer)
      (htarget : e.attr? "type" = some target)
      (hs : Spells n target (String.ofList s)) :
      HasHead n e (.pointer s)
  | reference
      {target : String} {s : List Char}
      (hkind : e.kind = .reference)
      (htarget : e.attr? "type" = some target)
      (hs : Spells n target (String.ofList s)) :
      HasHead n e (.reference s)
  | cvQualified
      {target : String} {words s : List Char}
      (hkind : e.kind = .cvQualified)
      (htarget : e.attr? "type" = some target)
      (hs : Spells n target (String.ofList s))
      (hwords : words = qualifierWords e.qualifiers) :
      HasHead n e (.qualified words s)
  | array
      {target : String} {bound : Option UInt64} {s : List Char}
      (hkind : e.kind = .array)
      (htarget : e.attr? "type" = some target)
      (hs : Spells n target (String.ofList s))
      (hbound : e.arrayLength = .ok bound) :
      HasHead n e (.array bound s)
  | functionType
      {target : String} {result : List Char} {args : List (List Char)} {ellipsis : Bool}
      (hkind : e.kind = .functionType)
      (htarget : e.attr? "returns" = some target)
      (hresult : Spells n target (String.ofList result))
      (hargs : List.Forall₂ (fun a s => Spells n a.type (String.ofList s)) e.arguments args)
      (hellipsis : ellipsis = e.ellipsis) :
      HasHead n e (.function result args ellipsis)
  | methodType
      {target owner : String} {result cls : List Char} {args : List (List Char)}
      {ellipsis isConst isVolatile : Bool}
      (hkind : e.kind = .methodType)
      (htarget : e.attr? "returns" = some target)
      (hresult : Spells n target (String.ofList result))
      (howner : e.attr? "basetype" = some owner)
      (hcls : Spells n owner (String.ofList cls))
      (hargs : List.Forall₂ (fun a s => Spells n a.type (String.ofList s)) e.arguments args)
      (hellipsis : ellipsis = e.ellipsis)
      (hconst : isConst = e.flag "const")
      (hvolatile : isVolatile = e.flag "volatile") :
      HasHead n e (.method result cls args ellipsis isConst isVolatile)
  | offset
      {target owner : String} {type cls : List Char}
      (hkind : e.kind = .offset)
      (htarget : e.attr? "type" = some target)
      (htype : Spells n target (String.ofList type))
      (howner : e.attr? "basetype" = some owner)
      (hcls : Spells n owner (String.ofList cls)) :
      HasHead n e (.member type cls)

theorem SameSpelling.of_spells
    {n : Namer} {i j name : String}
    (hi : Spells n i name)
    (hj : Spells n j name) :
    SameSpelling n i j :=
  ⟨name, outcome_typeName_eq_ok_iff.mpr hi, outcome_typeName_eq_ok_iff.mpr hj⟩

theorem sameSpelling_arguments
    {n : Namer} {as bs : List Argument} {args : List (List Char)}
    (has : List.Forall₂ (fun a s => Spells n a.type (String.ofList s)) as args)
    (hbs : List.Forall₂ (fun a s => Spells n a.type (String.ofList s)) bs args) :
    List.Forall₂ (fun a b => SameSpelling n a.type b.type) as bs := by
  induction has generalizing bs with
  | nil =>
      cases hbs
      exact .nil
  | cons ha has ih =>
      cases hbs with
      | cons hb hbs =>
          exact .cons (.of_spells ha hb) (ih hbs)

/-- The qualifiers that attributes state are determined by their words. -/
theorem qualifiers_eq_of_words
    {e f : Element}
    (h : qualifierWords e.qualifiers = qualifierWords f.qualifiers) :
    e.qualifiers = f.qualifiers := by
  have hall : ∀ c v r c' v' r' : Bool,
      qualifierWords (((Qualifiers.when c .const).union (.when v .volatile)).union
        (.when r .restrict)) =
      qualifierWords (((Qualifiers.when c' .const).union (.when v' .volatile)).union
        (.when r' .restrict)) → c = c' ∧ v = v' ∧ r = r' := by
    decide
  obtain ⟨hc, hv, hr⟩ := hall _ _ _ _ _ _ h
  rw [Element.qualifiers, Element.qualifiers, hc, hv, hr]

/-- Elements that agree in the other two flags have the same qualifiers if and only if they agree in
`restrict`. -/
theorem qualifiers_eq_iff_restrict
    {e f : Element}
    (hconst : e.flag "const" = f.flag "const")
    (hvolatile : e.flag "volatile" = f.flag "volatile") :
    e.qualifiers = f.qualifiers ↔ e.flag "restrict" = f.flag "restrict" := by
  have hall : ∀ c v r r' : Bool,
      ((Qualifiers.when c .const).union (.when v .volatile)).union (.when r .restrict) =
        ((Qualifiers.when c .const).union (.when v .volatile)).union (.when r' .restrict) ↔
      r = r' := by
    decide
  rw [Element.qualifiers, Element.qualifiers, hconst, hvolatile]
  exact hall _ _ _ _

theorem SameAt.of_spells
    {n : Namer} {e f : Element} {attr i j : String} {s : List Char}
    (hi : e.attr? attr = some i)
    (hj : f.attr? attr = some j)
    (hs : Spells n i (String.ofList s))
    (hs' : Spells n j (String.ofList s)) :
    SameAt n e f attr :=
  ⟨i, j, hi, hj, .of_spells hs hs'⟩

/-- Elements with the same outermost part agree but for the `restrict` of a method type. -/
theorem HasHead.sameParts_iff
    {n : Namer} {e f : Element} {h : TypeHead}
    (he : HasHead n e h)
    (hf : HasHead n f h) :
    SameParts n e f ↔ (e.kind = .methodType → e.flag "restrict" = f.flag "restrict") := by
  cases he with
  | pointer hkind htarget hs =>
      cases hf with
      | pointer hkind' htarget' hs' =>
          have htype : SameAt n e f "type" := .of_spells htarget htarget' hs hs'
          have hsame : SameParts n e f :=
            ⟨by rw [hkind, hkind'], by simpa [hkind, partAttributes] using htype, by simp [hkind],
              by simp [hkind], by simp [hkind], by simp [hkind]⟩
          simp [hsame, hkind]
  | reference hkind htarget hs =>
      cases hf with
      | reference hkind' htarget' hs' =>
          have htype : SameAt n e f "type" := .of_spells htarget htarget' hs hs'
          have hsame : SameParts n e f :=
            ⟨by rw [hkind, hkind'], by simpa [hkind, partAttributes] using htype, by simp [hkind],
              by simp [hkind], by simp [hkind], by simp [hkind]⟩
          simp [hsame, hkind]
  | cvQualified hkind htarget hs hwords =>
      cases hf with
      | cvQualified hkind' htarget' hs' hwords' =>
          have htype : SameAt n e f "type" := .of_spells htarget htarget' hs hs'
          have hq := qualifiers_eq_of_words (hwords.symm.trans hwords')
          have hsame : SameParts n e f :=
            ⟨by rw [hkind, hkind'], by simpa [hkind, partAttributes] using htype, fun _ => hq,
              by simp [hkind], by simp [hkind], by simp [hkind]⟩
          simp [hsame, hkind]
  | array hkind htarget hs hbound =>
      cases hf with
      | array hkind' htarget' hs' hbound' =>
          have htype : SameAt n e f "type" := .of_spells htarget htarget' hs hs'
          have hsame : SameParts n e f :=
            ⟨by rw [hkind, hkind'], by simpa [hkind, partAttributes] using htype, by simp [hkind],
              fun _ => hbound.trans hbound'.symm, by simp [hkind], by simp [hkind]⟩
          simp [hsame, hkind]
  | functionType hkind htarget hresult hargs hellipsis =>
      cases hf with
      | functionType hkind' htarget' hresult' hargs' hellipsis' =>
          have hreturns : SameAt n e f "returns" := .of_spells htarget htarget' hresult hresult'
          have hsame : SameParts n e f :=
            ⟨by rw [hkind, hkind'], by simpa [hkind, partAttributes] using hreturns,
              by simp [hkind], by simp [hkind], fun _ => sameSpelling_arguments hargs hargs',
              fun _ => hellipsis.symm.trans hellipsis'⟩
          simp [hsame, hkind]
  | methodType hkind htarget hresult howner hcls hargs hellipsis hconst hvolatile =>
      cases hf with
      | methodType hkind' htarget' hresult' howner' hcls' hargs' hellipsis' hconst' hvolatile' =>
          have hreturns : SameAt n e f "returns" := .of_spells htarget htarget' hresult hresult'
          have hclass : SameAt n e f "basetype" := .of_spells howner howner' hcls hcls'
          have hq := qualifiers_eq_iff_restrict (hconst.symm.trans hconst')
            (hvolatile.symm.trans hvolatile')
          refine ⟨fun h _ => hq.mp (h.qualifiers (.inr hkind)), fun h => ?_⟩
          exact ⟨by rw [hkind, hkind'],
            by simpa [hkind, partAttributes] using And.intro hreturns hclass,
            fun _ => hq.mpr (h hkind), by simp [hkind],
            fun _ => sameSpelling_arguments hargs hargs', fun _ => hellipsis.symm.trans hellipsis'⟩
  | offset hkind htarget htype howner hcls =>
      cases hf with
      | offset hkind' htarget' htype' howner' hcls' =>
          have hmember : SameAt n e f "type" := .of_spells htarget htarget' htype htype'
          have hclass : SameAt n e f "basetype" := .of_spells howner howner' hcls hcls'
          have hsame : SameParts n e f :=
            ⟨by rw [hkind, hkind'],
              by simpa [hkind, partAttributes] using And.intro hmember hclass, by simp [hkind],
              by simp [hkind], by simp [hkind], by simp [hkind]⟩
          simp [hsame, hkind]

theorem Denotes.arguments
    {n : Namer} {e : Element} {args : List TypeTerm}
    (hlength : args.length = e.arguments.length)
    (hargs : ∀ (i : Nat) a t, e.arguments[i]? = some a → args[i]? = some t →
      Denotes n a.type t) :
    List.Forall₂ (fun a s => Spells n a.type (String.ofList s)) e.arguments (spellings args) := by
  rw [spellings_eq_map, List.forall₂_map_right_iff, List.forall₂_iff_get]
  refine ⟨hlength.symm, ?_⟩
  intro i hi hi'
  exact (hargs i _ _ (List.getElem?_eq_getElem hi) (List.getElem?_eq_getElem hi')).spells

/-- What an element denotes has the outermost part of the element. -/
theorem Denotes.hasHead
    {n : Namer} {id : String} {e : Element} {t : TypeTerm}
    (h : Denotes n id t)
    (he : n.index.find? id = some e)
    (hkind : e.kind ∈ builtKinds) :
    ∃ hd, t.head? = some hd ∧ HasHead n e hd := by
  cases h with
  | named he' hkind' hname =>
      have hapart : ∀ k ∈ builtKinds, k ∉ namedKinds := by decide
      rw [he] at he'
      cases he'
      exact absurd hkind' (hapart e.kind hkind)
  | pointer he' hkind' htarget ht =>
      rw [he] at he'
      cases he'
      exact ⟨_, rfl, .pointer hkind' htarget ht.spells⟩
  | reference he' hkind' htarget ht =>
      rw [he] at he'
      cases he'
      exact ⟨_, rfl, .reference hkind' htarget ht.spells⟩
  | cvQualified he' hkind' htarget ht =>
      rw [he] at he'
      cases he'
      exact ⟨_, rfl, .cvQualified hkind' htarget ht.spells rfl⟩
  | array he' hkind' htarget ht hbound =>
      rw [he] at he'
      cases he'
      exact ⟨_, rfl, .array hkind' htarget ht.spells hbound⟩
  | functionType he' hkind' htarget hr hlength hargs =>
      rw [he] at he'
      cases he'
      exact ⟨_, rfl, .functionType hkind' htarget hr.spells
        (Denotes.arguments hlength hargs) rfl⟩
  | methodType he' hkind' htarget hr howner hcls hlength hargs =>
      rw [he] at he'
      cases he'
      exact ⟨_, rfl, .methodType hkind' htarget hr.spells howner hcls.spells
        (Denotes.arguments hlength hargs) rfl rfl rfl⟩
  | offset he' hkind' htarget ht howner hcls =>
      rw [he] at he'
      cases he'
      exact ⟨_, rfl, .offset hkind' htarget ht.spells howner hcls.spells⟩
  | derived he' hbase ht =>
      rw [he] at he'
      cases he'

/-- In a document with plain names, clear types of the same spelling are of the same kind, have the
same bound and ellipsis, and have parts of the same spellings. They have the same qualifiers, too,
exactly when they are no method types that differ in `restrict`. -/
theorem typeName_injective
    (n : Namer)
    (hplain : PlainNames n.index)
    {i j : String} {e f : Element} {x y : TypeTerm}
    (he : n.index.find? i = some e)
    (hf : n.index.find? j = some f)
    (hekind : e.kind ∈ builtKinds)
    (hfkind : f.kind ∈ builtKinds)
    (hx : Denotes n i x)
    (hy : Denotes n j y)
    (hxclear : x.Clear)
    (hyclear : y.Clear)
    (hsame : SameSpelling n i j) :
    SameParts n e f ↔ (e.kind = .methodType → e.flag "restrict" = f.flag "restrict") := by
  obtain ⟨h, hhead, hhas⟩ := hx.hasHead he hekind
  obtain ⟨h', hhead', hhas'⟩ := hy.hasHead hf hfkind
  have hspelling : x.spelling = y.spelling := by
    obtain ⟨name, hi, hj⟩ := hsame
    have hxname := hx.spells.unique (outcome_typeName_eq_ok_iff.mp hi)
    have hyname := hy.spells.unique (outcome_typeName_eq_ok_iff.mp hj)
    exact String.ofList_injective (hxname.trans hyname.symm)
  have heq : h = h' :=
    (hx.plain hplain).head_unique (hy.plain hplain) hxclear hyclear hhead hhead' hspelling
  rw [← heq] at hhas'
  exact hhas.sameParts_iff hhas'

end Parts

section Ambiguity

/-- The element is a type that is built from others, and if it is a qualified type, then it has some
qualifier. -/
def IsBuilt
    (e : Element) :
    Prop :=
  e.kind ∈ builtKinds ∧ (e.kind = .cvQualified → qualifierWords e.qualifiers ≠ [])

instance
    (e : Element) :
    Decidable (IsBuilt e) :=
  inferInstanceAs (Decidable (_ ∧ _))

/-- The elements of both ids are types that are built differently, and have the same spelling. -/
def Ambiguous
    (n : Namer) (i j : String) :
    Prop :=
  ∃ e f, n.index.find? i = some e ∧ n.index.find? j = some f ∧ IsBuilt e ∧ IsBuilt f ∧
    SameSpelling n i j ∧ ¬ SameParts n e f

theorem Ambiguous.of_denotes
    {n : Namer} {i j : String} {e f : Element} {x y : TypeTerm}
    (he : n.index.find? i = some e)
    (hf : n.index.find? j = some f)
    (hbuilt : IsBuilt e ∧ IsBuilt f)
    (hx : Denotes n i x)
    (hy : Denotes n j y)
    (hspelling : x.spelling = y.spelling)
    (hparts : ¬ SameParts n e f) :
    Ambiguous n i j :=
  ⟨e, f, he, hf, hbuilt.1, hbuilt.2, .of_spells (hspelling ▸ hx.spells) hy.spells, hparts⟩

/-- A type of the name. -/
def namedElement
    (tag id name : String) :
    Element :=
  { Element.bare tag id with attributes := [("name", name)] }

/-- A pointer. -/
def pointerElement
    (id target : String) :
    Element :=
  { Element.bare "PointerType" id with attributes := [("type", target)] }

/-- A constant type. -/
def constantElement
    (id target : String) :
    Element :=
  { Element.bare "CvQualifiedType" id with attributes := [("type", target), ("const", "1")] }

/-- An array of three. -/
def arrayElement
    (id target : String) :
    Element :=
  { Element.bare "ArrayType" id with attributes := [("type", target), ("max", "2")] }

/-- A function type. -/
def functionElement
    (id target : String) (args : List String) :
    Element :=
  { Element.bare "FunctionType" id with
    attributes := [("returns", target)]
    arguments := args.map fun type => ⟨"", type, none⟩ }

/-- A member pointer. -/
def memberElement
    (id target owner : String) :
    Element :=
  { Element.bare "OffsetType" id with attributes := [("type", target), ("basetype", owner)] }

/-- A method type with some flags. -/
def methodElement
    (id target owner : String) (args flags : List String) :
    Element :=
  { Element.bare "MethodType" id with
    attributes := ("returns", target) :: ("basetype", owner) :: flags.map fun flag => (flag, "1")
    arguments := args.map fun type => ⟨"", type, none⟩ }

/-- A record that is declared in a function. -/
def localElement
    (id name scope : String) :
    Element :=
  { Element.bare "Struct" id with attributes := [("name", name), ("context", scope)] }

/-- Constant arrays and arrays of constants, functions without arguments and with an argument `void`,
functions that return pointers to functions, member pointers to functions, and method types with and
without `restrict`. -/
def ambiguousElements :
    List Element :=
  [namedElement "FundamentalType" "_1" "int", constantElement "_2" "_1", arrayElement "_3" "_1",
   constantElement "_4" "_3", arrayElement "_5" "_2", arrayElement "_6" "_1c",
   namedElement "FundamentalType" "_7" "void", functionElement "_8" "_1" [],
   functionElement "_9" "_1" ["_7"], pointerElement "_10" "_8", functionElement "_11" "_10" [],
   pointerElement "_12" "_11", pointerElement "_13" "_10", functionElement "_14" "_13" [],
   namedElement "Struct" "_15" "C", memberElement "_16" "_8" "_15", pointerElement "_17" "_16",
   memberElement "_18" "_10" "_15", namedElement "Function" "_19" "f", localElement "_20" "L" "_19",
   methodElement "_21" "_12" "_20" ["_7", "_1c"] ["const", "restrict"],
   methodElement "_22" "_14" "_20" ["_7", "_2"] ["const", "restrict"],
   methodElement "_23" "_1" "_15" [] [], methodElement "_24" "_1" "_15" [] ["restrict"]]

/-- The document that consists of these types. -/
def ambiguousTypes :
    Namer where
  index := .ofElements ambiguousElements
  normalizer := .standard
  keepAll := false

theorem find?_function :
    ambiguousTypes.index.find? "_19" = some (namedElement "Function" "_19" "f") := by
  decide +kernel

theorem plainNames_ambiguousTypes :
    PlainNames ambiguousTypes.index := by
  have hall : ∀ e ∈ ambiguousElements,
      (e.kind ∈ declaringKinds →
        e.kind = .structRecord ∧ e.isUnnamed = false ∧ IsIdentifier e.name ∧
          (e.context? = none ∨ e.context? = some "_19")) ∧
      (e.kind = .fundamental → e.name ∈ builtinForms.map Prod.fst) := by
    decide +kernel
  have hrecord : ∀ k : ElementKind, k.isRecord = true ∨ k = .enumeration →
      k ∈ declaringKinds := by
    intro k
    cases k <;> decide
  have hdeclared : ∀ {id e}, ambiguousTypes.index.find? id = some e → e.kind ∈ declaringKinds →
      e.kind = .structRecord ∧ e.isUnnamed = false ∧ IsIdentifier e.name ∧
        (e.context? = none ∨ e.context? = some "_19") :=
    fun he => (hall _ (Index.mem_of_find? he).1).1
  have hfunction : PlainScope ambiguousTypes.index "_19" := by
    have hname : IsIdentifier "f" := by
      decide
    refine .body find?_function (.plain (by decide)) hname.nameText ?_
    intro cid hcontext
    cases hcontext
  refine ⟨?_, ?_, ?_, ?_, ?_, ?_⟩
  · intro id e he hkind
    exact .inl ((hall e (Index.mem_of_find? he).1).2 hkind)
  · intro id e he hkind
    have hstruct := (hdeclared he (by simp [hkind, declaringKinds])).1
    simp [hkind] at hstruct
  · intro id e he hkind
    have hstruct := (hdeclared he (by simp [hkind, declaringKinds])).1
    simp [hkind] at hstruct
  · intro id e he hkind hnamed
    exact (hdeclared he (hrecord _ hkind)).2.2.1
  · intro id e he hkind hunnamed
    have hnamed := (hdeclared he (hrecord _ hkind)).2.1
    simp [hnamed] at hunnamed
  · intro id e he hkind cid hcontext
    rcases (hdeclared he hkind).2.2.2 with hnone | hsome
    · rw [hnone] at hcontext
      cases hcontext
    · rw [hsome] at hcontext
      cases hcontext with
      | stop =>
          exact hfunction
      | climb he' hkind' hunnamed =>
          rw [find?_function] at he'
          cases he'
          exact absurd hunnamed (by decide)

theorem denotes_fundamental
    {id name : String}
    (he : ambiguousTypes.index.find? id = some (namedElement "FundamentalType" id name))
    (hname : IsIdentifier name) :
    Denotes ambiguousTypes id (.named name.toList) := by
  have hspells := Spells.fundamental he rfl
  have hnormal : ambiguousTypes.normalizer.normalize false name = name := by
    rw [Template.Normalizer.normalize, hname.nameText.normalizeChars_eq, String.ofList_toList]
  exact .named he (.head _) (hnormal ▸ hspells)

theorem denotes_pointer
    {id target : String} {t : TypeTerm}
    (he : ambiguousTypes.index.find? id = some (pointerElement id target))
    (ht : Denotes ambiguousTypes target t) :
    Denotes ambiguousTypes id (.pointer t) :=
  .pointer he rfl rfl ht

theorem denotes_constant
    {id target : String} {t : TypeTerm}
    (he : ambiguousTypes.index.find? id = some (constantElement id target))
    (hqualifiers : (constantElement id target).qualifiers = .const)
    (ht : Denotes ambiguousTypes target t) :
    Denotes ambiguousTypes id (.qualified .const t) :=
  hqualifiers ▸ .cvQualified he rfl rfl ht

theorem denotes_array
    {id target : String} {t : TypeTerm}
    (he : ambiguousTypes.index.find? id = some (arrayElement id target))
    (hlength : (arrayElement id target).arrayLength = .ok (some 3))
    (ht : Denotes ambiguousTypes target t) :
    Denotes ambiguousTypes id (.array (some 3) t) :=
  .array he rfl rfl ht hlength

theorem denotes_arguments
    {types : List String} {args : List TypeTerm}
    (h : List.Forall₂ (Denotes ambiguousTypes) types args) (i : Nat) (a : Argument) (t : TypeTerm)
    (ha : (types.map fun type => (⟨"", type, none⟩ : Argument))[i]? = some a)
    (ht : args[i]? = some t) :
    Denotes ambiguousTypes a.type t := by
  induction h generalizing i with
  | nil =>
      cases ht
  | cons hd hrest ih =>
      cases i with
      | zero =>
          cases ha
          cases ht
          exact hd
      | succ i =>
          exact ih i ha ht

theorem denotes_function
    {id target : String} {types : List String} {r : TypeTerm} {args : List TypeTerm}
    (he : ambiguousTypes.index.find? id = some (functionElement id target types))
    (hr : Denotes ambiguousTypes target r)
    (hargs : List.Forall₂ (Denotes ambiguousTypes) types args) :
    Denotes ambiguousTypes id (.function r args false) :=
  .functionType he rfl rfl hr (by simp [functionElement, hargs.length_eq]) (denotes_arguments hargs)

theorem denotes_method
    {id target owner : String} {types flags : List String} {r cls : TypeTerm} {args : List TypeTerm}
    (he : ambiguousTypes.index.find? id = some (methodElement id target owner types flags))
    (hr : Denotes ambiguousTypes target r)
    (hcls : Denotes ambiguousTypes owner cls)
    (hargs : List.Forall₂ (Denotes ambiguousTypes) types args) :
    Denotes ambiguousTypes id (.method r cls args false
      ((methodElement id target owner types flags).flag "const")
      ((methodElement id target owner types flags).flag "volatile")) :=
  .methodType he rfl rfl hr rfl hcls (by simp [methodElement, hargs.length_eq])
    (denotes_arguments hargs)

theorem denotes_member
    {id target owner : String} {t cls : TypeTerm}
    (he : ambiguousTypes.index.find? id = some (memberElement id target owner))
    (ht : Denotes ambiguousTypes target t)
    (hcls : Denotes ambiguousTypes owner cls) :
    Denotes ambiguousTypes id (.member t cls) :=
  .offset he rfl rfl ht rfl hcls

theorem denotes_int :
    Denotes ambiguousTypes "_1" (.named "int".toList) :=
  denotes_fundamental (by decide) (by decide)

theorem denotes_void :
    Denotes ambiguousTypes "_7" (.named "void".toList) :=
  denotes_fundamental (by decide) (by decide)

theorem denotes_record :
    Denotes ambiguousTypes "_15" (.named "C".toList) := by
  have hname : IsIdentifier "C" := by
    decide
  have he : ambiguousTypes.index.find? "_15" = some (namedElement "Struct" "_15" "C") := by
    decide
  have hspells : Spells ambiguousTypes "_15" _ :=
    .record he rfl (by decide) .outside (fun _ => rfl) (by simp)
  have hnormal : ambiguousTypes.normalizer.normalizeScoped ambiguousTypes.keepAll
      (Name.qualify "" (namedElement "Struct" "_15" "C").name) = "C" :=
    hname.nameText.normalizeScoped_eq _ _
  exact .named he (by decide) (hnormal ▸ hspells)

/-- The name of a record in a function begins with that of the function. -/
theorem denotes_localRecord :
    Denotes ambiguousTypes "_20" (.named "f::L".toList) := by
  have hscope : IsIdentifier "f" := by
    decide
  have hname : IsIdentifier "L" := by
    decide
  have he : ambiguousTypes.index.find? "_20" = some (localElement "_20" "L" "_19") := by
    decide +kernel
  have hfunction : Spells ambiguousTypes "_19" (Name.qualify "" "f") :=
    .declared find?_function (.plain (by decide)) .outside (fun _ => rfl) (by simp)
  have hspells : Spells ambiguousTypes "_20" _ :=
    .record he rfl (by decide) (.stop find?_function (.inr (by decide))) (by simp)
      (by simpa using hfunction)
  have hnormal : ambiguousTypes.normalizer.normalizeScoped ambiguousTypes.keepAll
      (Name.qualify "f" (localElement "_20" "L" "_19").name) = "f::L" :=
    (NameText.qualify (.inr hscope.nameText) hname.nameText).normalizeScoped_eq _ _
  exact .named he (by decide) (hnormal ▸ hspells)

/-- A constant. -/
def constInt :
    TypeTerm :=
  .qualified .const (.named "int".toList)

theorem denotes_constInt :
    Denotes ambiguousTypes "_2" constInt ∧ Denotes ambiguousTypes "_1c" constInt :=
  ⟨denotes_constant (by decide) (by decide) denotes_int,
    .derived (by decide) (by decide) denotes_int⟩

/-- A function without arguments. -/
def intFunction :
    TypeTerm :=
  .function (.named "int".toList) [] false

theorem plain_intFunction :
    Plain intFunction := by
  have hint : IsIdentifier "int" := by
    decide
  exact .function (.named hint.nameText.plainText) (by simp)

theorem denotes_functionPointers :
    Denotes ambiguousTypes "_8" intFunction ∧ Denotes ambiguousTypes "_10" (.pointer intFunction) := by
  have hfunction : Denotes ambiguousTypes "_8" intFunction :=
    denotes_function (by decide) denotes_int .nil
  exact ⟨hfunction, denotes_pointer (by decide) hfunction⟩

/-- A pointer to a function that returns a pointer to a function. -/
def outerPointer :
    TypeTerm :=
  .pointer (.function (.pointer intFunction) [] false)

/-- A function that returns a pointer to a pointer to a function. -/
def innerPointer :
    TypeTerm :=
  .function (.pointer (.pointer intFunction)) [] false

theorem denotes_outerPointer :
    Denotes ambiguousTypes "_12" outerPointer := by
  have hfunction : Denotes ambiguousTypes "_11" (.function (.pointer intFunction) [] false) :=
    denotes_function (by decide) denotes_functionPointers.2 .nil
  exact denotes_pointer (by decide) hfunction

theorem denotes_innerPointer :
    Denotes ambiguousTypes "_14" innerPointer := by
  have hpointer : Denotes ambiguousTypes "_13" (.pointer (.pointer intFunction)) :=
    denotes_pointer (by decide) denotes_functionPointers.2
  exact denotes_function (by decide) hpointer .nil

/-- The declarator goes into the parentheses of the result. -/
theorem spelling_outerPointer :
    outerPointer.spelling = innerPointer.spelling :=
  spelling_pointer_function (.pointer plain_intFunction) (by decide +kernel) (by decide +kernel)

/-- A method of a record in a function, with an argument `void` among others. -/
def methodTerm
    (r : TypeTerm) :
    TypeTerm :=
  .method r (.named "f::L".toList) [.named "void".toList, constInt] false true false

theorem clear_methodTerm
    (r : TypeTerm) :
    (methodTerm r).Clear := by
  rintro ⟨hargs, -⟩
  simp [spellings] at hargs

/-- The results of the two methods are different types that meet in one spelling, which does not matter
as the methods themselves are clear. -/
theorem typeName_injective_methods :
    PlainNames ambiguousTypes.index ∧
      (Denotes ambiguousTypes "_21" (methodTerm outerPointer) ∧ (methodTerm outerPointer).Clear) ∧
      (Denotes ambiguousTypes "_22" (methodTerm innerPointer) ∧ (methodTerm innerPointer).Clear) ∧
      SameSpelling ambiguousTypes "_21" "_22" ∧
      SameParts ambiguousTypes
        (methodElement "_21" "_12" "_20" ["_7", "_1c"] ["const", "restrict"])
        (methodElement "_22" "_14" "_20" ["_7", "_2"] ["const", "restrict"]) := by
  obtain ⟨hconst, hderived⟩ := denotes_constInt
  have he : ambiguousTypes.index.find? "_21" =
      some (methodElement "_21" "_12" "_20" ["_7", "_1c"] ["const", "restrict"]) := by
    decide +kernel
  have hf : ambiguousTypes.index.find? "_22" =
      some (methodElement "_22" "_14" "_20" ["_7", "_2"] ["const", "restrict"]) := by
    decide +kernel
  have houter : Denotes ambiguousTypes "_21" (methodTerm outerPointer) :=
    denotes_method he denotes_outerPointer denotes_localRecord
      (.cons denotes_void (.cons hderived .nil))
  have hinner : Denotes ambiguousTypes "_22" (methodTerm innerPointer) :=
    denotes_method hf denotes_innerPointer denotes_localRecord
      (.cons denotes_void (.cons hconst .nil))
  have hspelling : (methodTerm outerPointer).spelling = (methodTerm innerPointer).spelling := by
    simp only [methodTerm, spelling, spelling_outerPointer]
  have hsame : SameSpelling ambiguousTypes "_21" "_22" :=
    .of_spells (hspelling ▸ houter.spells) hinner.spells
  exact ⟨plainNames_ambiguousTypes, ⟨houter, clear_methodTerm _⟩, ⟨hinner, clear_methodTerm _⟩, hsame,
    (typeName_injective ambiguousTypes plainNames_ambiguousTypes he hf (by decide) (by decide) houter
      hinner (clear_methodTerm _) (clear_methodTerm _) hsame).mpr fun _ => rfl⟩

/-- The qualifiers of an array are written before its element type. -/
theorem ambiguous_constantArray :
    Ambiguous ambiguousTypes "_4" "_5" := by
  have hint : IsIdentifier "int" := by
    decide
  have harray : Denotes ambiguousTypes "_3" (.array (some 3) (.named "int".toList)) :=
    denotes_array (by decide) (by decide) denotes_int
  have hconst : Denotes ambiguousTypes "_4"
      (.qualified .const (.array (some 3) (.named "int".toList))) :=
    denotes_constant (by decide) (by decide) harray
  have hconstants : Denotes ambiguousTypes "_5" (.array (some 3) constInt) :=
    denotes_array (by decide) (by decide) denotes_constInt.1
  refine .of_denotes (e := constantElement "_4" "_3") (f := arrayElement "_5" "_2")
    (by decide) (by decide) (by decide) hconst hconstants
    (spelling_qualified_array (.named hint.nameText.plainText) (by decide) (by decide) (by decide)) ?_
  intro hsame
  exact absurd hsame.kind (by decide)

/-- No arguments are written as `void`. -/
theorem ambiguous_voidArgument :
    Ambiguous ambiguousTypes "_8" "_9" := by
  have hfunction : Denotes ambiguousTypes "_9"
      (.function (.named "int".toList) [.named "void".toList] false) :=
    denotes_function (by decide) denotes_int (.cons denotes_void .nil)
  refine .of_denotes (e := functionElement "_8" "_1" []) (f := functionElement "_9" "_1" ["_7"])
    (by decide) (by decide) (by decide) denotes_functionPointers.1 hfunction
    (spelling_void rfl).symm ?_
  intro hsame
  nomatch hsame.arguments (.inl rfl)

/-- A declarator goes into the first parentheses, which may be those of the result. -/
theorem ambiguous_functionPointerResult :
    Ambiguous ambiguousTypes "_12" "_14" := by
  refine .of_denotes (e := pointerElement "_12" "_11") (f := functionElement "_14" "_13" [])
    (by decide) (by decide) (by decide) denotes_outerPointer denotes_innerPointer
    spelling_outerPointer ?_
  intro hsame
  exact absurd hsame.kind (by decide)

/-- The class of a member pointer is written after the parentheses of the member's type. -/
theorem ambiguous_memberFunctionPointer :
    Ambiguous ambiguousTypes "_17" "_18" := by
  obtain ⟨hfunction, hpointer⟩ := denotes_functionPointers
  have hmember : Denotes ambiguousTypes "_16" (.member intFunction (.named "C".toList)) :=
    denotes_member (by decide) hfunction denotes_record
  have houter : Denotes ambiguousTypes "_17" (.pointer (.member intFunction (.named "C".toList))) :=
    denotes_pointer (by decide) hmember
  have hinner : Denotes ambiguousTypes "_18" (.member (.pointer intFunction) (.named "C".toList)) :=
    denotes_member (by decide) hpointer denotes_record
  refine .of_denotes (e := pointerElement "_17" "_16") (f := memberElement "_18" "_10" "_15")
    (by decide) (by decide) (by decide) houter hinner
    (spelling_pointer_member plain_intFunction (by decide +kernel) (.inl (by decide +kernel))) ?_
  intro hsame
  exact absurd hsame.kind (by decide)

/-- The `restrict` of a method is not written. -/
theorem ambiguous_restrictMethod :
    Ambiguous ambiguousTypes "_23" "_24" := by
  have he : ambiguousTypes.index.find? "_23" = some (methodElement "_23" "_1" "_15" [] []) := by
    decide +kernel
  have hf : ambiguousTypes.index.find? "_24" =
      some (methodElement "_24" "_1" "_15" [] ["restrict"]) := by
    decide +kernel
  refine .of_denotes he hf (by decide) (denotes_method he denotes_int denotes_record .nil)
    (denotes_method hf denotes_int denotes_record .nil) rfl ?_
  intro hsame
  exact absurd (hsame.qualifiers (.inr rfl)) (by decide)

/-- In a document with plain names, a constant array is spelled as an array of constants, no arguments
as an argument `void`, declarators meet in the same parentheses, and `restrict` is not spelled. -/
theorem typeName_ambiguous :
    PlainNames ambiguousTypes.index ∧ Ambiguous ambiguousTypes "_4" "_5" ∧
      Ambiguous ambiguousTypes "_8" "_9" ∧ Ambiguous ambiguousTypes "_12" "_14" ∧
      Ambiguous ambiguousTypes "_17" "_18" ∧ Ambiguous ambiguousTypes "_23" "_24" :=
  ⟨plainNames_ambiguousTypes, ambiguous_constantArray, ambiguous_voidArgument,
    ambiguous_functionPointerResult, ambiguous_memberFunctionPointer, ambiguous_restrictMethod⟩

end Ambiguity

end Namer
end TypeCatalog
