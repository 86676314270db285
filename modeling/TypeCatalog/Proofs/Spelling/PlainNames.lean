import TypeCatalog.Proofs.Spelling.Correspondence
import TypeCatalog.Proofs.Spelling.TypeTerm
import TypeCatalog.Text.Word

/-!
# Documents with plain names

**Input.** A document in which builtin types have builtin spellings or identifiers as names, records,
enumerations, typedefs and namespaces have identifiers, and the functions in which types are declared
have names without brackets and blanks.

**Results.**
* `normalizeScopedChars_eq_self`: a name without blanks and template brackets is normalized already.
* `PlainNames.plainText`: in such a document every type with a name has a plain text as its
  spelling.
-/

namespace TypeCatalog

open Text

section Characters

theorem isBlank_eq_false_of_isWord
    {c : Char}
    (h : isWord c = true) :
    isBlank c = false := by
  have hascii : ∀ k < 128, isWord (Char.ofNat k) = true → isBlank (Char.ofNat k) = false := by
    decide +kernel
  have hapart : ∀ r ∈ blankRanges, ∀ w ∈ wordRanges, r.2 < w.1 ∨ w.2 < r.1 := by
    decide +kernel
  by_cases hlow : c.toNat < 128
  · have hsmall := hascii c.toNat hlow
    rw [Char.ofNat_toNat] at hsmall
    exact hsmall h
  · rw [isWord, if_neg hlow, inRanges, List.any_eq_true] at h
    obtain ⟨w, hw, hin⟩ := h
    rw [isBlank, inRanges, List.any_eq_false]
    intro r hr hblank
    simp only [Bool.and_eq_true, decide_eq_true_eq] at hin hblank
    have hdisjoint := hapart r hr w hw
    omega

end Characters

section Normalizing

open Template

theorem replaceAll_eq_self
    {pat text : List Char} {c : Char} (new : List Char)
    (hpat : c ∈ pat)
    (htext : c ∉ text) :
    replaceAll pat new text = text := by
  rw [replaceAll]
  induction text with
  | nil =>
      rfl
  | cons x text ih =>
      have hnot : pat.isPrefixOf (x :: text) = false := by
        cases hprefix : pat.isPrefixOf (x :: text) with
        | false =>
            rfl
        | true =>
            have hsub := (List.isPrefixOf_iff_prefix.mp hprefix).subset
            exact absurd (hsub hpat) htext
      rw [replaceFrom, hnot]
      simp only [List.mem_cons, not_or] at htext
      simp [ih htext.2]

/-- All synonyms have a blank. -/
theorem foldSynonyms_eq_self
    {name : List Char}
    (h : ' ' ∉ name) :
    foldSynonyms name = name := by
  have hblank : ∀ p ∈ integerSynonyms ++ complexSynonyms, ' ' ∈ p.1.toList := by
    decide
  rw [foldSynonyms]
  generalize integerSynonyms ++ complexSynonyms = pairs at hblank
  induction pairs with
  | nil =>
      rfl
  | cons p pairs ih =>
      rw [List.foldl_cons, replaceAll_eq_self _ (hblank p (by simp)) h]
      exact ih fun p' hp' => hblank p' (List.mem_cons_of_mem p hp')

theorem trim_eq_self_of_unblank
    {name : List Char}
    (h : ∀ c ∈ name, isBlank c = false) :
    trim name = name :=
  trim_eq_self (fun c hc => h c (List.mem_of_head? hc)) (fun c hc => h c (List.mem_of_getLast? hc))

theorem instance?_eq_none
    {name : List Char}
    (h : '<' ∉ name) :
    instance? name = none := by
  cases hopen : splitOpen 0 name with
  | none =>
      simp [instance?, hopen]
  | some p =>
      exact absurd (by simp [splitOpen_eq_some hopen]) h

theorem normalizeChars_eq
    (n : Normalizer) (keepAll : Bool) {name : List Char}
    (h : '<' ∉ trim name) :
    n.normalizeChars keepAll name = foldSynonyms (trim name) := by
  rw [Normalizer.normalizeChars]
  split
  · rfl
  · next i hi =>
      rw [instance?_eq_none h] at hi
      cases hi

theorem normalizeChars_eq_self
    (n : Normalizer) (keepAll : Bool) {name : List Char}
    (hblank : ∀ c ∈ name, isBlank c = false)
    (hangle : '<' ∉ name) :
    n.normalizeChars keepAll name = name := by
  have htrim : trim name = name := trim_eq_self_of_unblank hblank
  have hspace : ' ' ∉ name := by
    intro h
    exact absurd (hblank ' ' h) (by decide)
  rw [normalizeChars_eq n keepAll (by rwa [htrim]), htrim, foldSynonyms_eq_self hspace]

theorem mem_joinWith
    {sep : String} {parts : List (List Char)} {part : List Char} {c : Char}
    (hpart : part ∈ parts)
    (hc : c ∈ part) :
    c ∈ joinWith sep parts := by
  induction parts with
  | nil =>
      cases hpart
  | cons p parts ih =>
      cases parts with
      | nil =>
          rw [List.mem_singleton.mp hpart] at hc
          simpa [joinWith] using hc
      | cons q rest =>
          have hcons : joinWith sep (p :: q :: rest) =
              p ++ (sep.toList ++ joinWith sep (q :: rest)) := by
            simp [joinWith, List.intercalate, List.intersperse]
          rw [hcons]
          rcases List.mem_cons.mp hpart with rfl | hpart
          · exact List.mem_append_left _ hc
          · exact List.mem_append_right _ (List.mem_append_right _ (ih hpart))

/-- A name without blanks and template brackets is normalized already. -/
theorem normalizeScopedChars_eq_self
    (n : Normalizer) (keepAll : Bool) {name : List Char}
    (hblank : ∀ c ∈ name, isBlank c = false)
    (hangle : '<' ∉ name) :
    n.normalizeScopedChars keepAll name = name := by
  have hpiece : ∀ piece ∈ Name.pieces .start name, n.normalizeChars keepAll piece = piece := by
    intro piece hpiece
    have hmem : ∀ c ∈ piece, c ∈ name := by
      intro c hc
      have hjoin : c ∈ joinWith "::" (Name.pieces .start name) := mem_joinWith hpiece hc
      rwa [Name.joinWith_pieces] at hjoin
    exact normalizeChars_eq_self n keepAll (fun c hc => hblank c (hmem c hc))
      fun h => hangle (hmem '<' h)
  have hmap : ((Name.pieces .start name).attach.map fun p => n.normalizeChars keepAll p.1) =
      Name.pieces .start name := by
    conv_rhs => rw [← List.attach_map_subtype_val (Name.pieces .start name)]
    exact List.map_congr_left fun p _ => hpiece p.1 p.2
  rw [Normalizer.normalizeScopedChars]
  exact (congrArg (joinWith "::") hmap).trans (Name.joinWith_pieces .start name)

end Normalizing

section Names

open TypeTerm

/-- The characters of a qualified name: no mark and no blank. -/
def isNameChar
    (c : Char) :
    Bool :=
  !isMark c && !isBlank c

/-- A qualified name. -/
structure NameText
    (name : List Char) :
    Prop where
  ne_nil : name ≠ []
  chars : ∀ c ∈ name, isNameChar c = true
  last : name.getLast? ≠ some ':'

theorem nameChar_cases
    {c : Char}
    (h : isNameChar c = true) :
    isMark c = false ∧ isBlank c = false := by
  simpa [isNameChar] using h

theorem isNameChar_of_isWord
    {c : Char}
    (h : isWord c = true) :
    isNameChar c = true := by
  simp [isNameChar, isMark_eq_false_of_class (by decide +kernel) h, isBlank_eq_false_of_isWord h]

theorem NameText.plainText
    {name : List Char}
    (h : NameText name) :
    PlainText name :=
  ⟨h.ne_nil, fun c hc => (nameChar_cases (h.chars c hc)).1, h.last⟩

theorem NameText.angle_not_mem
    {name : List Char}
    (h : NameText name) :
    '<' ∉ name := by
  intro hangle
  exact absurd (nameChar_cases (h.chars '<' hangle)).1 (by decide)

theorem NameText.normalizeChars_eq
    {name : List Char}
    (h : NameText name) (n : Template.Normalizer) (keepAll : Bool) :
    n.normalizeChars keepAll name = name :=
  normalizeChars_eq_self n keepAll (fun c hc => (nameChar_cases (h.chars c hc)).2) h.angle_not_mem

theorem NameText.normalizeScoped_eq
    {name : String}
    (h : NameText name.toList) (n : Template.Normalizer) (keepAll : Bool) :
    n.normalizeScoped keepAll name = name := by
  rw [Template.Normalizer.normalizeScoped, normalizeScopedChars_eq_self n keepAll
    (fun c hc => (nameChar_cases (h.chars c hc)).2) h.angle_not_mem, String.ofList_toList]

theorem NameText.qualify
    {scope name : String}
    (hscope : scope = "" ∨ NameText scope.toList)
    (hname : NameText name.toList) :
    NameText (Name.qualify scope name).toList := by
  rw [Name.qualify]
  split
  · exact hname
  · next hne =>
      have hscope : NameText scope.toList := by
        rcases hscope with rfl | hscope
        · exact absurd rfl hne
        · exact hscope
      have htext : (scope ++ "::" ++ name).toList = scope.toList ++ [':', ':'] ++ name.toList := by
        simp
      rw [htext]
      refine ⟨by simp, ?_, ?_⟩
      · intro c hc
        rcases List.mem_append.mp hc with hc | hc
        · rcases List.mem_append.mp hc with hc | hc
          · exact hscope.chars c hc
          · simp only [List.mem_cons, List.not_mem_nil, or_false, or_self] at hc
            rw [hc]
            decide +kernel
        · exact hname.chars c hc
      · rw [List.getLast?_append_of_ne_nil _ hname.ne_nil]
        exact hname.last

/-- The name is made of word characters. -/
def IsIdentifier
    (name : String) :
    Prop :=
  name ≠ "" ∧ ∀ c ∈ name.toList, isWord c = true

instance
    (name : String) :
    Decidable (IsIdentifier name) :=
  inferInstanceAs (Decidable (_ ∧ _))

theorem IsIdentifier.nameText
    {name : String}
    (h : IsIdentifier name) :
    NameText name.toList := by
  refine ⟨by simpa using h.1, fun c hc => isNameChar_of_isWord (h.2 c hc), ?_⟩
  intro hlast
  exact absurd (h.2 ':' (List.mem_of_getLast? hlast)) (by decide)

theorem IsIdentifier.nameText_anonymous
    {id : String}
    (h : IsIdentifier id) :
    NameText ("@anon@" ++ id).toList := by
  have htext : ("@anon@" ++ id).toList = "@anon@".toList ++ id.toList := by
    simp
  have hne : id.toList ≠ [] := h.nameText.ne_nil
  have hmark : ∀ c ∈ "@anon@".toList, isNameChar c = true := by
    decide +kernel
  rw [htext]
  refine ⟨by simp, ?_, ?_⟩
  · intro c hc
    rcases List.mem_append.mp hc with hc | hc
    · exact hmark c hc
    · exact h.nameText.chars c hc
  · rw [List.getLast?_append_of_ne_nil _ hne]
    exact h.nameText.last

/-- The spellings of the builtin types, and their canonical forms. -/
def builtinForms :
    List (String × String) :=
  [("void", "void"), ("bool", "bool"), ("char", "char"), ("signed char", "signed char"),
    ("unsigned char", "unsigned char"), ("wchar_t", "wchar_t"), ("char8_t", "char8_t"),
    ("char16_t", "char16_t"), ("char32_t", "char32_t"), ("short", "short"), ("short int", "short"),
    ("signed short", "signed short"), ("signed short int", "signed short"),
    ("unsigned short", "unsigned short"), ("unsigned short int", "unsigned short"),
    ("short unsigned int", "unsigned short"), ("int", "int"), ("signed", "signed"),
    ("signed int", "signed int"), ("unsigned", "unsigned"), ("unsigned int", "unsigned int"),
    ("long", "long"), ("long int", "long"), ("signed long", "signed long"),
    ("signed long int", "signed long"), ("unsigned long", "unsigned long"),
    ("unsigned long int", "unsigned long"), ("long unsigned int", "unsigned long"),
    ("long long", "long long"), ("long long int", "long long"),
    ("signed long long", "signed long long"), ("signed long long int", "signed long long"),
    ("unsigned long long", "unsigned long long"), ("unsigned long long int", "unsigned long long"),
    ("long long unsigned int", "unsigned long long"), ("__int128", "__int128"),
    ("unsigned __int128", "unsigned __int128"), ("float", "float"), ("double", "double"),
    ("long double", "long double"), ("complex float", "float complex"),
    ("complex double", "double complex"), ("complex long double", "long double complex"),
    ("float complex", "float complex"), ("double complex", "double complex"),
    ("long double complex", "long double complex")]

theorem normalizeChars_builtin
    (n : Template.Normalizer) {p : String × String}
    (h : p ∈ builtinForms) :
    n.normalizeChars false p.1.toList = p.2.toList := by
  have hall : ∀ p ∈ builtinForms, '<' ∉ trim p.1.toList ∧
      Template.foldSynonyms (trim p.1.toList) = p.2.toList := by
    decide +kernel
  obtain ⟨hangle, hfold⟩ := hall p h
  rw [normalizeChars_eq n false hangle, hfold]

theorem plainText_of_builtin
    {p : String × String}
    (h : p ∈ builtinForms) :
    PlainText p.2.toList := by
  have hall : ∀ p ∈ builtinForms, p.2.toList ≠ [] ∧ (∀ c ∈ p.2.toList, isMark c = false) ∧
      p.2.toList.getLast? ≠ some ':' := by
    decide +kernel
  obtain ⟨hne, hunmarked, hlast⟩ := hall p h
  exact ⟨hne, hunmarked, hlast⟩

end Names

namespace Namer

open TypeTerm

/-- The kinds of declarations whose names make up qualified names. -/
def declaringKinds :
    List ElementKind :=
  [.space, .classRecord, .structRecord, .unionRecord, .enumeration, .typedef]

/-- The kinds of types that have a name. -/
def namedKinds :
    List ElementKind :=
  [.fundamental, .classRecord, .structRecord, .unionRecord, .enumeration, .typedef]

/-- Names that are made up within the scope of the id are plain: it is a type or namespace, or it has
a name without marks and blanks, and its own scope is of this kind. -/
inductive PlainScope
    (index : Index) :
    String → Prop
  | declaring
      {id : String} {e : Element}
      (he : index.find? id = some e)
      (hkind : e.kind ∈ declaringKinds) :
      PlainScope index id
  | body
      {id name : String} {e : Element}
      (he : index.find? id = some e)
      (hname : LocalName e name)
      (htext : NameText name.toList)
      (hcontext : ∀ cid, NearestContext index e.context? (some cid) → PlainScope index cid) :
      PlainScope index id

/-- All names of types and namespaces are plain, and so are those of the functions in which types are
declared. A record or enumeration without a usable name is named by its id. -/
structure PlainNames
    (index : Index) :
    Prop where
  fundamental : ∀ id e, index.find? id = some e → e.kind = .fundamental →
    e.name ∈ builtinForms.map Prod.fst ∨ IsIdentifier e.name
  space : ∀ id e, index.find? id = some e → e.kind = .space →
    e.name = "" ∨ e.name = "::" ∨ IsIdentifier e.name
  typedef : ∀ id e, index.find? id = some e → e.kind = .typedef → IsIdentifier e.name
  named : ∀ id e, index.find? id = some e → e.kind.isRecord = true ∨ e.kind = .enumeration →
    e.isUnnamed = false → IsIdentifier e.name
  unnamed : ∀ id e, index.find? id = some e → e.kind.isRecord = true ∨ e.kind = .enumeration →
    e.isUnnamed = true → IsIdentifier e.id
  context : ∀ id e, index.find? id = some e → e.kind ∈ declaringKinds →
    ∀ cid, NearestContext index e.context? (some cid) → PlainScope index cid

/-- An element has one name within its scope. -/
theorem LocalName.unique
    {e : Element} {name name' : String}
    (h : LocalName e name)
    (h' : LocalName e name') :
    name = name' := by
  have hapart : ∀ k : ElementKind, k.isRecord = true ∨ k = .enumeration → k ∉ plainKinds := by
    intro k
    cases k <;> decide
  cases h <;> cases h' <;>
    first
    | rfl
    | exact absurd ‹_ ∈ plainKinds› (hapart _ ‹_ ∨ _›)
    | simp_all [plainKinds, ElementKind.isRecord]

/-- The kinds of elements that are not spelled by a name within their scope. -/
theorem LocalName.kind_ne
    {e : Element} {name : String}
    (h : LocalName e name) :
    e.kind ∉ [.pointer, .reference, .cvQualified, .array, .functionType, .methodType, .offset,
      .fundamental, .file] := by
  cases h with
  | unnamed hkind hunnamed =>
      revert hkind
      cases e.kind <;> decide
  | plain hkind =>
      revert hkind
      cases e.kind <;> decide
  | _ =>
      simp_all

section Plain

variable {n : Namer} (hplain : PlainNames n.index)
include hplain

theorem PlainNames.nameText_localName
    {id name : String} {e : Element}
    (he : n.index.find? id = some e)
    (hkind : e.kind ∈ declaringKinds)
    (hname : LocalName e name) :
    NameText name.toList := by
  cases hname with
  | anonymousSpace hkind hname =>
      refine ⟨by decide, ?_, by decide⟩
      decide +kernel
  | space hspace hname hglobal =>
      rcases hplain.space id e he hspace with h | h | h
      · exact absurd h hname
      · exact absurd h hglobal
      · exact h.nameText
  | unnamed hkind hunnamed =>
      exact (hplain.unnamed id e he hkind hunnamed).nameText_anonymous
  | enumeration henum hnamed =>
      exact (hplain.named id e he (.inr henum) hnamed).nameText
  | tildeDestructor hdestructor htilde =>
      simp [hdestructor, declaringKinds] at hkind
  | destructor hdestructor htilde =>
      simp [hdestructor, declaringKinds] at hkind
  | unimplemented hunimplemented =>
      simp [hunimplemented, declaringKinds] at hkind
  | plain hplainKind =>
      have htypedef : e.kind = .typedef := by
        revert hplainKind hkind
        cases e.kind <;> decide
      exact (hplain.typedef id e he htypedef).nameText

/-- What holds of a scope holds of the scope around it. -/
theorem PlainNames.outer
    {id cid : String} {e : Element}
    (h : PlainScope n.index id)
    (he : n.index.find? id = some e)
    (hcontext : NearestContext n.index e.context? (some cid)) :
    PlainScope n.index cid := by
  cases h with
  | declaring he' hkind =>
      rw [he] at he'
      cases he'
      exact hplain.context id e he hkind cid hcontext
  | body he' hname htext houter =>
      rw [he] at he'
      cases he'
      exact houter cid hcontext

/-- The spelling of a scope is empty or a qualified name, and empty only for a namespace. -/
theorem PlainNames.nameText
    {id name : String}
    (h : Spells n id name)
    (hscope : PlainScope n.index id) :
    (name = "" ∧ ∀ e, n.index.find? id = some e → e.kind = .space) ∨ NameText name.toList := by
  have hscoped : ∀ {id scope : String} {e : Element} {context : Option String},
      n.index.find? id = some e → PlainScope n.index id →
      NearestContext n.index e.context? context → (context = none → scope = "") →
      (∀ cid, context = some cid → PlainScope n.index cid →
        (scope = "" ∧ ∀ c, n.index.find? cid = some c → c.kind = .space) ∨
          NameText scope.toList) →
      scope = "" ∨ NameText scope.toList := by
    intro id scope e context he hscope hcontext houter ih
    cases context with
    | none =>
        exact .inl (houter rfl)
    | some cid =>
        exact (ih cid rfl (hplain.outer hscope he hcontext)).imp_left And.left
  -- an element with another kind of spelling is no scope
  have hapart : ∀ {id : String} {e : Element} {P : Prop}, n.index.find? id = some e →
      PlainScope n.index id →
      e.kind ∈ [.pointer, .reference, .cvQualified, .array, .functionType, .methodType, .offset,
        .fundamental, .file] → P := by
    intro id e P he hscope hkind
    have hdeclaring : ∀ k ∈ declaringKinds, k ∉ ([.pointer, .reference, .cvQualified, .array,
        .functionType, .methodType, .offset, .fundamental, .file] : List ElementKind) := by
      decide
    cases hscope with
    | declaring he' hkind' =>
        rw [he] at he'
        cases he'
        exact absurd hkind (hdeclaring _ hkind')
    | body he' hname htext houter =>
        rw [he] at he'
        cases he'
        exact absurd hkind hname.kind_ne
  induction h with
  | @globalSpace id e he hkind hname =>
      refine .inl ⟨rfl, fun e' he' => ?_⟩
      rw [he] at he'
      cases he'
      exact hkind
  | declared he hname hcontext houter hscope' ih =>
      refine .inr (.qualify (hscoped he hscope hcontext houter ih) ?_)
      cases hscope with
      | declaring he' hkind =>
          rw [he] at he'
          cases he'
          exact hplain.nameText_localName he hkind hname
      | body he' hname' htext houter' =>
          rw [he] at he'
          cases he'
          exact hname.unique hname' ▸ htext
  | record he hkind hnamed hcontext houter hscope' ih =>
      have hlocal := (hplain.named _ _ he (.inl hkind) hnamed).nameText
      have htext := NameText.qualify (hscoped he hscope hcontext houter ih) hlocal
      rw [htext.normalizeScoped_eq]
      exact .inr htext
  | pointer he hkind | reference he hkind | cvQualified he hkind | array he hkind
  | functionType he hkind | methodType he hkind | offset he hkind | fundamental he hkind
  | file he hkind =>
      exact hapart he hscope (by simp [hkind])
  | derived he hbase hunderlying ih =>
      cases hscope with
      | declaring he' hkind =>
          rw [he] at he'
          cases he'
      | body he' hname htext houter =>
          rw [he] at he'
          cases he'

/-- Every type with a name has a plain text as its spelling. -/
theorem PlainNames.plainText
    {id name : String} {e : Element}
    (h : Spells n id name)
    (he : n.index.find? id = some e)
    (hkind : e.kind ∈ namedKinds) :
    PlainText name.toList := by
  by_cases hfundamental : e.kind = .fundamental
  · have hyields := (spells_iff_yields .start).mp h
    rw [plan_of_find he, elementPlan, hfundamental] at hyields
    obtain rfl : n.normalizer.normalize false e.name = name := hyields
    rw [Template.Normalizer.normalize, String.toList_ofList]
    rcases hplain.fundamental id e he hfundamental with hbuiltin | hname
    · obtain ⟨p, hp, hname⟩ := List.mem_map.mp hbuiltin
      rw [← hname, normalizeChars_builtin n.normalizer hp]
      exact plainText_of_builtin hp
    · rw [hname.nameText.normalizeChars_eq]
      exact hname.nameText.plainText
  · have hdeclaring : e.kind ∈ declaringKinds ∧ e.kind ≠ .space := by
      revert hkind hfundamental
      cases e.kind <;> decide
    rcases hplain.nameText h (.declaring he hdeclaring.1) with ⟨-, hspace⟩ | htext
    · exact absurd (hspace e he) hdeclaring.2
    · exact htext.plainText

end Plain

end Namer

end TypeCatalog
