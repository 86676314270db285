import TypeCatalog.Proofs.Registration.Resolving
import TypeCatalog.Proofs.Spelling.FunctionParts

/-!
# Function types of one spelling

**Input.** A document without an element of the empty id, and two of its declarations that give
function types: function and method types, and the member functions that records list.

**Rule.** The spelling of a function type and the type itself are made in different places, but from
the same parts. Where the parts can be read off the spelling, declarations of one spelling give one
type, unless they differ in something that is not written: the qualifier `restrict` of a method, or
an argument `void`.

**Results.**
* `Makes.exists_functionParts`: a function type is made from parts of the declaration.
* `functionTypes_eq_iff`: when function types of one spelling are equal.
* `functionTypes_restrict_ne`: the methods of a document may have one spelling and different types.
-/

namespace TypeCatalog

namespace Source

open Registration Namer Spelling

/-- A declaration that gives a function type: an element that is one, or a member function that a
record lists. -/
inductive FunctionSource where
  | element (e : Element)
  | member (record m : Element)

namespace FunctionSource

/-- The element that states arguments and qualifiers. -/
def declaration :
    FunctionSource → Element
  | element e => e
  | member _ m => m

/-- The id of the class, if the type is that of a method. -/
def classId? :
    FunctionSource → Option String
  | element e => if e.kind = .methodType then e.attr? "basetype" else none
  | member record m => if m.flag "static" then none else some record.id

/-- Whether the type is that of a method with the qualifier `restrict`. -/
def isRestrict
    (f : FunctionSource) :
    Bool :=
  f.classId?.isSome && f.declaration.flag "restrict"

end FunctionSource

variable (s : Source)

/-- A registration makes the function type of a declaration. -/
inductive Makes :
    FunctionSource → DataType → Prop
  | element
      {e : Element} {t : DataType} {state state' : RegistrationState}
      (he : e ∈ s.elements)
      (hkind : e.kind = .functionType ∨ e.kind = .methodType)
      (hmemo : SoundMemo s.namer state.memo)
      (hrun : s.structuralType e state = .ok (t, state')) :
      Makes (.element e) t
  | member
      {record m : Element} {id name : String} {proto : Prototype} {state state' : RegistrationState}
      (hrecord : record ∈ s.elements)
      (hkind : record.kind.isRecord = true)
      (hname : s.Names record.id name)
      (hid : id ∈ record.memberIds)
      (hm : s.index.find? id = some m)
      (hfunction : m.kind.isMemberFunction = true)
      (hmemo : SoundMemo s.namer state.memo)
      (hrun : s.prototype m state = .ok (proto, state')) :
      Makes (.member record m) (memberFunctionType m name proto.typeOnly)

/-- The spellings of the arguments can be found again in a list of arguments, and the parentheses in
the spelling of the class match. -/
structure Legible
    (f : FunctionSource) :
    Prop where
  args : ∀ a ∈ f.declaration.arguments, ∀ name, s.Names a.type name → LegibleArgument name.toList
  cls : ∀ id ∈ f.classId?, ∀ name, s.Names id name → Balanced name.toList

/-- The parts are those that the declaration states. -/
structure PartsOf
    (f : FunctionSource) (parts : FunctionParts) :
    Prop where
  args : List.Forall₂ (fun (a : Argument) name => s.Names a.type name)
    f.declaration.arguments parts.args
  cls : ∀ m ∈ parts.method, ∃ id ∈ f.classId?, s.Names id m.cls
  restrict : parts.isRestrict = f.isRestrict

section Parts

variable {s}

theorem PrototypeOf.exists_parts
    {e : Element} {proto : Prototype}
    (h : s.PrototypeOf e proto) :
    ∃ result args, s.ResultOf e result ∧
      List.Forall₂ (fun (a : Argument) name => s.Names a.type name) e.arguments args ∧
      ∀ method, proto.typeOnly = FunctionParts.proto ⟨result, args, e.ellipsis, method⟩ := by
  obtain ⟨result, hresult, heq⟩ := h.result
  refine ⟨result, proto.params.map (·.type.name), hresult, ?_, fun method => ?_⟩
  · rw [List.forall₂_map_right_iff]
    refine h.params.imp fun a p hp => ?_
    obtain ⟨type, htype, rfl⟩ := hp
    exact htype
  · have hparams : ∀ p ∈ proto.params, p.type = .named p.type.name := by
      intro p hp
      obtain ⟨a, -, type, -, rfl⟩ := exists_of_forall₂_right h.params hp
      rfl
    simp only [Prototype.typeOnly, FunctionParts.proto, heq, h.variadic, List.map_map,
      Prototype.mk.injEq, and_true]
    refine List.map_congr_left fun p hp => ?_
    rw [Function.comp_apply, ← hparams p hp]

theorem spells_empty
    {n : Namer} {name : String}
    (hempty : n.index.find? "" = none) :
    ¬ Spells n "" name := by
  have hbase : qualifiedId? "" = none := by
    decide
  intro h
  rw [spells_iff_yields .start, plan, hempty, hbase] at h
  exact h

/-- The result in the spelling of a function type is that of its prototype. -/
theorem ResultOf.eq_of_spells
    {e : Element} {target name result : String}
    (h : s.ResultOf e result)
    (hempty : s.namer.index.find? "" = none)
    (htarget : e.attr? "returns" = some target)
    (hname : Spells s.namer target name) :
    name = result := by
  have hne : target ≠ "" := by
    rintro rfl
    exact spells_empty hempty hname
  have hid : e.resultId? = some target := by
    rw [Element.resultId?, htarget]
    simp [hne]
  rw [ResultOf, hid] at h
  exact hname.unique (names_iff.mp h)

/-- The arguments in the spelling of a function type are those of its prototype. -/
theorem args_eq_of_spells
    {as : List Argument} {args names : List String}
    (hargs : List.Forall₂ (fun (a : Argument) name => s.Names a.type name) as args)
    (hlength : names.length = as.length)
    (hnames : ∀ (i : Nat) a name, as[i]? = some a → names[i]? = some name →
      Spells s.namer a.type name) :
    names = args := by
  have hspells : List.Forall₂ (fun (a : Argument) name => s.Names a.type name) as names := by
    rw [List.forall₂_iff_get]
    refine ⟨hlength.symm, fun i hi hi' => ?_⟩
    exact names_iff.mpr
      (hnames i _ _ (List.getElem?_eq_getElem hi) (List.getElem?_eq_getElem hi'))
  have hunique : Relator.RightUnique fun (a : Argument) name => s.Names a.type name := by
    intro a name name' hname hname'
    exact Names.unique hname hname'
  exact List.right_unique_forall₂' hunique hspells hargs

theorem exists_functionParts_functionType
    {e : Element} {name : String} {proto : Prototype}
    (he : s.namer.index.find? e.id = some e)
    (hempty : s.namer.index.find? "" = none)
    (hkind : e.kind = .functionType)
    (hname : s.Names e.id name)
    (hproto : s.PrototypeOf e proto) :
    ∃ parts, DataType.function name proto.typeOnly = parts.type ∧ s.PartsOf (.element e) parts := by
  obtain ⟨result, args, hresult, hargs, htypeOnly⟩ := hproto.exists_parts
  have hyields := (spells_iff_yields .start).mp (names_iff.mp hname)
  rw [plan_of_find he, elementPlan, hkind] at hyields
  obtain ⟨target, r, htarget, hr, hyields⟩ := yields_targetPlan_iff.mp hyields
  obtain ⟨names, hlength, hnames, rfl⟩ := yields_argumentsPlan_iff.mp hyields
  refine ⟨⟨result, args, e.ellipsis, none⟩, ?_, hargs, by simp, ?_⟩
  · rw [htypeOnly none, hresult.eq_of_spells hempty htarget hr,
      args_eq_of_spells hargs hlength hnames]
    rfl
  · simp [FunctionParts.isRestrict, FunctionSource.isRestrict, FunctionSource.classId?, hkind]

theorem exists_functionParts_methodType
    {e : Element} {name : String} {proto : Prototype}
    (he : s.namer.index.find? e.id = some e)
    (hempty : s.namer.index.find? "" = none)
    (hkind : e.kind = .methodType)
    (hname : s.Names e.id name)
    (hproto : s.PrototypeOf e proto) :
    ∃ parts, methodType name proto.typeOnly e.qualifiers = parts.type ∧
      s.PartsOf (.element e) parts := by
  obtain ⟨result, args, hresult, hargs, htypeOnly⟩ := hproto.exists_parts
  have hyields := (spells_iff_yields .start).mp (names_iff.mp hname)
  rw [plan_of_find he, elementPlan, hkind] at hyields
  obtain ⟨target, r, htarget, hr, hyields⟩ := yields_targetPlan_iff.mp hyields
  obtain ⟨owner, cls, howner, hcls, hyields⟩ := yields_targetPlan_iff.mp hyields
  obtain ⟨names, hlength, hnames, rfl⟩ := yields_argumentsPlan_iff.mp hyields
  have hclass : FunctionSource.classId? (.element e) = some owner := by
    simp [FunctionSource.classId?, hkind, howner]
  refine ⟨⟨result, args, e.ellipsis, some (.ofElement cls e)⟩, ?_, hargs, ?_, ?_⟩
  · rw [htypeOnly (some (.ofElement cls e)), hresult.eq_of_spells hempty htarget hr,
      args_eq_of_spells hargs hlength hnames]
    rfl
  · rintro m ⟨⟩
    exact ⟨owner, hclass, names_iff.mpr hcls⟩
  · rw [FunctionSource.isRestrict, hclass]
    rfl

theorem exists_functionParts_member
    {record m : Element} {name : String} {proto : Prototype}
    (hname : s.Names record.id name)
    (hproto : s.PrototypeOf m proto) :
    ∃ parts, memberFunctionType m name proto.typeOnly = parts.type ∧
      s.PartsOf (.member record m) parts := by
  obtain ⟨result, args, hresult, hargs, htypeOnly⟩ := hproto.exists_parts
  have hnames : ∀ parts : FunctionParts, parts.proto.params.map (·.type.name) = parts.args := by
    intro parts
    simp [FunctionParts.proto, TypeRef.named, Function.comp_def]
  cases hstatic : m.flag "static" with
  | true =>
      refine ⟨⟨result, args, m.ellipsis, none⟩, ?_, hargs, by simp, ?_⟩
      · simp only [memberFunctionType, hstatic, htypeOnly none, hnames, if_true]
        rfl
      · simp [FunctionParts.isRestrict, FunctionSource.isRestrict, FunctionSource.classId?, hstatic]
  | false =>
      have hclass : FunctionSource.classId? (.member record m) = some record.id := by
        simp [FunctionSource.classId?, hstatic]
      refine ⟨⟨result, args, m.ellipsis, some (.ofElement name m)⟩, ?_, hargs, ?_, ?_⟩
      · simp only [memberFunctionType, hstatic, htypeOnly (some (.ofElement name m)), hnames]
        rfl
      · rintro p ⟨⟩
        exact ⟨record.id, hclass, hname⟩
      · rw [FunctionSource.isRestrict, hclass]
        rfl

/-- A function type is made from the parts that its declaration states. -/
theorem Makes.exists_functionParts
    {f : FunctionSource} {t : DataType}
    (h : s.Makes f t)
    (hfind : ∀ e ∈ s.elements, s.namer.index.find? e.id = some e)
    (hempty : s.namer.index.find? "" = none) :
    ∃ parts, t = parts.type ∧ s.PartsOf f parts := by
  cases h with
  | @element e t state state' he hkind hmemo hrun =>
      have hstructural : e.kind ∈ structuralKinds := by
        rcases hkind with hk | hk <;> simp [hk, structuralKinds]
      obtain ⟨-, htype, -⟩ := s.asks_structuralType e hstructural state t state' hmemo hrun
      cases htype with
      | functionType hk hname hproto =>
          exact exists_functionParts_functionType (hfind e he) hempty hk hname hproto
      | methodType hk hname hproto =>
          exact exists_functionParts_methodType (hfind e he) hempty hk hname hproto
      | _ =>
          simp_all
  | member hrecord hkind hname hid hm hfunction hmemo hrun =>
      obtain ⟨-, hproto, -⟩ := s.asks_prototype _ _ _ _ hmemo hrun
      exact exists_functionParts_member hname hproto

theorem PartsOf.legible
    {f : FunctionSource} {parts : FunctionParts}
    (h : s.PartsOf f parts)
    (hlegible : s.Legible f) :
    parts.Legible := by
  refine ⟨fun name hname => ?_, fun m hm => ?_⟩
  · obtain ⟨a, ha, hspelled⟩ := exists_of_forall₂_right h.args hname
    exact hlegible.args a ha name hspelled
  · obtain ⟨id, hid, hspelled⟩ := h.cls m hm
    exact hlegible.cls id hid m.cls hspelled

end Parts

/-- Two declarations of a document whose function types have one spelling give equal types, unless
just one of them is a method with the qualifier `restrict`, or just one states an argument
`void`. -/
theorem functionTypes_eq_iff
    (d : Document) (n : Template.Normalizer) (o : RegistrationOptions)
    {f g : FunctionSource} {t t' : DataType}
    (hempty : d.index.find? "" = none)
    (ht : (ofDocument d n o).Makes f t)
    (ht' : (ofDocument d n o).Makes g t')
    (hf : (ofDocument d n o).Legible f)
    (hg : (ofDocument d n o).Legible g)
    (hspelling : t.header.qualified = t'.header.qualified) :
    t = t' ↔ f.isRestrict = g.isRestrict ∧
      f.declaration.arguments.length = g.declaration.arguments.length := by
  have hfind : ∀ e ∈ (ofDocument d n o).elements, d.index.find? e.id = some e :=
    fun e he => Document.find?_of_mem_canonical he
  obtain ⟨parts, rfl, hparts⟩ := ht.exists_functionParts hfind hempty
  obtain ⟨parts', rfl, hparts'⟩ := ht'.exists_functionParts hfind hempty
  rw [FunctionParts.qualified_type, FunctionParts.qualified_type] at hspelling
  rw [FunctionParts.type_eq_iff_of_spelling_eq (hparts.legible hf) (hparts'.legible hg) hspelling,
    hparts.restrict, hparts'.restrict, hparts.args.length_eq, hparts'.args.length_eq]

section Samples

open Catalog

/-- A registration that begins with an empty catalog makes the type of an element. -/
theorem Makes.of_element
    {s : Source} {e : Element} {t : DataType}
    (he : e ∈ s.elements)
    (hkind : e.kind = .functionType ∨ e.kind = .methodType)
    (hrun : (s.structuralType e ⟨empty, ∅⟩).map Prod.fst = .ok t) :
    s.Makes (.element e) t := by
  cases hresult : s.structuralType e ⟨empty, ∅⟩ with
  | error err =>
      rw [hresult] at hrun
      cases hrun
  | ok p =>
      rw [hresult] at hrun
      cases hrun
      exact .element he hkind soundMemo_empty hresult

/-- A registration that begins with an empty catalog makes the type of a member function. -/
theorem Makes.of_member
    {s : Source} {record m : Element} {name : String} (id : String) (proto : Prototype)
    (hrecord : record ∈ s.elements ∧ record.kind.isRecord = true ∧ s.Names record.id name)
    (hm : id ∈ record.memberIds ∧ s.index.find? id = some m ∧ m.kind.isMemberFunction = true)
    (hrun : (s.prototype m ⟨empty, ∅⟩).map Prod.fst = .ok proto) :
    s.Makes (.member record m) (memberFunctionType m name proto.typeOnly) := by
  obtain ⟨hmem, hkind, hname⟩ := hrecord
  obtain ⟨hid, hfind, hfunction⟩ := hm
  cases hresult : s.prototype m ⟨empty, ∅⟩ with
  | error err =>
      rw [hresult] at hrun
      cases hrun
  | ok p =>
      rw [hresult] at hrun
      cases hrun
      exact .member hmem hkind hname hid hfind hfunction soundMemo_empty hresult

/-- A static member function. -/
def staticMethod :
    Element :=
  { Element.bare "Method" "_5" with
    attributes := [("name", "f"), ("context", "_4"), ("returns", "_1"), ("static", "1"),
      ("access", "public")]
    arguments := [⟨"x", "_3", some "0"⟩] }

/-- The struct that lists the static member function. -/
def staticHolder :
    Element :=
  { Element.bare "Struct" "_4" with attributes := [("name", "S"), ("members", "_5")] }

/-- The function type of the same spelling. -/
def instanceFunction :
    Element :=
  { Element.bare "FunctionType" "_6" with
    attributes := [("returns", "_1")]
    arguments := [⟨"", "_3", none⟩] }

/-- A static member function and a function type with an argument that is a template instance. -/
def staticDocument :
    Document :=
  .ofElements
    [{ Element.bare "FundamentalType" "_1" with attributes := [("name", "int")] },
     { Element.bare "FundamentalType" "_2" with attributes := [("name", "char")] },
     { Element.bare "Struct" "_3" with attributes := [("name", "A<int, char>")] },
     staticHolder, staticMethod, instanceFunction]

/-- The prototype of both, with the argument's name and whether it has a default. -/
def instanceProto
    (name : String) (hasDefault : Bool) :
    Prototype :=
  ⟨[⟨name, .named "A<int,char>", hasDefault⟩], .named "int", false⟩

theorem legible_staticDocument
    {f : FunctionSource}
    (harguments : ∀ a ∈ f.declaration.arguments, a.type = "_3")
    (hclass : f.classId? = none) :
    (sourceOf staticDocument).Legible f := by
  refine ⟨fun a ha name hname => ?_, by simp [hclass]⟩
  have hnamed : (sourceOf staticDocument).Names "_3" "A<int,char>" := by
    decide +kernel
  rw [harguments a ha] at hname
  rw [hname.unique hnamed]
  have hwhole : Template.Whole ',' ("A".toList ++ '<' :: ("int,char".toList ++ ['>'])) :=
    (Template.whole_of_plain (by decide) (by decide)).append
      (Template.whole_group (by decide) (Template.nested_of_plain (by decide)))
  exact ⟨rfl, hwhole, by decide⟩

theorem functionTypes_eq_iff_static :
    (staticDocument.repair .standard).index.find? "" = none ∧
      (sourceOf staticDocument).Makes (.member staticHolder staticMethod)
        (memberFunctionType staticMethod "S" (instanceProto "x" true).typeOnly) ∧
      (sourceOf staticDocument).Makes (.element instanceFunction)
        (.function "int()(A<int,char>)" (instanceProto "" false)) ∧
      (sourceOf staticDocument).Legible (.member staticHolder staticMethod) ∧
      (sourceOf staticDocument).Legible (.element instanceFunction) ∧
      memberFunctionType staticMethod "S" (instanceProto "x" true).typeOnly =
        .function "int()(A<int,char>)" (instanceProto "" false) := by
  have hempty : (staticDocument.repair .standard).index.find? "" = none := by
    decide +kernel
  have hmember : (sourceOf staticDocument).Makes (.member staticHolder staticMethod)
      (memberFunctionType staticMethod "S" (instanceProto "x" true).typeOnly) :=
    .of_member "_5" (instanceProto "x" true) (by decide +kernel) (by decide +kernel)
      (by decide +kernel)
  have helement : (sourceOf staticDocument).Makes (.element instanceFunction)
      (.function "int()(A<int,char>)" (instanceProto "" false)) :=
    .of_element (by decide +kernel) (by decide +kernel) (by decide +kernel)
  have hlegible : (sourceOf staticDocument).Legible (.member staticHolder staticMethod) :=
    legible_staticDocument (by decide) (by decide)
  have hlegible' : (sourceOf staticDocument).Legible (.element instanceFunction) :=
    legible_staticDocument (by decide) (by decide)
  have hiff := functionTypes_eq_iff _ _ _ hempty hmember helement hlegible hlegible' (by decide)
  exact ⟨hempty, hmember, helement, hlegible, hlegible', hiff.mpr (by decide)⟩

/-- A method that returns `int`, with further attributes. -/
def intMethod
    (id name : String) (attributes : List (String × String)) :
    Element :=
  { Element.bare "Method" id with
    attributes := [("name", name), ("context", "_2"), ("returns", "_1"), ("access", "public")]
      ++ attributes }

/-- The struct of the methods. -/
def methodHolder :
    Element :=
  { Element.bare "Struct" "_2" with attributes := [("name", "S"), ("members", "_3 _4")] }

/-- Two methods, one of them with the qualifier `restrict`. -/
def restrictDocument :
    Document :=
  .ofElements
    [{ Element.bare "FundamentalType" "_1" with attributes := [("name", "int")] }, methodHolder,
     intMethod "_3" "f" [], intMethod "_4" "g" [("restrict", "1")]]

/-- Methods that differ in the qualifier `restrict` have one spelling and different types. -/
theorem functionTypes_restrict_ne :
    ∃ t t', (sourceOf restrictDocument).Makes (.member methodHolder (intMethod "_3" "f" [])) t ∧
      (sourceOf restrictDocument).Makes
        (.member methodHolder (intMethod "_4" "g" [("restrict", "1")])) t' ∧
      t.header.qualified = "int(S::)(void)" ∧ t'.header.qualified = "int(S::)(void)" ∧ t ≠ t' := by
  have hfirst : (sourceOf restrictDocument).Makes (.member methodHolder (intMethod "_3" "f" []))
      (memberFunctionType (intMethod "_3" "f" []) "S" ⟨[], .named "int", false⟩) :=
    .of_member "_3" ⟨[], .named "int", false⟩ (by decide +kernel)
      (by decide +kernel) (by decide +kernel)
  have hsecond : (sourceOf restrictDocument).Makes
      (.member methodHolder (intMethod "_4" "g" [("restrict", "1")]))
      (memberFunctionType (intMethod "_4" "g" [("restrict", "1")]) "S" ⟨[], .named "int", false⟩) :=
    .of_member "_4" ⟨[], .named "int", false⟩ (by decide +kernel)
      (by decide +kernel) (by decide +kernel)
  exact ⟨_, _, hfirst, hsecond, by decide, by decide, by decide⟩

end Samples

end Source

end TypeCatalog
