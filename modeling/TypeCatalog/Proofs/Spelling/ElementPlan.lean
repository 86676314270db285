import TypeCatalog.Proofs.Spelling.Context
import TypeCatalog.Proofs.Spelling.Plan

/-!
# The plans of elements and ids

**Rule.** Every element has a plan that mirrors the rule of its kind, and an id has the plan of its
element, or requests its base when it is the qualified form of another id.

**Results.**
* `spellId_eq_run`: the spelling of an id runs its plan.
* `element_cases`: how elements are spelled, by cases.
-/

namespace TypeCatalog

/-- Goes on with a result, or fails with its error. -/
def Plan.ofExcept
    {α : Type} (x : Except DocumentError α) (next : α → Plan) :
    Plan :=
  match x with
  | .error e => .fail e
  | .ok a => next a

namespace Namer

/-- Requests the id that an attribute holds. -/
def targetPlan
    (e : Element) (attr : String) (next : String → Plan) :
    Plan :=
  .ofExcept (e.required attr) fun id => .ask id next

/-- Requests the scope of an element. -/
def scopePlan
    (n : Namer) (e : Element) (next : String → Plan) :
    Plan :=
  .ofExcept (namedContext? n.index e.id (n.index.size + 1) e.context?) fun
    | none => next ""
    | some id => .ask id next

/-- Requests the types of the arguments. -/
def argumentsPlan
    (e : Element) (next : List String → Plan) :
    Plan :=
  .askAll (e.arguments.map (·.type)) next

/-- Requests the scope of an element and puts the name into it. -/
def namePlan
    (n : Namer) (e : Element) (name : String) :
    Plan :=
  n.scopePlan e fun scope => .done (Name.qualify scope name)

/-- The plan of an element. -/
def elementPlan
    (n : Namer) (e : Element) :
    Plan :=
  match e.kind with
  | .space =>
      if e.name = "::" then .done ""
      else n.namePlan e (if e.name = "" then "@anonymous@namespace@" else e.name)
  | .classRecord | .structRecord | .unionRecord =>
      if e.isUnnamed then n.namePlan e ("@anon@" ++ e.id)
      else n.scopePlan e fun scope =>
        .done (n.normalizer.normalizeScoped n.keepAll (Name.qualify scope e.name))
  | .enumeration => n.namePlan e (if e.isUnnamed then "@anon@" ++ e.id else e.name)
  | .pointer =>
      targetPlan e "type" fun pointee =>
        .done (String.ofList (Spelling.addDeclarator pointee.toList ['*']))
  | .reference =>
      targetPlan e "type" fun referent =>
        .done (String.ofList (Spelling.addDeclarator referent.toList ['&']))
  | .cvQualified =>
      targetPlan e "type" fun underlying =>
        .done (String.ofList (Spelling.qualify underlying.toList e.qualifiers))
  | .array =>
      targetPlan e "type" fun element => .ofExcept e.arrayDimension fun dimension =>
        .done (String.ofList (Spelling.addDeclarator element.toList dimension))
  | .functionType =>
      targetPlan e "returns" fun result => argumentsPlan e fun names =>
        .done (Spelling.functionSpelling result (Spelling.argumentList names e.ellipsis))
  | .methodType =>
      targetPlan e "returns" fun result => targetPlan e "basetype" fun cls =>
        argumentsPlan e fun names =>
          .done (Spelling.methodSpelling result cls (Spelling.argumentList names e.ellipsis)
            (e.flag "const") (e.flag "volatile"))
  | .offset =>
      targetPlan e "type" fun type => targetPlan e "basetype" fun cls =>
        .done (type ++ " " ++ cls ++ "::*")
  | .fundamental => .done (n.normalizer.normalize false e.name)
  | .destructor =>
      n.namePlan e (if e.name.toList.head? = some '~' then e.name else "~" ++ e.name)
  | .unimplemented => n.namePlan e (((e.attr? "tree_code_name").filter (· != "")).getD e.tag)
  | .file => .done e.name
  | .spaceAlias | .typedef | .function | .operatorFunction | .method | .operatorMethod
  | .constructor | .converter | .field | .data => n.namePlan e e.name

/-- The plan of an id on a trail. -/
def plan
    (n : Namer) (trail : Trail) (id : String) :
    Plan :=
  match n.index.find? id with
  | some e => n.elementPlan e
  | none =>
      match Spelling.qualifiedId? id with
      | none => .fail (trail.unknown id)
      | some (base, q) =>
          .ask base fun underlying =>
            .done (String.ofList (Spelling.qualify underlying.toList q))

section Runs

variable (n : Namer) (nameOf : String → Spelled String) (e : Element)

theorem run_ofExcept
    {α : Type} (x : Except DocumentError α) (next : α → Plan) :
    (Plan.ofExcept x next).run nameOf = (liftM x : Spelled α) >>= fun a => (next a).run nameOf := by
  cases x <;> rfl

theorem run_targetPlan
    (attr : String) (next : String → Plan) :
    (targetPlan e attr next).run nameOf =
      ((liftM (e.required attr) : Spelled String) >>= nameOf) >>= fun s =>
        (next s).run nameOf := by
  rw [targetPlan, run_ofExcept, bind_assoc]
  rfl

theorem run_scopePlan
    (next : String → Plan) :
    (n.scopePlan e next).run nameOf = n.scopeOf nameOf e >>= fun s => (next s).run nameOf := by
  unfold scopePlan scopeOf
  cases namedContext? n.index e.id (n.index.size + 1) e.context? with
  | error err =>
      rfl
  | ok found =>
      cases found <;> rfl

theorem run_argumentsPlan
    (next : List String → Plan) :
    (argumentsPlan e next).run nameOf =
      (e.arguments.mapM fun a => nameOf a.type) >>= fun names => (next names).run nameOf := by
  rw [argumentsPlan, Plan.run_askAll, List.mapM_map]
  rfl

theorem spellElement_eq_run :
    n.spellElement nameOf e = (n.elementPlan e).run nameOf := by
  unfold spellElement elementPlan
  cases hkind : e.kind <;>
    simp [namePlan, run_scopePlan, run_targetPlan, run_argumentsPlan, run_ofExcept, Plan.run,
      apply_ite (Plan.run nameOf)]

theorem spellId_eq_run
    (trail : Trail) (id : String) :
    n.spellId trail nameOf id = (n.plan trail id).run nameOf := by
  unfold spellId plan
  cases n.index.find? id with
  | some e =>
      exact n.spellElement_eq_run nameOf e
  | none =>
      cases Spelling.qualifiedId? id <;> rfl

end Runs

section Views

variable {n : Namer} {e : Element} {r : String → String → Prop} {name : String}

theorem yields_ofExcept_iff
    {α : Type} {x : Except DocumentError α} {next : α → Plan} :
    (Plan.ofExcept x next).Yields r name ↔ ∃ a, x = .ok a ∧ (next a).Yields r name := by
  cases x <;> simp [Plan.ofExcept, Plan.Yields]

theorem required_eq_ok_iff
    {attr id : String} :
    e.required attr = .ok id ↔ e.attr? attr = some id := by
  unfold Element.required
  cases e.attr? attr <;> simp

theorem yields_targetPlan_iff
    {attr : String} {next : String → Plan} :
    (targetPlan e attr next).Yields r name ↔
      ∃ id s, e.attr? attr = some id ∧ r id s ∧ (next s).Yields r name := by
  rw [targetPlan, yields_ofExcept_iff]
  simp only [required_eq_ok_iff, Plan.Yields]
  constructor
  · rintro ⟨id, hattr, s, hs, h⟩
    exact ⟨id, s, hattr, hs, h⟩
  · rintro ⟨id, s, hattr, hs, h⟩
    exact ⟨id, hattr, s, hs, h⟩

theorem yields_argumentsPlan_iff
    {next : List String → Plan} :
    (argumentsPlan e next).Yields r name ↔
      ∃ names : List String, names.length = e.arguments.length ∧
        (∀ (i : Nat) a s, e.arguments[i]? = some a → names[i]? = some s → r a.type s) ∧
        (next names).Yields r name := by
  rw [argumentsPlan, Plan.yields_askAll_iff]
  simp only [List.length_map, List.getElem?_map, Option.map_eq_some_iff]
  constructor
  · rintro ⟨names, hlength, hnames, h⟩
    exact ⟨names, hlength, fun i a s ha hs => hnames i a.type s ⟨a, ha, rfl⟩ hs, h⟩
  · rintro ⟨names, hlength, hnames, h⟩
    refine ⟨names, hlength, ?_, h⟩
    rintro i id s ⟨a, ha, rfl⟩ hs
    exact hnames i a s ha hs

theorem namedContext?_eq_ok_iff
    {found : Option String} :
    namedContext? n.index e.id (n.index.size + 1) e.context? = .ok found ↔
      NearestContext n.index e.context? found := by
  have hstart : Climbed n.index [] e.context? := ⟨.nil, by simp, by simp⟩
  constructor
  · exact nearestContext_of_namedContext?
  · intro h
    exact h.namedContext?_eq hstart (by simp)

theorem yields_scopePlan_iff
    {next : String → Plan} :
    (n.scopePlan e next).Yields r name ↔
      ∃ context scope, NearestContext n.index e.context? context ∧
        (context = none → scope = "") ∧ (∀ cid, context = some cid → r cid scope) ∧
        (next scope).Yields r name := by
  rw [scopePlan, yields_ofExcept_iff]
  simp only [namedContext?_eq_ok_iff]
  constructor
  · rintro ⟨found, hfound, h⟩
    cases found with
    | none =>
        exact ⟨none, "", hfound, fun _ => rfl, by simp, h⟩
    | some cid =>
        obtain ⟨s, hs, h⟩ := h
        refine ⟨some cid, s, hfound, by simp, ?_, h⟩
        rintro cid' ⟨⟩
        exact hs
  · rintro ⟨context, scope, hcontext, houter, hscope, h⟩
    refine ⟨context, hcontext, ?_⟩
    cases context with
    | none =>
        rw [houter rfl] at h
        exact h
    | some cid =>
        exact ⟨scope, hscope cid rfl, h⟩

theorem yields_namePlan_iff
    {localName : String} :
    (n.namePlan e localName).Yields r name ↔
      ∃ context scope, NearestContext n.index e.context? context ∧
        (context = none → scope = "") ∧ (∀ cid, context = some cid → r cid scope) ∧
        Name.qualify scope localName = name :=
  yields_scopePlan_iff

end Views

section Kinds

variable {n : Namer} {e : Element}

theorem elementPlan_of_localName
    {name : String}
    (h : LocalName e name) :
    n.elementPlan e = n.namePlan e name := by
  cases h with
  | anonymousSpace hkind hname =>
      simp [elementPlan, hkind, hname]
  | space hkind hname hglobal =>
      simp [elementPlan, hkind, hname, hglobal]
  | unnamed hkind hunnamed =>
      unfold elementPlan
      cases hk : e.kind <;> simp_all [ElementKind.isRecord]
  | enumeration hkind hnamed =>
      simp [elementPlan, hkind, hnamed]
  | tildeDestructor hkind htilde =>
      simp [elementPlan, hkind, htilde]
  | destructor hkind htilde =>
      simp [elementPlan, hkind, htilde]
  | unimplemented hkind =>
      simp [elementPlan, hkind]
  | plain hkind =>
      unfold elementPlan
      cases hk : e.kind <;> simp_all [plainKinds]

theorem elementPlan_of_record
    (hkind : e.kind.isRecord = true)
    (hnamed : e.isUnnamed = false) :
    n.elementPlan e = n.scopePlan e fun scope =>
      .done (n.normalizer.normalizeScoped n.keepAll (Name.qualify scope e.name)) := by
  unfold elementPlan
  cases hk : e.kind <;> simp_all [ElementKind.isRecord]

/-- Every element is the global namespace, has a local name, is a record with a name, or is of one
of the kinds whose spelling depends on no scope. -/
theorem element_cases
    (e : Element) :
    (e.kind = .space ∧ e.name = "::") ∨ (∃ name, LocalName e name) ∨
      (e.kind.isRecord = true ∧ e.isUnnamed = false) ∨
      e.kind ∈ [.pointer, .reference, .cvQualified, .array, .functionType, .methodType, .offset,
        .fundamental, .file] := by
  by_cases hplain : e.kind ∈ plainKinds
  · exact .inr (.inl ⟨_, .plain hplain⟩)
  · cases hk : e.kind with
    | space =>
        by_cases hglobal : e.name = "::"
        · exact .inl ⟨rfl, hglobal⟩
        · by_cases hname : e.name = ""
          · exact .inr (.inl ⟨_, .anonymousSpace hk hname⟩)
          · exact .inr (.inl ⟨_, .space hk hname hglobal⟩)
    | classRecord | structRecord | unionRecord =>
        cases hunnamed : e.isUnnamed with
        | true =>
            exact .inr (.inl ⟨_, .unnamed (.inl (by simp [hk, ElementKind.isRecord])) hunnamed⟩)
        | false =>
            exact .inr (.inr (.inl ⟨rfl, rfl⟩))
    | enumeration =>
        cases hunnamed : e.isUnnamed with
        | true =>
            exact .inr (.inl ⟨_, .unnamed (.inr hk) hunnamed⟩)
        | false =>
            exact .inr (.inl ⟨_, .enumeration hk hunnamed⟩)
    | destructor =>
        by_cases htilde : e.name.toList.head? = some '~'
        · exact .inr (.inl ⟨_, .tildeDestructor hk htilde⟩)
        · exact .inr (.inl ⟨_, .destructor hk htilde⟩)
    | unimplemented =>
        exact .inr (.inl ⟨_, .unimplemented hk⟩)
    | spaceAlias | typedef | function | operatorFunction | method | operatorMethod | constructor
    | converter | field | data =>
        simp [plainKinds, hk] at hplain
    | pointer | reference | cvQualified | array | functionType | methodType | offset | fundamental
    | file =>
        simp

end Kinds

end Namer
end TypeCatalog
