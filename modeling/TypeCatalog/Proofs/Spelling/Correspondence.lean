import TypeCatalog.Proofs.Spelling.ElementPlan

/-!
# The rules of spelling and the plans of ids

**Rule.** The plan of an id yields, by the spellings of what it requests, what the rules of spelling
give. So the rules can be used one step at a time without going through them one by one.

**Results.**
* `Spells.induct`: induction over spellings, with one case in terms of the plan.
* `spells_iff_yields`: an id has the spellings that its plan yields.
* `refers_of_mentions`, `needs_of_refers`: a plan requests exactly what the rules refer to.
* `not_fails_cyclic`: no plan reports a cyclic reference by itself.
* `Spells.not_cyclic`: what is spelled does not refer to itself.
* `Spells.unique`: an id has at most one spelling.
-/

namespace TypeCatalog
namespace Namer

theorem plan_of_find
    {n : Namer} {trail : Trail} {id : String} {e : Element}
    (he : n.index.find? id = some e) :
    n.plan trail id = n.elementPlan e := by
  simp [plan, he]

theorem plan_of_qualifiedId
    {n : Namer} {trail : Trail} {id base : String} {q : Qualifiers}
    (he : n.index.find? id = none)
    (hbase : Spelling.qualifiedId? id = some (base, q)) :
    n.plan trail id = .ask base fun underlying =>
      .done (String.ofList (Spelling.qualify underlying.toList q)) := by
  simp [plan, he, hbase]

section Spellings

variable {n : Namer}

/-- Induction over spellings: it is enough to go from what a plan requests to what it yields. -/
theorem Spells.induct
    {P : String → String → Prop} (trail : Trail)
    (hstep : ∀ id name,
      (n.plan trail id).Yields (fun dep s => Spells n dep s ∧ P dep s) name → P id name)
    {id name : String}
    (h : Spells n id name) :
    P id name := by
  induction h with
  | globalSpace he hkind hname =>
      apply hstep
      rw [plan_of_find he]
      simp [elementPlan, hkind, hname, Plan.Yields]
  | declared he hname hcontext houter hscope ih =>
      apply hstep
      rw [plan_of_find he, elementPlan_of_localName hname, yields_namePlan_iff]
      exact ⟨_, _, hcontext, houter, fun cid hcid => ⟨hscope cid hcid, ih cid hcid⟩, rfl⟩
  | record he hkind hnamed hcontext houter hscope ih =>
      apply hstep
      rw [plan_of_find he, elementPlan_of_record hkind hnamed, yields_scopePlan_iff]
      exact ⟨_, _, hcontext, houter, fun cid hcid => ⟨hscope cid hcid, ih cid hcid⟩, rfl⟩
  | pointer he hkind htarget hpointee ih =>
      apply hstep
      rw [plan_of_find he, elementPlan, hkind]
      exact yields_targetPlan_iff.mpr ⟨_, _, htarget, ⟨hpointee, ih⟩, rfl⟩
  | reference he hkind htarget hreferent ih =>
      apply hstep
      rw [plan_of_find he, elementPlan, hkind]
      exact yields_targetPlan_iff.mpr ⟨_, _, htarget, ⟨hreferent, ih⟩, rfl⟩
  | cvQualified he hkind htarget hunderlying ih =>
      apply hstep
      rw [plan_of_find he, elementPlan, hkind]
      exact yields_targetPlan_iff.mpr ⟨_, _, htarget, ⟨hunderlying, ih⟩, rfl⟩
  | array he hkind htarget helement hdimension ih =>
      apply hstep
      rw [plan_of_find he, elementPlan, hkind]
      refine yields_targetPlan_iff.mpr ⟨_, _, htarget, ⟨helement, ih⟩, ?_⟩
      exact yields_ofExcept_iff.mpr ⟨_, hdimension, rfl⟩
  | functionType he hkind htarget hresult hlength harguments ih ihs =>
      apply hstep
      rw [plan_of_find he, elementPlan, hkind]
      refine yields_targetPlan_iff.mpr ⟨_, _, htarget, ⟨hresult, ih⟩, ?_⟩
      refine yields_argumentsPlan_iff.mpr ⟨_, hlength, ?_, rfl⟩
      intro i a s ha hs
      exact ⟨harguments i a s ha hs, ihs i a s ha hs⟩
  | methodType he hkind htarget hresult howner hcls hlength harguments ih ihc ihs =>
      apply hstep
      rw [plan_of_find he, elementPlan, hkind]
      refine yields_targetPlan_iff.mpr ⟨_, _, htarget, ⟨hresult, ih⟩, ?_⟩
      refine yields_targetPlan_iff.mpr ⟨_, _, howner, ⟨hcls, ihc⟩, ?_⟩
      refine yields_argumentsPlan_iff.mpr ⟨_, hlength, ?_, rfl⟩
      intro i a s ha hs
      exact ⟨harguments i a s ha hs, ihs i a s ha hs⟩
  | offset he hkind htarget htype howner hcls ih ihc =>
      apply hstep
      rw [plan_of_find he, elementPlan, hkind]
      refine yields_targetPlan_iff.mpr ⟨_, _, htarget, ⟨htype, ih⟩, ?_⟩
      exact yields_targetPlan_iff.mpr ⟨_, _, howner, ⟨hcls, ihc⟩, rfl⟩
  | fundamental he hkind =>
      apply hstep
      rw [plan_of_find he]
      simp [elementPlan, hkind, Plan.Yields]
  | file he hkind =>
      apply hstep
      rw [plan_of_find he]
      simp [elementPlan, hkind, Plan.Yields]
  | derived he hbase hunderlying ih =>
      apply hstep
      rw [plan_of_qualifiedId he hbase]
      exact ⟨_, ⟨hunderlying, ih⟩, rfl⟩

theorem spells_of_yields
    {trail : Trail} {id name : String}
    (h : (n.plan trail id).Yields (Spells n) name) :
    Spells n id name := by
  cases he : n.index.find? id with
  | none =>
      cases hbase : Spelling.qualifiedId? id with
      | none =>
          simp [plan, he, hbase, Plan.Yields] at h
      | some p =>
          rw [plan_of_qualifiedId he hbase] at h
          obtain ⟨s, hs, rfl⟩ := h
          exact .derived he hbase hs
  | some e =>
      rw [plan_of_find he] at h
      rcases element_cases e with ⟨hkind, hname⟩ | ⟨s, hlocal⟩ | ⟨hkind, hnamed⟩ | hkinds
      · simp only [elementPlan, hkind, hname, if_true, Plan.Yields] at h
        subst h
        exact .globalSpace he hkind hname
      · rw [elementPlan_of_localName hlocal, yields_namePlan_iff] at h
        obtain ⟨context, scope, hcontext, houter, hscope, rfl⟩ := h
        exact .declared he hlocal hcontext houter hscope
      · rw [elementPlan_of_record hkind hnamed, yields_scopePlan_iff] at h
        obtain ⟨context, scope, hcontext, houter, hscope, rfl⟩ := h
        exact .record he hkind hnamed hcontext houter hscope
      · simp only [List.mem_cons, List.not_mem_nil, or_false] at hkinds
        rcases hkinds with hk | hk | hk | hk | hk | hk | hk | hk | hk
        · rw [elementPlan, hk] at h
          obtain ⟨id', s, hattr, hs, rfl⟩ := yields_targetPlan_iff.mp h
          exact .pointer he hk hattr hs
        · rw [elementPlan, hk] at h
          obtain ⟨id', s, hattr, hs, rfl⟩ := yields_targetPlan_iff.mp h
          exact .reference he hk hattr hs
        · rw [elementPlan, hk] at h
          obtain ⟨id', s, hattr, hs, rfl⟩ := yields_targetPlan_iff.mp h
          exact .cvQualified he hk hattr hs
        · rw [elementPlan, hk] at h
          obtain ⟨id', s, hattr, hs, h⟩ := yields_targetPlan_iff.mp h
          obtain ⟨dimension, hdimension, rfl⟩ := yields_ofExcept_iff.mp h
          exact .array he hk hattr hs hdimension
        · rw [elementPlan, hk] at h
          obtain ⟨id', s, hattr, hs, h⟩ := yields_targetPlan_iff.mp h
          obtain ⟨names, hlength, hnames, rfl⟩ := yields_argumentsPlan_iff.mp h
          exact .functionType he hk hattr hs hlength hnames
        · rw [elementPlan, hk] at h
          obtain ⟨id', s, hattr, hs, h⟩ := yields_targetPlan_iff.mp h
          obtain ⟨owner, cls, howner, hcls, h⟩ := yields_targetPlan_iff.mp h
          obtain ⟨names, hlength, hnames, rfl⟩ := yields_argumentsPlan_iff.mp h
          exact .methodType he hk hattr hs howner hcls hlength hnames
        · rw [elementPlan, hk] at h
          obtain ⟨id', s, hattr, hs, h⟩ := yields_targetPlan_iff.mp h
          obtain ⟨owner, cls, howner, hcls, rfl⟩ := yields_targetPlan_iff.mp h
          exact .offset he hk hattr hs howner hcls
        · rw [elementPlan, hk] at h
          obtain rfl := h
          exact .fundamental he hk
        · rw [elementPlan, hk] at h
          obtain rfl := h
          exact .file he hk

/-- An id has exactly the spellings that its plan yields. -/
theorem spells_iff_yields
    (trail : Trail) {id name : String} :
    Spells n id name ↔ (n.plan trail id).Yields (Spells n) name := by
  constructor
  · intro h
    refine Spells.induct (P := fun id name => (n.plan trail id).Yields (Spells n) name)
      trail ?_ h
    intro id' name' hyields
    exact hyields.mono fun dep s hs => hs.1
  · exact spells_of_yields

end Spellings

section Requests

variable {n : Namer} {trail : Trail} {id dep : String} {e : Element}

theorem mentions_targetPlan
    {attr : String} {next : String → Plan}
    (h : (targetPlan e attr next).Mentions dep) :
    e.attr? attr = some dep ∨ ∃ s, (next s).Mentions dep := by
  unfold targetPlan Plan.ofExcept at h
  cases hrequired : e.required attr with
  | error err =>
      simp [hrequired, Plan.Mentions] at h
  | ok id =>
      rw [hrequired] at h
      rcases h with rfl | h
      · exact .inl (required_eq_ok_iff.mp hrequired)
      · exact .inr h

theorem mentions_argumentsPlan
    {next : List String → Plan}
    (h : (argumentsPlan e next).Mentions dep) :
    (∃ a ∈ e.arguments, a.type = dep) ∨ ∃ names, (next names).Mentions dep := by
  rcases Plan.mentions_askAll h with hmem | h
  · exact .inl (List.mem_map.mp hmem)
  · exact .inr h

theorem mentions_scopePlan
    {next : String → Plan}
    (h : (n.scopePlan e next).Mentions dep)
    (hnext : ∀ s, ¬ (next s).Mentions dep) :
    NearestContext n.index e.context? (some dep) := by
  unfold scopePlan Plan.ofExcept at h
  cases hcontext : namedContext? n.index e.id (n.index.size + 1) e.context? with
  | error err =>
      simp [hcontext, Plan.Mentions] at h
  | ok found =>
      rw [hcontext] at h
      rw [namedContext?_eq_ok_iff] at hcontext
      cases found with
      | none =>
          exact absurd h (hnext "")
      | some cid =>
          rcases h with rfl | ⟨s, h⟩
          · exact hcontext
          · exact absurd h (hnext s)

/-- A plan requests only what the rules refer to. -/
theorem refers_of_mentions
    (h : (n.plan trail id).Mentions dep) :
    Refers n id dep := by
  cases he : n.index.find? id with
  | none =>
      cases hbase : Spelling.qualifiedId? id with
      | none =>
          simp [plan, he, hbase, Plan.Mentions] at h
      | some p =>
          rw [plan_of_qualifiedId he hbase] at h
          rcases h with rfl | ⟨s, h⟩
          · exact .base he hbase
          · exact h.elim
  | some e =>
      rw [plan_of_find he] at h
      rcases element_cases e with ⟨hkind, hname⟩ | ⟨s, hlocal⟩ | ⟨hkind, hnamed⟩ | hkinds
      · simp [elementPlan, hkind, hname, Plan.Mentions] at h
      · rw [elementPlan_of_localName hlocal] at h
        exact .scope he (.inl ⟨s, hlocal⟩) (mentions_scopePlan h fun _ h => h)
      · rw [elementPlan_of_record hkind hnamed] at h
        exact .scope he (.inr hkind) (mentions_scopePlan h fun _ h => h)
      · simp only [List.mem_cons, List.not_mem_nil, or_false] at hkinds
        rcases hkinds with hk | hk | hk | hk | hk | hk | hk | hk | hk
        · rw [elementPlan, hk] at h
          rcases mentions_targetPlan h with hattr | ⟨s, h⟩
          · exact .target he (by simp [hk]) hattr
          · exact h.elim
        · rw [elementPlan, hk] at h
          rcases mentions_targetPlan h with hattr | ⟨s, h⟩
          · exact .target he (by simp [hk]) hattr
          · exact h.elim
        · rw [elementPlan, hk] at h
          rcases mentions_targetPlan h with hattr | ⟨s, h⟩
          · exact .target he (by simp [hk]) hattr
          · exact h.elim
        · rw [elementPlan, hk] at h
          rcases mentions_targetPlan h with hattr | ⟨s, h⟩
          · exact .target he (by simp [hk]) hattr
          · cases hdimension : e.arrayDimension <;>
              simp [Plan.ofExcept, hdimension, Plan.Mentions] at h
        · rw [elementPlan, hk] at h
          rcases mentions_targetPlan h with hattr | ⟨s, h⟩
          · exact .result he (by simp [hk]) hattr
          · rcases mentions_argumentsPlan h with ⟨a, ha, rfl⟩ | ⟨names, h⟩
            · exact .argument he (by simp [hk]) ha
            · exact h.elim
        · rw [elementPlan, hk] at h
          rcases mentions_targetPlan h with hattr | ⟨s, h⟩
          · exact .result he (by simp [hk]) hattr
          · rcases mentions_targetPlan h with hattr | ⟨s', h⟩
            · exact .owner he (by simp [hk]) hattr
            · rcases mentions_argumentsPlan h with ⟨a, ha, rfl⟩ | ⟨names, h⟩
              · exact .argument he (by simp [hk]) ha
              · exact h.elim
        · rw [elementPlan, hk] at h
          rcases mentions_targetPlan h with hattr | ⟨s, h⟩
          · exact .target he (by simp [hk]) hattr
          · rcases mentions_targetPlan h with hattr | ⟨s', h⟩
            · exact .owner he (by simp [hk]) hattr
            · exact h.elim
        · rw [elementPlan, hk] at h
          exact h.elim
        · rw [elementPlan, hk] at h
          exact h.elim

theorem needs_targetPlan
    {attr : String} {next : String → Plan}
    (h : e.attr? attr = some dep ∨ ∀ s, (next s).Needs dep) :
    (targetPlan e attr next).Needs dep := by
  unfold targetPlan Plan.ofExcept
  cases hrequired : e.required attr with
  | error err =>
      trivial
  | ok id =>
      rcases h with hattr | h
      · rw [required_eq_ok_iff, hattr] at hrequired
        exact .inl (Option.some.inj hrequired).symm
      · exact .inr h

theorem needs_argumentsPlan
    {next : List String → Plan} {a : Argument}
    (ha : a ∈ e.arguments) :
    (argumentsPlan e next).Needs a.type :=
  Plan.needs_askAll (.inl (List.mem_map.mpr ⟨a, ha, rfl⟩))

theorem needs_scopePlan
    {next : String → Plan}
    (h : NearestContext n.index e.context? (some dep)) :
    (n.scopePlan e next).Needs dep := by
  rw [scopePlan, (namedContext?_eq_ok_iff).mpr h]
  exact .inl rfl

/-- A plan yields nothing before it has requested all that the rules refer to. -/
theorem needs_of_refers
    (trail : Trail)
    (h : Refers n id dep) :
    (n.plan trail id).Needs dep := by
  cases h with
  | target he hkind hattr =>
      rw [plan_of_find he]
      simp only [List.mem_cons, List.not_mem_nil, or_false] at hkind
      rcases hkind with hk | hk | hk | hk | hk <;> rw [elementPlan, hk] <;>
        exact needs_targetPlan (.inl hattr)
  | result he hkind hattr =>
      rw [plan_of_find he]
      simp only [List.mem_cons, List.not_mem_nil, or_false] at hkind
      rcases hkind with hk | hk <;> rw [elementPlan, hk] <;>
        exact needs_targetPlan (.inl hattr)
  | owner he hkind hattr =>
      rw [plan_of_find he]
      simp only [List.mem_cons, List.not_mem_nil, or_false] at hkind
      rcases hkind with hk | hk <;> rw [elementPlan, hk] <;>
        exact needs_targetPlan (.inr fun s => needs_targetPlan (.inl hattr))
  | argument he hkind hmem =>
      rw [plan_of_find he]
      simp only [List.mem_cons, List.not_mem_nil, or_false] at hkind
      rcases hkind with hk | hk
      · rw [elementPlan, hk]
        exact needs_targetPlan (.inr fun s => needs_argumentsPlan hmem)
      · rw [elementPlan, hk]
        refine needs_targetPlan (.inr fun s => needs_targetPlan (.inr fun s' => ?_))
        exact needs_argumentsPlan hmem
  | @scope _ e he hscoped hcontext =>
      rw [plan_of_find he]
      rcases hscoped with ⟨name, hlocal⟩ | hkind
      · rw [elementPlan_of_localName hlocal]
        exact needs_scopePlan hcontext
      · cases hunnamed : e.isUnnamed with
        | true =>
            rw [elementPlan_of_localName (.unnamed (.inl hkind) hunnamed)]
            exact needs_scopePlan hcontext
        | false =>
            rw [elementPlan_of_record hkind hunnamed]
            exact needs_scopePlan hcontext
  | base he hbase =>
      rw [plan_of_qualifiedId he hbase]
      exact .inl rfl

end Requests

section Failures

variable {n : Namer} {e : Element} {i : String}

theorem not_fails_targetPlan
    {attr : String} {next : String → Plan}
    (hnext : ∀ s, ¬ (next s).Fails (.cyclicReference i)) :
    ¬ (targetPlan e attr next).Fails (.cyclicReference i) := by
  unfold targetPlan Plan.ofExcept Element.required
  cases e.attr? attr with
  | none =>
      simp [Plan.Fails]
  | some id =>
      rintro ⟨s, h⟩
      exact hnext s h

theorem not_fails_argumentsPlan
    {next : List String → Plan}
    (hnext : ∀ names, ¬ (next names).Fails (.cyclicReference i)) :
    ¬ (argumentsPlan e next).Fails (.cyclicReference i) := by
  intro h
  obtain ⟨names, h⟩ := Plan.fails_askAll h
  exact hnext names h

theorem arrayDimension_ne_cyclic :
    e.arrayDimension ≠ .error (.cyclicReference i) := by
  have hlength : e.arrayLength ≠ .error (.cyclicReference i) := by
    simp only [Element.arrayLength]
    split
    · simp
    · split <;> simp
  unfold Element.arrayDimension
  cases hval : e.arrayLength with
  | error err =>
      intro h
      cases h
      exact hlength hval
  | ok length =>
      cases length <;> simp [bind, Except.bind, pure, Except.pure]

variable (hacyclic : ∀ id, ¬ Relation.TransGen (ClimbsPast n.index) id id)
include hacyclic

theorem not_fails_scopePlan
    {next : String → Plan}
    (hnext : ∀ s, ¬ (next s).Fails (.cyclicReference i)) :
    ¬ (n.scopePlan e next).Fails (.cyclicReference i) := by
  have hclimb := climbsEnd_of_acyclic hacyclic e i
  unfold scopePlan Plan.ofExcept
  cases hval : namedContext? n.index e.id (n.index.size + 1) e.context? with
  | error err =>
      rintro rfl
      exact hclimb hval
  | ok found =>
      cases found with
      | none =>
          exact hnext ""
      | some cid =>
          rintro ⟨s, h⟩
          exact hnext s h

/-- No plan reports a cyclic reference by itself. -/
theorem not_fails_cyclic
    {trail : Trail} {id : String} :
    ¬ (n.plan trail id).Fails (.cyclicReference i) := by
  have hdone : ∀ s, ¬ (Plan.done s).Fails (.cyclicReference i) := fun s h => h
  cases he : n.index.find? id with
  | none =>
      cases hbase : Spelling.qualifiedId? id with
      | none =>
          simp [plan, he, hbase, Plan.Fails, Trail.unknown]
      | some p =>
          rw [plan_of_qualifiedId he hbase]
          rintro ⟨s, h⟩
          exact h
  | some e =>
      rw [plan_of_find he]
      rcases element_cases e with ⟨hkind, hname⟩ | ⟨s, hlocal⟩ | ⟨hkind, hnamed⟩ | hkinds
      · simp [elementPlan, hkind, hname, Plan.Fails]
      · rw [elementPlan_of_localName hlocal]
        exact not_fails_scopePlan hacyclic fun s => hdone _
      · rw [elementPlan_of_record hkind hnamed]
        exact not_fails_scopePlan hacyclic fun s => hdone _
      · simp only [List.mem_cons, List.not_mem_nil, or_false] at hkinds
        rcases hkinds with hk | hk | hk | hk | hk | hk | hk | hk | hk <;> rw [elementPlan, hk]
        · exact not_fails_targetPlan fun s => hdone _
        · exact not_fails_targetPlan fun s => hdone _
        · exact not_fails_targetPlan fun s => hdone _
        · refine not_fails_targetPlan fun s => ?_
          cases hdimension : e.arrayDimension with
          | error err =>
              rintro rfl
              exact arrayDimension_ne_cyclic hdimension
          | ok dimension =>
              exact hdone _
        · refine not_fails_targetPlan fun s => ?_
          exact not_fails_argumentsPlan fun names => hdone _
        · refine not_fails_targetPlan fun s => not_fails_targetPlan fun s' => ?_
          exact not_fails_argumentsPlan fun names => hdone _
        · exact not_fails_targetPlan fun s => not_fails_targetPlan fun s' => hdone _
        · exact hdone _
        · exact hdone _

end Failures

section WellFounded

variable {n : Namer}

/-- What is spelled refers to nothing without end. -/
theorem Spells.accessible
    {id name : String}
    (h : Spells n id name) :
    Acc (fun dep id => Refers n id dep) id := by
  refine Spells.induct (P := fun id _ => Acc (fun dep id => Refers n id dep) id)
    .start ?_ h
  intro id name hyields
  refine Acc.intro id fun dep hrefers => ?_
  have hneeds := needs_of_refers .start hrefers
  obtain ⟨s, -, hacc⟩ := hneeds.exists_answer hyields
  exact hacc

/-- What is spelled does not refer to itself. -/
theorem Spells.not_cyclic
    {id name : String}
    (h : Spells n id name) :
    ¬ Relation.TransGen (Refers n) id id := by
  have hacc := h.accessible
  clear h
  induction hacc with
  | intro id _ ih =>
      intro hcycle
      -- the cycle through `id` is also one through the first id after it
      obtain ⟨dep, hrefers, hback⟩ := Relation.TransGen.head'_iff.mp hcycle
      exact ih dep hrefers (Relation.TransGen.tail'_iff.mpr ⟨id, hback, hrefers⟩)

/-- An id has at most one spelling. -/
theorem Spells.unique
    {id name name' : String}
    (h : Spells n id name)
    (h' : Spells n id name') :
    name = name' := by
  have hacc := h.accessible
  induction hacc generalizing name name' with
  | intro id _ ih =>
      rw [spells_iff_yields .start] at h h'
      refine Plan.Yields.unique ?_ h h'
      intro dep hmentions s s' hs hs'
      exact ih dep (refers_of_mentions hmentions) hs hs'

end WellFounded

end Namer
end TypeCatalog
