import TypeCatalog.Proofs.Catalog.Successes

/-!
# Overload sets hold the registered functions

**Input.** A run of registrations, member lists and base lists from the empty catalog. Any of them
may fail, and none registers a ready-made overload set.

**Rule.** The overload set under a name is that of the functions of the name that were registered
so far. A function opens the set or joins it at the end, and no other step gives a set to a name or
takes one from it.

**Results.**
* `Step.overloadSet_of_ok`: what a step makes of the set under a name.
* `Trace.overloadSet`: what successful steps make of it.
* `registerFunction_eq_error_iff`: when a function is refused.
* `overloads_run`: the sets after a run.
-/

namespace TypeCatalog

/-- The overload set of functions in the order of their registration; it is named and placed like the
first. -/
def OverloadSet.ofFunctions :
    List Function → Option OverloadSet
  | [] => none
  | f :: functions => some ⟨f.qualified, f.scope, f :: functions⟩

theorem OverloadSet.ofFunctions_push
    {functions : List Function} {o : OverloadSet}
    (h : ofFunctions functions = some o) (f : Function) :
    ofFunctions (functions ++ [f]) = some (o.push f) := by
  cases functions with
  | nil =>
      cases h
  | cons g functions =>
      obtain rfl := Option.some.inj h
      rfl

namespace Catalog

/-- The overload set under a name. -/
def overloadSet
    (c : Catalog) (name : String) :
    Option OverloadSet :=
  (c.lookup name).bind Entity.overloads?

theorem overloadSet_eq_some_iff
    {c : Catalog} {name : String} {o : OverloadSet} :
    c.overloadSet name = some o ↔ c.lookup name = some (.ofOverloads o) := by
  rw [overloadSet, Option.bind_eq_some_iff]
  constructor
  · rintro ⟨e, he, ho⟩
    cases e <;> cases ho
    exact he
  · exact fun h => ⟨_, h, rfl⟩

end Catalog

namespace Step

open Catalog

/-- Whether a step is a registration that brings no overload set with it. -/
def IsOrdinary :
    Step → Prop
  | register (.ofOverloads _) => False
  | register _ | setMembersIn _ _ _ | setBases _ _ => True
  | put _ _ | resolve _ _ | measure _ => False

theorem IsOrdinary.isRegistration
    {s : Step}
    (h : s.IsOrdinary) :
    s.IsRegistration := by
  cases s with
  | register e =>
      trivial
  | _ =>
      exact h

/-- The functions of a name that steps register, in order. -/
def functionsOf
    (name : String) (steps : List Step) :
    List Function :=
  (steps.filterMap function?).filter (·.qualified = name)

theorem functionsOf_cons
    (name : String) (s : Step) (steps : List Step) :
    functionsOf name (s :: steps) = functionsOf name [s] ++ functionsOf name steps := by
  rw [functionsOf, ← List.singleton_append, List.filterMap_append, List.filter_append]
  rfl

theorem functionsOf_eq_nil
    {name : String} {s : Step}
    (h : name ∉ s.batch) :
    functionsOf name [s] = [] := by
  cases hs : s.function? with
  | none =>
      simp [functionsOf, hs]
  | some f =>
      obtain ⟨rfl⟩ : s = .register (.ofFunction f) := by
        unfold function? at hs
        split at hs
        · rw [Option.some.inj hs]
        · cases hs
      have hne : f.qualified ≠ name := by
        simpa [batch, Entity.qualified, eq_comm] using h
      simp [functionsOf, function?, hne]

/-- What an ordinary step opens under a name is the overload set of the function that it registers,
or no overload set. -/
theorem IsOrdinary.overloads?_of_mem_entries
    {s : Step} {name : String} {e : Entity}
    (hs : s.IsOrdinary)
    (he : (name, e) ∈ s.entries) :
    e.overloads? = OverloadSet.ofFunctions (functionsOf name [s]) := by
  cases s with
  | register r =>
      cases r with
      | ofFunction f =>
          obtain ⟨rfl, rfl⟩ := Prod.mk.inj (List.mem_singleton.mp he)
          simp [functionsOf, function?, Entity.overloads?, OverloadSet.ofFunctions,
            OverloadSet.single]
      | ofOverloads o =>
          cases hs
      | ofType t =>
          obtain ⟨header, shape⟩ := t
          cases shape with
          | enumeration members =>
              rcases List.mem_cons.mp he with heq | he
              · obtain ⟨-, rfl⟩ := Prod.mk.inj heq
                rfl
              · obtain ⟨m, -, heq⟩ := List.mem_map.mp he
                obtain ⟨-, rfl⟩ := Prod.mk.inj heq
                rfl
          | _ =>
              obtain ⟨-, rfl⟩ := Prod.mk.inj (List.mem_singleton.mp he)
              rfl
      | _ =>
          obtain ⟨-, rfl⟩ := Prod.mk.inj (List.mem_singleton.mp he)
          rfl
  | setMembersIn record scope members =>
      obtain ⟨m, -, heq⟩ := List.mem_map.mp he
      obtain ⟨-, rfl⟩ := Prod.mk.inj heq
      rfl
  | setBases record bases =>
      cases he
  | _ =>
      cases hs

/-- What an ordinary step makes of the overload set under a name that holds the functions so far. -/
theorem overloadSet_of_ok
    {s : Step} {c c' : Catalog} {name : String} {functions : List Function}
    (hc : c.Coherent)
    (hs : s.IsOrdinary)
    (h : s.apply c = (.ok (), c'))
    (hbefore : c.overloadSet name = OverloadSet.ofFunctions functions) :
    c'.overloadSet name = OverloadSet.ofFunctions (functions ++ functionsOf name [s]) := by
  have hfinds := finds_of_ok hc hs.isRegistration h name
  unfold overloadSet at hbefore ⊢
  generalize c.lookup name = before at hfinds hbefore
  generalize c'.lookup name = after at hfinds ⊢
  cases hfinds with
  | kept hbatch hfilled =>
      rw [functionsOf_eq_nil hbatch, List.append_nil]
      exact hbefore
  | opened hfilled he =>
      -- nothing was under the name, so no function of the name was registered before
      have hnil : functions = [] := by
        cases functions with
        | nil =>
            rfl
        | cons f functions =>
            cases hbefore
      rw [hnil, List.nil_append]
      exact hs.overloads?_of_mem_entries he
  | retouched hchange =>
      cases hchange with
      | overload f o =>
          have hjoin : functionsOf f.qualified [.register (.ofFunction f)] = [f] := by
            simp [functionsOf, function?]
          rw [hjoin]
          exact (OverloadSet.ofFunctions_push hbefore.symm f).symm
      | members hrecord =>
          rw [show functionsOf name [.setMembersIn name _ _] = [] from rfl, List.append_nil]
          exact hbefore
      | bases hrecord =>
          rw [show functionsOf name [.setBases name _] = [] from rfl, List.append_nil]
          exact hbefore
      | replace key old e =>
          cases hs

end Step

/-- What ordinary steps make of the overload set under a name that holds the functions so far. -/
theorem Trace.overloadSet
    {c c' : Catalog} {steps : List Step}
    (h : Trace c steps c')
    (hc : c.Coherent)
    (hsteps : ∀ s ∈ steps, s.IsOrdinary)
    {name : String} {functions : List Function}
    (hbefore : c.overloadSet name = OverloadSet.ofFunctions functions) :
    c'.overloadSet name =
      OverloadSet.ofFunctions (functions ++ Step.functionsOf name steps) := by
  induction h generalizing functions with
  | nil c =>
      rw [show Step.functionsOf name [] = [] from rfl, List.append_nil]
      exact hbefore
  | @cons c d e s steps hstep _ ih =>
      have hs := hsteps s (by simp)
      have hd := s.overloadSet_of_ok hc hs hstep hbefore
      have hrest := ih ((Trace.single hstep).coherent hc)
        (fun t ht => hsteps t (List.mem_cons_of_mem s ht)) hd
      rw [List.append_assoc, ← Step.functionsOf_cons] at hrest
      exact hrest

namespace Catalog

/-- A function is refused, as a duplicate, exactly when something else than an overload set has its
name. -/
theorem registerFunction_eq_error_iff
    {c : Catalog} {f : Function} {err : CatalogError}
    (hc : c.Coherent) :
    (c.register (.ofFunction f)).1 = .error err ↔
      err = .duplicate f.qualified ∧ ∃ e, c.lookup f.qualified = some e ∧ e.overloads? = none := by
  rw [register, registerFunction, lookup]
  cases hindex : c.indexOf? f.qualified with
  | none =>
      simp
  | some i =>
      obtain ⟨e, he⟩ := Option.isSome_iff_exists.mp
        ((c.entityAt?_isSome_iff i).mpr (hc.lt_size hindex))
      simp only [he, Option.bind_some, Option.some.injEq, exists_eq_left']
      cases e <;> simp [Entity.overloads?, eq_comm]

/-- After a run of ordinary steps, a function is refused, as a duplicate, exactly when its name finds
something else than an overload set; and an overload set holds the functions of its name that were
registered with success, in that order, in the scope of the first of them. A name of which a function
was registered finds its overload set. -/
theorem overloads_run
    (steps : List Step)
    (hsteps : ∀ s ∈ steps, s.IsOrdinary) :
    (∀ (f : Function) (err : CatalogError),
      ((run (steps.map .step)).register (.ofFunction f)).1 = .error err ↔
        err = .duplicate f.qualified ∧
          ∃ e, (run (steps.map .step)).lookup f.qualified = some e ∧
            ∀ o, e ≠ .ofOverloads o) ∧
    (∀ (name : String) (o : OverloadSet),
      (run (steps.map .step)).lookup name = some (.ofOverloads o) →
        o.functions = ((successes empty steps).filterMap Step.function?).filter
          (·.qualified = name) ∧
        o.qualified = name ∧ o.functions.head?.map (·.scope) = some o.scope) ∧
    (∀ f ∈ (successes empty steps).filterMap Step.function?,
      ∃ o, (run (steps.map .step)).lookup f.qualified = some (.ofOverloads o)) := by
  have hset : ∀ name, (run (steps.map .step)).overloadSet name =
      OverloadSet.ofFunctions (Step.functionsOf name (successes empty steps)) := by
    intro name
    have hall : ∀ s ∈ successes empty steps, s.IsOrdinary := fun s hs =>
      hsteps s ((successes_sublist empty steps).subset hs)
    have hnone : empty.overloadSet name = OverloadSet.ofFunctions [] := rfl
    exact (trace_successes empty steps).overloadSet coherent_empty hall hnone
  refine ⟨?_, ?_, ?_⟩
  · intro f err
    rw [registerFunction_eq_error_iff (Reachable.coherent ⟨_, rfl⟩)]
    have hother : ∀ e : Entity, e.overloads? = none ↔ ∀ o, e ≠ .ofOverloads o := by
      intro e
      cases e <;> simp [Entity.overloads?]
    simp only [hother]
  · intro name o ho
    have hfunctions := (hset name).symm.trans (overloadSet_eq_some_iff.mpr ho)
    cases hlist : Step.functionsOf name (successes empty steps) with
    | nil =>
        rw [hlist] at hfunctions
        cases hfunctions
    | cons f functions =>
        rw [hlist] at hfunctions
        obtain rfl := Option.some.inj hfunctions
        have hname : f ∈ Step.functionsOf name (successes empty steps) := by
          rw [hlist]
          exact List.mem_cons_self
        exact ⟨hlist.symm, by simpa using (List.mem_filter.mp hname).2, rfl⟩
  · intro f hf
    have hmem : f ∈ Step.functionsOf f.qualified (successes empty steps) :=
      List.mem_filter.mpr ⟨hf, by simp⟩
    cases hlist : Step.functionsOf f.qualified (successes empty steps) with
    | nil =>
        rw [hlist] at hmem
        cases hmem
    | cons g functions =>
        refine ⟨⟨g.qualified, g.scope, g :: functions⟩, overloadSet_eq_some_iff.mp ?_⟩
        rw [hset, hlist]
        rfl

/-- Steps that register the functions `f` and `S::f`, the struct `S` with a member, a function `S` in
vain, and the function `f` once more. -/
def overloadSteps :
    List Step :=
  [.register (.ofFunction (globalFunction "f")),
   .register (.ofType (.record .structKey "S" "" 4)),
   .register (.ofFunction { globalFunction "S::f" with scope := "S" }),
   .setMembersIn "S" "S" [.declare "x" (.named "int") .int .pub 0],
   .register (.ofFunction (globalFunction "S")),
   .register (.ofFunction { globalFunction "f" with specifiers := .inlined })]

theorem overloads_overloadSteps :
    (∀ s ∈ overloadSteps, s.IsOrdinary) ∧
      ((run (overloadSteps.map .step)).register (.ofFunction (globalFunction "S"))).1 =
        .error (.duplicate "S") ∧
      ∃ o, (run (overloadSteps.map .step)).lookup "f" = some (.ofOverloads o) ∧
        o.qualified = "f" ∧
        o.functions =
          [globalFunction "f", { globalFunction "f" with specifiers := .inlined }] := by
  have hsteps : ∀ s ∈ overloadSteps, s.IsOrdinary := by
    simp [overloadSteps, Step.IsOrdinary]
  have hfound : (run (overloadSteps.map .step)).lookup "S" =
      some (.ofType (withMembers (.record .structKey "S" "" 4)
        [(Member.declare "x" (.named "int") .int .pub 0).inScope "S"])) := by
    decide +kernel
  have hregistered : (successes empty overloadSteps).filterMap Step.function? =
      [globalFunction "f", { globalFunction "S::f" with scope := "S" },
        { globalFunction "f" with specifiers := .inlined }] := by
    decide +kernel
  obtain ⟨hrefused, hsets, hkept⟩ := overloads_run overloadSteps hsteps
  obtain ⟨o, ho⟩ := hkept (globalFunction "f") (by simp [hregistered])
  obtain ⟨hfunctions, hname, -⟩ := hsets "f" o ho
  refine ⟨hsteps, (hrefused _ _).mpr ⟨rfl, _, hfound, by simp⟩, o, ho, hname, ?_⟩
  rw [hfunctions, hregistered]
  decide

end Catalog
end TypeCatalog
