import TypeCatalog.Loader
import TypeCatalog.Proofs.Registration.Trace

/-!
# Runs from the empty catalog

**Actions.** Besides the single steps there are two actions of many steps: loading bytes, and
registering a document. An action may fail; the run goes on with the catalog it leaves.

**Rule.** Every action amounts to a list of successful steps of its kind, the empty list when it
fails (`exists_trace_after`). So what holds after every trace holds after every run.

**Results.**
* `Reachable.coherent`: a catalog reached by any run is coherent.
* `distinctKeys_run_iff`: the keys of a run are distinct exactly when no successful step of it
  opened slots for two equal keys at once.
* `not_distinctKeys_repeated_enumerator`: a step can do that.
-/

namespace TypeCatalog

/-- What can be done to a catalog. -/
inductive Action where
  | step (s : Step)
  | load (l : Loader) (bytes : List UInt8)
  | registerDocument (d : Document) (n : Template.Normalizer) (o : RegistrationOptions)

/-- Whether a step is of the kind that an action takes. -/
def Step.PartOf
    (s : Step) :
    Action → Prop
  | .step t => s = t
  | .load .image _ => ∃ key e, s = .put key e
  | .load (.document _ _) _ => s.IsRegistration
  | .registerDocument _ _ _ => s.IsRegistration

namespace Catalog

/-- The catalog after an action, whether it succeeds or fails. -/
def after
    (c : Catalog) :
    Action → Catalog
  | .step s => (s.apply c).2
  | .load l bytes => (l.load c bytes).2
  | .registerDocument d n o => (c.registerDocument d n o).2

/-- The catalog after a sequence of actions on the empty one. -/
def run
    (actions : List Action) :
    Catalog :=
  actions.foldl after empty

/-- Some sequence of actions leads to the catalog. -/
def Reachable
    (c : Catalog) :
    Prop :=
  ∃ actions, c = run actions

/-- The successful steps that a sequence of actions amounts to, action by action. -/
inductive Performs :
    Catalog → List Action → List Step → Prop
  | nil
      (c : Catalog) :
      Performs c [] []
  | cons
      {c : Catalog} {a : Action} {actions : List Action} {steps rest : List Step}
      (htrace : Trace c steps (c.after a))
      (hparts : ∀ s ∈ steps, s.PartOf a)
      (hrest : Performs (c.after a) actions rest) :
      Performs c (a :: actions) (steps ++ rest)

theorem trace_merge
    (c : Catalog) (entries : List (String × Entity)) :
    Trace c (entries.map fun p => .put p.1 p.2) (Image.merge c entries) := by
  induction entries generalizing c with
  | nil =>
      exact .nil c
  | cons p entries ih =>
      exact .cons rfl (ih (c.put p.1 p.2).2)

theorem exists_trace_loadImage
    (c : Catalog) (bytes : List UInt8) :
    ∃ steps, Trace c steps (Image.load c bytes).2 ∧ ∀ s ∈ steps, ∃ key e, s = .put key e := by
  unfold Image.load
  split
  · exact ⟨[], .nil c, by simp⟩
  · split
    · exact ⟨[], .nil c, by simp⟩
    · refine ⟨_, trace_merge c _, ?_⟩
      intro s hs
      obtain ⟨p, -, rfl⟩ := List.mem_map.mp hs
      exact ⟨p.1, p.2, rfl⟩

theorem exists_trace_load
    (l : Loader) (c : Catalog) (bytes : List UInt8) :
    ∃ steps, Trace c steps (l.load c bytes).2 ∧
      ∀ s ∈ steps, s.PartOf (.load l bytes) := by
  cases l with
  | image =>
      have himage := exists_trace_loadImage c bytes
      unfold Loader.load
      cases hload : Image.load c bytes with
      | mk outcome c' =>
          rw [hload] at himage
          cases outcome <;> exact himage
  | document n o =>
      unfold Loader.load
      cases hread : Document.read bytes with
      | error e =>
          exact ⟨[], .nil c, by simp⟩
      | ok d =>
          have hdoc := c.exists_trace_registerDocument d n o
          cases hreg : c.registerDocument d n o with
          | mk outcome c' =>
              rw [hreg] at hdoc
              cases outcome <;> simpa [hreg, Step.PartOf] using hdoc

/-- Every action amounts to a list of successful steps of its kind. -/
theorem exists_trace_after
    (c : Catalog) (a : Action) :
    ∃ steps, Trace c steps (c.after a) ∧ ∀ s ∈ steps, s.PartOf a := by
  cases a with
  | step s =>
      cases hout : (s.apply c).1 with
      | ok =>
          exact ⟨[s], .single (Prod.ext hout rfl), by simp [Step.PartOf]⟩
      | error err =>
          have hsame : (s.apply c).2 = c := Step.eq_of_error (Prod.ext hout rfl)
          refine ⟨[], ?_, by simp⟩
          rw [after, hsame]
          exact .nil c
  | load l bytes =>
      exact exists_trace_load l c bytes
  | registerDocument d n o =>
      exact c.exists_trace_registerDocument d n o

theorem exists_performs
    (c : Catalog) (actions : List Action) :
    ∃ steps, Performs c actions steps := by
  induction actions generalizing c with
  | nil =>
      exact ⟨[], .nil c⟩
  | cons a actions ih =>
      obtain ⟨steps, htrace, hpart⟩ := exists_trace_after c a
      obtain ⟨rest, hrest⟩ := ih (c.after a)
      exact ⟨steps ++ rest, .cons htrace hpart hrest⟩

theorem Performs.trace
    {c : Catalog} {actions : List Action} {steps : List Step}
    (h : Performs c actions steps) :
    Trace c steps (actions.foldl after c) := by
  induction h with
  | nil c =>
      exact .nil c
  | cons htrace _ _ ih =>
      exact htrace.append ih

/-- A catalog reached by any run is coherent. -/
theorem Reachable.coherent
    {c : Catalog}
    (h : c.Reachable) :
    c.Coherent := by
  obtain ⟨actions, rfl⟩ := h
  obtain ⟨steps, hperforms⟩ := exists_performs empty actions
  exact hperforms.trace.coherent coherent_empty

/-- A run amounts to successful steps, and however it is cut into steps, its keys are distinct
exactly when no step opened slots for two equal keys at once. Distinct keys are the same as each
slot being found under its key, and as each name being listed once. -/
theorem distinctKeys_run_iff
    (actions : List Action) :
    (∃ steps, Performs empty actions steps) ∧
    (∀ steps, Performs empty actions steps →
      ((run actions).DistinctKeys ↔ ∀ s ∈ steps, s.batch.Nodup)) ∧
    ((run actions).DistinctKeys ↔
      ∀ i slot, (run actions).slots[i]? = some slot →
        (run actions).indexOf? slot.key = some i ∧
          (run actions).lookup slot.key = some slot.entity) ∧
    ((run actions).DistinctKeys ↔ (run actions).allNames.Nodup) := by
  refine ⟨exists_performs empty actions, ?_, ?_, nodup_allNames_iff.symm⟩
  · intro steps hperforms
    have hiff := hperforms.trace.distinctKeys_iff coherent_empty
    simpa [run, DistinctKeys] using hiff
  · exact Reachable.coherent ⟨actions, rfl⟩ |>.distinctKeys_iff_found

/-- An enumeration `E` in the global scope that has the enumerator `A` twice. -/
def repeatedEnumerator :
    Entity :=
  .ofType (.enumeration "E" "" 4 [.enumerator "A" 0, .enumerator "A" 1])

theorem not_distinctKeys_repeated_enumerator :
    Performs empty [.step (.register repeatedEnumerator)] [.register repeatedEnumerator] ∧
      ¬ (run [.step (.register repeatedEnumerator)]).DistinctKeys := by
  have htrace : Trace empty [.register repeatedEnumerator]
      (empty.after (.step (.register repeatedEnumerator))) := .single rfl
  have hperforms :
      Performs empty [.step (.register repeatedEnumerator)] [.register repeatedEnumerator] :=
    .cons htrace (by simp [Step.PartOf]) (.nil _)
  refine ⟨hperforms, fun hdistinct => ?_⟩
  have hbatches := ((distinctKeys_run_iff _).2.1 _ hperforms).mp hdistinct
  exact absurd (hbatches _ (List.mem_singleton.mpr rfl)) (by decide)

end Catalog
end TypeCatalog
