import TypeCatalog.Proofs.Catalog.Coherence

/-!
# What one step does to the keys of a catalog

**Steps.** A step registers an entity, sets the members or bases of a record, puts an entity under a
key, or asks about types, which leaves memos and computed sizes behind.

**Rule.** A step that fails changes nothing. A step that succeeds changes entities in place and then
opens slots for a batch of keys, each of which was vacant before the step (`Step.extends_of_ok`).
The batch is not compared with itself: an enumeration opens a slot for its own name and one for each
enumerator, and a member list opens one for each named data member, whether or not two of these
keys are equal.

**Results.**
* `Step.coherent_apply`: every step keeps a catalog coherent.
* `Step.distinctKeys_of_ok`: after a successful step the keys are distinct exactly when they were
  before and the batch does not repeat a key.
* `Trace.distinctKeys_iff`: the same for any sequence of successful steps.
-/

namespace TypeCatalog

/-- One step on a catalog. Registering an enumeration enters its enumerators too. -/
inductive Step where
  | register (e : Entity)
  | setMembersIn (record scope : String) (members : List Member)
  | setBases (record : String) (bases : List Base)
  | put (key : String) (e : Entity)
  /-- Resolves a stored reference, which leaves a memo. -/
  | resolve (slot k : Nat)
  /-- Computes the size of a type, which may stay with it. -/
  | measure (slot : Nat)

namespace Step

/-- The outcome of a step, and the catalog after it. -/
def apply
    (c : Catalog) :
    Step → Except CatalogError Unit × Catalog
  | register e => ((c.register e).1.map fun _ => (), (c.register e).2)
  | setMembersIn record scope members => c.setMembersIn record scope members
  | setBases record bases => c.setBases record bases
  | put key e => (.ok (), (c.put key e).2)
  | resolve slot k => (.ok (), (c.resolveStored slot k).2)
  | measure slot => (.ok (), (c.sizeAt slot).2)

/-- The keys that a step may open slots for. -/
def batch :
    Step → List String
  | register (.ofType ⟨header, .enumeration members⟩) =>
      header.qualified :: members.map Member.qualified
  | register e => [e.qualified]
  | setMembersIn record scope members =>
      (Catalog.exposed scope (members.map (·.inScope record))).map Prod.fst
  | put key _ => [key]
  | setBases _ _ | resolve _ _ | measure _ => []

end Step

namespace Catalog

theorem keys_pushAll
    (c : Catalog) (entries : List (String × Entity)) :
    (c.pushAll entries).keys = c.keys ++ entries.map Prod.fst := by
  induction entries generalizing c with
  | nil =>
      simp [pushAll]
  | cons p entries ih =>
      have hstep : c.pushAll (p :: entries) = (c.push p.1 p.2).pushAll entries := rfl
      rw [hstep, ih]
      simp

theorem Coherent.pushAll
    {c : Catalog}
    (hc : c.Coherent) (entries : List (String × Entity)) :
    (c.pushAll entries).Coherent := by
  induction entries generalizing c with
  | nil =>
      exact hc
  | cons p entries ih =>
      exact ih (hc.push p.1 p.2)

/-- The second catalog is the first one with entities changed in place and slots opened for keys
that were vacant. -/
def Extends
    (c : Catalog) (added : List String) (c' : Catalog) :
    Prop :=
  ∃ (d : Catalog) (entries : List (String × Entity)),
    SameKeys c d ∧ c' = d.pushAll entries ∧ entries.map Prod.fst = added ∧
      ∀ name ∈ added, c.isVacant name = true

namespace Extends

theorem of_sameKeys
    {c c' : Catalog}
    (h : SameKeys c c') :
    c.Extends [] c' :=
  ⟨c', [], h, rfl, rfl, by simp⟩

theorem push
    {c : Catalog} {key : String} (e : Entity)
    (h : c.isVacant key = true) :
    c.Extends [key] (c.push key e) :=
  ⟨c, [(key, e)], .refl c, rfl, rfl, by simpa using h⟩

theorem keys_eq
    {c c' : Catalog} {added : List String}
    (h : c.Extends added c') :
    c'.keys = c.keys ++ added := by
  obtain ⟨d, entries, hd, rfl, rfl, -⟩ := h
  rw [keys_pushAll, hd.keys_eq]

theorem coherent
    {c c' : Catalog} {added : List String}
    (h : c.Extends added c')
    (hc : c.Coherent) :
    c'.Coherent := by
  obtain ⟨d, entries, hd, rfl, -, -⟩ := h
  exact (hc.of_sameKeys hd).pushAll entries

theorem distinctKeys_iff
    {c c' : Catalog} {added : List String}
    (h : c.Extends added c')
    (hc : c.Coherent) :
    c'.DistinctKeys ↔ c.DistinctKeys ∧ added.Nodup := by
  have hdisj : List.Disjoint c.keys added := by
    obtain ⟨d, entries, -, -, -, hvacant⟩ := h
    intro name hmem hadded
    exact hc.isVacant_iff.mp (hvacant name hadded) hmem
  rw [DistinctKeys, h.keys_eq, List.nodup_append']
  constructor
  · rintro ⟨hkeys, hadded, -⟩
    exact ⟨hkeys, hadded⟩
  · rintro ⟨hkeys, hadded⟩
    exact ⟨hkeys, hadded, hdisj⟩

end Extends

theorem isVacant_of_firstTaken?_eq_none
    {c : Catalog} {names : List String}
    (h : c.firstTaken? names = none) :
    ∀ name ∈ names, c.isVacant name = true := by
  intro name hname
  have hfree := List.find?_eq_none.mp h name hname
  simpa using hfree

section Queries

theorem sameKeys_setRef
    (c : Catalog) (slot k : Nat) (r : TypeRef) :
    SameKeys c (c.setRef slot k r) := by
  unfold setRef
  split
  · exact .setEntity c slot _
  · exact .refl c

theorem sameKeys_resolveStored
    (c : Catalog) (slot k : Nat) :
    SameKeys c (c.resolveStored slot k).2 := by
  unfold resolveStored
  split
  · exact .refl c
  · exact sameKeys_setRef c slot k _

theorem sameKeys_setComputed
    (c : Catalog) (slot : Nat) (n : UInt64) :
    SameKeys c (c.setComputed slot n) := by
  unfold setComputed
  split
  · exact .setEntity c slot _
  · exact .refl c

theorem sameKeys_largest
    {sizeOfSlot : Catalog → Nat → Except CatalogError UInt64 × Catalog}
    (hsize : ∀ c i, SameKeys c (sizeOfSlot c i).2) (slot : Nat) (ks : List Nat)
    (best : UInt64) (c : Catalog) :
    SameKeys c (largest sizeOfSlot slot ks best c).2 := by
  induction ks generalizing best c with
  | nil =>
      exact .refl c
  | cons k ks ih =>
      have hstored := sameKeys_resolveStored c slot k
      unfold largest
      split
      · next hres =>
          rw [hres] at hstored
          exact hstored
      · next target d hres =>
          rw [hres] at hstored
          have hsized := hsize d target
          split
          · next hn =>
              rw [hn] at hsized
              exact hstored.trans hsized
          · next n d' hn =>
              rw [hn] at hsized
              exact (hstored.trans hsized).trans (ih _ d')

/-- Sizing a type changes entities only. -/
theorem sameKeys_sizeWithin
    (depth : Nat) (c : Catalog) (slot : Nat) :
    SameKeys c (sizeWithin depth c slot).2 := by
  induction depth generalizing c slot with
  | zero =>
      exact .refl c
  | succ depth ih =>
      unfold sizeWithin
      split
      · exact .refl c
      · next header members computed _ =>
          split
          · exact .refl c
          · split
            · exact .refl c
            · have hbest := sameKeys_largest ih slot (dataPositions members) 0 c
              split
              · next hl =>
                  rw [hl] at hbest
                  exact hbest
              · next n d hl =>
                  rw [hl] at hbest
                  exact hbest.trans (sameKeys_setComputed d slot n)
      · exact .refl c

end Queries

end Catalog

namespace Step

open Catalog

/-- A successful registration of a function opens a slot only when it opens an overload set. -/
theorem extends_registerFunction
    {c c' : Catalog} {f : Function} {i : Nat}
    (h : c.registerFunction f = (.ok i, c')) :
    c.Extends [] c' ∨ c.Extends [f.qualified] c' := by
  unfold registerFunction at h
  split at h
  · next hnone =>
      obtain ⟨-, rfl⟩ := Prod.mk.inj h
      exact .inr (.push _ (by simp [isVacant, hnone]))
  · split at h
    · obtain ⟨-, rfl⟩ := Prod.mk.inj h
      exact .inl (.of_sameKeys (.setEntity c _ _))
    · simp at h

theorem extends_registerEnum
    {c c' : Catalog} {header : TypeHeader} {members : List Member} {i : Nat}
    (h : c.registerEnum header members = (.ok i, c')) :
    c.Extends (header.qualified :: members.map Member.qualified) c' := by
  unfold registerEnum at h
  split at h
  · simp at h
  · next hnone =>
      obtain ⟨-, rfl⟩ := Prod.mk.inj h
      refine ⟨c, (header.qualified, .ofType ⟨header, .enumeration members⟩) ::
        members.map fun m => (m.qualified, .ofMember m), .refl c, rfl, ?_,
        isVacant_of_firstTaken?_eq_none hnone⟩
      simp [Function.comp_def]

theorem extends_register
    {c c' : Catalog} {e : Entity} {i : Nat}
    (h : c.register e = (.ok i, c')) :
    ∃ added, (added = (register e).batch ∨ added = [] ∧ (register e).batch.Nodup) ∧
      c.Extends added c' := by
  unfold Catalog.register at h
  split at h
  · next f =>
      rcases extends_registerFunction h with hext | hext
      · exact ⟨[], .inr ⟨rfl, by simp [batch]⟩, hext⟩
      · exact ⟨[f.qualified], .inl rfl, hext⟩
  · exact ⟨_, .inl rfl, extends_registerEnum h⟩
  · next hfun henum =>
      split at h
      · next hvacant =>
          obtain ⟨-, rfl⟩ := Prod.mk.inj h
          have hbatch : (register e).batch = [e.qualified] := by
            cases e with
            | ofType t =>
                obtain ⟨header, shape⟩ := t
                cases shape with
                | enumeration members =>
                    exact absurd rfl (henum header members)
                | _ =>
                    rfl
            | _ =>
                rfl
          exact ⟨[e.qualified], .inl hbatch.symm, .push e hvacant⟩
      · simp at h

theorem extends_setMembersIn
    {c c' : Catalog} {record scope : String} {members : List Member}
    (h : c.setMembersIn record scope members = (.ok (), c')) :
    c.Extends (setMembersIn record scope members).batch c' := by
  unfold Catalog.setMembersIn at h
  split at h
  · simp at h
  · next i t _ =>
      dsimp only at h
      split at h
      · simp at h
      · next hnone =>
          obtain ⟨-, rfl⟩ := Prod.mk.inj h
          exact ⟨_, _, .setEntity c i _, rfl, rfl, isVacant_of_firstTaken?_eq_none hnone⟩

theorem extends_put
    (c : Catalog) (key : String) (e : Entity) :
    c.Extends [] (c.put key e).2 ∨ c.Extends [key] (c.put key e).2 := by
  unfold Catalog.put
  split
  · exact .inl (.of_sameKeys (.setEntity c _ _))
  · next hnone => exact .inr (.push e (by simp [isVacant, hnone]))

/-- What a successful step can do: it opens slots for its whole batch, or for no key at all when the
batch is too small to repeat one. -/
theorem extends_of_ok
    {s : Step} {c c' : Catalog}
    (h : s.apply c = (.ok (), c')) :
    ∃ added, (added = s.batch ∨ added = [] ∧ s.batch.Nodup) ∧ c.Extends added c' := by
  cases s with
  | register e =>
      simp only [apply] at h
      obtain ⟨hout, rfl⟩ := Prod.mk.inj h
      cases hreg : (c.register e).1 with
      | error err =>
          simp [hreg, Except.map] at hout
      | ok i =>
          exact extends_register (Prod.ext hreg rfl)
  | setMembersIn record scope members =>
      exact ⟨_, .inl rfl, extends_setMembersIn h⟩
  | setBases record bases =>
      simp only [apply, Catalog.setBases] at h
      split at h
      · simp at h
      · obtain ⟨-, rfl⟩ := Prod.mk.inj h
        exact ⟨[], .inl rfl, .of_sameKeys (.setEntity c _ _)⟩
  | put key e =>
      obtain ⟨-, rfl⟩ := Prod.mk.inj h
      rcases extends_put c key e with hext | hext
      · exact ⟨[], .inr ⟨rfl, by simp [batch]⟩, hext⟩
      · exact ⟨[key], .inl rfl, hext⟩
  | resolve slot k =>
      obtain ⟨-, rfl⟩ := Prod.mk.inj h
      exact ⟨[], .inl rfl, .of_sameKeys (sameKeys_resolveStored c slot k)⟩
  | measure slot =>
      obtain ⟨-, rfl⟩ := Prod.mk.inj h
      exact ⟨[], .inl rfl, .of_sameKeys (sameKeys_sizeWithin _ c slot)⟩

/-- A step that fails changes nothing. -/
theorem eq_of_error
    {s : Step} {c c' : Catalog} {err : CatalogError}
    (h : s.apply c = (.error err, c')) :
    c' = c := by
  cases s with
  | register e =>
      simp only [apply] at h
      obtain ⟨hout, rfl⟩ := Prod.mk.inj h
      unfold Catalog.register registerFunction registerEnum at hout ⊢
      split at hout
      · split at hout
        · simp [Except.map] at hout
        · split at hout
          · simp [Except.map] at hout
          · rfl
      · split at hout
        · rfl
        · simp [Except.map] at hout
      · split at hout
        · simp [Except.map] at hout
        · simp_all
  | setMembersIn record scope members =>
      simp only [apply, Catalog.setMembersIn] at h
      split at h
      · exact (Prod.mk.inj h).2.symm
      · split at h
        · exact (Prod.mk.inj h).2.symm
        · simp at h
  | setBases record bases =>
      simp only [apply, Catalog.setBases] at h
      split at h
      · exact (Prod.mk.inj h).2.symm
      · simp at h
  | put key e =>
      simp [apply] at h
  | resolve slot k =>
      simp [apply] at h
  | measure slot =>
      simp [apply] at h

/-- Every step, successful or not, keeps a catalog coherent. -/
theorem coherent_apply
    (s : Step) {c : Catalog}
    (hc : c.Coherent) :
    (s.apply c).2.Coherent := by
  cases hout : (s.apply c).1 with
  | ok =>
      obtain ⟨added, -, hext⟩ := extends_of_ok (Prod.ext hout rfl)
      exact hext.coherent hc
  | error err =>
      rw [eq_of_error (Prod.ext hout rfl : s.apply c = (.error err, (s.apply c).2))]
      exact hc

/-- After a successful step the keys are distinct exactly when they were before it and the step's
batch does not repeat a key. -/
theorem distinctKeys_of_ok
    {s : Step} {c c' : Catalog}
    (hc : c.Coherent)
    (h : s.apply c = (.ok (), c')) :
    c'.DistinctKeys ↔ c.DistinctKeys ∧ s.batch.Nodup := by
  obtain ⟨added, hadded, hext⟩ := extends_of_ok h
  rw [hext.distinctKeys_iff hc]
  rcases hadded with rfl | ⟨rfl, hbatch⟩
  · rfl
  · simp [hbatch]

end Step

/-- A sequence of successful steps from one catalog to another. -/
inductive Trace :
    Catalog → List Step → Catalog → Prop
  | nil
      (c : Catalog) :
      Trace c [] c
  | cons
      {c d e : Catalog} {s : Step} {steps : List Step}
      (hstep : s.apply c = (.ok (), d))
      (hrest : Trace d steps e) :
      Trace c (s :: steps) e

namespace Trace

theorem single
    {c d : Catalog} {s : Step}
    (h : s.apply c = (.ok (), d)) :
    Trace c [s] d :=
  .cons h (.nil d)

theorem append
    {c d e : Catalog} {first second : List Step}
    (h : Trace c first d)
    (h' : Trace d second e) :
    Trace c (first ++ second) e := by
  induction h with
  | nil c =>
      exact h'
  | cons hstep _ ih =>
      exact .cons hstep (ih h')

theorem coherent
    {c c' : Catalog} {steps : List Step}
    (h : Trace c steps c')
    (hc : c.Coherent) :
    c'.Coherent := by
  induction h with
  | nil c =>
      exact hc
  | cons hstep _ ih =>
      obtain ⟨added, -, hext⟩ := Step.extends_of_ok hstep
      exact ih (hext.coherent hc)

/-- After successful steps the keys are distinct exactly when they were before them and no step's
batch repeats a key. -/
theorem distinctKeys_iff
    {c c' : Catalog} {steps : List Step}
    (h : Trace c steps c')
    (hc : c.Coherent) :
    c'.DistinctKeys ↔ c.DistinctKeys ∧ ∀ s ∈ steps, s.batch.Nodup := by
  induction h with
  | nil c =>
      simp
  | @cons c d e s steps hstep _ ih =>
      obtain ⟨added, -, hext⟩ := Step.extends_of_ok hstep
      rw [ih (hext.coherent hc), Step.distinctKeys_of_ok hc hstep]
      simp [and_assoc]

end Trace
end TypeCatalog
