import TypeCatalog.Proofs.Spelling.Correspondence

/-!
# Spellings are computed exactly

**Algorithm.** The spelling of an id is computed by recursion along references, with a memo of the
spellings found and a trail of the ids being spelled. Meeting an id of the trail again is reported
as a cyclic reference. The recursion is bounded by a number computed from the index.

**Invariant.** The ids of a trail are distinct, and each refers to the one inside it (`Leads`). Every
second of them is defined, so a trail is shorter than the bound. The memo holds right spellings
only (`SoundMemo`).

**Results.**
* `Leads.length_le`: the bound on the recursion is never met.
* `nameWithin_eq_of_le`: a larger bound changes nothing.
* `meets_nameWithin`: on a sound memo, an id gets a name exactly when the rules give it that name.
* `typeName_exact`: the same for a new namer, which reports a cyclic reference only for an id that
  refers to itself.
-/

namespace TypeCatalog
namespace Namer

/-- The ids of a trail are distinct, and each refers to the one inside it, the innermost one to the
given id. -/
inductive Leads
    (n : Namer) :
    List String → String → Prop
  | start
      (id : String) :
      Leads n [] id
  | step
      {visiting : List String} {outer id : String}
      (hrest : Leads n visiting outer)
      (hfresh : outer ∉ visiting)
      (hrefers : Refers n outer id) :
      Leads n (outer :: visiting) id

/-- The memo holds right spellings only. -/
def SoundMemo
    (n : Namer) (memo : SpellingMemo) :
    Prop :=
  ∀ id name, memo[id]? = some name → Spells n id name

section Trails

variable {n : Namer} {visiting : List String} {id : String}

theorem Leads.nodup
    (h : Leads n visiting id) :
    visiting.Nodup := by
  induction h with
  | start id =>
      exact .nil
  | step hrest hfresh hrefers ih =>
      exact List.nodup_cons.mpr ⟨hfresh, ih⟩

theorem Leads.refers_of_mem
    (h : Leads n visiting id)
    {outer : String}
    (hmem : outer ∈ visiting) :
    Relation.TransGen (Refers n) outer id := by
  induction h with
  | start id =>
      cases hmem
  | step hrest hfresh hrefers ih =>
      rcases List.mem_cons.mp hmem with rfl | hmem
      · exact .single hrefers
      · exact (ih hmem).tail hrefers

/-- The base of a qualified id is not a qualified id itself. -/
theorem qualifiedId?_base
    {base : String} {q : Qualifiers}
    (h : Spelling.qualifiedId? id = some (base, q)) :
    Spelling.qualifiedId? base = none := by
  simp only [Spelling.qualifiedId?] at h ⊢
  split at h
  · cases h
  · have hbase := (Prod.ext_iff.mp (Option.some.inj h)).1
    subst hbase
    have hlast : ∀ (p : Char → Bool) (cs : List Char) (c : Char),
        (Text.dropTrailing p cs).getLast? = some c → p c = false := by
      intro p cs c hc
      rw [Text.dropTrailing, List.getLast?_reverse] at hc
      have hnot := List.head?_dropWhile_not p cs.reverse
      rw [hc] at hnot
      simpa using hnot
    rw [String.toList_ofList, Text.dropTrailing_eq_self (hlast _ _)]
    simp

theorem defined_or_base_of_refers
    {outer : String}
    (h : Refers n outer id) :
    (n.index.find? outer).isSome ∨
      (n.index.find? outer = none ∧ ∃ q, Spelling.qualifiedId? outer = some (id, q)) := by
  cases h with
  | target he hkind hattr =>
      exact .inl (by simp [he])
  | result he hkind hattr =>
      exact .inl (by simp [he])
  | owner he hkind hattr =>
      exact .inl (by simp [he])
  | argument he hkind hmem =>
      exact .inl (by simp [he])
  | scope he hscoped hcontext =>
      exact .inl (by simp [he])
  | base he hbase =>
      exact .inr ⟨he, _, hbase⟩

/-- Of two neighbours on a trail one is defined. -/
theorem Leads.length_le_defined
    (h : Leads n visiting id) :
    visiting.length ≤ 2 * (visiting.filter fun i => (n.index.find? i).isSome).length + 1 ∧
      (n.index.find? id = none → Spelling.qualifiedId? id ≠ none →
        visiting.length ≤ 2 * (visiting.filter fun i => (n.index.find? i).isSome).length) := by
  induction h with
  | start id =>
      simp
  | @step visiting outer id hrest hfresh hrefers ih =>
      rcases defined_or_base_of_refers hrefers with hdefined | ⟨hundefined, q, hbase⟩
      · simp only [List.filter_cons, hdefined, if_true, List.length_cons]
        omega
      · have hle := ih.2 hundefined (by simp [hbase])
        simp only [List.filter_cons, hundefined, List.length_cons]
        refine ⟨by simpa using hle, ?_⟩
        intro _ hqualified
        exact absurd (qualifiedId?_base hbase) hqualified

theorem Leads.length_le
    (h : Leads n visiting id) :
    visiting.length ≤ 2 * n.index.size + 1 := by
  have hdefined : (visiting.filter fun i => (n.index.find? i).isSome).length ≤ n.index.size := by
    refine length_le_size_of_nodup (h.nodup.filter _) ?_
    intro i hi
    exact (List.mem_filter.mp hi).2
  have hle := h.length_le_defined.1
  omega

end Trails

section Bounds

variable {n : Namer}

theorem Leads.enter
    {trail : Trail} {id dep : String}
    (h : Leads n trail.visiting id)
    (hfresh : trail.visiting.contains id = false)
    (hrefers : Refers n id dep) :
    Leads n (trail.enter id).visiting dep :=
  .step h (by simpa using hfresh) hrefers

/-- A bound that leaves room for every trail can be made larger. -/
theorem nameWithin_succ
    {bound : Nat} {trail : Trail} {id : String}
    (hleads : Leads n trail.visiting id)
    (hbound : n.bound ≤ bound + trail.visiting.length) :
    n.nameWithin (bound + 1) trail id = n.nameWithin bound trail id := by
  induction bound generalizing trail id with
  | zero =>
      have hle := hleads.length_le
      unfold Namer.bound at hbound
      omega
  | succ bound ih =>
      rw [nameWithin, nameWithin]
      cases hfresh : trail.visiting.contains id with
      | true =>
          rfl
      | false =>
          have hsame : n.spellId (trail.enter id) (n.nameWithin (bound + 1) (trail.enter id)) id =
              n.spellId (trail.enter id) (n.nameWithin bound (trail.enter id)) id := by
            rw [spellId_eq_run, spellId_eq_run]
            refine Plan.run_congr fun dep hmentions => ?_
            have hrefers := refers_of_mentions hmentions
            refine ih (hleads.enter hfresh hrefers) ?_
            simp only [Trail.enter, List.length_cons]
            omega
          simp only [hsame]

theorem nameWithin_eq_of_le
    {bound : Nat} (id : String)
    (hbound : n.bound ≤ bound) :
    n.nameWithin bound .start id = n.typeName id := by
  induction hbound with
  | refl =>
      rfl
  | step hle ih =>
      rw [nameWithin_succ (.start id) hle, ih]

end Bounds

section Outcomes

variable {n : Namer}

theorem outcome_nameWithin_of_memo
    {bound : Nat} {trail : Trail} {id name : String} {memo : SpellingMemo}
    (hmemo : memo[id]? = some name) :
    Spelled.outcome (n.nameWithin (bound + 1) trail id) memo = (.ok name, memo) := by
  rw [nameWithin, Spelled.outcome_bind]
  have hget : Spelled.outcome (get : Spelled SpellingMemo) memo = (.ok memo, memo) := rfl
  simp only [hget, hmemo]
  rfl

theorem outcome_nameWithin_of_visiting
    {bound : Nat} {trail : Trail} {id : String} {memo : SpellingMemo}
    (hmemo : memo[id]? = none)
    (hvisiting : trail.visiting.contains id = true) :
    Spelled.outcome (n.nameWithin (bound + 1) trail id) memo =
      (.error (.cyclicReference id), memo) := by
  rw [nameWithin, Spelled.outcome_bind]
  have hget : Spelled.outcome (get : Spelled SpellingMemo) memo = (.ok memo, memo) := rfl
  simp only [hget, hmemo, hvisiting, if_true]
  rfl

theorem outcome_nameWithin_of_fresh
    {bound : Nat} {trail : Trail} {id : String} {memo : SpellingMemo}
    (hmemo : memo[id]? = none)
    (hfresh : trail.visiting.contains id = false) :
    Spelled.outcome (n.nameWithin (bound + 1) trail id) memo =
      match Spelled.outcome
        ((n.plan (trail.enter id) id).run (n.nameWithin bound (trail.enter id))) memo with
      | (.ok name, memo') => (.ok name, memo'.insert id name)
      | (.error e, memo') => (.error e, memo') := by
  rw [nameWithin, Spelled.outcome_bind]
  have hget : Spelled.outcome (get : Spelled SpellingMemo) memo = (.ok memo, memo) := rfl
  simp only [hget, hmemo, hfresh, Bool.false_eq_true, if_false, spellId_eq_run,
    Spelled.outcome_bind]
  rcases Spelled.outcome
    ((n.plan (trail.enter id) id).run (n.nameWithin bound (trail.enter id))) memo with
    ⟨result, memo'⟩
  cases result <;> rfl

theorem SoundMemo.insert
    {memo : SpellingMemo} {id name : String}
    (h : SoundMemo n memo)
    (hname : Spells n id name) :
    SoundMemo n (memo.insert id name) := by
  intro id' name' hfound
  rw [Std.TreeMap.getElem?_insert] at hfound
  split at hfound
  · next heq =>
      rw [Std.LawfulEqCmp.compare_eq_iff_eq] at heq
      cases hfound
      exact heq ▸ hname
  · exact h id' name' hfound

/-- On a sound memo, an id of a trail gets a name exactly when the rules give it that name. It fails
with errors of its plan, or of the plans of what it requests, or because it refers to itself. -/
theorem meets_nameWithin
    {allowed : DocumentError → Prop}
    (hfails : ∀ trail id e, (n.plan trail id).Fails e → allowed e)
    (hcycles : ∀ id, Relation.TransGen (Refers n) id id → allowed (.cyclicReference id))
    {bound : Nat} {trail : Trail} {id : String} {memo : SpellingMemo}
    (hleads : Leads n trail.visiting id)
    (hbound : n.bound ≤ bound + trail.visiting.length)
    (hsound : SoundMemo n memo) :
    Plan.Meets (SoundMemo n) (Spells n id) allowed
      (Spelled.outcome (n.nameWithin bound trail id) memo) := by
  induction bound generalizing trail id memo with
  | zero =>
      have hle := hleads.length_le
      unfold Namer.bound at hbound
      omega
  | succ bound ih =>
      cases hmemo : memo[id]? with
      | some name =>
          have hname : Spells n id name := hsound id name hmemo
          rw [outcome_nameWithin_of_memo hmemo]
          refine ⟨hsound, ?_, by simp⟩
          intro name'
          constructor
          · rintro ⟨⟩
            exact hname
          · intro hname'
            rw [hname.unique hname']
      | none =>
          cases hfresh : trail.visiting.contains id with
          | true =>
              have hcycle : Relation.TransGen (Refers n) id id :=
                hleads.refers_of_mem (by simpa using hfresh)
              rw [outcome_nameWithin_of_visiting hmemo hfresh]
              refine ⟨hsound, ?_, ?_⟩
              · intro name
                constructor
                · intro h
                  cases h
                · intro hname
                  exact absurd hcycle hname.not_cyclic
              · rintro e ⟨⟩
                exact hcycles id hcycle
          | false =>
              have hyields : Spells n id = (n.plan (trail.enter id) id).Yields (Spells n) :=
                funext fun name => propext (spells_iff_yields (trail.enter id))
              have hrun : Plan.Meets (SoundMemo n) (Spells n id) allowed
                  (Spelled.outcome ((n.plan (trail.enter id) id).run
                    (n.nameWithin bound (trail.enter id))) memo) := by
                rw [hyields]
                refine Plan.run_spec ?_ (hfails (trail.enter id) id) hsound
                intro dep hmentions memo' hsound'
                have hrefers := refers_of_mentions hmentions
                refine ih (hleads.enter hfresh hrefers) ?_ hsound'
                simp only [Trail.enter, List.length_cons]
                omega
              rw [outcome_nameWithin_of_fresh hmemo hfresh]
              rcases houtcome : Spelled.outcome ((n.plan (trail.enter id) id).run
                (n.nameWithin bound (trail.enter id))) memo with ⟨result, memo'⟩
              rw [houtcome] at hrun
              cases result with
              | error e =>
                  exact ⟨hrun.sound_memo, hrun.ok_iff, hrun.allowed_error⟩
              | ok name =>
                  have hname : Spells n id name := (hrun.ok_iff name).mp rfl
                  exact ⟨hrun.sound_memo.insert hname, hrun.ok_iff, hrun.allowed_error⟩

theorem soundMemo_empty :
    SoundMemo n ∅ := by
  intro id name hfound
  simp at hfound

/-- A new namer gives an id the names that the rules of spelling give it, also when chains of
contexts are cyclic. -/
theorem outcome_typeName_eq_ok_iff
    {id name : String} :
    (Spelled.outcome (n.typeName id) ∅).1 = .ok name ↔ Spells n id name := by
  have hmeets : Plan.Meets (SoundMemo n) (Spells n id) (fun _ => True)
      (Spelled.outcome (n.nameWithin n.bound .start id) ∅) :=
    meets_nameWithin (fun _ _ _ _ => trivial) (fun _ _ => trivial) (.start id) (Nat.le_refl _)
      soundMemo_empty
  exact hmeets.ok_iff name

/-- A new namer gives an id a name exactly when the rules of spelling give it that name. A cyclic
reference is reported only for an id that refers to itself, and no larger bound on the recursion
changes an outcome. -/
theorem typeName_exact
    (n : Namer)
    (hacyclic : ∀ id, ¬ Relation.TransGen (ClimbsPast n.index) id id)
    (id : String) :
    (∀ name, (Spelled.outcome (n.typeName id) ∅).1 = .ok name ↔ Spells n id name) ∧
    (∀ i, (Spelled.outcome (n.typeName id) ∅).1 = .error (.cyclicReference i) →
      Relation.TransGen (Refers n) i i) ∧
    ∀ bound, n.bound ≤ bound → n.nameWithin bound .start id = n.typeName id := by
  refine ⟨fun name => outcome_typeName_eq_ok_iff, ?_, ?_⟩
  · -- only an id that refers to itself is reported as cyclic
    have hmeets : Plan.Meets (SoundMemo n) (Spells n id)
        (fun e => ∀ i, e = .cyclicReference i → Relation.TransGen (Refers n) i i)
        (Spelled.outcome (n.nameWithin n.bound .start id) ∅) := by
      refine meets_nameWithin ?_ ?_ (.start id) (Nat.le_refl _) soundMemo_empty
      · rintro trail id' e hfails i rfl
        exact absurd hfails (not_fails_cyclic hacyclic)
      · rintro id' hcycle i ⟨⟩
        exact hcycle
    intro i herror
    exact hmeets.allowed_error _ herror i rfl
  · intro bound hbound
    exact nameWithin_eq_of_le id hbound

/-- A type `T` within an unnamed struct within a namespace `N`, and a pointer to itself. -/
def nestedTypedef :
    Namer where
  index := .ofElements
    [{ Element.bare "Namespace" "_1" with attributes := [("name", "N")] },
     { Element.bare "Struct" "_2" with attributes := [("context", "_1")] },
     { Element.bare "Typedef" "_3" with attributes := [("name", "T"), ("context", "_2")] },
     { Element.bare "PointerType" "_4" with attributes := [("type", "_4")] }]
  normalizer := .standard
  keepAll := false

theorem climbsPast_nestedTypedef
    {id outer : String}
    (h : ClimbsPast nestedTypedef.index id outer) :
    id = "_2" ∧ outer = "_1" := by
  obtain ⟨e, he, hkind, hunnamed, hcontext⟩ := h
  obtain ⟨hmem, rfl⟩ := Index.mem_of_find? he
  simp only [List.mem_cons, List.not_mem_nil, or_false] at hmem
  rcases hmem with rfl | rfl | rfl | rfl
  · exact absurd rfl hkind
  · cases hcontext
    exact ⟨rfl, rfl⟩
  · exact absurd hunnamed (by decide +kernel)
  · cases hcontext

theorem typeName_exact_nestedTypedef :
    (∀ id, ¬ Relation.TransGen (ClimbsPast nestedTypedef.index) id id) ∧
      (Spelled.outcome (nestedTypedef.typeName "_3c") ∅).1 = .ok "const N::T" ∧
      Spells nestedTypedef "_3c" "const N::T" ∧
      Relation.TransGen (Refers nestedTypedef) "_4" "_4" := by
  have hacyclic : ∀ id, ¬ Relation.TransGen (ClimbsPast nestedTypedef.index) id id := by
    intro id hcycle
    obtain ⟨outer, hfirst, -⟩ := Relation.TransGen.head'_iff.mp hcycle
    obtain ⟨inner, -, hlast⟩ := Relation.TransGen.tail'_iff.mp hcycle
    have hstart := (climbsPast_nestedTypedef hfirst).1
    have hend := (climbsPast_nestedTypedef hlast).2
    exact absurd (hstart.symm.trans hend) (by decide)
  have hname : (Spelled.outcome (nestedTypedef.typeName "_3c") ∅).1 = .ok "const N::T" := by
    decide +kernel
  have hcycle : (Spelled.outcome (nestedTypedef.typeName "_4") ∅).1 =
      .error (.cyclicReference "_4") := by
    decide +kernel
  exact ⟨hacyclic, hname, ((typeName_exact nestedTypedef hacyclic "_3c").1 _).mp hname,
    (typeName_exact nestedTypedef hacyclic "_4").2.1 _ hcycle⟩

end Outcomes

end Namer
end TypeCatalog
