import TypeCatalog.Proofs.Spelling.Rules

/-!
# What a spelling asks for

**Types.** A plan is a name at once, a failure, or the request for the spelling of an id with what to
do next. The computation of a spelling runs a plan: requests are answered by recursion, and a memo
is passed along.

**Views.** A plan is looked at in three ways: which names it yields when a relation answers the
requests (`Yields`), which ids it may request (`Mentions`), and which ids it has to request before
it can yield anything (`Needs`).

**Results.**
* `Plan.run_spec`: if the answers are right, the outcome of a run is what the plan yields.
* `Plan.run_congr`: a run depends only on the answers for the ids that the plan mentions.
-/

namespace TypeCatalog

namespace Spelled

/-- The outcome of a computation on a memo, and the memo after it. -/
def outcome
    {α : Type} (x : Spelled α) (memo : SpellingMemo) :
    Except DocumentError α × SpellingMemo :=
  StateT.run (ExceptT.run x) memo

theorem outcome_pure
    {α : Type} (a : α) (memo : SpellingMemo) :
    outcome (pure a) memo = (.ok a, memo) :=
  rfl

theorem outcome_throw
    {α : Type} (e : DocumentError) (memo : SpellingMemo) :
    outcome (throw e : Spelled α) memo = (.error e, memo) :=
  rfl

theorem outcome_bind
    {α β : Type} (x : Spelled α) (f : α → Spelled β) (memo : SpellingMemo) :
    outcome (x >>= f) memo =
      match outcome x memo with
      | (.ok a, memo') => outcome (f a) memo'
      | (.error e, memo') => (.error e, memo') := by
  rcases h : outcome x memo with ⟨result, memo'⟩
  have hrun : outcome (x >>= f) memo =
      StateT.run (ExceptT.bindCont f (outcome x memo).1) (outcome x memo).2 := rfl
  rw [hrun, h]
  cases result <;> rfl

end Spelled

/-- How to arrive at a spelling. -/
inductive Plan where
  | done (name : String)
  | fail (e : DocumentError)
  | ask (id : String) (next : String → Plan)

namespace Plan

/-- Runs a plan, given how requests are answered. -/
def run
    (nameOf : String → Spelled String) :
    Plan → Spelled String
  | done name => pure name
  | fail e => throw e
  | ask id next => do (next (← nameOf id)).run nameOf

/-- The plan yields the name when the relation answers its requests. -/
def Yields
    (answers : String → String → Prop) :
    Plan → String → Prop
  | done name, result => name = result
  | fail _, _ => False
  | ask id next, result => ∃ name, answers id name ∧ (next name).Yields answers result

/-- The plan may request the id. -/
def Mentions
    (dep : String) :
    Plan → Prop
  | done _ | fail _ => False
  | ask id next => id = dep ∨ ∃ name, (next name).Mentions dep

/-- The plan does not yield a name without requesting the id. -/
def Needs
    (dep : String) :
    Plan → Prop
  | done _ => False
  | fail _ => True
  | ask id next => id = dep ∨ ∀ name, (next name).Needs dep

/-- The plan may fail by itself with the error. -/
def Fails
    (e : DocumentError) :
    Plan → Prop
  | done _ => False
  | fail e' => e' = e
  | ask _ next => ∃ name, (next name).Fails e

/-- Requests several ids, in order. -/
def askAll :
    List String → (List String → Plan) → Plan
  | [], next => next []
  | id :: ids, next => ask id fun name => askAll ids fun names => next (name :: names)

section Answers

variable {p : Plan} {r : String → String → Prop}

theorem Yields.mono
    {r' : String → String → Prop} {name : String}
    (h : p.Yields r name)
    (hr : ∀ id s, r id s → r' id s) :
    p.Yields r' name := by
  induction p with
  | done s =>
      exact h
  | fail e =>
      exact h
  | ask id next ih =>
      obtain ⟨s, hs, hnext⟩ := h
      exact ⟨s, hr id s hs, ih s hnext⟩

theorem Yields.unique
    {name name' : String}
    (hr : ∀ dep, p.Mentions dep → ∀ s s', r dep s → r dep s' → s = s')
    (h : p.Yields r name)
    (h' : p.Yields r name') :
    name = name' := by
  induction p with
  | done s =>
      exact h.symm.trans h'
  | fail e =>
      exact h.elim
  | ask id next ih =>
      obtain ⟨s, hs, hnext⟩ := h
      obtain ⟨s', hs', hnext'⟩ := h'
      have hsame : s = s' := hr id (.inl rfl) s s' hs hs'
      subst hsame
      exact ih s (fun dep hdep => hr dep (.inr ⟨s, hdep⟩)) hnext hnext'

theorem Needs.exists_answer
    {dep name : String}
    (hneeds : p.Needs dep)
    (h : p.Yields r name) :
    ∃ s, r dep s := by
  induction p with
  | done s =>
      exact hneeds.elim
  | fail e =>
      exact h.elim
  | ask id next ih =>
      obtain ⟨s, hs, hnext⟩ := h
      rcases hneeds with rfl | hneeds
      · exact ⟨s, hs⟩
      · exact ih s (hneeds s) hnext

end Answers

section Runs

/-- An outcome leaves a sound memo, is a name exactly when the name is right, and is an error only
of an allowed kind. -/
structure Meets
    (sound : SpellingMemo → Prop) (right : String → Prop) (allowed : DocumentError → Prop)
    (x : Except DocumentError String × SpellingMemo) :
    Prop where
  sound_memo : sound x.2
  ok_iff : ∀ name, x.1 = .ok name ↔ right name
  allowed_error : ∀ e, x.1 = .error e → allowed e

/-- If all requests are answered rightly, the outcome of a run is what the plan yields. -/
theorem run_spec
    {p : Plan} {nameOf : String → Spelled String}
    {sound : SpellingMemo → Prop} {r : String → String → Prop} {allowed : DocumentError → Prop}
    (hanswers : ∀ dep, p.Mentions dep → ∀ memo, sound memo →
      Meets sound (r dep) allowed (Spelled.outcome (nameOf dep) memo))
    (hfails : ∀ e, p.Fails e → allowed e)
    {memo : SpellingMemo}
    (hmemo : sound memo) :
    Meets sound (p.Yields r) allowed (Spelled.outcome (p.run nameOf) memo) := by
  induction p generalizing memo with
  | done name =>
      rw [run, Spelled.outcome_pure]
      refine ⟨hmemo, ?_, ?_⟩
      · intro result
        simp [Yields]
      · intro e he
        cases he
  | fail err =>
      rw [run, Spelled.outcome_throw]
      refine ⟨hmemo, ?_, ?_⟩
      · intro result
        simp [Yields]
      · intro e he
        cases he
        exact hfails err rfl
  | ask id next ih =>
      have hid := hanswers id (.inl rfl) memo hmemo
      rw [run, Spelled.outcome_bind]
      rcases houtcome : Spelled.outcome (nameOf id) memo with ⟨answer, memo'⟩
      rw [houtcome] at hid
      cases answer with
      | error e =>
          refine ⟨hid.sound_memo, ?_, ?_⟩
          · intro result
            constructor
            · intro h
              cases h
            · rintro ⟨s, hs, -⟩
              cases (hid.ok_iff s).mpr hs
          · intro e' he'
            exact hid.allowed_error e' he'
      | ok s =>
          have hnext : Meets sound ((next s).Yields r) allowed
              (Spelled.outcome ((next s).run nameOf) memo') :=
            ih s (fun dep hdep => hanswers dep (.inr ⟨s, hdep⟩))
              (fun e he => hfails e ⟨s, he⟩) hid.sound_memo
          refine ⟨hnext.sound_memo, ?_, hnext.allowed_error⟩
          intro result
          rw [hnext.ok_iff result]
          constructor
          · intro h
            exact ⟨s, (hid.ok_iff s).mp rfl, h⟩
          · rintro ⟨s', hs', h⟩
            cases (hid.ok_iff s').mpr hs'
            exact h

theorem run_congr
    {p : Plan} {nameOf nameOf' : String → Spelled String}
    (h : ∀ dep, p.Mentions dep → nameOf dep = nameOf' dep) :
    p.run nameOf = p.run nameOf' := by
  induction p with
  | done name =>
      rfl
  | fail e =>
      rfl
  | ask id next ih =>
      have hnext : ∀ s, (next s).run nameOf = (next s).run nameOf' := by
        intro s
        exact ih s fun dep hdep => h dep (.inr ⟨s, hdep⟩)
      rw [run, run, h id (.inl rfl)]
      exact bind_congr hnext

theorem run_askAll
    (nameOf : String → Spelled String) (ids : List String) (next : List String → Plan) :
    (askAll ids next).run nameOf =
      ids.mapM nameOf >>= fun names => (next names).run nameOf := by
  induction ids generalizing next with
  | nil =>
      simp [askAll]
  | cons id ids ih =>
      simp [askAll, run, ih]

end Runs

section Several

variable {ids : List String} {next : List String → Plan}

theorem yields_askAll_iff
    {r : String → String → Prop} {name : String} :
    (askAll ids next).Yields r name ↔
      ∃ names : List String, names.length = ids.length ∧
        (∀ (i : Nat) id s, ids[i]? = some id → names[i]? = some s → r id s) ∧
        (next names).Yields r name := by
  induction ids generalizing next with
  | nil =>
      constructor
      · intro h
        exact ⟨[], rfl, by simp, h⟩
      · rintro ⟨names, hlength, -, h⟩
        rw [List.length_eq_zero_iff.mp hlength] at h
        exact h
  | cons id ids ih =>
      constructor
      · rintro ⟨s, hs, h⟩
        obtain ⟨names, hlength, hnames, h⟩ := ih.mp h
        refine ⟨s :: names, by simp [hlength], ?_, h⟩
        intro i id' s' hid hs'
        cases i with
        | zero =>
            cases hid
            cases hs'
            exact hs
        | succ i =>
            exact hnames i id' s' hid hs'
      · rintro ⟨names, hlength, hnames, h⟩
        cases names with
        | nil =>
            cases hlength
        | cons s names =>
            have hrest : ∀ (i : Nat) id s, ids[i]? = some id → names[i]? = some s → r id s := by
              intro i id' s' hid hs'
              exact hnames (i + 1) id' s' hid hs'
            refine ⟨s, hnames 0 id s rfl rfl, ih.mpr ⟨names, ?_, hrest, h⟩⟩
            exact Nat.succ.inj hlength

theorem mentions_askAll
    {dep : String}
    (h : (askAll ids next).Mentions dep) :
    dep ∈ ids ∨ ∃ names, (next names).Mentions dep := by
  induction ids generalizing next with
  | nil =>
      exact .inr ⟨[], h⟩
  | cons id ids ih =>
      rcases h with rfl | ⟨s, h⟩
      · exact .inl (by simp)
      · rcases ih h with hmem | ⟨names, h⟩
        · exact .inl (List.mem_cons_of_mem id hmem)
        · exact .inr ⟨s :: names, h⟩

theorem needs_askAll
    {dep : String}
    (h : dep ∈ ids ∨ ∀ names, (next names).Needs dep) :
    (askAll ids next).Needs dep := by
  induction ids generalizing next with
  | nil =>
      rcases h with h | h
      · cases h
      · exact h []
  | cons id ids ih =>
      rcases h with hmem | h
      · rcases List.mem_cons.mp hmem with rfl | hmem
        · exact .inl rfl
        · exact .inr fun s => ih (.inl hmem)
      · exact .inr fun s => ih (.inr fun names => h (s :: names))

theorem fails_askAll
    {e : DocumentError}
    (h : (askAll ids next).Fails e) :
    ∃ names, (next names).Fails e := by
  induction ids generalizing next with
  | nil =>
      exact ⟨[], h⟩
  | cons id ids ih =>
      obtain ⟨s, h⟩ := h
      obtain ⟨names, h⟩ := ih h
      exact ⟨s :: names, h⟩

end Several

end Plan
end TypeCatalog
