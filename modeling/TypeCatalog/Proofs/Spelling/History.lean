import TypeCatalog.Proofs.Spelling.Exact

/-!
# Answers do not depend on earlier questions

**Input.** A namer is asked for names, for scopes, and for names that some id mentions, one question
after the other. The memo goes from each question to the next.

**Rule.** On sound memos an answer, be it a name or an error, does not depend on the memo: what a
memo knows is not on a cycle, and is spelled the same way without it.

**State.** The computation of a spelling gets its trail as an argument. A `Session` keeps the trail
in its state instead, as a path and the ids being spelled, which are changed on the way into an id
and have to be changed back on every way out of it.

**Results.**
* `steady_nameWithin`: a spelling has one outcome on all sound memos.
* `nameIn_eq`, `Query.answer_eq`: a session gives the answers of the computation, and its path and
  ids are after a question what they were before.
* `answer_independent_of_history`: no answer depends on the questions before it.
-/

namespace TypeCatalog

namespace Spelled

/-- The computation keeps memos sound, and has one outcome on all sound memos. -/
def Steady
    {α : Type} (sound : SpellingMemo → Prop) (x : Spelled α) :
    Prop :=
  ∀ memo, sound memo → sound (outcome x memo).2 ∧
    ∀ memo', sound memo' → (outcome x memo').1 = (outcome x memo).1

end Spelled

/-- A run is steady if the answers to its requests are. -/
theorem Plan.steady_run
    {p : Plan} {nameOf : String → Spelled String} {sound : SpellingMemo → Prop}
    (hanswers : ∀ dep, p.Mentions dep → Spelled.Steady sound (nameOf dep)) :
    Spelled.Steady sound (p.run nameOf) := by
  induction p with
  | done name =>
      exact fun memo hmemo => ⟨hmemo, fun memo' _ => rfl⟩
  | fail e =>
      exact fun memo hmemo => ⟨hmemo, fun memo' _ => rfl⟩
  | ask id next ih =>
      intro memo hmemo
      have hanswer := hanswers id (.inl rfl)
      have hnext : ∀ s, Spelled.Steady sound ((next s).run nameOf) :=
        fun s => ih s fun dep hdep => hanswers dep (.inr ⟨s, hdep⟩)
      obtain ⟨hafter, hsame⟩ := hanswer memo hmemo
      rw [run, Spelled.outcome_bind]
      rcases houtcome : Spelled.outcome (nameOf id) memo with ⟨answer, after⟩
      rw [houtcome] at hafter hsame
      cases answer with
      | error e =>
          refine ⟨hafter, fun memo' hmemo' => ?_⟩
          have hsame' := hsame memo' hmemo'
          rw [Spelled.outcome_bind]
          rcases houtcome' : Spelled.outcome (nameOf id) memo' with ⟨answer', after'⟩
          rw [houtcome'] at hsame'
          obtain rfl : answer' = .error e := hsame'
          rfl
      | ok s =>
          refine ⟨(hnext s after hafter).1, fun memo' hmemo' => ?_⟩
          have hsame' := hsame memo' hmemo'
          have hafter' := (hanswer memo' hmemo').1
          rw [Spelled.outcome_bind]
          rcases houtcome' : Spelled.outcome (nameOf id) memo' with ⟨answer', after'⟩
          rw [houtcome'] at hsame' hafter'
          obtain rfl : answer' = .ok s := hsame'
          exact (hnext s after hafter).2 after' hafter'

namespace Namer

section Memos

variable {n : Namer}

theorem meets_nameWithin_of_sound
    {bound : Nat} {trail : Trail} {id : String} {memo : SpellingMemo}
    (hleads : Leads n trail.visiting id)
    (hbound : n.bound ≤ bound + trail.visiting.length)
    (hmemo : SoundMemo n memo) :
    Plan.Meets (SoundMemo n) (Spells n id) (fun _ => True)
      (Spelled.outcome (n.nameWithin bound trail id) memo) :=
  meets_nameWithin (fun _ _ _ _ => trivial) (fun _ _ => trivial) hleads hbound hmemo

/-- The spelling of an id on a trail is steady. -/
theorem steady_nameWithin
    {bound : Nat} {trail : Trail} {id : String}
    (hleads : Leads n trail.visiting id)
    (hbound : n.bound ≤ bound + trail.visiting.length) :
    Spelled.Steady (SoundMemo n) (n.nameWithin bound trail id) := by
  induction bound generalizing trail id with
  | zero =>
      exact fun memo hmemo => ⟨hmemo, fun memo' _ => rfl⟩
  | succ bound ih =>
      intro memo hmemo
      refine ⟨(meets_nameWithin_of_sound hleads hbound hmemo).sound_memo, fun memo' hmemo' => ?_⟩
      -- a name in one of the memos is right, so it is found on the other one too
      have hknown : ∀ {known other : SpellingMemo} {name : String}, SoundMemo n known →
          SoundMemo n other → known[id]? = some name →
          (Spelled.outcome (n.nameWithin (bound + 1) trail id) other).1 =
            (Spelled.outcome (n.nameWithin (bound + 1) trail id) known).1 := by
        intro known other name hsound hother hname
        rw [outcome_nameWithin_of_memo hname]
        exact ((meets_nameWithin_of_sound hleads hbound hother).ok_iff name).mpr
          (hsound id name hname)
      cases hname : memo[id]? with
      | some name =>
          exact hknown hmemo hmemo' hname
      | none =>
          cases hname' : memo'[id]? with
          | some name =>
              exact (hknown hmemo' hmemo hname').symm
          | none =>
              cases hfresh : trail.visiting.contains id with
              | true =>
                  rw [outcome_nameWithin_of_visiting hname hfresh,
                    outcome_nameWithin_of_visiting hname' hfresh]
              | false =>
                  have hrun : Spelled.Steady (SoundMemo n) ((n.plan (trail.enter id) id).run
                      (n.nameWithin bound (trail.enter id))) := by
                    refine Plan.steady_run fun dep hmentions => ?_
                    refine ih (hleads.enter hfresh (refers_of_mentions hmentions)) ?_
                    simp only [Trail.enter, List.length_cons]
                    omega
                  have hsame := (hrun memo hmemo).2 memo' hmemo'
                  rw [outcome_nameWithin_of_fresh hname hfresh,
                    outcome_nameWithin_of_fresh hname' hfresh]
                  rcases houtcome : Spelled.outcome ((n.plan (trail.enter id) id).run
                    (n.nameWithin bound (trail.enter id))) memo with ⟨result, after⟩
                  rcases houtcome' : Spelled.outcome ((n.plan (trail.enter id) id).run
                    (n.nameWithin bound (trail.enter id))) memo' with ⟨result', after'⟩
                  rw [houtcome, houtcome'] at hsame
                  obtain rfl : result' = result := hsame
                  cases result' <;> rfl

/-- Who mentions an id has no influence on its name. -/
theorem outcome_referencedName_eq_ok_iff
    {id referrer name : String} :
    (Spelled.outcome (n.referencedName id referrer) ∅).1 = .ok name ↔ Spells n id name :=
  (meets_nameWithin_of_sound (.start id) (Nat.le_add_right _ _) soundMemo_empty).ok_iff name

end Memos

/-- A question to a namer. -/
inductive Query where
  /-- The name of an id. -/
  | name (id : String)
  /-- The scope that declares an id. -/
  | scope (id : String)
  /-- The name of an id that another one mentions. -/
  | reference (id referrer : String)
deriving DecidableEq

/-- The computation that answers a question. -/
def Query.ask
    (n : Namer) :
    Query → Spelled String
  | name id => n.typeName id
  | scope id => n.scopeName id
  | reference id referrer => n.referencedName id referrer

/-- The memo after a sequence of questions to a new namer. -/
def memoAfter
    (n : Namer) (history : List Query) :
    SpellingMemo :=
  history.foldl (fun memo q => (Spelled.outcome (q.ask n) memo).2) ∅

section Queries

variable {n : Namer}

/-- The scope of an element is what its plan asks for. -/
theorem scopeOf_eq_run
    (nameOf : String → Spelled String) (e : Element) :
    n.scopeOf nameOf e = (n.scopePlan e .done).run nameOf := by
  rw [run_scopePlan]
  exact (bind_pure _).symm

theorem Query.steady_ask
    (q : Query) :
    Spelled.Steady (SoundMemo n) (q.ask n) := by
  have hname : ∀ id, Spelled.Steady (SoundMemo n) (n.typeName id) :=
    fun id => steady_nameWithin (.start id) (Nat.le_add_right _ _)
  cases q with
  | name id =>
      exact hname id
  | reference id referrer =>
      exact steady_nameWithin (.start id) (Nat.le_add_right _ _)
  | scope id =>
      simp only [Query.ask, scopeName]
      cases n.index.find? id with
      | none =>
          exact fun memo hmemo => ⟨hmemo, fun memo' _ => rfl⟩
      | some e =>
          simp only [scopeOf_eq_run]
          exact Plan.steady_run fun dep _ => hname dep

theorem soundMemo_memoAfter
    (history : List Query) :
    SoundMemo n (n.memoAfter history) := by
  have hfold : ∀ memo, SoundMemo n memo →
      SoundMemo n (history.foldl (fun memo q => (Spelled.outcome (q.ask n) memo).2) memo) := by
    induction history with
    | nil =>
        exact fun memo hmemo => hmemo
    | cons q history ih =>
        exact fun memo hmemo => ih _ (q.steady_ask memo hmemo).1
  exact hfold ∅ soundMemo_empty

end Queries

/-- What a namer holds while it answers: the memo, the ids that an error may name, the innermost
first, and the ids being spelled. -/
structure Session where
  memo : SpellingMemo
  path : List String
  visiting : List String

/-- A computation on a session. -/
abbrev OnSession :=
  Session → Except DocumentError String × Session

namespace Session

/-- A new namer. -/
def start :
    Session :=
  ⟨∅, [], []⟩

/-- The session inside one more id. -/
def enter
    (s : Session) (id : String) :
    Session :=
  { s with path := id :: s.path, visiting := id :: s.visiting }

/-- The session back outside an id. -/
def leave
    (s : Session) (id : String) :
    Session :=
  { s with path := s.path.tail, visiting := s.visiting.erase id }

/-- The session with one more spelling in its memo. -/
def keep
    (s : Session) (id name : String) :
    Session :=
  { s with memo := s.memo.insert id name }

/-- The trail that the path stands for. -/
def trail
    (s : Session) :
    Trail :=
  ⟨s.path, none⟩

/-- What a computation on memos does to a session: it changes the memo only. -/
def lift
    (x : Spelled String) :
    OnSession :=
  fun s => ((Spelled.outcome x s.memo).1, { s with memo := (Spelled.outcome x s.memo).2 })

end Session

/-- Runs a plan on a session. -/
def runIn
    (answer : String → OnSession) :
    Plan → OnSession
  | .done name => fun s => (.ok name, s)
  | .fail e => fun s => (.error e, s)
  | .ask id next => fun s =>
      match answer id s with
      | (.ok name, s) => runIn answer (next name) s
      | (.error e, s) => (.error e, s)

/-- The spelling of an id on a session whose path may become at most `bound` longer. The id is taken
off the path again also when its spelling fails. -/
def nameIn
    (n : Namer) :
    Nat → String → OnSession
  | 0, id => fun s => (.error (.cyclicReference id), s)
  | bound + 1, id => fun s =>
      match s.memo[id]? with
      | some name => (.ok name, s)
      | none =>
          if s.visiting.contains id then (.error (.cyclicReference id), s)
          else
            let inner := s.enter id
            match runIn (n.nameIn bound) (n.plan inner.trail id) inner with
            | (.ok name, s) => (.ok name, (s.leave id).keep id name)
            | (.error e, s) => (.error e, s.leave id)

/-- The answer to a question on a session. -/
def Query.answer
    (n : Namer) :
    Query → OnSession
  | name id => n.nameIn n.bound id
  | scope id => fun s =>
      match n.index.find? id with
      | some e => runIn (n.nameIn n.bound) (n.scopePlan e .done) s
      | none => (.error (s.trail.unknown id), s)
  | reference id referrer => fun s =>
      let (result, s) := n.nameIn n.bound id { s with path := referrer :: s.path }
      (result, { s with path := s.path.tail })

section Sessions

variable {n : Namer}

/-- Plans depend only on the ids that an error may name. -/
theorem plan_eq_of_path
    {trail trail' : Trail} (id : String)
    (h : trail.visiting ++ trail.referrer.toList = trail'.visiting ++ trail'.referrer.toList) :
    n.plan trail id = n.plan trail' id := by
  have hunknown : trail.unknown id = trail'.unknown id := by
    rw [Trail.unknown, Trail.unknown, h]
  rw [plan, plan, hunknown]

/-- If a session answers the requests as a computation does, it runs the plan as the computation
does. -/
theorem runIn_eq
    {answer : String → OnSession} {nameOf : String → Spelled String} {path visiting : List String}
    (hanswer : ∀ dep memo, answer dep ⟨memo, path, visiting⟩ =
      Session.lift (nameOf dep) ⟨memo, path, visiting⟩)
    (p : Plan) (memo : SpellingMemo) :
    runIn answer p ⟨memo, path, visiting⟩ = Session.lift (p.run nameOf) ⟨memo, path, visiting⟩ := by
  induction p generalizing memo with
  | done name =>
      rfl
  | fail e =>
      rfl
  | ask id next ih =>
      simp only [runIn, Plan.run, Session.lift, hanswer, Spelled.outcome_bind]
      rcases Spelled.outcome (nameOf id) memo with ⟨result, after⟩
      cases result with
      | error e =>
          rfl
      | ok name =>
          exact ih name after

/-- A session spells an id as the computation on its trail does, and leaves its path and its ids as
they were. -/
theorem nameIn_eq
    (bound : Nat) (trail : Trail) (id : String) (memo : SpellingMemo) :
    n.nameIn bound id ⟨memo, trail.visiting ++ trail.referrer.toList, trail.visiting⟩ =
      Session.lift (n.nameWithin bound trail id)
        ⟨memo, trail.visiting ++ trail.referrer.toList, trail.visiting⟩ := by
  induction bound generalizing trail id memo with
  | zero =>
      rfl
  | succ bound ih =>
      rw [nameIn, Session.lift]
      cases hname : memo[id]? with
      | some name =>
          simp only [hname, outcome_nameWithin_of_memo hname]
      | none =>
          cases hfresh : trail.visiting.contains id with
          | true =>
              simp only [hname, hfresh, if_true, outcome_nameWithin_of_visiting hname hfresh]
          | false =>
              have hplan : n.plan (Session.enter
                  ⟨memo, trail.visiting ++ trail.referrer.toList, trail.visiting⟩ id).trail id =
                  n.plan (trail.enter id) id :=
                plan_eq_of_path id (by simp [Session.trail, Session.enter, Trail.enter])
              have hrun := runIn_eq (ih (trail.enter id)) (n.plan (trail.enter id) id) memo
              simp only [hname, hfresh, Bool.false_eq_true, if_false, hplan,
                outcome_nameWithin_of_fresh hname hfresh]
              simp only [Trail.enter, List.cons_append] at hrun
              simp only [Session.enter, hrun, Session.lift, Trail.enter]
              rcases Spelled.outcome ((n.plan { trail with visiting := id :: trail.visiting } id).run
                (n.nameWithin bound { trail with visiting := id :: trail.visiting })) memo with
                ⟨result, after⟩
              cases result <;> simp [Session.leave, Session.keep]

/-- Between questions a session gives the answer of the computation, and its path and its ids are
empty afterwards. -/
theorem Query.answer_eq
    (q : Query) (memo : SpellingMemo) :
    q.answer n ⟨memo, [], []⟩ = Session.lift (q.ask n) ⟨memo, [], []⟩ := by
  cases q with
  | name id =>
      exact nameIn_eq n.bound .start id memo
  | reference id referrer =>
      have hname := nameIn_eq (n := n) n.bound ⟨[], some referrer⟩ id memo
      simp only [Option.toList_some, List.nil_append] at hname
      simp only [Query.answer, hname]
      rfl
  | scope id =>
      simp only [Query.answer, Query.ask, scopeName]
      cases n.index.find? id with
      | none =>
          rfl
      | some e =>
          simp only [scopeOf_eq_run]
          exact runIn_eq (fun dep memo => nameIn_eq n.bound .start dep memo) _ memo

/-- The session after a sequence of questions to a new namer. -/
def sessionAfter
    (n : Namer) (history : List Query) :
    Session :=
  history.foldl (fun s q => (q.answer n s).2) .start

theorem sessionAfter_eq
    (history : List Query) :
    n.sessionAfter history = ⟨n.memoAfter history, [], []⟩ := by
  have hfold : ∀ memo,
      history.foldl (fun s q => (Query.answer n q s).2) ⟨memo, [], []⟩ =
        ⟨history.foldl (fun memo q => (Spelled.outcome (q.ask n) memo).2) memo, [], []⟩ := by
    induction history with
    | nil =>
        exact fun memo => rfl
    | cons q history ih =>
        intro memo
        rw [List.foldl_cons, List.foldl_cons, Query.answer_eq]
        exact ih _
  exact hfold ∅

/-- After any questions, a question gets the answer of a new namer, a name or an error. A session has
an empty path and no ids being spelled before and after it, and gives that answer too. -/
theorem answer_independent_of_history
    (n : Namer) (history : List Query) (q : Query) :
    (Spelled.outcome (q.ask n) (n.memoAfter history)).1 = (Spelled.outcome (q.ask n) ∅).1 ∧
    n.sessionAfter history = ⟨n.memoAfter history, [], []⟩ ∧
    q.answer n (n.sessionAfter history) =
      ((Spelled.outcome (q.ask n) ∅).1, ⟨n.memoAfter (history ++ [q]), [], []⟩) := by
  have hsame : (Spelled.outcome (q.ask n) (n.memoAfter history)).1 =
      (Spelled.outcome (q.ask n) ∅).1 :=
    (q.steady_ask ∅ soundMemo_empty).2 _ (soundMemo_memoAfter history)
  refine ⟨hsame, sessionAfter_eq history, ?_⟩
  rw [sessionAfter_eq, Query.answer_eq, Session.lift, hsame, memoAfter, memoAfter,
    List.foldl_append]
  rfl

end Sessions

end Namer
end TypeCatalog
