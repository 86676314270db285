import TypeCatalog.Proofs.Catalog.Successes

/-!
# The entries of data members

**Input.** A run of registrations, member lists and base lists from the empty catalog, each of which
may fail. Records are registered without members, no member is registered by itself, and member
lists are entered in the scope of their own record.

**Rule.** A member list replaces the members of its record, and its named data members get entries of
their own. The entries of an older list stay: slots are never removed. Enumerations enter what they
hold, which need not be enumerators.

**Results.**
* `Trace.dataMembersIn`: the entries of data members are those that the steps opened.
* `Trace.currentMembers`: the members of a record are those of the last list.
* `exposure_run`: so the entries mirror the members exactly when the older lists had no named data
  member.
* `not_mirrored`: an older list, or an enumeration, leaves entries that are not members.
-/

namespace TypeCatalog

/-- Whether a member gets an entry of its own. -/
def Member.isExposed
    (m : Member) :
    Bool :=
  m.isData && !m.name.isEmpty

/-- The data member of a scope that an entity is. -/
def Entity.dataMemberOf?
    (scope : String) :
    Entity → Option Member
  | ofMember m => if m.isData && m.scope == scope then some m else none
  | _ => none

/-- The members of a struct, class or union. -/
def DataType.recordMembers? :
    DataType → Option (List Member)
  | ⟨_, .record _ members _⟩ | ⟨_, .union members _⟩ => some members
  | _ => none

namespace Catalog

/-- The entries that are data members of a scope, in the order of their slots. -/
def dataMembersIn
    (c : Catalog) (scope : String) :
    List Member :=
  c.slots.toList.filterMap (·.entity.dataMemberOf? scope)

/-- The members of the record of a name; none if there is no such record. -/
def currentMembers
    (c : Catalog) (name : String) :
    List Member :=
  (((c.lookup name).bind Entity.type?).bind DataType.recordMembers?).getD []

end Catalog

namespace Step

open Catalog

/-- Whether a step registers an entity that is no member and no record with members, or sets the
members of a record in its own scope, or its bases. -/
def FillsShells :
    Step → Prop
  | register (.ofMember _) => False
  | register (.ofType t) => t.recordMembers?.getD [] = []
  | register _ => True
  | setMembersIn record scope _ => scope = record
  | setBases _ _ => True
  | put _ _ | resolve _ _ | measure _ => False

/-- The data members for which a step opens entries in a scope. -/
def exposes
    (scope : String) :
    Step → List Member
  | setMembersIn record _ members =>
      if record = scope then (members.map (·.inScope record)).filter Member.isExposed else []
  | register (.ofType ⟨_, .enumeration members⟩) =>
      members.filter fun m => m.isData && m.scope == scope
  | _ => []

/-- The members that a step gives to a record. -/
def attached?
    (record : String) :
    Step → Option (List Member)
  | setMembersIn r _ members =>
      if r = record then some (members.map (·.inScope record)) else none
  | _ => none

/-- The member lists that steps give to a record, in order. -/
def attached
    (record : String) (steps : List Step) :
    List (List Member) :=
  steps.filterMap (attached? record)

theorem FillsShells.isRegistration
    {s : Step}
    (h : s.FillsShells) :
    s.IsRegistration := by
  cases s with
  | register e =>
      trivial
  | setMembersIn record scope members =>
      trivial
  | _ =>
      exact h

theorem attached?_eq_none
    {s : Step} {record : String}
    (h : s.filled? ≠ some record) :
    s.attached? record = none := by
  cases s with
  | setMembersIn r scope members =>
      have hne : r ≠ record := fun heq => h (congrArg some heq)
      simp [attached?, hne]
  | _ =>
      rfl

theorem filterMap_ofMember
    (key : Member → String) (members : List Member) (scope : String) :
    (members.map fun m => (key m, Entity.ofMember m)).filterMap (·.2.dataMemberOf? scope) =
      members.filter fun m => m.isData && m.scope == scope := by
  rw [List.filterMap_map, ← List.filterMap_eq_filter]
  refine congrFun (congrArg List.filterMap (funext fun m => ?_)) members
  simp [Entity.dataMemberOf?, Option.guard]

/-- What a member list enters in the scope of its own record is what it exposes there. -/
theorem filterMap_exposed
    (record scope : String) (members : List Member) :
    (exposed record (members.map (·.inScope record))).filterMap (·.2.dataMemberOf? scope) =
      (setMembersIn record record members).exposes scope := by
  have hown : exposed record (members.map (·.inScope record)) =
      ((members.map (·.inScope record)).filter Member.isExposed).map fun m =>
        (Name.qualify record m.name, .ofMember m) := by
    refine List.map_congr_left fun m hm => ?_
    obtain ⟨declared, -, rfl⟩ := List.mem_map.mp (List.mem_of_mem_filter hm)
    rfl
  rw [hown, filterMap_ofMember, List.filter_filter, exposes]
  split
  · next heq =>
      subst heq
      refine List.filter_congr fun m hm => ?_
      obtain ⟨declared, -, rfl⟩ := List.mem_map.mp hm
      simp [Member.isExposed, Member.inScope]
  · next hne =>
      refine List.filter_eq_nil_iff.mpr fun m hm => ?_
      obtain ⟨declared, -, rfl⟩ := List.mem_map.mp hm
      simp [Member.inScope, hne]

/-- What a step exposes is what it opens, as far as that is a data member of the scope. -/
theorem FillsShells.filterMap_entries
    {s : Step}
    (hs : s.FillsShells) (scope : String) :
    s.entries.filterMap (·.2.dataMemberOf? scope) = s.exposes scope := by
  cases s with
  | register e =>
      cases e with
      | ofMember m =>
          cases hs
      | ofType t =>
          obtain ⟨header, shape⟩ := t
          cases shape with
          | enumeration members =>
              exact filterMap_ofMember Member.qualified members scope
          | _ =>
              rfl
      | _ =>
          rfl
  | setMembersIn record own members =>
      obtain rfl : own = record := hs
      exact filterMap_exposed own scope members
  | setBases record bases =>
      rfl
  | _ =>
      cases hs

end Step

namespace Catalog

theorem filterMap_modify
    {α β : Type} {f : α → α} {g : α → Option β} {l : List α} {i : Nat}
    (h : ∀ a, l[i]? = some a → g (f a) = g a) :
    (l.modify i f).filterMap g = l.filterMap g := by
  induction l generalizing i with
  | nil =>
      simp
  | cons a l ih =>
      cases i with
      | zero =>
          simp [List.filterMap_cons, h a rfl]
      | succ i =>
          simp [List.filterMap_cons, ih fun b hb => h b hb]

/-- Changing an entity that is no data member changes no entry of a data member. -/
theorem dataMembersIn_setEntity
    {c : Catalog} {i : Nat} {old new : Entity} {scope : String}
    (hold : c.entityAt? i = some old)
    (hsame : new.dataMemberOf? scope = old.dataMemberOf? scope) :
    (c.setEntity i new).dataMembersIn scope = c.dataMembersIn scope := by
  rw [dataMembersIn, setEntity, Array.toList_modify]
  refine filterMap_modify fun slot hslot => ?_
  rw [entityAt?, ← Array.getElem?_toList, hslot] at hold
  rw [hsame, ← Option.some.inj hold]

theorem dataMembersIn_pushAll
    (c : Catalog) (entries : List (String × Entity)) (scope : String) :
    (c.pushAll entries).dataMembersIn scope =
      c.dataMembersIn scope ++ entries.filterMap (·.2.dataMemberOf? scope) := by
  rw [dataMembersIn, slots_pushAll, List.filterMap_append, List.filterMap_map]
  rfl

theorem recordMembers?_withMembers
    {t : DataType}
    (h : t.isRecord = true ∨ t.isUnion = true) (members : List Member) :
    (withMembers t members).recordMembers? = some members := by
  obtain ⟨header, shape⟩ := t
  cases shape with
  | record | union =>
      rfl
  | _ =>
      rcases h with h | h <;> cases h

theorem recordMembers?_withBases
    (t : DataType) (bases : List Base) :
    (withBases t bases).recordMembers? = t.recordMembers? := by
  obtain ⟨header, shape⟩ := t
  cases shape <;> rfl

end Catalog

namespace Step

open Catalog

variable {s : Step} {c c' : Catalog}

/-- A registration changes no entity that is a member, and makes none. -/
theorem Retouches.dataMemberOf?_eq
    {key : String} {old new : Entity}
    (h : s.Retouches key old new)
    (hs : s.IsRegistration) (scope : String) :
    new.dataMemberOf? scope = old.dataMemberOf? scope := by
  cases h with
  | replace key old e =>
      cases hs
  | _ =>
      rfl

/-- Changing an entity as a registration does leaves the entries of data members, and the entries
opened beside it follow. -/
theorem Retouches.dataMembersIn_pushAll
    {key : String} {i : Nat} {old new : Entity}
    (h : s.Retouches key old new)
    (hs : s.IsRegistration)
    (hold : c.entityAt? i = some old) (opened : List (String × Entity)) (scope : String) :
    ((c.setEntity i new).pushAll opened).dataMembersIn scope =
      c.dataMembersIn scope ++ opened.filterMap (·.2.dataMemberOf? scope) := by
  rw [Catalog.dataMembersIn_pushAll, dataMembersIn_setEntity hold (h.dataMemberOf?_eq hs scope)]

/-- A step adds the entries that it exposes. -/
theorem dataMembersIn_of_ok
    (hc : c.Coherent)
    (hs : s.FillsShells)
    (h : s.apply c = (.ok (), c')) (scope : String) :
    c'.dataMembersIn scope = c.dataMembersIn scope ++ s.exposes scope := by
  rw [← hs.filterMap_entries]
  cases hfilled : s.filled? with
  | some record =>
      obtain ⟨i, old, new, -, hold, hnew, rfl, -⟩ := retouches_of_filled hfilled h
      exact hnew.dataMembersIn_pushAll hs.isRegistration hold _ scope
  | none =>
      cases effect_of_ok hc hs.isRegistration.isUpdate h with
      | opens hvacant =>
          exact Catalog.dataMembersIn_pushAll c _ scope
      | retouches hindex hold hnew hopened =>
          rw [hnew.dataMembersIn_pushAll hs.isRegistration hold]
          cases hnew with
          | overload f o =>
              -- a function that joins a set opens no entry, and would open no data member
              rcases hopened with rfl | ⟨rfl, -⟩ <;> rfl
          | members hrecord =>
              cases hfilled
          | bases hrecord =>
              cases hfilled
          | replace key old e =>
              cases hs

/-- A step that opens a record opens it without members. -/
theorem FillsShells.recordMembers?_of_mem_entries
    {name : String} {e : Entity}
    (hs : s.FillsShells)
    (he : (name, e) ∈ s.entries) :
    (e.type?.bind DataType.recordMembers?).getD [] = [] := by
  cases s with
  | register r =>
      cases r with
      | ofMember m =>
          cases hs
      | ofType t =>
          obtain ⟨header, shape⟩ := t
          cases shape with
          | enumeration members =>
              rcases List.mem_cons.mp he with heq | he
              · obtain ⟨-, rfl⟩ := Prod.mk.inj heq
                rfl
              · obtain ⟨m, -, heq⟩ := List.mem_map.mp he
                obtain ⟨-, rfl⟩ := Prod.mk.inj heq
                rfl
          | _ =>
              obtain ⟨-, rfl⟩ := Prod.mk.inj (List.mem_singleton.mp he)
              exact hs
      | _ =>
          obtain ⟨-, rfl⟩ := Prod.mk.inj (List.mem_singleton.mp he)
          rfl
  | setMembersIn record scope members =>
      obtain ⟨m, -, heq⟩ := List.mem_map.mp he
      obtain ⟨-, rfl⟩ := Prod.mk.inj heq
      rfl
  | setBases record bases =>
      cases he
  | _ =>
      cases hs

/-- What a step makes of the members of a record: those that it gives to the record, if any. -/
theorem currentMembers_of_ok
    (hc : c.Coherent)
    (hs : s.FillsShells)
    (h : s.apply c = (.ok (), c')) (record : String) :
    c'.currentMembers record = (s.attached? record).getD (c.currentMembers record) := by
  have hfinds := finds_of_ok hc hs.isRegistration h record
  unfold currentMembers
  generalize c.lookup record = before at hfinds
  generalize c'.lookup record = after at hfinds
  cases hfinds with
  | kept hbatch hfilled =>
      rw [attached?_eq_none hfilled]
      rfl
  | opened hfilled he =>
      rw [attached?_eq_none hfilled]
      exact hs.recordMembers?_of_mem_entries he
  | retouched hchange =>
      cases hchange with
      | overload f o =>
          rfl
      | @members record scope members t hrecord =>
          have hgiven : (setMembersIn record scope members).attached? record =
              some (members.map (·.inScope record)) :=
            if_pos rfl
          simp only [hgiven, Option.bind_some, Entity.type?, recordMembers?_withMembers hrecord,
            Option.getD_some]
      | @bases record bases t hrecord =>
          simp only [attached?, Option.bind_some, Entity.type?, recordMembers?_withBases,
            Option.getD_none]
      | replace key old e =>
          cases hs

end Step

namespace Trace

variable {c c' : Catalog} {steps : List Step}

/-- Steps add the entries that they expose, one after the other. -/
theorem dataMembersIn
    (h : Trace c steps c')
    (hc : c.Coherent)
    (hsteps : ∀ s ∈ steps, s.FillsShells) (scope : String) :
    c'.dataMembersIn scope = c.dataMembersIn scope ++ steps.flatMap (·.exposes scope) := by
  induction h with
  | nil c =>
      simp
  | @cons c d e s steps hstep _ ih =>
      have hs := hsteps s (by simp)
      have hd := Step.dataMembersIn_of_ok hc hs hstep scope
      rw [ih ((Trace.single hstep).coherent hc)
        (fun t ht => hsteps t (List.mem_cons_of_mem s ht)), hd]
      simp

/-- The members of a record are those of the last list that it was given. -/
theorem currentMembers
    (h : Trace c steps c')
    (hc : c.Coherent)
    (hsteps : ∀ s ∈ steps, s.FillsShells) (record : String) :
    c'.currentMembers record = (Step.attached record steps).getLastD (c.currentMembers record) := by
  induction h with
  | nil c =>
      rfl
  | @cons c d e s steps hstep _ ih =>
      have hs := hsteps s (by simp)
      have hd := Step.currentMembers_of_ok hc hs hstep record
      rw [ih ((Trace.single hstep).coherent hc)
        (fun t ht => hsteps t (List.mem_cons_of_mem s ht)), hd, Step.attached, Step.attached,
        List.filterMap_cons]
      cases s.attached? record with
      | none =>
          rfl
      | some members =>
          rw [List.getLastD_cons]
          rfl

end Trace

namespace Step

/-- Where no enumeration enters data members, a scope gets the exposed members of the lists of its
record. -/
theorem flatMap_exposes
    {steps : List Step} {record : String}
    (h : ∀ header members, .register (.ofType ⟨header, .enumeration members⟩) ∈ steps →
      ∀ m ∈ members, m.isData = true → m.scope ≠ record) :
    steps.flatMap (·.exposes record) =
      (attached record steps).flatMap (·.filter Member.isExposed) := by
  induction steps with
  | nil =>
      rfl
  | cons s steps ih =>
      have hfirst : s.exposes record =
          ((s.attached? record).getD []).filter Member.isExposed := by
        unfold exposes
        split
        · next r scope members =>
            rw [attached?]
            split
            · next heq =>
                rw [heq, Option.getD_some]
            · rfl
        · next header members =>
            refine List.filter_eq_nil_iff.mpr fun m hm hdata => ?_
            rw [Bool.and_eq_true, beq_iff_eq] at hdata
            exact h header members (by simp) m hm hdata.1 hdata.2
        · next hmembers _ =>
            cases s with
            | setMembersIn r scope members =>
                exact absurd rfl (hmembers r scope members)
            | _ =>
                rfl
      rw [List.flatMap_cons, hfirst, attached, List.filterMap_cons,
        ih fun header members hmem => h header members (List.mem_cons_of_mem s hmem)]
      cases s.attached? record with
      | none =>
          rfl
      | some members =>
          rfl

end Step

/-- Lists joined are the last of them exactly when the others are empty. -/
theorem flatMap_eq_getLastD_iff
    {α : Type} (p : α → Bool) (lists : List (List α)) :
    lists.flatMap (·.filter p) = (lists.getLastD []).filter p ↔
      ∀ l ∈ lists.dropLast, l.filter p = [] := by
  rcases List.eq_nil_or_concat lists with rfl | ⟨older, last, rfl⟩
  · simp
  · simp

namespace Catalog

/-- After a run that registers records without members and no member by itself, a struct, class or
union has the members of the last list that it was given, and the entries that are data members of its
scope are those that the successful steps exposed. Unless an enumeration entered data members in that
scope, these are the named data members of all lists that the record was given, and they are those
that it has exactly when the older lists had none. -/
theorem exposure_run
    (steps : List Step)
    (hsteps : ∀ s ∈ steps, s.FillsShells)
    (record : String) (t : DataType) (members : List Member)
    (hrecord : (run (steps.map .step)).lookup record = some (.ofType t))
    (hmembers : t.recordMembers? = some members) :
    members = (Step.attached record (successes empty steps)).getLastD [] ∧
    (run (steps.map .step)).dataMembersIn record =
      (successes empty steps).flatMap (·.exposes record) ∧
    ((∀ header ms, .register (.ofType ⟨header, .enumeration ms⟩) ∈ successes empty steps →
        ∀ m ∈ ms, m.isData = true → m.scope ≠ record) →
      (run (steps.map .step)).dataMembersIn record =
        (Step.attached record (successes empty steps)).flatMap (·.filter Member.isExposed) ∧
      ((run (steps.map .step)).dataMembersIn record = members.filter Member.isExposed ↔
        ∀ older ∈ (Step.attached record (successes empty steps)).dropLast,
          older.filter Member.isExposed = [])) := by
  have hall : ∀ s ∈ successes empty steps, s.FillsShells := fun s hs =>
    hsteps s ((successes_sublist empty steps).subset hs)
  have htrace : Trace empty (successes empty steps) (run (steps.map .step)) :=
    trace_successes empty steps
  have hcurrent : members = (Step.attached record (successes empty steps)).getLastD [] := by
    have hlast := htrace.currentMembers coherent_empty hall record
    rw [currentMembers, hrecord, Option.bind_some, Entity.type?, Option.bind_some, hmembers] at hlast
    exact hlast
  have hentries : (run (steps.map .step)).dataMembersIn record =
      (successes empty steps).flatMap (·.exposes record) :=
    htrace.dataMembersIn coherent_empty hall record
  refine ⟨hcurrent, hentries, fun henum => ?_⟩
  rw [hentries, Step.flatMap_exposes henum, hcurrent]
  exact ⟨rfl, flatMap_eq_getLastD_iff _ _⟩

/-- A data member of type `int`. -/
def intMember
    (name : String) :
    Member :=
  .declare name (.named "int") .int .pub 0

/-- Steps that give the struct `S` a member function, and then the data members `a` and `b`. -/
def relistedSteps :
    List Step :=
  [.register (.ofType (.record .structKey "S" "" 4)),
   .setMembersIn "S" "S" [.declare "f" (.named "void ()") .functionProto .pub 0],
   .setMembersIn "S" "S" [intMember "a", intMember "b"]]

theorem exposure_relistedSteps :
    (∀ s ∈ relistedSteps, s.FillsShells) ∧
      ∃ t members, (run (relistedSteps.map .step)).lookup "S" = some (.ofType t) ∧
        t.recordMembers? = some members ∧
        members = [(intMember "a").inScope "S", (intMember "b").inScope "S"] ∧
        (run (relistedSteps.map .step)).dataMembersIn "S" = members.filter Member.isExposed := by
  have hsteps : ∀ s ∈ relistedSteps, s.FillsShells := by
    simp [relistedSteps, Step.FillsShells, DataType.record, DataType.make, DataType.recordMembers?]
  have hattached : Step.attached "S" (successes empty relistedSteps) =
      [[(Member.declare "f" (.named "void ()") .functionProto .pub 0).inScope "S"],
       [(intMember "a").inScope "S", (intMember "b").inScope "S"]] := by
    decide +kernel
  have hrecord : (run (relistedSteps.map .step)).lookup "S" =
      some (.ofType (withMembers (.record .structKey "S" "" 4)
        [(intMember "a").inScope "S", (intMember "b").inScope "S"])) := by
    decide +kernel
  obtain ⟨-, -, hmirror⟩ := exposure_run relistedSteps hsteps "S" _ _ hrecord rfl
  have henum : ∀ header ms,
      .register (.ofType ⟨header, .enumeration ms⟩) ∈ successes empty relistedSteps →
        ∀ m ∈ ms, m.isData = true → m.scope ≠ "S" := by
    intro header ms hmem
    have hmem' := (successes_sublist empty relistedSteps).subset hmem
    simp [relistedSteps, DataType.record, DataType.make] at hmem'
  refine ⟨hsteps, _, _, hrecord, rfl, rfl, (hmirror henum).2.mpr ?_⟩
  rw [hattached]
  decide

/-- Steps that give the struct `S` the member `a` and then the member `b`. -/
def replacedSteps :
    List Step :=
  [.register (.ofType (.record .structKey "S" "" 4)),
   .setMembersIn "S" "S" [intMember "a"],
   .setMembersIn "S" "S" [intMember "b"]]

/-- Steps that register the struct `S` and an enumeration in its scope that holds a member without a
value. -/
def valuelessSteps :
    List Step :=
  [.register (.ofType (.record .structKey "S" "" 4)),
   .register (.ofType (.enumeration "S::E" "S" 4 [intMember "a"]))]

/-- The entries that are data members of a record's scope are its named data members. -/
def Mirrors
    (c : Catalog) (record : String) :
    Prop :=
  ∀ t members, c.lookup record = some (.ofType t) → t.recordMembers? = some members →
    ∀ m, m ∈ c.dataMembersIn record ↔ m ∈ members ∧ m.isExposed = true

/-- The entries of a record need not mirror its members: the entry of `a` stays when `S` gets the
member `b`, and an enumeration can enter a data member beside a record without members. -/
theorem not_mirrored :
    ((∀ s ∈ replacedSteps, s.FillsShells) ∧ ¬ (run (replacedSteps.map .step)).Mirrors "S") ∧
    ((∀ s ∈ valuelessSteps, s.FillsShells) ∧ ¬ (run (valuelessSteps.map .step)).Mirrors "S") := by
  refine ⟨⟨?_, fun h => ?_⟩, ?_, fun h => ?_⟩
  · simp [replacedSteps, Step.FillsShells, DataType.record, DataType.make, DataType.recordMembers?]
  · have hrecord : (run (replacedSteps.map .step)).lookup "S" =
        some (.ofType (withMembers (.record .structKey "S" "" 4) [(intMember "b").inScope "S"])) := by
      decide +kernel
    have hentry : (intMember "a").inScope "S" ∈
        (run (replacedSteps.map .step)).dataMembersIn "S" := by
      decide +kernel
    have hmember := (h _ _ hrecord rfl _).mp hentry
    exact absurd hmember (by decide)
  · simp [valuelessSteps, Step.FillsShells, DataType.record, DataType.make, DataType.enumeration,
      DataType.recordMembers?]
  · have hrecord : (run (valuelessSteps.map .step)).lookup "S" =
        some (.ofType (.record .structKey "S" "" 4)) := by
      decide +kernel
    have hentry : (intMember "a").inScope "S" ∈
        (run (valuelessSteps.map .step)).dataMembersIn "S" := by
      decide +kernel
    have hmember := (h _ _ hrecord rfl _).mp hentry
    exact absurd hmember (by decide)

end Catalog
end TypeCatalog
