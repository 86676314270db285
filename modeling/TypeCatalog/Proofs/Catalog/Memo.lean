import TypeCatalog.Proofs.Catalog.Keyed

/-!
# The memos of references are invisible

**Input.** A reference in any state: without a memo, or with any number as its memo, from wherever it
came. A catalog that some run leads to, in which no two slots have one key and every key is the name
of the entity in its slot.

**Rule.** A memo is used only when its slot holds a type of the reference's name. Under that name the
index gives the same slot, so a memo never changes what a reference resolves to.

**Desks.** A desk holds catalogs, and references that are kept outside of them. On a desk references
are resolved and copied, and catalogs change by any actions. A memo set in one catalog thus meets
other catalogs, and later states of its own.

**Results.**
* `resolve_eq_ok_iff`, `resolveType_eq_ok_iff`: what a reference resolves to, without its memo.
* `resolveType_eq_lookupType`: resolving is looking up the name, and on a desk every answer is that
  of a new reference.
-/

namespace TypeCatalog

namespace Catalog

instance
    (c : Catalog) :
    Decidable c.DistinctKeys :=
  inferInstanceAs (Decidable (List.Nodup _))

instance
    (c : Catalog) :
    Decidable c.Keyed :=
  inferInstanceAs (Decidable (∀ slot ∈ c.slots, slot.key = slot.entity.qualified))

theorem typeAt?_eq_some_iff
    {c : Catalog} {i : Nat} {t : DataType} :
    c.typeAt? i = some t ↔ c.entityAt? i = some (.ofType t) := by
  rw [typeAt?, Option.bind_eq_some_iff]
  constructor
  · rintro ⟨e, he, htype⟩
    cases e <;> simp_all [Entity.type?]
  · intro he
    exact ⟨_, he, rfl⟩

/-- A memo is used only when its slot holds a type of the reference's name. -/
theorem memoized?_eq_some_iff
    {c : Catalog} {r : TypeRef} {i : Nat} :
    c.memoized? r = some i ↔
      r.memo = some i ∧ ∃ t, c.typeAt? i = some t ∧ t.header.qualified = r.name := by
  unfold memoized?
  split
  · next hmemo =>
      simp [hmemo]
  · next j hmemo =>
      constructor
      · intro h
        split at h
        · next t ht =>
            split at h
            · next hname =>
                cases h
                exact ⟨hmemo, t, ht, hname⟩
            · cases h
        · cases h
      · rintro ⟨hj, t, ht, hname⟩
        cases hmemo.symm.trans hj
        simp [ht, hname]

/-- What a reference resolves to: the slot of its memo, or else the slot of its name. -/
theorem resolve_eq_ok_cases
    {c : Catalog} {r : TypeRef} {i : Nat} :
    (c.resolve r).1 = .ok i ↔
      c.memoized? r = some i ∨
        c.memoized? r = none ∧ c.indexOf? r.name = some i ∧ ∃ t, c.typeAt? i = some t := by
  unfold resolve
  cases hmemo : c.memoized? r with
  | some j =>
      simp
  | none =>
      cases hindex : c.indexOf? r.name with
      | none =>
          simp
      | some j =>
          cases htype : c.typeAt? j with
          | none =>
              simp only [htype, reduceCtorEq, true_and, false_or, false_iff, Option.some.injEq]
              rintro ⟨rfl, t, ht⟩
              simp [htype] at ht
          | some t =>
              simp only [htype, Except.ok.injEq, reduceCtorEq, Option.some.injEq, true_and,
                false_or]
              constructor
              · rintro rfl
                exact ⟨rfl, t, htype⟩
              · exact fun h => h.1

/-- A reference resolves to a slot with a type only. -/
theorem exists_typeAt?_of_resolve
    {c : Catalog} {r : TypeRef} {i : Nat}
    (h : (c.resolve r).1 = .ok i) :
    ∃ t, c.typeAt? i = some t := by
  rcases resolve_eq_ok_cases.mp h with hmemo | ⟨-, -, htype⟩
  · obtain ⟨-, t, ht, -⟩ := memoized?_eq_some_iff.mp hmemo
    exact ⟨t, ht⟩
  · exact htype

/-- A reference that does not resolve gives its name. -/
theorem resolve_eq_error
    {c : Catalog} {r : TypeRef}
    (h : ∀ i, (c.resolve r).1 ≠ .ok i) :
    (c.resolve r).1 = .error (.unresolved r.name) := by
  unfold resolve at h ⊢
  split
  · next i hmemo =>
      exact absurd (by simp [hmemo]) (h i)
  · next hmemo =>
      split
      · rfl
      · next i hindex =>
          split
          · next t htype =>
              exact absurd (by simp [hmemo, hindex, htype]) (h i)
          · rfl

/-- Where two references of one name resolve to the same slots, they have the same outcome. -/
theorem resolve_eq_of_ok_iff
    {c c' : Catalog} {r r' : TypeRef}
    (hname : r'.name = r.name)
    (h : ∀ i, (c'.resolve r').1 = .ok i ↔ (c.resolve r).1 = .ok i) :
    (c'.resolve r').1 = (c.resolve r).1 := by
  cases hres : (c.resolve r).1 with
  | ok i =>
      exact (h i).mpr hres
  | error e =>
      have hnever : ∀ i, (c.resolve r).1 ≠ .ok i := by
        simp [hres]
      rw [resolve_eq_error fun i hi => hnever i ((h i).mp hi), ← hres, resolve_eq_error hnever,
        hname]

theorem resolveType_of_ok
    {c : Catalog} {r : TypeRef} {i : Nat} {t : DataType}
    (h : (c.resolve r).1 = .ok i)
    (ht : c.typeAt? i = some t) :
    (c.resolveType r).1 = .ok t := by
  have hpair : c.resolve r = (.ok i, (c.resolve r).2) := Prod.ext h rfl
  rw [resolveType, hpair]
  simp [ht]

theorem resolveType_of_error
    {c : Catalog} {r : TypeRef} {e : CatalogError}
    (h : (c.resolve r).1 = .error e) :
    (c.resolveType r).1 = .error e := by
  have hpair : c.resolve r = (.error e, (c.resolve r).2) := Prod.ext h rfl
  rw [resolveType, hpair]

section Names

variable {c : Catalog} (hc : c.Reachable) (hdistinct : c.DistinctKeys) (hkeyed : c.Keyed)
include hc hdistinct hkeyed

/-- Under its name a type is found in its own slot. -/
theorem indexOf?_of_typeAt?
    {i : Nat} {t : DataType}
    (ht : c.typeAt? i = some t) :
    c.indexOf? t.header.qualified = some i := by
  obtain ⟨key, hslot⟩ := c.entityAt?_eq_some_iff.mp (typeAt?_eq_some_iff.mp ht)
  have hkey : key = t.header.qualified := keyed_iff.mp hkeyed i _ hslot
  have hfound := hc.coherent.distinctKeys_iff_found.mp hdistinct i _ hslot
  rw [← hkey]
  exact hfound.1

/-- A reference resolves to the slot of its name, if a type is there. -/
theorem resolve_eq_ok_iff
    {r : TypeRef} {i : Nat} :
    (c.resolve r).1 = .ok i ↔ c.indexOf? r.name = some i ∧ ∃ t, c.typeAt? i = some t := by
  rw [resolve_eq_ok_cases]
  constructor
  · rintro (hmemo | ⟨-, hindex, htype⟩)
    · obtain ⟨-, t, ht, hname⟩ := memoized?_eq_some_iff.mp hmemo
      have hindex := indexOf?_of_typeAt? hc hdistinct hkeyed ht
      rw [hname] at hindex
      exact ⟨hindex, t, ht⟩
    · exact ⟨hindex, htype⟩
  · rintro ⟨hindex, htype⟩
    cases hmemo : c.memoized? r with
    | none =>
        exact .inr ⟨rfl, hindex, htype⟩
    | some j =>
        -- a memo in use names the slot that the index gives
        obtain ⟨-, t, ht, hname⟩ := memoized?_eq_some_iff.mp hmemo
        have hindex' := indexOf?_of_typeAt? hc hdistinct hkeyed ht
        rw [hname, hindex] at hindex'
        exact .inl (congrArg some (Option.some.inj hindex').symm)

/-- A reference resolves to the type that its name looks up. -/
theorem resolveType_eq_ok_iff
    {r : TypeRef} {t : DataType} :
    (c.resolveType r).1 = .ok t ↔ c.lookupType r.name = some t := by
  have hlookup : c.lookupType r.name = (c.indexOf? r.name).bind c.typeAt? := by
    cases h : c.indexOf? r.name <;> simp [lookupType, lookup, typeAt?, h]
  rw [hlookup, Option.bind_eq_some_iff]
  constructor
  · intro h
    cases hres : (c.resolve r).1 with
    | error e =>
        rw [resolveType_of_error hres] at h
        cases h
    | ok i =>
        obtain ⟨hindex, u, hu⟩ := (resolve_eq_ok_iff hc hdistinct hkeyed).mp hres
        rw [resolveType_of_ok hres hu] at h
        exact ⟨i, hindex, hu.trans (congrArg some (Except.ok.inj h))⟩
  · rintro ⟨i, hindex, ht⟩
    exact resolveType_of_ok ((resolve_eq_ok_iff hc hdistinct hkeyed).mpr ⟨hindex, t, ht⟩) ht

theorem resolveType_eq_error
    {r : TypeRef}
    (h : c.lookupType r.name = none) :
    (c.resolveType r).1 = .error (.unresolved r.name) := by
  refine resolveType_of_error (resolve_eq_error ?_)
  intro i hi
  obtain ⟨t, ht⟩ := exists_typeAt?_of_resolve hi
  have hfound := (resolveType_eq_ok_iff hc hdistinct hkeyed).mp (resolveType_of_ok hi ht)
  rw [h] at hfound
  cases hfound

end Names

theorem Reachable.after
    {c : Catalog}
    (h : c.Reachable) (a : Action) :
    (c.after a).Reachable := by
  obtain ⟨actions, rfl⟩ := h
  exact ⟨actions ++ [a], by simp [run]⟩

/-- What resolving a reference answers: its slot, and the type in it. -/
abbrev Answer :=
  Except CatalogError Nat × Except CatalogError DataType

/-- The answer to a reference. -/
def answerTo
    (c : Catalog) (r : TypeRef) :
    Answer :=
  ((c.resolve r).1, (c.resolveType r).1)

/-- The answer depends on the name of a reference only. -/
theorem answerTo_eq_of_name
    {c : Catalog} {r r' : TypeRef}
    (hc : c.Reachable)
    (hdistinct : c.DistinctKeys)
    (hkeyed : c.Keyed)
    (hname : r.name = r'.name) :
    c.answerTo r = c.answerTo r' := by
  have hslot : (c.resolve r).1 = (c.resolve r').1 := by
    refine resolve_eq_of_ok_iff hname fun i => ?_
    rw [resolve_eq_ok_iff hc hdistinct hkeyed, resolve_eq_ok_iff hc hdistinct hkeyed, hname]
  have htype : (c.resolveType r).1 = (c.resolveType r').1 := by
    cases hlookup : c.lookupType r'.name with
    | some t =>
        rw [(resolveType_eq_ok_iff hc hdistinct hkeyed).mpr (hname ▸ hlookup),
          (resolveType_eq_ok_iff hc hdistinct hkeyed).mpr hlookup]
    | none =>
        rw [resolveType_eq_error hc hdistinct hkeyed (hname ▸ hlookup),
          resolveType_eq_error hc hdistinct hkeyed hlookup, hname]
  exact Prod.ext hslot htype

end Catalog

/-- Catalogs, and references that are kept outside of them. -/
structure Desk where
  catalogs : List Catalog
  handles : List TypeRef

/-- What can be done on a desk. -/
inductive Move where
  /-- Resolves a reference in a catalog. -/
  | resolve (handle catalog : Nat)
  /-- Copies a reference, with its memo. -/
  | copy (handle : Nat)
  /-- Changes a catalog. What is registered or put there may carry references with memos. -/
  | act (catalog : Nat) (a : Action)

namespace Desk

/-- The desk after a move. -/
def after
    (d : Desk) :
    Move → Desk
  | .resolve handle catalog =>
      match d.handles[handle]?, d.catalogs[catalog]? with
      | some r, some c => { d with handles := d.handles.set handle (c.resolve r).2 }
      | _, _ => d
  | .copy handle => { d with handles := d.handles ++ d.handles[handle]?.toList }
  | .act catalog a => { d with catalogs := d.catalogs.modify catalog (·.after a) }

/-- The answer that a move gets when it resolves the reference `view r` in the place of `r`; only
resolving is answered. -/
def answer?
    (view : TypeRef → TypeRef) (d : Desk) :
    Move → Option Catalog.Answer
  | .resolve handle catalog =>
      d.handles[handle]?.bind fun r => d.catalogs[catalog]?.map fun c => c.answerTo (view r)
  | .copy _ | .act _ _ => none

/-- The answers to a sequence of moves, each on the desk as the moves before it have left it. -/
def answers
    (view : TypeRef → TypeRef) :
    Desk → List Move → List (Option Catalog.Answer)
  | _, [] => []
  | d, m :: moves => d.answer? view m :: answers view (d.after m) moves

/-- A catalog that is asked has distinct keys, which are the names of its entities. -/
def Asks
    (d : Desk) :
    Move → Prop
  | .resolve _ catalog => ∀ c, d.catalogs[catalog]? = some c → c.DistinctKeys ∧ c.Keyed
  | .copy _ | .act _ _ => True

/-- Every catalog that a sequence of moves asks has, at that moment, distinct keys, which are the
names of its entities. -/
def AsksAll :
    Desk → List Move → Prop
  | _, [] => True
  | d, m :: moves => d.Asks m ∧ AsksAll (d.after m) moves

theorem reachable_after
    {d : Desk}
    (h : ∀ c ∈ d.catalogs, c.Reachable) (m : Move) :
    ∀ c ∈ (d.after m).catalogs, c.Reachable := by
  cases m with
  | resolve handle catalog =>
      rw [after]
      split
      · exact h
      · exact h
  | copy handle =>
      exact h
  | act catalog a =>
      intro c hc
      obtain ⟨k, hk⟩ := List.mem_iff_getElem?.mp hc
      rw [after, List.getElem?_modify] at hk
      obtain ⟨c₀, hc₀, rfl⟩ := Option.map_eq_some_iff.mp hk
      have hreach := h c₀ (List.mem_of_getElem? hc₀)
      split
      · exact hreach.after a
      · exact hreach

/-- In place of a reference, a move may resolve a new one of its name. -/
theorem answer?_eq_new
    {d : Desk} {m : Move}
    (hreach : ∀ c ∈ d.catalogs, c.Reachable)
    (hasks : d.Asks m) :
    d.answer? id m = d.answer? (fun r => .named r.name) m := by
  cases m with
  | resolve handle catalog =>
      rw [answer?, answer?]
      cases d.handles[handle]? with
      | none =>
          rfl
      | some r =>
          cases hc : d.catalogs[catalog]? with
          | none =>
              rfl
          | some c =>
              obtain ⟨hdistinct, hkeyed⟩ := hasks c hc
              have hsame : c.answerTo r = c.answerTo (.named r.name) :=
                Catalog.answerTo_eq_of_name (hreach c (List.mem_of_getElem? hc)) hdistinct hkeyed rfl
              simp [hsame]
  | copy handle =>
      rfl
  | act catalog a =>
      rfl

theorem answers_eq_new
    {d : Desk} {moves : List Move}
    (hreach : ∀ c ∈ d.catalogs, c.Reachable)
    (hasks : d.AsksAll moves) :
    d.answers id moves = d.answers (fun r => .named r.name) moves := by
  induction moves generalizing d with
  | nil =>
      rfl
  | cons m moves ih =>
      obtain ⟨hm, hmoves⟩ := hasks
      rw [answers, answers, answer?_eq_new hreach hm, ih (reachable_after hreach m) hmoves]

/-- In a reachable catalog with distinct keys, which are the names of its entities, a reference with
any memo resolves exactly to the type that its name looks up, in the slot of that name, and is
refused otherwise. So on a desk, whatever is resolved, copied and changed before, every answer is
that of a new reference. -/
theorem resolveType_eq_lookupType :
    (∀ (c : Catalog) (r : TypeRef), c.Reachable → c.DistinctKeys → c.Keyed →
      (∀ t, (c.resolveType r).1 = .ok t ↔ c.lookupType r.name = some t) ∧
      (∀ i, (c.resolve r).1 = .ok i ↔ c.indexOf? r.name = some i ∧ ∃ t, c.typeAt? i = some t) ∧
      (c.lookupType r.name = none → (c.resolveType r).1 = .error (.unresolved r.name))) ∧
    ∀ (d : Desk) (moves : List Move), (∀ c ∈ d.catalogs, c.Reachable) → d.AsksAll moves →
      d.answers id moves = d.answers (fun r => .named r.name) moves := by
  refine ⟨fun c r hc hdistinct hkeyed => ⟨fun t => ?_, fun i => ?_, fun hnone => ?_⟩,
    fun d moves hreach hasks => answers_eq_new hreach hasks⟩
  · exact Catalog.resolveType_eq_ok_iff hc hdistinct hkeyed
  · exact Catalog.resolve_eq_ok_iff hc hdistinct hkeyed
  · exact Catalog.resolveType_eq_error hc hdistinct hkeyed hnone

/-- Two catalogs with a type `int`, one of four bytes in slot 0 and one of two bytes in slot 1, and a
reference to `int`. -/
def intDesk :
    Desk where
  catalogs :=
    [Catalog.run [.step (.register (.ofType (.fundamental "int" 4 .int)))],
     Catalog.run [.step (.register (.ofType (.fundamental "long" 8 .long))),
       .step (.register (.ofType (.fundamental "int" 2 .int)))]]
  handles := [.named "int"]

/-- The reference goes from one catalog to the other, where a namespace then takes the name, and a
copy of it goes back. -/
def intMoves :
    List Move :=
  [.resolve 0 0, .resolve 0 1, .copy 0,
   .act 1 (.step (.put "int" (.ofNamespace ⟨"int", "", none⟩))), .resolve 1 1, .resolve 1 0]

theorem answers_intDesk :
    (∀ c ∈ intDesk.catalogs, c.Reachable) ∧ intDesk.AsksAll intMoves ∧
      intDesk.answers id intMoves =
        [some (.ok 0, .ok (.fundamental "int" 4 .int)),
         some (.ok 1, .ok (.fundamental "int" 2 .int)), none, none,
         some (.error (.unresolved "int"), .error (.unresolved "int")),
         some (.ok 0, .ok (.fundamental "int" 4 .int))] := by
  have hreach : ∀ c ∈ intDesk.catalogs, c.Reachable := by
    intro c hc
    rcases List.mem_cons.mp hc with rfl | hc
    · exact ⟨_, rfl⟩
    · obtain rfl := List.mem_singleton.mp hc
      exact ⟨_, rfl⟩
  have hasks : intDesk.AsksAll intMoves := by
    refine ⟨?_, ?_, trivial, trivial, ?_, ?_, trivial⟩
    all_goals
      rintro c ⟨⟩
      decide +kernel
  refine ⟨hreach, hasks, ?_⟩
  rw [resolveType_eq_lookupType.2 intDesk intMoves hreach hasks]
  rfl

end Desk
end TypeCatalog
