import TypeCatalog.Proofs.Catalog.Effect
import TypeCatalog.Proofs.Registration.Trace
import TypeCatalog.Proofs.Spelling.History

/-!
# What a registration asks of a catalog

**Types.** A request is a step on the catalog, the offer of a type that is not registered again, the
reliance on a namespace that is there already, or nothing at all for a type alias that is left out.
A demand says which requests meet it.

**Rule.** Names do not depend on the memo, so what a registration asks for is determined by the
document alone. `Asks` says of a computation which demands it meets whenever it succeeds: its
requests meet all of them, and are for nothing else.

**Results.**
* `Asks.bind`, `Asks.mapM`, `Asks.forM`: demands of composed computations.
* `AllMet.mem_keys_iff`: after requests, a key is one from before them or one that they are for.
* `AllMet.holdsType`, `AllMet.beyond`: what requests leave in the slots.
-/

namespace TypeCatalog

/-- Something asked of a catalog. -/
inductive Request where
  /-- Registers a type, unless its name is that of a type already. -/
  | offer (t : DataType)
  /-- Relies on a namespace of the name. -/
  | reopen (name : String)
  /-- Leaves out a type alias that has the name of its target. -/
  | leaveOut (name : String)
  /-- Takes a step. -/
  | take (s : Step)

/-- What a request may be for. -/
abbrev Demand :=
  Request → Prop

namespace Request

/-- The keys that a request is for. -/
def keys :
    Request → List String
  | offer t => [t.header.qualified]
  | reopen name => [name]
  | leaveOut _ => []
  | take s => s.batch

/-- A catalog does what is asked and becomes another. -/
inductive Met :
    Request → Catalog → Catalog → Prop
  | reused
      {t found : DataType} {c : Catalog}
      (hfound : c.lookup t.header.qualified = some (.ofType found)) :
      Met (offer t) c c
  | offered
      {t : DataType} {c c' : Catalog}
      (hshape : ∀ members, t.shape ≠ .enumeration members)
      (hstep : (Step.register (.ofType t)).apply c = (.ok (), c')) :
      Met (offer t) c c'
  | reopened
      {name : String} {found : Namespace} {c : Catalog}
      (hfound : c.lookup name = some (.ofNamespace found)) :
      Met (reopen name) c c
  | leftOut
      (name : String) (c : Catalog) :
      Met (leaveOut name) c c
  | taken
      {s : Step} {c c' : Catalog}
      (hs : s.IsRegistration)
      (hstep : s.apply c = (.ok (), c')) :
      Met (take s) c c'

/-- A catalog does all that is asked, in order. -/
inductive AllMet :
    List Request → Catalog → Catalog → Prop
  | nil
      (c : Catalog) :
      AllMet [] c c
  | cons
      {r : Request} {rs : List Request} {c d e : Catalog}
      (hfirst : r.Met c d)
      (hrest : AllMet rs d e) :
      AllMet (r :: rs) c e

theorem AllMet.append
    {rs rs' : List Request} {c d e : Catalog}
    (h : AllMet rs c d)
    (h' : AllMet rs' d e) :
    AllMet (rs ++ rs') c e := by
  induction h with
  | nil c =>
      exact h'
  | cons hfirst _ ih =>
      exact .cons hfirst (ih h')

theorem AllMet.single
    {r : Request} {c d : Catalog}
    (h : r.Met c d) :
    AllMet [r] c d :=
  .cons h (.nil d)

/-- Every demand is met by a request, and every request meets a demand. -/
structure Covers
    (demands : List Demand) (rs : List Request) :
    Prop where
  met : ∀ d ∈ demands, ∃ r ∈ rs, d r
  wanted : ∀ r ∈ rs, ∃ d ∈ demands, d r

namespace Covers

theorem nil :
    Covers [] [] :=
  ⟨by simp, by simp⟩

theorem single
    {d : Demand} {r : Request}
    (h : d r) :
    Covers [d] [r] :=
  ⟨by simpa using h, by simpa using h⟩

theorem append
    {ds ds' : List Demand} {rs rs' : List Request}
    (h : Covers ds rs)
    (h' : Covers ds' rs') :
    Covers (ds ++ ds') (rs ++ rs') := by
  constructor
  · intro d hd
    rcases List.mem_append.mp hd with hd | hd
    · obtain ⟨r, hr, hmeets⟩ := h.met d hd
      exact ⟨r, List.mem_append_left _ hr, hmeets⟩
    · obtain ⟨r, hr, hmeets⟩ := h'.met d hd
      exact ⟨r, List.mem_append_right _ hr, hmeets⟩
  · intro r hr
    rcases List.mem_append.mp hr with hr | hr
    · obtain ⟨d, hd, hmeets⟩ := h.wanted r hr
      exact ⟨d, List.mem_append_left _ hd, hmeets⟩
    · obtain ⟨d, hd, hmeets⟩ := h'.wanted r hr
      exact ⟨d, List.mem_append_right _ hd, hmeets⟩

end Covers
end Request

namespace Registration

open Request

variable {n : Namer} {α β : Type}

/-- If a computation succeeds on a state with a sound memo, its result is as described, and it has
had requests met that cover the demands. -/
def AsksOn
    (state : RegistrationState) (n : Namer) (x : Registration α) (demands : List Demand)
    (result : α → Prop) :
    Prop :=
  ∀ a state', Namer.SoundMemo n state.memo → x state = .ok (a, state') →
    Namer.SoundMemo n state'.memo ∧ result a ∧
      ∃ rs, Covers demands rs ∧ AllMet rs state.catalog state'.catalog

/-- What a computation asks for on every state. -/
def Asks
    (n : Namer) (x : Registration α) (demands : List Demand) (result : α → Prop) :
    Prop :=
  ∀ state, AsksOn state n x demands result

namespace Asks

theorem imp
    {x : Registration α} {ds : List Demand} {p q : α → Prop}
    (hx : Asks n x ds p)
    (himp : ∀ a, p a → q a) :
    Asks n x ds q := by
  intro state a state' hmemo h
  obtain ⟨hmemo', ha, hrs⟩ := hx state a state' hmemo h
  exact ⟨hmemo', himp a ha, hrs⟩

/-- The order of demands does not matter, nor how often one is made. -/
theorem of_mem_iff
    {x : Registration α} {ds ds' : List Demand} {q : α → Prop}
    (hx : Asks n x ds q)
    (hmem : ∀ d, d ∈ ds' ↔ d ∈ ds) :
    Asks n x ds' q := by
  intro state a state' hmemo h
  obtain ⟨hmemo', ha, rs, hcovers, hmet⟩ := hx state a state' hmemo h
  refine ⟨hmemo', ha, rs, ⟨?_, ?_⟩, hmet⟩
  · intro d hd
    exact hcovers.met d ((hmem d).mp hd)
  · intro r hr
    obtain ⟨d, hd, hmeets⟩ := hcovers.wanted r hr
    exact ⟨d, (hmem d).mpr hd, hmeets⟩

theorem pure
    {q : α → Prop} {a : α}
    (ha : q a) :
    Asks n (Pure.pure a) [] q := by
  intro state b state' hmemo h
  obtain ⟨rfl, rfl⟩ := Prod.mk.inj (Except.ok.inj h)
  exact ⟨hmemo, ha, [], .nil, .nil _⟩

theorem leaveOut
    {name : String} {d : Demand}
    (hd : d (.leaveOut name)) :
    Asks n (Pure.pure ()) [d] (fun _ => True) := by
  intro state b state' hmemo h
  obtain ⟨-, rfl⟩ := Prod.mk.inj (Except.ok.inj h)
  exact ⟨hmemo, trivial, _, .single hd, .single (.leftOut name _)⟩

theorem bind
    {x : Registration α} {f : α → Registration β} {ds ds' : List Demand}
    {p : α → Prop} {q : β → Prop}
    (hx : Asks n x ds p)
    (hf : ∀ a, p a → Asks n (f a) ds' q) :
    Asks n (x >>= f) (ds ++ ds') q := by
  intro state b state' hmemo h
  have hrun : (x >>= f) state = (x state).bind fun p => f p.1 p.2 := rfl
  rw [hrun] at h
  cases hxs : x state with
  | error e =>
      rw [hxs] at h
      cases h
  | ok p =>
      obtain ⟨a, mid⟩ := p
      rw [hxs] at h
      obtain ⟨hmid, ha, rs, hcovers, hmet⟩ := hx state a mid hmemo hxs
      obtain ⟨hend, hb, rs', hcovers', hmet'⟩ := hf a ha mid b state' hmid h
      exact ⟨hend, hb, rs ++ rs', hcovers.append hcovers', hmet.append hmet'⟩

/-- Nothing is asked before going on. -/
theorem after
    {x : Registration α} {f : α → Registration β} {ds : List Demand}
    {p : α → Prop} {q : β → Prop}
    (hx : Asks n x [] p)
    (hf : ∀ a, p a → Asks n (f a) ds q) :
    Asks n (x >>= f) ds q :=
  hx.bind hf

/-- Nothing is asked after the end. -/
theorem map
    {x : Registration α} {f : α → β} {ds : List Demand}
    {p : α → Prop} {q : β → Prop}
    (hx : Asks n x ds p)
    (hf : ∀ a, p a → q (f a)) :
    Asks n (x >>= fun a => Pure.pure (f a)) ds q := by
  have hbind := hx.bind fun a ha => Asks.pure (n := n) (hf a ha)
  rwa [List.append_nil] at hbind

/-- A computation that looks at the state asks for what it asks on that state. -/
theorem get
    {f : RegistrationState → Registration α} {ds : List Demand} {q : α → Prop}
    (hf : ∀ state, AsksOn state n (f state) ds q) :
    Asks n (MonadState.get >>= f) ds q := by
  intro state a state' hmemo h
  exact hf state a state' hmemo h

/-- Reading the document asks for nothing. -/
theorem lift
    (x : Except DocumentError α) :
    Asks n (liftM x : Registration α) [] (fun a => x = .ok a) := by
  intro state a state' hmemo h
  cases x with
  | error e =>
      cases h
  | ok b =>
      obtain ⟨rfl, rfl⟩ := Prod.mk.inj (Except.ok.inj h)
      exact ⟨hmemo, rfl, [], .nil, .nil _⟩

/-- The answer to a question is that of a new namer. -/
theorem spell
    (q : Namer.Query) :
    Asks n (Registration.spell (q.ask n)) []
      (fun name => (Spelled.outcome (q.ask n) ∅).1 = .ok name) := by
  intro state a state' hmemo h
  obtain ⟨hsound, hsame⟩ := q.steady_ask state.memo hmemo
  have hfresh := hsame ∅ Namer.soundMemo_empty
  have hrun : (q.ask n).run state.memo = Spelled.outcome (q.ask n) state.memo := rfl
  simp only [Registration.spell, hrun] at h
  rcases houtcome : Spelled.outcome (q.ask n) state.memo with ⟨answer, memo⟩
  rw [houtcome] at h hsound hfresh
  cases answer with
  | error e =>
      cases h
  | ok name =>
      obtain ⟨rfl, rfl⟩ := Prod.mk.inj (Except.ok.inj h)
      exact ⟨hsound, hfresh, [], .nil, .nil _⟩

/-- A change of the catalog that is a step on it. -/
theorem change
    {f : Catalog → Except CatalogError α × Catalog} {s : Step} {d : Demand}
    (hs : s.IsRegistration)
    (hf : ∀ c a c', f c = (.ok a, c') → s.apply c = (.ok (), c'))
    (hd : d (.take s)) :
    Asks n (Registration.change f) [d] (fun _ => True) := by
  intro state a state' hmemo h
  simp only [Registration.change] at h
  split at h
  · next hstep =>
      obtain ⟨-, rfl⟩ := Prod.mk.inj (Except.ok.inj h)
      exact ⟨hmemo, trivial, [.take s], .single hd, .single (.taken hs (hf _ _ _ hstep))⟩
  · cases h

theorem mapM
    {f : α → Registration β} {ds : α → List Demand} {p : α → β → Prop} :
    ∀ {xs : List α}, (∀ x ∈ xs, Asks n (f x) (ds x) (p x)) →
      Asks n (xs.mapM f) (xs.flatMap ds) (List.Forall₂ p xs)
  | [], _ => by
      rw [List.mapM_nil]
      exact .pure .nil
  | x :: xs, hf => by
      rw [List.mapM_cons, List.flatMap_cons]
      refine (hf x (by simp)).bind fun y hy => ?_
      refine (mapM fun z hz => hf z (List.mem_cons_of_mem x hz)).map fun ys hys => ?_
      exact .cons hy hys

theorem forM
    {f : α → Registration Unit} {ds : α → List Demand} :
    ∀ {xs : List α}, (∀ x ∈ xs, Asks n (f x) (ds x) (fun _ => True)) →
      Asks n (xs.forM f) (xs.flatMap ds) (fun _ => True)
  | [], _ => .pure trivial
  | x :: xs, hf => by
      rw [List.flatMap_cons]
      exact (hf x (by simp)).bind fun _ _ => forM fun z hz => hf z (List.mem_cons_of_mem x hz)

end Asks

theorem register_eq_ok
    {e : Entity} {state state' : RegistrationState} {a : Unit}
    (h : register e state = .ok (a, state')) :
    (Step.register e).apply state.catalog = (.ok (), state'.catalog) ∧
      state'.memo = state.memo := by
  have hrun : register e state = (change (·.register e) state).bind fun p => .ok ((), p.2) := rfl
  rw [hrun, change] at h
  rcases hstep : state.catalog.register e with ⟨outcome, c⟩
  rw [hstep] at h
  cases outcome with
  | error err =>
      cases h
  | ok i =>
      cases h
      exact ⟨by simp [Step.apply, hstep, Except.map], rfl⟩

theorem asks_register
    {e : Entity} {d : Demand}
    (hd : d (.take (.register e))) :
    Asks n (register e) [d] (fun _ => True) := by
  intro state a state' hmemo h
  obtain ⟨hstep, hsame⟩ := register_eq_ok h
  exact ⟨hsame ▸ hmemo, trivial, _, .single hd, .single (.taken trivial hstep)⟩

theorem asks_registerType
    {t : DataType} {d : Demand}
    (hshape : ∀ members, t.shape ≠ .enumeration members)
    (hd : d (.offer t)) :
    Asks n (registerType t) [d] (fun _ => True) := by
  refine .get fun state => ?_
  split
  · next found hfound =>
      intro a state' hmemo h
      obtain ⟨-, rfl⟩ := Prod.mk.inj (Except.ok.inj h)
      exact ⟨hmemo, trivial, _, .single hd, .single (.reused hfound)⟩
  · intro a state' hmemo h
    obtain ⟨hstep, hsame⟩ := register_eq_ok h
    exact ⟨hsame ▸ hmemo, trivial, _, .single hd, .single (.offered hshape hstep)⟩

end Registration

theorem Step.IsRegistration.isUpdate
    {s : Step}
    (h : s.IsRegistration) :
    s.IsUpdate := by
  cases s <;> trivial

namespace Catalog

/-- Some slot of the key holds a type. -/
def HoldsType
    (c : Catalog) (key : String) :
    Prop :=
  ∃ t : DataType, ⟨key, .ofType t⟩ ∈ c.slots

/-- All slots from a number on have the property. -/
def Beyond
    (c : Catalog) (start : Nat) (p : Slot → Prop) :
    Prop :=
  ∀ (i : Nat) (slot : Slot), start ≤ i → c.slots[i]? = some slot → p slot

theorem mem_slots_pushAll
    (c : Catalog) {entries : List (String × Entity)} {p : String × Entity}
    (hp : p ∈ entries) :
    ⟨p.1, p.2⟩ ∈ (c.pushAll entries).slots := by
  rw [← Array.mem_toList_iff, slots_pushAll]
  exact List.mem_append_right _ (List.mem_map.mpr ⟨p, hp, rfl⟩)

theorem Coherent.mem_slots_of_lookup
    {c : Catalog} {key : String} {e : Entity}
    (hc : c.Coherent)
    (h : c.lookup key = some e) :
    ⟨key, e⟩ ∈ c.slots := by
  rw [lookup, Option.bind_eq_some_iff] at h
  obtain ⟨i, hindex, he⟩ := h
  exact Array.mem_of_getElem? (hc.slot_of_indexOf? hindex he)

theorem mem_keys_of_mem_slots
    {c : Catalog} {slot : Slot}
    (h : slot ∈ c.slots) :
    slot.key ∈ c.keys :=
  List.mem_map.mpr ⟨slot, Array.mem_toList_iff.mpr h, rfl⟩

end Catalog

namespace Step

open Catalog

/-- A step keeps a property of slots: what it opens has it, and what it changes keeps it. -/
structure Keeps
    (s : Step) (p : Slot → Prop) :
    Prop where
  opened : ∀ entry ∈ s.entries, p ⟨entry.1, entry.2⟩
  retouched : ∀ key old new, s.Retouches key old new → p ⟨key, old⟩ → p ⟨key, new⟩

theorem Keeps.beyond
    {s : Step} {p : Slot → Prop} {c c' : Catalog} {start : Nat}
    (hs : s.Keeps p)
    (h : Effect s c c')
    (hc : c.Coherent)
    (hbeyond : c.Beyond start p) :
    c'.Beyond start p := by
  intro i slot hi hslot
  rcases h.slot_cases hc hslot with ⟨old, hold, hchange⟩ | ⟨-, hentry⟩
  · have hp := hbeyond i _ hi hold
    rcases hchange with hsame | hretouch
    · rw [← hsame] at hp
      exact hp
    · exact hs.retouched _ _ _ hretouch hp
  · exact hs.opened _ hentry

theorem IsRegistration.holdsType
    {s : Step} {c c' : Catalog} {key : String}
    (hs : s.IsRegistration)
    (h : Effect s c c')
    (hc : c.Coherent)
    (hkey : c.HoldsType key) :
    c'.HoldsType key := by
  obtain ⟨t, ht⟩ := hkey
  obtain ⟨i, hslot⟩ := Array.getElem?_of_mem ht
  obtain ⟨e, he, hchange⟩ := h.exists_slot hc hslot
  have hmem := Array.mem_of_getElem? he
  rcases hchange with rfl | hretouch
  · exact ⟨t, hmem⟩
  · -- of what registrations change, only overload sets are no types
    cases hretouch with
    | members hrecord =>
        exact ⟨_, hmem⟩
    | bases hrecord =>
        exact ⟨_, hmem⟩
    | replace key old e =>
        cases hs

/-- A type that is no enumeration opens one slot. -/
theorem entries_registerType
    {t : DataType}
    (hshape : ∀ members, t.shape ≠ .enumeration members) :
    (Step.register (.ofType t)).entries = [(t.header.qualified, .ofType t)] := by
  obtain ⟨header, shape⟩ := t
  cases shape with
  | enumeration members =>
      exact absurd rfl (hshape members)
  | _ =>
      rfl

/-- A type that a step registers is held under its name. -/
theorem holdsType_register
    {t : DataType} {c c' : Catalog}
    (h : Effect (.register (.ofType t)) c c') :
    c'.HoldsType t.header.qualified := by
  have hentry : (t.header.qualified, Entity.ofType t) ∈ (Step.register (.ofType t)).entries := by
    obtain ⟨header, shape⟩ := t
    cases shape <;> simp [entries, Entity.qualified]
  cases h with
  | opens hvacant =>
      exact ⟨t, c.mem_slots_pushAll hentry⟩
  | retouches hindex hold hnew hopened =>
      cases hnew

end Step

namespace Request

open Catalog

/-- The name of the type that a request is for. -/
def typeName? :
    Request → Option String
  | offer t => some t.header.qualified
  | take (.register (.ofType t)) => some t.header.qualified
  | _ => none

/-- A request keeps a property of slots. -/
def Keeps
    (p : Slot → Prop) :
    Request → Prop
  | offer t => (Step.register (.ofType t)).Keeps p
  | take s => s.Keeps p
  | reopen _ | leaveOut _ => True

namespace Met

variable {r : Request} {c c' : Catalog}

theorem coherent
    (h : r.Met c c')
    (hc : c.Coherent) :
    c'.Coherent := by
  cases h with
  | offered hshape hstep =>
      exact (Step.effect_of_ok (s := .register _) hc trivial hstep).coherent hc
  | taken hs hstep =>
      exact (Step.effect_of_ok hc hs.isUpdate hstep).coherent hc
  | _ =>
      exact hc

theorem mem_keys_iff
    (h : r.Met c c')
    (hc : c.Coherent)
    {key : String} :
    key ∈ c'.keys ↔ key ∈ c.keys ∨ key ∈ r.keys := by
  -- a request for a key that is there changes nothing
  have hthere : ∀ {name : String} {e : Entity}, c.lookup name = some e →
      (key ∈ c.keys ↔ key ∈ c.keys ∨ key ∈ [name]) := by
    intro name e hfound
    have hname := mem_keys_of_mem_slots (hc.mem_slots_of_lookup hfound)
    constructor
    · exact .inl
    · rintro (hkey | hkey)
      · exact hkey
      · rw [List.mem_singleton.mp hkey]
        exact hname
  cases h with
  | reused hfound =>
      exact hthere hfound
  | reopened hfound =>
      exact hthere hfound
  | leftOut name c =>
      simp [keys]
  | @offered t c c' hshape hstep =>
      have hbatch : (Step.register (.ofType t)).batch = [t.header.qualified] := by
        rw [← Step.map_fst_entries, Step.entries_registerType hshape]
        rfl
      rw [(Step.effect_of_ok (s := .register _) hc trivial hstep).mem_keys_iff hc, hbatch, keys]
  | taken hs hstep =>
      exact (Step.effect_of_ok hc hs.isUpdate hstep).mem_keys_iff hc

theorem holdsType_mono
    (h : r.Met c c')
    (hc : c.Coherent)
    {key : String}
    (hkey : c.HoldsType key) :
    c'.HoldsType key := by
  cases h with
  | @offered t c c' hshape hstep =>
      exact Step.IsRegistration.holdsType (s := .register (.ofType t)) trivial
        (Step.effect_of_ok (s := .register _) hc trivial hstep) hc hkey
  | taken hs hstep =>
      exact hs.holdsType (Step.effect_of_ok hc hs.isUpdate hstep) hc hkey
  | _ =>
      exact hkey

/-- The type that a request is for is held after it. -/
theorem holdsType
    (h : r.Met c c')
    (hc : c.Coherent)
    {key : String}
    (hkey : r.typeName? = some key) :
    c'.HoldsType key := by
  cases h with
  | @reused t found c hfound =>
      cases hkey
      exact ⟨found, hc.mem_slots_of_lookup hfound⟩
  | offered hshape hstep =>
      cases hkey
      exact Step.holdsType_register (Step.effect_of_ok (s := .register _) hc trivial hstep)
  | @taken s c c' hs hstep =>
      have heffect := Step.effect_of_ok hc hs.isUpdate hstep
      unfold typeName? at hkey
      split at hkey
      · next heq =>
          cases heq
      · next t heq =>
          cases heq
          cases hkey
          exact Step.holdsType_register heffect
      · cases hkey
  | _ =>
      cases hkey

theorem beyond
    {p : Slot → Prop} {start : Nat}
    (h : r.Met c c')
    (hc : c.Coherent)
    (hkeeps : r.Keeps p)
    (hbeyond : c.Beyond start p) :
    c'.Beyond start p := by
  cases h with
  | offered hshape hstep =>
      exact Step.Keeps.beyond hkeeps (Step.effect_of_ok (s := .register _) hc trivial hstep) hc hbeyond
  | taken hs hstep =>
      exact Step.Keeps.beyond hkeeps (Step.effect_of_ok hc hs.isUpdate hstep) hc hbeyond
  | _ =>
      exact hbeyond

end Met

namespace AllMet

variable {rs : List Request} {c c' : Catalog}

theorem mem_keys_iff
    (h : AllMet rs c c')
    (hc : c.Coherent)
    {key : String} :
    key ∈ c'.keys ↔ key ∈ c.keys ∨ ∃ r ∈ rs, key ∈ r.keys := by
  induction h with
  | nil c =>
      simp
  | @cons r rs c d e hfirst _ ih =>
      rw [ih (hfirst.coherent hc), hfirst.mem_keys_iff hc, or_assoc]
      simp

theorem holdsType_mono
    (h : AllMet rs c c')
    (hc : c.Coherent)
    {key : String}
    (hkey : c.HoldsType key) :
    c'.HoldsType key := by
  induction h with
  | nil c =>
      exact hkey
  | cons hfirst _ ih =>
      exact ih (hfirst.coherent hc) (hfirst.holdsType_mono hc hkey)

/-- The types that requests are for are held after all of them. -/
theorem holdsType
    (h : AllMet rs c c')
    (hc : c.Coherent)
    {r : Request} {key : String}
    (hr : r ∈ rs)
    (hkey : r.typeName? = some key) :
    c'.HoldsType key := by
  induction h with
  | nil c =>
      cases hr
  | cons hfirst hrest ih =>
      rcases List.mem_cons.mp hr with rfl | hr
      · exact hrest.holdsType_mono (hfirst.coherent hc) (hfirst.holdsType hc hkey)
      · exact ih (hfirst.coherent hc) hr

/-- What all requests keep is kept. -/
theorem beyond
    {p : Slot → Prop} {start : Nat}
    (h : AllMet rs c c')
    (hc : c.Coherent)
    (hkeeps : ∀ r ∈ rs, r.Keeps p)
    (hbeyond : c.Beyond start p) :
    c'.Beyond start p := by
  induction h with
  | nil c =>
      exact hbeyond
  | @cons r rs c d e hfirst _ ih =>
      exact ih (hfirst.coherent hc) (fun q hq => hkeeps q (List.mem_cons_of_mem r hq))
        (hfirst.beyond hc (hkeeps r (by simp)) hbeyond)

end AllMet
end Request
end TypeCatalog
