import TypeCatalog.Proofs.Catalog.Failure
import TypeCatalog.Proofs.Catalog.Handles
import TypeCatalog.Proofs.Catalog.Keyed
import TypeCatalog.Proofs.Registration.Declared

/-!
# Slots are permanent and updates are local

**Input.** Any sequence of actions, each of which may fail.

**Notion.** The outline of an entity is all of it but the functions of an overload set, the members
and bases of a record, and the members and the computed size of a union.

**Rule.** A registration changes a slot that was there in one of two ways: a function joins the
overload set under its name, or the record that is named gets other members or bases. A document
names no record that was there: it registers every record that it fills, which the catalog would
refuse under a name that it has.

**Results.**
* `AllMet.exists_slot_join`: what the requests of a document do to the slots that were there.
* `Source.not_mem_keys_of_filled`: a document fills new records only.
* `slots_permanent`: slots stay, with their keys and outlines, and what a registration may change.
* `register_joins_renamed`: the set that a function joins may have another name, if it was put under
  the name of the function.
-/

namespace TypeCatalog

namespace Entity

/-- What no registration changes of an entity. -/
def outline :
    Entity → Entity
  | .ofOverloads o => .ofOverloads { o with functions := [] }
  | .ofType ⟨header, .record key _ _⟩ => .ofType ⟨header, .record key [] []⟩
  | .ofType ⟨header, .union _ _⟩ => .ofType ⟨header, .union [] none⟩
  | e => e

/-- An overload set with more functions at its end; any other entity as it is. -/
def join :
    Entity → List Function → Entity
  | .ofOverloads o, functions => .ofOverloads { o with functions := o.functions ++ functions }
  | e, _ => e

@[simp] theorem join_nil
    (e : Entity) :
    e.join [] = e := by
  cases e <;> simp [join]

@[simp] theorem join_join
    (e : Entity) (first second : List Function) :
    (e.join first).join second = e.join (first ++ second) := by
  cases e <;> simp [join]

end Entity

/-- Whether an action is neither a query nor one that puts entities under given keys. -/
def Action.IsRegistration :
    Action → Prop
  | .step s => s.IsRegistration
  | .load (.document _ _) _ | .registerDocument _ _ _ => True
  | .load .image _ => False

/-- Whether an action puts entities under their own names. -/
def Action.KeepsNames :
    Action → Prop
  | .step s => s.IsKeyed
  | .load _ _ | .registerDocument _ _ _ => True

/-- A document declares the function. -/
def Source.Declares
    (s : Source) (f : Function) :
    Prop :=
  ∃ e ∈ s.elements, e.kind ∈ functionKinds ∧ s.FunctionOf e f

/-- A registration changes the entity in the slot of a key into another. -/
inductive Action.Amends :
    Action → String → Entity → Entity → Prop
  | overload
      (f : Function) (o : OverloadSet) :
      Amends (.step (.register (.ofFunction f))) f.qualified
        (.ofOverloads o) (.ofOverloads { o with functions := o.functions ++ [f] })
  | recordMembers
      {record scope : String} {members old : List Member}
      {header : TypeHeader} {key : ClassKey} {bases : List Base} :
      Amends (.step (.setMembersIn record scope members)) record
        (.ofType ⟨header, .record key old bases⟩)
        (.ofType ⟨header, .record key (members.map (·.inScope record)) bases⟩)
  | unionMembers
      {record scope : String} {members old : List Member}
      {header : TypeHeader} {computed : Option UInt64} :
      Amends (.step (.setMembersIn record scope members)) record
        (.ofType ⟨header, .union old computed⟩)
        (.ofType ⟨header, .union (members.map (·.inScope record)) none⟩)
  | bases
      {record : String} {bases old : List Base}
      {header : TypeHeader} {key : ClassKey} {members : List Member} :
      Amends (.step (.setBases record bases)) record
        (.ofType ⟨header, .record key members old⟩)
        (.ofType ⟨header, .record key members bases⟩)
  | document
      {d : Document} {n : Template.Normalizer} {o : RegistrationOptions}
      {key : String} {set : OverloadSet} {functions : List Function}
      (hdeclared : ∀ f ∈ functions,
        f.qualified = key ∧ (Source.ofDocument (d.repair n) n o).Declares f) :
      Amends (.registerDocument d n o) key
        (.ofOverloads set) (.ofOverloads { set with functions := set.functions ++ functions })
  | loaded
      {d : Document} {n : Template.Normalizer} {o : RegistrationOptions} {bytes : List UInt8}
      {key : String} {old new : Entity}
      (hread : Document.read bytes = .ok d)
      (h : Amends (.registerDocument d n o) key old new) :
      Amends (.load (.document n o) bytes) key old new

/-- No registration changes an outline. -/
theorem Action.Amends.outline_eq
    {a : Action} {key : String} {old new : Entity}
    (h : a.Amends key old new) :
    new.outline = old.outline := by
  induction h with
  | loaded hread _ ih =>
      exact ih
  | _ =>
      rfl

namespace Step

/-- The record that a step fills. -/
def filled? :
    Step → Option String
  | setMembersIn record _ _ | setBases record _ => some record
  | register _ | put _ _ | resolve _ _ | measure _ => none

/-- The function that a step registers. -/
def function? :
    Step → Option Function
  | register (.ofFunction f) => some f
  | _ => none

theorem Retouches.amends
    {s : Step} {key : String} {old new : Entity}
    (hs : s.IsRegistration)
    (h : s.Retouches key old new) :
    (Action.step s).Amends key old new := by
  cases h with
  | overload f o =>
      exact .overload f o
  | @members record scope members t hrecord =>
      obtain ⟨header, shape⟩ := t
      cases shape with
      | record k old bases =>
          exact .recordMembers
      | union old computed =>
          exact .unionMembers
      | _ =>
          simp [DataType.isRecord, DataType.isUnion] at hrecord
  | @bases record bases t hrecord =>
      obtain ⟨header, shape⟩ := t
      cases shape with
      | record k members old =>
          exact .bases
      | _ =>
          simp [DataType.isRecord] at hrecord
  | replace key old e =>
      cases hs

/-- In a slot of a record that it does not fill, a registration only joins functions. -/
theorem Retouches.exists_join
    {s : Step} {key : String} {old new : Entity}
    (hs : s.IsRegistration)
    (h : s.Retouches key old new)
    (hfilled : s.filled? ≠ some key) :
    ∃ f, new = old.join [f] ∧ f.qualified = key ∧ s.function? = some f := by
  cases h with
  | overload f o =>
      exact ⟨f, rfl, rfl, rfl⟩
  | members hrecord =>
      exact absurd rfl hfilled
  | bases hrecord =>
      exact absurd rfl hfilled
  | replace key old e =>
      cases hs

/-- A type that a step registers has a name that was vacant. -/
theorem not_mem_keys_of_registerType
    {t : DataType} {c c' : Catalog}
    (h : Catalog.Effect (.register (.ofType t)) c c')
    (hc : c.Coherent) :
    t.header.qualified ∉ c.keys := by
  have hbatch : t.header.qualified ∈ (Step.register (.ofType t)).batch := by
    obtain ⟨header, shape⟩ := t
    cases shape <;> simp [batch, Entity.qualified]
  cases h with
  | opens hvacant =>
      exact hc.isVacant_iff.mp (hvacant _ hbatch)
  | retouches hindex hold hnew hopened =>
      cases hnew

end Step

namespace Request

open Catalog

/-- The record that a request fills. -/
def filled? :
    Request → Option String
  | take s => s.filled?
  | offer _ | reopen _ | leaveOut _ => none

/-- The function that a request registers. -/
def function? :
    Request → Option Function
  | take s => s.function?
  | offer _ | reopen _ | leaveOut _ => none

/-- A request joins functions to the slots of records that it does not fill. -/
theorem Met.exists_slot_join
    {r : Request} {c c' : Catalog} {i : Nat} {slot : Slot}
    (h : r.Met c c')
    (hc : c.Coherent)
    (hslot : c.slots[i]? = some slot)
    (hfilled : r.filled? ≠ some slot.key) :
    ∃ functions, c'.slots[i]? = some ⟨slot.key, slot.entity.join functions⟩ ∧
      ∀ f ∈ functions, f.qualified = slot.key ∧ r.function? = some f := by
  have hsame : ∀ {d : Catalog}, d.slots[i]? = some slot →
      ∃ functions, d.slots[i]? = some ⟨slot.key, slot.entity.join functions⟩ ∧
        ∀ f ∈ functions, f.qualified = slot.key ∧ r.function? = some f := by
    intro d hd
    exact ⟨[], by simpa using hd, by simp⟩
  cases h with
  | @offered t c c' hshape hstep =>
      have heffect := Step.effect_of_ok (s := .register _) hc trivial hstep
      obtain ⟨e, he, rfl | hretouch⟩ := heffect.exists_slot hc hslot
      · exact hsame he
      · cases hretouch
  | @taken s c c' hs hstep =>
      have heffect := Step.effect_of_ok hc hs.isUpdate hstep
      obtain ⟨e, he, rfl | hretouch⟩ := heffect.exists_slot hc hslot
      · exact hsame he
      · obtain ⟨f, rfl, hname, hfunction⟩ := hretouch.exists_join hs hfilled
        refine ⟨[f], he, fun g hg => ?_⟩
        rw [List.mem_singleton.mp hg]
        exact ⟨hname, hfunction⟩
  | _ =>
      exact hsame hslot

namespace AllMet

variable {rs : List Request} {c c' : Catalog}

/-- Requests join functions to the slots of records that none of them fills. -/
theorem exists_slot_join
    {i : Nat} {slot : Slot}
    (h : AllMet rs c c')
    (hc : c.Coherent)
    (hslot : c.slots[i]? = some slot)
    (hfilled : ∀ r ∈ rs, r.filled? ≠ some slot.key) :
    ∃ functions, c'.slots[i]? = some ⟨slot.key, slot.entity.join functions⟩ ∧
      ∀ f ∈ functions, f.qualified = slot.key ∧ ∃ r ∈ rs, r.function? = some f := by
  -- for every slot at once: the later requests find it with the functions that joined it before
  induction h generalizing slot with
  | nil c =>
      exact ⟨[], by simpa using hslot, by simp⟩
  | @cons r rs c d e hfirst _ ih =>
      obtain ⟨first, hd, hfirst'⟩ := hfirst.exists_slot_join hc hslot (hfilled r (by simp))
      obtain ⟨second, he, hsecond⟩ := ih (hfirst.coherent hc) hd fun q hq =>
        hfilled q (List.mem_cons_of_mem r hq)
      refine ⟨first ++ second, by simpa using he, fun f hf => ?_⟩
      rcases List.mem_append.mp hf with hf | hf
      · obtain ⟨hname, hfunction⟩ := hfirst' f hf
        exact ⟨hname, r, by simp, hfunction⟩
      · obtain ⟨hname, q, hq, hfunction⟩ := hsecond f hf
        exact ⟨hname, q, List.mem_cons_of_mem r hq, hfunction⟩

/-- A type that is registered among requests has a name that was vacant before all of them. -/
theorem not_mem_keys_of_register
    {t : DataType}
    (h : AllMet rs c c')
    (hc : c.Coherent)
    (ht : take (.register (.ofType t)) ∈ rs) :
    t.header.qualified ∉ c.keys := by
  induction h with
  | nil c =>
      cases ht
  | @cons r rs c d e hfirst _ ih =>
      rcases List.mem_cons.mp ht with rfl | ht
      · cases hfirst with
        | taken hs hstep =>
            exact Step.not_mem_keys_of_registerType (Step.effect_of_ok hc hs.isUpdate hstep) hc
      · intro hkey
        exact ih (hfirst.coherent hc) ht ((hfirst.mem_keys_iff hc).mpr (.inl hkey))

end AllMet
end Request

namespace Source

open Request

variable {s : Source}

/-- A request of a document fills a record that the document registers, or registers a function that
it declares, or does neither. -/
theorem Demanded.request_cases
    {d : Demand} {r : Request}
    (hd : s.Demanded d)
    (hr : d r) :
    (∃ e name, s.Demanded (s.shellDemand e) ∧ s.Names e.id name ∧
        r.filled? = some name ∧ r.function? = none) ∨
      (∃ f, s.Declares f ∧ r.filled? = none ∧ r.function? = some f) ∨
      r.filled? = none ∧ r.function? = none := by
  cases hd with
  | reference hread hd =>
      obtain ⟨base, q, -, -, rfl⟩ := mem_refDemands_iff.mp hd
      obtain ⟨name, underlying, size, kind, -, -, -, -, rfl⟩ := hr
      exact .inr (.inr ⟨rfl, rfl⟩)
  | fundamental he hkind =>
      obtain ⟨name, kind, bits, -, -, -, rfl⟩ := hr
      exact .inr (.inr ⟨rfl, rfl⟩)
  | space he hkind hglobal =>
      obtain ⟨name, -, rfl | ⟨scope, -, rfl⟩⟩ := hr
      · exact .inr (.inr ⟨rfl, rfl⟩)
      · exact .inr (.inr ⟨rfl, rfl⟩)
  | spaceAlias he hkind =>
      obtain ⟨name, scope, id, target, -, -, -, -, rfl⟩ := hr
      exact .inr (.inr ⟨rfl, rfl⟩)
  | enumeration he hkind =>
      obtain ⟨name, scope, bits, members, -, -, -, -, rfl⟩ := hr
      exact .inr (.inr ⟨rfl, rfl⟩)
  | shell he hkind =>
      obtain ⟨name, scope, bits, -, -, -, rfl⟩ := hr
      exact .inr (.inr ⟨rfl, rfl⟩)
  | memberType he hkind hid hm hfunction =>
      obtain ⟨cls, proto, -, -, rfl⟩ := hr
      exact .inr (.inr ⟨rfl, rfl⟩)
  | members he hkind =>
      obtain ⟨name, scope, members, hname, -, -, rfl⟩ := hr
      exact .inl ⟨_, name, .shell he hkind, hname, rfl, rfl⟩
  | bases he hkind hunion hbases =>
      obtain ⟨name, bases, hname, -, rfl⟩ := hr
      exact .inl ⟨_, name, .shell he hkind, hname, rfl, rfl⟩
  | typedef he hkind =>
      obtain ⟨name, id, target, -, -, -, ⟨-, rfl⟩ | ⟨-, scope, size, -, -, rfl⟩⟩ := hr
      · exact .inr (.inr ⟨rfl, rfl⟩)
      · exact .inr (.inr ⟨rfl, rfl⟩)
  | structural he hkind =>
      obtain ⟨t, ht, rfl⟩ := hr
      exact .inr (.inr ⟨rfl, rfl⟩)
  | function he hkind =>
      obtain ⟨f, hf, rfl⟩ := hr
      exact .inr (.inl ⟨f, ⟨_, he, hkind, hf⟩, rfl, rfl⟩)
  | globalData he hkind hglobal =>
      obtain ⟨name, scope, id, type, specifiers, -, -, -, -, rfl⟩ := hr
      exact .inr (.inr ⟨rfl, rfl⟩)

/-- A record that a document fills was not there before. -/
theorem not_mem_keys_of_filled
    {rs : List Request} {c c' : Catalog} {r : Request} {name : String}
    (hmet : AllMet rs c c')
    (hc : c.Coherent)
    (hall : ∀ d, s.Demanded d → ∃ r ∈ rs, d r)
    (honly : ∀ r ∈ rs, ∃ d, s.Demanded d ∧ d r)
    (hr : r ∈ rs)
    (hfilled : r.filled? = some name) :
    name ∉ c.keys := by
  obtain ⟨d, hd, hmeets⟩ := honly r hr
  obtain ⟨e, name', hshell, hname, hfilled', -⟩ | ⟨f, -, hnone, -⟩ | ⟨hnone, -⟩ :=
    hd.request_cases hmeets
  · -- the record is registered by the same document, under the name it is filled under
    obtain rfl : name = name' := Option.some.inj (hfilled.symm.trans hfilled')
    obtain ⟨q, hq, registered, scope, bits, hregistered, -, -, rfl⟩ := hall _ hshell
    obtain rfl := hname.unique hregistered
    simpa using hmet.not_mem_keys_of_register hc hq
  · simp [hnone] at hfilled
  · simp [hnone] at hfilled

end Source

namespace Catalog

open Source Request

variable {c : Catalog}

/-- A document only joins functions that it declares to the slots that were there. -/
theorem exists_slot_registerDocument
    (d : Document) (n : Template.Normalizer) (o : RegistrationOptions)
    {i : Nat} {slot : Slot}
    (hc : c.Coherent)
    (hslot : c.slots[i]? = some slot) :
    ∃ functions,
      (c.registerDocument d n o).2.slots[i]? = some ⟨slot.key, slot.entity.join functions⟩ ∧
      ∀ f ∈ functions, f.qualified = slot.key ∧
        (Source.ofDocument (d.repair n) n o).Declares f := by
  cases hout : (c.registerDocument d n o).1 with
  | error err =>
      rw [eq_of_registerDocument_error hout]
      exact ⟨[], by simpa using hslot, by simp⟩
  | ok stats =>
      obtain ⟨a, state, hrun, hstate⟩ := registerDocument_eq_ok (Prod.ext hout rfl)
      obtain ⟨rs, hmet, hall, honly⟩ := exists_requests _ hrun
      have hkey : slot.key ∈ c.keys := mem_keys_of_mem_slots (Array.mem_of_getElem? hslot)
      obtain ⟨functions, hfound, hfunctions⟩ := hmet.exists_slot_join hc hslot fun r hr hfilled =>
        not_mem_keys_of_filled hmet hc hall honly hr hfilled hkey
      rw [hstate] at hfound
      refine ⟨functions, hfound, fun f hf => ?_⟩
      obtain ⟨hname, r, hr, hfunction⟩ := hfunctions f hf
      refine ⟨hname, ?_⟩
      obtain ⟨demand, hdemanded, hmeets⟩ := honly r hr
      obtain ⟨e, name, -, -, -, hnone⟩ | ⟨g, hg, -, hsome⟩ | ⟨-, hnone⟩ :=
        hdemanded.request_cases hmeets
      · simp [hnone] at hfunction
      · obtain rfl : f = g := Option.some.inj (hfunction.symm.trans hsome)
        exact hg
      · simp [hnone] at hfunction

/-- What the registration of a document makes of a slot that was there. -/
theorem amends_registerDocument
    (d : Document) (n : Template.Normalizer) (o : RegistrationOptions)
    {i : Nat} {slot : Slot}
    (hc : c.Coherent)
    (hslot : c.slots[i]? = some slot) :
    ∃ e, (c.registerDocument d n o).2.slots[i]? = some ⟨slot.key, e⟩ ∧
      (e = slot.entity ∨ (Action.registerDocument d n o).Amends slot.key slot.entity e) := by
  obtain ⟨functions, hfound, hfunctions⟩ := exists_slot_registerDocument d n o hc hslot
  obtain ⟨key, entity⟩ := slot
  refine ⟨_, hfound, ?_⟩
  cases entity with
  | ofOverloads set =>
      exact .inr (.document hfunctions)
  | _ =>
      exact .inl rfl

/-- What a registration makes of a slot that was there. -/
theorem amends_after
    {a : Action} {i : Nat} {slot : Slot}
    (ha : a.IsRegistration)
    (hc : c.Coherent)
    (hslot : c.slots[i]? = some slot) :
    ∃ e, (c.after a).slots[i]? = some ⟨slot.key, e⟩ ∧
      (e = slot.entity ∨ a.Amends slot.key slot.entity e) := by
  cases a with
  | step s =>
      have hs : s.IsRegistration := ha
      cases hout : (s.apply c).1 with
      | error err =>
          have hsame : (s.apply c).2 = c := Step.eq_of_error (Prod.ext hout rfl)
          rw [after, hsame]
          exact ⟨slot.entity, hslot, .inl rfl⟩
      | ok =>
          have heffect := Step.effect_of_ok hc hs.isUpdate (Prod.ext hout rfl)
          obtain ⟨e, he, hchange⟩ := heffect.exists_slot hc hslot
          exact ⟨e, he, hchange.imp_right (·.amends hs)⟩
  | registerDocument d n o =>
      exact amends_registerDocument d n o hc hslot
  | load l bytes =>
      cases l with
      | image =>
          cases ha
      | document n o =>
          cases hread : Document.read bytes with
          | error err =>
              exact ⟨slot.entity, by simpa [after, Loader.load, hread] using hslot, .inl rfl⟩
          | ok d =>
              have hafter : c.after (.load (.document n o) bytes) =
                  (c.registerDocument d n o).2 := by
                simp only [after, Loader.load, hread]
                cases hreg : c.registerDocument d n o with
                | mk outcome c' =>
                    cases outcome <;> rfl
              rw [hafter]
              obtain ⟨e, he, hchange⟩ := amends_registerDocument d n o hc hslot
              exact ⟨e, he, hchange.imp_right (.loaded hread)⟩

theorem keyed_of_keepsNames
    {actions : List Action}
    (hactions : ∀ a ∈ actions, a.KeepsNames)
    (hc : c.Coherent)
    (hkeyed : c.Keyed) :
    (actions.foldl after c).Keyed := by
  induction actions generalizing c with
  | nil =>
      exact hkeyed
  | cons a actions ih =>
      obtain ⟨steps, htrace, hsteps⟩ := exists_trace_after c a
      have hafter : (c.after a).Keyed := by
        have ha := hactions a (by simp)
        cases a with
        | step s =>
            refine htrace.keyed (fun t ht => ?_) hc hkeyed
            obtain rfl : t = s := hsteps t ht
            exact ha
        | load l bytes =>
            exact keyed_after (a := .load l bytes) trivial hc hkeyed
        | registerDocument d n o =>
            exact keyed_after (a := .registerDocument d n o) trivial hc hkeyed
      exact ih (fun b hb => hactions b (List.mem_cons_of_mem a hb)) (htrace.coherent hc) hafter

/-- Whatever is done after a run, a name keeps its slot and the slot its key, and there are not
fewer slots. A registration leaves every slot with its outline: a function that it registers joins the
overload set under the name of the function, and the record that it fills gets members or bases. If
the run put entities under their own names, that is the name of the overload set. -/
theorem slots_permanent
    (before later : List Action) :
    (∀ key i, (run before).indexOf? key = some i →
      (run (before ++ later)).indexOf? key = some i ∧
        ∃ e, (run (before ++ later)).slots[i]? = some ⟨key, e⟩) ∧
    (run before).size ≤ (run (before ++ later)).size ∧
    (∀ a : Action, a.IsRegistration → ∀ (i : Nat) (slot : Slot),
      (run before).slots[i]? = some slot →
      ∃ e, (run (before ++ [a])).slots[i]? = some ⟨slot.key, e⟩ ∧
        e.outline = slot.entity.outline ∧
        (e = slot.entity ∨ a.Amends slot.key slot.entity e)) ∧
    ((∀ a ∈ before, a.KeepsNames) →
      ∀ slot ∈ (run before).slots, slot.key = slot.entity.qualified) := by
  have hc : (run before).Coherent := Reachable.coherent ⟨before, rfl⟩
  have hretains : Retains (run before) (run (before ++ later)) := by
    rw [run_append]
    exact retains_foldl_after _ later
  refine ⟨?_, hretains.size_le, ?_, ?_⟩
  · intro key i hi
    have hi' := hretains.index hi
    have hc' : (run (before ++ later)).Coherent := Reachable.coherent ⟨_, rfl⟩
    obtain ⟨slot, hslot, rfl⟩ := keys_getElem?_eq_some_iff.mp (hc'.keys_of_indexOf? hi')
    exact ⟨hi', slot.entity, hslot⟩
  · intro a ha i slot hslot
    rw [run_append]
    obtain ⟨e, he, hchange⟩ := amends_after ha hc hslot
    refine ⟨e, he, ?_, hchange⟩
    rcases hchange with rfl | hamends
    · rfl
    · exact hamends.outline_eq
  · intro hactions
    exact keyed_of_keepsNames hactions coherent_empty (by simp [Keyed, empty])

/-- A function without parameters in the global scope. -/
def globalFunction
    (name : String) :
    Function :=
  ⟨name, "", .none, .none, ⟨[], .named "void", false⟩⟩

/-- A run that registers the function `f` and the struct `S`. -/
def overloadRun :
    List Action :=
  [.step (.register (.ofFunction (globalFunction "f"))),
   .step (.register (.ofType (.record .structKey "S" "" 4)))]

/-- The registration of a document with another function `f`. -/
def overloadDocument :
    Action :=
  .registerDocument
    (.ofElements
      [{ Element.bare "FundamentalType" "_1" with attributes := [("name", "int")] },
       { Element.bare "Function" "_2" with attributes := [("name", "f"), ("returns", "_1")] }])
    .standard .standard

theorem slots_permanent_overloadRun :
    (∀ a ∈ overloadRun, a.KeepsNames) ∧ overloadDocument.IsRegistration ∧
      (run overloadRun).indexOf? "f" = some 0 ∧
      (run overloadRun).slots[0]? = some ⟨"f", .ofOverloads (.single (globalFunction "f"))⟩ ∧
      (run (overloadRun ++ [overloadDocument])).indexOf? "f" = some 0 ∧
      ∃ e, (run (overloadRun ++ [overloadDocument])).slots[0]? = some ⟨"f", e⟩ ∧
        overloadDocument.Amends "f" (.ofOverloads (.single (globalFunction "f"))) e := by
  have hactions : ∀ a ∈ overloadRun, a.KeepsNames := by
    simp [overloadRun, Action.KeepsNames, Step.IsKeyed]
  have hindex : (run overloadRun).indexOf? "f" = some 0 := by
    decide +kernel
  have hslot : (run overloadRun).slots[0]? =
      some ⟨"f", .ofOverloads (.single (globalFunction "f"))⟩ := by
    decide +kernel
  have hchanged : (run (overloadRun ++ [overloadDocument])).slots[0]? ≠
      some ⟨"f", .ofOverloads (.single (globalFunction "f"))⟩ := by
    decide +kernel
  obtain ⟨hhandles, -, hlocal, -⟩ := slots_permanent overloadRun [overloadDocument]
  obtain ⟨e, he, -, rfl | hamends⟩ := hlocal overloadDocument trivial 0 _ hslot
  · exact absurd he hchanged
  · exact ⟨hactions, trivial, hindex, hslot, (hhandles "f" 0 hindex).1, e, he, hamends⟩

/-- A run that puts the overload set of `g` under the key `f`. -/
def renamedRun :
    List Action :=
  [.step (.register (.ofFunction (globalFunction "g"))),
   .step (.put "f" (.ofOverloads (.single (globalFunction "g"))))]

/-- The overload set of `g` with `f` at its end. -/
def joinedSet :
    OverloadSet :=
  (OverloadSet.single (globalFunction "g")).push (globalFunction "f")

/-- The overload set that a function joins need not have the name of the function. -/
theorem register_joins_renamed :
    ¬ ∀ (before : List Action) (f : Function) (i : Nat) (slot : Slot) (e : Entity),
      (run before).slots[i]? = some slot →
      (run (before ++ [.step (.register (.ofFunction f))])).slots[i]? = some ⟨slot.key, e⟩ →
      e ≠ slot.entity → slot.entity.qualified = f.qualified := by
  intro h
  have hslot : (run renamedRun).slots[1]? =
      some ⟨"f", .ofOverloads (.single (globalFunction "g"))⟩ := by
    decide +kernel
  have hjoined :
      (run (renamedRun ++ [.step (.register (.ofFunction (globalFunction "f")))])).slots[1]? =
        some ⟨"f", .ofOverloads joinedSet⟩ := by
    decide +kernel
  have hname := h renamedRun (globalFunction "f") 1 _ _ hslot hjoined (by decide)
  exact absurd hname (by decide)

end Catalog
end TypeCatalog
