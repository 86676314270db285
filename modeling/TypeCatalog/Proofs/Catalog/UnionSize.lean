import TypeCatalog.Proofs.Catalog.SizeQuery

/-!
# The sizes of unions along a run

**Input.** A run of registrations, member lists, base lists and replacements, between which sizes
are asked for. A union keeps the size that was computed for it, and drops it only when it gets other
members itself.

**Rule.** A step can change the size of a type that a union with a kept size contains: a nested
union gets members, or a member's type is replaced. The kept size is then out of date. A step is
*sparing* when it does not do this, and brings no kept sizes from elsewhere.

**Results.**
* `Grows.hasSize`: what a step makes of a size, when it changes one slot and opens others.
* `Step.fresh_of_ok`: a sparing step leaves a fresh catalog fresh.
* `fresh_iff_sizeAt`: sizes are answered rightly exactly when all kept sizes are right.
* `sizeAt_run`: so after a run of sparing steps every size is answered rightly.
* `sizeAt_resizedRun`: a step that is not sparing leaves a union with the size of its old members.
-/

namespace TypeCatalog

namespace Catalog

section Growth

/-- The second catalog is the first one with the entity of a slot changed, which keeps its name, and
with slots opened under vacant names. -/
structure Grows
    (c c' : Catalog) (j : Nat) :
    Prop where
  index : ∀ name i, c.indexOf? name = some i → c'.indexOf? name = some i
  types : ∀ i, i ≠ j → i < c.size → c'.typeAt? i = c.typeAt? i
  opened : ∀ i t, c.size ≤ i → c'.typeAt? i = some t → c.indexOf? t.header.qualified = none
  own : ∀ t, j < c.size → c'.typeAt? j = some t → c.indexOf? t.header.qualified = some j
  name : ∀ t t', c.typeAt? j = some t → c'.typeAt? j = some t' →
    t'.header.qualified = t.header.qualified

variable {c c' : Catalog} {j : Nat}

/-- A reference that resolves keeps resolving to its slot, as long as there is a type. -/
theorem Grows.resolve_eq
    {r : TypeRef} {i : Nat}
    (h : Grows c c' j)
    (hres : (c.resolve r).1 = .ok i)
    (hj : i = j → ∃ t, c'.typeAt? j = some t) :
    (c'.resolve r).1 = .ok i := by
  have htype : ∀ t, c.typeAt? i = some t →
      ∃ t', c'.typeAt? i = some t' ∧ t'.header.qualified = t.header.qualified := by
    intro t ht
    by_cases hij : i = j
    · subst hij
      obtain ⟨t', ht'⟩ := hj rfl
      exact ⟨t', ht', h.name t t' ht ht'⟩
    · exact ⟨t, (h.types i hij (lt_size_of_typeAt? ht)).trans ht, rfl⟩
  rcases resolve_eq_ok_cases.mp hres with hmemo | ⟨hmemo, hindex, t, ht⟩
  · obtain ⟨hslot, t, ht, hname⟩ := memoized?_eq_some_iff.mp hmemo
    obtain ⟨t', ht', hname'⟩ := htype t ht
    exact resolve_eq_ok_cases.mpr
      (.inl (memoized?_eq_some_iff.mpr ⟨hslot, t', ht', hname'.trans hname⟩))
  · obtain ⟨t', ht', -⟩ := htype t ht
    have hindex' := h.index _ _ hindex
    cases hmemo' : c'.memoized? r with
    | none =>
        exact resolve_eq_ok_cases.mpr (.inr ⟨hmemo', hindex', t', ht'⟩)
    | some k =>
        -- a memo that has come into use names the slot that the index gives
        obtain ⟨hslot, u, hu, hname⟩ := memoized?_eq_some_iff.mp hmemo'
        obtain rfl : k = i := by
          by_cases hk : k < c.size
          · by_cases hkj : k = j
            · subst hkj
              have hown := h.own u hk hu
              rw [hname, hindex] at hown
              exact (Option.some.inj hown).symm
            · rw [h.types k hkj hk] at hu
              rw [memoized?_eq_some_iff.mpr ⟨hslot, u, hu, hname⟩] at hmemo
              cases hmemo
          · have hvacant := h.opened k u (Nat.le_of_not_lt hk) hu
            rw [hname, hindex] at hvacant
            cases hvacant
        exact resolve_eq_ok_cases.mpr (.inl hmemo')

theorem Grows.fixed
    {i : Nat} {n : UInt64}
    (h : Grows c c' j)
    (hi : i ≠ j)
    (hn : c.extentAt? i = some (.fixed n)) :
    c'.extentAt? i = some (.fixed n) := by
  obtain ⟨⟨header, shape⟩, ht, hextent⟩ := exists_typeAt?_of_extent hn
  rw [extentAt?, h.types i hi (lt_size_of_typeAt? ht), ht, Option.map_some, ← hextent]
  cases shape with
  | union members computed =>
      by_cases hzero : header.size = 0
      · simp [extentOf, hzero] at hextent
      · simp [extentOf, hzero]
  | _ =>
      rfl

theorem Grows.largest
    {i : Nat} {targets : List Nat}
    (h : Grows c c' j)
    (hi : i ≠ j)
    (hj : j ∈ targets → ∃ t, c'.typeAt? j = some t)
    (hn : c.extentAt? i = some (.largest (targets.map .ok))) :
    c'.extentAt? i = some (.largest (targets.map .ok)) := by
  obtain ⟨⟨header, shape⟩, ht, hextent⟩ := exists_typeAt?_of_extent hn
  cases shape with
  | union members computed =>
      by_cases hzero : header.size = 0
      · have htargets : c.dataTargets members = targets.map .ok := by
          simpa [extentOf, hzero] using hextent
        have hsame : c'.dataTargets members = c.dataTargets members := by
          refine List.map_congr_left fun m hm => ?_
          have hmem : (c.resolve m.type).1 ∈ targets.map Except.ok := by
            rw [← htargets]
            exact List.mem_map_of_mem hm
          obtain ⟨k, hk, hres⟩ := List.mem_map.mp hmem
          rw [← hres]
          exact h.resolve_eq hres.symm fun hkj => hj (hkj ▸ hk)
        rw [extentAt?, h.types i hi (lt_size_of_typeAt? ht), ht]
        simp [extentOf, hzero, hsame, htargets]
      · simp [extentOf, hzero] at hextent
  | _ =>
      simp [extentOf] at hextent

/-- A type keeps its size, if the changed type keeps its own or is not contained in it. -/
theorem Grows.hasSize
    {i : Nat} {n : UInt64}
    (h : Grows c c' j)
    (hn : c.HasSize i n)
    (hj : i = j ∨ Relation.TransGen c.Contains i j → ∀ m, c.HasSize j m → c'.HasSize j m) :
    c'.HasSize i n := by
  induction hn with
  | @fixed i n hextent =>
      by_cases hij : i = j
      · subst hij
        exact hj (.inl rfl) n (.fixed hextent)
      · exact .fixed (h.fixed hij hextent)
  | @largest i targets sizes hextent hsizes ih =>
      by_cases hij : i = j
      · subst hij
        exact hj (.inl rfl) _ (.largest hextent hsizes)
      · have hbelow : ∀ t ∈ targets, c'.HasSize t (sizes t) := by
          intro t ht
          have hstep : c.Contains i t := ⟨_, hextent, List.mem_map_of_mem ht⟩
          refine ih t ht fun hreach => hj (.inr ?_)
          rcases hreach with rfl | hreach
          · exact .single hstep
          · exact .head hstep hreach
        exact .largest (h.largest hij (fun hmem => (hbelow j hmem).exists_typeAt?) hextent) hbelow

theorem entityAt?_pushAll
    (entries : List (String × Entity)) {i : Nat}
    (hi : i < c.size) :
    (c.pushAll entries).entityAt? i = c.entityAt? i := by
  have hlt : i < c.slots.size := hi
  rw [entityAt?, getElem?_slots_pushAll, if_pos hlt, entityAt?]

theorem Keyed.key_of_typeAt?
    {i : Nat} {t : DataType}
    (h : c.Keyed)
    (ht : c.typeAt? i = some t) :
    c.keys[i]? = some t.header.qualified := by
  obtain ⟨key, hslot⟩ := c.entityAt?_eq_some_iff.mp (typeAt?_eq_some_iff.mp ht)
  exact keys_getElem?_eq_some_iff.mpr ⟨_, hslot, keyed_iff.mp h i _ hslot⟩

/-- A keyed catalog grows when types in other slots stay and only vacant keys are opened. -/
theorem grows_of_extends
    {added : List String}
    (hc : c.Coherent)
    (hkeyed : c.Keyed)
    (hkeyed' : c'.Keyed)
    (hext : c.Extends added c')
    (htypes : ∀ i, i ≠ j → i < c.size → c'.typeAt? i = c.typeAt? i)
    (hfound : j < c.size → ∃ key, c.indexOf? key = some j) :
    Grows c c' j := by
  have hvacant : ∀ key ∈ added, key ∉ c.keys := by
    obtain ⟨d, entries, -, -, -, hvacant⟩ := hext
    exact fun key hkey => hc.isVacant_iff.mp (hvacant key hkey)
  have hlength : c.keys.length = c.size := c.length_keys
  have hold : ∀ i, i < c.size → c'.keys[i]? = c.keys[i]? := by
    intro i hi
    rw [hext.keys_eq, List.getElem?_append_left (by omega)]
  refine ⟨?_, htypes, ?_, ?_, ?_⟩
  · intro name i hi
    obtain ⟨hkey, hlast⟩ := (hc name i).mp hi
    refine (hext.coherent hc name i).mpr ⟨(hold i (hc.lt_size hi)).trans hkey, ?_⟩
    intro k hk hname
    by_cases hlt : k < c.size
    · exact hlast k hk ((hold k hlt).symm.trans hname)
    · rw [hext.keys_eq, List.getElem?_append_right (by omega)] at hname
      exact hvacant name (List.mem_of_getElem? hname) (hc.mem_keys_of_indexOf? hi)
  · intro i t hi ht
    have hname := hkeyed'.key_of_typeAt? ht
    rw [hext.keys_eq, List.getElem?_append_right (by omega)] at hname
    exact hc.indexOf?_eq_none_iff.mpr (hvacant _ (List.mem_of_getElem? hname))
  · intro t hj ht
    obtain ⟨key, hkey⟩ := hfound hj
    have hname := hkeyed'.key_of_typeAt? ht
    rw [hold j hj, hc.keys_of_indexOf? hkey] at hname
    rw [← Option.some.inj hname]
    exact hkey
  · intro t t' ht ht'
    have hname := hkeyed'.key_of_typeAt? ht'
    rw [hold j (lt_size_of_typeAt? ht), hkeyed.key_of_typeAt? ht] at hname
    exact (Option.some.inj hname).symm

end Growth

end Catalog

/-- The computed size that an entity carries. -/
def Entity.carried?
    (e : Entity) :
    Option UInt64 :=
  e.type?.bind DataType.carried?

namespace Step

open Catalog

/-- The computed size that a step brings into a catalog. -/
def carried? :
    Step → Option UInt64
  | register e | put _ e => e.carried?
  | setMembersIn _ _ _ | setBases _ _ | resolve _ _ | measure _ => none

/-- The key under which a step may put a type of another size. -/
def resizes? :
    Step → Option String
  | setMembersIn record _ _ => some record
  | put key _ => some key
  | register _ | setBases _ _ | resolve _ _ | measure _ => none

/-- What a step puts goes under its own name. -/
def IsNamed :
    Step → Prop
  | put key e => key = e.qualified
  | _ => True

/-- A step brings no computed size, puts nothing under another's name, and lets a type keep its size
when a union with a kept size contains it. -/
structure Sparing
    (s : Step) (c : Catalog) :
    Prop where
  carried : s.carried? = none
  named : s.IsNamed
  resizes : ∀ key j, s.resizes? = some key → c.indexOf? key = some j →
    ∀ i n, c.kept? i = some n → Relation.TransGen c.Contains i j →
      ∀ m, c.HasSize j m → (s.apply c).2.HasSize j m

variable {s : Step} {c c' : Catalog}

theorem IsNamed.isKeyed
    (h : s.IsNamed)
    (hupdate : s.IsUpdate) :
    s.IsKeyed := by
  cases s with
  | put key e =>
      exact h
  | _ =>
      exact hupdate

theorem carried?_of_mem_entries
    {p : String × Entity}
    (h : s.carried? = none)
    (hp : p ∈ s.entries) :
    p.2.carried? = none := by
  cases s with
  | register e =>
      cases e with
      | ofType t =>
          obtain ⟨header, shape⟩ := t
          cases shape with
          | enumeration members =>
              rcases List.mem_cons.mp hp with rfl | hp
              · rfl
              · obtain ⟨m, -, rfl⟩ := List.mem_map.mp hp
                rfl
          | _ =>
              obtain rfl := List.mem_singleton.mp hp
              exact h
      | _ =>
          obtain rfl := List.mem_singleton.mp hp
          rfl
  | setMembersIn record scope members =>
      obtain ⟨m, -, rfl⟩ := List.mem_map.mp hp
      rfl
  | put key e =>
      obtain rfl := List.mem_singleton.mp hp
      exact h
  | _ =>
      cases hp

/-- A record or union that gets members, and a record that gets bases, keeps no computed size. -/
theorem carried?_of_retouches
    {key : String} {old new : Entity}
    (h : s.carried? = none)
    (hnew : s.Retouches key old new) :
    new.carried? = none := by
  cases hnew with
  | overload f o =>
      rfl
  | @members record scope members t hrecord =>
      obtain ⟨header, shape⟩ := t
      cases shape <;> simp_all [Entity.carried?, Entity.type?, withMembers, DataType.carried?,
        DataType.isRecord, DataType.isUnion]
  | @bases record bases t hrecord =>
      obtain ⟨header, shape⟩ := t
      cases shape <;> simp_all [Entity.carried?, Entity.type?, withBases, DataType.carried?,
        DataType.isRecord]
  | replace key old e =>
      exact h

/-- A step that brings no computed size keeps or drops those that are there. -/
theorem kept?_of_ok
    {i : Nat} {n : UInt64}
    (hc : c.Coherent)
    (hupdate : s.IsUpdate)
    (hcarried : s.carried? = none)
    (h : s.apply c = (.ok (), c'))
    (hn : c'.kept? i = some n) :
    c.kept? i = some n := by
  obtain ⟨t, ht, htn⟩ := Option.bind_eq_some_iff.mp hn
  obtain ⟨key, hslot⟩ := c'.entityAt?_eq_some_iff.mp (typeAt?_eq_some_iff.mp ht)
  have hsome : (Entity.ofType t).carried? = some n := htn
  rcases (effect_of_ok hc hupdate h).slot_cases hc hslot with ⟨old, hold, rfl | hnew⟩ | ⟨-, hentry⟩
  · have ht : c.typeAt? i = some t :=
      typeAt?_eq_some_iff.mpr (c.entityAt?_eq_some_iff.mpr ⟨key, hold⟩)
    simp [kept?, ht, htn]
  · rw [carried?_of_retouches hcarried hnew] at hsome
    cases hsome
  · rw [carried?_of_mem_entries hcarried hentry] at hsome
    cases hsome

/-- A step changes the entity in one slot at most, and opens slots under vacant names. -/
theorem grows_of_ok
    (hc : c.Coherent)
    (hkeyed : c.Keyed)
    (hs : s.IsKeyed)
    (h : s.apply c = (.ok (), c')) :
    ∃ j, Grows c c' j ∧ (j < c.size → ∃ key old new, c.indexOf? key = some j ∧
      c.entityAt? j = some old ∧ c'.entityAt? j = some new ∧ s.Retouches key old new) := by
  have heffect := effect_of_ok hc hs.isUpdate h
  have hkeyed' := heffect.keyed hs hc hkeyed
  obtain ⟨added, -, hext⟩ := extends_of_ok h
  cases heffect with
  | opens hvacant =>
      refine ⟨c.size, grows_of_extends hc hkeyed hkeyed' hext ?_ ?_, ?_⟩
      · intro i _ hi
        rw [typeAt?, entityAt?_pushAll _ hi, typeAt?]
      · exact fun hlt => absurd hlt (Nat.lt_irrefl _)
      · exact fun hlt => absurd hlt (Nat.lt_irrefl _)
  | @retouches j key old new opened hindex hold hnew hopened =>
      have hentity : ∀ i, i < c.size → ((c.setEntity j new).pushAll opened).entityAt? i =
          if j = i then some new else c.entityAt? i := by
        intro i hi
        rw [entityAt?_pushAll _ (by simpa [Catalog.size] using hi), entityAt?_setEntity]
        split
        · next hji =>
            rw [← hji, hold]
            rfl
        · rfl
      refine ⟨j, grows_of_extends hc hkeyed hkeyed' hext ?_ (fun _ => ⟨key, hindex⟩), fun hj =>
        ⟨key, old, new, hindex, hold, ?_, hnew⟩⟩
      · intro i hij hi
        rw [typeAt?, hentity i hi, if_neg (Ne.symm hij), typeAt?]
      · rw [hentity j hj, if_pos rfl]

/-- A step that leaves a type with the same fixed size is sparing. -/
theorem Sparing.of_fixed
    {key : String} (j : Nat) (n : UInt64)
    (hcarried : s.carried? = none)
    (hnamed : s.IsNamed)
    (hkey : s.resizes? = some key)
    (hindex : c.indexOf? key = some j)
    (hbefore : c.extentAt? j = some (.fixed n))
    (hafter : (s.apply c).2.extentAt? j = some (.fixed n)) :
    s.Sparing c := by
  refine ⟨hcarried, hnamed, ?_⟩
  intro key' j' hkey' hindex' _ _ _ _ m hm
  cases hkey.symm.trans hkey'
  cases hindex.symm.trans hindex'
  rw [(hasSize_iff_of_fixed hbefore).mp hm]
  exact .fixed hafter

/-- A record that gets bases, and a union or record that the step spares, keeps its size. -/
theorem Sparing.hasSize
    {key : String} {old new : Entity} {j i : Nat} {n m : UInt64}
    (hs : s.Sparing c)
    (h : s.apply c = (.ok (), c'))
    (hindex : c.indexOf? key = some j)
    (hold : c.entityAt? j = some old)
    (hnew' : c'.entityAt? j = some new)
    (hnew : s.Retouches key old new)
    (hn : c.kept? i = some n)
    (hcontains : Relation.TransGen c.Contains i j)
    (hm : c.HasSize j m) :
    c'.HasSize j m := by
  have hspared : s.resizes? = some key → c'.HasSize j m := by
    intro hresizes
    have hkeeps := hs.resizes key j hresizes hindex i n hn hcontains m hm
    rwa [h] at hkeeps
  cases hnew with
  | overload f o =>
      obtain ⟨t, ht⟩ := hm.exists_typeAt?
      simp [typeAt?, hold, Entity.type?] at ht
  | @members record scope members t hrecord =>
      exact hspared rfl
  | @bases record bases t hrecord =>
      obtain ⟨header, shape⟩ := t
      cases shape with
      | record key members bases' =>
          have hextent : c.extentAt? j = some (.fixed header.size) := by
            simp [extentAt?, typeAt?, hold, Entity.type?, extentOf]
          rw [(hasSize_iff_of_fixed hextent).mp hm]
          exact .fixed (by simp [extentAt?, typeAt?, hnew', Entity.type?, withBases, extentOf])
      | _ =>
          cases hrecord
  | replace key old e =>
      exact hspared rfl

/-- A sparing step leaves a fresh catalog fresh. -/
theorem fresh_of_ok
    (hc : c.Coherent)
    (hkeyed : c.Keyed)
    (hfresh : c.Fresh)
    (hs : s.Sparing c)
    (hupdate : s.IsUpdate)
    (h : s.apply c = (.ok (), c')) :
    c'.Fresh := by
  intro i n hn'
  have hn := kept?_of_ok hc hupdate hs.carried h hn'
  obtain ⟨j, hgrows, hretouch⟩ := grows_of_ok hc hkeyed (hs.named.isKeyed hupdate) h
  refine hgrows.hasSize (hfresh i n hn) fun hreach m hm => ?_
  obtain ⟨t, ht⟩ := hm.exists_typeAt?
  obtain ⟨key, old, new, hindex, hold, hnew', hnew⟩ := hretouch (lt_size_of_typeAt? ht)
  rcases hreach with rfl | hreach
  · -- what the step has changed itself keeps no size
    have hdropped := carried?_of_retouches hs.carried hnew
    rw [kept?, typeAt?, hnew'] at hn'
    rw [Entity.carried?] at hdropped
    simp [hdropped] at hn'
  · exact hs.hasSize h hindex hold hnew' hnew hn hreach hm

end Step

namespace Catalog

section Runs

variable {c c' : Catalog}

theorem Steady.keyed
    (h : Steady c c')
    (hkeyed : c.Keyed) :
    c'.Keyed := by
  rw [keyed_iff] at hkeyed ⊢
  rintro i ⟨key, e⟩ hslot
  have hkey : c.keys[i]? = some key := by
    rw [← h.sameKeys.keys_eq]
    exact keys_getElem?_eq_some_iff.mpr ⟨_, hslot, rfl⟩
  obtain ⟨slot, hold, rfl⟩ := keys_getElem?_eq_some_iff.mp hkey
  have hname := h.names i
  rw [entityAt?, entityAt?, hslot, hold] at hname
  exact (hkeyed i slot hold).trans (Option.some.inj hname).symm

/-- No union ever contains itself, and every step that succeeds is sparing. -/
def SparingRun :
    Catalog → List Step → Prop
  | c, [] => c.Acyclic
  | c, s :: steps =>
      c.Acyclic ∧ ((s.apply c).1 = .ok () → s.Sparing c) ∧ SparingRun (s.apply c).2 steps

/-- One step, whether it succeeds or fails, and whether it is a query or not. -/
theorem fresh_apply
    {s : Step}
    (hc : c.Coherent)
    (hkeyed : c.Keyed)
    (hfresh : c.Fresh)
    (hacyclic : c.Acyclic)
    (hs : (s.apply c).1 = .ok () → s.Sparing c) :
    (s.apply c).2.Keyed ∧ (s.apply c).2.Fresh := by
  have hupdated : s.IsUpdate → (s.apply c).2.Keyed ∧ (s.apply c).2.Fresh := by
    intro hupdate
    cases hout : (s.apply c).1 with
    | ok =>
        have hsparing := hs hout
        have happly : s.apply c = (.ok (), (s.apply c).2) := Prod.ext hout rfl
        have heffect := Step.effect_of_ok hc hupdate happly
        exact ⟨heffect.keyed (hsparing.named.isKeyed hupdate) hc hkeyed,
          Step.fresh_of_ok hc hkeyed hfresh hsparing hupdate happly⟩
    | error err =>
        have happly : s.apply c = (.error err, (s.apply c).2) := Prod.ext hout rfl
        rw [Step.eq_of_error happly]
        exact ⟨hkeyed, hfresh⟩
  cases s with
  | resolve slot k =>
      exact ⟨(steady_resolveStored c slot k).keyed hkeyed, fresh_resolveStored slot k hfresh⟩
  | measure slot =>
      cases htype : c.typeAt? slot with
      | none =>
          rw [Step.apply, sizeAt_of_none htype]
          exact ⟨hkeyed, hfresh⟩
      | some t =>
          have hanswers := sizeAt_spec hacyclic hfresh ⟨t, htype⟩
          exact ⟨hanswers.steady.keyed hkeyed, hanswers.fresh⟩
  | _ =>
      exact hupdated trivial

/-- A whole run: its last catalog is fresh. -/
theorem SparingRun.fresh
    {steps : List Step}
    (h : SparingRun c steps)
    (hc : c.Coherent)
    (hkeyed : c.Keyed)
    (hfresh : c.Fresh) :
    ((steps.map Action.step).foldl after c).Acyclic ∧
      ((steps.map Action.step).foldl after c).Fresh := by
  induction steps generalizing c with
  | nil =>
      exact ⟨h, hfresh⟩
  | cons s steps ih =>
      obtain ⟨hacyclic, hs, hrest⟩ := h
      obtain ⟨hkeyed', hfresh'⟩ := fresh_apply hc hkeyed hfresh hacyclic hs
      exact ih hrest (Step.coherent_apply s hc) hkeyed' hfresh'

theorem sizeAt_of_kept
    {i : Nat} {n : UInt64}
    (h : c.kept? i = some n) :
    (c.sizeAt i).1 = .ok n := by
  obtain ⟨⟨header, shape⟩, ht, hn⟩ := Option.bind_eq_some_iff.mp h
  cases shape with
  | union members computed =>
      obtain ⟨hzero, rfl⟩ : header.size = 0 ∧ computed = some n := by
        simpa [DataType.carried?] using hn
      simp [sizeAt, sizeWithin, ht, hzero]
  | _ =>
      cases hn

/-- Where no union contains itself, all sizes are answered rightly exactly when every kept size is
right. -/
theorem fresh_iff_sizeAt
    (hacyclic : c.Acyclic) :
    c.Fresh ↔ ∀ i t, c.typeAt? i = some t → ∀ n, (c.sizeAt i).1 = .ok n ↔ c.HasSize i n := by
  constructor
  · intro hfresh i t ht
    exact (sizeAt_spec hacyclic hfresh ⟨t, ht⟩).outcome
  · intro h i n hn
    obtain ⟨t, ht, -⟩ := Option.bind_eq_some_iff.mp hn
    exact (h i t ht n).mp (sizeAt_of_kept hn)

/-- After a run of steps that spare the types in unions with kept sizes, all kept sizes are right
and every size is answered rightly: a union with a recorded size has that size, and another one the
largest of the sizes that the types of its data members have. -/
theorem sizeAt_run
    (steps : List Step)
    (hrun : c = run (steps.map .step))
    (hsparing : SparingRun empty steps) :
    c.Fresh ∧
    (∀ i t, c.typeAt? i = some t → ∀ n, (c.sizeAt i).1 = .ok n ↔ c.HasSize i n) ∧
    ∀ i header members computed, c.typeAt? i = some ⟨header, .union members computed⟩ →
      (header.size ≠ 0 → (c.sizeAt i).1 = .ok header.size) ∧
      (header.size = 0 → ∀ targets sizes, c.dataTargets members = targets.map .ok →
        List.Forall₂ c.HasSize targets sizes → (c.sizeAt i).1 = .ok (sizes.foldl max 0)) := by
  obtain ⟨hacyclic, hfresh⟩ := hsparing.fresh coherent_empty (by simp [Keyed, empty])
    (by simp [Fresh, kept?, typeAt?, entityAt?, empty])
  rw [← run, ← hrun] at hacyclic hfresh
  have hsize := (fresh_iff_sizeAt hacyclic).mp hfresh
  refine ⟨hfresh, hsize, ?_⟩
  intro i header members computed ht
  refine ⟨fun hrecorded => ?_, fun hzero targets sizes htargets hsizes => ?_⟩
  · exact (hsize i _ ht _).mpr (.fixed (by simp [extentAt?, ht, extentOf, hrecorded]))
  · have hextent : c.extentAt? i = some (.largest (c.dataTargets members)) := by
      simp [extentAt?, ht, extentOf, hzero]
    exact (hsize i _ ht _).mpr
      ((hasSize_iff_of_largest hextent).mpr ⟨targets, sizes, htargets, hsizes, rfl⟩)

end Runs

section Nesting

variable {c : Catalog}

/-- The data members' types of a union without a recorded size. -/
def targetsAt
    (c : Catalog) (i : Nat) :
    List (Except CatalogError Nat) :=
  match c.extentAt? i with
  | some (.largest targets) => targets
  | _ => []

/-- Whether unions contain types in earlier slots only. -/
def descends
    (c : Catalog) :
    Bool :=
  (List.range c.size).all fun i => (c.targetsAt i).all fun target =>
    match target with
    | .ok j => decide (j < i)
    | .error _ => true

theorem acyclic_of_descends
    (h : c.descends = true) :
    c.Acyclic := by
  refine acyclic_of_descending fun i j hij => ?_
  have hi := hij.lt_size
  obtain ⟨targets, hextent, hj⟩ := hij
  have hall := List.all_eq_true.mp h i (List.mem_range.mpr hi)
  rw [targetsAt, hextent] at hall
  simpa using List.all_eq_true.mp hall (.ok j) hj

/-- The slots of unions with a kept size. -/
def keptSlots
    (c : Catalog) :
    List Nat :=
  (List.range c.size).filter fun i => (c.kept? i).isSome

theorem mem_keptSlots
    {i : Nat} {n : UInt64}
    (h : c.kept? i = some n) :
    i ∈ c.keptSlots := by
  obtain ⟨t, ht, -⟩ := Option.bind_eq_some_iff.mp h
  simp [keptSlots, lt_size_of_typeAt? ht, h]

theorem SparingRun.cons_of_unkept
    {s : Step} {steps : List Step}
    (hdescends : c.descends = true)
    (hkept : c.keptSlots = [])
    (hcarried : s.carried? = none)
    (hnamed : s.IsNamed)
    (hrest : SparingRun (s.apply c).2 steps) :
    SparingRun c (s :: steps) := by
  refine ⟨acyclic_of_descends hdescends, fun _ => ⟨hcarried, hnamed, ?_⟩, hrest⟩
  intro key j _ _ i n hn
  have hmem := mem_keptSlots hn
  rw [hkept] at hmem
  cases hmem

/-- A union `U` of a union `V` of an `int`. Asking for the size of `U` leaves a computed size in
both. -/
def nestedSteps :
    List Step :=
  [.register (.ofType (.fundamental "int" 4 .int)),
   .register (.ofType (.fundamental "double" 8 .double)),
   .register (.ofType (.union "V" "" 0)),
   .register (.ofType (.union "U" "" 0)),
   .setMembersIn "V" "V" [.declare "i" (.named "int") .int .pub 0],
   .setMembersIn "U" "U" [.declare "v" (.named "V") .record .pub 0],
   .measure 3]

/-- Another type of the same size takes the place of `int`. -/
def sparedSteps :
    List Step :=
  nestedSteps ++ [.put "int" (.ofType (.fundamental "int" 4 .long))]

theorem sizeAt_sparedRun :
    SparingRun empty sparedSteps ∧ (run (sparedSteps.map .step)).keptSlots = [2, 3] ∧
      ((run (sparedSteps.map .step)).sizeAt 3).1 = .ok 4 := by
  have hsparing : SparingRun empty sparedSteps := by
    unfold sparedSteps nestedSteps
    iterate 7
      refine .cons_of_unkept (by decide +kernel) (by decide +kernel) rfl trivial ?_
    exact ⟨acyclic_of_descends (by decide +kernel),
      fun _ => .of_fixed 0 4 rfl rfl rfl (by decide +kernel) (by decide +kernel)
        (by decide +kernel),
      acyclic_of_descends (by decide +kernel)⟩
  have hint : (run (sparedSteps.map .step)).HasSize 0 4 := .fixed (by decide +kernel)
  have hV : (run (sparedSteps.map .step)).extentAt? 2 = some (.largest [.ok 0]) := by
    decide +kernel
  have hU : (run (sparedSteps.map .step)).typeAt? 3 = some
      ⟨(DataType.union "U" "" 0).header,
        .union [(Member.declare "v" ⟨"V", some 2⟩ .record .pub 0).inScope "U"] (some 4)⟩ := by
    decide +kernel
  refine ⟨hsparing, by decide +kernel, ?_⟩
  exact ((sizeAt_run sparedSteps rfl hsparing).2.2 3 _ _ _ hU).2 rfl [2] [4] (by decide +kernel)
    (.cons ((hasSize_iff_of_largest hV).mpr ⟨[0], [4], rfl, .cons hint .nil, rfl⟩) .nil)

/-- The union `V` gets a `double` in place of its `int`. -/
def resizedSteps :
    List Step :=
  nestedSteps ++ [.setMembersIn "V" "V" [.declare "d" (.named "double") .double .pub 0]]

/-- A step that is not sparing: no union ever contains itself and the only data member of `U` has a
type of eight bytes, but the size of `U` is answered as four. -/
theorem sizeAt_resizedRun :
    (∀ k ≤ 8, (run ((resizedSteps.take k).map .step)).Acyclic) ∧
      (run (resizedSteps.map .step)).HasSize 3 8 ∧
      ((run (resizedSteps.map .step)).sizeAt 2).1 = .ok 8 ∧
      ((run (resizedSteps.map .step)).sizeAt 3).1 = .ok 4 := by
  have hdescends : ∀ k ≤ 8, (run ((resizedSteps.take k).map .step)).descends = true := by
    decide +kernel
  have hdouble : (run (resizedSteps.map .step)).HasSize 1 8 := .fixed (by decide +kernel)
  have hV : (run (resizedSteps.map .step)).extentAt? 2 = some (.largest [.ok 1]) := by
    decide +kernel
  have hU : (run (resizedSteps.map .step)).extentAt? 3 = some (.largest [.ok 2]) := by
    decide +kernel
  refine ⟨fun k hk => acyclic_of_descends (hdescends k hk), ?_, by decide +kernel,
    by decide +kernel⟩
  exact (hasSize_iff_of_largest hU).mpr ⟨[2], [8], rfl,
    .cons ((hasSize_iff_of_largest hV).mpr ⟨[1], [8], rfl, .cons hdouble .nil, rfl⟩) .nil, rfl⟩

end Nesting

end Catalog
end TypeCatalog
