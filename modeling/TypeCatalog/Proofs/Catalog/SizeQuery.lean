import TypeCatalog.Proofs.Catalog.Extent

/-!
# What a query of a size answers and leaves behind

**Rule.** A query resolves references, which leaves memos, and computes sizes, which it keeps in the
unions. Nothing else changes.

**Results.**
* `Steady.hasSize_iff`: after such changes every type has the size that it had.
* `largest_spec`: the loop over the data members of a union finds the largest size, and keeps only
  right sizes on its way.
* `sizeAt_spec`: in a fresh catalog in which no union contains itself, a query answers the size of
  the type, and the catalog stays fresh.
-/

namespace TypeCatalog
namespace Catalog

section Steadiness

/-- What a query leaves as it is in a type: the header and, for a union, which members are data
members and where their types resolve to. -/
def outline
    (c : Catalog) :
    DataType → TypeHeader × Option (List (Bool × Except CatalogError Nat))
  | ⟨header, .union members _⟩ =>
      (header, some (members.map fun m => (m.isData, (c.resolve m.type).1)))
  | ⟨header, _⟩ => (header, none)

/-- The second catalog is the first one with other memos and other computed sizes. -/
structure Steady
    (c c' : Catalog) :
    Prop where
  sameKeys : SameKeys c c'
  names : ∀ i, (c'.entityAt? i).map Entity.qualified = (c.entityAt? i).map Entity.qualified
  outlines : ∀ i, (c'.typeAt? i).map c'.outline = (c.typeAt? i).map c.outline

variable {c c' c'' : Catalog}

@[simp] theorem fst_outline
    (c : Catalog) (t : DataType) :
    (c.outline t).1 = t.header := by
  unfold outline
  split <;> rfl

theorem extentOf_congr
    {t t' : DataType}
    (h : c'.outline t' = c.outline t) :
    c'.extentOf t' = c.extentOf t := by
  have hread : ∀ (c : Catalog) (t : DataType), c.extentOf t =
      match c.outline t with
      | (header, none) => .fixed header.size
      | (header, some members) =>
          if header.size = 0 then .largest ((members.filter (·.1)).map (·.2))
          else .fixed header.size := by
    rintro c ⟨header, shape⟩
    cases shape with
    | union members computed =>
        simp [extentOf, outline, dataTargets, List.filter_map, Function.comp_def]
    | _ =>
        rfl
  rw [hread c' t', h, ← hread c t]

theorem resolve_congr
    (hindex : ∀ name, c'.indexOf? name = c.indexOf? name)
    (hnames : ∀ i, (c'.typeAt? i).map (·.header.qualified) =
      (c.typeAt? i).map (·.header.qualified)) (r : TypeRef) :
    (c'.resolve r).1 = (c.resolve r).1 := by
  have htyped : ∀ i, (∃ t, c'.typeAt? i = some t) ↔ ∃ t, c.typeAt? i = some t := by
    intro i
    rw [← Option.isSome_iff_exists, ← Option.isSome_iff_exists]
    have hname := congrArg Option.isSome (hnames i)
    simpa using hname
  have hmemo : c'.memoized? r = c.memoized? r := by
    refine Option.ext fun i => ?_
    have hname : (∃ t, c'.typeAt? i = some t ∧ t.header.qualified = r.name) ↔
        ∃ t, c.typeAt? i = some t ∧ t.header.qualified = r.name := by
      rw [← Option.map_eq_some_iff, hnames i, Option.map_eq_some_iff]
    rw [memoized?_eq_some_iff, memoized?_eq_some_iff, hname]
  refine resolve_eq_of_ok_iff rfl fun i => ?_
  rw [resolve_eq_ok_cases, resolve_eq_ok_cases, hmemo, hindex, htyped]

/-- A reference with the memo of its slot resolves as before. -/
theorem resolve_resolve
    (c : Catalog) (r : TypeRef) :
    (c.resolve (c.resolve r).2).1 = (c.resolve r).1 := by
  have hback : (c.resolve r).2 = r → (c.resolve (c.resolve r).2).1 = (c.resolve r).1 := by
    intro hsame
    rw [hsame]
  cases hmemo : c.memoized? r with
  | some i =>
      exact hback (by simp [resolve, hmemo])
  | none =>
      cases hindex : c.indexOf? r.name with
      | none =>
          exact hback (by simp [resolve, hmemo, hindex])
      | some i =>
          cases htype : c.typeAt? i with
          | none =>
              exact hback (by simp [resolve, hmemo, hindex, htype])
          | some t =>
              have hres : c.resolve r = (.ok i, { r with memo := some i }) := by
                simp [resolve, hmemo, hindex, htype]
              rw [hres]
              by_cases hname : t.header.qualified = r.name
              · exact resolve_eq_ok_cases.mpr
                  (.inl (memoized?_eq_some_iff.mpr ⟨rfl, t, htype, hname⟩))
              · exact resolve_eq_ok_cases.mpr
                  (.inr ⟨by simp [memoized?, htype, hname], hindex, t, htype⟩)

theorem typeAt?_setEntity
    {i : Nat} {e : Entity}
    (he : c.entityAt? i = some e) (e' : Entity) (j : Nat) :
    (c.setEntity i e').typeAt? j = if i = j then e'.type? else c.typeAt? j := by
  rw [typeAt?, entityAt?_setEntity]
  by_cases hij : i = j
  · subst hij
    simp [he]
  · simp [hij, typeAt?]

namespace Steady

theorem refl
    (c : Catalog) :
    Steady c c :=
  ⟨.refl c, fun _ => rfl, fun _ => rfl⟩

theorem trans
    (h : Steady c c')
    (h' : Steady c' c'') :
    Steady c c'' :=
  ⟨h.sameKeys.trans h'.sameKeys, fun i => (h'.names i).trans (h.names i),
    fun i => (h'.outlines i).trans (h.outlines i)⟩

theorem extentAt?_eq
    (h : Steady c c') (i : Nat) :
    c'.extentAt? i = c.extentAt? i := by
  have houtline := h.outlines i
  rw [extentAt?, extentAt?]
  cases ht' : c'.typeAt? i with
  | none =>
      cases ht : c.typeAt? i with
      | none =>
          rfl
      | some t =>
          simp [ht, ht'] at houtline
  | some t' =>
      cases ht : c.typeAt? i with
      | none =>
          simp [ht, ht'] at houtline
      | some t =>
          rw [ht, ht'] at houtline
          simp [extentOf_congr (Option.some.inj houtline)]

theorem setEntity
    {i : Nat} {e e' : Entity}
    (he : c.entityAt? i = some e)
    (hname : e'.qualified = e.qualified)
    (houtline : e'.type?.map c.outline = e.type?.map c.outline) :
    Steady c (c.setEntity i e') := by
  have htypes := typeAt?_setEntity he e'
  have htype : c.typeAt? i = e.type? := by
    simp [typeAt?, he]
  have hheader : e'.type?.map (·.header.qualified) = e.type?.map (·.header.qualified) := by
    have hfst := congrArg (Option.map fun o => o.1.qualified) houtline
    simpa [Function.comp_def] using hfst
  have hresolve : ∀ r, ((c.setEntity i e').resolve r).1 = (c.resolve r).1 := by
    refine resolve_congr (fun _ => rfl) fun j => ?_
    rw [htypes]
    split
    · next hij =>
        rw [← hij, htype, hheader]
    · rfl
  have hsame : (c.setEntity i e').outline = c.outline := by
    funext t
    obtain ⟨header, shape⟩ := t
    cases shape <;> simp [outline, hresolve]
  refine ⟨.setEntity c i e', fun j => ?_, fun j => ?_⟩
  · rw [entityAt?_setEntity]
    by_cases hij : i = j
    · subst hij
      simp [he, hname]
    · simp [hij]
  · rw [htypes, hsame]
    split
    · next hij =>
        rw [← hij, htype, houtline]
    · rfl

end Steady

theorem HasSize.congr
    {i : Nat} {n : UInt64}
    (h : ∀ i, c'.extentAt? i = c.extentAt? i)
    (hn : c.HasSize i n) :
    c'.HasSize i n := by
  induction hn with
  | fixed hextent =>
      exact .fixed ((h _).trans hextent)
  | largest hextent _ ih =>
      exact .largest ((h _).trans hextent) ih

theorem Steady.hasSize_iff
    (h : Steady c c') {i : Nat} {n : UInt64} :
    c'.HasSize i n ↔ c.HasSize i n :=
  ⟨.congr fun i => (h.extentAt?_eq i).symm, .congr h.extentAt?_eq⟩

theorem Steady.largestOf_iff
    (h : Steady c c') {outcomes : List (Except CatalogError Nat)} {best n : UInt64} :
    c'.LargestOf outcomes best n ↔ c.LargestOf outcomes best n := by
  have hsame : c'.HasSize = c.HasSize := by
    funext i n
    exact propext h.hasSize_iff
  rw [LargestOf, LargestOf, hsame]

theorem Steady.contains_iff
    (h : Steady c c') {i j : Nat} :
    c'.Contains i j ↔ c.Contains i j := by
  rw [Contains, Contains, h.extentAt?_eq]

theorem Steady.within_iff
    (h : Steady c c') {depth i : Nat} :
    c'.Within depth i ↔ c.Within depth i := by
  induction depth generalizing i with
  | zero =>
      rfl
  | succ depth ih =>
      rw [Within, Within]
      simp only [h.contains_iff, ih]

end Steadiness

section Queries

variable {c c' : Catalog}

theorem qualified_withRefs
    (e : Entity) (rs : List TypeRef) :
    (e.withRefs rs).qualified = e.qualified := by
  cases e <;> rfl

/-- A member gets a reference that resolves as its own does. -/
theorem map_assignMembers
    {members : List Member} {k : Nat} {m : Member} {r : TypeRef}
    (hm : members[k]? = some m)
    (hr : (c.resolve r).1 = (c.resolve m.type).1) :
    ((TypeShape.assignMembers members ((members.map (·.type)).set k r)).map fun m =>
      (m.isData, (c.resolve m.type).1)) =
        members.map fun m => (m.isData, (c.resolve m.type).1) := by
  have hdata : ∀ (m : Member) (r : TypeRef), { m with type := r }.isData = m.isData :=
    fun _ _ => rfl
  have hsame : ∀ members : List Member,
      TypeShape.assignMembers members (members.map (·.type)) = members := by
    intro members
    induction members with
    | nil =>
        rfl
    | cons m members ih =>
        exact congrArg (m :: ·) ih
  induction members generalizing k with
  | nil =>
      cases hm
  | cons m' members ih =>
      cases k with
      | zero =>
          cases hm
          simp only [TypeShape.assignMembers] at hsame ⊢
          simp [hsame, hdata, hr]
      | succ k =>
          have htail := ih hm
          simp only [TypeShape.assignMembers] at htail ⊢
          simp [htail, hdata]

theorem outline_withRefs
    {t : DataType} {k : Nat} {r : TypeRef}
    (hr : t.shape.refs[k]? = some r) :
    c.outline { t with shape := t.shape.withRefs (t.shape.refs.set k (c.resolve r).2) } =
      c.outline t := by
  obtain ⟨header, shape⟩ := t
  cases shape with
  | union members computed =>
      obtain ⟨m, hm, rfl⟩ : ∃ m, members[k]? = some m ∧ m.type = r := by
        simpa [TypeShape.refs] using hr
      simp only [outline, TypeShape.refs, TypeShape.withRefs]
      rw [map_assignMembers hm (c.resolve_resolve m.type)]
  | _ =>
      rfl

/-- Storing the memo of a reference that a slot holds changes nothing else. -/
theorem steady_setRef
    {slot k : Nat} {e : Entity} {r : TypeRef}
    (he : c.entityAt? slot = some e)
    (hr : e.refs[k]? = some r) :
    Steady c (c.setRef slot k (c.resolve r).2) := by
  rw [setRef, he]
  refine .setEntity he (qualified_withRefs e _) ?_
  cases e with
  | ofType t =>
      exact congrArg some (outline_withRefs hr)
  | _ =>
      rfl

theorem kept?_setRef
    (c : Catalog) (slot k : Nat) (r : TypeRef) (i : Nat) :
    (c.setRef slot k r).kept? i = c.kept? i := by
  unfold setRef
  split
  · next e he =>
      rw [kept?, kept?, typeAt?_setEntity he]
      by_cases hi : slot = i
      · subst hi
        rw [if_pos rfl, typeAt?, he]
        cases e with
        | ofType t =>
            obtain ⟨header, shape⟩ := t
            cases shape <;> rfl
        | _ =>
            rfl
      · rw [if_neg hi]
  · rfl

theorem Fresh.of_steady
    (hc : c.Fresh)
    (h : Steady c c')
    (hkept : ∀ i n, c'.kept? i = some n → c.kept? i = some n ∨ c.HasSize i n) :
    c'.Fresh := by
  intro i n hn
  rw [h.hasSize_iff]
  rcases hkept i n hn with hn | hn
  · exact hc i n hn
  · exact hn

theorem steady_resolveStored
    (c : Catalog) (slot k : Nat) :
    Steady c (c.resolveStored slot k).2 := by
  unfold resolveStored
  split
  · exact .refl c
  · next r hr =>
      obtain ⟨e, he, hr⟩ := Option.bind_eq_some_iff.mp hr
      exact steady_setRef he hr

theorem fresh_resolveStored
    (slot k : Nat)
    (hc : c.Fresh) :
    (c.resolveStored slot k).2.Fresh := by
  refine hc.of_steady (steady_resolveStored c slot k) ?_
  intro i n hn
  unfold resolveStored at hn
  split at hn
  · exact .inl hn
  · rw [kept?_setRef] at hn
    exact .inl hn

/-- A union keeps its size. -/
theorem steady_setComputed
    (c : Catalog) (slot : Nat) (n : UInt64) :
    Steady c (c.setComputed slot n) := by
  unfold setComputed
  split
  · next header members computed ht =>
      exact .setEntity (typeAt?_eq_some_iff.mp ht) rfl rfl
  · exact .refl c

theorem fresh_setComputed
    {slot : Nat} {n : UInt64}
    (hc : c.Fresh)
    (hn : c.HasSize slot n) :
    (c.setComputed slot n).Fresh := by
  refine hc.of_steady (steady_setComputed c slot n) ?_
  intro i m hm
  unfold setComputed at hm
  split at hm
  · next header members computed ht =>
      rw [kept?, typeAt?_setEntity (typeAt?_eq_some_iff.mp ht)] at hm
      by_cases hi : slot = i
      · subst hi
        obtain ⟨-, rfl⟩ : header.size = 0 ∧ n = m := by
          simpa [Entity.type?, DataType.carried?] using hm
        exact .inr hn
      · rw [if_neg hi] at hm
        exact .inl hm
  · exact .inl hm

/-- What the member at a position of a union resolves to. -/
def targetAt?
    (c : Catalog) (slot k : Nat) :
    Option (Except CatalogError Nat) :=
  (((c.typeAt? slot).map c.outline).bind Prod.snd).bind fun members => members[k]?.map Prod.snd

theorem Steady.targetAt?_eq
    (h : Steady c c') (slot k : Nat) :
    c'.targetAt? slot k = c.targetAt? slot k := by
  rw [targetAt?, targetAt?, h.outlines]

theorem targetAt?_of_union
    {slot k : Nat} {header : TypeHeader} {members : List Member} {computed : Option UInt64}
    (ht : c.typeAt? slot = some ⟨header, .union members computed⟩) :
    c.targetAt? slot k = members[k]?.map fun m => (c.resolve m.type).1 := by
  simp [targetAt?, ht, outline, Function.comp_def]

theorem exists_union_of_targetAt?
    {slot k : Nat} {x : Except CatalogError Nat}
    (h : c.targetAt? slot k = some x) :
    ∃ header members computed m, c.typeAt? slot = some ⟨header, .union members computed⟩ ∧
      members[k]? = some m ∧ (c.resolve m.type).1 = x := by
  cases ht : c.typeAt? slot with
  | none =>
      simp [targetAt?, ht] at h
  | some t =>
      obtain ⟨header, shape⟩ := t
      cases shape with
      | union members computed =>
          rw [targetAt?_of_union ht, Option.map_eq_some_iff] at h
          obtain ⟨m, hm, hx⟩ := h
          exact ⟨header, members, computed, m, rfl, hm, hx⟩
      | _ =>
          simp [targetAt?, ht, outline] at h

theorem fst_resolveStored
    {slot k : Nat} {x : Except CatalogError Nat}
    (h : c.targetAt? slot k = some x) :
    (c.resolveStored slot k).1 = x := by
  obtain ⟨header, members, computed, m, ht, hm, rfl⟩ := exists_union_of_targetAt? h
  have hr : ((c.entityAt? slot).bind fun e => e.refs[k]?) = some m.type := by
    simp [typeAt?_eq_some_iff.mp ht, Entity.refs, TypeShape.refs, hm]
  rw [resolveStored, hr]

theorem exists_typeAt?_of_targetAt?
    {slot k i : Nat}
    (h : c.targetAt? slot k = some (.ok i)) :
    ∃ t, c.typeAt? i = some t := by
  obtain ⟨header, members, computed, m, -, -, hres⟩ := exists_union_of_targetAt? h
  exact exists_typeAt?_of_resolve hres

/-- A query has answered rightly, and has left memos and right computed sizes only. -/
structure Answers
    (c : Catalog) (result : Except CatalogError UInt64 × Catalog) (right : UInt64 → Prop) :
    Prop where
  steady : Steady c result.2
  fresh : result.2.Fresh
  outcome : ∀ n, result.1 = .ok n ↔ right n

/-- The loop over the data members finds the largest size, if each type is sized rightly. -/
theorem largest_spec
    {depth slot : Nat} {ks : List Nat} (best : UInt64)
    (hsize : ∀ (c : Catalog) (i : Nat), c.Within depth i → c.Fresh →
      (∃ t, c.typeAt? i = some t) → Answers c (sizeWithin depth c i) (c.HasSize i))
    (hc : c.Fresh)
    (htargets : ∀ k ∈ ks, ∃ x, c.targetAt? slot k = some x)
    (hwithin : ∀ k ∈ ks, ∀ i, c.targetAt? slot k = some (.ok i) → c.Within depth i) :
    Answers c (largest (sizeWithin depth) slot ks best c)
      (c.LargestOf (ks.filterMap (c.targetAt? slot)) best) := by
  induction ks generalizing best c with
  | nil =>
      refine ⟨.refl c, hc, fun n => ?_⟩
      rw [List.filterMap_nil, largestOf_nil, largest]
      simp [eq_comm]
  | cons k ks ih =>
      obtain ⟨x, hx⟩ := htargets k (by simp)
      have hstored := fst_resolveStored hx
      have hsteady := steady_resolveStored c slot k
      have hfresh := fresh_resolveStored slot k hc
      rw [List.filterMap_cons_some hx, largest]
      cases hres : c.resolveStored slot k with
      | mk outcome d =>
          rw [hres] at hstored hsteady hfresh
          cases hstored
          cases outcome with
          | error e =>
              exact ⟨hsteady, hfresh, fun n => by simp [not_largestOf_error]⟩
          | ok i =>
              have hi : d.Within depth i := hsteady.within_iff.mpr (hwithin k (by simp) i hx)
              have htype : ∃ t, d.typeAt? i = some t :=
                exists_typeAt?_of_targetAt? ((hsteady.targetAt?_eq slot k).trans hx)
              have hsized := hsize d i hi hfresh htype
              dsimp only
              cases hm : sizeWithin depth d i with
              | mk outcome d' =>
                  rw [hm] at hsized
                  have hboth := hsteady.trans hsized.steady
                  cases outcome with
                  | error e =>
                      refine ⟨hboth, hsized.fresh, fun n => ?_⟩
                      rw [largestOf_ok]
                      constructor
                      · intro h
                        cases h
                      · rintro ⟨m, hm, -⟩
                        cases (hsized.outcome m).mpr (hsteady.hasSize_iff.mpr hm)
                  | ok m =>
                      have hm : c.HasSize i m :=
                        hsteady.hasSize_iff.mp ((hsized.outcome m).mp rfl)
                      have htarget : d'.targetAt? slot = c.targetAt? slot :=
                        funext (hboth.targetAt?_eq slot)
                      have hrest := ih (max best m) hsized.fresh
                        (fun k hk => htarget ▸ htargets k (List.mem_cons_of_mem _ hk))
                        (fun k hk j hj => hboth.within_iff.mpr
                          (hwithin k (List.mem_cons_of_mem _ hk) j (htarget ▸ hj)))
                      refine ⟨hboth.trans hrest.steady, hrest.fresh, fun n => ?_⟩
                      rw [hrest.outcome, htarget, hboth.largestOf_iff, largestOf_ok]
                      constructor
                      · exact fun h => ⟨m, hm, h⟩
                      · rintro ⟨m', hm', h⟩
                        rwa [hm.unique hm']

/-- The data members are at the data positions. -/
theorem filterMap_dataPositions
    (members : List Member) :
    (dataPositions members).filterMap (members[·]?) = members.filter (·.isData) := by
  have hfound : ∀ p ∈ members.zipIdx.filter fun p => p.1.isData, members[p.2]? = some p.1 := by
    intro p hp
    exact List.mem_zipIdx_iff_getElem?.mp (List.mem_of_mem_filter hp)
  calc (dataPositions members).filterMap (members[·]?)
      = (members.zipIdx.filter fun p => p.1.isData).filterMap fun p => members[p.2]? := by
        rw [dataPositions, List.filterMap_map]
        rfl
    _ = (members.zipIdx.filter fun p => p.1.isData).filterMap fun p => some p.1 :=
        List.filterMap_congr hfound
    _ = (members.zipIdx.map Prod.fst).filter (·.isData) := by
        rw [List.filter_map, ← List.filterMap_eq_map]
        rfl
    _ = members.filter (·.isData) := by
        rw [List.zipIdx_map_fst]

theorem filterMap_targetAt?
    {i : Nat} {header : TypeHeader} {members : List Member} {computed : Option UInt64}
    (ht : c.typeAt? i = some ⟨header, .union members computed⟩) :
    (dataPositions members).filterMap (c.targetAt? i) = c.dataTargets members := by
  rw [dataTargets, ← filterMap_dataPositions, List.map_filterMap]
  exact List.filterMap_congr fun k _ => targetAt?_of_union ht

/-- A union that keeps no size is sized by the loop over its data members. -/
theorem answers_of_unkept
    {depth i : Nat} {header : TypeHeader} {members : List Member}
    (hsize : ∀ (c : Catalog) (i : Nat), c.Within depth i → c.Fresh →
      (∃ t, c.typeAt? i = some t) → Answers c (sizeWithin depth c i) (c.HasSize i))
    (hi : c.Within (depth + 1) i)
    (hc : c.Fresh)
    (ht : c.typeAt? i = some ⟨header, .union members none⟩)
    (hzero : header.size = 0) :
    Answers c (sizeWithin (depth + 1) c i) (c.HasSize i) := by
  have hextent : c.extentAt? i = some (.largest (c.dataTargets members)) := by
    simp [extentAt?, ht, extentOf, hzero]
  have hposition : ∀ k ∈ dataPositions members, ∃ x, c.targetAt? i k = some x := by
    intro k hk
    obtain ⟨p, hp, rfl⟩ := List.mem_map.mp hk
    rw [targetAt?_of_union ht, List.mem_zipIdx_iff_getElem?.mp (List.mem_of_mem_filter hp)]
    exact ⟨_, rfl⟩
  have hbelow : ∀ k ∈ dataPositions members, ∀ j,
      c.targetAt? i k = some (.ok j) → c.Within depth j := by
    intro k hk j hj
    refine hi j ⟨_, hextent, ?_⟩
    rw [← filterMap_targetAt? ht]
    exact List.mem_filterMap.mpr ⟨k, hk, hj⟩
  have hloop := largest_spec 0 hsize hc hposition hbelow
  have hright : c.HasSize i = c.LargestOf (c.dataTargets members) 0 := by
    funext n
    exact propext (hasSize_iff_of_largest hextent)
  rw [filterMap_targetAt? ht, ← hright] at hloop
  cases hl : largest (sizeWithin depth) i (dataPositions members) 0 c with
  | mk outcome d =>
      rw [hl] at hloop
      cases outcome with
      | error e =>
          have heq : sizeWithin (depth + 1) c i = (.error e, d) := by
            simp [sizeWithin, ht, hzero, hl]
          rwa [heq]
      | ok n =>
          have heq : sizeWithin (depth + 1) c i = (.ok n, d.setComputed i n) := by
            simp [sizeWithin, ht, hzero, hl]
          have hn : d.HasSize i n := hloop.steady.hasSize_iff.mpr ((hloop.outcome n).mp rfl)
          rw [heq]
          exact ⟨hloop.steady.trans (steady_setComputed d i n), fresh_setComputed hloop.fresh hn,
            hloop.outcome⟩

/-- In a fresh catalog a query answers the size of a type, if it may go deep enough. -/
theorem sizeWithin_spec
    {depth i : Nat}
    (hi : c.Within depth i)
    (hc : c.Fresh)
    (htype : ∃ t, c.typeAt? i = some t) :
    Answers c (sizeWithin depth c i) (c.HasSize i) := by
  induction depth generalizing c i with
  | zero =>
      cases hi
  | succ depth ih =>
      obtain ⟨⟨header, shape⟩, ht⟩ := htype
      have hfixed : c.extentAt? i = some (.fixed header.size) →
          sizeWithin (depth + 1) c i = (.ok header.size, c) →
          Answers c (sizeWithin (depth + 1) c i) (c.HasSize i) := by
        intro hextent heq
        rw [heq]
        refine ⟨.refl c, hc, fun n => ?_⟩
        rw [hasSize_iff_of_fixed hextent]
        simp [eq_comm]
      cases shape with
      | union members computed =>
          by_cases hzero : header.size = 0
          · cases computed with
            | some m =>
                have hm : c.HasSize i m := hc i m (by simp [kept?, ht, DataType.carried?, hzero])
                have heq : sizeWithin (depth + 1) c i = (.ok m, c) := by
                  simp [sizeWithin, ht, hzero]
                rw [heq]
                refine ⟨.refl c, hc, fun n => ?_⟩
                constructor
                · rintro ⟨⟩
                  exact hm
                · intro hn
                  rw [hm.unique hn]
            | none =>
                exact answers_of_unkept (fun d j hj hd ht => ih hj hd ht) hi hc ht hzero
          · exact hfixed (by simp [extentAt?, ht, extentOf, hzero])
              (by simp [sizeWithin, ht, hzero])
      | _ =>
          exact hfixed (by simp [extentAt?, ht, extentOf]) (by simp [sizeWithin, ht])

/-- In a fresh catalog in which no union contains itself, every query of a size is answered
rightly, and the catalog stays fresh. -/
theorem sizeAt_spec
    {i : Nat}
    (hacyclic : c.Acyclic)
    (hc : c.Fresh)
    (htype : ∃ t, c.typeAt? i = some t) :
    Answers c (c.sizeAt i) (c.HasSize i) :=
  sizeWithin_spec (hacyclic.within i) hc htype

theorem sizeAt_of_none
    {i : Nat}
    (h : c.typeAt? i = none) :
    c.sizeAt i = (.ok 0, c) := by
  simp [sizeAt, sizeWithin, h]

end Queries

end Catalog
end TypeCatalog
