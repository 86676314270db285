import TypeCatalog.Proofs.Catalog.Memo
import TypeCatalog.Proofs.Registration.Given

/-!
# Recorded kinds and sizes, and those of the types that are found

**Input.** A document whose registration into the empty catalog succeeds.

**Rule.** Kinds and sizes are recorded by ids, while a reference finds a type by its spelling. The
two agree where the ids of the spelling do: the type that is found and what is recorded for it come
from ids of one spelling. A union without a size is as large as its members make it, which no
reference to it records.

**Results.**
* `given_registerDocument`: a kind or size in the catalog is one that the document gives to the
  spelling it is recorded for.
* `kind_query_registerDocument`: where the document gives a spelling one kind, references of that
  spelling report the kind that is recorded for them.
* `size_query_registerDocument`: where the document gives a spelling one size, the recorded size is
  that of the type that is found, which a reference reports unless the type is a union without a
  size.
* `kind_query_skippedDocument_ne`, `size_query_unsizedDocument_ne`: a document whose recorded kind,
  and one whose recorded size, differs from what the reference reports.
-/

namespace TypeCatalog

namespace Catalog

open Source Request

section Resolution

variable {c : Catalog}

/-- A reference resolves to a slot of its name. -/
theorem exists_slot_of_resolveType
    {r : TypeRef} {t : DataType}
    (hc : c.Coherent)
    (hkeyed : c.Keyed)
    (h : (c.resolveType r).1 = .ok t) :
    ∃ i, (c.resolve r).1 = .ok i ∧ c.slots[i]? = some ⟨r.name, .ofType t⟩ := by
  cases hres : (c.resolve r).1 with
  | error err =>
      rw [resolveType_of_error hres] at h
      cases h
  | ok i =>
      refine ⟨i, rfl, ?_⟩
      obtain ⟨u, hu⟩ := exists_typeAt?_of_resolve hres
      rw [resolveType_of_ok hres hu] at h
      cases h
      have hentity := typeAt?_eq_some_iff.mp hu
      rcases resolve_eq_ok_cases.mp hres with hmemo | ⟨-, hindex, -⟩
      · -- the name of the type that a memo leads to is the key of its slot
        obtain ⟨-, u, hu', hname⟩ := memoized?_eq_some_iff.mp hmemo
        rw [hu] at hu'
        cases hu'
        obtain ⟨key, hslot⟩ := c.entityAt?_eq_some_iff.mp hentity
        have hkey : key = t.header.qualified := keyed_iff.mp hkeyed i _ hslot
        rw [hslot, hkey, hname]
      · exact hc.slot_of_indexOf? hindex hentity

/-- A type that is no union, or one with a size, is as large as it states. -/
theorem sizeAt_of_stated
    {i : Nat} {t : DataType}
    (ht : c.typeAt? i = some t)
    (hstated : t.isUnion = true → t.header.size ≠ 0) :
    (c.sizeAt i).1 = .ok t.header.size := by
  obtain ⟨header, shape⟩ := t
  cases shape with
  | union members computed =>
      have hsize : header.size ≠ 0 := hstated rfl
      simp [sizeAt, sizeWithin, ht, hsize]
  | _ =>
      simp [sizeAt, sizeWithin, ht]

end Resolution

section Documents

variable {d : Document} {n : Template.Normalizer} {o : RegistrationOptions} {stats : Statistics}
variable {c : Catalog}

/-- A kind or size that the registration of a document records is one that the document gives. -/
theorem given_registerDocument
    (h : empty.registerDocument d n o = (.ok stats, c))
    {i : Nat} {key : String} {t : DataType}
    (hslot : c.slots[i]? = some ⟨key, .ofType t⟩) :
    (Source.ofDocument (d.repair n) n o).Given key t := by
  obtain ⟨a, state, hrun, rfl⟩ := registerDocument_eq_ok h
  obtain ⟨rs, hmet, -, honly⟩ := exists_requests _ hrun
  have hbeyond : state.catalog.Beyond 0 (Source.ofDocument (d.repair n) n o).GivenIn := by
    refine hmet.beyond coherent_empty (fun r hr => ?_) ?_
    · obtain ⟨demand, hdemanded, hmeets⟩ := honly r hr
      exact hdemanded.keepsGiven (fun e he => Document.find?_of_mem_canonical he) hmeets
    · intro i slot _ hslot
      cases hslot
  exact hbeyond i _ (Nat.zero_le i) hslot t rfl

theorem coherent_keyed_registerDocument
    (h : empty.registerDocument d n o = (.ok stats, c)) :
    c.Coherent ∧ c.Keyed := by
  obtain rfl : empty.after (.registerDocument d n o) = c := congrArg Prod.snd h
  refine ⟨Reachable.coherent ⟨[.registerDocument d n o], rfl⟩, ?_⟩
  exact keyed_after (a := .registerDocument d n o) trivial coherent_empty (by simp [Keyed, empty])

/-- Where the document gives a spelling one kind, a reference of that spelling reports the kind that
is recorded for it. -/
theorem kind_query_registerDocument
    (h : empty.registerDocument d n o = (.ok stats, c))
    {i : Nat} {t found : DataType} {r : TypeRef} {k : TypeKind}
    (ht : c.typeAt? i = some t)
    (hrecorded : (r, k) ∈ t.recordedKinds)
    (hresolved : (c.resolveType r).1 = .ok found)
    (hagree : (Source.ofDocument (d.repair n) n o).KindsAgree r.name) :
    (c.query r .kind).1 = .ok (.kind k) := by
  obtain ⟨hc, hkeyed⟩ := coherent_keyed_registerDocument h
  obtain ⟨j, -, hfound⟩ := exists_slot_of_resolveType hc hkeyed hresolved
  obtain ⟨key, hslot⟩ := c.entityAt?_eq_some_iff.mp (typeAt?_eq_some_iff.mp ht)
  have hgiven := (given_registerDocument h hslot).kinds _ hrecorded
  have hkind : found.header.kind = k := hagree _ _ (given_registerDocument h hfound).kind hgiven
  simp only [query, hresolved, Except.map, hkind]

/-- Where the document gives a spelling one size, the size that is recorded for a reference of that
spelling is the one of the type that it resolves to. The reference reports it, unless that type is a
union without a size. -/
theorem size_query_registerDocument
    (h : empty.registerDocument d n o = (.ok stats, c))
    {i : Nat} {t found : DataType} {r : TypeRef} {size : UInt64}
    (ht : c.typeAt? i = some t)
    (hrecorded : (r, size) ∈ t.recordedSizes)
    (hresolved : (c.resolveType r).1 = .ok found)
    (hagree : (Source.ofDocument (d.repair n) n o).SizesAgree r.name) :
    found.header.size = size ∧
      ((found.isUnion = true → size ≠ 0) → (c.query r .size).1 = .ok (.size size)) := by
  obtain ⟨hc, hkeyed⟩ := coherent_keyed_registerDocument h
  obtain ⟨j, hslotOf, hfound⟩ := exists_slot_of_resolveType hc hkeyed hresolved
  obtain ⟨key, hslot⟩ := c.entityAt?_eq_some_iff.mp (typeAt?_eq_some_iff.mp ht)
  have hgiven := (given_registerDocument h hslot).sizes _ hrecorded
  have hsize : found.header.size = size := hagree _ _ (given_registerDocument h hfound).size hgiven
  refine ⟨hsize, fun hstated => ?_⟩
  have hfoundAt : c.typeAt? j = some found :=
    typeAt?_eq_some_iff.mpr (c.entityAt?_eq_some_iff.mpr ⟨r.name, hfound⟩)
  have hat := sizeAt_of_stated hfoundAt (hsize ▸ hstated)
  have hpair : c.resolve r = (.ok j, (c.resolve r).2) := Prod.ext hslotOf rfl
  rw [query, hpair]
  simp [hat, hsize, Except.map]

end Documents

end Catalog

section Samples

/-- The ids that an element refers to. -/
def Element.typeIds
    (e : Element) :
    List String :=
  e.targetIds ++ e.prototypeIds ++ (e.attr? "basetype").toList ++ e.bases.map (·.type)

namespace Source

open Layout

/-- All ids of a document: those of its elements, those that these refer to, and those that the
latter qualify. -/
def statedIds
    (s : Source) :
    List String :=
  s.elements.flatMap fun e =>
    e.id :: e.typeIds.flatMap fun id => id :: ((Spelling.qualifiedId? id).map Prod.fst).toList

variable {s : Source}

theorem Reads.exists_mem_typeIds
    {id : String}
    (hs : s.Indexed)
    (h : s.Reads id) :
    ∃ e ∈ s.elements, id ∈ e.typeIds := by
  cases h with
  | @typedef e he hkind hid | @globalData e he hkind hglobal hid =>
      exact ⟨e, he, by simp [Element.typeIds, hid]⟩
  | @structural e he hkind hid =>
      refine ⟨e, he, ?_⟩
      rcases (e.mem_structuralIds_iff).mp hid with hpart | ⟨-, howner⟩
      · unfold Element.partIds at hpart
        split at hpart <;> simp [Element.typeIds, hpart]
      · simp [Element.typeIds, howner]
  | @function e he hkind hid =>
      exact ⟨e, he, by simp [Element.typeIds, hid]⟩
  | @dataMember record m mid hrecord hkind hmid hm hdata hid =>
      exact ⟨m, (hs.elements hm).1, by simp [Element.typeIds, hid]⟩
  | @memberFunction record m mid hrecord hkind hmid hm hfunction hid =>
      exact ⟨m, (hs.elements hm).1, by simp [Element.typeIds, hid]⟩
  | @base record b hrecord hkind hunion hb hid =>
      refine ⟨record, hrecord, List.mem_append_right _ (List.mem_map.mpr ⟨b, hb, hid⟩)⟩

theorem Bears.names
    {recorded : String → Prop} {name id : String}
    (h : s.Bears recorded name id) :
    s.Names id name := by
  cases h <;> assumption

theorem mem_statedIds_of_typeIds
    {e : Element} {id : String}
    (he : e ∈ s.elements)
    (hid : id ∈ e.typeIds) :
    id ∈ s.statedIds := by
  rw [statedIds, List.mem_flatMap]
  exact ⟨e, he, List.mem_cons_of_mem _ (List.mem_flatMap.mpr ⟨id, hid, List.mem_cons_self⟩)⟩

theorem mem_statedIds_of_target
    {e : Element} {id : String}
    (he : e ∈ s.elements)
    (hid : e.attr? "type" = some id) :
    id ∈ s.statedIds :=
  mem_statedIds_of_typeIds he (by simp [Element.typeIds, Element.targetIds_eq hid])

theorem Mentions.mem_statedIds
    {id : String}
    (hs : s.Indexed)
    (h : s.Mentions id) :
    id ∈ s.statedIds := by
  cases h with
  | target he hkind hid =>
      exact mem_statedIds_of_target he hid
  | undefined hread hundefined =>
      obtain ⟨e, he, hid⟩ := hread.exists_mem_typeIds hs
      exact mem_statedIds_of_typeIds he hid
  | @base qualified q hread hundefined hbase =>
      obtain ⟨e, he, hid⟩ := hread.exists_mem_typeIds hs
      rw [statedIds, List.mem_flatMap]
      refine ⟨e, he, List.mem_cons_of_mem _ (List.mem_flatMap.mpr ⟨qualified, hid, ?_⟩)⟩
      simp [hbase]

theorem RecordsKind.mem_statedIds
    {id : String}
    (hs : s.Indexed)
    (h : s.RecordsKind id) :
    id ∈ s.statedIds := by
  cases h with
  | dataMember hrecord hkind hmid hm hdata hid =>
      exact mem_statedIds_of_target (hs.elements hm).1 hid
  | mentioned h =>
      exact h.mem_statedIds hs

theorem RecordsSize.mem_statedIds
    {id : String}
    (hs : s.Indexed)
    (h : s.RecordsSize id) :
    id ∈ s.statedIds := by
  cases h with
  | aliasTarget he hkind hregistered hid =>
      exact mem_statedIds_of_target he hid
  | mentioned h =>
      exact h.mem_statedIds hs

theorem Bears.mem_statedIds
    {recorded : String → Prop} {name id : String}
    (hrecorded : ∀ id, recorded id → id ∈ s.statedIds)
    (h : s.Bears recorded name id) :
    id ∈ s.statedIds := by
  cases h with
  | @registered e he htype hregistered hid hname =>
      rw [statedIds, List.mem_flatMap]
      exact ⟨e, he, by simp [hid]⟩
  | recorded h hname =>
      exact hrecorded id h

theorem not_spellsMemberFunction
    {name : String}
    (hs : s.Indexed)
    (h : ∀ e ∈ s.elements, e.kind.isMemberFunction = false) :
    ¬ s.SpellsMemberFunction name := by
  rintro ⟨record, -, -, mid, -, m, cls, hm, hfunction, -⟩
  rw [h m (hs.elements hm).1] at hfunction
  cases hfunction

/-- A check that all ids of one spelling have one kind, for documents without member functions. -/
theorem kindsAgree_of_checks
    {name : String} (k : TypeKind)
    (hs : s.Indexed)
    (h : (∀ e ∈ s.elements, e.kind.isMemberFunction = false) ∧
      (∀ id ∈ s.statedIds, s.Names id name → s.kindOf id "" = .ok k) ∧
      ∀ e ∈ s.elements, e.kind = .fundamental → s.Names e.id name → builtinKind name = .ok k) :
    s.KindsAgree name := by
  obtain ⟨hfunctions, hids, hbuiltin⟩ := h
  have hone : ∀ k', s.GivesKind name k' → k' = k := by
    intro k' hk'
    cases hk' with
    | id hid hkind =>
        have hstated := hid.mem_statedIds fun _ h => h.mem_statedIds hs
        exact hkind.unique (hasKind_of_kindWithin (hids _ hstated hid.names))
    | builtin he hkind hname hk' =>
        exact Except.ok.inj (hk'.symm.trans (hbuiltin _ he hkind hname))
    | memberFunction hname =>
        exact absurd hname (not_spellsMemberFunction hs hfunctions)
  intro k₁ k₂ h₁ h₂
  rw [hone k₁ h₁, hone k₂ h₂]

/-- A check that all ids of one spelling have one size, for documents without member functions. -/
theorem sizesAgree_of_checks
    {name : String} (n : UInt64)
    (hs : s.Indexed)
    (h : (∀ e ∈ s.elements, e.kind.isMemberFunction = false) ∧
      ∀ id ∈ s.statedIds, s.Names id name → s.sizeOf id "" = .ok n) :
    s.SizesAgree name := by
  obtain ⟨hfunctions, hids⟩ := h
  have hone : ∀ n', s.GivesSize name n' → n' = n := by
    intro n' hn'
    cases hn' with
    | id hid hsize =>
        have hstated := hid.mem_statedIds fun _ h => h.mem_statedIds hs
        exact hsize.unique (hasSize_of_sizeWithin (hids _ hstated hid.names))
    | memberFunction hname =>
        exact absurd hname (not_spellsMemberFunction hs hfunctions)
  intro n₁ n₂ h₁ h₂
  rw [hone n₁ h₁, hone n₂ h₂]

end Source

namespace Catalog

open Source

deriving instance DecidableEq for RefAnswer

/-- A struct with a field of a qualified type alias that has no element of its own, and an alias of
an array that states no size. -/
def aliasDocument :
    Document :=
  .ofElements
    [{ Element.bare "FundamentalType" "_1" with attributes := [("name", "int"), ("size", "32")] },
     { Element.bare "Struct" "_2" with attributes := [("name", "S"), ("members", "_5")] },
     { Element.bare "Typedef" "_3" with attributes := [("name", "T"), ("type", "_2")] },
     { Element.bare "ArrayType" "_4" with attributes := [("type", "_1"), ("max", "2")] },
     { Element.bare "Field" "_5" with
       attributes := [("name", "f"), ("context", "_2"), ("type", "_3c"), ("access", "public")] },
     { Element.bare "Typedef" "_6" with attributes := [("name", "A"), ("type", "_4")] }]

/-- A type alias at global scope. -/
def globalAlias
    (name target : String) (size : UInt64) :
    DataType :=
  .typedef name "" (.named target) size

/-- The struct of the document above. -/
def aliasHolder :
    DataType :=
  withMembers (.record .structKey "S" "" 0)
    [(Member.declare "f" (.named "const T") .typedef .pub 0).inScope "S"]

theorem kind_query_aliasDocument :
    (registered aliasDocument).1 =
        .ok (Statistics.ofDocument (aliasDocument.repair .standard)) ∧
      (registered aliasDocument).2.typeAt? 1 = some aliasHolder ∧
      (.named "const T", .typedef) ∈ aliasHolder.recordedKinds ∧
      ((registered aliasDocument).2.resolveType (.named "const T")).1 =
        .ok (.cvQualified "const T" (.named "T") .const 0 .typedef) ∧
      (sourceOf aliasDocument).KindsAgree "const T" ∧
      ((registered aliasDocument).2.query (.named "const T") .kind).1 = .ok (.kind .typedef) := by
  obtain ⟨hok, htype, hrecorded, hresolved⟩ : (registered aliasDocument).1 =
        .ok (Statistics.ofDocument (aliasDocument.repair .standard)) ∧
      (registered aliasDocument).2.typeAt? 1 = some aliasHolder ∧
      (.named "const T", .typedef) ∈ aliasHolder.recordedKinds ∧
      ((registered aliasDocument).2.resolveType (.named "const T")).1 =
        .ok (.cvQualified "const T" (.named "T") .const 0 .typedef) := by
    decide +kernel
  have hagree : (sourceOf aliasDocument).KindsAgree "const T" :=
    kindsAgree_of_checks .typedef (indexed_ofDocument _ _ _) (by decide +kernel)
  refine ⟨hok, htype, hrecorded, hresolved, hagree, ?_⟩
  exact kind_query_registerDocument (Prod.ext hok rfl) htype hrecorded hresolved hagree

theorem size_query_aliasDocument :
    (registered aliasDocument).1 =
        .ok (Statistics.ofDocument (aliasDocument.repair .standard)) ∧
      (registered aliasDocument).2.typeAt? 5 = some (globalAlias "A" "int[3]" 12) ∧
      ((registered aliasDocument).2.resolveType (.named "int[3]")).1 =
        .ok (.array "int[3]" (.named "int") 3 12) ∧
      (sourceOf aliasDocument).SizesAgree "int[3]" ∧
      ((registered aliasDocument).2.query (.named "int[3]") .size).1 = .ok (.size 12) := by
  obtain ⟨hok, htype, hresolved⟩ : (registered aliasDocument).1 =
        .ok (Statistics.ofDocument (aliasDocument.repair .standard)) ∧
      (registered aliasDocument).2.typeAt? 5 = some (globalAlias "A" "int[3]" 12) ∧
      ((registered aliasDocument).2.resolveType (.named "int[3]")).1 =
        .ok (.array "int[3]" (.named "int") 3 12) := by
    decide +kernel
  have hagree : (sourceOf aliasDocument).SizesAgree "int[3]" :=
    sizesAgree_of_checks 12 (indexed_ofDocument _ _ _) (by decide +kernel)
  obtain ⟨-, hquery⟩ := size_query_registerDocument (Prod.ext hok rfl) htype
    (List.mem_singleton_self _) hresolved hagree
  exact ⟨hok, htype, hresolved, hagree, hquery (by decide)⟩

/-- A field whose type is an alias of a struct under the name of the struct. -/
def skippedDocument :
    Document :=
  .ofElements
    [{ Element.bare "Struct" "_1" with attributes := [("name", "S")] },
     { Element.bare "Typedef" "_2" with attributes := [("name", "S"), ("type", "_1")] },
     { Element.bare "Struct" "_3" with attributes := [("name", "T"), ("members", "_4")] },
     { Element.bare "Field" "_4" with
       attributes := [("name", "f"), ("context", "_3"), ("type", "_2"), ("access", "public")] }]

/-- The field records the kind of the alias, which is left out, while its type is found as the
struct. -/
theorem kind_query_skippedDocument_ne :
    (registered skippedDocument).1 =
        .ok (Statistics.ofDocument (skippedDocument.repair .standard)) ∧
      ∃ t, (registered skippedDocument).2.typeAt? 1 = some t ∧
        (.named "S", .typedef) ∈ t.recordedKinds ∧
        ((registered skippedDocument).2.query (.named "S") .kind).1 = .ok (.kind .record) := by
  obtain ⟨hok, htype, hquery⟩ : (registered skippedDocument).1 =
        .ok (Statistics.ofDocument (skippedDocument.repair .standard)) ∧
      (registered skippedDocument).2.typeAt? 1 = some (withMembers (.record .structKey "T" "" 0)
        [(Member.declare "f" (.named "S") .typedef .pub 0).inScope "T"]) ∧
      ((registered skippedDocument).2.query (.named "S") .kind).1 = .ok (.kind .record) := by
    decide +kernel
  exact ⟨hok, _, htype, by decide, hquery⟩

/-- An alias of a union that states no size, and the qualified union. -/
def unsizedDocument :
    Document :=
  .ofElements
    [{ Element.bare "FundamentalType" "_1" with attributes := [("name", "int"), ("size", "32")] },
     { Element.bare "Union" "_2" with attributes := [("name", "U"), ("members", "_3")] },
     { Element.bare "Field" "_3" with
       attributes := [("name", "i"), ("context", "_2"), ("type", "_1"), ("access", "public")] },
     { Element.bare "Typedef" "_4" with attributes := [("name", "T"), ("type", "_2")] },
     { Element.bare "CvQualifiedType" "_5" with attributes := [("type", "_2"), ("const", "1")] }]

/-- The alias and the qualified union record the size zero, while the union is found as large as its
largest member. No two elements of the document have one spelling. -/
theorem size_query_unsizedDocument_ne :
    (registered unsizedDocument).1 =
        .ok (Statistics.ofDocument (unsizedDocument.repair .standard)) ∧
      (∀ e ∈ (sourceOf unsizedDocument).elements, ∀ e' ∈ (sourceOf unsizedDocument).elements,
        ∀ name, (sourceOf unsizedDocument).Names e.id name →
          (sourceOf unsizedDocument).Names e'.id name → e = e') ∧
      (∃ t, (registered unsizedDocument).2.typeAt? 3 = some t ∧
        (.named "U", 0) ∈ t.recordedSizes) ∧
      (∃ t, (registered unsizedDocument).2.typeAt? 4 = some t ∧
        (.named "U", 0) ∈ t.recordedSizes) ∧
      ((registered unsizedDocument).2.query (.named "U") .size).1 = .ok (.size 4) := by
  obtain ⟨hok, hspellings, halias, hqualified, hquery⟩ : (registered unsizedDocument).1 =
        .ok (Statistics.ofDocument (unsizedDocument.repair .standard)) ∧
      (∀ e ∈ (sourceOf unsizedDocument).elements, ∀ e' ∈ (sourceOf unsizedDocument).elements,
        (Spelled.outcome ((sourceOf unsizedDocument).namer.typeName e.id) ∅).1 =
          (Spelled.outcome ((sourceOf unsizedDocument).namer.typeName e'.id) ∅).1 → e = e') ∧
      (registered unsizedDocument).2.typeAt? 3 = some (globalAlias "T" "U" 0) ∧
      (registered unsizedDocument).2.typeAt? 4 =
        some (.cvQualified "const U" (.named "U") .const 0 .record) ∧
      ((registered unsizedDocument).2.query (.named "U") .size).1 = .ok (.size 4) := by
    decide +kernel
  refine ⟨hok, fun e he e' he' name hname hname' => ?_, ⟨_, halias, by decide⟩,
    ⟨_, hqualified, by decide⟩, hquery⟩
  exact hspellings e he e' he' (Eq.trans hname hname'.symm)

end Catalog

end Samples

end TypeCatalog
