import Mathlib.Data.List.Sort
import TypeCatalog.Proofs.Image.RoundTrip

/-!
# Images and content

**Input.** Two catalogs whose slots have distinct keys, in any order of registration, and a bag of
metadata for each.

**Rule.** An image holds the slots in ascending order of their keys, without memos and computed
sizes. With distinct keys there is one such order, so equal content gives equal bytes. Conversely
the bytes are read back, so equal bytes come from equal content.

**Results.**
* `putEntity_forget`: memos and computed sizes are not written.
* `savedEntries_eq_iff`: the saved pairs are the content of a catalog.
* `save_eq_save_iff`: two images are equal exactly when content and metadata are.
-/

namespace TypeCatalog

/-- Two catalogs have the same keys and, under every key, entities that mean the same. Neither the
order of the slots nor memos and computed sizes count. -/
structure Catalog.SameContent
    (c d : Catalog) :
    Prop where
  keys : ∀ key, key ∈ c.keys ↔ key ∈ d.keys
  entities : ∀ a ∈ c.slots, ∀ b ∈ d.slots, a.key = b.key → a.entity.same b.entity

theorem Entity.same_iff
    {a b : Entity} :
    a.same b ↔ a.forget = b.forget := by
  simp [Entity.same]

theorem Catalog.SameContent.symm
    {c d : Catalog}
    (h : c.SameContent d) :
    d.SameContent c where
  keys key := (h.keys key).symm
  entities a ha b hb hkey := by
    have hsame := Entity.same_iff.mp (h.entities b hb a ha hkey.symm)
    exact Entity.same_iff.mpr hsame.symm

namespace Image

section Forget

theorem putList_map
    {α : Type} {put : α → List UInt8} (view : α → α)
    (h : ∀ x, put (view x) = put x) (xs : List α) :
    putList put (xs.map view) = putList put xs := by
  simp [putList, List.flatMap_map, h]

theorem putPrototype_forget
    (p : Prototype) :
    putPrototype p.forget = putPrototype p := by
  have hparams : putList putParameter (p.params.map Parameter.forget) =
      putList putParameter p.params :=
    putList_map Parameter.forget (fun _ => rfl) p.params
  simp only [putPrototype, Prototype.forget, hparams]
  rfl

theorem putFunction_forget
    (f : Function) :
    putFunction f.forget = putFunction f := by
  simp only [putFunction, Function.forget, putPrototype_forget]

theorem putMembers_forget
    (members : List Member) :
    putList putMember (members.map Member.forget) = putList putMember members :=
  putList_map Member.forget (fun _ => rfl) members

theorem shapeTag_forget
    (shape : TypeShape) :
    ShapeTag.of shape.forget = ShapeTag.of shape := by
  cases shape with
  | record key members bases =>
      cases key <;> rfl
  | _ =>
      rfl

theorem putShape_forget
    (shape : TypeShape) :
    putShape shape.forget = putShape shape := by
  cases shape with
  | record key members bases =>
      have hbases : putList putBase (bases.map Base.forget) = putList putBase bases :=
        putList_map Base.forget (fun _ => rfl) bases
      simp only [putShape, TypeShape.forget, putMembers_forget, hbases]
  | enumeration members =>
      exact putMembers_forget members
  | union members computed =>
      exact putMembers_forget members
  | function p =>
      exact putPrototype_forget p
  | _ =>
      rfl

/-- Memos and computed sizes are not written. -/
theorem putEntity_forget
    (e : Entity) :
    putEntity e.forget = putEntity e := by
  cases e with
  | ofFunction f =>
      simp only [putEntity, Entity.forget, putFunction_forget]
  | ofOverloads o =>
      have hfunctions := putList_map Function.forget putFunction_forget o.functions
      simp only [putEntity, putOverloads, Entity.forget, OverloadSet.forget, hfunctions]
  | ofType t =>
      simp only [putEntity, putType, Entity.forget, DataType.forget, shapeTag_forget,
        putShape_forget]
  | _ =>
      rfl

end Forget

section Entries

theorem pairwise_savedEntries
    (c : Catalog) :
    (savedEntries c).Pairwise fun p q => p.1 ≤ q.1 := by
  rw [savedEntries, List.pairwise_map]
  have hsorted : (c.slots.toList.mergeSort fun a b => decide (a.key ≤ b.key)).Pairwise
      fun a b => decide (a.key ≤ b.key) = true :=
    List.pairwise_mergeSort (fun a b d => by simpa using le_trans)
      (fun a b => by simpa using le_total a.key b.key) c.slots.toList
  exact hsorted.imp fun h => of_decide_eq_true h

theorem nodup_keys_savedEntries
    {c : Catalog}
    (hc : c.DistinctKeys) :
    ((savedEntries c).map Prod.fst).Nodup :=
  (keys_savedEntries_perm c).nodup_iff.mpr hc

theorem mem_savedEntries_of_sameContent
    {c d : Catalog} {p : String × Entity}
    (h : c.SameContent d)
    (hp : p ∈ savedEntries c) :
    p ∈ savedEntries d := by
  obtain ⟨a, ha, rfl⟩ := mem_savedEntries.mp hp
  have hkey : a.key ∈ c.keys := List.mem_map.mpr ⟨a, Array.mem_toList_iff.mpr ha, rfl⟩
  obtain ⟨b, hb, hba⟩ := List.mem_map.mp ((h.keys a.key).mp hkey)
  have hmem : b ∈ d.slots := Array.mem_toList_iff.mp hb
  have hsame := Entity.same_iff.mp (h.entities a ha b hmem hba.symm)
  exact mem_savedEntries.mpr ⟨b, hmem, by rw [hba, hsame]⟩

/-- The saved pairs of a catalog are its content: with distinct keys, they leave nothing of the
order of registration. -/
theorem savedEntries_eq_iff
    {c d : Catalog}
    (hc : c.DistinctKeys) (hd : d.DistinctKeys) :
    savedEntries c = savedEntries d ↔ c.SameContent d := by
  have hnodup := nodup_keys_savedEntries hc
  constructor
  · intro heq
    refine ⟨?_, ?_⟩
    · intro key
      rw [← (keys_savedEntries_perm c).mem_iff, heq, (keys_savedEntries_perm d).mem_iff]
    · intro a ha b hb hkey
      have hpa : (a.key, a.entity.forget) ∈ savedEntries c := mem_savedEntries.mpr ⟨a, ha, rfl⟩
      have hpb : (b.key, b.entity.forget) ∈ savedEntries c := by
        rw [heq]
        exact mem_savedEntries.mpr ⟨b, hb, rfl⟩
      have hpair := List.inj_on_of_nodup_map hnodup hpa hpb hkey
      exact Entity.same_iff.mpr (congrArg Prod.snd hpair)
  · intro hsame
    have hmem : ∀ p, p ∈ savedEntries c ↔ p ∈ savedEntries d := fun _ =>
      ⟨mem_savedEntries_of_sameContent hsame, mem_savedEntries_of_sameContent hsame.symm⟩
    have hperm : (savedEntries c).Perm (savedEntries d) := by
      refine (List.perm_ext_iff_of_nodup ?_ ?_).mpr hmem
      · exact hnodup.of_map _
      · exact (nodup_keys_savedEntries hd).of_map _
    refine hperm.eq_of_pairwise ?_ (pairwise_savedEntries c) (pairwise_savedEntries d)
    intro p q hp hq hle hge
    exact List.inj_on_of_nodup_map hnodup hp ((hmem q).mpr hq) (le_antisymm hle hge)

/-- An image is written from the saved pairs and the metadata. -/
theorem save_eq_putEnvelope
    (c : Catalog) (bag : Metadata) :
    save c bag =
      putEnvelope ⟨(savedEntries c).map Prod.fst, (savedEntries c).map Prod.snd, bag⟩ := by
  have hcontent : (savedEntries c).map Prod.snd =
      (Envelope.ofCatalog c bag).content.map Entity.forget := by
    simp [savedEntries, Envelope.ofCatalog]
  have hkeys : (savedEntries c).map Prod.fst = (Envelope.ofCatalog c bag).keys := by
    simp [savedEntries, Envelope.ofCatalog]
  simp only [save, putEnvelope, hcontent, hkeys, putList_map Entity.forget putEntity_forget]
  rfl

/-- Bytes that are read back come from one catalog content and one bag of metadata. -/
theorem eq_of_save_eq
    {c d : Catalog} {bag other : Metadata}
    (hbag : bag.WellFormed) (hother : other.WellFormed)
    (hlen : (save c bag).length < 2 ^ 64)
    (heq : save c bag = save d other) :
    savedEntries c = savedEntries d ∧ bag = other := by
  have hlen' : (save d other).length < 2 ^ 64 := heq ▸ hlen
  have hread : getEnvelope.run (save c bag ++ []) = _ := reads_envelope hbag hlen []
  have hread' : getEnvelope.run (save d other ++ []) = _ := reads_envelope hother hlen' []
  rw [heq, hread'] at hread
  simp only [Except.ok.injEq, Prod.mk.injEq, and_true, Envelope.mk.injEq] at hread
  obtain ⟨hkeys, hcontent, hmetadata⟩ := hread
  refine ⟨?_, hmetadata.symm⟩
  rw [← zip_ofCatalog c bag, ← zip_ofCatalog d other, hkeys, hcontent]

end Entries

/-- Two images are equal exactly when the catalogs have the same content and the bags of metadata
are equal, numbers by their bits. -/
theorem save_eq_save_iff
    (c d : Catalog) (bag other : Metadata)
    (hc : c.DistinctKeys) (hd : d.DistinctKeys)
    (hbag : bag.WellFormed) (hother : other.WellFormed)
    (hlen : (save c bag).length < 2 ^ 64) :
    save c bag = save d other ↔ c.SameContent d ∧ bag = other := by
  constructor
  · intro heq
    obtain ⟨hentries, hmetadata⟩ := eq_of_save_eq hbag hother hlen heq
    exact ⟨(savedEntries_eq_iff hc hd).mp hentries, hmetadata⟩
  · rintro ⟨hsame, rfl⟩
    rw [save_eq_putEnvelope, save_eq_putEnvelope, (savedEntries_eq_iff hc hd).mpr hsame]

/-- The slots of `measuredUnion` the other way round, before anything was resolved or measured. -/
def freshUnion : Catalog :=
  let member := (Member.declare "m" (.named "int") .int .pub 0).inScope "U"
  ⟨#[⟨"N", .ofNamespace ⟨"N", "", none⟩⟩,
      ⟨"U", .ofType (.make "U" "" 0 .record (.union [member] none))⟩], ∅⟩

/-- A list in a map, with the number minus zero. -/
def signedBag : Metadata :=
  [("k", .map [("x", .list [.float 0x8000000000000000])])]

theorem save_freshUnion_eq_save_measuredUnion :
    freshUnion.DistinctKeys ∧ measuredUnion.DistinctKeys ∧ Metadata.WellFormed signedBag ∧
      (save freshUnion signedBag).length < 2 ^ 64 ∧ freshUnion.SameContent measuredUnion ∧
      save freshUnion signedBag = save measuredUnion signedBag := by
  have hfresh : freshUnion.DistinctKeys := by
    unfold Catalog.DistinctKeys
    decide
  have hmeasured : measuredUnion.DistinctKeys := by
    unfold Catalog.DistinctKeys
    decide
  have hbag : Metadata.WellFormed signedBag := by
    simp [Metadata.WellFormed, Metadata.Ascending, MetaValue.WellFormedFields,
      MetaValue.WellFormed, MetaValue.WellFormedItems, signedBag]
  have hlen : (save freshUnion signedBag).length < 2 ^ 64 := by
    have hle : "N" ≤ "U" := by decide
    simp [save, putEnvelope, Envelope.ofCatalog, freshUnion, List.mergeSort,
      List.MergeSort.Internal.splitInTwo, hle, putList, putLength, putUInt64, putEntity, putType,
      putVariant, putUInt32, putHeader, putNamespace, putShape, DataType.make, putMember, putOption,
      putKind, putAccess, putQualifiers, putSpecifiers, putRef, putMetadata, signedBag,
      putMetaFields, putMeta, putMetaItems, putUInt8, Member.declare, Member.inScope]
    decide +kernel
  have hsame : freshUnion.SameContent measuredUnion := by
    refine ⟨?_, ?_⟩
    · intro key
      simp [Catalog.keys, freshUnion, measuredUnion, or_comm]
    · decide
  have hiff := save_eq_save_iff freshUnion measuredUnion signedBag signedBag hfresh hmeasured hbag
    hbag hlen
  exact ⟨hfresh, hmeasured, hbag, hlen, hsame, hiff.mpr ⟨hsame, rfl⟩⟩

end Image
end TypeCatalog
