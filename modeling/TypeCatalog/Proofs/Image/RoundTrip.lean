import TypeCatalog.Proofs.Catalog.Run
import TypeCatalog.Proofs.Image.MetadataReads

/-!
# Saving a catalog and loading the image

**Input.** A catalog whose slots have distinct keys, each the name of its entity; a bag of metadata;
any bytes after the image; and the catalog that the image is loaded into, which may have entities
already.

**Rule.** Putting entities under distinct keys gives every key its entity and changes no other key.

**Results.**
* `reads_envelope`: an envelope is read back, with its entities without memos and computed sizes.
* `mismatch?_ofCatalog`: a saved envelope passes the check.
* `lookup_merge_of_mem`, `lookup_merge_of_not_mem`, `mem_keys_merge`: what a merge does.
* `load_save`: the round trip.
-/

namespace TypeCatalog

theorem Entity.qualified_forget
    (e : Entity) :
    e.forget.qualified = e.qualified := by
  cases e <;> rfl

namespace Catalog

/-- Every slot has the name of its entity as its key. -/
def Keyed
    (c : Catalog) :
    Prop :=
  ∀ slot ∈ c.slots, slot.key = slot.entity.qualified

section Put

variable {c : Catalog} (hc : c.Coherent)
include hc

theorem Coherent.put
    (key : String) (e : Entity) :
    (c.put key e).2.Coherent :=
  (Step.put key e).coherent_apply hc

theorem Coherent.mem_keys_put
    {key name : String} {e : Entity} :
    name ∈ (c.put key e).2.keys ↔ name = key ∨ name ∈ c.keys := by
  unfold Catalog.put
  cases hi : c.indexOf? key with
  | none =>
      simp [or_comm]
  | some i =>
      have hkey : key ∈ c.keys := hc.mem_keys_of_indexOf? hi
      constructor
      · intro hname
        exact .inr (by simpa using hname)
      · rintro (rfl | hname)
        · simpa using hkey
        · simpa using hname

theorem Coherent.lookup_put
    {key name : String} {e : Entity} :
    (c.put key e).2.lookup name = if key = name then some e else c.lookup name := by
  unfold Catalog.put
  cases hi : c.indexOf? key with
  | none =>
      by_cases hk : key = name
      · simp [lookup, indexOf?_push, entityAt?_push, hk]
      · simp only [lookup, indexOf?_push, if_neg hk]
        cases hn : c.indexOf? name with
        | none =>
            rfl
        | some j =>
            have hlt : j < c.slots.size := hc.lt_size hn
            simp [entityAt?_push, Nat.ne_of_lt hlt]
  | some i =>
      have hlt : i < c.slots.size := hc.lt_size hi
      have hsome := (c.entityAt?_isSome_iff i).mpr hlt
      obtain ⟨old, hold⟩ := Option.isSome_iff_exists.mp hsome
      by_cases hk : key = name
      · subst hk
        simp [lookup, hi, entityAt?_setEntity, hold]
      · simp only [lookup, indexOf?_setEntity, if_neg hk]
        cases hn : c.indexOf? name with
        | none =>
            rfl
        | some j =>
            -- two names of one slot would be one name
            have hij : i ≠ j := by
              rintro rfl
              have hkeys := hc.keys_of_indexOf? hi
              rw [hc.keys_of_indexOf? hn] at hkeys
              exact hk (Option.some.inj hkeys).symm
            simp [entityAt?_setEntity, hij]

end Put
end Catalog

namespace Image

section Merge

variable {c : Catalog}

theorem lookup_merge_of_not_mem
    (hc : c.Coherent)
    {entries : List (String × Entity)} {name : String}
    (hname : name ∉ entries.map Prod.fst) :
    (merge c entries).lookup name = c.lookup name := by
  induction entries generalizing c with
  | nil =>
      rfl
  | cons p entries ih =>
      simp only [List.map_cons, List.mem_cons, not_or] at hname
      obtain ⟨hne, hrest⟩ := hname
      have htail := ih (hc.put p.1 p.2) hrest
      rw [hc.lookup_put, if_neg (Ne.symm hne)] at htail
      exact htail

theorem lookup_merge_of_mem
    (hc : c.Coherent)
    {entries : List (String × Entity)} {p : String × Entity}
    (hnodup : (entries.map Prod.fst).Nodup)
    (hp : p ∈ entries) :
    (merge c entries).lookup p.1 = some p.2 := by
  induction entries generalizing c with
  | nil =>
      simp at hp
  | cons q entries ih =>
      obtain ⟨hfresh, hrest⟩ := List.nodup_cons.mp hnodup
      rcases List.mem_cons.mp hp with rfl | hp
      · have htail := lookup_merge_of_not_mem (hc.put p.1 p.2) hfresh
        rw [hc.lookup_put, if_pos rfl] at htail
        exact htail
      · exact ih (hc.put q.1 q.2) hrest hp

theorem mem_keys_merge
    (hc : c.Coherent)
    {entries : List (String × Entity)} {name : String} :
    name ∈ (merge c entries).keys ↔ name ∈ entries.map Prod.fst ∨ name ∈ c.keys := by
  induction entries generalizing c with
  | nil =>
      simp [merge]
  | cons p entries ih =>
      have htail := ih (hc.put p.1 p.2)
      rw [hc.mem_keys_put] at htail
      rw [List.map_cons, List.mem_cons, or_assoc, or_left_comm]
      exact htail

end Merge

section Envelopes

/-- An envelope is read back, with its entities without memos and computed sizes. -/
theorem reads_envelope
    {envelope : Envelope}
    (hwf : envelope.metadata.WellFormed)
    (hlen : (putEnvelope envelope).length < 2 ^ 64) :
    Reads getEnvelope (putEnvelope envelope)
      { envelope with content := envelope.content.map Entity.forget } := by
  have hkey : ∀ key, 0 < (putText key).length := by
    intro key
    rw [length_putText]
    omega
  simp only [putEnvelope, List.append_assoc, List.length_append] at hlen ⊢
  refine .bind (reads_values hkey (by omega) fun _ _ => reads_text) ?_
  refine .bind (reads_list (by omega) length_putEntity_pos fun _ _ => reads_entity) ?_
  exact (reads_metadata hwf (by omega)).finish rfl

theorem firstMismatch?_eq_none
    {entries : List (String × Entity)}
    (h : ∀ p ∈ entries, p.1 = p.2.qualified) :
    firstMismatch? entries = none := by
  induction entries with
  | nil =>
      rfl
  | cons p entries ih =>
      have hp : p.1 = p.2.qualified := h p (by simp)
      rw [firstMismatch?, if_pos hp]
      exact ih fun q hq => h q (List.mem_cons_of_mem p hq)

/-- The pairs that a saved catalog is loaded as. -/
def savedEntries
    (c : Catalog) :
    List (String × Entity) :=
  let sorted := c.slots.toList.mergeSort fun a b => decide (a.key ≤ b.key)
  sorted.map fun slot => (slot.key, slot.entity.forget)

theorem zip_ofCatalog
    (c : Catalog) (bag : Metadata) :
    (Envelope.ofCatalog c bag).keys.zip ((Envelope.ofCatalog c bag).content.map Entity.forget) =
      savedEntries c := by
  simp [Envelope.ofCatalog, savedEntries, List.zip_map']

theorem keys_savedEntries_perm
    (c : Catalog) :
    ((savedEntries c).map Prod.fst).Perm c.keys := by
  have hsorted := List.mergeSort_perm c.slots.toList fun a b => decide (a.key ≤ b.key)
  rw [savedEntries, List.map_map]
  exact hsorted.map (·.key)

theorem mem_savedEntries
    {c : Catalog} {p : String × Entity} :
    p ∈ savedEntries c ↔ ∃ slot ∈ c.slots, p = (slot.key, slot.entity.forget) := by
  have hsorted := List.mergeSort_perm c.slots.toList fun a b => decide (a.key ≤ b.key)
  constructor
  · intro hp
    obtain ⟨slot, hslot, rfl⟩ := List.mem_map.mp hp
    exact ⟨slot, Array.mem_toList_iff.mp (hsorted.mem_iff.mp hslot), rfl⟩
  · rintro ⟨slot, hslot, rfl⟩
    exact List.mem_map.mpr ⟨slot, hsorted.mem_iff.mpr (Array.mem_toList_iff.mpr hslot), rfl⟩

/-- The envelope of a keyed catalog passes the check, also after it is read back. -/
theorem mismatch?_ofCatalog
    {c : Catalog} (bag : Metadata)
    (hkeyed : c.Keyed) :
    Envelope.mismatch?
      { Envelope.ofCatalog c bag with
        content := (Envelope.ofCatalog c bag).content.map Entity.forget } = none := by
  have hcount : (Envelope.ofCatalog c bag).keys.length =
      ((Envelope.ofCatalog c bag).content.map Entity.forget).length := by
    simp [Envelope.ofCatalog]
  rw [Envelope.mismatch?, if_neg (not_not.mpr hcount), zip_ofCatalog]
  refine firstMismatch?_eq_none fun p hp => ?_
  obtain ⟨slot, hslot, rfl⟩ := mem_savedEntries.mp hp
  rw [Entity.qualified_forget]
  exact hkeyed slot hslot

end Envelopes

/-- Loading the image of a catalog succeeds and gives back the metadata. Every entity is then found
under its key, without memos and computed sizes; every other name is looked up as before, and there
is no key that neither catalog had. -/
theorem load_save
    (c : Catalog) (bag : Metadata) (rest : List UInt8) (t : Catalog)
    (hdistinct : c.DistinctKeys)
    (hkeyed : c.Keyed)
    (hbag : bag.WellFormed)
    (ht : t.Reachable)
    (hlen : (save c bag).length < 2 ^ 64) :
    ∃ t', Loader.image.load t (save c bag ++ rest) = (.ok bag, t') ∧
      (∀ slot ∈ c.slots, t'.lookup slot.key = some slot.entity.forget) ∧
      (∀ name, name ∉ c.keys → t'.lookup name = t.lookup name) ∧
      (∀ name, name ∈ t'.keys ↔ name ∈ c.keys ∨ name ∈ t.keys) := by
  have hcoh : t.Coherent := ht.coherent
  have hperm := keys_savedEntries_perm c
  have hload : Image.load t (save c bag ++ rest) = (.ok bag, merge t (savedEntries c)) := by
    have hread := reads_envelope hbag hlen rest
    rw [← zip_ofCatalog c bag]
    simp only [load, save, hread, mismatch?_ofCatalog bag hkeyed]
    rfl
  refine ⟨merge t (savedEntries c), ?_, ?_, ?_, ?_⟩
  · rw [Loader.load, hload]
  · intro slot hslot
    have hmem := mem_savedEntries.mpr ⟨slot, hslot, rfl⟩
    exact lookup_merge_of_mem hcoh (hperm.nodup_iff.mpr hdistinct) hmem
  · intro name hname
    exact lookup_merge_of_not_mem hcoh fun h => hname (hperm.mem_iff.mp h)
  · intro name
    rw [mem_keys_merge hcoh, hperm.mem_iff]

/-- The namespace `N` and a union whose size was computed and whose member was resolved. -/
def measuredUnion : Catalog :=
  let member := (Member.declare "m" ⟨"int", some 3⟩ .int .pub 0).inScope "U"
  ⟨#[⟨"U", .ofType (.make "U" "" 0 .record (.union [member] (some 4)))⟩,
      ⟨"N", .ofNamespace ⟨"N", "", none⟩⟩], ∅⟩

/-- A map in a list in a map. -/
def nestedBag : Metadata :=
  [("a", .list [.map [("x", .float 0), ("y", .bool true)], .int (-1)]), ("b", .text "t")]

/-- A catalog that has another `N` and a namespace of its own. -/
def namespacesBefore : Catalog :=
  Catalog.run
    [.step (.register (.ofNamespace ⟨"N", "", some "O"⟩)),
      .step (.register (.ofNamespace ⟨"O", "", none⟩))]

theorem load_save_measuredUnion :
    measuredUnion.DistinctKeys ∧ measuredUnion.Keyed ∧ Metadata.WellFormed nestedBag ∧
      namespacesBefore.Reachable ∧ (save measuredUnion nestedBag).length < 2 ^ 64 ∧
      ∃ t', Loader.image.load namespacesBefore (save measuredUnion nestedBag ++ [7]) =
          (.ok nestedBag, t') ∧
        (∀ slot ∈ measuredUnion.slots, t'.lookup slot.key = some slot.entity.forget) ∧
        (∀ name, name ∉ measuredUnion.keys → t'.lookup name = namespacesBefore.lookup name) ∧
        (∀ name, name ∈ t'.keys ↔ name ∈ measuredUnion.keys ∨ name ∈ namespacesBefore.keys) := by
  have hdistinct : measuredUnion.DistinctKeys := by
    unfold Catalog.DistinctKeys
    decide
  have hkeyed : measuredUnion.Keyed := by
    unfold Catalog.Keyed
    decide
  have hbag : Metadata.WellFormed nestedBag := by
    have hab : "a" < "b" := by decide
    have hxy : "x" < "y" := by decide
    simp only [Metadata.WellFormed, Metadata.Ascending, MetaValue.WellFormedFields,
      MetaValue.WellFormed, MetaValue.WellFormedItems, nestedBag, List.pairwise_pair, hab, hxy,
      and_self]
  have hlen : (save measuredUnion nestedBag).length < 2 ^ 64 := by
    have hnle : ¬ "U" ≤ "N" := by decide
    simp [save, putEnvelope, Envelope.ofCatalog, measuredUnion, List.mergeSort,
      List.MergeSort.Internal.splitInTwo, hnle, putList, putLength, putUInt64, putEntity, putType,
      putVariant, putUInt32, putHeader, putNamespace, putShape, DataType.make, putMember, putOption,
      putKind, putAccess, putQualifiers, putSpecifiers, putRef, putMetadata, nestedBag,
      putMetaFields, putMeta, putMetaItems, putInt64, putUInt8, Member.declare, Member.inScope,
      putBool]
    decide +kernel
  have ht : namespacesBefore.Reachable := ⟨_, rfl⟩
  exact ⟨hdistinct, hkeyed, hbag, ht, hlen,
    load_save measuredUnion nestedBag [7] namespacesBefore hdistinct hkeyed hbag ht hlen⟩

end Image
end TypeCatalog
