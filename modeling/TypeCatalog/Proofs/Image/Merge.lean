import TypeCatalog.Proofs.Catalog.Handles
import TypeCatalog.Proofs.Image.RoundTrip

/-!
# Loading as an overwriting merge

**Input.** Any bytes that are accepted as an image, whether or not a catalog was saved as them, and
a catalog that actions have built. The bytes may list a key several times and in any order, and the
catalog may have an entity of another variant under it.

**Rule.** The entities are put under their keys from left to right. A key that is there has its
entity replaced, any other key gets a slot at the end. So the last entity of a key stays, and a
second merge finds every key there: it goes through the same replacements and ends with the same
entities.

**Results.**
* `lookup_merge_at`: the last entity of a key is found under it.
* `merge_merge`: merging the same entries again changes nothing.
* `load_ok_iff`: when bytes are accepted, and what is merged.
* `load_overwrites`: all of this for a load.
-/

namespace TypeCatalog
namespace Catalog

/-- A catalog is its index, its keys and its entities. -/
theorem eq_of_entityAt?
    {c d : Catalog}
    (hindex : c.index = d.index)
    (hkeys : c.keys = d.keys)
    (hentities : ∀ i, c.entityAt? i = d.entityAt? i) :
    c = d := by
  have hslots : c.slots = d.slots := by
    apply Array.ext_getElem?
    intro i
    have hkey : c.slots[i]?.map (·.key) = d.slots[i]?.map (·.key) := by
      simpa [keys] using congrArg (·[i]?) hkeys
    have hentity : c.slots[i]?.map (·.entity) = d.slots[i]?.map (·.entity) := hentities i
    cases hc : c.slots[i]? with
    | none =>
        rw [hc, Option.map_none] at hkey
        exact (Option.map_eq_none_iff.mp hkey.symm).symm
    | some slot =>
        rw [hc, Option.map_some] at hkey hentity
        obtain ⟨slot', hslot, hsame⟩ := Option.map_eq_some_iff.mp hkey.symm
        rw [hslot, Option.map_some, Option.some.injEq] at hentity
        rw [hslot, Option.some.injEq, Slot.mk.injEq]
        exact ⟨hsame.symm, hentity⟩
  cases c
  cases d
  congr

end Catalog

namespace Image

open Catalog

section Merge

variable {c : Catalog} {entries : List (String × Entity)}

theorem merge_append
    (c : Catalog) (front back : List (String × Entity)) :
    merge c (front ++ back) = merge (merge c front) back :=
  List.foldl_append

theorem coherent_merge
    (hc : c.Coherent) (entries : List (String × Entity)) :
    (merge c entries).Coherent :=
  (trace_merge c entries).coherent hc

/-- The last entity of a key is found under it. -/
theorem lookup_merge_at
    (hc : c.Coherent)
    {i : Nat} {key : String} {e : Entity}
    (hentry : entries[i]? = some (key, e))
    (hlast : ∀ j, i < j → (entries.map Prod.fst)[j]? ≠ some key) :
    (merge c entries).lookup key = some e := by
  obtain ⟨hlt, hget⟩ := List.getElem?_eq_some_iff.mp hentry
  have hsplit : entries = entries.take i ++ (key, e) :: entries.drop (i + 1) := by
    conv_lhs => rw [← List.take_append_drop i entries, List.drop_eq_getElem_cons hlt, hget]
  have hfresh : key ∉ (entries.drop (i + 1)).map Prod.fst := by
    rw [List.map_drop]
    intro hmem
    obtain ⟨k, hk⟩ := List.mem_iff_getElem?.mp hmem
    rw [List.getElem?_drop] at hk
    exact hlast (i + 1 + k) (by omega) hk
  have hfront := coherent_merge hc (entries.take i)
  have hstep : merge c entries =
      merge ((merge c (entries.take i)).put key e).2 (entries.drop (i + 1)) := by
    conv_lhs => rw [hsplit, merge_append]
    rfl
  rw [hstep, lookup_merge_of_not_mem (hfront.put key e) hfresh, hfront.lookup_put, if_pos rfl]

/-- Where all keys are there already, a merge changes entities in the slots of these keys only. -/
theorem merge_of_mem_keys
    (hc : c.Coherent)
    (hkeys : ∀ p ∈ entries, p.1 ∈ c.keys) :
    (merge c entries).index = c.index ∧ (merge c entries).keys = c.keys ∧
      ∀ i, (∀ p ∈ entries, c.indexOf? p.1 ≠ some i) →
        (merge c entries).entityAt? i = c.entityAt? i := by
  induction entries generalizing c with
  | nil =>
      exact ⟨rfl, rfl, fun _ _ => rfl⟩
  | cons p entries ih =>
      obtain ⟨j, hj⟩ := hc.exists_indexOf?_of_mem (hkeys p (by simp))
      have hput : (c.put p.1 p.2).2 = c.setEntity j p.2 := by
        simp [Catalog.put, hj]
      have hcoh : (c.setEntity j p.2).Coherent := hc.of_sameKeys (.setEntity c j p.2)
      obtain ⟨hindex, hkeys', hentities⟩ := ih hcoh fun q hq => by
        simpa using hkeys q (List.mem_cons_of_mem p hq)
      have hmerge : merge c (p :: entries) = merge (c.setEntity j p.2) entries := by
        rw [← hput]
        rfl
      rw [hmerge]
      refine ⟨hindex, by simpa using hkeys', fun i hi => ?_⟩
      have hij : j ≠ i := by
        rintro rfl
        exact hi p (by simp) hj
      rw [hentities i fun q hq => hi q (List.mem_cons_of_mem p hq), entityAt?_setEntity, if_neg hij]

/-- Merging the same entries again changes nothing. -/
theorem merge_merge
    (hc : c.Coherent) (entries : List (String × Entity)) :
    merge (merge c entries) entries = merge c entries := by
  have hcoh := coherent_merge hc entries
  have hmem : ∀ p ∈ entries, p.1 ∈ (merge c entries).keys := fun p hp =>
    (mem_keys_merge hc).mpr (.inl (List.mem_map_of_mem hp))
  obtain ⟨hindex, hkeys, hentities⟩ := merge_of_mem_keys hcoh hmem
  refine eq_of_entityAt? hindex hkeys fun i => ?_
  by_cases hslot : ∃ p ∈ entries, (merge c entries).indexOf? p.1 = some i
  · -- the slot of a key of the entries ends with its last entity both times
    obtain ⟨p, hp, hi⟩ := hslot
    obtain ⟨k, hk, hlast⟩ := exists_last_of_mem (List.mem_map_of_mem (f := Prod.fst) hp)
    obtain ⟨⟨key, e⟩, hentry, hkey⟩ : ∃ q, entries[k]? = some q ∧ q.1 = p.1 := by
      simpa using hk
    obtain rfl : key = p.1 := hkey
    have hfirst := lookup_merge_at hc hentry hlast
    have hsecond := lookup_merge_at hcoh hentry hlast
    have hi' : (merge (merge c entries) entries).indexOf? p.1 = some i := by
      rwa [indexOf?, hindex]
    rw [lookup, hi] at hfirst
    rw [lookup, hi'] at hsecond
    exact hsecond.trans hfirst.symm
  · exact hentities i fun p hp hi => hslot ⟨p, hp, hi⟩

end Merge

section Load

theorem length_of_mismatch?
    {envelope : Envelope}
    (h : envelope.mismatch? = none) :
    envelope.keys.length = envelope.content.length := by
  unfold Envelope.mismatch? at h
  split at h
  · cases h
  · next hcount =>
      exact not_not.mp hcount

/-- The keys of the entries that are merged are the keys of the envelope. -/
theorem map_fst_zip_content
    {envelope : Envelope}
    (h : envelope.mismatch? = none) :
    (envelope.keys.zip envelope.content).map Prod.fst = envelope.keys :=
  List.map_fst_zip (length_of_mismatch? h).le

/-- A key of an accepted envelope is found with the entity at its last position. -/
theorem exists_last_entry
    {t : Catalog} {envelope : Envelope} {key : String}
    (ht : t.Coherent)
    (hcheck : envelope.mismatch? = none)
    (hkey : key ∈ envelope.keys) :
    ∃ (i : Nat) (e : Entity), envelope.keys[i]? = some key ∧
      (∀ j, i < j → envelope.keys[j]? ≠ some key) ∧ envelope.content[i]? = some e ∧
      (merge t (envelope.keys.zip envelope.content)).lookup key = some e := by
  obtain ⟨i, hi, hlast⟩ := exists_last_of_mem hkey
  have hlt : i < envelope.content.length := by
    rw [← length_of_mismatch? hcheck]
    exact (List.getElem?_eq_some_iff.mp hi).1
  have hcontent : envelope.content[i]? = some envelope.content[i] := List.getElem?_eq_getElem hlt
  have hentry : (envelope.keys.zip envelope.content)[i]? = some (key, envelope.content[i]) :=
    List.getElem?_zip_eq_some.mpr ⟨hi, hcontent⟩
  refine ⟨i, _, hi, hlast, hcontent, lookup_merge_at ht hentry ?_⟩
  rwa [map_fst_zip_content hcheck]

/-- Bytes are accepted when an envelope is read from them and passes its check; its entries are then
merged. -/
theorem load_ok_iff
    {t t' : Catalog} {bytes : List UInt8} {bag : Metadata} :
    Loader.image.load t bytes = (.ok bag, t') ↔
      ∃ envelope rest, getEnvelope.run bytes = .ok (envelope, rest) ∧
        envelope.mismatch? = none ∧ envelope.metadata = bag ∧
        merge t (envelope.keys.zip envelope.content) = t' := by
  simp only [Loader.load, load]
  cases hread : getEnvelope.run bytes with
  | error e =>
      simp
  | ok found =>
      obtain ⟨envelope, rest⟩ := found
      cases hcheck : envelope.mismatch? with
      | some m =>
          simp [hcheck]
      | none =>
          simp [hcheck]

end Load

/-- Bytes that are accepted hold an envelope whose entries are merged: every key of the envelope is
found with its last entity, every other name as before. Names and slots stay where they are, and
loading the bytes again gives the same metadata and the same catalog. -/
theorem load_overwrites
    (t t' : Catalog) (bytes : List UInt8) (bag : Metadata)
    (ht : t.Reachable)
    (hload : Loader.image.load t bytes = (.ok bag, t')) :
    ∃ envelope rest, getEnvelope.run bytes = .ok (envelope, rest) ∧ envelope.metadata = bag ∧
      (∀ key ∈ envelope.keys, ∃ (i : Nat) (e : Entity), envelope.keys[i]? = some key ∧
        (∀ j, i < j → envelope.keys[j]? ≠ some key) ∧ envelope.content[i]? = some e ∧
        t'.lookup key = some e) ∧
      (∀ name, name ∉ envelope.keys → t'.lookup name = t.lookup name) ∧
      (∀ name i, t.indexOf? name = some i → t'.indexOf? name = some i) ∧
      (∀ (i : Nat) (slot : Slot), t.slots[i]? = some slot →
        ∃ e, t'.slots[i]? = some ⟨slot.key, e⟩) ∧
      Loader.image.load t' bytes = (.ok bag, t') := by
  obtain ⟨envelope, rest, hread, hcheck, hbag, hmerge⟩ := load_ok_iff.mp hload
  have hcoh : t.Coherent := ht.coherent
  have hretains : Retains t t' := by
    rw [← hmerge]
    exact (trace_merge t _).retains
  refine ⟨envelope, rest, hread, hbag, ?_, ?_, fun _ _ => hretains.index,
    fun _ _ => hretains.exists_slot, ?_⟩
  · intro key hkey
    rw [← hmerge]
    exact exists_last_entry hcoh hcheck hkey
  · intro name hname
    rw [← hmerge]
    exact lookup_merge_of_not_mem hcoh (by rwa [map_fst_zip_content hcheck])
  · refine load_ok_iff.mpr ⟨envelope, rest, hread, hcheck, hbag, ?_⟩
    rw [← hmerge]
    exact merge_merge hcoh _

/-- An envelope that lists the namespace `N` twice, the second time as an alias. -/
def repeatedEnvelope :
    Envelope :=
  ⟨["N", "N"], [.ofNamespace ⟨"N", "", none⟩, .ofNamespace ⟨"N", "", some "P"⟩], []⟩

theorem load_overwrites_repeatedEnvelope :
    namespacesBefore.Reachable ∧ ∃ t',
      Loader.image.load namespacesBefore (putEnvelope repeatedEnvelope) = (.ok [], t') ∧
        t'.lookup "N" = some (.ofNamespace ⟨"N", "", some "P"⟩) ∧
        t'.lookup "O" = namespacesBefore.lookup "O" ∧
        Loader.image.load t' (putEnvelope repeatedEnvelope) = (.ok [], t') := by
  have ht : namespacesBefore.Reachable := ⟨_, rfl⟩
  have hread : getEnvelope.run (putEnvelope repeatedEnvelope) = .ok (repeatedEnvelope, []) := by
    have hlen : (putEnvelope repeatedEnvelope).length < 2 ^ 64 := by
      simp [putEnvelope, repeatedEnvelope, putList, putLength, putUInt64, putEntity, putVariant,
        putUInt32, putNamespace, putOption, putMetadata, putMetaFields]
      decide +kernel
    have hbag : Metadata.WellFormed repeatedEnvelope.metadata := ⟨List.Pairwise.nil, trivial⟩
    have hwhole := reads_envelope hbag hlen []
    rwa [List.append_nil] at hwhole
  have hload := load_ok_iff (t := namespacesBefore).mpr ⟨repeatedEnvelope, [], hread, rfl, rfl, rfl⟩
  refine ⟨ht, _, hload, ?_⟩
  obtain ⟨envelope, rest, hread', -, hfound, hother, -, -, hagain⟩ :=
    load_overwrites namespacesBefore _ _ _ ht hload
  obtain ⟨rfl, rfl⟩ := Prod.mk.inj (Except.ok.inj (hread.symm.trans hread'))
  refine ⟨?_, hother "O" (by decide), hagain⟩
  obtain ⟨i, e, hi, hlast, he, hlookup⟩ := hfound "N" (by decide)
  -- of the two positions of `N` only the second has none behind it
  obtain rfl : i = 1 := by
    have hlt : i < 2 := (List.getElem?_eq_some_iff.mp hi).1
    have hne : ¬ i < 1 := fun h => hlast 1 h rfl
    omega
  rw [hlookup, ← he]
  rfl

end Image
end TypeCatalog
