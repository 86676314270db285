import Mathlib.Data.String.Basic
import TypeCatalog.Image.Envelope
import TypeCatalog.Proofs.Image.EntityReads

/-!
# Reading back metadata

**Well-formedness.** A map is a list of pairs in strictly ascending order of the keys, at every depth
of a value. Only such lists stand for maps.

**Fuel.** The decoder of values has a bound on the depth of nesting, which is the number of bytes
left. A value inside another has fewer bytes than the value around it, so the bound is never met.

**Results.**
* `ofPairs_eq_self`: entering the pairs of a well-formed map one by one gives the map.
* `reads_metadata`: every well-formed bag of metadata is read back.
-/

namespace TypeCatalog

/-- The keys of the pairs are in strictly ascending order. -/
def Metadata.Ascending
    (fields : List (String × MetaValue)) :
    Prop :=
  fields.Pairwise fun p q => p.1 < q.1

mutual

/-- Every map within the value is in ascending order. -/
def MetaValue.WellFormed :
    MetaValue → Prop
  | .bool _ | .int _ | .float _ | .text _ => True
  | .list items => MetaValue.WellFormedItems items
  | .map fields => Metadata.Ascending fields ∧ MetaValue.WellFormedFields fields

/-- Every item of a list is well-formed. -/
def MetaValue.WellFormedItems :
    List MetaValue → Prop
  | [] => True
  | v :: vs => v.WellFormed ∧ MetaValue.WellFormedItems vs

/-- Every value of a map is well-formed. -/
def MetaValue.WellFormedFields :
    List (String × MetaValue) → Prop
  | [] => True
  | (_, v) :: fields => v.WellFormed ∧ MetaValue.WellFormedFields fields

end

/-- A bag of metadata is a well-formed map. -/
def Metadata.WellFormed
    (bag : Metadata) :
    Prop :=
  Metadata.Ascending bag ∧ MetaValue.WellFormedFields bag

theorem MetaValue.wellFormedItems_iff
    {items : List MetaValue} :
    MetaValue.WellFormedItems items ↔ ∀ v ∈ items, v.WellFormed := by
  induction items with
  | nil =>
      simp [MetaValue.WellFormedItems]
  | cons v items ih =>
      simp [MetaValue.WellFormedItems, ih]

theorem MetaValue.wellFormedFields_iff
    {fields : List (String × MetaValue)} :
    MetaValue.WellFormedFields fields ↔ ∀ p ∈ fields, p.2.WellFormed := by
  induction fields with
  | nil =>
      simp [MetaValue.WellFormedFields]
  | cons p fields ih =>
      simp [MetaValue.WellFormedFields, ih]

namespace Metadata

theorem insertField_eq_append
    {bag : Metadata} {key : String} {value : MetaValue}
    (h : ∀ p ∈ bag, p.1 < key) :
    insertField key value bag = bag ++ [(key, value)] := by
  induction bag with
  | nil =>
      rfl
  | cons p bag ih =>
      obtain ⟨k, v⟩ := p
      have hk : k < key := h (k, v) (by simp)
      have hnlt : ¬ key < k := lt_asymm hk
      have hne : key ≠ k := fun heq => lt_irrefl k (heq ▸ hk)
      rw [insertField, if_neg hnlt, if_neg hne, ih fun q hq => h q (List.mem_cons_of_mem _ hq)]
      rfl

theorem foldl_insertField
    {front pairs : List (String × MetaValue)}
    (h : Ascending (front ++ pairs)) :
    pairs.foldl (fun bag p => insertField p.1 p.2 bag) front = front ++ pairs := by
  induction pairs generalizing front with
  | nil =>
      simp
  | cons p pairs ih =>
      have hlast : ∀ q ∈ front, q.1 < p.1 := by
        intro q hq
        exact (List.pairwise_append.mp h).2.2 q hq p (by simp)
      have hrest : Ascending ((front ++ [p]) ++ pairs) := by
        simpa using h
      rw [List.foldl_cons, insertField_eq_append hlast, ih hrest]
      simp

/-- Entering the pairs of an ascending list one by one gives the list. -/
theorem ofPairs_eq_self
    {pairs : List (String × MetaValue)}
    (h : Ascending pairs) :
    ofPairs pairs = pairs :=
  foldl_insertField (by simpa using h)

end Metadata

namespace Image

theorem length_putMeta_pos
    (v : MetaValue) :
    0 < (putMeta v).length := by
  cases v <;> simp only [putMeta, List.length_append, length_putVariant] <;> omega

/-- The bytes of a pair of a text and a value. -/
def putField
    (p : String × MetaValue) :
    List UInt8 :=
  putText p.1 ++ putMeta p.2

theorem length_putField
    (p : String × MetaValue) :
    (putField p).length = (putText p.1).length + (putMeta p.2).length :=
  List.length_append

theorem length_putField_pos
    (p : String × MetaValue) :
    0 < (putField p).length := by
  have hv := length_putMeta_pos p.2
  rw [length_putField]
  omega

theorem putMetaItems_eq_flatMap
    (items : List MetaValue) :
    putMetaItems items = items.flatMap putMeta := by
  induction items with
  | nil =>
      rfl
  | cons v items ih =>
      rw [putMetaItems, ih, List.flatMap_cons]

theorem putMetaFields_eq_flatMap
    (fields : List (String × MetaValue)) :
    putMetaFields fields = fields.flatMap putField := by
  induction fields with
  | nil =>
      rfl
  | cons p fields ih =>
      rw [putMetaFields, ih, List.flatMap_cons]
      rfl

theorem reads_field
    {depth : Nat} {p : String × MetaValue}
    (hlen : (putField p).length < 2 ^ 64)
    (h : Reads (getMetaWithin depth) (putMeta p.2) p.2) :
    Reads (getField (getMetaWithin depth)) (putField p) p := by
  rw [length_putField] at hlen
  exact .bind (reads_text (by omega)) (h.finish rfl)

/-- A list of values is read back when each of them is. -/
theorem reads_values
    {α : Type} {get : Decoder α} {put : α → List UInt8} {xs : List α}
    (hpos : ∀ x, 0 < (put x).length)
    (hlen : (putList put xs).length < 2 ^ 64)
    (h : ∀ x ∈ xs, (put x).length < 2 ^ 64 → Reads get (put x) x) :
    Reads (getList get) (putList put xs) xs := by
  have hread : Reads (getList get) (putList put xs) (xs.map id) := reads_list hlen hpos h
  rwa [List.map_id] at hread

/-- A value is read back within any depth that its bytes do not exceed. -/
theorem reads_meta
    (depth : Nat) (v : MetaValue)
    (hwf : v.WellFormed)
    (hdepth : (putMeta v).length ≤ depth)
    (hlen : (putMeta v).length < 2 ^ 64) :
    Reads (getMetaWithin depth) (putMeta v) v := by
  -- a value inside has fewer bytes than the value around it, so one level of depth is enough
  induction depth generalizing v with
  | zero =>
      have hpos := length_putMeta_pos v
      omega
  | succ depth ih =>
      cases v with
      | bool b =>
          exact .bind (reads_uint32 0) ((reads_bool b).finish rfl)
      | int i =>
          exact .bind (reads_uint32 1) ((reads_int64 i).finish rfl)
      | float bits =>
          exact .bind (reads_uint32 2) ((reads_uint64 bits).finish rfl)
      | text s =>
          simp only [putMeta, List.length_append] at hlen
          exact .bind (reads_uint32 3) ((reads_text (by omega)).finish rfl)
      | list items =>
          have hbytes : putMeta (.list items) = putVariant 4 ++ putList putMeta items := by
            rw [putMeta, putMetaItems_eq_flatMap, List.append_assoc]
            rfl
          rw [hbytes, List.length_append, length_putVariant] at hdepth hlen
          rw [hbytes]
          refine .bind (reads_uint32 4) (.finish ?_ rfl)
          refine reads_values length_putMeta_pos (by omega) fun v hv hvlen => ?_
          have hle := length_le_putList_of_mem (f := putMeta) hv
          exact ih v (MetaValue.wellFormedItems_iff.mp hwf v hv) (by omega) hvlen
      | map fields =>
          have hbytes : putMeta (.map fields) = putVariant 5 ++ putList putField fields := by
            rw [putMeta, putMetaFields_eq_flatMap, List.append_assoc]
            rfl
          rw [hbytes, List.length_append, length_putVariant] at hdepth hlen
          rw [hbytes]
          obtain ⟨hsorted, hvalues⟩ := hwf
          refine .bind (reads_uint32 5) (.finish (x := fields) ?_ ?_)
          · refine reads_values length_putField_pos (by omega) fun p hp hplen => ?_
            have hle := length_le_putList_of_mem (f := putField) hp
            have hpair := length_putField p
            have hvwf : p.2.WellFormed := MetaValue.wellFormedFields_iff.mp hvalues p hp
            exact reads_field hplen (ih p.2 hvwf (by omega) (by omega))
          · rw [Metadata.ofPairs_eq_self hsorted]

theorem run_get_bind
    {α : Type} (next : List UInt8 → Decoder α) (input : List UInt8) :
    ((MonadState.get : Decoder (List UInt8)) >>= next).run input = (next input).run input :=
  rfl

/-- A well-formed bag of metadata is read back. -/
theorem reads_metadata
    {bag : Metadata}
    (hwf : bag.WellFormed)
    (hlen : (putMetadata bag).length < 2 ^ 64) :
    Reads getMetadata (putMetadata bag) bag := by
  intro rest
  have hbytes : putMetadata bag = putList putField bag := by
    rw [putMetadata, putMetaFields_eq_flatMap]
    rfl
  have hlist : Reads (getList (getField (getMetaWithin (putMetadata bag ++ rest).length)))
      (putMetadata bag) bag := by
    rw [hbytes, List.length_append]
    rw [hbytes] at hlen
    refine reads_values length_putField_pos hlen fun p hp hplen => ?_
    have hle := length_le_putList_of_mem (f := putField) hp
    have hpair := length_putField p
    have hvwf : p.2.WellFormed := MetaValue.wellFormedFields_iff.mp hwf.2 p hp
    exact reads_field hplen (reads_meta _ p.2 hvwf (by omega) (by omega))
  rw [getMetadata, run_get_bind]
  refine hlist.finish ?_ rest
  rw [Metadata.ofPairs_eq_self hwf.1]

end Image
end TypeCatalog
