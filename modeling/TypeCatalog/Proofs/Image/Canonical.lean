import TypeCatalog.Proofs.Catalog.Effect
import TypeCatalog.Proofs.Image.Merge

/-!
# Every value has one form as bytes

**Input.** Any bytes, whether or not an encoder wrote them.

**Notion.** `Accounts before get put` says that the bytes which `get` takes from an input, together
with the bytes `before` that were taken already, are what `put` writes for the value. With nothing
taken before, `get` accepts no form of a value but the one that `put` writes.

**Rule.** The notion composes along the sequencing of decoders: every field adds its own bytes to
those before it, and after the last field these are the bytes of the structure. What could have a
second form is refused or kept: a number of a variant without meaning and a truth value other than
zero and one are refused, the bits of a flag word are kept, whether or not they have a meaning.

**Results.**
* `canonical_entity`, `canonical_list`: entities and lists have one form.
* `envelope_front`: the keys and the entities of an envelope account for the bytes before its
  metadata.
* `entries_canonical`: so equal entries come from equal bytes, and a load and save keeps them.
-/

namespace TypeCatalog
namespace Image

open Catalog

/-- The bytes that the decoder takes, behind those taken before, are the ones that the encoder
writes for the value. -/
structure Accounts
    {α : Type} (before : List UInt8) (get : Decoder α) (put : α → List UInt8) :
    Prop where
  eq : ∀ {input rest : List UInt8} {x : α}, get.run input = .ok (x, rest) →
    before ++ input = put x ++ rest

/-- The decoder accepts no form of a value but the one that the encoder writes. -/
abbrev Canonical
    {α : Type} (get : Decoder α) (put : α → List UInt8) :
    Prop :=
  Accounts [] get put

theorem run_bind_eq_ok
    {α β : Type} {get : Decoder α} {next : α → Decoder β}
    {input rest : List UInt8} {y : β}
    (h : (get >>= next).run input = .ok (y, rest)) :
    ∃ x middle, get.run input = .ok (x, middle) ∧ (next x).run middle = .ok (y, rest) := by
  have hrun : (get >>= next).run input =
      (get.run input).bind fun p => (next p.1).run p.2 := rfl
  rw [hrun] at h
  cases hx : get.run input with
  | error e =>
      rw [hx] at h
      cases h
  | ok p =>
      rw [hx] at h
      exact ⟨p.1, p.2, rfl, h⟩

namespace Accounts

variable {α β : Type} {before : List UInt8}

theorem pure
    {put : α → List UInt8} {x : α}
    (h : before = put x) :
    Accounts before (Pure.pure x) put := by
  constructor
  intro input rest y hy
  obtain ⟨rfl, rfl⟩ := Prod.mk.inj (Except.ok.inj hy)
  rw [h]

theorem throw
    {put : α → List UInt8} (e : CodecError) :
    Accounts before (MonadExcept.throw e) put := by
  constructor
  intro input rest x h
  cases h

/-- A field adds its bytes to those before it. -/
theorem bind
    {get : Decoder α} {next : α → Decoder β} {front : α → List UInt8} {put : β → List UInt8}
    (h : Canonical get front)
    (hnext : ∀ x, Accounts (before ++ front x) (next x) put) :
    Accounts before (get >>= next) put := by
  constructor
  intro input rest y hy
  obtain ⟨x, middle, hx, hnext'⟩ := run_bind_eq_ok hy
  have hinput : input = front x ++ middle := h.eq hx
  rw [hinput, ← List.append_assoc]
  exact (hnext x).eq hnext'

/-- Nothing is taken after the value. -/
theorem map
    {get : Decoder α} {f : α → β} {put : β → List UInt8}
    (h : Accounts before get fun x => put (f x)) :
    Accounts before (get >>= fun x => Pure.pure (f x)) put := by
  constructor
  intro input rest y hy
  obtain ⟨x, middle, hx, hy⟩ := run_bind_eq_ok hy
  obtain ⟨rfl, rfl⟩ := Prod.mk.inj (Except.ok.inj hy)
  exact h.eq hx

/-- Bytes stand for themselves, and there are as many as were asked for. -/
theorem bytes
    {n : Nat} {next : List UInt8 → Decoder β} {put : β → List UInt8}
    (hnext : ∀ bytes, bytes.length = n → Accounts (before ++ bytes) (next bytes) put) :
    Accounts before (getBytes n >>= next) put := by
  constructor
  intro input rest y hy
  obtain ⟨bytes, middle, hx, hnext'⟩ := run_bind_eq_ok hy
  obtain ⟨rfl, hlen⟩ := getBytes_eq_ok hx
  rw [← List.append_assoc]
  exact (hnext bytes hlen).eq hnext'

end Accounts

section Numbers

theorem ofLittleEndian_lt
    (bytes : List UInt8) :
    ofLittleEndian bytes < 256 ^ bytes.length := by
  induction bytes with
  | nil =>
      simp [ofLittleEndian]
  | cons b bytes ih =>
      have hb : b.toNat < 256 := b.toNat_lt
      rw [ofLittleEndian, List.length_cons, Nat.pow_succ]
      omega

/-- A number that was read is written as the bytes that it was read from. -/
theorem littleEndian_ofLittleEndian
    (bytes : List UInt8) :
    littleEndian bytes.length (ofLittleEndian bytes) = bytes := by
  induction bytes with
  | nil =>
      rfl
  | cons b bytes ih =>
      have hb : b.toNat < 256 := b.toNat_lt
      have hlow : UInt8.ofNat (b.toNat + 256 * ofLittleEndian bytes) = b := by
        apply UInt8.toNat_inj.mp
        rw [UInt8.toNat_ofNat']
        omega
      have hhigh : (b.toNat + 256 * ofLittleEndian bytes) / 256 = ofLittleEndian bytes := by
        omega
      rw [ofLittleEndian, List.length_cons, littleEndian, hlow, hhigh, ih]

theorem canonical_uint8 :
    Canonical getUInt8 putUInt8 := by
  constructor
  intro input rest n h
  cases input with
  | nil =>
      cases h
  | cons b bytes =>
      obtain ⟨rfl, rfl⟩ := Prod.mk.inj (Except.ok.inj h)
      rfl

theorem canonical_uint32 :
    Canonical getUInt32 putUInt32 := by
  refine .bytes fun bytes hlen => .pure ?_
  have hlt : ofLittleEndian bytes < 2 ^ 32 := by
    have := ofLittleEndian_lt bytes
    rwa [hlen] at this
  rw [putUInt32, UInt32.toNat_ofNat_of_lt' hlt, ← hlen, littleEndian_ofLittleEndian]
  rfl

theorem canonical_uint64 :
    Canonical getUInt64 putUInt64 := by
  refine .bytes fun bytes hlen => .pure ?_
  have hlt : ofLittleEndian bytes < 2 ^ 64 := by
    have := ofLittleEndian_lt bytes
    rwa [hlen] at this
  rw [putUInt64, UInt64.toNat_ofNat_of_lt' hlt, ← hlen, littleEndian_ofLittleEndian]
  rfl

theorem canonical_int64 :
    Canonical getInt64 putInt64 :=
  .bind canonical_uint64 fun _ => .pure rfl

theorem canonical_bool :
    Canonical getBool putBool := by
  refine .bind canonical_uint8 fun b => ?_
  split
  · exact .pure rfl
  · exact .pure rfl
  · exact .throw _

theorem canonical_length :
    Canonical getLength putLength := by
  refine .bind canonical_uint64 fun n => .pure ?_
  rw [putLength, UInt64.ofNat_toNat]
  rfl

/-- The number of a variant is written as the bits that it was read from. -/
theorem canonical_tag :
    Canonical getUInt32 fun n => putVariant n.toNat := by
  constructor
  intro input rest n h
  rw [putVariant, UInt32.ofNat_toNat]
  exact canonical_uint32.eq h

theorem canonical_variant
    {α : Type} {ofTag? : Nat → Option α} {tag : α → Nat}
    (htag : ∀ {n x}, ofTag? n = some x → tag x = n) :
    Canonical (getVariant ofTag?) fun x => putVariant (tag x) := by
  refine .bind canonical_tag fun n => ?_
  split
  · next x hx =>
      refine .pure ?_
      rw [htag hx]
      rfl
  · exact .throw _

end Numbers

section Collections

theorem canonical_text :
    Canonical getText putText := by
  refine .bind canonical_length fun n => .bytes fun bytes hlen => ?_
  split
  · next s hs =>
      have hbytes : s.toUTF8.toList = bytes := by
        unfold String.fromUTF8? at hs
        split at hs
        · obtain rfl := Option.some.inj hs
          rw [toList_toUTF8]
          rfl
        · cases hs
      refine .pure ?_
      rw [putText, ← length_toUTF8, hbytes, hlen]
      rfl
  · exact .throw _

variable {α : Type} {get : Decoder α} {put : α → List UInt8}

theorem canonical_option
    (h : Canonical get put) :
    Canonical (getOption get) (putOption put) := by
  refine .bind canonical_uint8 fun b => ?_
  split
  · exact .pure rfl
  · exact .bind h fun _ => .pure rfl
  · exact .throw _

theorem items_of_run
    (h : Canonical get put)
    {n : Nat} {input rest : List UInt8} {xs : List α}
    (hrun : (getItems get n).run input = .ok (xs, rest)) :
    xs.length = n ∧ input = xs.flatMap put ++ rest := by
  induction n generalizing input xs with
  | zero =>
      obtain ⟨rfl, rfl⟩ := Prod.mk.inj (Except.ok.inj hrun)
      exact ⟨rfl, rfl⟩
  | succ n ih =>
      obtain ⟨x, middle, hx, hrun⟩ := run_bind_eq_ok hrun
      obtain ⟨ys, last, hys, hrun⟩ := run_bind_eq_ok hrun
      obtain ⟨rfl, rfl⟩ := Prod.mk.inj (Except.ok.inj hrun)
      obtain ⟨rfl, rfl⟩ := ih hys
      have hinput : input = put x ++ (ys.flatMap put ++ last) := h.eq hx
      rw [hinput, List.flatMap_cons, List.append_assoc]
      exact ⟨rfl, rfl⟩

theorem canonical_list
    (h : Canonical get put) :
    Canonical (getList get) (putList put) := by
  refine .bind canonical_length fun n => ⟨?_⟩
  intro input rest xs hrun
  obtain ⟨rfl, rfl⟩ := items_of_run h hrun
  rw [putList, List.append_assoc]
  rfl

end Collections

section Entities

theorem canonical_ref :
    Canonical getRef putRef :=
  .bind canonical_text fun _ => .pure rfl

theorem canonical_kind :
    Canonical getKind putKind :=
  canonical_variant TypeKind.tag_eq_of_ofTag?

theorem canonical_access :
    Canonical getAccess putAccess :=
  canonical_variant Access.tag_eq_of_ofTag?

/-- All bits are kept, also those without a meaning. -/
theorem canonical_qualifiers :
    Canonical getQualifiers putQualifiers :=
  .bind canonical_uint8 fun _ => .pure rfl

/-- All bits are kept, also those without a meaning. -/
theorem canonical_specifiers :
    Canonical getSpecifiers putSpecifiers :=
  .bind canonical_uint32 fun _ => .pure rfl

theorem canonical_member :
    Canonical getMember putMember := by
  refine .bind canonical_text fun name => ?_
  refine .bind canonical_ref fun type => ?_
  refine .bind canonical_kind fun kind => ?_
  refine .bind canonical_access fun access => ?_
  refine .bind canonical_uint64 fun offset => ?_
  refine .bind canonical_text fun scope => ?_
  exact .bind (canonical_option canonical_int64) fun value => .pure rfl

theorem canonical_base :
    Canonical getBase putBase := by
  refine .bind canonical_ref fun type => ?_
  refine .bind canonical_access fun access => ?_
  refine .bind canonical_uint64 fun offset => ?_
  exact .bind canonical_bool fun isVirtual => .pure rfl

theorem canonical_parameter :
    Canonical getParameter putParameter := by
  refine .bind canonical_text fun name => ?_
  refine .bind canonical_ref fun type => ?_
  exact .bind canonical_bool fun hasDefault => .pure rfl

theorem canonical_prototype :
    Canonical getPrototype putPrototype := by
  refine .bind (canonical_list canonical_parameter) fun params => ?_
  refine .bind canonical_ref fun result => ?_
  exact .bind canonical_bool fun variadic => .pure rfl

theorem canonical_function :
    Canonical getFunction putFunction := by
  refine .bind canonical_text fun qualified => ?_
  refine .bind canonical_text fun scope => ?_
  refine .bind canonical_qualifiers fun qualifiers => ?_
  refine .bind canonical_specifiers fun specifiers => ?_
  exact .bind canonical_prototype fun proto => .pure rfl

theorem canonical_header :
    Canonical getHeader putHeader := by
  refine .bind canonical_text fun qualified => ?_
  refine .bind canonical_text fun scope => ?_
  refine .bind canonical_uint64 fun size => ?_
  refine .bind canonical_kind fun kind => ?_
  refine .bind canonical_qualifiers fun qualifiers => ?_
  exact .bind canonical_specifiers fun specifiers => .pure rfl

theorem ShapeTag.tag_eq_of_ofTag?
    {n : Nat} {t : ShapeTag}
    (h : ofTag? n = some t) :
    t.tag = n := by
  obtain ⟨hlt, rfl⟩ := List.getElem?_eq_some_iff.mp h
  have hnodup : all.Nodup := by decide
  exact hnodup.idxOf_getElem n hlt

/-- Behind the number of its variant and the header, the fields of a shape complete a type. -/
theorem accounts_shape
    (t : ShapeTag) (header : TypeHeader) :
    Accounts (putVariant t.tag ++ putHeader header) (getShape t)
      fun shape => putType ⟨header, shape⟩ := by
  cases t with
  | fundamental =>
      exact .pure (List.append_nil _).symm
  | cvQualified =>
      exact .bind canonical_ref fun _ => .pure rfl
  | pointer =>
      refine .bind canonical_ref fun pointee => ?_
      exact .bind (canonical_option canonical_text) fun memberOf => .pure (List.append_assoc ..)
  | reference =>
      exact .bind canonical_ref fun _ => .pure rfl
  | typedef =>
      exact .bind canonical_ref fun _ => .pure rfl
  | array =>
      refine .bind canonical_ref fun element => ?_
      exact .bind canonical_uint64 fun length => .pure (List.append_assoc ..)
  | structRecord =>
      refine .bind (canonical_list canonical_member) fun members => ?_
      exact .bind (canonical_list canonical_base) fun bases => .pure (List.append_assoc ..)
  | classRecord =>
      refine .bind (canonical_list canonical_member) fun members => ?_
      exact .bind (canonical_list canonical_base) fun bases => .pure (List.append_assoc ..)
  | enumeration =>
      exact .bind (canonical_list canonical_member) fun _ => .pure rfl
  | union =>
      exact .bind (canonical_list canonical_member) fun _ => .pure rfl
  | function =>
      exact .bind canonical_prototype fun _ => .pure rfl

theorem canonical_type :
    Canonical getType putType := by
  refine .bind (canonical_variant ShapeTag.tag_eq_of_ofTag?) fun variant => ?_
  refine .bind canonical_header fun header => ?_
  exact .map (accounts_shape variant header)

theorem canonical_namespace :
    Canonical getNamespace putNamespace := by
  refine .bind canonical_text fun qualified => ?_
  refine .bind canonical_text fun scope => ?_
  exact .bind (canonical_option canonical_text) fun aliasOf => .pure rfl

theorem canonical_overloads :
    Canonical getOverloads putOverloads := by
  refine .bind canonical_text fun qualified => ?_
  refine .bind canonical_text fun scope => ?_
  exact .bind (canonical_list canonical_function) fun functions => .pure rfl

theorem canonical_variable :
    Canonical getVariable putVariable := by
  refine .bind canonical_text fun qualified => ?_
  refine .bind canonical_text fun scope => ?_
  refine .bind canonical_ref fun type => ?_
  exact .bind canonical_specifiers fun specifiers => .pure rfl

/-- An entity has one form, whatever its variant. -/
theorem canonical_entity :
    Canonical getEntity putEntity := by
  refine .bind canonical_tag fun n => ?_
  generalize n.toNat = k
  split
  · exact .bind canonical_namespace fun _ => .pure rfl
  · exact .bind canonical_function fun _ => .pure rfl
  · exact .bind canonical_overloads fun _ => .pure rfl
  · exact .bind canonical_variable fun _ => .pure rfl
  · exact .bind canonical_member fun _ => .pure rfl
  · exact .bind canonical_type fun _ => .pure rfl
  · exact .throw _

end Entities

section Entries

/-- The keys and the entities of an envelope account for the bytes before its metadata. -/
theorem envelope_front
    {bytes rest : List UInt8} {envelope : Envelope}
    (h : getEnvelope.run bytes = .ok (envelope, rest)) :
    ∃ tail, bytes = putList putText envelope.keys ++ putList putEntity envelope.content ++ tail ∧
      getMetadata.run tail = .ok (envelope.metadata, rest) := by
  obtain ⟨keys, middle, hkeys, h⟩ := run_bind_eq_ok h
  obtain ⟨content, tail, hcontent, h⟩ := run_bind_eq_ok h
  obtain ⟨metadata, rest', hmetadata, h⟩ := run_bind_eq_ok h
  obtain ⟨rfl, rfl⟩ := Prod.mk.inj (Except.ok.inj h)
  have hfront : bytes = putList putText keys ++ middle := (canonical_list canonical_text).eq hkeys
  have hmiddle : middle = putList putEntity content ++ tail :=
    (canonical_list canonical_entity).eq hcontent
  refine ⟨tail, ?_, hmetadata⟩
  rw [hfront, hmiddle, List.append_assoc]

/-- An item stands as a whole among the bytes of its list. -/
theorem infix_putList
    {α : Type} {put : α → List UInt8} {xs : List α} {x : α}
    (hx : x ∈ xs) :
    put x <:+: putList put xs := by
  obtain ⟨front, back, rfl⟩ := List.append_of_mem hx
  refine ⟨putLength (front ++ x :: back).length ++ front.flatMap put, back.flatMap put, ?_⟩
  simp [putList]

/-- What is found under a name is saved under it. -/
theorem mem_entries_of_lookup
    {c : Catalog} {name : String} {e : Entity} (bag : Metadata)
    (hc : c.Coherent)
    (h : c.lookup name = some e) :
    (name, e) ∈ (Envelope.ofCatalog c bag).keys.zip (Envelope.ofCatalog c bag).content := by
  obtain ⟨i, hi, hentity⟩ := Option.bind_eq_some_iff.mp h
  have hslot : ⟨name, e⟩ ∈ c.slots := Array.mem_of_getElem? (hc.slot_of_indexOf? hi hentity)
  have hsorted := List.mergeSort_perm c.slots.toList fun a b => decide (a.key ≤ b.key)
  rw [Envelope.ofCatalog, List.zip_map']
  exact List.mem_map.mpr ⟨_, hsorted.mem_iff.mpr (Array.mem_toList_iff.mpr hslot), rfl⟩

/-- The bytes of a saved entity stand as a whole in the image. -/
theorem putEntity_infix_save
    {c : Catalog} {bag : Metadata} {e : Entity}
    (h : e ∈ (Envelope.ofCatalog c bag).content) :
    putEntity e <:+: save c bag := by
  have hitem : putEntity e <:+: putList putEntity (Envelope.ofCatalog c bag).content :=
    infix_putList h
  obtain ⟨front, back, heq⟩ := hitem
  refine ⟨putList putText (Envelope.ofCatalog c bag).keys ++ front, back ++ putMetadata bag, ?_⟩
  rw [save, putEnvelope, ← heq]
  simp only [List.append_assoc]
  rfl

end Entries

/-- Whatever the bytes are, those that an entity or the lists of an envelope are read from are the
ones that they are written as. So equal entries come from equal bytes. An entity that is loaded is found
and saved with every bit it was read with. -/
theorem entries_canonical
    (bytes : List UInt8) :
    (∀ e rest, getEntity.run bytes = .ok (e, rest) → bytes = putEntity e ++ rest) ∧
    (∀ keys rest, (getList getText).run bytes = .ok (keys, rest) →
      bytes = putList putText keys ++ rest) ∧
    (∀ content rest, (getList getEntity).run bytes = .ok (content, rest) →
      bytes = putList putEntity content ++ rest) ∧
    (∀ envelope rest, getEnvelope.run bytes = .ok (envelope, rest) →
      ∃ tail,
        bytes = putList putText envelope.keys ++ putList putEntity envelope.content ++ tail ∧
        getMetadata.run tail = .ok (envelope.metadata, rest)) ∧
    (∀ other e rest, getEntity.run bytes = .ok (e, rest) → getEntity.run other = .ok (e, rest) →
      bytes = other) ∧
    (∀ other envelope envelope' rest rest', getEnvelope.run bytes = .ok (envelope, rest) →
      getEnvelope.run other = .ok (envelope', rest') →
      envelope.keys = envelope'.keys → envelope.content = envelope'.content →
      ∃ entries tail tail', bytes = entries ++ tail ∧ other = entries ++ tail' ∧
        getMetadata.run tail = .ok (envelope.metadata, rest) ∧
        getMetadata.run tail' = .ok (envelope'.metadata, rest')) ∧
    (∀ t t' bag envelope rest, t.Reachable → Loader.image.load t bytes = (.ok bag, t') →
      getEnvelope.run bytes = .ok (envelope, rest) →
      ∀ key ∈ envelope.keys, ∃ e, (key, e) ∈ envelope.keys.zip envelope.content ∧
        putEntity e <:+: bytes ∧ t'.lookup key = some e ∧
        ∀ bag',
          (key, e) ∈ (Envelope.ofCatalog t' bag').keys.zip (Envelope.ofCatalog t' bag').content ∧
          putEntity e <:+: save t' bag') := by
  refine ⟨fun e rest => canonical_entity.eq, fun keys rest => (canonical_list canonical_text).eq,
    fun content rest => (canonical_list canonical_entity).eq, fun envelope rest => envelope_front,
    ?_, ?_, ?_⟩
  · intro other e rest h h'
    have hbytes : bytes = putEntity e ++ rest := canonical_entity.eq h
    have hother : other = putEntity e ++ rest := canonical_entity.eq h'
    rw [hbytes, hother]
  · intro other envelope envelope' rest rest' h h' hkeys hcontent
    obtain ⟨tail, hbytes, hmetadata⟩ := envelope_front h
    obtain ⟨tail', hother, hmetadata'⟩ := envelope_front h'
    rw [← hkeys, ← hcontent] at hother
    exact ⟨_, tail, tail', hbytes, hother, hmetadata, hmetadata'⟩
  · intro t t' bag envelope rest ht hload hread key hkey
    obtain ⟨envelope', rest', hread', hcheck, -, hmerge⟩ := load_ok_iff.mp hload
    obtain ⟨rfl, rfl⟩ := Prod.mk.inj (Except.ok.inj (hread.symm.trans hread'))
    obtain ⟨i, e, hi, -, he, hlookup⟩ := exists_last_entry ht.coherent hcheck hkey
    have hmerged := coherent_merge ht.coherent (envelope.keys.zip envelope.content)
    rw [hmerge] at hlookup hmerged
    have hentry : (envelope.keys.zip envelope.content)[i]? = some (key, e) :=
      List.getElem?_zip_eq_some.mpr ⟨hi, he⟩
    obtain ⟨tail, hbytes, -⟩ := envelope_front hread
    have hwithin : putEntity e <:+: bytes := by
      rw [hbytes]
      exact (infix_putList (List.mem_of_getElem? he)).trans (List.infix_append ..)
    refine ⟨e, List.mem_of_getElem? hentry, hwithin, hlookup, fun bag' => ?_⟩
    have hsaved := mem_entries_of_lookup bag' hmerged hlookup
    exact ⟨hsaved, putEntity_infix_save (List.of_mem_zip hsaved).2⟩

/-- An image of one variable, all bits of whose specifiers are set. -/
def flaggedImage :
    List UInt8 :=
  [1, 0, 0, 0, 0, 0, 0, 0, 1, 0, 0, 0, 0, 0, 0, 0, 118,
    1, 0, 0, 0, 0, 0, 0, 0, 3, 0, 0, 0, 1, 0, 0, 0, 0, 0, 0, 0, 118, 0, 0, 0, 0, 0, 0, 0, 0,
    3, 0, 0, 0, 0, 0, 0, 0, 105, 110, 116, 255, 255, 255, 255,
    0, 0, 0, 0, 0, 0, 0, 0]

/-- The variable of that image. -/
def flaggedVariable :
    Entity :=
  .ofVariable ⟨"v", "", .named "int", ⟨0xFFFFFFFF⟩⟩

theorem entries_canonical_flaggedImage :
    namespacesBefore.Reachable ∧
      getEnvelope.run flaggedImage = .ok (⟨["v"], [flaggedVariable], []⟩, []) ∧
      ∃ t', Loader.image.load namespacesBefore flaggedImage = (.ok [], t') ∧
        putEntity flaggedVariable <:+: flaggedImage ∧ t'.lookup "v" = some flaggedVariable ∧
        putEntity flaggedVariable <:+: save t' [] := by
  have ht : namespacesBefore.Reachable := ⟨_, rfl⟩
  have hread : getEnvelope.run flaggedImage = .ok (⟨["v"], [flaggedVariable], []⟩, []) := rfl
  have hload := load_ok_iff (t := namespacesBefore).mpr ⟨_, [], hread, rfl, rfl, rfl⟩
  obtain ⟨-, -, -, -, -, -, hkept⟩ := entries_canonical flaggedImage
  obtain ⟨e, hentry, hwithin, hlookup, hsaved⟩ := hkept _ _ _ _ _ ht hload hread "v" (by simp)
  obtain rfl : e = flaggedVariable := by
    simpa using hentry
  exact ⟨ht, hread, _, hload, hwithin, hlookup, (hsaved []).2⟩

end Image
end TypeCatalog
