import TypeCatalog.Proofs.Image.RoundTrip

/-!
# Truncated images

**Input.** A piece from the front of the image of a catalog with metadata, and any catalog that it
is loaded into.

**Notion.** A decoder goes from left to right and looks at no byte behind those it takes. So on a
longer input it gives the same value, and it fails for the same reason, unless that reason was the
end of the input. `Continues get longer` says this of two decoders, the second of which may go deeper
into nested values: the bound on the depth of metadata is the number of bytes left, which grows with
the input.

**Rule.** The whole image is read without a rest. If less of it were read with success, the whole
would leave a rest; if less of it failed for a reason in the bytes, so would the whole. What remains
is that the input ends too early.

**Results.**
* `Continues.bind`: the notion composes along the sequencing of decoders, so every decoder has it.
* `run_truncated`: a decoder fails on a piece of what it reads as a whole with the end of the input.
* `load_truncated_iff`: so does the load of an image, which leaves the catalog alone.
-/

namespace TypeCatalog
namespace Image

/-- Whatever the first decoder does on an input, the second does on every longer input, except where
the first fails at the end of the input. -/
structure Continues
    {α : Type} (get longer : Decoder α) :
    Prop where
  ok : ∀ {front rest : List UInt8} {x : α}, get.run front = .ok (x, rest) →
    ∀ back, longer.run (front ++ back) = .ok (x, rest ++ back)
  error : ∀ {front : List UInt8} {e : CodecError}, get.run front = .error e →
    e ≠ .endOfInput → ∀ back, longer.run (front ++ back) = .error e

namespace Continues

variable {α β : Type}

theorem pure
    (x : α) :
    Continues (Pure.pure x : Decoder α) (Pure.pure x) where
  ok := by
    intro front rest y h back
    obtain ⟨rfl, rfl⟩ := Prod.mk.inj (Except.ok.inj h)
    rfl
  error := by
    intro front e h
    cases h

theorem throw
    (e : CodecError) :
    Continues (MonadExcept.throw e : Decoder α) (MonadExcept.throw e) where
  ok := by
    intro front rest x h
    cases h
  error := by
    intro front e' h _ back
    cases h
    rfl

/-- A decoder that gives up at the end of the input is continued by every other. -/
theorem endOfInput
    (longer : Decoder α) :
    Continues (MonadExcept.throw .endOfInput) longer where
  ok := by
    intro front rest x h
    cases h
  error := by
    intro front e h hne
    cases h
    exact absurd rfl hne

theorem bind
    {get longer : Decoder α} {next after : α → Decoder β}
    (h : Continues get longer)
    (hnext : ∀ x, Continues (next x) (after x)) :
    Continues (get >>= next) (longer >>= after) := by
  have hrun : ∀ (first : Decoder α) (second : α → Decoder β) (input : List UInt8),
      (first >>= second).run input =
        (first.run input).bind fun p => (second p.1).run p.2 := fun _ _ _ => rfl
  constructor
  · intro front rest y hy back
    rw [hrun] at hy ⊢
    cases hx : get.run front with
    | error e =>
        rw [hx] at hy
        cases hy
    | ok p =>
        rw [hx] at hy
        rw [h.ok hx back]
        exact (hnext p.1).ok hy back
  · intro front e he hne back
    rw [hrun] at he ⊢
    cases hx : get.run front with
    | error e' =>
        rw [hx] at he
        cases he
        rw [h.error hx hne back]
        rfl
    | ok p =>
        rw [hx] at he
        rw [h.ok hx back]
        exact (hnext p.1).error he hne back

end Continues

/-- A decoder that has read an input to its end fails on less of that input for want of the rest. -/
theorem run_truncated
    {α : Type} {get : Decoder α} {front bytes : List UInt8} {x : α}
    (h : Continues get get)
    (hread : get.run bytes = .ok (x, []))
    (hfront : front <+: bytes)
    (hne : front ≠ bytes) :
    get.run front = .error .endOfInput := by
  obtain ⟨back, rfl⟩ := hfront
  have hback : back ≠ [] := by
    rintro rfl
    exact hne (by simp)
  cases hrun : get.run front with
  | ok p =>
      -- the same value would be read from the whole, with the missing bytes as a rest
      rw [h.ok hrun back] at hread
      have hrest : p.2 ++ back = [] := (Prod.mk.inj (Except.ok.inj hread)).2
      exact absurd (List.append_eq_nil_iff.mp hrest).2 hback
  | error e =>
      by_cases he : e = .endOfInput
      · rw [he]
      · rw [h.error hrun he back] at hread
        cases hread

section PlainValues

theorem continues_bytes
    (n : Nat) :
    Continues (getBytes n) (getBytes n) := by
  constructor
  · intro front rest bytes h back
    obtain ⟨rfl, hlen⟩ := getBytes_eq_ok h
    rw [List.append_assoc]
    exact reads_bytes hlen (rest ++ back)
  · intro front e h hne
    simp only [getBytes, StateT.run] at h
    split at h
    · cases h
    · cases h
      exact absurd rfl hne

theorem continues_uint8 :
    Continues getUInt8 getUInt8 := by
  constructor
  · intro front rest n h back
    cases front with
    | nil =>
        cases h
    | cons b bs =>
        obtain ⟨rfl, rfl⟩ := Prod.mk.inj (Except.ok.inj h)
        rfl
  · intro front e h hne
    cases front with
    | nil =>
        cases h
        exact absurd rfl hne
    | cons b bs =>
        cases h

theorem continues_uint32 :
    Continues getUInt32 getUInt32 :=
  .bind (continues_bytes 4) fun _ => .pure _

theorem continues_uint64 :
    Continues getUInt64 getUInt64 :=
  .bind (continues_bytes 8) fun _ => .pure _

theorem continues_int64 :
    Continues getInt64 getInt64 :=
  .bind continues_uint64 fun _ => .pure _

theorem continues_bool :
    Continues getBool getBool := by
  refine .bind continues_uint8 fun b => ?_
  split
  · exact .pure false
  · exact .pure true
  · exact .throw _

theorem continues_length :
    Continues getLength getLength :=
  .bind continues_uint64 fun _ => .pure _

theorem continues_variant
    {α : Type} (ofTag? : Nat → Option α) :
    Continues (getVariant ofTag?) (getVariant ofTag?) := by
  refine .bind continues_uint32 fun n => ?_
  split
  · exact .pure _
  · exact .throw _

theorem continues_text :
    Continues getText getText := by
  refine .bind continues_length fun n => ?_
  refine .bind (continues_bytes n) fun bytes => ?_
  split
  · exact .pure _
  · exact .throw _

variable {α : Type} {get longer : Decoder α}

theorem continues_option
    (h : Continues get longer) :
    Continues (getOption get) (getOption longer) := by
  refine .bind continues_uint8 fun b => ?_
  split
  · exact .pure none
  · exact .bind h fun _ => .pure _
  · exact .throw _

theorem continues_items
    (h : Continues get longer) (n : Nat) :
    Continues (getItems get n) (getItems longer n) := by
  induction n with
  | zero =>
      exact .pure []
  | succ n ih =>
      exact .bind h fun _ => .bind ih fun _ => .pure _

theorem continues_list
    (h : Continues get longer) :
    Continues (getList get) (getList longer) :=
  .bind continues_length fun n => continues_items h n

end PlainValues

section Entities

theorem continues_ref :
    Continues getRef getRef :=
  .bind continues_text fun _ => .pure _

theorem continues_qualifiers :
    Continues getQualifiers getQualifiers :=
  .bind continues_uint8 fun _ => .pure _

theorem continues_specifiers :
    Continues getSpecifiers getSpecifiers :=
  .bind continues_uint32 fun _ => .pure _

theorem continues_member :
    Continues getMember getMember := by
  refine .bind continues_text fun name => ?_
  refine .bind continues_ref fun type => ?_
  refine .bind (continues_variant _) fun kind => ?_
  refine .bind (continues_variant _) fun access => ?_
  refine .bind continues_uint64 fun offset => ?_
  refine .bind continues_text fun scope => ?_
  exact .bind (continues_option continues_int64) fun value => .pure _

theorem continues_base :
    Continues getBase getBase := by
  refine .bind continues_ref fun type => ?_
  refine .bind (continues_variant _) fun access => ?_
  refine .bind continues_uint64 fun offset => ?_
  exact .bind continues_bool fun isVirtual => .pure _

theorem continues_parameter :
    Continues getParameter getParameter := by
  refine .bind continues_text fun name => ?_
  refine .bind continues_ref fun type => ?_
  exact .bind continues_bool fun hasDefault => .pure _

theorem continues_prototype :
    Continues getPrototype getPrototype := by
  refine .bind (continues_list continues_parameter) fun params => ?_
  refine .bind continues_ref fun result => ?_
  exact .bind continues_bool fun variadic => .pure _

theorem continues_function :
    Continues getFunction getFunction := by
  refine .bind continues_text fun qualified => ?_
  refine .bind continues_text fun scope => ?_
  refine .bind continues_qualifiers fun qualifiers => ?_
  refine .bind continues_specifiers fun specifiers => ?_
  exact .bind continues_prototype fun proto => .pure _

theorem continues_header :
    Continues getHeader getHeader := by
  refine .bind continues_text fun qualified => ?_
  refine .bind continues_text fun scope => ?_
  refine .bind continues_uint64 fun size => ?_
  refine .bind (continues_variant _) fun kind => ?_
  refine .bind continues_qualifiers fun qualifiers => ?_
  exact .bind continues_specifiers fun specifiers => .pure _

theorem continues_shape
    (t : ShapeTag) :
    Continues (getShape t) (getShape t) := by
  cases t with
  | fundamental =>
      exact .pure _
  | cvQualified =>
      exact .bind continues_ref fun _ => .pure _
  | pointer =>
      refine .bind continues_ref fun pointee => ?_
      exact .bind (continues_option continues_text) fun memberOf => .pure _
  | reference =>
      exact .bind continues_ref fun _ => .pure _
  | typedef =>
      exact .bind continues_ref fun _ => .pure _
  | array =>
      exact .bind continues_ref fun element => .bind continues_uint64 fun length => .pure _
  | structRecord =>
      refine .bind (continues_list continues_member) fun members => ?_
      exact .bind (continues_list continues_base) fun bases => .pure _
  | classRecord =>
      refine .bind (continues_list continues_member) fun members => ?_
      exact .bind (continues_list continues_base) fun bases => .pure _
  | enumeration =>
      exact .bind (continues_list continues_member) fun members => .pure _
  | union =>
      exact .bind (continues_list continues_member) fun members => .pure _
  | function =>
      exact .bind continues_prototype fun proto => .pure _

theorem continues_type :
    Continues getType getType := by
  refine .bind (continues_variant _) fun variant => ?_
  refine .bind continues_header fun header => ?_
  exact .bind (continues_shape variant) fun shape => .pure _

theorem continues_namespace :
    Continues getNamespace getNamespace := by
  refine .bind continues_text fun qualified => ?_
  refine .bind continues_text fun scope => ?_
  exact .bind (continues_option continues_text) fun aliasOf => .pure _

theorem continues_overloads :
    Continues getOverloads getOverloads := by
  refine .bind continues_text fun qualified => ?_
  refine .bind continues_text fun scope => ?_
  exact .bind (continues_list continues_function) fun functions => .pure _

theorem continues_variable :
    Continues getVariable getVariable := by
  refine .bind continues_text fun qualified => ?_
  refine .bind continues_text fun scope => ?_
  refine .bind continues_ref fun type => ?_
  exact .bind continues_specifiers fun specifiers => .pure _

theorem continues_entity :
    Continues getEntity getEntity := by
  refine .bind continues_uint32 fun n => ?_
  split
  · exact .bind continues_namespace fun _ => .pure _
  · exact .bind continues_function fun _ => .pure _
  · exact .bind continues_overloads fun _ => .pure _
  · exact .bind continues_variable fun _ => .pure _
  · exact .bind continues_member fun _ => .pure _
  · exact .bind continues_type fun _ => .pure _
  · exact .throw _

end Entities

section Envelopes

theorem continues_field
    {α : Type} {get longer : Decoder α}
    (h : Continues get longer) :
    Continues (getField get) (getField longer) :=
  .bind continues_text fun _ => .bind h fun _ => .pure _

/-- A decoder of metadata values is continued by one that may go deeper. -/
theorem continues_metaWithin
    {depth deeper : Nat}
    (hle : depth ≤ deeper) :
    Continues (getMetaWithin depth) (getMetaWithin deeper) := by
  induction depth generalizing deeper with
  | zero =>
      exact .endOfInput _
  | succ depth ih =>
      obtain ⟨deeper, rfl⟩ : ∃ d, deeper = d + 1 := ⟨deeper - 1, by omega⟩
      have hvalue : Continues (getMetaWithin depth) (getMetaWithin deeper) := ih (by omega)
      refine .bind continues_uint32 fun n => ?_
      split
      · exact .bind continues_bool fun _ => .pure _
      · exact .bind continues_int64 fun _ => .pure _
      · exact .bind continues_uint64 fun _ => .pure _
      · exact .bind continues_text fun _ => .pure _
      · exact .bind (continues_list hvalue) fun _ => .pure _
      · exact .bind (continues_list (continues_field hvalue)) fun _ => .pure _
      · exact .throw _

theorem continues_metadata :
    Continues getMetadata getMetadata := by
  -- a longer input allows for a greater depth, so the decoders on both sides differ
  have hdepth : ∀ front back : List UInt8,
      Continues
        (getList (getField (getMetaWithin front.length)) >>= fun pairs =>
          Pure.pure (Metadata.ofPairs pairs))
        (getList (getField (getMetaWithin (front ++ back).length)) >>= fun pairs =>
          Pure.pure (Metadata.ofPairs pairs)) := by
    intro front back
    have hle : front.length ≤ (front ++ back).length := by
      rw [List.length_append]
      omega
    exact .bind (continues_list (continues_field (continues_metaWithin hle))) fun _ => .pure _
  constructor
  · intro front rest bag h back
    rw [getMetadata, run_get_bind] at h ⊢
    exact (hdepth front back).ok h back
  · intro front e h hne back
    rw [getMetadata, run_get_bind] at h ⊢
    exact (hdepth front back).error h hne back

theorem continues_envelope :
    Continues getEnvelope getEnvelope := by
  refine .bind (continues_list continues_text) fun keys => ?_
  refine .bind (continues_list continues_entity) fun content => ?_
  exact .bind continues_metadata fun metadata => .pure _

end Envelopes

/-- A piece from the front of an image cannot be loaded for want of the rest, and leaves the catalog
alone, exactly when it is not the whole image. -/
theorem load_truncated_iff
    (c : Catalog) (bag : Metadata) (front : List UInt8) (t : Catalog)
    (hbag : bag.WellFormed)
    (hlen : (save c bag).length < 2 ^ 64)
    (hfront : front <+: save c bag) :
    Loader.image.load t front = (.error (.image (.codec .endOfInput)), t) ↔ front ≠ save c bag := by
  obtain ⟨envelope, hread⟩ : ∃ envelope, getEnvelope.run (save c bag) = .ok (envelope, []) := by
    have hwhole : getEnvelope.run (save c bag ++ []) = _ := reads_envelope hbag hlen []
    rw [List.append_nil] at hwhole
    exact ⟨_, hwhole⟩
  constructor
  · rintro hload rfl
    simp only [Loader.load, load, hread] at hload
    cases hcheck : envelope.mismatch? with
    | none =>
        simp [hcheck] at hload
    | some m =>
        simp [hcheck] at hload
  · intro hne
    have hrun := run_truncated continues_envelope hread hfront hne
    simp only [Loader.load, load, hrun]

/-- A class with a virtual base and a data member. -/
def derivedClass :
    Catalog :=
  let member := (Member.declare "m" (.named "int") .int .priv 8).inScope "C"
  ⟨#[⟨"C", .ofType (.make "C" "" 16 .record
      (.record .classKey [member] [⟨.named "B", .pub, 0, true⟩]))⟩], ∅⟩

/-- A text in a list, and a number. -/
def listBag :
    Metadata :=
  [("a", .list [.text "t"]), ("b", .int (-1))]

theorem load_truncated_derivedClass :
    Metadata.WellFormed listBag ∧ (save derivedClass listBag).length < 2 ^ 64 ∧
      Loader.image.load derivedClass [] =
        (.error (.image (.codec .endOfInput)), derivedClass) ∧
      Loader.image.load derivedClass (save derivedClass listBag).dropLast =
        (.error (.image (.codec .endOfInput)), derivedClass) := by
  have hbag : Metadata.WellFormed listBag := by
    have hab : "a" < "b" := by decide
    simp only [Metadata.WellFormed, Metadata.Ascending, MetaValue.WellFormedFields,
      MetaValue.WellFormed, MetaValue.WellFormedItems, listBag, List.pairwise_pair, hab, and_self]
  have hlen : (save derivedClass listBag).length < 2 ^ 64 := by
    simp [save, putEnvelope, Envelope.ofCatalog, derivedClass, putList, putLength, putUInt64,
      putEntity, putType, putVariant, putUInt32, putHeader, putShape, DataType.make, putMember,
      putBase, putOption, putKind, putAccess, putQualifiers, putSpecifiers, putRef, putMetadata,
      listBag, putMetaFields, putMeta, putMetaItems, putInt64, putUInt8, Member.declare,
      Member.inScope, putBool]
    decide +kernel
  have hpos : 0 < (save derivedClass listBag).length := by
    simp only [save, putEnvelope, putList, putLength, putUInt64, List.length_append,
      length_littleEndian]
    omega
  refine ⟨hbag, hlen, ?_, ?_⟩
  · exact (load_truncated_iff derivedClass listBag [] derivedClass hbag hlen
      List.nil_prefix).mpr (List.ne_nil_of_length_pos hpos).symm
  · refine (load_truncated_iff derivedClass listBag _ derivedClass hbag hlen
      (List.dropLast_prefix _)).mpr fun heq => ?_
    have hlength := congrArg List.length heq
    rw [List.length_dropLast] at hlength
    omega

end Image
end TypeCatalog
