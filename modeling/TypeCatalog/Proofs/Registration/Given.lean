import TypeCatalog.Proofs.Registration.Layout
import TypeCatalog.Proofs.Registration.Resolving

/-!
# The kinds and sizes that a document gives to spellings

**Input.** What a registration reads: the elements of a document, its index and its namer.

**Rule.** The data members of a record and qualified types record the kind of another type; type
aliases and qualified types record its size. Both are read off the document by ids. Several ids may
have one spelling: that of the type that is registered under it, and those for which a kind or size is
recorded. The document gives the spelling the kinds of the ones and the sizes of the others.

**Invariant.** A kind or size in a catalog is one that the document gives to the spelling that it is
recorded for.

**Results.**
* `StructuralTypeOf.hasKind`, `StructuralTypeOf.hasSize`: a type made from others has the kind and
  size of its element.
* `Demanded.keepsGiven`: whatever the document demands keeps the invariant.
-/

namespace TypeCatalog

namespace DataType

/-- The kinds that a type records for its references: those of the data members of a record, or that
of the type it qualifies. -/
def recordedKinds
    (t : DataType) :
    List (TypeRef × TypeKind) :=
  match t.shape with
  | .record _ members _ | .union members _ =>
      (members.filter (·.isData)).map fun m => (m.type, m.kind)
  | .cvQualified r => [(r, t.header.kind)]
  | _ => []

/-- The sizes that a type records for its references: that of the target of a type alias, or of the
type it qualifies. -/
def recordedSizes
    (t : DataType) :
    List (TypeRef × UInt64) :=
  match t.shape with
  | .cvQualified r | .typedef r => [(r, t.header.size)]
  | _ => []

end DataType

namespace Source

open Registration Request Catalog Layout

variable (s : Source)

/-- A kind and a size are recorded for the id: it is that of the target of a qualified type, or of an
undefined id that is read, or the latter qualifies it. -/
inductive Mentions
    (id : String) :
    Prop
  | target
      {e : Element}
      (he : e ∈ s.elements)
      (hkind : e.kind = .cvQualified)
      (hid : e.attr? "type" = some id) :
      Mentions id
  | undefined
      (hread : s.Reads id)
      (hundefined : s.index.find? id = none) :
      Mentions id
  | base
      {qualified : String} {q : Qualifiers}
      (hread : s.Reads qualified)
      (hundefined : s.index.find? qualified = none)
      (hbase : Spelling.qualifiedId? qualified = some (id, q)) :
      Mentions id

/-- A kind is recorded for the id, if only that of a data member. -/
inductive RecordsKind
    (id : String) :
    Prop
  | dataMember
      {record m : Element} {mid : String}
      (hrecord : record ∈ s.elements)
      (hkind : record.kind.isRecord = true)
      (hmid : mid ∈ record.memberIds)
      (hm : s.index.find? mid = some m)
      (hdata : m.kind = .field ∨ m.kind = .data)
      (hid : m.attr? "type" = some id) :
      RecordsKind id
  | mentioned
      (h : s.Mentions id) :
      RecordsKind id

/-- A size is recorded for the id, if only that of the target of a type alias that is registered. -/
inductive RecordsSize
    (id : String) :
    Prop
  | aliasTarget
      {e : Element}
      (he : e ∈ s.elements)
      (hkind : e.kind = .typedef)
      (hregistered : s.Registered e)
      (hid : e.attr? "type" = some id) :
      RecordsSize id
  | mentioned
      (h : s.Mentions id) :
      RecordsSize id

/-- The id is that of a type that is registered, or something is recorded for it, and it is spelled
so. -/
inductive Bears
    (recorded : String → Prop) (name id : String) :
    Prop
  | registered
      {e : Element}
      (he : e ∈ s.elements)
      (htype : e.kind ∈ typeKinds)
      (hregistered : s.Registered e)
      (hid : e.id = id)
      (hname : s.Names id name) :
      Bears recorded name id
  | recorded
      (hrecorded : recorded id)
      (hname : s.Names id name) :
      Bears recorded name id

/-- The spelling is that of the type of a member function. -/
def SpellsMemberFunction
    (name : String) :
    Prop :=
  ∃ record ∈ s.elements, record.kind.isRecord = true ∧ ∃ mid ∈ record.memberIds, ∃ m cls,
    s.index.find? mid = some m ∧ m.kind.isMemberFunction = true ∧ s.Names record.id cls ∧
      s.MemberFunctionSpelling m cls name

/-- The document gives a spelling a kind: that of an id of the spelling, or for builtin types that
of the spelling itself. -/
inductive GivesKind
    (name : String) :
    TypeKind → Prop
  | id
      {id : String} {k : TypeKind}
      (hid : s.Bears s.RecordsKind name id)
      (hkind : HasKind s.index id k) :
      GivesKind name k
  | builtin
      {e : Element} {k : TypeKind}
      (he : e ∈ s.elements)
      (hkind : e.kind = .fundamental)
      (hname : s.Names e.id name)
      (hbuiltin : builtinKind name = .ok k) :
      GivesKind name k
  | memberFunction
      (hname : s.SpellsMemberFunction name) :
      GivesKind name .functionProto

/-- The document gives a spelling a size. -/
inductive GivesSize
    (name : String) :
    UInt64 → Prop
  | id
      {id : String} {n : UInt64}
      (hid : s.Bears s.RecordsSize name id)
      (hsize : HasSize s.index s.pointerSize id n) :
      GivesSize name n
  | memberFunction
      (hname : s.SpellsMemberFunction name) :
      GivesSize name 0

/-- The document gives the spelling no two kinds. -/
def KindsAgree
    (name : String) :
    Prop :=
  ∀ k k', s.GivesKind name k → s.GivesKind name k' → k = k'

/-- The document gives the spelling no two sizes. -/
def SizesAgree
    (name : String) :
    Prop :=
  ∀ n n', s.GivesSize name n → s.GivesSize name n' → n = n'

/-- The document gives all kinds and sizes in a type, its own to the key it is held under. -/
structure Given
    (key : String) (t : DataType) :
    Prop where
  kind : s.GivesKind key t.header.kind
  size : s.GivesSize key t.header.size
  kinds : ∀ p ∈ t.recordedKinds, s.GivesKind p.1.name p.2
  sizes : ∀ p ∈ t.recordedSizes, s.GivesSize p.1.name p.2

/-- The document gives all kinds and sizes in a slot. -/
def GivenIn
    (slot : Slot) :
    Prop :=
  ∀ t, slot.entity = .ofType t → s.Given slot.key t

section Keeping

variable {s}

theorem Given.withMembers
    {key : String} {t : DataType} {members : List Member}
    (h : s.Given key t)
    (hmembers : ∀ m ∈ members, m.isData = true → s.GivesKind m.type.name m.kind) :
    s.Given key (Catalog.withMembers t members) := by
  have hdata : ∀ p ∈ (members.filter (·.isData)).map fun m => (m.type, m.kind),
      s.GivesKind p.1.name p.2 := by
    intro p hp
    obtain ⟨m, hm, rfl⟩ := List.mem_map.mp hp
    obtain ⟨hm, hdata⟩ := List.mem_filter.mp hm
    exact hmembers m hm hdata
  refine ⟨by simpa using h.kind, by simpa using h.size, ?_, ?_⟩
  · unfold Catalog.withMembers
    split
    · exact hdata
    · exact hdata
    · exact h.kinds
  · unfold Catalog.withMembers
    split
    · simp [DataType.recordedSizes]
    · simp [DataType.recordedSizes]
    · exact h.sizes

theorem Given.withBases
    {key : String} {t : DataType}
    (h : s.Given key t) (bases : List Base) :
    s.Given key (Catalog.withBases t bases) := by
  have hkinds : (Catalog.withBases t bases).recordedKinds = t.recordedKinds := by
    unfold Catalog.withBases
    split
    · next hshape =>
        simp [DataType.recordedKinds, hshape]
    · rfl
  have hsizes : (Catalog.withBases t bases).recordedSizes = t.recordedSizes := by
    unfold Catalog.withBases
    split
    · next hshape =>
        simp [DataType.recordedSizes, hshape]
    · rfl
  refine ⟨by simpa using h.kind, by simpa using h.size, ?_, ?_⟩
  · rw [hkinds]
    exact h.kinds
  · rw [hsizes]
    exact h.sizes

theorem keepsGiven_registerType
    {t : DataType}
    (hshape : ∀ members, t.shape ≠ .enumeration members)
    (h : s.Given t.header.qualified t) :
    (Step.register (.ofType t)).Keeps s.GivenIn := by
  refine keeps_register (by simp) fun entry hentry => ?_
  rw [Step.entries_registerType hshape, List.mem_singleton] at hentry
  rw [hentry]
  rintro _ ⟨⟩
  exact h

theorem keepsGiven_registerEnumeration
    {name scope : String} {size : UInt64} {members : List Member}
    (hkind : s.GivesKind name .enumeration)
    (hsize : s.GivesSize name size) :
    (Step.register (.ofType (.enumeration name scope size members))).Keeps s.GivenIn := by
  refine keeps_register (by simp) fun entry hentry => ?_
  rcases List.mem_cons.mp hentry with rfl | hentry
  · rintro _ ⟨⟩
    exact ⟨hkind, hsize, by rintro p ⟨⟩, by rintro p ⟨⟩⟩
  · obtain ⟨m, -, rfl⟩ := List.mem_map.mp hentry
    rintro _ ⟨⟩

/-- What is no type records nothing. -/
theorem keepsGiven_registerOther
    {e : Entity}
    (h : e.type? = none) :
    (Step.register e).Keeps s.GivenIn := by
  constructor
  · intro entry hentry t ht
    cases e with
    | ofType t =>
        cases h
    | _ =>
        rw [List.mem_singleton.mp hentry] at ht
        cases ht
  · intro key old new hretouch _ t ht
    cases hretouch with
    | overload f o =>
        cases ht

theorem keepsGiven_setMembersIn
    {record scope : String} {members : List Member}
    (h : ∀ m ∈ members, m.isData = true → s.GivesKind m.type.name m.kind) :
    (Step.setMembersIn record scope members).Keeps s.GivenIn := by
  constructor
  · intro entry hentry t ht
    obtain ⟨m, -, rfl⟩ := List.mem_map.mp hentry
    cases ht
  · intro key old new hretouch hold t ht
    cases hretouch with
    | members hrecord =>
        cases ht
        refine (hold _ rfl).withMembers fun m hm hdata => ?_
        obtain ⟨own, hown, rfl⟩ := List.mem_map.mp hm
        exact h own hown hdata

theorem keepsGiven_setBases
    (record : String) (bases : List Base) :
    (Step.setBases record bases).Keeps s.GivenIn := by
  constructor
  · intro entry hentry
    cases hentry
  · intro key old new hretouch hold t ht
    cases hretouch with
    | bases hrecord =>
        cases ht
        exact (hold _ rfl).withBases bases

end Keeping

section Demands

variable {s}

/-- The document gives the kinds and sizes in the type of an undefined id. -/
theorem given_qualified
    {id base name underlying : String} {q : Qualifiers} {size : UInt64} {kind : TypeKind}
    (hread : s.Reads id)
    (hundefined : s.index.find? id = none)
    (hbase : Spelling.qualifiedId? id = some (base, q))
    (hname : s.Names id name)
    (hunderlying : s.Names base underlying)
    (hsize : s.sizeOf base id = .ok size)
    (hkind : s.kindOf base id = .ok kind) :
    s.Given name (.cvQualified name (.named underlying) q size kind) := by
  have hid : s.Mentions id := .undefined hread hundefined
  have hbears : s.Mentions base := .base hread hundefined hbase
  have hkind := hasKind_of_kindWithin hkind
  have hsize := hasSize_of_sizeWithin hsize
  have hkindOf : HasKind s.index id kind := .sameAs (kindRule?_of_undefined hundefined hbase) hkind
  have hsizeOf : HasSize s.index s.pointerSize id size :=
    .sameAs (sizeRule?_of_undefined hundefined hbase) hsize
  refine ⟨.id (.recorded (.mentioned hid) hname) hkindOf,
    .id (.recorded (.mentioned hid) hname) hsizeOf, ?_, ?_⟩
  · intro p hp
    rw [List.mem_singleton.mp hp]
    exact .id (.recorded (.mentioned hbears) hunderlying) hkind
  · intro p hp
    rw [List.mem_singleton.mp hp]
    exact .id (.recorded (.mentioned hbears) hunderlying) hsize

/-- The document gives the kinds of the data members of a record. -/
theorem MembersOf.givesKind
    {record : Element} {name : String} {members : List Member}
    (h : s.MembersOf record name members)
    (hrecord : record ∈ s.elements)
    (hkind : record.kind.isRecord = true) :
    ∀ m ∈ members, m.isData = true → s.GivesKind m.type.name m.kind := by
  intro m hm hdata
  obtain ⟨found, hfound, rfl⟩ := h
  obtain ⟨_, hm, rfl⟩ := List.mem_filterMap.mp hm
  obtain ⟨mid, hmid, hmember⟩ := exists_of_forall₂_right hfound hm
  cases hmember with
  | data he hfield hdeclared =>
      obtain ⟨target, type, kind, access, offset, htarget, htype, hkindOf, rfl⟩ := hdeclared
      have hrecorded : s.RecordsKind target := .dataMember hrecord hkind hmid he hfield htarget
      exact .id (.recorded hrecorded htype) (hasKind_of_kindWithin hkindOf)
  | function he hfunction hdeclared =>
      obtain ⟨qualified, proto, access, -, -, rfl⟩ := hdeclared
      cases hdata

/-- The document gives the kind and size of the type of a member function. -/
theorem given_memberFunctionType
    {record m : Element} {mid cls : String} {proto : Prototype}
    (hrecord : record ∈ s.elements)
    (hkind : record.kind.isRecord = true)
    (hmid : mid ∈ record.memberIds)
    (hm : s.index.find? mid = some m)
    (hfunction : m.kind.isMemberFunction = true)
    (hcls : s.Names record.id cls)
    (hproto : s.PrototypeOf m proto) :
    s.Given (memberFunctionType m cls proto.typeOnly).header.qualified
      (memberFunctionType m cls proto.typeOnly) := by
  have hspells : s.SpellsMemberFunction
      (memberFunctionType m cls proto.typeOnly).header.qualified :=
    ⟨record, hrecord, hkind, mid, hmid, m, cls, hm, hfunction, hcls,
      memberFunctionSpelling_of_prototypeOf cls hproto⟩
  obtain ⟨hkind, hsize, hkinds, hsizes⟩ :
      (memberFunctionType m cls proto.typeOnly).header.kind = .functionProto ∧
        (memberFunctionType m cls proto.typeOnly).header.size = 0 ∧
        (memberFunctionType m cls proto.typeOnly).recordedKinds = [] ∧
        (memberFunctionType m cls proto.typeOnly).recordedSizes = [] := by
    unfold memberFunctionType
    dsimp only
    split <;> exact ⟨rfl, rfl, rfl, rfl⟩
  refine ⟨?_, ?_, by simp [hkinds], by simp [hsizes]⟩
  · rw [hkind]
    exact .memberFunction hspells
  · rw [hsize]
    exact .memberFunction hspells

section Elements

variable (hfind : ∀ e ∈ s.elements, s.index.find? e.id = some e)
include hfind

theorem hasKind_own
    {e : Element} {k : TypeKind}
    (he : e ∈ s.elements)
    (hrule : elementKindRule? e = some (.own k)) :
    HasKind s.index e.id k :=
  .own ((kindRule?_of_find (hfind e he)).trans hrule)

theorem hasSize_own
    {e : Element} {n : UInt64}
    (he : e ∈ s.elements)
    (hrule : elementSizeRule? s.pointerSize e = some (.own n)) :
    HasSize s.index s.pointerSize e.id n :=
  .own ((sizeRule?_of_find (hfind e he)).trans hrule)

/-- A type without a rule of its own has the size that its element states. -/
theorem hasSize_stated
    {e : Element} {bits : UInt64}
    (he : e ∈ s.elements)
    (hkind : e.kind = .fundamental ∨ e.kind = .enumeration ∨ e.kind.isRecord = true)
    (hbits : e.uint "size" = .ok bits) :
    HasSize s.index s.pointerSize e.id (bytesOfBits bits) := by
  refine hasSize_own hfind he ?_
  have hstated : elementSizeRule? s.pointerSize e =
      (e.uint "size").toOption.map fun bits => .own (bytesOfBits bits) := by
    unfold elementSizeRule?
    cases hk : e.kind <;> simp_all [ElementKind.isRecord]
  rw [hstated, hbits]
  rfl

/-- The document gives the kind and size of a record. -/
theorem given_shellOf
    {e : Element} {name scope : String} {bits : UInt64}
    (he : e ∈ s.elements)
    (hkind : e.kind.isRecord = true)
    (hname : s.Names e.id name)
    (hbits : e.uint "size" = .ok bits) :
    s.Given name (shellOf e name scope (bytesOfBits bits)) := by
  have hrule : elementKindRule? e = some (.own .record) ∧ e.kind ∈ typeKinds := by
    cases hk : e.kind <;> simp_all [elementKindRule?, typeKinds, ElementKind.isRecord]
  have hbears : ∀ recorded, s.Bears recorded name e.id :=
    fun _ => .registered he hrule.2 (.record hkind) rfl hname
  obtain ⟨hheaderKind, hheaderSize, hkinds, hsizes⟩ :
      (shellOf e name scope (bytesOfBits bits)).header.kind = .record ∧
        (shellOf e name scope (bytesOfBits bits)).header.size = bytesOfBits bits ∧
        (shellOf e name scope (bytesOfBits bits)).recordedKinds = [] ∧
        (shellOf e name scope (bytesOfBits bits)).recordedSizes = [] := by
    unfold shellOf
    split <;> exact ⟨rfl, rfl, rfl, rfl⟩
  refine ⟨?_, ?_, by simp [hkinds], by simp [hsizes]⟩
  · rw [hheaderKind]
    exact .id (hbears _) (hasKind_own hfind he hrule.1)
  · rw [hheaderSize]
    exact .id (hbears _) (hasSize_stated hfind he (.inr (.inr hkind)) hbits)

/-- The document gives the kind of a type alias, and the size of its target. -/
theorem given_typedef
    {e : Element} {name scope id target : String} {size : UInt64}
    (he : e ∈ s.elements)
    (hkind : e.kind = .typedef)
    (hname : s.Names e.id name)
    (hid : e.attr? "type" = some id)
    (htarget : s.Names id target)
    (hdiff : target ≠ name)
    (hsize : s.sizeOf id e.id = .ok size) :
    s.Given name (.typedef name scope (.named target) size) := by
  have hregistered : s.Registered e := .typedef hkind hid hname htarget hdiff
  have hbears : ∀ recorded, s.Bears recorded name e.id :=
    fun _ => .registered he (by simp [hkind, typeKinds]) hregistered rfl hname
  have hrecorded : s.RecordsSize id := .aliasTarget he hkind hregistered hid
  have hsize := hasSize_of_sizeWithin hsize
  refine ⟨.id (hbears _) (hasKind_own hfind he ?_), .id (hbears _) (.sameAs ?_ hsize),
    by rintro p ⟨⟩, ?_⟩
  · rw [elementKindRule?, hkind]
    rfl
  · rw [sizeRule?_of_find (hfind e he), elementSizeRule?, hkind, hid]
    rfl
  · intro p hp
    rw [List.mem_singleton.mp hp]
    exact .id (.recorded hrecorded htarget) hsize

theorem StructuralTypeOf.hasKind
    {e : Element} {t : DataType}
    (h : s.StructuralTypeOf e t)
    (he : e ∈ s.elements) :
    HasKind s.index e.id t.header.kind := by
  cases h with
  | cvQualified hk _ hid _ _ hkindOf =>
      refine .sameAs ?_ (hasKind_of_kindWithin hkindOf)
      rw [kindRule?_of_find (hfind e he), elementKindRule?, hk, hid]
      rfl
  | pointer hk | reference hk | array hk | offset hk | functionType hk | methodType hk =>
      refine hasKind_own hfind he ?_
      rw [elementKindRule?, hk]
      rfl

theorem StructuralTypeOf.hasSize
    {e : Element} {t : DataType}
    (h : s.StructuralTypeOf e t)
    (he : e ∈ s.elements) :
    HasSize s.index s.pointerSize e.id t.header.size := by
  cases h with
  | cvQualified hk _ hid _ hsize _ =>
      refine .sameAs ?_ (hasSize_of_sizeWithin hsize)
      rw [sizeRule?_of_find (hfind e he), elementSizeRule?, hk, hid]
      rfl
  | array _ _ _ _ _ hsize =>
      exact hasSize_of_sizeWithin hsize
  | functionType hk | methodType hk =>
      refine hasSize_own hfind he ?_
      rw [elementSizeRule?, hk]
      rfl
  | pointer hk _ _ _ hsize | reference hk _ _ _ hsize | offset hk _ _ _ _ _ hsize =>
      refine hasSize_own hfind he ?_
      rw [elementSizeRule?, hk, hsize]
      rfl

/-- The document gives the kinds and sizes in a type made from other types. -/
theorem StructuralTypeOf.given
    {e : Element} {t : DataType}
    (h : s.StructuralTypeOf e t)
    (he : e ∈ s.elements)
    (hkind : e.kind ∈ structuralKinds) :
    s.Given t.header.qualified t := by
  have hbears : ∀ recorded, s.Bears recorded t.header.qualified e.id :=
    fun _ => .registered he (List.mem_append_right _ hkind) (.structural hkind) rfl h.name
  obtain ⟨hkinds, hsizes⟩ : (∀ p ∈ t.recordedKinds, s.GivesKind p.1.name p.2) ∧
      ∀ p ∈ t.recordedSizes, s.GivesSize p.1.name p.2 := by
    cases h with
    | @cvQualified name id underlying size kind hk hname hid hunderlying hsize hkindOf =>
        have hmentioned : s.Mentions id := .target he hk hid
        refine ⟨fun p hp => ?_, fun p hp => ?_⟩
        · rw [List.mem_singleton.mp hp]
          exact .id (.recorded (.mentioned hmentioned) hunderlying) (hasKind_of_kindWithin hkindOf)
        · rw [List.mem_singleton.mp hp]
          exact .id (.recorded (.mentioned hmentioned) hunderlying) (hasSize_of_sizeWithin hsize)
    | _ =>
        exact ⟨by rintro p ⟨⟩, by rintro p ⟨⟩⟩
  exact ⟨.id (hbears _) (h.hasKind hfind he), .id (hbears _) (h.hasSize hfind he), hkinds, hsizes⟩

/-- What a demand of the document asks for has the kinds and sizes that the document gives. -/
theorem Demanded.keepsGiven
    {d : Demand} {r : Request}
    (hd : s.Demanded d)
    (hr : d r) :
    r.Keeps s.GivenIn := by
  cases hd with
  | reference hread hd =>
      obtain ⟨base, q, hundefined, hbase, rfl⟩ := mem_refDemands_iff.mp hd
      obtain ⟨name, underlying, size, kind, hname, hunderlying, hsize, hkind, rfl⟩ := hr
      refine keepsGiven_registerType (by rintro members ⟨⟩) ?_
      exact given_qualified hread hundefined hbase hname hunderlying hsize hkind
  | fundamental he hk =>
      obtain ⟨name, kind, bits, hname, hkind, hbits, rfl⟩ := hr
      refine keepsGiven_registerType (by rintro members ⟨⟩) ?_
      refine ⟨.builtin he hk hname hkind, ?_, by rintro p ⟨⟩, by rintro p ⟨⟩⟩
      refine .id (.registered he ?_ (.fundamental hk) rfl hname) ?_
      · simp [hk, typeKinds]
      · exact hasSize_stated hfind he (.inl hk) hbits
  | space he hk hglobal =>
      obtain ⟨name, -, rfl | ⟨scope, -, rfl⟩⟩ := hr
      · trivial
      · exact keepsGiven_registerOther rfl
  | spaceAlias he hk =>
      obtain ⟨name, scope, id, target, -, -, -, -, rfl⟩ := hr
      exact keepsGiven_registerOther rfl
  | enumeration he hk =>
      obtain ⟨name, scope, bits, members, hname, -, hbits, -, rfl⟩ := hr
      have hbears : ∀ recorded, s.Bears recorded name _ :=
        fun _ => .registered he (by simp [hk, typeKinds]) (.enumeration hk) rfl hname
      refine keepsGiven_registerEnumeration (.id (hbears _) (hasKind_own hfind he ?_))
        (.id (hbears _) (hasSize_stated hfind he (.inr (.inl hk)) hbits))
      simp [elementKindRule?, hk]
  | @shell e he hk =>
      obtain ⟨name, scope, bits, hname, -, hbits, rfl⟩ := hr
      refine keepsGiven_registerType (shape_shellOf e name scope _) ?_
      rw [qualified_shellOf]
      exact given_shellOf hfind he hk hname hbits
  | memberType he hk hid hm hfunction =>
      obtain ⟨cls, proto, hcls, hproto, rfl⟩ := hr
      refine keepsGiven_registerType (shape_memberFunctionType _ cls _) ?_
      exact given_memberFunctionType he hk hid hm hfunction hcls hproto
  | members he hk =>
      obtain ⟨name, scope, members, -, -, hmembers, rfl⟩ := hr
      exact keepsGiven_setMembersIn (hmembers.givesKind he hk)
  | bases he hk hunion hbases =>
      obtain ⟨name, bases, -, -, rfl⟩ := hr
      exact keepsGiven_setBases name bases
  | typedef he hk =>
      obtain ⟨name, id, target, hname, hid, htarget, hcases⟩ := hr
      rcases hcases with ⟨-, rfl⟩ | ⟨hdiff, scope, size, -, hsize, rfl⟩
      · trivial
      · refine keepsGiven_registerType (by rintro members ⟨⟩) ?_
        exact given_typedef hfind he hk hname hid htarget hdiff hsize
  | structural he hk =>
      obtain ⟨t, ht, rfl⟩ := hr
      exact keepsGiven_registerType ht.shape (ht.given hfind he hk)
  | function he hk =>
      obtain ⟨f, -, rfl⟩ := hr
      exact keepsGiven_registerOther rfl
  | globalData he hk hglobal =>
      obtain ⟨name, scope, id, type, specifiers, -, -, -, -, rfl⟩ := hr
      exact keepsGiven_registerOther rfl

end Elements

end Demands

end Source
end TypeCatalog
