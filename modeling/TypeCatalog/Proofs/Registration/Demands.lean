import TypeCatalog.Proofs.Registration.Request

/-!
# What the parts of declarations demand

**Input.** What a registration reads: the elements of a document, its index and its namer.

**Rule.** Demands depend on the document alone, with the names that a new namer gives. A reference
to a type demands the qualified type of an undefined id, and nothing else; a member function demands
its type.

**Results.**
* `asks_typeRef`, `asks_prototype`: references, and the prototypes of functions.
* `asks_members`, `asks_bases`: the members and bases of records.
-/

namespace TypeCatalog
namespace Source

open Registration Request

variable (s : Source)

/-- A new namer gives the id the name. -/
def Names
    (id name : String) :
    Prop :=
  (Spelled.outcome (s.namer.typeName id) ∅).1 = .ok name

instance
    (id name : String) :
    Decidable (s.Names id name) :=
  inferInstanceAs (Decidable ((Spelled.outcome (s.namer.typeName id) ∅).1 = .ok name))

/-- A new namer gives the scope that declares the id. -/
def DeclaredIn
    (id scope : String) :
    Prop :=
  (Spelled.outcome (s.namer.scopeName id) ∅).1 = .ok scope

section Spellings

variable {s}

theorem names_iff
    {id name : String} :
    s.Names id name ↔ Namer.Spells s.namer id name :=
  Namer.outcome_typeName_eq_ok_iff

theorem Names.unique
    {id name name' : String}
    (h : s.Names id name)
    (h' : s.Names id name') :
    name = name' :=
  Except.ok.inj (h.symm.trans h')

theorem DeclaredIn.unique
    {id scope scope' : String}
    (h : s.DeclaredIn id scope)
    (h' : s.DeclaredIn id scope') :
    scope = scope' :=
  Except.ok.inj (h.symm.trans h')

end Spellings

theorem asks_nameOf
    (id : String) :
    Asks s.namer (s.nameOf id) [] (s.Names id) :=
  .spell (.name id)

theorem asks_scopeOf
    (id : String) :
    Asks s.namer (s.scopeOf id) [] (s.DeclaredIn id) :=
  .spell (.scope id)

theorem asks_referencedName
    (id referrer : String) :
    Asks s.namer (spell (s.namer.referencedName id referrer)) [] (s.Names id) := by
  refine Asks.imp (.spell (.reference id referrer)) fun name hname => ?_
  exact names_iff.mpr (Namer.outcome_referencedName_eq_ok_iff.mp hname)

section References

/-- The demand for the type of an undefined id that qualifies another. -/
def qualifiedDemand
    (id base : String) (q : Qualifiers) :
    Demand :=
  fun r => ∃ name underlying size kind,
    s.Names id name ∧ s.Names base underlying ∧ s.sizeOf base id = .ok size ∧
      s.kindOf base id = .ok kind ∧ r = .offer (.cvQualified name (.named underlying) q size kind)

/-- The demands of a reference to a type. -/
def refDemands
    (id : String) :
    List Demand :=
  match s.index.find? id, Spelling.qualifiedId? id with
  | none, some (base, q) => [s.qualifiedDemand id base q]
  | _, _ => []

theorem asks_typeRef
    (id referrer : String) :
    Asks s.namer (s.typeRef id referrer) (s.refDemands id) (s.Names id) := by
  refine (s.asks_referencedName id referrer).after fun name hname => ?_
  unfold refDemands
  cases s.index.find? id with
  | some e =>
      exact .pure hname
  | none =>
      cases Spelling.qualifiedId? id with
      | none =>
          exact .pure hname
      | some p =>
          refine (s.asks_referencedName p.1 referrer).after fun underlying hunderlying => ?_
          refine (Asks.lift _).after fun size hsize => ?_
          refine (Asks.lift _).after fun kind hkind => ?_
          refine (asks_registerType ?_ ?_).map fun _ _ => hname
          · rintro members ⟨⟩
          · exact ⟨name, underlying, size, kind, hname, hunderlying, hsize, hkind, rfl⟩

end References

end Source

theorem exists_of_forall₂_left
    {α β : Type} {p : α → β → Prop} {xs : List α} {ys : List β} {x : α}
    (h : List.Forall₂ p xs ys)
    (hx : x ∈ xs) :
    ∃ y ∈ ys, p x y := by
  induction h with
  | nil =>
      cases hx
  | cons hfirst _ ih =>
      rcases List.mem_cons.mp hx with rfl | hx
      · exact ⟨_, by simp, hfirst⟩
      · obtain ⟨y, hy, hp⟩ := ih hx
        exact ⟨y, List.mem_cons_of_mem _ hy, hp⟩

theorem exists_of_forall₂_right
    {α β : Type} {p : α → β → Prop} {xs : List α} {ys : List β} {y : β}
    (h : List.Forall₂ p xs ys)
    (hy : y ∈ ys) :
    ∃ x ∈ xs, p x y :=
  exists_of_forall₂_left (p := flip p) (List.Forall₂.flip h) hy

namespace Element

/-- The id of the result of a function that states one. -/
def resultId?
    (e : Element) :
    Option String :=
  (e.attr? "returns").filter fun id => !id.isEmpty

/-- The ids of the types in the prototype of a function. -/
def prototypeIds
    (e : Element) :
    List String :=
  e.arguments.map (·.type) ++ e.resultId?.toList

/-- The id in the attribute `type`. -/
def targetIds
    (e : Element) :
    List String :=
  (e.attr? "type").toList

/-- The ids that the references in a type made from others stand for. -/
def partIds
    (e : Element) :
    List String :=
  match e.kind with
  | .functionType | .methodType => e.prototypeIds
  | _ => e.targetIds

/-- The ids that are read for a type made from others: also that of the class of a pointer to a
member. -/
def structuralIds
    (e : Element) :
    List String :=
  match e.kind with
  | .offset => e.partIds ++ (e.attr? "basetype").toList
  | _ => e.partIds

theorem partIds_of_target
    (e : Element)
    (h : e.kind ∈ [.pointer, .reference, .cvQualified, .array]) :
    e.partIds = e.targetIds ∧ e.structuralIds = e.targetIds := by
  simp only [List.mem_cons, List.not_mem_nil, or_false] at h
  rcases h with hk | hk | hk | hk <;> simp [structuralIds, partIds, hk]

theorem partIds_of_prototype
    (e : Element)
    (h : e.kind ∈ [.functionType, .methodType]) :
    e.partIds = e.prototypeIds ∧ e.structuralIds = e.prototypeIds := by
  simp only [List.mem_cons, List.not_mem_nil, or_false] at h
  rcases h with hk | hk <;> simp [structuralIds, partIds, hk]

theorem partIds_of_offset
    {e : Element}
    (h : e.kind = .offset) :
    e.partIds = e.targetIds ∧
      e.structuralIds = e.targetIds ++ (e.attr? "basetype").toList := by
  simp [structuralIds, partIds, h]

theorem mem_structuralIds_iff
    (e : Element) {id : String} :
    id ∈ e.structuralIds ↔ id ∈ e.partIds ∨ e.kind = .offset ∧ e.attr? "basetype" = some id := by
  unfold structuralIds
  split
  · next hkind =>
      rw [List.mem_append, Option.mem_toList]
      exact or_congr_right (and_iff_right hkind).symm
  · next hkind =>
      exact (or_iff_left fun h => hkind h.1).symm

theorem targetIds_eq
    {e : Element} {id : String}
    (h : e.attr? "type" = some id) :
    e.targetIds = [id] := by
  rw [targetIds, h, Option.toList_some]

end Element

namespace Source

open Registration Request

variable (s : Source)

section Prototypes

/-- The parameter that an argument describes. -/
def ParameterOf
    (a : Argument) (p : Parameter) :
    Prop :=
  ∃ type, s.Names a.type type ∧
    p = { name := a.name, type := .named type, hasDefault := a.default.isSome }

/-- The spelling of the result of a function. -/
def ResultOf
    (e : Element) (result : String) :
    Prop :=
  match e.resultId? with
  | some id => s.Names id result
  | none => result = "void"

/-- The prototype that an element describes. -/
structure PrototypeOf
    (e : Element) (proto : Prototype) :
    Prop where
  params : List.Forall₂ s.ParameterOf e.arguments proto.params
  result : ∃ result, s.ResultOf e result ∧ proto.result = .named result
  variadic : proto.variadic = e.ellipsis

/-- The reference to the result of a function. -/
def resultRef
    (e : Element) :
    Registration String :=
  match e.resultId? with
  | some id => s.typeRef id e.id
  | none => pure "void"

theorem prototype_eq
    (e : Element) :
    s.prototype e = do
      let params ← e.arguments.mapM fun a => do
        let type ← s.typeRef a.type e.id
        return ({ name := a.name, type := .named type, hasDefault := a.default.isSome } : Parameter)
      let result ← s.resultRef e
      return { params, result := .named result, variadic := e.ellipsis } := by
  refine bind_congr fun params => ?_
  unfold resultRef Element.resultId?
  cases e.attr? "returns" with
  | none =>
      rfl
  | some id =>
      cases hempty : id.isEmpty <;> simp [Option.filter, hempty]

theorem asks_resultRef
    (e : Element) :
    Asks s.namer (s.resultRef e) (e.resultId?.toList.flatMap s.refDemands) (s.ResultOf e) := by
  unfold resultRef ResultOf
  cases e.resultId? with
  | none =>
      exact .pure rfl
  | some id =>
      rw [Option.toList_some, List.flatMap_singleton]
      exact s.asks_typeRef id e.id

theorem asks_prototype
    (e : Element) :
    Asks s.namer (s.prototype e) (e.prototypeIds.flatMap s.refDemands) (s.PrototypeOf e) := by
  rw [prototype_eq, Element.prototypeIds, List.flatMap_append, List.flatMap_map]
  have hparams : Asks s.namer (e.arguments.mapM fun a => do
      let type ← s.typeRef a.type e.id
      return ({ name := a.name, type := .named type, hasDefault := a.default.isSome } : Parameter))
      (e.arguments.flatMap fun a => s.refDemands a.type)
      (List.Forall₂ s.ParameterOf e.arguments) :=
    .mapM fun a _ => (s.asks_typeRef a.type e.id).map fun type htype => ⟨type, htype, rfl⟩
  refine hparams.bind fun params hparams => ?_
  refine (s.asks_resultRef e).map fun result hresult => ?_
  exact ⟨hparams, ⟨result, hresult, rfl⟩, rfl⟩

end Prototypes

section Members

/-- The data member that an element describes. -/
def DataMemberOf
    (e : Element) (m : Member) :
    Prop :=
  ∃ id type kind access offset,
    e.attr? "type" = some id ∧ s.Names id type ∧ s.kindOf id e.id = .ok kind ∧
      m = .declare e.name (.named type) kind access offset

/-- The member of a record of the given name that an element describes as a function. -/
def FunctionMemberOf
    (name : String) (e : Element) (m : Member) :
    Prop :=
  ∃ qualified proto access,
    s.Names e.id qualified ∧ s.PrototypeOf e proto ∧
      m = .declare (Name.relativeTo name qualified)
        (.named (memberFunctionType e name proto.typeOnly).header.qualified) .functionProto access 0

/-- The member of a record of the given name that an id denotes, if it is one. -/
inductive MemberOf
    (name id : String) :
    Option Member → Prop
  | data
      {e : Element} {m : Member}
      (he : s.index.find? id = some e)
      (hkind : e.kind = .field ∨ e.kind = .data)
      (hm : s.DataMemberOf e m) :
      MemberOf name id (some m)
  | function
      {e : Element} {m : Member}
      (he : s.index.find? id = some e)
      (hkind : e.kind.isMemberFunction = true)
      (hm : s.FunctionMemberOf name e m) :
      MemberOf name id (some m)
  | other
      {e : Element}
      (he : s.index.find? id = some e)
      (hdata : ¬ (e.kind = .field ∨ e.kind = .data))
      (hfunction : e.kind.isMemberFunction = false) :
      MemberOf name id none

/-- The members of a record of the given name. -/
def MembersOf
    (record : Element) (name : String) (members : List Member) :
    Prop :=
  ∃ found, List.Forall₂ (s.MemberOf name) record.memberIds found ∧ members = found.filterMap id

/-- The demand for the type of a member function of a record. -/
def memberTypeDemand
    (record e : Element) :
    Demand :=
  fun r => ∃ name proto, s.Names record.id name ∧ s.PrototypeOf e proto ∧
    r = .offer (memberFunctionType e name proto.typeOnly)

/-- The demands of a member of a record. -/
def memberDemands
    (record : Element) (id : String) :
    List Demand :=
  match s.index.find? id with
  | none => []
  | some e =>
      if e.kind = .field ∨ e.kind = .data then e.targetIds.flatMap s.refDemands
      else if e.kind.isMemberFunction then
        e.prototypeIds.flatMap s.refDemands ++ [s.memberTypeDemand record e]
      else []

theorem asks_dataMember
    (e : Element) (offset : Except DocumentError UInt64) :
    Asks s.namer (s.dataMember e offset) (e.targetIds.flatMap s.refDemands)
      (s.DataMemberOf e) := by
  refine (Asks.lift _).after fun id hid => ?_
  rw [Namer.required_eq_ok_iff] at hid
  rw [Element.targetIds_eq hid, List.flatMap_singleton, ← List.append_nil (s.refDemands id)]
  refine (s.asks_typeRef id e.id).bind fun type htype => ?_
  refine (Asks.lift _).after fun kind hkind => ?_
  refine (Asks.lift _).after fun bits _ => ?_
  refine (Asks.lift _).after fun access _ => ?_
  exact .pure ⟨id, type, kind, access, _, hid, htype, hkind, rfl⟩

theorem shape_memberFunctionType
    (e : Element) (name : String) (proto : Prototype) (members : List Member) :
    (memberFunctionType e name proto).shape ≠ .enumeration members := by
  unfold memberFunctionType
  dsimp only
  split <;> rintro ⟨⟩

theorem scope_memberFunctionType
    (e : Element) (name : String) (proto : Prototype) :
    (memberFunctionType e name proto).header.scope = "" := by
  unfold memberFunctionType
  dsimp only
  split <;> rfl

theorem refs_memberFunctionType
    (e : Element) (name : String) (proto : Prototype) :
    (memberFunctionType e name proto).shape.refs = proto.refs := by
  unfold memberFunctionType
  dsimp only
  split <;> rfl

theorem find?_of_require
    {index : Index} {id referrer : String} {e : Element}
    (h : index.require id referrer = .ok e) :
    index.find? id = some e := by
  unfold Index.require at h
  split at h
  · next hfound =>
      cases h
      exact hfound
  · cases h

theorem asks_member
    (record : Element) {name : String} (id : String)
    (hname : s.Names record.id name) :
    Asks s.namer (s.member record name id) (s.memberDemands record id) (s.MemberOf name id) := by
  refine (Asks.lift _).after fun e he => ?_
  have hfind := find?_of_require he
  simp only [memberDemands, hfind]
  split
  · next hkind =>
      rw [if_pos (.inl hkind)]
      exact (s.asks_dataMember e _).map fun m hm => .data hfind (.inl hkind) hm
  · next hkind =>
      rw [if_pos (.inr hkind)]
      exact (s.asks_dataMember e _).map fun m hm => .data hfind (.inr hkind) hm
  · next hfield hdata =>
      have hother : ¬ (e.kind = .field ∨ e.kind = .data) := by
        rintro (hkind | hkind)
        · exact hfield hkind
        · exact hdata hkind
      rw [if_neg hother]
      split
      · next hfunction =>
          refine (s.asks_nameOf e.id).after fun qualified hqualified => ?_
          refine (s.asks_prototype e).bind fun proto hproto => ?_
          rw [← List.append_nil [s.memberTypeDemand record e]]
          have hd : s.memberTypeDemand record e
              (.offer (memberFunctionType e name proto.typeOnly)) :=
            ⟨name, proto, hname, hproto, rfl⟩
          refine (asks_registerType (shape_memberFunctionType e name _) hd).bind fun _ _ => ?_
          refine (Asks.lift _).map fun access _ => ?_
          exact .function hfind hfunction ⟨qualified, proto, access, hqualified, hproto, rfl⟩
      · next hfunction =>
          exact .pure (.other hfind hother (by simpa using hfunction))

theorem asks_members
    (record : Element) {name : String}
    (hname : s.Names record.id name) :
    Asks s.namer (s.members record name) (record.memberIds.flatMap (s.memberDemands record))
      (s.MembersOf record name) :=
  (Asks.mapM fun id _ => s.asks_member record id hname).map fun found hfound => ⟨found, hfound, rfl⟩

/-- The base of a record that a document states. -/
def BaseOf
    (b : BaseSpec) (base : Base) :
    Prop :=
  ∃ type access offset, s.Names b.type type ∧
    base = { type := .named type, access, offset, isVirtual := b.isVirtual }

theorem asks_bases
    (record : Element) :
    Asks s.namer (s.bases record) (record.bases.flatMap fun b => s.refDemands b.type)
      (List.Forall₂ s.BaseOf record.bases) := by
  refine .mapM fun b _ => ?_
  rw [← List.append_nil (s.refDemands b.type)]
  refine (s.asks_typeRef b.type record.id).bind fun type htype => ?_
  refine (Asks.lift _).after fun access _ => ?_
  refine (Asks.lift _).map fun offset _ => ?_
  exact ⟨type, access, offset, htype, rfl⟩

end Members

end Source
end TypeCatalog
