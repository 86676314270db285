import TypeCatalog.Proofs.Catalog.Run
import TypeCatalog.Proofs.Registration.Declarations

/-!
# A registration adds exactly the keys that the document declares

**Input.** A catalog that actions have built, and a document whose registration succeeds.

**Rule.** `DeclaredKey` lists what a document declares: the elements that are registered under their
own names, the enumerators and the named data members in the scopes where they are found, the types
of member functions, and the qualified types of undefined ids in the places that are read.

**Results.**
* `mem_keys_registerDocument_iff`: the keys after the registration are those before it and those
  that the document declares.
-/

namespace TypeCatalog
namespace Source

open Registration Request

variable (s : Source)

/-- The element is registered under its own name. -/
inductive Registered
    (e : Element) :
    Prop
  | fundamental
      (hkind : e.kind = .fundamental) :
      Registered e
  | spaceAlias
      (hkind : e.kind = .spaceAlias) :
      Registered e
  | enumeration
      (hkind : e.kind = .enumeration) :
      Registered e
  | record
      (hkind : e.kind.isRecord = true) :
      Registered e
  | space
      (hkind : e.kind = .space)
      (hname : e.name ≠ "::") :
      Registered e
  | typedef
      {id name target : String}
      (hkind : e.kind = .typedef)
      (hid : e.attr? "type" = some id)
      (hname : s.Names e.id name)
      (htarget : s.Names id target)
      (hdiff : target ≠ name) :
      Registered e
  | structural
      (hkind : e.kind ∈ structuralKinds) :
      Registered e
  | function
      (hkind : e.kind ∈ functionKinds) :
      Registered e
  | globalData
      (hkind : e.kind = .data)
      (hstated : e.flag "artificial" = false)
      (hcontext : ∀ id, e.context? = some id →
        ∃ outer, s.index.find? id = some outer ∧ outer.kind = .space) :
      Registered e

/-- The spelling of the type of a member function of a class. -/
def MemberFunctionSpelling
    (e : Element) (cls spelling : String) :
    Prop :=
  ∃ types result,
    List.Forall₂ (fun (a : Argument) type => s.Names a.type type) e.arguments types ∧
      s.ResultOf e result ∧
      spelling =
        if e.flag "static" then
          Spelling.functionSpelling result (Spelling.argumentList types e.ellipsis)
        else
          Spelling.methodSpelling result cls (Spelling.argumentList types e.ellipsis)
            (e.flag "const") (e.flag "volatile")

/-- The keys that a document declares. -/
inductive DeclaredKey :
    String → Prop
  | named
      {e : Element} {name : String}
      (he : e ∈ s.elements)
      (hregistered : s.Registered e)
      (hname : s.Names e.id name) :
      DeclaredKey name
  | enumerator
      {e : Element} {v : EnumValue} {scope : String}
      (he : e ∈ s.elements)
      (hkind : e.kind = .enumeration)
      (hscope : s.DeclaredIn e.id scope)
      (hv : v ∈ e.values) :
      DeclaredKey (Name.qualify scope v.name)
  | dataMember
      {record m : Element} {mid target scope : String} {kind : TypeKind}
      (hrecord : record ∈ s.elements)
      (hkind : record.kind.isRecord = true)
      (hscope : s.ExposedIn record scope)
      (hmid : mid ∈ record.memberIds)
      (hm : s.index.find? mid = some m)
      (hdata : m.kind = .field ∨ m.kind = .data)
      (hname : m.name ≠ "")
      (htarget : m.attr? "type" = some target)
      (htype : s.kindOf target m.id = .ok kind)
      (hfunction : kind.isFunction = false) :
      DeclaredKey (Name.qualify scope m.name)
  | memberFunction
      {record m : Element} {mid cls spelling : String}
      (hrecord : record ∈ s.elements)
      (hkind : record.kind.isRecord = true)
      (hcls : s.Names record.id cls)
      (hmid : mid ∈ record.memberIds)
      (hm : s.index.find? mid = some m)
      (hfunction : m.kind.isMemberFunction = true)
      (hspelling : s.MemberFunctionSpelling m cls spelling) :
      DeclaredKey spelling
  | qualified
      {id base name : String} {q : Qualifiers}
      (hread : s.Reads id)
      (hundefined : s.index.find? id = none)
      (hbase : Spelling.qualifiedId? id = some (base, q))
      (hname : s.Names id name) :
      DeclaredKey name

/-- Everything that a document declares has its name. -/
structure Complete :
    Prop where
  names : ∀ e ∈ s.elements, s.Registered e → ∃ name, s.Names e.id name
  enumerations : ∀ e ∈ s.elements, e.kind = .enumeration → ∃ scope, s.DeclaredIn e.id scope
  records : ∀ e ∈ s.elements, e.kind.isRecord = true → ∃ scope, s.ExposedIn e scope
  dataMembers : ∀ e ∈ s.elements, e.kind.isRecord = true → ∀ mid ∈ e.memberIds,
    ∀ m, s.index.find? mid = some m → m.kind = .field ∨ m.kind = .data →
      ∃ target kind, m.attr? "type" = some target ∧ s.kindOf target m.id = .ok kind
  memberFunctions : ∀ e ∈ s.elements, e.kind.isRecord = true → ∀ mid ∈ e.memberIds,
    ∀ m, s.index.find? mid = some m → m.kind.isMemberFunction = true →
      ∃ cls spelling, s.Names e.id cls ∧ s.MemberFunctionSpelling m cls spelling
  references : ∀ id base q, s.Reads id → s.index.find? id = none →
    Spelling.qualifiedId? id = some (base, q) → ∃ name, s.Names id name

section Members

variable {s}

theorem ResultOf.unique
    {e : Element} {result result' : String}
    (h : s.ResultOf e result)
    (h' : s.ResultOf e result') :
    result = result' := by
  unfold ResultOf at h h'
  cases hid : e.resultId? with
  | none =>
      rw [hid] at h h'
      exact h.trans h'.symm
  | some id =>
      rw [hid] at h h'
      exact Names.unique h h'

theorem MemberFunctionSpelling.unique
    {e : Element} {cls spelling spelling' : String}
    (h : s.MemberFunctionSpelling e cls spelling)
    (h' : s.MemberFunctionSpelling e cls spelling') :
    spelling = spelling' := by
  obtain ⟨types, result, htypes, hresult, heq⟩ := h
  obtain ⟨types', result', htypes', hresult', heq'⟩ := h'
  have hunique : Relator.RightUnique fun (a : Argument) type => s.Names a.type type := by
    intro a type type' htype htype'
    exact Names.unique htype htype'
  have htypes : types = types' := List.right_unique_forall₂' hunique htypes htypes'
  rw [heq, heq', htypes, hresult.unique hresult']

theorem memberFunctionSpelling_of_prototypeOf
    {e : Element} {proto : Prototype}
    (cls : String)
    (h : s.PrototypeOf e proto) :
    s.MemberFunctionSpelling e cls (memberFunctionType e cls proto.typeOnly).header.qualified := by
  obtain ⟨result, hresult, heq⟩ := h.result
  refine ⟨proto.params.map (·.type.name), result, ?_, hresult, ?_⟩
  · rw [List.forall₂_map_right_iff]
    refine h.params.imp fun a p hp => ?_
    obtain ⟨type, htype, rfl⟩ := hp
    exact htype
  · unfold memberFunctionType
    simp only [Prototype.typeOnly, List.map_map, Function.comp_def, h.variadic, heq]
    split <;> rfl

theorem mem_batch_setMembersIn_iff
    {record scope key : String} {members : List Member} :
    key ∈ (Step.setMembersIn record scope members).batch ↔
      ∃ m ∈ members, m.isData = true ∧ m.name ≠ "" ∧ key = Name.qualify scope m.name := by
  simp only [Step.batch, Catalog.exposed, List.map_map, List.mem_map, List.mem_filter,
    Function.comp_apply, Bool.and_eq_true, Bool.not_eq_true', String.isEmpty_eq_false_iff]
  constructor
  · rintro ⟨m', ⟨⟨m, hm, rfl⟩, hdata, hne⟩, rfl⟩
    exact ⟨m, hm, hdata, hne, rfl⟩
  · rintro ⟨m, hm, hdata, hne, rfl⟩
    exact ⟨_, ⟨⟨m, hm, rfl⟩, hdata, hne⟩, rfl⟩

@[simp] theorem isData_declare
    (name : String) (type : TypeRef) (kind : TypeKind) (access : Access) (offset : UInt64) :
    (Member.declare name type kind access offset).isData = !kind.isFunction := by
  simp [Member.isData, Member.isFunction, Member.isEnumerator, Member.declare]

theorem MemberOf.dataMemberOf
    {name id : String} {e : Element} {member : Option Member}
    (h : s.MemberOf name id member)
    (he : s.index.find? id = some e)
    (hdata : e.kind = .field ∨ e.kind = .data) :
    ∃ m, member = some m ∧ s.DataMemberOf e m := by
  cases h with
  | data he' hkind hm =>
      rw [he] at he'
      cases he'
      exact ⟨_, rfl, hm⟩
  | function he' hkind hm =>
      rw [he] at he'
      cases he'
      rcases hdata with hk | hk <;> simp [hk, ElementKind.isMemberFunction] at hkind
  | other he' hother hfunction =>
      rw [he] at he'
      cases he'
      exact absurd hdata hother

/-- The keys for the members of a record are those of its named data members. -/
theorem mem_batch_of_membersOf_iff
    {record : Element} {name scope key : String} {members : List Member}
    (h : s.MembersOf record name members) :
    key ∈ (Step.setMembersIn name scope members).batch ↔
      ∃ mid ∈ record.memberIds, ∃ m target kind, s.index.find? mid = some m ∧
        (m.kind = .field ∨ m.kind = .data) ∧ m.name ≠ "" ∧ m.attr? "type" = some target ∧
        s.kindOf target m.id = .ok kind ∧ kind.isFunction = false ∧
        key = Name.qualify scope m.name := by
  obtain ⟨found, hfound, rfl⟩ := h
  rw [mem_batch_setMembersIn_iff]
  constructor
  · rintro ⟨m, hm, hdata, hne, rfl⟩
    obtain ⟨_, hm, rfl⟩ := List.mem_filterMap.mp hm
    obtain ⟨mid, hmid, hmember⟩ := exists_of_forall₂_right hfound hm
    cases hmember with
    | @data e m he hkind hdeclared =>
        obtain ⟨target, type, kind, access, offset, htarget, htype, hkindOf, rfl⟩ := hdeclared
        rw [isData_declare, Bool.not_eq_true'] at hdata
        exact ⟨mid, hmid, e, target, kind, he, hkind, hne, htarget, hkindOf, hdata, rfl⟩
    | function he hkind hdeclared =>
        obtain ⟨qualified, proto, access, -, -, rfl⟩ := hdeclared
        cases hdata
  · rintro ⟨mid, hmid, e, target, kind, he, hdata, hne, htarget, hkindOf, hnot, rfl⟩
    obtain ⟨member, hmem, hmember⟩ := exists_of_forall₂_left hfound hmid
    obtain ⟨m, rfl, target', type, kind', access, offset, htarget', -, hkindOf', rfl⟩ :=
      hmember.dataMemberOf he hdata
    rw [htarget] at htarget'
    cases htarget'
    rw [hkindOf] at hkindOf'
    cases hkindOf'
    refine ⟨_, List.mem_filterMap.mpr ⟨_, hmem, rfl⟩, ?_, hne, rfl⟩
    rw [isData_declare, hnot, Bool.not_false]

theorem batch_shellOf
    (e : Element) (name scope : String) (size : UInt64) :
    (Step.register (.ofType (shellOf e name scope size))).batch = [name] := by
  unfold shellOf
  split <;> rfl

theorem mem_batch_enumeration_iff
    {e : Element} {name scope key : String} {size : UInt64} {members : List Member}
    (h : List.Forall₂ (EnumeratorOf e) e.values members) :
    key ∈ (Step.register (.ofType (.enumeration name scope size members))).batch ↔
      key = name ∨ ∃ v ∈ e.values, key = Name.qualify scope v.name := by
  have hbatch : (Step.register (.ofType (.enumeration name scope size members))).batch =
      name :: (members.map (·.inScope scope)).map Member.qualified := rfl
  rw [hbatch, List.mem_cons, List.map_map, List.mem_map]
  refine or_congr_right ⟨?_, ?_⟩
  · rintro ⟨m, hm, rfl⟩
    obtain ⟨v, hv, value, -, rfl⟩ := exists_of_forall₂_right h hm
    exact ⟨v, hv, rfl⟩
  · rintro ⟨v, hv, rfl⟩
    obtain ⟨m, hm, value, -, rfl⟩ := exists_of_forall₂_left h hv
    exact ⟨_, hm, rfl⟩

end Members

theorem isGlobal_iff
    (e : Element) :
    s.isGlobal e = true ↔ e.flag "artificial" = false ∧ ∀ id, e.context? = some id →
      ∃ outer, s.index.find? id = some outer ∧ outer.kind = .space := by
  rw [isGlobal, Bool.and_eq_true, Bool.not_eq_true']
  refine and_congr_right fun _ => ?_
  simp [Option.all_eq_true, Option.any_eq_true]

section Exactness

variable {s}

theorem mem_refDemands_iff
    {id : String} {d : Demand} :
    d ∈ s.refDemands id ↔ ∃ base q, s.index.find? id = none ∧
      Spelling.qualifiedId? id = some (base, q) ∧ d = s.qualifiedDemand id base q := by
  unfold refDemands
  split
  · next base q hnone hbase =>
      simp [hnone, hbase]
  · next hother =>
      constructor
      · intro hd
        cases hd
      · rintro ⟨base, q, hnone, hbase, -⟩
        exact absurd hbase (hother base q hnone)

/-- A key that a request of the document is for is declared. -/
theorem Demanded.declaredKey
    {d : Demand} {r : Request} {key : String}
    (hd : s.Demanded d)
    (hr : d r)
    (hkey : key ∈ r.keys) :
    s.DeclaredKey key := by
  cases hd with
  | reference hread hd =>
      obtain ⟨base, q, hundefined, hbase, rfl⟩ := mem_refDemands_iff.mp hd
      obtain ⟨name, underlying, size, kind, hname, -, -, -, rfl⟩ := hr
      rw [List.mem_singleton.mp hkey]
      exact .qualified hread hundefined hbase hname
  | fundamental he hkind =>
      obtain ⟨name, kind, bits, hname, -, -, rfl⟩ := hr
      rw [List.mem_singleton.mp hkey]
      exact .named he (.fundamental hkind) hname
  | space he hkind hglobal =>
      obtain ⟨name, hname, rfl | ⟨scope, -, rfl⟩⟩ := hr
      · rw [List.mem_singleton.mp hkey]
        exact .named he (.space hkind hglobal) hname
      · rw [List.mem_singleton.mp hkey]
        exact .named he (.space hkind hglobal) hname
  | spaceAlias he hkind =>
      obtain ⟨name, scope, id, target, hname, -, -, -, rfl⟩ := hr
      rw [List.mem_singleton.mp hkey]
      exact .named he (.spaceAlias hkind) hname
  | enumeration he hkind =>
      obtain ⟨name, scope, bits, members, hname, hscope, -, hmembers, rfl⟩ := hr
      rcases (mem_batch_enumeration_iff hmembers).mp hkey with rfl | ⟨v, hv, rfl⟩
      · exact .named he (.enumeration hkind) hname
      · exact .enumerator he hkind hscope hv
  | shell he hkind =>
      obtain ⟨name, scope, bits, hname, -, -, rfl⟩ := hr
      rw [Request.keys, batch_shellOf, List.mem_singleton] at hkey
      rw [hkey]
      exact .named he (.record hkind) hname
  | memberType he hkind hid hm hfunction =>
      obtain ⟨cls, proto, hcls, hproto, rfl⟩ := hr
      rw [List.mem_singleton.mp hkey]
      exact .memberFunction he hkind hcls hid hm hfunction
        (memberFunctionSpelling_of_prototypeOf cls hproto)
  | members he hkind =>
      obtain ⟨name, scope, members, -, hscope, hmembers, rfl⟩ := hr
      obtain ⟨mid, hmid, m, target, kind, hm, hdata, hne, htarget, htype, hfunction, rfl⟩ :=
        (mem_batch_of_membersOf_iff hmembers).mp hkey
      exact .dataMember he hkind hscope hmid hm hdata hne htarget htype hfunction
  | bases he hkind hunion hbases =>
      obtain ⟨name, bases, -, -, rfl⟩ := hr
      cases hkey
  | typedef he hkind =>
      obtain ⟨name, id, target, hname, hid, htarget, ⟨-, rfl⟩ | ⟨hdiff, scope, size, -, -, rfl⟩⟩ := hr
      · cases hkey
      · rw [List.mem_singleton.mp hkey]
        exact .named he (.typedef hkind hid hname htarget hdiff) hname
  | structural he hkind =>
      obtain ⟨t, ht, rfl⟩ := hr
      rw [List.mem_singleton.mp hkey]
      exact .named he (.structural hkind) ht.name
  | function he hkind =>
      obtain ⟨f, hf, rfl⟩ := hr
      rw [List.mem_singleton.mp hkey]
      exact .named he (.function hkind) hf.name
  | globalData he hkind hglobal =>
      obtain ⟨name, scope, id, type, specifiers, hname, -, -, -, rfl⟩ := hr
      rw [List.mem_singleton.mp hkey]
      obtain ⟨hstated, hcontext⟩ := (s.isGlobal_iff _).mp hglobal
      exact .named he (.globalData hkind hstated hcontext) hname

/-- An element that is registered demands its name. -/
theorem Registered.exists_demand
    {e : Element}
    (h : s.Registered e)
    (he : e ∈ s.elements) :
    ∃ d, s.Demanded d ∧ ∀ r, d r → ∃ name ∈ r.keys, s.Names e.id name := by
  cases h with
  | fundamental hkind =>
      refine ⟨_, .fundamental he hkind, ?_⟩
      rintro r ⟨name, kind, bits, hname, -, -, rfl⟩
      exact ⟨name, List.mem_singleton_self name, hname⟩
  | spaceAlias hkind =>
      refine ⟨_, .spaceAlias he hkind, ?_⟩
      rintro r ⟨name, scope, id, target, hname, -, -, -, rfl⟩
      exact ⟨name, List.mem_singleton_self name, hname⟩
  | enumeration hkind =>
      refine ⟨_, .enumeration he hkind, ?_⟩
      rintro r ⟨name, scope, bits, members, hname, -, -, hmembers, rfl⟩
      exact ⟨name, (mem_batch_enumeration_iff hmembers).mpr (.inl rfl), hname⟩
  | record hkind =>
      refine ⟨_, .shell he hkind, ?_⟩
      rintro r ⟨name, scope, bits, hname, -, -, rfl⟩
      refine ⟨name, ?_, hname⟩
      rw [Request.keys, batch_shellOf]
      exact List.mem_singleton_self name
  | space hkind hglobal =>
      refine ⟨_, .space he hkind hglobal, ?_⟩
      rintro r ⟨name, hname, rfl | ⟨scope, -, rfl⟩⟩
      · exact ⟨name, List.mem_singleton_self name, hname⟩
      · exact ⟨name, List.mem_singleton_self name, hname⟩
  | typedef hkind hid hname htarget hdiff =>
      refine ⟨_, .typedef he hkind, ?_⟩
      rintro r ⟨name', id', target', hname', hid', htarget', hcases⟩
      rw [hid] at hid'
      cases hid'
      rcases hcases with ⟨hsame, rfl⟩ | ⟨-, scope, size, -, -, rfl⟩
      · rw [htarget'.unique htarget, hname'.unique hname] at hsame
        exact absurd hsame hdiff
      · exact ⟨name', List.mem_singleton_self name', hname'⟩
  | structural hkind =>
      refine ⟨_, .structural he hkind, ?_⟩
      rintro r ⟨t, ht, rfl⟩
      exact ⟨_, List.mem_singleton_self _, ht.name⟩
  | function hkind =>
      refine ⟨_, .function he hkind, ?_⟩
      rintro r ⟨f, hf, rfl⟩
      exact ⟨_, List.mem_singleton_self _, hf.name⟩
  | globalData hkind hstated hcontext =>
      refine ⟨_, .globalData he hkind ((s.isGlobal_iff e).mpr ⟨hstated, hcontext⟩), ?_⟩
      rintro r ⟨name, scope, id, type, specifiers, hname, -, -, -, rfl⟩
      exact ⟨name, List.mem_singleton_self name, hname⟩

theorem ExposedIn.unique
    {e : Element} {scope scope' : String}
    (h : s.ExposedIn e scope)
    (h' : s.ExposedIn e scope') :
    scope = scope' := by
  unfold ExposedIn at h h'
  split at h
  · next hunnamed =>
      rw [if_pos hunnamed] at h'
      exact h.unique h'
  · next hnamed =>
      rw [if_neg hnamed] at h'
      exact h.unique h'

/-- A declared key is what some demand of the document is for. -/
theorem DeclaredKey.exists_demand
    {key : String}
    (h : s.DeclaredKey key) :
    ∃ d, s.Demanded d ∧ ∀ r, d r → key ∈ r.keys := by
  cases h with
  | named he hregistered hname =>
      obtain ⟨d, hd, hnames⟩ := hregistered.exists_demand he
      refine ⟨d, hd, fun r hr => ?_⟩
      obtain ⟨name, hmem, hname'⟩ := hnames r hr
      rwa [hname.unique hname']
  | enumerator he hkind hscope hv =>
      refine ⟨_, .enumeration he hkind, ?_⟩
      rintro r ⟨name, scope', bits, members, -, hscope', -, hmembers, rfl⟩
      rw [hscope.unique hscope']
      exact (mem_batch_enumeration_iff hmembers).mpr (.inr ⟨_, hv, rfl⟩)
  | dataMember hrecord hkind hscope hmid hm hdata hname htarget htype hfunction =>
      refine ⟨_, .members hrecord hkind, ?_⟩
      rintro r ⟨name, scope', members, -, hscope', hmembers, rfl⟩
      rw [hscope.unique hscope']
      exact (mem_batch_of_membersOf_iff hmembers).mpr
        ⟨_, hmid, _, _, _, hm, hdata, hname, htarget, htype, hfunction, rfl⟩
  | memberFunction hrecord hkind hcls hmid hm hfunction hspelling =>
      refine ⟨_, .memberType hrecord hkind hmid hm hfunction, ?_⟩
      rintro r ⟨name, proto, hname, hproto, rfl⟩
      rw [← hcls.unique hname]
      exact List.mem_singleton.mpr
        (hspelling.unique (memberFunctionSpelling_of_prototypeOf _ hproto))
  | qualified hread hundefined hbase hname =>
      refine ⟨_, .reference hread (mem_refDemands_iff.mpr ⟨_, _, hundefined, hbase, rfl⟩), ?_⟩
      rintro r ⟨name, underlying, size, kind, hname', -, -, -, rfl⟩
      exact List.mem_singleton.mpr (hname.unique hname')

/-- Where all demands of a document are met, everything that it declares has its name. -/
theorem complete_of_met
    (h : ∀ d, s.Demanded d → ∃ r, d r) :
    s.Complete := by
  refine ⟨?_, ?_, ?_, ?_, ?_, ?_⟩
  · intro e he hregistered
    obtain ⟨d, hd, hnames⟩ := hregistered.exists_demand he
    obtain ⟨r, hr⟩ := h d hd
    obtain ⟨name, -, hname⟩ := hnames r hr
    exact ⟨name, hname⟩
  · intro e he hkind
    obtain ⟨r, name, scope, bits, members, -, hscope, -⟩ := h _ (.enumeration he hkind)
    exact ⟨scope, hscope⟩
  · intro e he hkind
    obtain ⟨r, name, scope, members, -, hscope, -⟩ := h _ (.members he hkind)
    exact ⟨scope, hscope⟩
  · intro e he hkind mid hmid m hm hdata
    obtain ⟨r, name, scope, members, -, -, ⟨found, hfound, -⟩, -⟩ := h _ (.members he hkind)
    obtain ⟨member, -, hmember⟩ := exists_of_forall₂_left hfound hmid
    obtain ⟨-, -, target, -, kind, -, -, htarget, -, htype, -⟩ := hmember.dataMemberOf hm hdata
    exact ⟨target, kind, htarget, htype⟩
  · intro e he hkind mid hmid m hm hfunction
    obtain ⟨r, cls, proto, hcls, hproto, -⟩ := h _ (.memberType he hkind hmid hm hfunction)
    exact ⟨cls, _, hcls, memberFunctionSpelling_of_prototypeOf cls hproto⟩
  · intro id base q hread hundefined hbase
    obtain ⟨r, name, underlying, size, kind, hname, -⟩ :=
      h _ (.reference hread (mem_refDemands_iff.mpr ⟨base, q, hundefined, hbase, rfl⟩))
    exact ⟨name, hname⟩

/-- The keys after the registration of all elements. -/
theorem mem_keys_registerAll_iff
    {c : Catalog} {a : Unit} {state : RegistrationState}
    (hc : c.Coherent)
    (h : s.registerAll.run ⟨c, ∅⟩ = .ok (a, state))
    (key : String) :
    key ∈ state.catalog.keys ↔ key ∈ c.keys ∨ s.DeclaredKey key := by
  obtain ⟨rs, hmet, hall, honly⟩ := s.exists_requests h
  rw [hmet.mem_keys_iff hc]
  refine or_congr_right ⟨?_, ?_⟩
  · rintro ⟨r, hr, hkey⟩
    obtain ⟨d, hd, hmeets⟩ := honly r hr
    exact hd.declaredKey hmeets hkey
  · intro hdeclared
    obtain ⟨d, hd, hkey⟩ := hdeclared.exists_demand
    obtain ⟨r, hr, hmeets⟩ := hall d hd
    exact ⟨r, hr, hkey r hmeets⟩

end Exactness

end Source

namespace Catalog

open Source Request

theorem registerDocument_eq_ok
    {c c' : Catalog} {d : Document} {n : Template.Normalizer} {o : RegistrationOptions}
    {stats : Statistics}
    (h : c.registerDocument d n o = (.ok stats, c')) :
    ∃ a state, (Source.ofDocument (d.repair n) n o).registerAll.run ⟨c, ∅⟩ = .ok (a, state) ∧
      state.catalog = c' := by
  unfold registerDocument at h
  dsimp only at h
  split at h
  · next a state hrun =>
      exact ⟨a, state, hrun, (Prod.mk.inj h).2⟩
  · cases (Prod.mk.inj h).1

/-- After a document has been registered, the keys are those from before and those that the document
declares, and everything that it declares has its name. -/
theorem mem_keys_registerDocument_iff
    {c c' : Catalog} {d : Document} {n : Template.Normalizer} {o : RegistrationOptions}
    {stats : Statistics}
    (hc : c.Reachable)
    (h : c.registerDocument d n o = (.ok stats, c')) :
    (∀ key, key ∈ c'.keys ↔
      key ∈ c.keys ∨ (Source.ofDocument (d.repair n) n o).DeclaredKey key) ∧
    (Source.ofDocument (d.repair n) n o).Complete := by
  obtain ⟨a, state, hrun, rfl⟩ := registerDocument_eq_ok h
  refine ⟨mem_keys_registerAll_iff hc.coherent hrun, complete_of_met fun demand hdemanded => ?_⟩
  obtain ⟨rs, -, hall, -⟩ := exists_requests _ hrun
  obtain ⟨r, -, hmeets⟩ := hall demand hdemanded
  exact ⟨r, hmeets⟩

/-- A namespace with a struct, an enumeration, an unnamed union and a type alias that has the name of
its target. The field of the struct has an undefined qualified type; the variable is artificial. -/
def sampleDocument :
    Document :=
  .ofElements
    [{ Element.bare "Namespace" "_1" with attributes := [("name", "::")] },
     { Element.bare "Namespace" "_2" with attributes := [("name", "N"), ("context", "_1")] },
     { Element.bare "FundamentalType" "_3" with attributes := [("name", "int")] },
     { Element.bare "Struct" "_4" with
       attributes := [("name", "S"), ("context", "_2"), ("members", "_5 _6")] },
     { Element.bare "Field" "_5" with
       attributes := [("name", "f"), ("context", "_4"), ("type", "_3c"), ("access", "public")] },
     { Element.bare "Method" "_6" with
       attributes := [("name", "g"), ("context", "_4"), ("access", "public")]
       arguments := [⟨"x", "_3", none⟩] },
     { Element.bare "Enumeration" "_7" with
       attributes := [("name", "E"), ("context", "_2")]
       values := [⟨"A", "0"⟩] },
     { Element.bare "Union" "_8" with attributes := [("context", "_2"), ("members", "_9")] },
     { Element.bare "Field" "_9" with
       attributes := [("name", "u"), ("context", "_8"), ("type", "_3"), ("access", "public")] },
     { Element.bare "Typedef" "_10" with
       attributes := [("name", "S"), ("context", "_2"), ("type", "_4")] },
     { Element.bare "Variable" "_11" with
       attributes := [("name", "v"), ("context", "_2"), ("type", "_3"), ("artificial", "1")] }]

theorem mem_keys_registerDocument_sample :
    (empty.registerDocument sampleDocument .standard .standard).1 =
        .ok (Statistics.ofDocument (sampleDocument.repair .standard)) ∧
      ∀ key, (Source.ofDocument (sampleDocument.repair .standard) .standard .standard).DeclaredKey
        key ↔ key ∈ ["int", "N", "N::E", "N::A", "N::S", "N::@anon@_8", "const int",
          "void(N::S::)(int)", "N::S::f", "N::u", "N::S::g"] := by
  obtain ⟨hok, hkeys⟩ : (empty.registerDocument sampleDocument .standard .standard).1 =
        .ok (Statistics.ofDocument (sampleDocument.repair .standard)) ∧
      (empty.registerDocument sampleDocument .standard .standard).2.keys =
        ["int", "N", "N::E", "N::A", "N::S", "N::@anon@_8", "const int", "void(N::S::)(int)",
          "N::S::f", "N::u", "N::S::g"] := by
    decide +kernel
  have hempty : empty.Reachable := ⟨[], rfl⟩
  refine ⟨hok, fun key => ?_⟩
  obtain ⟨hiff, -⟩ := mem_keys_registerDocument_iff hempty (Prod.ext hok rfl)
  rw [← hkeys, hiff key, or_iff_right (by simp)]

end Catalog
end TypeCatalog
