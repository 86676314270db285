import TypeCatalog.Proofs.Registration.Demands

/-!
# What the declarations of a document demand

**Input.** What a registration reads: the elements of a document, its index and its namer.

**Rule.** An element demands the entities that it describes, under the names and scopes that a new
namer gives, and what its parts demand. A namespace that is there already and a type alias with the
name of its target demand nothing new; the global namespace, artificial variables and variables
inside of records or functions demand nothing at all.

**Results.**
* `asks_fundamental` and so on: the declarations, kind by kind.
* `exists_requests`: a registration that succeeds has met the demands of the document, and no
  others.
-/

namespace TypeCatalog
namespace Source

open Registration Request

variable (s : Source)

section Scopes

/-- The demand for a builtin type. -/
def fundamentalDemand
    (e : Element) :
    Demand :=
  fun r => ∃ name kind bits,
    s.Names e.id name ∧ Layout.builtinKind name = .ok kind ∧ e.uint "size" = .ok bits ∧
      r = .offer (.fundamental name (Layout.bytesOfBits bits) kind)

/-- The demand for a namespace, which may be there already. -/
def spaceDemand
    (e : Element) :
    Demand :=
  fun r => ∃ name, s.Names e.id name ∧
    (r = .reopen name ∨ ∃ scope, s.DeclaredIn e.id scope ∧
      r = .take (.register (.ofNamespace { qualified := name, scope, aliasOf := none })))

/-- The demands of a namespace; the global one has none. -/
def spaceDemands
    (e : Element) :
    List Demand :=
  if e.name = "::" then [] else [s.spaceDemand e]

/-- The demand for an alias of a namespace. -/
def spaceAliasDemand
    (e : Element) :
    Demand :=
  fun r => ∃ name scope id target,
    s.Names e.id name ∧ s.DeclaredIn e.id scope ∧ e.attr? "namespace" = some id ∧
      s.Names id target ∧
      r = .take (.register (.ofNamespace { qualified := name, scope, aliasOf := some target }))

theorem asks_fundamental
    (e : Element) :
    Asks s.namer (s.fundamental e) [s.fundamentalDemand e] (fun _ => True) := by
  refine (s.asks_nameOf e.id).after fun name hname => ?_
  refine (Asks.lift _).after fun kind hkind => ?_
  refine (Asks.lift _).after fun bits hbits => ?_
  refine asks_registerType ?_ ⟨name, kind, bits, hname, hkind, hbits, rfl⟩
  rintro members ⟨⟩

theorem asks_space
    (e : Element) :
    Asks s.namer (s.space e) (s.spaceDemands e) (fun _ => True) := by
  unfold space spaceDemands
  split
  · exact .pure trivial
  · refine (s.asks_nameOf e.id).after fun name hname => ?_
    refine .get fun state => ?_
    split
    · next found hfound =>
        intro a state' hmemo h
        obtain ⟨-, rfl⟩ := Prod.mk.inj (Except.ok.inj h)
        exact ⟨hmemo, trivial, _, .single ⟨name, hname, .inl rfl⟩, .single (.reopened hfound)⟩
    · refine (s.asks_scopeOf e.id).after (fun scope hscope => ?_) state
      exact asks_register ⟨name, hname, .inr ⟨scope, hscope, rfl⟩⟩

theorem asks_spaceAlias
    (e : Element) :
    Asks s.namer (s.spaceAlias e) [s.spaceAliasDemand e] (fun _ => True) := by
  refine (s.asks_nameOf e.id).after fun name hname => ?_
  refine (s.asks_scopeOf e.id).after fun scope hscope => ?_
  refine (Asks.lift _).after fun id hid => ?_
  rw [Namer.required_eq_ok_iff] at hid
  refine (s.asks_referencedName id e.id).after fun target htarget => ?_
  exact asks_register ⟨name, scope, id, target, hname, hscope, hid, htarget, rfl⟩

end Scopes

section Types

/-- The enumerator that a document states. -/
def EnumeratorOf
    (e : Element) (v : EnumValue) (m : Member) :
    Prop :=
  ∃ value, enumValue e.id v.init = .ok value ∧ m = .enumerator v.name value

/-- The demand for an enumeration and its enumerators. -/
def enumerationDemand
    (e : Element) :
    Demand :=
  fun r => ∃ name scope bits members,
    s.Names e.id name ∧ s.DeclaredIn e.id scope ∧ e.uint "size" = .ok bits ∧
      List.Forall₂ (EnumeratorOf e) e.values members ∧
      r = .take (.register (.ofType (.enumeration name scope (Layout.bytesOfBits bits) members)))

/-- A record before it has members and bases. -/
def shellOf
    (e : Element) (name scope : String) (size : UInt64) :
    DataType :=
  if e.kind = .unionRecord then .union name scope size
  else
    (DataType.record (if e.kind = .structRecord then .structKey else .classKey) name scope
      size).withSpecifiers (.when (e.flag "abstract") .abstract)

section Shell

variable (e : Element) (name scope : String) (size : UInt64)

@[simp] theorem qualified_shellOf :
    (shellOf e name scope size).header.qualified = name := by
  unfold shellOf
  split <;> rfl

@[simp] theorem scope_shellOf :
    (shellOf e name scope size).header.scope = scope := by
  unfold shellOf
  split <;> rfl

@[simp] theorem refs_shellOf :
    (shellOf e name scope size).shape.refs = [] := by
  unfold shellOf
  split <;> rfl

theorem shape_shellOf
    (members : List Member) :
    (shellOf e name scope size).shape ≠ .enumeration members := by
  unfold shellOf
  split <;> rintro ⟨⟩

end Shell

/-- The demand for a record without members and bases. -/
def shellDemand
    (e : Element) :
    Demand :=
  fun r => ∃ name scope bits,
    s.Names e.id name ∧ s.DeclaredIn e.id scope ∧ e.uint "size" = .ok bits ∧
      r = .take (.register (.ofType (shellOf e name scope (Layout.bytesOfBits bits))))

/-- The scope under which the named data members of a record are found: the record itself, or the
one around a record without a usable name. -/
def ExposedIn
    (e : Element) (scope : String) :
    Prop :=
  if e.isUnnamed then s.DeclaredIn e.id scope else s.Names e.id scope

/-- The demand that a record has its members. -/
def membersDemand
    (e : Element) :
    Demand :=
  fun r => ∃ name scope members,
    s.Names e.id name ∧ s.ExposedIn e scope ∧ s.MembersOf e name members ∧
      r = .take (.setMembersIn name scope members)

/-- The demand that a record has its bases. -/
def basesDemand
    (e : Element) :
    Demand :=
  fun r => ∃ name bases,
    s.Names e.id name ∧ List.Forall₂ s.BaseOf e.bases bases ∧ r = .take (.setBases name bases)

/-- The demands for the bases of a record; a union has none. -/
def fillBasesDemands
    (e : Element) :
    List Demand :=
  if e.kind != .unionRecord && !e.bases.isEmpty then
    (e.bases.flatMap fun b => s.refDemands b.type) ++ [s.basesDemand e]
  else []

/-- The demands for the members and bases of a record. -/
def fillDemands
    (e : Element) :
    List Demand :=
  e.memberIds.flatMap (s.memberDemands e) ++ ([s.membersDemand e] ++ s.fillBasesDemands e)

/-- The demand for a type alias, which is left out if it has the name of its target. -/
def typedefDemand
    (e : Element) :
    Demand :=
  fun r => ∃ name id target,
    s.Names e.id name ∧ e.attr? "type" = some id ∧ s.Names id target ∧
      (target = name ∧ r = .leaveOut name ∨
        target ≠ name ∧ ∃ scope size, s.DeclaredIn e.id scope ∧ s.sizeOf id e.id = .ok size ∧
          r = .take (.register (.ofType (.typedef name scope (.named target) size))))

/-- The demands of a type alias. -/
def typedefDemands
    (e : Element) :
    List Demand :=
  e.targetIds.flatMap s.refDemands ++ [s.typedefDemand e]

theorem asks_enumeration
    (e : Element) :
    Asks s.namer (s.enumeration e) [s.enumerationDemand e] (fun _ => True) := by
  refine (s.asks_nameOf e.id).after fun name hname => ?_
  refine (s.asks_scopeOf e.id).after fun scope hscope => ?_
  refine (Asks.lift _).after fun bits hbits => ?_
  have hmembers : Asks s.namer (e.values.mapM fun v => do
      return (Member.enumerator v.name (← enumValue e.id v.init)))
      (e.values.flatMap fun _ => []) (List.Forall₂ (EnumeratorOf e) e.values) :=
    .mapM fun v _ => (Asks.lift _).map fun value hvalue => ⟨value, hvalue, rfl⟩
  rw [List.flatMap_eq_nil_iff.mpr fun _ _ => rfl] at hmembers
  refine hmembers.after fun members hmembers => ?_
  exact asks_register ⟨name, scope, bits, members, hname, hscope, hbits, hmembers, rfl⟩

theorem asks_shell
    (e : Element) :
    Asks s.namer (s.shell e) [s.shellDemand e] (fun _ => True) := by
  refine (s.asks_nameOf e.id).after fun name hname => ?_
  refine (s.asks_scopeOf e.id).after fun scope hscope => ?_
  refine (Asks.lift _).after fun bits hbits => ?_
  exact asks_register ⟨name, scope, bits, hname, hscope, hbits, rfl⟩

theorem asks_fillBases
    (e : Element) {name : String}
    (hname : s.Names e.id name) :
    Asks s.namer (do
      if e.kind != .unionRecord && !e.bases.isEmpty then
        let bases ← s.bases e
        change (·.setBases name bases)) (s.fillBasesDemands e) (fun _ => True) := by
  unfold fillBasesDemands
  split
  · refine (s.asks_bases e).bind fun bases hbases => ?_
    exact .change (s := .setBases name bases) trivial (fun c a c' h => h)
      ⟨name, bases, hname, hbases, rfl⟩
  · exact .pure trivial

theorem asks_fill
    (e : Element) :
    Asks s.namer (s.fill e) (s.fillDemands e) (fun _ => True) := by
  refine (s.asks_nameOf e.id).after fun name hname => ?_
  refine (s.asks_members e hname).bind fun members hmembers => ?_
  have hset : ∀ {scope : String}, s.ExposedIn e scope →
      Asks s.namer (change (·.setMembersIn name scope members)) [s.membersDemand e]
        (fun _ => True) := fun hscope =>
    .change (s := .setMembersIn name _ members) trivial (fun c a c' h => h)
      ⟨name, _, members, hname, hscope, hmembers, rfl⟩
  dsimp only
  split
  · next hunnamed =>
      refine (s.asks_scopeOf e.id).after fun scope hscope => ?_
      refine (hset ?_).bind fun _ _ => s.asks_fillBases e hname
      rwa [ExposedIn, if_pos hunnamed]
  · next hnamed =>
      refine (hset ?_).bind fun _ _ => s.asks_fillBases e hname
      rwa [ExposedIn, if_neg hnamed]

theorem asks_typedef
    (e : Element) :
    Asks s.namer (s.typedef e) (s.typedefDemands e) (fun _ => True) := by
  unfold typedefDemands
  refine (s.asks_nameOf e.id).after fun name hname => ?_
  refine (Asks.lift _).after fun id hid => ?_
  rw [Namer.required_eq_ok_iff] at hid
  rw [Element.targetIds_eq hid, List.flatMap_singleton]
  refine (s.asks_typeRef id e.id).bind fun target htarget => ?_
  split
  · next hsame =>
      exact .leaveOut ⟨name, id, target, hname, hid, htarget, .inl ⟨hsame, rfl⟩⟩
  · next hdiff =>
      refine (s.asks_scopeOf e.id).after fun scope hscope => ?_
      refine (Asks.lift _).after fun size hsize => ?_
      exact asks_register
        ⟨name, id, target, hname, hid, htarget, .inr ⟨hdiff, scope, size, hscope, hsize, rfl⟩⟩

end Types

section Structure

/-- The reference stands for the type of one of the ids, or for the result of a function that states
none. -/
def StandsFor
    (ids : List String) (r : TypeRef) :
    Prop :=
  ∃ name, r = .named name ∧ ((∃ id ∈ ids, s.Names id name) ∨ name = "void")

theorem PrototypeOf.standsFor
    {s : Source} {e : Element} {proto : Prototype} {r : TypeRef}
    (h : s.PrototypeOf e proto)
    (hr : r ∈ proto.refs) :
    s.StandsFor e.prototypeIds r := by
  rw [Prototype.refs, List.mem_append, List.mem_singleton] at hr
  rcases hr with hparam | rfl
  · obtain ⟨p, hp, rfl⟩ := List.mem_map.mp hparam
    obtain ⟨a, ha, type, htype, rfl⟩ := exists_of_forall₂_right h.params hp
    exact ⟨type, rfl, .inl ⟨a.type, List.mem_append_left _ (List.mem_map_of_mem ha), htype⟩⟩
  · obtain ⟨result, hresult, heq⟩ := h.result
    refine ⟨result, heq, ?_⟩
    unfold ResultOf at hresult
    split at hresult
    · next id hid =>
        exact .inl ⟨id, List.mem_append_right _ (by simp [hid]), hresult⟩
    · exact .inr hresult

@[simp] theorem refs_typeOnly
    (proto : Prototype) :
    proto.typeOnly.refs = proto.refs := by
  simp [Prototype.refs, Prototype.typeOnly, Function.comp_def]

/-- The type made from other types that an element describes. -/
inductive StructuralTypeOf
    (e : Element) :
    DataType → Prop
  | pointer
      {name id pointee : String} {size : UInt64}
      (hkind : e.kind = .pointer)
      (hname : s.Names e.id name)
      (hid : e.attr? "type" = some id)
      (hpointee : s.Names id pointee)
      (hsize : Layout.pointerSize s.pointerSize e = .ok size) :
      StructuralTypeOf e (.pointer name (.named pointee) size)
  | reference
      {name id referent : String} {size : UInt64}
      (hkind : e.kind = .reference)
      (hname : s.Names e.id name)
      (hid : e.attr? "type" = some id)
      (hreferent : s.Names id referent)
      (hsize : Layout.pointerSize s.pointerSize e = .ok size) :
      StructuralTypeOf e (.reference name (.named referent) size)
  | cvQualified
      {name id underlying : String} {size : UInt64} {kind : TypeKind}
      (hkind : e.kind = .cvQualified)
      (hname : s.Names e.id name)
      (hid : e.attr? "type" = some id)
      (hunderlying : s.Names id underlying)
      (hsize : s.sizeOf id e.id = .ok size)
      (hkindOf : s.kindOf id e.id = .ok kind) :
      StructuralTypeOf e (.cvQualified name (.named underlying) e.qualifiers size kind)
  | array
      {name id element : String} {length : Option UInt64} {size : UInt64}
      (hkind : e.kind = .array)
      (hname : s.Names e.id name)
      (hid : e.attr? "type" = some id)
      (helement : s.Names id element)
      (hlength : e.arrayLength = .ok length)
      (hsize : s.sizeOf e.id e.id = .ok size) :
      StructuralTypeOf e (.array name (.named element) (length.getD 0) size)
  | offset
      {name id pointee owner cls : String} {size : UInt64}
      (hkind : e.kind = .offset)
      (hname : s.Names e.id name)
      (hid : e.attr? "type" = some id)
      (hpointee : s.Names id pointee)
      (howner : e.attr? "basetype" = some owner)
      (hcls : s.Names owner cls)
      (hsize : Layout.pointerSize s.pointerSize e = .ok size) :
      StructuralTypeOf e (.memberPointer name (.named pointee) cls size)
  | functionType
      {name : String} {proto : Prototype}
      (hkind : e.kind = .functionType)
      (hname : s.Names e.id name)
      (hproto : s.PrototypeOf e proto) :
      StructuralTypeOf e (.function name proto.typeOnly)
  | methodType
      {name : String} {proto : Prototype}
      (hkind : e.kind = .methodType)
      (hname : s.Names e.id name)
      (hproto : s.PrototypeOf e proto) :
      StructuralTypeOf e (TypeCatalog.methodType name proto.typeOnly e.qualifiers)

namespace StructuralTypeOf

variable {s} {e : Element} {t : DataType}

theorem name
    (h : s.StructuralTypeOf e t) :
    s.Names e.id t.header.qualified := by
  cases h <;> assumption

theorem scope
    (h : s.StructuralTypeOf e t) :
    t.header.scope = "" := by
  cases h <;> rfl

theorem shape
    (h : s.StructuralTypeOf e t) (members : List Member) :
    t.shape ≠ .enumeration members := by
  cases h <;> rintro ⟨⟩

theorem refs
    {r : TypeRef}
    (h : s.StructuralTypeOf e t)
    (hr : r ∈ t.shape.refs) :
    s.StandsFor e.partIds r := by
  have htarget : ∀ {id target : String}, e.partIds = e.targetIds → e.attr? "type" = some id →
      s.Names id target → r ∈ [TypeRef.named target] → s.StandsFor e.partIds r := by
    intro id target hparts hid htarget hr
    rw [hparts, Element.targetIds_eq hid]
    exact ⟨target, List.mem_singleton.mp hr, .inl ⟨id, List.mem_singleton_self id, htarget⟩⟩
  cases h with
  | pointer hkind _ hid hpointee _ =>
      exact htarget (e.partIds_of_target (by simp [hkind])).1 hid hpointee hr
  | reference hkind _ hid hreferent _ =>
      exact htarget (e.partIds_of_target (by simp [hkind])).1 hid hreferent hr
  | cvQualified hkind _ hid hunderlying _ _ =>
      exact htarget (e.partIds_of_target (by simp [hkind])).1 hid hunderlying hr
  | array hkind _ hid helement _ _ =>
      exact htarget (e.partIds_of_target (by simp [hkind])).1 hid helement hr
  | offset hkind _ hid hpointee _ _ _ =>
      exact htarget (Element.partIds_of_offset hkind).1 hid hpointee hr
  | functionType hkind _ hproto =>
      rw [(e.partIds_of_prototype (by simp [hkind])).1]
      exact hproto.standsFor (refs_typeOnly _ ▸ hr)
  | methodType hkind _ hproto =>
      rw [(e.partIds_of_prototype (by simp [hkind])).1]
      exact hproto.standsFor (refs_typeOnly _ ▸ hr)

end StructuralTypeOf

/-- The demand for a type made from other types. -/
def structuralDemand
    (e : Element) :
    Demand :=
  fun r => ∃ t, s.StructuralTypeOf e t ∧ r = .offer t

/-- The demands of an element whose type is made from other types. -/
def structuralDemands
    (e : Element) :
    List Demand :=
  e.structuralIds.flatMap s.refDemands ++ [s.structuralDemand e]

theorem asks_target
    (e : Element) :
    Asks s.namer (do s.typeRef (← e.required "type") e.id) (e.targetIds.flatMap s.refDemands)
      (fun target => ∃ id, e.attr? "type" = some id ∧ s.Names id target) := by
  refine (Asks.lift _).after fun id hid => ?_
  rw [Namer.required_eq_ok_iff] at hid
  rw [Element.targetIds_eq hid, List.flatMap_singleton]
  exact (s.asks_typeRef id e.id).imp fun target htarget => ⟨id, hid, htarget⟩

/-- What follows the target of an element asks for no more, where the target is all it is made
from. -/
theorem asks_ofTarget
    {e : Element} {rest : String → Registration DataType}
    (hids : e.structuralIds = e.targetIds)
    (hrest : ∀ target id, e.attr? "type" = some id → s.Names id target →
      Asks s.namer (rest target) [] (s.StructuralTypeOf e)) :
    Asks s.namer ((do s.typeRef (← e.required "type") e.id) >>= rest)
      (e.structuralIds.flatMap s.refDemands) (s.StructuralTypeOf e) := by
  rw [hids, ← List.append_nil (e.targetIds.flatMap s.refDemands)]
  refine (s.asks_target e).bind fun target htarget => ?_
  obtain ⟨id, hid, hname⟩ := htarget
  exact hrest target id hid hname

theorem asks_structuralType
    (e : Element)
    (hkind : e.kind ∈ structuralKinds) :
    Asks s.namer (s.structuralType e) (e.structuralIds.flatMap s.refDemands)
      (s.StructuralTypeOf e) := by
  refine (s.asks_nameOf e.id).after fun name hname => ?_
  dsimp only
  split
  · next hk =>
      have hids := (e.partIds_of_target (by simp [hk])).2
      refine s.asks_ofTarget hids fun pointee id hid hpointee => ?_
      refine (Asks.lift _).map fun size hsize => ?_
      exact .pointer hk hname hid hpointee hsize
  · next hk =>
      have hids := (e.partIds_of_target (by simp [hk])).2
      refine s.asks_ofTarget hids fun referent id hid hreferent => ?_
      refine (Asks.lift _).map fun size hsize => ?_
      exact .reference hk hname hid hreferent hsize
  · next hk =>
      have hids := (e.partIds_of_target (by simp [hk])).2
      refine (Asks.lift _).after fun id hid => ?_
      rw [Namer.required_eq_ok_iff] at hid
      refine s.asks_ofTarget hids fun underlying id' hid' hunderlying => ?_
      obtain rfl : id = id' := Option.some.inj (hid.symm.trans hid')
      refine (Asks.lift _).after fun size hsize => ?_
      refine (Asks.lift _).map fun kind hkindOf => ?_
      exact .cvQualified hk hname hid hunderlying hsize hkindOf
  · next hk =>
      have hids := (e.partIds_of_target (by simp [hk])).2
      refine s.asks_ofTarget hids fun element id hid helement => ?_
      refine (Asks.lift _).after fun length hlength => ?_
      refine (Asks.lift _).map fun size hsize => ?_
      exact .array hk hname hid helement hlength hsize
  · next hk =>
      rw [(Element.partIds_of_offset hk).2, List.flatMap_append]
      refine (s.asks_target e).bind fun pointee hpointee => ?_
      obtain ⟨id, hid, hpointee⟩ := hpointee
      refine (Asks.lift _).after fun owner howner => ?_
      rw [Namer.required_eq_ok_iff] at howner
      rw [howner, Option.toList_some, List.flatMap_singleton, ← List.append_nil (s.refDemands owner)]
      refine (s.asks_typeRef owner e.id).bind fun cls hcls => ?_
      refine (Asks.lift _).map fun size hsize => ?_
      exact .offset hk hname hid hpointee howner hcls hsize
  · next hk =>
      rw [(e.partIds_of_prototype (by simp [hk])).2]
      exact (s.asks_prototype e).map fun proto hproto => .functionType hk hname hproto
  · next hpointer hreference hcv harray hoffset hfunction =>
      have hk : e.kind = .methodType := by
        simp only [structuralKinds, List.mem_cons, List.not_mem_nil, or_false] at hkind
        tauto
      rw [(e.partIds_of_prototype (by simp [hk])).2]
      exact (s.asks_prototype e).map fun proto hproto => .methodType hk hname hproto

theorem asks_structural
    (e : Element)
    (hkind : e.kind ∈ structuralKinds) :
    Asks s.namer (s.structural e) (s.structuralDemands e) (fun _ => True) := by
  refine (s.asks_structuralType e hkind).bind fun t ht => ?_
  exact asks_registerType ht.shape ⟨t, ht, rfl⟩

end Structure

section Objects

/-- The function that an element describes. -/
structure FunctionOf
    (e : Element) (f : Function) :
    Prop where
  name : s.Names e.id f.qualified
  scope : s.DeclaredIn e.id f.scope
  proto : s.PrototypeOf e f.proto

/-- The demand for a function. -/
def functionDemand
    (e : Element) :
    Demand :=
  fun r => ∃ f, s.FunctionOf e f ∧ r = .take (.register (.ofFunction f))

/-- The demands of a function. -/
def functionDemands
    (e : Element) :
    List Demand :=
  e.prototypeIds.flatMap s.refDemands ++ [s.functionDemand e]

/-- Whether a variable is one that the program declares at namespace scope. -/
def isGlobal
    (e : Element) :
    Bool :=
  !e.flag "artificial" && e.context?.all fun id => (s.index.find? id).any fun c => c.kind == .space

/-- The demand for a variable. -/
def variableDemand
    (e : Element) :
    Demand :=
  fun r => ∃ name scope id type specifiers,
    s.Names e.id name ∧ s.DeclaredIn e.id scope ∧ e.attr? "type" = some id ∧ s.Names id type ∧
      r = .take (.register (.ofVariable
        { qualified := name, scope, type := .named type, specifiers }))

/-- The demands of a variable. -/
def variableDemands
    (e : Element) :
    List Demand :=
  if s.isGlobal e then e.targetIds.flatMap s.refDemands ++ [s.variableDemand e] else []

theorem asks_functionOf
    (e : Element) :
    Asks s.namer (s.functionOf e) (e.prototypeIds.flatMap s.refDemands) (s.FunctionOf e) := by
  refine (s.asks_nameOf e.id).after fun name hname => ?_
  refine (s.asks_scopeOf e.id).after fun scope hscope => ?_
  exact (s.asks_prototype e).map fun proto hproto => ⟨hname, hscope, hproto⟩

theorem asks_function
    (e : Element) :
    Asks s.namer (s.function e) (s.functionDemands e) (fun _ => True) :=
  (s.asks_functionOf e).bind fun f hf => asks_register ⟨f, hf, rfl⟩

theorem asks_globalVariable
    (e : Element) {atNamespaceScope : Bool}
    (h : s.isGlobal e = atNamespaceScope) :
    Asks s.namer (do
      if !atNamespaceScope then return
      let qualified ← s.nameOf e.id
      let scope ← s.scopeOf e.id
      let type ← s.typeRef (← e.required "type") e.id
      let specifiers := (Specifiers.when (e.flag "extern") .external).union
        (.when (e.flag "static") .static)
      register (.ofVariable { qualified, scope, type := .named type, specifiers }))
      (s.variableDemands e) (fun _ => True) := by
  rw [variableDemands, h]
  cases atNamespaceScope with
  | false =>
      exact .pure trivial
  | true =>
      refine (s.asks_nameOf e.id).after fun name hname => ?_
      refine (s.asks_scopeOf e.id).after fun scope hscope => ?_
      refine (Asks.lift _).after fun id hid => ?_
      rw [Namer.required_eq_ok_iff] at hid
      rw [Element.targetIds_eq hid, List.flatMap_singleton]
      refine (s.asks_typeRef id e.id).bind fun type htype => ?_
      exact asks_register ⟨name, scope, id, type, _, hname, hscope, hid, htype, rfl⟩

theorem asks_variableAt
    (e : Element) :
    Asks s.namer (s.variableAt e) (s.variableDemands e) (fun _ => True) := by
  unfold variableAt
  split
  · next hartificial =>
      have hglobal : s.isGlobal e = false := by simp [isGlobal, hartificial]
      simp only [variableDemands, hglobal]
      exact .pure trivial
  · next hartificial =>
      split
      · next id hid =>
          refine (Asks.lift _).after fun c hc => ?_
          refine Asks.after (.pure rfl) fun atNamespaceScope hat => ?_
          refine s.asks_globalVariable e ?_
          rw [← hat]
          simp [isGlobal, hartificial, hid, find?_of_require hc]
      · next hnone =>
          refine Asks.after (.pure rfl) fun atNamespaceScope hat => ?_
          refine s.asks_globalVariable e ?_
          rw [← hat]
          simp [isGlobal, hartificial, hnone]

end Objects

/-- The demands of an element. -/
def elementDemands
    (e : Element) :
    List Demand :=
  match e.kind with
  | .fundamental => [s.fundamentalDemand e]
  | .space => s.spaceDemands e
  | .spaceAlias => [s.spaceAliasDemand e]
  | .enumeration => [s.enumerationDemand e]
  | .classRecord | .structRecord | .unionRecord => s.shellDemand e :: s.fillDemands e
  | .typedef => s.typedefDemands e
  | .pointer | .reference | .cvQualified | .array | .offset | .functionType | .methodType =>
      s.structuralDemands e
  | .function | .operatorFunction | .method | .operatorMethod | .constructor | .destructor
  | .converter => s.functionDemands e
  | .data => s.variableDemands e
  | .field | .file | .unimplemented => []

theorem asks_pass
    {wanted : ElementKind → Bool} {f : Element → Registration Unit} {ds : Element → List Demand}
    (hf : ∀ e, wanted e.kind = true → Asks s.namer (f e) (ds e) (fun _ => True)) :
    Asks s.namer ((s.select wanted).forM f) ((s.select wanted).flatMap ds) (fun _ => True) :=
  .forM fun e he => hf e (List.mem_filter.mp he).2

/-- A registration that succeeds has met the demands of all elements, and no others. -/
theorem asks_registerAll :
    Asks s.namer s.registerAll (s.elements.flatMap s.elementDemands) (fun _ => True) := by
  have hstructural : ∀ k ∈ structuralKinds,
      Asks s.namer ((s.select (· == k)).forM s.structural)
        ((s.select (· == k)).flatMap s.structuralDemands) (fun _ => True) := by
    intro k hk
    refine s.asks_pass fun e he => s.asks_structural e ?_
    rwa [eq_of_beq he]
  have hpasses : Asks s.namer s.registerAll _ (fun _ => True) :=
    (s.asks_pass fun e _ => s.asks_fundamental e).bind fun _ _ =>
    (s.asks_pass fun e _ => s.asks_space e).bind fun _ _ =>
    (s.asks_pass fun e _ => s.asks_spaceAlias e).bind fun _ _ =>
    (s.asks_pass fun e _ => s.asks_enumeration e).bind fun _ _ =>
    (s.asks_pass fun e _ => s.asks_shell e).bind fun _ _ =>
    (s.asks_pass fun e _ => s.asks_fill e).bind fun _ _ =>
    (s.asks_pass fun e _ => s.asks_typedef e).bind fun _ _ =>
    (Asks.forM hstructural).bind fun _ _ =>
    (s.asks_pass fun e _ => s.asks_function e).bind fun _ _ =>
    (s.asks_pass fun e _ => s.asks_function e).bind fun _ _ =>
    s.asks_pass fun e _ => s.asks_variableAt e
  refine hpasses.of_mem_iff fun d => ?_
  -- every kind is that of one pass, that of records of two
  simp only [structuralKinds, select, List.flatMap_cons, List.flatMap_nil, List.append_nil,
    List.mem_append, List.mem_flatMap, List.mem_filter, ← exists_or, and_assoc, ← and_or_left]
  refine exists_congr fun e => and_congr_right fun _ => ?_
  unfold elementDemands
  cases e.kind <;> simp [fillDemands, ElementKind.isRecord, ElementKind.isMemberFunction]

section Document

/-- The kinds of functions, free ones and members. -/
def functionKinds :
    List ElementKind :=
  [.function, .operatorFunction, .method, .operatorMethod, .constructor, .destructor, .converter]

/-- The id stands where a registration reads a type. -/
inductive Reads
    (id : String) :
    Prop
  | typedef
      {e : Element}
      (he : e ∈ s.elements)
      (hkind : e.kind = .typedef)
      (hid : id ∈ e.targetIds) :
      Reads id
  | structural
      {e : Element}
      (he : e ∈ s.elements)
      (hkind : e.kind ∈ structuralKinds)
      (hid : id ∈ e.structuralIds) :
      Reads id
  | function
      {e : Element}
      (he : e ∈ s.elements)
      (hkind : e.kind ∈ functionKinds)
      (hid : id ∈ e.prototypeIds) :
      Reads id
  | globalData
      {e : Element}
      (he : e ∈ s.elements)
      (hkind : e.kind = .data)
      (hglobal : s.isGlobal e = true)
      (hid : id ∈ e.targetIds) :
      Reads id
  | dataMember
      {record m : Element} {mid : String}
      (hrecord : record ∈ s.elements)
      (hkind : record.kind.isRecord = true)
      (hmid : mid ∈ record.memberIds)
      (hm : s.index.find? mid = some m)
      (hdata : m.kind = .field ∨ m.kind = .data)
      (hid : id ∈ m.targetIds) :
      Reads id
  | memberFunction
      {record m : Element} {mid : String}
      (hrecord : record ∈ s.elements)
      (hkind : record.kind.isRecord = true)
      (hmid : mid ∈ record.memberIds)
      (hm : s.index.find? mid = some m)
      (hfunction : m.kind.isMemberFunction = true)
      (hid : id ∈ m.prototypeIds) :
      Reads id
  | base
      {record : Element} {b : BaseSpec}
      (hrecord : record ∈ s.elements)
      (hkind : record.kind.isRecord = true)
      (hunion : record.kind ≠ .unionRecord)
      (hb : b ∈ record.bases)
      (hid : b.type = id) :
      Reads id

/-- The demands of a document: those of the references that are read, and those of the elements
themselves. -/
inductive Demanded :
    Demand → Prop
  | reference
      {id : String} {d : Demand}
      (hread : s.Reads id)
      (hd : d ∈ s.refDemands id) :
      Demanded d
  | fundamental
      {e : Element}
      (he : e ∈ s.elements)
      (hkind : e.kind = .fundamental) :
      Demanded (s.fundamentalDemand e)
  | space
      {e : Element}
      (he : e ∈ s.elements)
      (hkind : e.kind = .space)
      (hname : e.name ≠ "::") :
      Demanded (s.spaceDemand e)
  | spaceAlias
      {e : Element}
      (he : e ∈ s.elements)
      (hkind : e.kind = .spaceAlias) :
      Demanded (s.spaceAliasDemand e)
  | enumeration
      {e : Element}
      (he : e ∈ s.elements)
      (hkind : e.kind = .enumeration) :
      Demanded (s.enumerationDemand e)
  | shell
      {e : Element}
      (he : e ∈ s.elements)
      (hkind : e.kind.isRecord = true) :
      Demanded (s.shellDemand e)
  | memberType
      {e m : Element} {id : String}
      (he : e ∈ s.elements)
      (hkind : e.kind.isRecord = true)
      (hid : id ∈ e.memberIds)
      (hm : s.index.find? id = some m)
      (hfunction : m.kind.isMemberFunction = true) :
      Demanded (s.memberTypeDemand e m)
  | members
      {e : Element}
      (he : e ∈ s.elements)
      (hkind : e.kind.isRecord = true) :
      Demanded (s.membersDemand e)
  | bases
      {e : Element}
      (he : e ∈ s.elements)
      (hkind : e.kind.isRecord = true)
      (hunion : e.kind ≠ .unionRecord)
      (hbases : e.bases ≠ []) :
      Demanded (s.basesDemand e)
  | typedef
      {e : Element}
      (he : e ∈ s.elements)
      (hkind : e.kind = .typedef) :
      Demanded (s.typedefDemand e)
  | structural
      {e : Element}
      (he : e ∈ s.elements)
      (hkind : e.kind ∈ structuralKinds) :
      Demanded (s.structuralDemand e)
  | function
      {e : Element}
      (he : e ∈ s.elements)
      (hkind : e.kind ∈ functionKinds) :
      Demanded (s.functionDemand e)
  | globalData
      {e : Element}
      (he : e ∈ s.elements)
      (hkind : e.kind = .data)
      (hglobal : s.isGlobal e = true) :
      Demanded (s.variableDemand e)

section Kinds

variable {s} {e : Element}

theorem elementDemands_of_isRecord
    (h : e.kind.isRecord = true) :
    s.elementDemands e = s.shellDemand e :: s.fillDemands e := by
  unfold elementDemands
  cases hkind : e.kind <;> simp_all [ElementKind.isRecord]

theorem elementDemands_of_structural
    (h : e.kind ∈ structuralKinds) :
    s.elementDemands e = s.structuralDemands e := by
  unfold elementDemands
  cases hkind : e.kind <;> simp_all [structuralKinds]

theorem elementDemands_of_function
    (h : e.kind ∈ functionKinds) :
    s.elementDemands e = s.functionDemands e := by
  unfold elementDemands
  cases hkind : e.kind <;> simp_all [functionKinds]

theorem memberDemands_of_data
    {m : Element} {id : String}
    (hm : s.index.find? id = some m)
    (hdata : m.kind = .field ∨ m.kind = .data) :
    s.memberDemands e id = m.targetIds.flatMap s.refDemands := by
  simp only [memberDemands, hm]
  rw [if_pos hdata]

theorem memberDemands_of_function
    {m : Element} {id : String}
    (hm : s.index.find? id = some m)
    (hfunction : m.kind.isMemberFunction = true) :
    s.memberDemands e id =
      m.prototypeIds.flatMap s.refDemands ++ [s.memberTypeDemand e m] := by
  have hdata : ¬ (m.kind = .field ∨ m.kind = .data) := by
    rintro (hkind | hkind) <;> simp [hkind, ElementKind.isMemberFunction] at hfunction
  simp only [memberDemands, hm]
  rw [if_neg hdata, if_pos hfunction]

end Kinds

/-- A demand of a declaration is that of a type it reads, or its own. -/
theorem mem_declarationDemands_iff
    {ids : List String} {own d : Demand} :
    d ∈ ids.flatMap s.refDemands ++ [own] ↔ (∃ id ∈ ids, d ∈ s.refDemands id) ∨ d = own := by
  rw [List.mem_append, List.mem_flatMap, List.mem_singleton]

theorem demanded_of_mem_memberDemands
    {record : Element} {id : String} {d : Demand}
    (hrecord : record ∈ s.elements)
    (hkind : record.kind.isRecord = true)
    (hid : id ∈ record.memberIds)
    (hd : d ∈ s.memberDemands record id) :
    s.Demanded d := by
  unfold memberDemands at hd
  split at hd
  · cases hd
  · next m hm =>
      split at hd
      · next hdata =>
          obtain ⟨target, htarget, hd⟩ := List.mem_flatMap.mp hd
          exact .reference (.dataMember hrecord hkind hid hm hdata htarget) hd
      · split at hd
        · next hfunction =>
            rcases s.mem_declarationDemands_iff.mp hd with ⟨part, hpart, hd⟩ | rfl
            · exact .reference (.memberFunction hrecord hkind hid hm hfunction hpart) hd
            · exact .memberType hrecord hkind hid hm hfunction
        · cases hd

theorem demanded_of_mem_fillDemands
    {e : Element} {d : Demand}
    (he : e ∈ s.elements)
    (hkind : e.kind.isRecord = true)
    (hd : d ∈ s.fillDemands e) :
    s.Demanded d := by
  simp only [fillDemands, List.mem_append, List.mem_singleton] at hd
  rcases hd with hd | rfl | hd
  · obtain ⟨id, hid, hd⟩ := List.mem_flatMap.mp hd
    exact s.demanded_of_mem_memberDemands he hkind hid hd
  · exact .members he hkind
  · unfold fillBasesDemands at hd
    split at hd
    · next hbases =>
        simp only [Bool.and_eq_true, bne_iff_ne, ne_eq, Bool.not_eq_true',
          List.isEmpty_eq_false_iff] at hbases
        rcases List.mem_append.mp hd with hd | hd
        · obtain ⟨b, hb, hd⟩ := List.mem_flatMap.mp hd
          exact .reference (.base he hkind hbases.1 hb rfl) hd
        · rw [List.mem_singleton.mp hd]
          exact .bases he hkind hbases.1 hbases.2
    · cases hd

theorem demanded_of_mem_elementDemands
    {e : Element} {d : Demand}
    (he : e ∈ s.elements)
    (hd : d ∈ s.elementDemands e) :
    s.Demanded d := by
  by_cases hrecord : e.kind.isRecord = true
  · rw [elementDemands_of_isRecord hrecord] at hd
    rcases List.mem_cons.mp hd with rfl | hd
    · exact .shell he hrecord
    · exact s.demanded_of_mem_fillDemands he hrecord hd
  by_cases hstructural : e.kind ∈ structuralKinds
  · rw [elementDemands_of_structural hstructural] at hd
    rcases s.mem_declarationDemands_iff.mp hd with ⟨id, hid, hd⟩ | rfl
    · exact .reference (.structural he hstructural hid) hd
    · exact .structural he hstructural
  by_cases hfunction : e.kind ∈ functionKinds
  · rw [elementDemands_of_function hfunction] at hd
    rcases s.mem_declarationDemands_iff.mp hd with ⟨id, hid, hd⟩ | rfl
    · exact .reference (.function he hfunction hid) hd
    · exact .function he hfunction
  unfold elementDemands at hd
  cases hkind : e.kind with
  | fundamental =>
      simp only [hkind, List.mem_singleton] at hd
      rw [hd]
      exact .fundamental he hkind
  | space =>
      simp only [hkind, spaceDemands] at hd
      split at hd
      · cases hd
      · next hname =>
          rw [List.mem_singleton.mp hd]
          exact .space he hkind hname
  | spaceAlias =>
      simp only [hkind, List.mem_singleton] at hd
      rw [hd]
      exact .spaceAlias he hkind
  | enumeration =>
      simp only [hkind, List.mem_singleton] at hd
      rw [hd]
      exact .enumeration he hkind
  | typedef =>
      simp only [hkind, typedefDemands] at hd
      rcases s.mem_declarationDemands_iff.mp hd with ⟨id, hid, hd⟩ | rfl
      · exact .reference (.typedef he hkind hid) hd
      · exact .typedef he hkind
  | data =>
      simp only [hkind, variableDemands] at hd
      split at hd
      · next hglobal =>
          rcases s.mem_declarationDemands_iff.mp hd with ⟨id, hid, hd⟩ | rfl
          · exact .reference (.globalData he hkind hglobal hid) hd
          · exact .globalData he hkind hglobal
      · cases hd
  | field | file | unimplemented =>
      simp [hkind] at hd
  | _ =>
      simp [hkind, structuralKinds, functionKinds, ElementKind.isRecord] at hrecord hstructural hfunction

theorem exists_mem_elementDemands_of_reads
    {id : String} {d : Demand}
    (h : s.Reads id)
    (hd : d ∈ s.refDemands id) :
    ∃ e ∈ s.elements, d ∈ s.elementDemands e := by
  have hfill : ∀ {e : Element}, e.kind.isRecord = true → d ∈ s.fillDemands e →
      d ∈ s.elementDemands e := by
    intro e hkind hmem
    rw [elementDemands_of_isRecord hkind]
    exact List.mem_cons_of_mem _ hmem
  cases h with
  | @typedef e he hkind hid =>
      refine ⟨e, he, ?_⟩
      simp only [elementDemands, hkind, typedefDemands]
      exact s.mem_declarationDemands_iff.mpr (.inl ⟨id, hid, hd⟩)
  | @structural e he hkind hid =>
      refine ⟨e, he, ?_⟩
      rw [elementDemands_of_structural hkind]
      exact s.mem_declarationDemands_iff.mpr (.inl ⟨id, hid, hd⟩)
  | @function e he hkind hid =>
      refine ⟨e, he, ?_⟩
      rw [elementDemands_of_function hkind]
      exact s.mem_declarationDemands_iff.mpr (.inl ⟨id, hid, hd⟩)
  | @globalData e he hkind hglobal hid =>
      refine ⟨e, he, ?_⟩
      simp only [elementDemands, hkind, variableDemands, hglobal]
      exact s.mem_declarationDemands_iff.mpr (.inl ⟨id, hid, hd⟩)
  | @dataMember record m mid hrecord hkind hmid hm hdata hid =>
      refine ⟨record, hrecord, hfill hkind ?_⟩
      refine List.mem_append_left _ (List.mem_flatMap.mpr ⟨mid, hmid, ?_⟩)
      rw [memberDemands_of_data hm hdata]
      exact List.mem_flatMap.mpr ⟨id, hid, hd⟩
  | @memberFunction record m mid hrecord hkind hmid hm hfunction hid =>
      refine ⟨record, hrecord, hfill hkind ?_⟩
      refine List.mem_append_left _ (List.mem_flatMap.mpr ⟨mid, hmid, ?_⟩)
      rw [memberDemands_of_function hm hfunction]
      exact s.mem_declarationDemands_iff.mpr (.inl ⟨id, hid, hd⟩)
  | @base record b hrecord hkind hunion hb hid =>
      refine ⟨record, hrecord, hfill hkind ?_⟩
      refine List.mem_append_right _ (List.mem_append_right _ ?_)
      have hbases : record.bases ≠ [] := List.ne_nil_of_mem hb
      rw [fillBasesDemands, if_pos (by simpa using ⟨hunion, hbases⟩)]
      exact List.mem_append_left _ (List.mem_flatMap.mpr ⟨b, hb, hid ▸ hd⟩)

theorem exists_mem_elementDemands
    {d : Demand}
    (h : s.Demanded d) :
    ∃ e ∈ s.elements, d ∈ s.elementDemands e := by
  cases h with
  | reference hread hd =>
      exact s.exists_mem_elementDemands_of_reads hread hd
  | @fundamental e he hkind =>
      exact ⟨e, he, by simp [elementDemands, hkind]⟩
  | @space e he hkind hname =>
      exact ⟨e, he, by simp [elementDemands, hkind, spaceDemands, hname]⟩
  | @spaceAlias e he hkind =>
      exact ⟨e, he, by simp [elementDemands, hkind]⟩
  | @enumeration e he hkind =>
      exact ⟨e, he, by simp [elementDemands, hkind]⟩
  | @shell e he hkind =>
      exact ⟨e, he, by simp [elementDemands_of_isRecord hkind]⟩
  | @memberType e m id he hkind hid hm hfunction =>
      refine ⟨e, he, ?_⟩
      rw [elementDemands_of_isRecord hkind]
      refine List.mem_cons_of_mem _ (List.mem_append_left _ (List.mem_flatMap.mpr ⟨id, hid, ?_⟩))
      simp [memberDemands_of_function hm hfunction]
  | @members e he hkind =>
      exact ⟨e, he, by simp [elementDemands_of_isRecord hkind, fillDemands]⟩
  | @bases e he hkind hunion hbases =>
      refine ⟨e, he, ?_⟩
      rw [elementDemands_of_isRecord hkind, fillDemands, fillBasesDemands,
        if_pos (by simpa using ⟨hunion, hbases⟩)]
      simp
  | @typedef e he hkind =>
      exact ⟨e, he, by simp [elementDemands, hkind, typedefDemands]⟩
  | @structural e he hkind =>
      exact ⟨e, he, by simp [elementDemands_of_structural hkind, structuralDemands]⟩
  | @function e he hkind =>
      exact ⟨e, he, by simp [elementDemands_of_function hkind, functionDemands]⟩
  | @globalData e he hkind hglobal =>
      exact ⟨e, he, by simp [elementDemands, hkind, variableDemands, hglobal]⟩

/-- A registration that succeeds consists of requests that meet all demands of the document, and no
others. -/
theorem exists_requests
    {c : Catalog} {a : Unit} {state : RegistrationState}
    (h : s.registerAll.run ⟨c, ∅⟩ = .ok (a, state)) :
    ∃ rs, AllMet rs c state.catalog ∧ (∀ d, s.Demanded d → ∃ r ∈ rs, d r) ∧
      ∀ r ∈ rs, ∃ d, s.Demanded d ∧ d r := by
  obtain ⟨-, -, rs, hcovers, hmet⟩ :=
    s.asks_registerAll ⟨c, ∅⟩ a state Namer.soundMemo_empty h
  refine ⟨rs, hmet, ?_, ?_⟩
  · intro d hd
    exact hcovers.met d (List.mem_flatMap.mpr (s.exists_mem_elementDemands hd))
  · intro r hr
    obtain ⟨d, hd, hmeets⟩ := hcovers.wanted r hr
    obtain ⟨e, he, hd⟩ := List.mem_flatMap.mp hd
    exact ⟨d, s.demanded_of_mem_elementDemands he hd, hmeets⟩

end Document

end Source
end TypeCatalog
