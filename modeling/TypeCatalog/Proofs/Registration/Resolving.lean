import Mathlib.Data.Set.Finite.Basic
import TypeCatalog.Proofs.Catalog.Keyed
import TypeCatalog.Proofs.Registration.Declared

/-!
# What a registration adds has no dangling names

**Input.** A catalog that actions have built, and a document whose registration succeeds. The
document declares `int` and `void`, its ids for types denote types, chains of type aliases end, and
declarations are in namespaces, records or functions.

**Rule.** A reference is written as the spelling of an id. The type of that id is registered in
another pass, or is in the catalog already, or stands for a type alias that has its own target's
name and is left out: then the target of the alias holds the name. A scope is the spelling of a
context that is registered under it.

**Results.**
* `holdsType_of_isType`: the spelling of a type of the document is the key of a type.
* `DeclaredIn.resolves`: the scope of a declaration is empty or a key.
* `resolves_registerDocument`: every reference and every scope in the new slots resolves.
-/

namespace TypeCatalog

/-- What an index finds is canonical. -/
theorem Document.mem_canonical_of_find?
    {d : Document} {id : String} {e : Element}
    (h : d.index.find? id = some e) :
    e ∈ d.canonical d.index ∧ e.id = id := by
  rw [Index.find?, Option.map_eq_some_iff] at h
  obtain ⟨p, hp, rfl⟩ := h
  obtain ⟨hmem, rfl⟩ := Index.mem_zipIdx_of_getElem? hp
  refine ⟨List.mem_map.mpr ⟨(p.2, p.1), List.mem_filter.mpr ⟨hmem, ?_⟩, rfl⟩, rfl⟩
  simp [Index.isCanonical, hp]

/-- A canonical element is the one that its id denotes. -/
theorem Document.find?_of_mem_canonical
    {d : Document} {e : Element}
    (h : e ∈ d.canonical d.index) :
    d.index.find? e.id = some e := by
  obtain ⟨⟨e, i⟩, hmem, rfl⟩ := List.mem_map.mp h
  obtain ⟨hmem, hcanonical⟩ := List.mem_filter.mp hmem
  rw [Index.isCanonical, Option.any_eq_true] at hcanonical
  obtain ⟨⟨j, e'⟩, hfound, hj⟩ := hcanonical
  obtain rfl : j = i := by simpa using hj
  -- both elements are the one at the position
  have hsame := (Index.mem_zipIdx_of_getElem? hfound).1
  rw [List.mem_zipIdx_iff_getElem?] at hmem hsame
  obtain rfl : e = e' := Option.some.inj (hmem.symm.trans hsame)
  rw [Index.find?, hfound, Option.map_some]

namespace Source

open Registration Request Namer

/-- A source whose parts belong together, as those of a document do. -/
structure Indexed
    (s : Source) :
    Prop where
  namer : s.namer.index = s.index
  elements : ∀ {id : String} {e : Element}, s.index.find? id = some e → e ∈ s.elements ∧ e.id = id

theorem indexed_ofDocument
    (d : Document) (n : Template.Normalizer) (o : RegistrationOptions) :
    (ofDocument d n o).Indexed :=
  ⟨rfl, Document.mem_canonical_of_find?⟩

variable (s : Source)

/-- The kinds of elements that are types. -/
def typeKinds :
    List ElementKind :=
  [.fundamental, .enumeration, .classRecord, .structRecord, .unionRecord, .typedef] ++
    structuralKinds

/-- Whether an id is that of a type. -/
def isType
    (id : String) :
    Bool :=
  (s.index.find? id).any fun e => typeKinds.contains e.kind

/-- Whether an id denotes a type: it is that of a type, or the undefined qualified form of such an
id. -/
def denotesType
    (id : String) :
    Bool :=
  match s.index.find? id with
  | some _ => s.isType id
  | none => (Spelling.qualifiedId? id).any fun p => s.isType p.1

/-- Whether an id is that of a namespace, a record or a function. -/
def isScope
    (id : String) :
    Bool :=
  (s.index.find? id).any fun e =>
    e.kind == .space || e.kind.isRecord || functionKinds.contains e.kind

/-- From a type alias to its target. -/
def AliasStep
    (id target : String) :
    Prop :=
  ∃ e, s.index.find? id = some e ∧ e.kind = .typedef ∧ e.attr? "type" = some target

/-- A document that declares `int` and `void`, in which chains of type aliases end, every id in a
type position denotes a type, and every context is a namespace, a record or a function. -/
structure WellReferenced :
    Prop where
  int : ∃ e ∈ s.elements, e.kind = .fundamental ∧ s.Names e.id "int"
  void : ∃ e ∈ s.elements, e.kind = .fundamental ∧ s.Names e.id "void"
  acyclic : ∀ id, ¬ Relation.TransGen s.AliasStep id id
  targets : ∀ e ∈ s.elements, ∀ id ∈ e.targetIds, s.denotesType id = true
  prototypes : ∀ e ∈ s.elements, e.kind ∈ functionKinds ++ [.functionType, .methodType] →
    ∀ id ∈ e.prototypeIds, s.denotesType id = true
  bases : ∀ e ∈ s.elements, ∀ b ∈ e.bases, s.denotesType b.type = true
  contexts : ∀ e ∈ s.elements, ∀ id ∈ e.context?, s.isScope id = true

/-- The class of a pointer to a member denotes a type, if its id is undefined. -/
def ClassesDenoteTypes :
    Prop :=
  ∀ e ∈ s.elements, e.kind = .offset → ∀ id ∈ e.attr? "basetype",
    s.index.find? id = none → s.denotesType id = true

section Scopes

variable {s}

/-- The scope of a declaration is the spelling of its nearest context, if it has one. -/
theorem DeclaredIn.exists_context
    {id scope : String}
    (hs : s.Indexed)
    (h : s.DeclaredIn id scope) :
    ∃ e ∈ s.elements, ∃ context, NearestContext s.index e.context? context ∧
      (context = none → scope = "") ∧ ∀ cid, context = some cid → s.Names cid scope := by
  unfold DeclaredIn scopeName at h
  cases he : s.namer.index.find? id with
  | none =>
      rw [he] at h
      cases h
  | some e =>
      simp only [he, Namer.scopeOf] at h
      rw [hs.namer] at he
      refine ⟨e, (hs.elements he).1, ?_⟩
      cases hfound : namedContext? s.namer.index e.id (s.namer.index.size + 1) e.context? with
      | error err =>
          rw [hfound] at h
          cases h
      | ok found =>
          rw [hfound] at h
          rw [namedContext?_eq_ok_iff, hs.namer] at hfound
          refine ⟨found, hfound, ?_, ?_⟩
          · rintro rfl
            cases h
            rfl
          · rintro cid rfl
            exact h

/-- A nearest context is the context of some element. -/
theorem exists_context_of_nearest
    {context : Option String} {cid : String}
    (hs : s.Indexed)
    (h : NearestContext s.index context (some cid))
    (hcontext : ∃ e ∈ s.elements, e.context? = context) :
    ∃ e ∈ s.elements, e.context? = some cid := by
  generalize hfound : some cid = found at h
  induction h with
  | outside =>
      cases hfound
  | stop he hnamed =>
      cases hfound
      exact hcontext
  | climb he hkind hunnamed hrest ih =>
      exact ih ⟨_, (hs.elements he).1, rfl⟩ hfound

/-- The scope of a declaration is empty or declared. -/
theorem DeclaredIn.resolves
    {id scope : String}
    (hs : s.Indexed)
    (hwell : s.WellReferenced)
    (h : s.DeclaredIn id scope) :
    scope = "" ∨ s.DeclaredKey scope := by
  obtain ⟨e, he, context, hnearest, hnone, hsome⟩ := h.exists_context hs
  cases context with
  | none =>
      exact .inl (hnone rfl)
  | some cid =>
      have hname := hsome cid rfl
      obtain ⟨inner, hinner, hcontext⟩ := exists_context_of_nearest hs hnearest ⟨e, he, rfl⟩
      have hscope := hwell.contexts inner hinner cid hcontext
      rw [isScope, Option.any_eq_true] at hscope
      obtain ⟨outer, houter, hkind⟩ := hscope
      obtain ⟨hmem, rfl⟩ := hs.elements houter
      simp only [Bool.or_eq_true, beq_iff_eq, List.contains_iff_mem] at hkind
      rcases hkind with (hkind | hkind) | hkind
      · by_cases hglobal : outer.name = "::"
        · have hempty : Spells s.namer outer.id "" :=
            .globalSpace (hs.namer ▸ houter) hkind hglobal
          exact .inl (hname.unique (names_iff.mpr hempty))
        · exact .inr (.named hmem (.space hkind hglobal) hname)
      · exact .inr (.named hmem (.record hkind) hname)
      · exact .inr (.named hmem (.function hkind) hname)

end Scopes

section Types

variable {s} {c : Catalog}

/-- Chains of type aliases that do not return end. -/
theorem wellFounded_aliasStep
    (h : ∀ id, ¬ Relation.TransGen s.AliasStep id id) :
    WellFounded (flip s.AliasStep) := by
  -- only the ids of the index have steps, and these are finitely many
  have hdefined : WellFounded fun (a b : {id // id ∈ s.index.keys}) => s.AliasStep b a := by
    have htrans : WellFounded
        (Relation.TransGen fun (a b : {id // id ∈ s.index.keys}) => s.AliasStep b a) := by
      have hirrefl : Std.Irrefl
          (Relation.TransGen fun (a b : {id // id ∈ s.index.keys}) => s.AliasStep b a) := by
        constructor
        intro a ha
        exact h a.1 ((Relation.transGen_swap.mp ha).lift Subtype.val fun _ _ hstep => hstep)
      have hfinite : Finite {id // id ∈ s.index.keys} :=
        (List.finite_toSet s.index.keys).to_subtype
      exact Finite.wellFounded_of_trans_of_irrefl _
    exact Subrelation.wf (fun hstep => .single hstep) htrans
  have hkeys : ∀ {id target : String}, s.AliasStep id target → id ∈ s.index.keys := by
    rintro id target ⟨e, he, -⟩
    rw [Std.TreeMap.mem_keys, Std.TreeMap.mem_iff_isSome_getElem?, ← Option.isSome_map,
      ← Index.find?, he]
    rfl
  have hacc : ∀ a : {id // id ∈ s.index.keys}, Acc (flip s.AliasStep) a.1 := by
    intro a
    induction a using hdefined.induction with
    | _ a ih =>
        refine ⟨_, fun target hstep => ?_⟩
        refine ⟨_, fun next hnext => ?_⟩
        exact (ih ⟨target, hkeys hnext⟩ hstep).inv hnext
  constructor
  intro id
  refine ⟨_, fun target hstep => ?_⟩
  exact (hacc ⟨id, hkeys hstep⟩).inv hstep

/-- The catalog holds the types that the demands of the document are for. -/
def Supplied
    (s : Source) (c : Catalog) :
    Prop :=
  ∀ d, s.Demanded d → ∃ r, d r ∧ ∀ key, r.typeName? = some key → c.HoldsType key

theorem Supplied.holdsType_of_fundamental
    {name : String}
    (h : s.Supplied c)
    (hname : ∃ e ∈ s.elements, e.kind = .fundamental ∧ s.Names e.id name) :
    c.HoldsType name := by
  obtain ⟨e, he, hkind, hname⟩ := hname
  obtain ⟨r, ⟨name', kind, bits, hname', -, -, rfl⟩, hheld⟩ := h _ (.fundamental he hkind)
  rw [hname.unique hname']
  exact hheld name' rfl

/-- The spelling of an undefined qualified id that is read is the key of a type. -/
theorem Supplied.holdsType_of_undefined
    {id base name : String} {q : Qualifiers}
    (h : s.Supplied c)
    (hread : s.Reads id)
    (hundefined : s.index.find? id = none)
    (hbase : Spelling.qualifiedId? id = some (base, q))
    (hname : s.Names id name) :
    c.HoldsType name := by
  obtain ⟨r, ⟨name', underlying, size, kind, hname', -, -, -, rfl⟩, hheld⟩ :=
    h _ (.reference hread (mem_refDemands_iff.mpr ⟨base, q, hundefined, hbase, rfl⟩))
  rw [hname.unique hname']
  exact hheld name' rfl

theorem isType_or_qualified_of_denotesType
    {id : String}
    (h : s.denotesType id = true) :
    s.isType id = true ∨ s.index.find? id = none ∧
      ∃ base q, Spelling.qualifiedId? id = some (base, q) ∧ s.isType base = true := by
  unfold denotesType at h
  split at h
  · exact .inl h
  · next hnone =>
      rw [Option.any_eq_true] at h
      obtain ⟨p, hp, hbase⟩ := h
      exact .inr ⟨hnone, p.1, p.2, hp, hbase⟩

theorem isType_cases
    {k : ElementKind}
    (h : k ∈ typeKinds) :
    k = .fundamental ∨ k = .enumeration ∨ k.isRecord = true ∨ k = .typedef ∨
      k ∈ structuralKinds := by
  cases k <;> simp_all [typeKinds, structuralKinds, ElementKind.isRecord]

/-- The spelling of a type of the document is the key of a type. -/
theorem Supplied.holdsType_of_isType
    {id name : String}
    (h : s.Supplied c)
    (hs : s.Indexed)
    (hwell : s.WellReferenced)
    (hid : s.isType id = true)
    (hname : s.Names id name) :
    c.HoldsType name := by
  induction id using (wellFounded_aliasStep hwell.acyclic).induction with
  | _ id ih =>
      rw [isType, Option.any_eq_true] at hid
      obtain ⟨e, he, hkind⟩ := hid
      obtain ⟨hmem, rfl⟩ := hs.elements he
      rcases isType_cases (List.contains_iff_mem.mp hkind) with hk | hk | hk | hk | hk
      · exact h.holdsType_of_fundamental ⟨e, hmem, hk, hname⟩
      · obtain ⟨r, ⟨name', scope, bits, members, hname', -, -, -, rfl⟩, hheld⟩ :=
          h _ (.enumeration hmem hk)
        rw [hname.unique hname']
        exact hheld name' rfl
      · obtain ⟨r, ⟨name', scope, bits, hname', -, -, rfl⟩, hheld⟩ := h _ (.shell hmem hk)
        rw [hname.unique hname']
        exact hheld name' (congrArg some (qualified_shellOf e name' scope _))
      · obtain ⟨r, ⟨name', target, spelling, hname', htarget, hspelling, hcases⟩, hheld⟩ :=
          h _ (.typedef hmem hk)
        rw [hname.unique hname']
        rcases hcases with ⟨rfl, rfl⟩ | ⟨-, scope, size, -, -, rfl⟩
        · -- the alias is left out, so its target has to hold the name
          have htargets : e.targetIds = [target] := Element.targetIds_eq htarget
          have hdenotes := hwell.targets e hmem target (by simp [htargets])
          rcases isType_or_qualified_of_denotesType hdenotes with
            htype | ⟨hundefined, base, q, hbase, -⟩
          · rw [hname.unique hname'] at ih
            exact ih target ⟨e, he, hk, htarget⟩ htype hspelling
          · exact h.holdsType_of_undefined (.typedef hmem hk (by simp [htargets])) hundefined hbase
              hspelling
        · exact hheld name' rfl
      · obtain ⟨r, ⟨t, ht, rfl⟩, hheld⟩ := h _ (.structural hmem hk)
        rw [hname.unique ht.name]
        exact hheld _ rfl

/-- The spelling of an id that is read and denotes a type is the key of a type. -/
theorem Supplied.holdsType_of_denotesType
    {id name : String}
    (h : s.Supplied c)
    (hs : s.Indexed)
    (hwell : s.WellReferenced)
    (hread : s.Reads id)
    (hdenotes : s.denotesType id = true)
    (hname : s.Names id name) :
    c.HoldsType name := by
  rcases isType_or_qualified_of_denotesType hdenotes with htype | ⟨hundefined, base, q, hbase, -⟩
  · exact h.holdsType_of_isType hs hwell htype hname
  · exact h.holdsType_of_undefined hread hundefined hbase hname

end Types

end Source

namespace Catalog

/-- The references in a slot are to types, and its scope is that of some slot or empty. -/
def Resolves
    (c : Catalog) (slot : Slot) :
    Prop :=
  (∀ r ∈ slot.entity.refs, c.HoldsType r.name) ∧
    (slot.entity.scope = "" ∨ slot.entity.scope ∈ c.keys)

section Keeping

variable {c : Catalog}

/-- A step that registers no function changes no slot. -/
theorem keeps_register
    {p : Slot → Prop} {e : Entity}
    (hfunction : ∀ f, e ≠ .ofFunction f)
    (h : ∀ entry ∈ (Step.register e).entries, p ⟨entry.1, entry.2⟩) :
    (Step.register e).Keeps p := by
  refine ⟨h, fun key old new hretouch => ?_⟩
  cases hretouch with
  | overload f o =>
      exact absurd rfl (hfunction f)

theorem keeps_registerType
    {t : DataType}
    (hshape : ∀ members, t.shape ≠ .enumeration members)
    (hrefs : ∀ r ∈ t.shape.refs, c.HoldsType r.name)
    (hscope : t.header.scope = "" ∨ t.header.scope ∈ c.keys) :
    (Step.register (.ofType t)).Keeps c.Resolves := by
  refine keeps_register (by simp) fun entry hentry => ?_
  rw [Step.entries_registerType hshape, List.mem_singleton] at hentry
  rw [hentry]
  exact ⟨hrefs, hscope⟩

theorem keeps_registerNamespace
    {n : Namespace}
    (hscope : n.scope = "" ∨ n.scope ∈ c.keys) :
    (Step.register (.ofNamespace n)).Keeps c.Resolves := by
  refine keeps_register (by simp) fun entry hentry => ?_
  rw [List.mem_singleton.mp hentry]
  exact ⟨by simp [Entity.refs], hscope⟩

theorem keeps_registerEnumeration
    {name scope : String} {size : UInt64} {members : List Member}
    (hrefs : ∀ m ∈ members, c.HoldsType m.type.name)
    (hscope : scope = "" ∨ scope ∈ c.keys) :
    (Step.register (.ofType (.enumeration name scope size members))).Keeps c.Resolves := by
  refine keeps_register (by simp) fun entry hentry => ?_
  have hentries : (Step.register (.ofType (.enumeration name scope size members))).entries =
      (name, .ofType (.enumeration name scope size members)) ::
        (members.map (·.inScope scope)).map fun m => (m.qualified, .ofMember m) := rfl
  rw [hentries, List.mem_cons, List.map_map, List.mem_map] at hentry
  rcases hentry with rfl | ⟨m, hm, rfl⟩
  · refine ⟨fun r hr => ?_, hscope⟩
    have hr : r ∈ (members.map (·.inScope scope)).map (·.type) := hr
    rw [List.map_map, List.mem_map] at hr
    obtain ⟨m, hm, rfl⟩ := hr
    exact hrefs m hm
  · refine ⟨fun r hr => ?_, hscope⟩
    rw [List.mem_singleton.mp hr]
    exact hrefs m hm

theorem keeps_registerFunction
    {f : Function}
    (hrefs : ∀ r ∈ f.proto.refs, c.HoldsType r.name)
    (hscope : f.scope = "" ∨ f.scope ∈ c.keys) :
    (Step.register (.ofFunction f)).Keeps c.Resolves := by
  constructor
  · intro entry hentry
    rw [List.mem_singleton.mp hentry]
    exact ⟨by simpa [Entity.refs, OverloadSet.single] using hrefs, hscope⟩
  · intro key old new hretouch hold
    cases hretouch with
    | overload f o =>
        refine ⟨fun r hr => ?_, hold.2⟩
        simp only [Entity.refs, OverloadSet.push, List.flatMap_append, List.flatMap_singleton,
          List.mem_append] at hr
        rcases hr with hr | hr
        · exact hold.1 r hr
        · exact hrefs r hr

theorem mem_refs_withMembers
    {t : DataType} {members : List Member} {r : TypeRef}
    (hr : r ∈ (withMembers t members).shape.refs) :
    (∃ m ∈ members, r = m.type) ∨ r ∈ t.shape.refs := by
  unfold withMembers at hr
  split at hr
  · next key old bases hshape =>
      rw [hshape]
      rcases List.mem_append.mp hr with hr | hr
      · obtain ⟨m, hm, rfl⟩ := List.mem_map.mp hr
        exact .inl ⟨m, hm, rfl⟩
      · exact .inr (List.mem_append_right _ hr)
  · obtain ⟨m, hm, rfl⟩ := List.mem_map.mp hr
    exact .inl ⟨m, hm, rfl⟩
  · exact .inr hr

theorem mem_refs_withBases
    {t : DataType} {bases : List Base} {r : TypeRef}
    (hr : r ∈ (withBases t bases).shape.refs) :
    (∃ b ∈ bases, r = b.type) ∨ r ∈ t.shape.refs := by
  unfold withBases at hr
  split at hr
  · next key members old hshape =>
      rw [hshape]
      rcases List.mem_append.mp hr with hr | hr
      · exact .inr (List.mem_append_left _ hr)
      · obtain ⟨b, hb, rfl⟩ := List.mem_map.mp hr
        exact .inl ⟨b, hb, rfl⟩
  · exact .inr hr

theorem keeps_setMembersIn
    {record scope : String} {members : List Member}
    (hrefs : ∀ m ∈ members, c.HoldsType m.type.name)
    (hscope : scope = "" ∨ scope ∈ c.keys) :
    (Step.setMembersIn record scope members).Keeps c.Resolves := by
  constructor
  · intro entry hentry
    obtain ⟨m, hm, rfl⟩ := List.mem_map.mp hentry
    obtain ⟨own, hown, rfl⟩ := List.mem_map.mp (List.mem_filter.mp hm).1
    refine ⟨fun r hr => ?_, hscope⟩
    rw [List.mem_singleton.mp hr]
    exact hrefs own hown
  · intro key old new hretouch hold
    cases hretouch with
    | members hrecord =>
        refine ⟨fun r hr => ?_, by simpa [Entity.scope] using hold.2⟩
        rcases mem_refs_withMembers hr with ⟨m, hm, rfl⟩ | hr
        · obtain ⟨own, hown, rfl⟩ := List.mem_map.mp hm
          exact hrefs own hown
        · exact hold.1 r hr

theorem keeps_setBases
    {record : String} {bases : List Base}
    (hrefs : ∀ b ∈ bases, c.HoldsType b.type.name) :
    (Step.setBases record bases).Keeps c.Resolves := by
  constructor
  · intro entry hentry
    cases hentry
  · intro key old new hretouch hold
    cases hretouch with
    | bases hrecord =>
        refine ⟨fun r hr => ?_, by simpa [Entity.scope] using hold.2⟩
        rcases mem_refs_withBases hr with ⟨b, hb, rfl⟩ | hr
        · exact hrefs b hb
        · exact hold.1 r hr

end Keeping

end Catalog

namespace Source

open Registration Request Catalog

/-- A catalog that holds what a well-referenced document demands. -/
structure Settled
    (s : Source) (c : Catalog) :
    Prop where
  indexed : s.Indexed
  well : s.WellReferenced
  classes : s.ClassesDenoteTypes
  supplied : s.Supplied c
  keys : ∀ key, s.DeclaredKey key → key ∈ c.keys

namespace Settled

variable {s : Source} {c : Catalog}

theorem scope
    {id scope : String}
    (h : s.Settled c)
    (hscope : s.DeclaredIn id scope) :
    scope = "" ∨ scope ∈ c.keys := by
  rcases hscope.resolves h.indexed h.well with hempty | hkey
  · exact .inl hempty
  · exact .inr (h.keys scope hkey)

/-- The spelling of a target that is read is the key of a type. -/
theorem holdsType_of_target
    {e : Element} {id name : String}
    (h : s.Settled c)
    (he : e ∈ s.elements)
    (hid : e.attr? "type" = some id)
    (hread : id ∈ e.targetIds → s.Reads id)
    (hname : s.Names id name) :
    c.HoldsType name := by
  have hmem : id ∈ e.targetIds := by simp [Element.targetIds_eq hid]
  exact h.supplied.holdsType_of_denotesType h.indexed h.well (hread hmem)
    (h.well.targets e he id hmem) hname

theorem holdsType_of_standsFor
    {ids : List String} {r : TypeRef}
    (h : s.Settled c)
    (hids : ∀ id ∈ ids, s.Reads id ∧ s.denotesType id = true)
    (hr : s.StandsFor ids r) :
    c.HoldsType r.name := by
  obtain ⟨name, rfl, ⟨id, hid, hname⟩ | rfl⟩ := hr
  · obtain ⟨hread, hdenotes⟩ := hids id hid
    exact h.supplied.holdsType_of_denotesType h.indexed h.well hread hdenotes hname
  · exact h.supplied.holdsType_of_fundamental h.well.void

theorem denotesType_of_mem_partIds
    {e : Element} {id : String}
    (h : s.Settled c)
    (he : e ∈ s.elements)
    (hid : id ∈ e.partIds) :
    s.denotesType id = true := by
  unfold Element.partIds at hid
  split at hid
  · next hkind =>
      exact h.well.prototypes e he (by simp [hkind]) id hid
  · next hkind =>
      exact h.well.prototypes e he (by simp [hkind]) id hid
  · exact h.well.targets e he id hid

theorem denotesType_of_isMemberFunction
    {e : Element} {id : String}
    (h : s.Settled c)
    (he : e ∈ s.elements)
    (hkind : e.kind.isMemberFunction = true)
    (hid : id ∈ e.prototypeIds) :
    s.denotesType id = true := by
  refine h.well.prototypes e he ?_ id hid
  cases hk : e.kind <;> simp_all [functionKinds, ElementKind.isMemberFunction]

/-- An undefined id that is read denotes a type. -/
theorem denotesType_of_reads
    {id : String}
    (h : s.Settled c)
    (hread : s.Reads id)
    (hundefined : s.index.find? id = none) :
    s.denotesType id = true := by
  cases hread with
  | typedef he hkind hid =>
      exact h.well.targets _ he id hid
  | structural he hkind hid =>
      rcases (Element.mem_structuralIds_iff _).mp hid with hpart | ⟨hoffset, howner⟩
      · exact h.denotesType_of_mem_partIds he hpart
      · exact h.classes _ he hoffset id howner hundefined
  | function he hkind hid =>
      exact h.well.prototypes _ he (List.mem_append_left _ hkind) id hid
  | globalData he hkind hglobal hid =>
      exact h.well.targets _ he id hid
  | dataMember hrecord hkind hmid hm hdata hid =>
      exact h.well.targets _ (h.indexed.elements hm).1 id hid
  | memberFunction hrecord hkind hmid hm hfunction hid =>
      exact h.denotesType_of_isMemberFunction (h.indexed.elements hm).1 hfunction hid
  | base hrecord hkind hunion hb hid =>
      exact hid ▸ h.well.bases _ hrecord _ hb

theorem holdsType_base
    {id base underlying : String} {q : Qualifiers}
    (h : s.Settled c)
    (hread : s.Reads id)
    (hundefined : s.index.find? id = none)
    (hbase : Spelling.qualifiedId? id = some (base, q))
    (hunderlying : s.Names base underlying) :
    c.HoldsType underlying := by
  have hdenotes := h.denotesType_of_reads hread hundefined
  simp only [denotesType, hundefined, hbase, Option.any_some] at hdenotes
  exact h.supplied.holdsType_of_isType h.indexed h.well hdenotes hunderlying

/-- The scope of the named data members of a record is empty or a key. -/
theorem exposedScope
    {e : Element} {scope : String}
    (h : s.Settled c)
    (he : e ∈ s.elements)
    (hkind : e.kind.isRecord = true)
    (hscope : s.ExposedIn e scope) :
    scope = "" ∨ scope ∈ c.keys := by
  unfold ExposedIn at hscope
  split at hscope
  · exact h.scope hscope
  · exact .inr (h.keys scope (.named he (.record hkind) hscope))

/-- The types of the members of a record are held. -/
theorem holdsType_of_membersOf
    {record : Element} {name : String} {members : List Member} {m : Member}
    (h : s.Settled c)
    (hrecord : record ∈ s.elements)
    (hkind : record.kind.isRecord = true)
    (hname : s.Names record.id name)
    (hmembers : s.MembersOf record name members)
    (hm : m ∈ members) :
    c.HoldsType m.type.name := by
  obtain ⟨found, hfound, rfl⟩ := hmembers
  obtain ⟨_, hm, rfl⟩ := List.mem_filterMap.mp hm
  obtain ⟨mid, hmid, hmember⟩ := exists_of_forall₂_right hfound hm
  cases hmember with
  | data he hdata hdeclared =>
      obtain ⟨target, type, kind, access, offset, htarget, htype, -, rfl⟩ := hdeclared
      exact h.holdsType_of_target (h.indexed.elements he).1 htarget
        (.dataMember hrecord hkind hmid he hdata) htype
  | function he hfunction hdeclared =>
      obtain ⟨qualified, proto, access, -, hproto, rfl⟩ := hdeclared
      obtain ⟨r, ⟨name', proto', hname', hproto', rfl⟩, hheld⟩ :=
        h.supplied _ (.memberType hrecord hkind hmid he hfunction)
      have hspelling := memberFunctionSpelling_of_prototypeOf name hproto
      have hspelling' := memberFunctionSpelling_of_prototypeOf name' hproto'
      rw [← hname.unique hname'] at hspelling' hheld
      have hsame := hspelling.unique hspelling'
      exact hsame ▸ hheld _ rfl

/-- What a demand of the document asks for resolves. -/
theorem keeps
    {d : Demand} {r : Request}
    (h : s.Settled c)
    (hd : s.Demanded d)
    (hr : d r) :
    r.Keeps c.Resolves := by
  cases hd with
  | reference hread hd =>
      obtain ⟨base, q, hundefined, hbase, rfl⟩ := mem_refDemands_iff.mp hd
      obtain ⟨name, underlying, size, kind, -, hunderlying, -, -, rfl⟩ := hr
      refine keeps_registerType (by rintro members ⟨⟩) (fun ref href => ?_) (.inl rfl)
      rw [List.mem_singleton.mp href]
      exact h.holdsType_base hread hundefined hbase hunderlying
  | fundamental he hkind =>
      obtain ⟨name, kind, bits, -, -, -, rfl⟩ := hr
      refine keeps_registerType (by rintro members ⟨⟩) (fun ref href => ?_) (.inl rfl)
      cases href
  | space he hkind hglobal =>
      obtain ⟨name, -, rfl | ⟨scope, hscope, rfl⟩⟩ := hr
      · trivial
      · exact keeps_registerNamespace (h.scope hscope)
  | spaceAlias he hkind =>
      obtain ⟨name, scope, id, target, -, hscope, -, -, rfl⟩ := hr
      exact keeps_registerNamespace (h.scope hscope)
  | enumeration he hkind =>
      obtain ⟨name, scope, bits, members, -, hscope, -, hmembers, rfl⟩ := hr
      refine keeps_registerEnumeration (fun m hm => ?_) (h.scope hscope)
      obtain ⟨v, -, value, -, rfl⟩ := exists_of_forall₂_right hmembers hm
      exact h.supplied.holdsType_of_fundamental h.well.int
  | shell he hkind =>
      obtain ⟨name, scope, bits, -, hscope, -, rfl⟩ := hr
      refine keeps_registerType (shape_shellOf _ name scope _) (by simp) ?_
      rw [scope_shellOf]
      exact h.scope hscope
  | memberType he hkind hid hm hfunction =>
      obtain ⟨cls, proto, -, hproto, rfl⟩ := hr
      refine keeps_registerType (shape_memberFunctionType _ cls _) (fun ref href => ?_)
        (.inl (scope_memberFunctionType _ cls _))
      rw [refs_memberFunctionType, refs_typeOnly] at href
      refine h.holdsType_of_standsFor (fun id hpart => ⟨?_, ?_⟩) (hproto.standsFor href)
      · exact .memberFunction he hkind hid hm hfunction hpart
      · exact h.denotesType_of_isMemberFunction (h.indexed.elements hm).1 hfunction hpart
  | members he hkind =>
      obtain ⟨name, scope, members, hname, hscope, hmembers, rfl⟩ := hr
      refine keeps_setMembersIn (fun m hm => ?_) ?_
      · exact h.holdsType_of_membersOf he hkind hname hmembers hm
      · exact h.exposedScope he hkind hscope
  | bases he hkind hunion hbases =>
      obtain ⟨name, bases, -, hbases, rfl⟩ := hr
      refine keeps_setBases fun base hbase => ?_
      obtain ⟨b, hb, type, access, offset, htype, rfl⟩ := exists_of_forall₂_right hbases hbase
      refine h.supplied.holdsType_of_denotesType h.indexed h.well ?_ (h.well.bases _ he b hb) htype
      exact .base he hkind hunion hb rfl
  | typedef he hkind =>
      obtain ⟨name, id, target, -, hid, htarget, ⟨-, rfl⟩ | ⟨-, scope, size, hscope, -, rfl⟩⟩ := hr
      · trivial
      · refine keeps_registerType (by rintro members ⟨⟩) (fun ref href => ?_) (h.scope hscope)
        rw [List.mem_singleton.mp href]
        exact h.holdsType_of_target he hid (.typedef he hkind) htarget
  | structural he hkind =>
      obtain ⟨t, ht, rfl⟩ := hr
      refine keeps_registerType ht.shape (fun ref href => ?_) (.inl ht.scope)
      refine h.holdsType_of_standsFor (fun id hid => ⟨?_, ?_⟩) (ht.refs href)
      · exact .structural he hkind ((Element.mem_structuralIds_iff _).mpr (.inl hid))
      · exact h.denotesType_of_mem_partIds he hid
  | function he hkind =>
      obtain ⟨f, hf, rfl⟩ := hr
      refine keeps_registerFunction (fun ref href => ?_) (h.scope hf.scope)
      refine h.holdsType_of_standsFor (fun id hid => ⟨.function he hkind hid, ?_⟩)
        (hf.proto.standsFor href)
      exact h.well.prototypes _ he (List.mem_append_left _ hkind) id hid
  | globalData he hkind hglobal =>
      obtain ⟨name, scope, id, type, specifiers, -, hscope, hid, htype, rfl⟩ := hr
      refine keeps_register (by simp) fun entry hentry => ?_
      rw [List.mem_singleton.mp hentry]
      refine ⟨fun ref href => ?_, h.scope hscope⟩
      rw [List.mem_singleton.mp href]
      exact h.holdsType_of_target he hid (.globalData he hkind hglobal) htype

end Settled
end Source

namespace Catalog

open Source Request

/-- In the slots that the registration of a well-referenced document opens, every reference is to a
type, and every scope is empty or a key. -/
theorem resolves_registerDocument
    {c c' : Catalog} {d : Document} {n : Template.Normalizer} {o : RegistrationOptions}
    {stats : Statistics}
    (hc : c.Reachable)
    (hwell : (Source.ofDocument (d.repair n) n o).WellReferenced)
    (hclasses : (Source.ofDocument (d.repair n) n o).ClassesDenoteTypes)
    (h : c.registerDocument d n o = (.ok stats, c')) :
    c'.Beyond c.size c'.Resolves := by
  obtain ⟨a, state, hrun, rfl⟩ := registerDocument_eq_ok h
  obtain ⟨rs, hmet, hall, honly⟩ := exists_requests _ hrun
  have hsettled : (Source.ofDocument (d.repair n) n o).Settled state.catalog := by
    refine ⟨indexed_ofDocument _ n o, hwell, hclasses, ?_, ?_⟩
    · intro demand hdemanded
      obtain ⟨r, hr, hmeets⟩ := hall demand hdemanded
      exact ⟨r, hmeets, fun key hkey => hmet.holdsType hc.coherent hr hkey⟩
    · intro key hkey
      exact (mem_keys_registerAll_iff hc.coherent hrun key).mpr (.inr hkey)
  refine hmet.beyond hc.coherent ?_ ?_
  · intro r hr
    obtain ⟨demand, hdemanded, hmeets⟩ := honly r hr
    exact hsettled.keeps hdemanded hmeets
  · -- no slot of the catalog before is one of the new ones
    intro i slot hi hslot
    have hlt := (Array.getElem?_eq_some_iff.mp hslot).1
    exact absurd hi (Nat.not_le_of_lt hlt)

section Samples

/-- A check of documents in which no type alias has another as its target. -/
theorem wellReferenced_of_checks
    {s : Source}
    (hs : s.Indexed)
    (h : (∃ e ∈ s.elements, e.kind = .fundamental ∧ s.Names e.id "int") ∧
      (∃ e ∈ s.elements, e.kind = .fundamental ∧ s.Names e.id "void") ∧
      (∀ e ∈ s.elements, e.kind = .typedef → ∀ id ∈ e.targetIds, ∀ t ∈ s.elements,
        t.id = id → t.kind ≠ .typedef) ∧
      (∀ e ∈ s.elements, ∀ id ∈ e.targetIds, s.denotesType id = true) ∧
      (∀ e ∈ s.elements, e.kind ∈ functionKinds ++ [.functionType, .methodType] →
        ∀ id ∈ e.prototypeIds, s.denotesType id = true) ∧
      (∀ e ∈ s.elements, ∀ b ∈ e.bases, s.denotesType b.type = true) ∧
      ∀ e ∈ s.elements, ∀ id ∈ e.context?, s.isScope id = true) :
    s.WellReferenced := by
  obtain ⟨hint, hvoid, haliases, htargets, hprototypes, hbases, hcontexts⟩ := h
  refine ⟨hint, hvoid, fun id hcycle => ?_, htargets, hprototypes, hbases, hcontexts⟩
  obtain ⟨before, -, e, he, hkind, htarget⟩ := Relation.TransGen.tail'_iff.mp hcycle
  obtain ⟨next, ⟨t, ht, hkind', -⟩, -⟩ := Relation.TransGen.head'_iff.mp hcycle
  refine haliases e (hs.elements he).1 hkind id ?_ t (hs.elements ht).1 (hs.elements ht).2 hkind'
  rw [Element.targetIds_eq htarget]
  exact List.mem_singleton_self id

/-- A struct in a namespace with a field, a method and a pointer to a member. The method returns a
type alias that is left out; the class of the pointer is the undefined qualified form of the
struct. -/
def memberDocument :
    Document :=
  .ofElements
    [{ Element.bare "FundamentalType" "_1" with attributes := [("name", "int")] },
     { Element.bare "FundamentalType" "_2" with attributes := [("name", "void")] },
     { Element.bare "Namespace" "_3" with attributes := [("name", "N")] },
     { Element.bare "Struct" "_4" with
       attributes := [("name", "S"), ("context", "_3"), ("members", "_5 _6")] },
     { Element.bare "Field" "_5" with
       attributes := [("name", "f"), ("context", "_4"), ("type", "_1c"), ("access", "public")] },
     { Element.bare "Method" "_6" with
       attributes := [("name", "g"), ("context", "_4"), ("returns", "_7"), ("access", "public")] },
     { Element.bare "Typedef" "_7" with
       attributes := [("name", "S"), ("context", "_3"), ("type", "_4")] },
     { Element.bare "OffsetType" "_8" with attributes := [("type", "_1"), ("basetype", "_4c")] }]

/-- A pointer to a member of a namespace: the class is the undefined qualified form of the
namespace. -/
def strayDocument :
    Document :=
  .ofElements
    [{ Element.bare "FundamentalType" "_1" with attributes := [("name", "int")] },
     { Element.bare "FundamentalType" "_2" with attributes := [("name", "void")] },
     { Element.bare "Namespace" "_3" with attributes := [("name", "N")] },
     { Element.bare "OffsetType" "_4" with attributes := [("type", "_1"), ("basetype", "_3c")] }]

/-- What the registration of a document reads by default. -/
def sourceOf
    (d : Document) :
    Source :=
  .ofDocument (d.repair .standard) .standard .standard

/-- The registration of a document into the empty catalog. -/
def registered
    (d : Document) :
    Except DocumentError Statistics × Catalog :=
  empty.registerDocument d .standard .standard

theorem wellReferenced_memberDocument :
    (sourceOf memberDocument).WellReferenced :=
  wellReferenced_of_checks (indexed_ofDocument _ _ _) (by decide +kernel)

theorem resolves_memberDocument :
    empty.Reachable ∧ (sourceOf memberDocument).WellReferenced ∧
      (sourceOf memberDocument).ClassesDenoteTypes ∧
      (registered memberDocument).1 =
        .ok (Statistics.ofDocument (memberDocument.repair .standard)) ∧
      (registered memberDocument).2.size = 10 ∧
      (registered memberDocument).2.Beyond empty.size (registered memberDocument).2.Resolves := by
  have hempty : empty.Reachable := ⟨[], rfl⟩
  have hclasses : (sourceOf memberDocument).ClassesDenoteTypes := by
    unfold Source.ClassesDenoteTypes
    decide +kernel
  obtain ⟨hok, hsize⟩ : (registered memberDocument).1 =
        .ok (Statistics.ofDocument (memberDocument.repair .standard)) ∧
      (registered memberDocument).2.size = 10 := by
    decide +kernel
  refine ⟨hempty, wellReferenced_memberDocument, hclasses, hok, hsize, ?_⟩
  exact resolves_registerDocument hempty wellReferenced_memberDocument hclasses (Prod.ext hok rfl)

theorem wellReferenced_strayDocument :
    (sourceOf strayDocument).WellReferenced :=
  wellReferenced_of_checks (indexed_ofDocument _ _ _) (by decide +kernel)

/-- The qualified form of a namespace becomes a type that refers to the namespace. -/
theorem not_resolves_strayDocument :
    empty.Reachable ∧ (sourceOf strayDocument).WellReferenced ∧
      (registered strayDocument).1 =
        .ok (Statistics.ofDocument (strayDocument.repair .standard)) ∧
      ¬ (registered strayDocument).2.Beyond empty.size (registered strayDocument).2.Resolves := by
  obtain ⟨hok, hslot, hspace⟩ : (registered strayDocument).1 =
        .ok (Statistics.ofDocument (strayDocument.repair .standard)) ∧
      (registered strayDocument).2.slots[3]? = some
        ⟨"const N", .ofType (.cvQualified "const N" (.named "N") .const 0 .unexposed)⟩ ∧
      ∀ slot ∈ (registered strayDocument).2.slots.toList, slot.key = "N" →
        slot.entity.type? = none := by
    decide +kernel
  refine ⟨⟨[], rfl⟩, wellReferenced_strayDocument, hok, fun hbeyond => ?_⟩
  obtain ⟨hrefs, -⟩ := hbeyond 3 _ (Nat.zero_le 3) hslot
  obtain ⟨t, ht⟩ := hrefs (.named "N") (List.mem_singleton_self _)
  have hnone := hspace _ (Array.mem_toList_iff.mpr ht) rfl
  cases hnone

end Samples

end Catalog
end TypeCatalog
