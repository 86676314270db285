import TypeCatalog.Proofs.Registration.Given
import TypeCatalog.Proofs.Catalog.Failure

/-!
# Types that are defined by themselves

**Input.** A document in which a type alias, a qualified type or an array without a stated size leads
back to itself, from target to target.

**Rule.** Such a type has no size: its size is that of its target, or a multiple of it, and so on
around the circle. Registration sizes every qualified type and array, and every type alias but those
that have the name of their target.

**Results.**
* `Layout.HasSize.not_cyclic`: a type with a size does not lead back to itself.
* `registerDocument_cyclic`: a document with a type that leads back to itself is refused, unless the
  type is an alias with the name of its target, or some contexts go round in a circle.
* `registerDocument_selfAlias`: a document with an alias of itself is not.
-/

namespace TypeCatalog

namespace Element

/-- Whether the type that an element describes has the size of its target, or a multiple of it. -/
def Forwards
    (e : Element) :
    Prop :=
  e.kind = .typedef ∨ e.kind = .cvQualified ∨ e.kind = .array ∧ e.attr? "size" = none

/-- Repair changes the name or the bound of an element, if anything. -/
theorem repair_cases
    (n : Template.Normalizer) (e : Element) :
    e.repair n = e ∨ ∃ value, e.repair n = e.setAttr "name" value ∨
      e.repair n = e.setAttr "max" value := by
  have hrename : ∀ name, e.rename name = e ∨ ∃ value, e.rename name = e.setAttr "name" value ∨
      e.rename name = e.setAttr "max" value := by
    intro name
    unfold rename
    split
    · exact .inl rfl
    · exact .inr ⟨name, .inl rfl⟩
  unfold repair
  cases e.kind with
  | array =>
      exact .inr ⟨_, .inr rfl⟩
  | classRecord | structRecord | unionRecord | function | operatorFunction | operatorMethod
  | converter | fundamental =>
      exact hrename _
  | constructor | method =>
      dsimp only
      split
      · exact .inl rfl
      · exact hrename _
  | _ =>
      exact .inl rfl

@[simp] theorem id_repair
    (n : Template.Normalizer) (e : Element) :
    (e.repair n).id = e.id := by
  rcases e.repair_cases n with h | ⟨value, h | h⟩ <;> rw [h] <;> rfl

@[simp] theorem kind_repair
    (n : Template.Normalizer) (e : Element) :
    (e.repair n).kind = e.kind := by
  rcases e.repair_cases n with h | ⟨value, h | h⟩ <;> rw [h] <;> rfl

theorem attr?_repair
    (n : Template.Normalizer) (e : Element) {attr : String}
    (hname : attr ≠ "name")
    (hmax : attr ≠ "max") :
    (e.repair n).attr? attr = e.attr? attr := by
  rcases e.repair_cases n with h | ⟨value, h | h⟩ <;> rw [h]
  · exact e.attr?_setAttr_of_ne value hname
  · exact e.attr?_setAttr_of_ne value hmax

end Element

/-- A repaired document has the repaired elements under their ids. -/
theorem Document.find?_repair
    (d : Document) (n : Template.Normalizer) (id : String) :
    (d.repair n).index.find? id = (d.index.find? id).map (Element.repair n) := by
  rw [index, index, Index.find?_ofElements, Index.find?_ofElements, repair, List.filter_map,
    List.getLast?_map]
  simp only [Function.comp_def, Element.id_repair]

/-- The type of the first id is defined by that of the second. -/
def Index.DefinedBy
    (index : Index) (id target : String) :
    Prop :=
  ∃ e, index.find? id = some e ∧ e.Forwards ∧ e.attr? "type" = some target

theorem Index.DefinedBy.repair
    {d : Document} {id target : String}
    (h : d.index.DefinedBy id target) (n : Template.Normalizer) :
    (d.repair n).index.DefinedBy id target := by
  obtain ⟨e, he, hforwards, htarget⟩ := h
  refine ⟨e.repair n, ?_, ?_, ?_⟩
  · rw [Document.find?_repair, he, Option.map_some]
  · rwa [Element.Forwards, e.kind_repair, e.attr?_repair n (by decide) (by decide)]
  · rwa [e.attr?_repair n (by decide) (by decide)]

namespace Layout

variable {index : Index} {machine : UInt64} {id target : String}

/-- The rule for the size of a type that is defined by another leads to that one. -/
theorem sizeRule?_of_definedBy
    {rule : SizeRule}
    (h : index.DefinedBy id target)
    (hrule : sizeRule? index machine id = some rule) :
    rule = .sameAs target ∨ ∃ length, rule = .times length target := by
  obtain ⟨e, he, hforwards, htarget⟩ := h
  rw [sizeRule?_of_find he, elementSizeRule?] at hrule
  rcases hforwards with hkind | hkind | ⟨hkind, hsize⟩
  · simp only [hkind, htarget, Option.map_some, Option.some.injEq] at hrule
    exact .inl hrule.symm
  · simp only [hkind, htarget, Option.map_some, Option.some.injEq] at hrule
    exact .inl hrule.symm
  · have hzero : e.uint "size" = .ok 0 := by
      simp [Element.uint, Element.attr, hsize, readSize]
    cases hlength : e.arrayLength with
    | error err =>
        simp [hkind, arraySizeRule?, hzero, hlength, bytesOfBits, Except.toOption] at hrule
    | ok length =>
        simp only [hkind, arraySizeRule?, hzero, hlength, htarget, Except.toOption, bytesOfBits,
          Option.bind_some, Option.map_some, UInt64.zero_div, if_true, Option.some.injEq] at hrule
        exact .inr ⟨length.getD 0, hrule.symm⟩

/-- A type with a size does not lead back to itself. -/
theorem HasSize.not_cyclic
    {n : UInt64}
    (h : HasSize index machine id n) :
    ¬ Relation.TransGen index.DefinedBy id id := by
  induction h with
  | own hrule =>
      intro hcycle
      obtain ⟨outer, hstep, -⟩ := Relation.TransGen.head'_iff.mp hcycle
      rcases sizeRule?_of_definedBy hstep hrule with hsame | ⟨length, hsame⟩ <;> cases hsame
  | sameAs hrule _ ih | times hrule _ ih =>
      -- the circle through the id is also one through its target
      intro hcycle
      obtain ⟨outer, hstep, hback⟩ := Relation.TransGen.head'_iff.mp hcycle
      rcases sizeRule?_of_definedBy hstep hrule with hsame | ⟨length, hsame⟩ <;> cases hsame
      exact ih (Relation.TransGen.tail'_iff.mpr ⟨_, hback, hstep⟩)

end Layout

namespace Source

open Layout

variable {s : Source}

/-- The element of an id is a type alias that has the name of its target. -/
def LeavesOut
    (s : Source) (id : String) :
    Prop :=
  ∃ e target name, s.index.find? id = some e ∧ e.kind = .typedef ∧ e.attr? "type" = some target ∧
    s.Names id name ∧ s.Names target name

/-- When all that a document demands can be met, its type aliases, qualified types and arrays have a
size, but for the aliases that are left out. -/
theorem exists_hasSize_of_met
    (hfind : ∀ e ∈ s.elements, s.index.find? e.id = some e)
    (hall : ∀ d, s.Demanded d → ∃ r, d r)
    {e : Element}
    (he : e ∈ s.elements)
    (hforwards : e.Forwards)
    (hkept : ¬ s.LeavesOut e.id) :
    ∃ n, HasSize s.index s.pointerSize e.id n := by
  have hstructural : e.kind ∈ structuralKinds → ∃ n, HasSize s.index s.pointerSize e.id n := by
    intro hkind
    obtain ⟨r, t, ht, -⟩ := hall _ (.structural he hkind)
    exact ⟨t.header.size, ht.hasSize hfind he⟩
  rcases hforwards with hkind | hkind | ⟨hkind, -⟩
  · obtain ⟨r, name, id, target, hname, hid, htarget, hsame | ⟨-, scope, size, -, hsize, -⟩⟩ :=
      hall _ (.typedef he hkind)
    · rw [hsame.1] at htarget
      exact absurd ⟨e, id, name, hfind e he, hkind, hid, hname, htarget⟩ hkept
    · refine ⟨size, .sameAs ?_ (hasSize_of_sizeWithin hsize)⟩
      rw [sizeRule?_of_find (hfind e he), elementSizeRule?, hkind, hid]
      rfl
  · exact hstructural (by simp [hkind, structuralKinds])
  · exact hstructural (by simp [hkind, structuralKinds])

end Source

namespace Catalog

open Source

/-- A document is refused by every catalog when a type alias, a qualified type or an array without a
stated size leads back to itself from target to target, unless it is an alias that has the name of its
target. This is an answer when all climbs to a scope end. They do unless contexts without usable names
go round in a circle, and from such contexts the registration does not return. -/
theorem registerDocument_cyclic
    (c : Catalog) (d : Document) (n : Template.Normalizer) (o : RegistrationOptions) {id : String}
    (hcontexts : ∀ i, ¬ Relation.TransGen (Namer.ClimbsPast (d.repair n).index) i i)
    (hcycle : Relation.TransGen d.index.DefinedBy id id)
    (hkept : ¬ (Source.ofDocument (d.repair n) n o).LeavesOut id) :
    Namer.ClimbsEnd (d.repair n).index ∧ ∃ err, c.registerDocument d n o = (.error err, c) := by
  refine ⟨Namer.climbsEnd_of_acyclic hcontexts, ?_⟩
  cases hout : (c.registerDocument d n o).1 with
  | error err =>
      exact ⟨err, Prod.ext hout (eq_of_registerDocument_error hout)⟩
  | ok stats =>
      obtain ⟨a, state, hrun, -⟩ := registerDocument_eq_ok (Prod.ext hout rfl)
      obtain ⟨rs, -, hall, -⟩ := exists_requests _ hrun
      have hcycle' : Relation.TransGen (d.repair n).index.DefinedBy id id :=
        Relation.TransGen.mono (fun _ _ h => Index.DefinedBy.repair h n) id id hcycle
      obtain ⟨_, ⟨e, he, hforwards, -⟩, -⟩ := Relation.TransGen.head'_iff.mp hcycle'
      obtain ⟨hmem, rfl⟩ := Document.mem_canonical_of_find? he
      obtain ⟨size, hsize⟩ := exists_hasSize_of_met
        (s := Source.ofDocument (d.repair n) n o)
        (fun e he => Document.find?_of_mem_canonical he)
        (fun demand hdemanded => (hall demand hdemanded).imp fun _ h => h.2) hmem hforwards hkept
      exact absurd hcycle' hsize.not_cyclic

/-- The element of a type alias. -/
def aliasElement
    (id name target : String) :
    Element :=
  { Element.bare "Typedef" id with attributes := [("name", name), ("type", target)] }

theorem definedBy_aliasElement
    {d : Document} {id target : String} (name : String)
    (h : d.index.find? id = some (aliasElement id name target)) :
    d.index.DefinedBy id target :=
  ⟨_, h, .inl rfl, rfl⟩

/-- A document whose types `T` and `U` are aliases of each other. -/
def crossedAliases :
    Document :=
  .ofElements [aliasElement "_1" "T" "_2", aliasElement "_2" "U" "_1"]

theorem registerDocument_crossedAliases :
    (∀ i, ¬ Relation.TransGen (Namer.ClimbsPast (crossedAliases.repair .standard).index) i i) ∧
      Relation.TransGen crossedAliases.index.DefinedBy "_1" "_1" ∧
      ¬ (Source.ofDocument (crossedAliases.repair .standard) .standard .standard).LeavesOut "_1" ∧
      ∃ err, empty.registerDocument crossedAliases .standard .standard = (.error err, empty) := by
  have hthere : crossedAliases.index.DefinedBy "_1" "_2" :=
    definedBy_aliasElement "T" (by decide +kernel)
  have hback : crossedAliases.index.DefinedBy "_2" "_1" :=
    definedBy_aliasElement "U" (by decide +kernel)
  have hcycle : Relation.TransGen crossedAliases.index.DefinedBy "_1" "_1" :=
    .tail (.single hthere) hback
  have hkept :
      ¬ (Source.ofDocument (crossedAliases.repair .standard) .standard .standard).LeavesOut
        "_1" := by
    rintro ⟨e, target, name, he, -, htarget, hname, hname'⟩
    have hfound : (crossedAliases.repair .standard).index.find? "_1" =
        some (aliasElement "_1" "T" "_2") := by
      decide +kernel
    obtain rfl : e = aliasElement "_1" "T" "_2" := Option.some.inj (he.symm.trans hfound)
    obtain rfl : target = "_2" := Option.some.inj (htarget.symm.trans rfl)
    have hT : (Source.ofDocument (crossedAliases.repair .standard) .standard .standard).Names
        "_1" "T" := by
      decide +kernel
    have hU : (Source.ofDocument (crossedAliases.repair .standard) .standard .standard).Names
        "_2" "U" := by
      decide +kernel
    exact absurd ((hT.unique hname).trans (hname'.unique hU)) (by decide)
  have hcontexts :
      ∀ i, ¬ Relation.TransGen (Namer.ClimbsPast (crossedAliases.repair .standard).index) i i := by
    intro i hclimbs
    obtain ⟨outer, ⟨e, he, -, -, hcontext⟩, -⟩ := Relation.TransGen.head'_iff.mp hclimbs
    have hnone : ∀ e ∈ (crossedAliases.repair .standard).elements, e.context? = none := by
      decide +kernel
    rw [hnone e (Index.mem_of_find? he).1] at hcontext
    cases hcontext
  exact ⟨hcontexts, hcycle, hkept,
    (registerDocument_cyclic empty crossedAliases .standard .standard hcontexts hcycle hkept).2⟩

/-- A document whose only type is an alias of itself. -/
def selfAlias :
    Document :=
  .ofElements [aliasElement "_1" "T" "_1"]

/-- A type that leads back to itself need not be refused: an alias of itself is not. -/
theorem registerDocument_selfAlias :
    ¬ ∀ (c : Catalog) (d : Document) (n : Template.Normalizer) (o : RegistrationOptions)
        (id : String), Relation.TransGen d.index.DefinedBy id id →
      ∃ err, (c.registerDocument d n o).1 = .error err := by
  intro hrefused
  have hcycle : Relation.TransGen selfAlias.index.DefinedBy "_1" "_1" :=
    .single (definedBy_aliasElement "T" (by decide +kernel))
  obtain ⟨err, herr⟩ := hrefused empty selfAlias .standard .standard "_1" hcycle
  have hok : (empty.registerDocument selfAlias .standard .standard).1 =
      .ok (Statistics.ofDocument (selfAlias.repair .standard)) := by
    decide +kernel
  rw [hok] at herr
  cases herr

end Catalog
end TypeCatalog
