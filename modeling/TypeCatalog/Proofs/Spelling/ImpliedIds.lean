import Mathlib.Data.List.Nodup
import TypeCatalog.Proofs.Spelling.History

/-!
# Elements that state what their id implies

**Input.** An index, and the same index without an element whose type is that of a qualified id: the
id ends in qualifier letters, the target is the id without them, and the flags are those of the
letters.

**Rule.** The plan of such an element requests the base and qualifies it. That is the plan of its id
when it is not defined, so all plans are the same with and without the element, as long as no scope
is looked for through it.

**Results.**
* `Element.StatesImplied.qualifiedId?_eq`: the letters stand for the flags of the element.
* `Index.Implied.plan_eq`: ids have the same plans.
* `Index.Implied.typeName_eq`: ids are spelled in the same way, with the same errors.
-/

namespace TypeCatalog

/-- The letters at the end of the id of a qualified type. -/
def Spelling.qualifierLetters :
    List Char :=
  ['c', 'v', 'r']

/-- An element describes the qualified type that its id stands for when it is not defined. -/
structure Element.StatesImplied
    (e : Element) (base letters : String) :
    Prop where
  id : e.id = base ++ letters
  kind : e.kind = .cvQualified
  target : e.attr? "type" = some base
  base_ne : base ≠ ""
  base_last : ∀ c, base.toList.getLast? = some c → c ∉ Spelling.qualifierLetters
  letters_ne : letters ≠ ""
  letters_mem : ∀ c ∈ letters.toList, c ∈ Spelling.qualifierLetters
  const : e.flag "const" = true ↔ 'c' ∈ letters.toList
  volatile : e.flag "volatile" = true ↔ 'v' ∈ letters.toList
  restrict : e.flag "restrict" = true ↔ 'r' ∈ letters.toList

/-- The qualifiers of three flags. -/
def Qualifiers.ofFlags
    (isConst isVolatile isRestrict : Bool) :
    Qualifiers :=
  ((Qualifiers.when isConst .const).union (.when isVolatile .volatile)).union
    (.when isRestrict .restrict)

/-- Adding the qualifier of a letter sets its flag. -/
theorem Qualifiers.foldl_letters
    {letters : List Char}
    (h : ∀ c ∈ letters, c ∈ Spelling.qualifierLetters) (isConst isVolatile isRestrict : Bool) :
    letters.foldl
        (fun q c =>
          q.union (if c = 'c' then .const else if c = 'v' then .volatile else .restrict))
        (ofFlags isConst isVolatile isRestrict) =
      ofFlags (isConst || decide ('c' ∈ letters)) (isVolatile || decide ('v' ∈ letters))
        (isRestrict || decide ('r' ∈ letters)) := by
  induction letters generalizing isConst isVolatile isRestrict with
  | nil =>
      simp
  | cons c letters ih =>
      have hstep : (ofFlags isConst isVolatile isRestrict).union
          (if c = 'c' then .const else if c = 'v' then .volatile else .restrict) =
          ofFlags (isConst || c = 'c') (isVolatile || c = 'v') (isRestrict || c = 'r') := by
        have hc := h c (by simp)
        simp only [Spelling.qualifierLetters, List.mem_cons, List.not_mem_nil, or_false] at hc
        rcases hc with rfl | rfl | rfl <;> revert isConst isVolatile isRestrict <;> decide
      rw [List.foldl_cons, hstep, ih fun c hc => h c (List.mem_cons_of_mem _ hc)]
      simp only [List.mem_cons, Bool.decide_or, Bool.or_assoc, eq_comm]

theorem Text.dropTrailing_append
    {p : Char → Bool} {kept dropped : List Char}
    (hkept : ∀ c, kept.getLast? = some c → p c = false)
    (hdropped : ∀ c ∈ dropped, p c = true) :
    dropTrailing p (kept ++ dropped) = kept := by
  have hrest : dropTrailing p (kept ++ dropped) = dropTrailing p kept := by
    unfold dropTrailing
    rw [List.reverse_append, List.dropWhile_append_of_pos fun c hc => hdropped c (by simpa using hc)]
  rw [hrest, dropTrailing_eq_self hkept]

/-- The letters of an element that states what its id implies stand for its flags. -/
theorem Element.StatesImplied.qualifiedId?_eq
    {e : Element} {base letters : String}
    (h : e.StatesImplied base letters) :
    Spelling.qualifiedId? e.id = some (base, e.qualifiers) := by
  have hbase : Text.dropTrailing (fun c => c == 'c' || c == 'v' || c == 'r') e.id.toList =
      base.toList := by
    rw [h.id, String.toList_append]
    refine Text.dropTrailing_append (fun c hc => ?_) fun c hc => ?_
    · have hlast := h.base_last c hc
      simpa [Spelling.qualifierLetters, and_assoc] using hlast
    · have hletter := h.letters_mem c hc
      simpa [Spelling.qualifierLetters, or_assoc] using hletter
  have hletters : e.id.toList.drop base.toList.length = letters.toList := by
    rw [h.id, String.toList_append, List.drop_left]
  have hflag : ∀ {flag : Bool} {c : Char}, (flag = true ↔ c ∈ letters.toList) →
      decide (c ∈ letters.toList) = flag := by
    intro flag c hiff
    rw [Bool.eq_iff_iff, decide_eq_true_iff, hiff]
  have hqualifiers : letters.toList.foldl
      (fun q c =>
        q.union (if c = 'c' then .const else if c = 'v' then .volatile else .restrict))
      .none = e.qualifiers := by
    have hfold := Qualifiers.foldl_letters h.letters_mem false false false
    rw [hflag h.const, hflag h.volatile, hflag h.restrict] at hfold
    exact hfold
  have hbase_ne : base.toList ≠ [] := by
    simpa using h.base_ne
  have hletters_ne : letters.toList ≠ [] := by
    simpa using h.letters_ne
  simp [Spelling.qualifiedId?, hbase, hletters, hqualifiers, hbase_ne, hletters_ne]

/-- The second index is the first one without an element that describes the qualified type of its own
id, and that is no context of another. -/
structure Index.Implied
    (index index' : Index) (e : Element) (base : String) :
    Prop where
  found : index.find? e.id = some e
  missing : index'.find? e.id = none
  others : ∀ id, id ≠ e.id → index'.find? id = index.find? id
  kind : e.kind = .cvQualified
  target : e.attr? "type" = some base
  qualifies : Spelling.qualifiedId? e.id = some (base, e.qualifiers)
  contexts : ∀ id x, index.find? id = some x → x.context? ≠ some e.id

section Documents

/-- The document without the elements of an id. -/
def Document.without
    (d : Document) (id : String) :
    Document :=
  { d with elements := d.elements.filter (·.id ≠ id) }

theorem Document.find?_without
    (d : Document) (id other : String) :
    (d.without id).index.find? other = if other = id then none else d.index.find? other := by
  rw [index, index, without, Index.find?_ofElements, Index.find?_ofElements, List.filter_filter]
  split
  · next heq =>
      rw [List.filter_eq_nil_iff.mpr, List.getLast?_nil]
      simp [heq]
  · next hne =>
      refine congrArg List.getLast? (List.filter_congr fun x _ => ?_)
      by_cases hx : x.id = other
      · simp [hx, hne]
      · simp [hx]

/-- Where ids are distinct, every element is the one that its id denotes. -/
theorem Document.find?_of_mem
    {d : Document} {e : Element}
    (hids : (d.elements.map (·.id)).Nodup)
    (he : e ∈ d.elements) :
    d.index.find? e.id = some e := by
  have hmem : e ∈ d.elements.filter (·.id = e.id) := by
    simpa using he
  obtain ⟨x, hx⟩ : ∃ x, d.index.find? e.id = some x := by
    rw [index, Index.find?_ofElements]
    exact ⟨_, List.getLast?_eq_some_getLast (List.ne_nil_of_mem hmem)⟩
  obtain ⟨hx', hid⟩ := Index.mem_of_find? hx
  rw [hx, List.inj_on_of_nodup_map hids hx' he hid]

/-- A document with distinct ids implies an element that states what its id implies. -/
theorem Document.implied_without
    {d : Document} {e : Element} {base letters : String}
    (hids : (d.elements.map (·.id)).Nodup)
    (he : e ∈ d.elements)
    (hstates : e.StatesImplied base letters)
    (hcontexts : ∀ x ∈ d.elements, x.context? ≠ some e.id) :
    d.index.Implied (d.without e.id).index e base where
  found := find?_of_mem hids he
  missing := by rw [find?_without, if_pos rfl]
  others := fun id hid => by rw [find?_without, if_neg hid]
  kind := hstates.kind
  target := hstates.target
  qualifies := hstates.qualifiedId?_eq
  contexts := fun _ x hx => hcontexts x (Index.mem_of_find? hx).1

end Documents

/-- A larger bound changes nothing where no id is being spelled. -/
theorem Namer.nameWithin_eq_of_start
    {n : Namer} {bound : Nat} {trail : Trail}
    (hstart : trail.visiting = []) (id : String)
    (hbound : n.bound ≤ bound) :
    n.nameWithin bound trail id = n.nameWithin n.bound trail id := by
  induction hbound with
  | refl =>
      rfl
  | step hle ih =>
      rw [nameWithin_succ (hstart ▸ .start id) (Nat.le_trans hle (Nat.le_add_right _ _)), ih]

namespace Index.Implied

open Namer

variable {index index' : Index} {e : Element} {base : String} (h : index.Implied index' e base)
include h

theorem required_target :
    e.required "type" = .ok base :=
  required_eq_ok_iff.mpr h.target

/-- The searches for a context with one bound are the same. -/
theorem namedContext?_eq_within
    (owner : String) (bound : Nat) {context : Option String}
    (hcontext : context ≠ some e.id) :
    namedContext? index owner bound context = namedContext? index' owner bound context := by
  induction bound generalizing context with
  | zero =>
      cases context <;> rfl
  | succ bound ih =>
      cases context with
      | none =>
          rfl
      | some id =>
          have hid : id ≠ e.id := fun heq => hcontext (congrArg some heq)
          simp only [namedContext?, Index.require, h.others id hid]
          cases hx : index.find? id with
          | none =>
              rfl
          | some x =>
              simp only [ih (h.contexts id x hx)]

/-- The searches for a context are the same, though their bounds are not. -/
theorem namedContext?_eq
    (owner : String) {context : Option String}
    (hcontext : context ≠ some e.id) :
    namedContext? index owner (index.size + 1) context =
      namedContext? index' owner (index'.size + 1) context := by
  have hlarge : index.size + 1 ≤ index.size + index'.size + 1 := by
    omega
  have hlarge' : index'.size + 1 ≤ index.size + index'.size + 1 := by
    omega
  rw [← namedContext?_eq_of_le hlarge, ← namedContext?_eq_of_le hlarge',
    h.namedContext?_eq_within owner _ hcontext]

variable (normalizer : Template.Normalizer) (keepAll : Bool)

theorem elementPlan_eq
    {x : Element}
    (hcontext : x.context? ≠ some e.id) :
    elementPlan ⟨index, normalizer, keepAll⟩ x = elementPlan ⟨index', normalizer, keepAll⟩ x := by
  have hscope : ∀ next, scopePlan ⟨index, normalizer, keepAll⟩ x next =
      scopePlan ⟨index', normalizer, keepAll⟩ x next := by
    intro next
    rw [scopePlan, scopePlan, h.namedContext?_eq x.id hcontext]
  simp only [elementPlan, namePlan, hscope]

/-- Ids have the same plans with and without an element that states what its id implies. -/
theorem plan_eq
    (trail : Trail) (id : String) :
    plan ⟨index, normalizer, keepAll⟩ trail id = plan ⟨index', normalizer, keepAll⟩ trail id := by
  by_cases hid : id = e.id
  · subst hid
    rw [plan_of_find h.found, plan_of_qualifiedId h.missing h.qualifies, elementPlan, h.kind]
    simp only [targetPlan, h.required_target, Plan.ofExcept]
  · simp only [plan, h.others id hid]
    cases hx : index.find? id with
    | none =>
        rfl
    | some x =>
        exact h.elementPlan_eq normalizer keepAll (h.contexts id x hx)

theorem nameWithin_eq
    (bound : Nat) (trail : Trail) (id : String) :
    nameWithin ⟨index, normalizer, keepAll⟩ bound trail id =
      nameWithin ⟨index', normalizer, keepAll⟩ bound trail id := by
  induction bound generalizing trail id with
  | zero =>
      rfl
  | succ bound ih =>
      have hinner : nameWithin ⟨index, normalizer, keepAll⟩ bound (trail.enter id) =
          nameWithin ⟨index', normalizer, keepAll⟩ bound (trail.enter id) :=
        funext (ih (trail.enter id))
      simp only [nameWithin, spellId_eq_run, h.plan_eq normalizer keepAll, hinner]

/-- Ids have the same spellings or the same errors, though the bounds on the trails are not the
same. -/
theorem typeName_eq
    (id : String) :
    typeName ⟨index, normalizer, keepAll⟩ id = typeName ⟨index', normalizer, keepAll⟩ id := by
  rw [typeName, typeName,
    ← nameWithin_eq_of_start rfl id (Nat.le_add_right _ (bound ⟨index', normalizer, keepAll⟩)),
    ← nameWithin_eq_of_start rfl id (Nat.le_add_left _ (bound ⟨index, normalizer, keepAll⟩)),
    h.nameWithin_eq normalizer keepAll]

end Index.Implied

end TypeCatalog
