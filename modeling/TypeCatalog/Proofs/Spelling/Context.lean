import Mathlib.Data.List.Perm.Subperm
import TypeCatalog.Proofs.Spelling.Rules

/-!
# Climbing to the nearest named context

**Algorithm.** The search for the scope of an element climbs from context to context, past those
without a usable name, and is bounded by the size of the index.

**Results.**
* `Index.find?_ofElements`: an index finds the last element of an id.
* `length_le_size_of_nodup`: distinct defined ids are not more than the index has.
* `nearestContext_of_namedContext?`, `NearestContext.namedContext?_eq`: the search finds exactly the
  nearest context, when there is one.
* `climbsEnd_of_acyclic`: it meets its bound only when a chain of contexts without usable names
  returns to its start.
* `namedContext?_eq_of_le`: a larger bound changes nothing.
-/

namespace TypeCatalog

/-- What an index holds is an element of the list at that position, with the id. -/
theorem Index.mem_zipIdx_of_getElem?
    {elements : List Element} {id : String} {p : Nat × Element}
    (h : (Index.ofElements elements)[id]? = some p) :
    (p.2, p.1) ∈ elements.zipIdx ∧ p.2.id = id := by
  have hstep : ∀ (pairs : List (Element × Nat)) (index : Index),
      (∀ (id : String) (p : Nat × Element), index[id]? = some p →
        (p.2, p.1) ∈ elements.zipIdx ∧ p.2.id = id) →
      (∀ q ∈ pairs, q ∈ elements.zipIdx) →
      ∀ (id : String) (p : Nat × Element),
        (pairs.foldl (fun index p => index.insert p.1.id (p.2, p.1)) index)[id]? = some p →
        (p.2, p.1) ∈ elements.zipIdx ∧ p.2.id = id := by
    intro pairs
    induction pairs with
    | nil =>
        intro index hindex _
        exact hindex
    | cons q pairs ih =>
        intro index hindex hpairs
        refine ih _ ?_ fun p hp => hpairs p (List.mem_cons_of_mem q hp)
        intro id p hp
        rw [Std.TreeMap.getElem?_insert] at hp
        split at hp
        · next heq =>
            rw [Std.LawfulEqCmp.compare_eq_iff_eq] at heq
            cases hp
            exact ⟨hpairs q (by simp), heq⟩
        · exact hindex id p hp
  exact hstep elements.zipIdx ∅ (by simp) (fun q hq => hq) id p h

/-- What an index finds is an element of the list that has the id. -/
theorem Index.mem_of_find?
    {elements : List Element} {id : String} {e : Element}
    (h : (Index.ofElements elements).find? id = some e) :
    e ∈ elements ∧ e.id = id := by
  rw [find?, Option.map_eq_some_iff] at h
  obtain ⟨p, hp, rfl⟩ := h
  obtain ⟨hmem, hid⟩ := Index.mem_zipIdx_of_getElem? hp
  exact ⟨List.fst_mem_of_mem_zipIdx hmem, hid⟩

theorem Index.find?_insert
    (index : Index) (e : Element) (i : Nat) (id : String) :
    Index.find? (index.insert e.id (i, e)) id = if e.id = id then some e else index.find? id := by
  simp only [find?, Std.TreeMap.getElem?_insert, Std.LawfulEqCmp.compare_eq_iff_eq]
  split <;> rfl

/-- An index finds the last element of an id. -/
theorem Index.find?_ofElements
    (elements : List Element) (id : String) :
    (ofElements elements).find? id = (elements.filter (·.id = id)).getLast? := by
  -- the index before the fold answers for the ids that no element has
  have hfold : ∀ (index : Index) (start : Nat),
      Index.find? ((elements.zipIdx start).foldl
        (fun index p => index.insert p.1.id (p.2, p.1)) index) id =
        (elements.filter (·.id = id)).getLast?.or (index.find? id) := by
    induction elements with
    | nil =>
        intro index start
        rfl
    | cons e elements ih =>
        intro index start
        rw [List.zipIdx_cons, List.foldl_cons, ih, find?_insert]
        by_cases hid : e.id = id
        · rw [if_pos hid, List.filter_cons_of_pos (by simpa using hid), List.getLast?_cons]
          cases (elements.filter (·.id = id)).getLast? <;> rfl
        · rw [if_neg hid, List.filter_cons_of_neg (by simpa using hid)]
  have hempty : Index.find? ∅ id = none := by
    simp [find?]
  rw [ofElements, hfold, hempty, Option.or_none]

namespace Namer

/-- Distinct defined ids are not more than the index has. -/
theorem length_le_size_of_nodup
    {index : Index} {ids : List String}
    (hnodup : ids.Nodup)
    (hdefined : ∀ id ∈ ids, (index.find? id).isSome) :
    ids.length ≤ index.size := by
  have hsubset : ids ⊆ index.keys := by
    intro id hid
    have hsome := hdefined id hid
    rw [Index.find?, Option.isSome_map, ← Std.TreeMap.mem_iff_isSome_getElem?] at hsome
    exact Std.TreeMap.mem_keys.mpr hsome
  have hle := (List.subperm_of_subset hnodup hsubset).length_le
  rwa [Std.TreeMap.length_keys] at hle

/-- The ids that the search has climbed past on its way to a context. -/
structure Climbed
    (index : Index) (seen : List String) (context : Option String) :
    Prop where
  nodup : seen.Nodup
  defined : ∀ id ∈ seen, (index.find? id).isSome
  leads : ∀ id ∈ seen, ∀ cid, context = some cid → Relation.TransGen (ClimbsPast index) id cid

/-- A search that ends does not return to an id. -/
theorem NearestContext.not_cyclic
    {index : Index} {id : String} {found : Option String}
    (h : NearestContext index (some id) found) :
    ¬ Relation.TransGen (ClimbsPast index) id id := by
  generalize hstart : some id = context at h
  induction h generalizing id with
  | outside =>
      cases hstart
  | stop he hnamed =>
      cases hstart
      intro hcycle
      obtain ⟨outer, ⟨e', he', hkind, hunnamed, -⟩, -⟩ := Relation.TransGen.head'_iff.mp hcycle
      rw [he] at he'
      cases he'
      rcases hnamed with hspace | hnamed
      · exact hkind hspace
      · simp [hnamed] at hunnamed
  | @climb id e found he hkind hunnamed hrest ih =>
      cases hstart
      intro hcycle
      -- the cycle through `id` is also one through the context around it
      obtain ⟨outer, ⟨e', he', hkind', hunnamed', hcontext⟩, hback⟩ :=
        Relation.TransGen.head'_iff.mp hcycle
      rw [he] at he'
      cases he'
      have hstep : ClimbsPast index id outer := ⟨e, he, hkind, hunnamed, hcontext⟩
      exact ih hcontext.symm (Relation.TransGen.tail'_iff.mpr ⟨id, hback, hstep⟩)

theorem Climbed.cons
    {index : Index} {seen : List String} {id : String} {e : Element}
    (h : Climbed index seen (some id))
    (hacyclic : ¬ Relation.TransGen (ClimbsPast index) id id)
    (he : index.find? id = some e)
    (hkind : e.kind ≠ .space)
    (hunnamed : e.isUnnamed = true) :
    Climbed index (id :: seen) e.context? := by
  have hstep : ∀ cid, e.context? = some cid → ClimbsPast index id cid := by
    intro cid hcid
    exact ⟨e, he, hkind, hunnamed, hcid⟩
  have hfresh : id ∉ seen := by
    intro hid
    exact hacyclic (h.leads id hid id rfl)
  refine ⟨List.nodup_cons.mpr ⟨hfresh, h.nodup⟩, ?_, ?_⟩
  · intro i hi
    rcases List.mem_cons.mp hi with rfl | hi
    · simp [he]
    · exact h.defined i hi
  · intro i hi cid hcid
    rcases List.mem_cons.mp hi with rfl | hi
    · exact .single (hstep cid hcid)
    · exact (h.leads i hi id rfl).tail (hstep cid hcid)

section Search

variable {index : Index} {id : String} {e : Element} (owner : String) (bound : Nat)

theorem namedContext?_named
    (he : index.find? id = some e)
    (hnamed : e.kind = .space ∨ e.isUnnamed = false) :
    namedContext? index owner (bound + 1) (some id) = .ok (some id) := by
  rcases hnamed with h | h <;> simp [namedContext?, Index.require, he, h]

theorem namedContext?_unnamed
    (he : index.find? id = some e)
    (hkind : e.kind ≠ .space)
    (hunnamed : e.isUnnamed = true) :
    namedContext? index owner (bound + 1) (some id) =
      namedContext? index owner bound e.context? := by
  simp [namedContext?, Index.require, he, hkind, hunnamed]

variable {owner bound}

theorem nearestContext_of_namedContext?
    {context found : Option String}
    (h : namedContext? index owner bound context = .ok found) :
    NearestContext index context found := by
  induction bound generalizing context with
  | zero =>
      cases context with
      | none =>
          cases h
          exact .outside
      | some id =>
          cases h
  | succ bound ih =>
      cases context with
      | none =>
          cases h
          exact .outside
      | some id =>
          cases he : index.find? id with
          | none =>
              simp [namedContext?, Index.require, he] at h
          | some e =>
              by_cases hnamed : e.kind = .space ∨ e.isUnnamed = false
              · rw [namedContext?_named owner bound he hnamed] at h
                cases h
                exact .stop he hnamed
              · obtain ⟨hkind, hunnamed⟩ : e.kind ≠ .space ∧ e.isUnnamed = true := by
                  simpa using hnamed
                rw [namedContext?_unnamed owner bound he hkind hunnamed] at h
                exact .climb he hkind hunnamed (ih h)

theorem Climbed.exists_bound
    {seen : List String} {context : Option String}
    (hseen : Climbed index seen context)
    (hbound : index.size < bound + seen.length) :
    ∃ rest, bound = rest + 1 := by
  have hle := length_le_size_of_nodup hseen.nodup hseen.defined
  exact Nat.exists_eq_succ_of_ne_zero (by omega)

/-- The nearest context is found within the bound: no id is climbed past twice. -/
theorem NearestContext.namedContext?_eq
    {context found : Option String} {seen : List String}
    (h : NearestContext index context found)
    (hseen : Climbed index seen context)
    (hbound : index.size < bound + seen.length) :
    namedContext? index owner bound context = .ok found := by
  induction h generalizing bound seen with
  | outside =>
      cases bound <;> rfl
  | stop he hnamed =>
      obtain ⟨bound, rfl⟩ := hseen.exists_bound hbound
      exact namedContext?_named owner bound he hnamed
  | climb he hkind hunnamed hrest ih =>
      obtain ⟨bound, rfl⟩ := hseen.exists_bound hbound
      have hacyclic := (NearestContext.climb he hkind hunnamed hrest).not_cyclic
      rw [namedContext?_unnamed owner bound he hkind hunnamed]
      refine ih (hseen.cons hacyclic he hkind hunnamed) ?_
      simp only [List.length_cons]
      omega

/-- The search never meets its bound unless a chain of contexts returns to its start. -/
theorem namedContext?_ne_cyclic
    (hacyclic : ∀ id, ¬ Relation.TransGen (ClimbsPast index) id id)
    {context : Option String} {seen : List String}
    (hseen : Climbed index seen context)
    (hbound : index.size < bound + seen.length) (i : String) :
    namedContext? index owner bound context ≠ .error (.cyclicReference i) := by
  induction bound generalizing context seen with
  | zero =>
      obtain ⟨rest, hrest⟩ := hseen.exists_bound hbound
      cases hrest
  | succ bound ih =>
      cases context with
      | none =>
          simp [namedContext?]
      | some id =>
          cases he : index.find? id with
          | none =>
              simp [namedContext?, Index.require, he]
          | some e =>
              by_cases hnamed : e.kind = .space ∨ e.isUnnamed = false
              · rw [namedContext?_named owner bound he hnamed]
                simp
              · obtain ⟨hkind, hunnamed⟩ : e.kind ≠ .space ∧ e.isUnnamed = true := by
                  simpa using hnamed
                rw [namedContext?_unnamed owner bound he hkind hunnamed]
                refine ih (hseen.cons (hacyclic id) he hkind hunnamed) ?_
                simp only [List.length_cons]
                omega

/-- The search for the scope of any element ends before it meets its bound. -/
def ClimbsEnd
    (index : Index) :
    Prop :=
  ∀ (e : Element) (i : String),
    namedContext? index e.id (index.size + 1) e.context? ≠ .error (.cyclicReference i)

theorem climbsEnd_of_acyclic
    (hacyclic : ∀ id, ¬ Relation.TransGen (ClimbsPast index) id id) :
    ClimbsEnd index := by
  intro e i
  have hstart : Climbed index [] e.context? := ⟨.nil, by simp, by simp⟩
  exact namedContext?_ne_cyclic hacyclic hstart (Nat.lt_succ_self index.size) i

/-- From contexts that go round in a circle the search reports its owner, whatever its bound is. -/
theorem namedContext?_of_cyclic
    (hcycle : Relation.TransGen (ClimbsPast index) id id) :
    namedContext? index owner bound (some id) = .error (.cyclicReference owner) := by
  induction bound generalizing id with
  | zero =>
      rfl
  | succ bound ih =>
      obtain ⟨outer, ⟨e, he, hkind, hunnamed, hcontext⟩, hback⟩ :=
        Relation.TransGen.head'_iff.mp hcycle
      have hstep : ClimbsPast index id outer := ⟨e, he, hkind, hunnamed, hcontext⟩
      rw [namedContext?_unnamed owner bound he hkind hunnamed, hcontext]
      exact ih (Relation.TransGen.tail'_iff.mpr ⟨id, hback, hstep⟩)

/-- A bound that leaves room for every climb can be made larger. -/
theorem namedContext?_succ
    {context : Option String} {seen : List String}
    (hseen : Climbed index seen context)
    (hbound : index.size < bound + seen.length) :
    namedContext? index owner (bound + 1) context = namedContext? index owner bound context := by
  induction bound generalizing context seen with
  | zero =>
      obtain ⟨rest, hrest⟩ := hseen.exists_bound hbound
      cases hrest
  | succ bound ih =>
      cases context with
      | none =>
          rfl
      | some id =>
          by_cases hcycle : Relation.TransGen (ClimbsPast index) id id
          · rw [namedContext?_of_cyclic hcycle, namedContext?_of_cyclic hcycle]
          · cases he : index.find? id with
            | none =>
                simp [namedContext?, Index.require, he]
            | some e =>
                by_cases hnamed : e.kind = .space ∨ e.isUnnamed = false
                · rw [namedContext?_named owner _ he hnamed, namedContext?_named owner _ he hnamed]
                · obtain ⟨hkind, hunnamed⟩ : e.kind ≠ .space ∧ e.isUnnamed = true := by
                    simpa using hnamed
                  rw [namedContext?_unnamed owner _ he hkind hunnamed,
                    namedContext?_unnamed owner _ he hkind hunnamed]
                  refine ih (hseen.cons hcycle he hkind hunnamed) ?_
                  simp only [List.length_cons]
                  omega

theorem namedContext?_eq_of_le
    {context : Option String}
    (hbound : index.size + 1 ≤ bound) :
    namedContext? index owner bound context =
      namedContext? index owner (index.size + 1) context := by
  have hstart : Climbed index [] context := ⟨.nil, by simp, by simp⟩
  induction hbound with
  | refl =>
      rfl
  | step hle ih =>
      rw [namedContext?_succ hstart hle, ih]

end Search

end Namer
end TypeCatalog
