import TypeCatalog.Proofs.Catalog.Run

/-!
# The numbers of slots stay valid

**Input.** Any sequence of actions, queries and replacements included, each of which may fail.

**Rule.** A step changes entities in place and then opens slots at the end, for keys that were
vacant. So the index changes for these keys only, and no slot moves or gets another key.

**Results.**
* `Extends.retains`: what a step does keeps every name at its slot.
* `retains_foldl_after`: so does a whole run.
-/

namespace TypeCatalog
namespace Catalog

/-- Every name of the first catalog has its slot in the second, and every slot has its key there. -/
structure Retains
    (c c' : Catalog) :
    Prop where
  index : ∀ {name : String} {i : Nat}, c.indexOf? name = some i → c'.indexOf? name = some i
  keys : c.keys <+: c'.keys

namespace Retains

theorem refl
    (c : Catalog) :
    Retains c c :=
  ⟨id, List.prefix_rfl⟩

theorem trans
    {c d e : Catalog}
    (h : Retains c d) (h' : Retains d e) :
    Retains c e :=
  ⟨fun hi => h'.index (h.index hi), h.keys.trans h'.keys⟩

theorem size_le
    {c c' : Catalog}
    (h : Retains c c') :
    c.size ≤ c'.size := by
  have hle := h.keys.length_le
  rwa [length_keys, length_keys] at hle

theorem exists_slot
    {c c' : Catalog} {i : Nat} {slot : Slot}
    (h : Retains c c')
    (hslot : c.slots[i]? = some slot) :
    ∃ e, c'.slots[i]? = some ⟨slot.key, e⟩ := by
  have hkey : c.keys[i]? = some slot.key := keys_getElem?_eq_some_iff.mpr ⟨slot, hslot, rfl⟩
  obtain ⟨added, hadded⟩ := h.keys
  have hlt : i < c.keys.length := (List.getElem?_eq_some_iff.mp hkey).1
  have hfront : (c.keys ++ added)[i]? = c.keys[i]? := List.getElem?_append_left hlt
  rw [← hfront, hadded] at hkey
  obtain ⟨found, hfound, hsame⟩ := keys_getElem?_eq_some_iff.mp hkey
  exact ⟨found.entity, by rw [hfound, ← hsame]⟩

end Retains

theorem indexOf?_pushAll_of_not_mem
    (c : Catalog) {entries : List (String × Entity)} {name : String}
    (h : name ∉ entries.map Prod.fst) :
    (c.pushAll entries).indexOf? name = c.indexOf? name := by
  induction entries generalizing c with
  | nil =>
      rfl
  | cons p entries ih =>
      simp only [List.map_cons, List.mem_cons, not_or] at h
      have hpush := ih (c.push p.1 p.2) h.2
      rw [indexOf?_push, if_neg (Ne.symm h.1)] at hpush
      exact hpush

/-- Slots are opened for vacant keys only, so every name in the index stays where it is. -/
theorem Extends.retains
    {c c' : Catalog} {added : List String}
    (h : c.Extends added c') :
    Retains c c' := by
  have hkeys := h.keys_eq
  obtain ⟨d, entries, hd, rfl, rfl, hvacant⟩ := h
  refine ⟨?_, hkeys ▸ List.prefix_append c.keys _⟩
  intro name i hi
  have hfresh : name ∉ entries.map Prod.fst := by
    intro hmem
    have hnone := hvacant name hmem
    simp [isVacant, hi] at hnone
  rw [indexOf?_pushAll_of_not_mem d hfresh, hd.indexOf?_eq, hi]

end Catalog

open Catalog

theorem Trace.retains
    {c c' : Catalog} {steps : List Step}
    (h : Trace c steps c') :
    Retains c c' := by
  induction h with
  | nil c =>
      exact .refl c
  | cons hstep _ ih =>
      obtain ⟨added, -, hext⟩ := Step.extends_of_ok hstep
      exact hext.retains.trans ih

namespace Catalog

theorem retains_after
    (c : Catalog) (a : Action) :
    Retains c (c.after a) := by
  obtain ⟨steps, htrace, -⟩ := exists_trace_after c a
  exact htrace.retains

/-- Whatever is done to a catalog, its names and slots stay where they are. -/
theorem retains_foldl_after
    (c : Catalog) (actions : List Action) :
    Retains c (actions.foldl after c) := by
  induction actions generalizing c with
  | nil =>
      exact .refl c
  | cons a actions ih =>
      exact (retains_after c a).trans (ih (c.after a))

theorem run_append
    (before later : List Action) :
    run (before ++ later) = later.foldl after (run before) :=
  List.foldl_append

end Catalog
end TypeCatalog
