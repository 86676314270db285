import TypeCatalog.Proofs.Spelling.ElementPlan
import TypeCatalog.Registration.Layout

/-!
# Kinds and sizes as a document states them

**Input.** The index of a document, and the id of a type.

**Rule.** The kind of a type is its own, or that of the type it qualifies. The size of a type is its
own, that of its target, or, for an array without a stated size, a multiple of its element's size.
`HasKind` and `HasSize` follow these rules to the end, without a bound on the way and without regard
to where the id was found.

**Results.**
* `HasKind.unique`, `HasSize.unique`: an id has at most one kind and one size.
* `hasKind_of_kindWithin`, `hasSize_of_sizeWithin`: what a walk computes is that kind and that size.
-/

namespace TypeCatalog
namespace Layout

/-- What the kind of a type is taken from. -/
inductive KindRule where
  | own (kind : TypeKind)
  | sameAs (id : String)

/-- What the size of a type is taken from. -/
inductive SizeRule where
  | own (size : UInt64)
  | sameAs (id : String)
  | times (length : UInt64) (id : String)

/-- The rule for the kind of the type that an element describes. -/
def elementKindRule?
    (e : Element) :
    Option KindRule :=
  match e.kind with
  | .cvQualified => (e.attr? "type").map .sameAs
  | .fundamental => (builtinKind e.name).toOption.map .own
  | .pointer | .offset => some (.own .pointer)
  | .reference => some (.own .lvalueReference)
  | .classRecord | .structRecord | .unionRecord => some (.own .record)
  | .enumeration => some (.own .enumeration)
  | .typedef => some (.own .typedef)
  | .array => some (.own .constantArray)
  | .functionType | .methodType => some (.own .functionProto)
  | _ => some (.own .unexposed)

/-- The rule for the size of an array. -/
def arraySizeRule?
    (e : Element) :
    Option SizeRule :=
  (e.uint "size").toOption.bind fun bits =>
    if bytesOfBits bits = 0 then
      e.arrayLength.toOption.bind fun length => (e.attr? "type").map (.times (length.getD 0))
    else some (.own (bytesOfBits bits))

/-- The rule for the size of the type that an element describes. -/
def elementSizeRule?
    (machine : UInt64) (e : Element) :
    Option SizeRule :=
  match e.kind with
  | .cvQualified | .typedef => (e.attr? "type").map .sameAs
  | .functionType | .methodType => some (.own 0)
  | .pointer | .reference | .offset => (pointerSize machine e).toOption.map .own
  | .array => arraySizeRule? e
  | _ => (e.uint "size").toOption.map fun bits => .own (bytesOfBits bits)

section Rules

variable (index : Index) (machine : UInt64)

/-- The rule for the kind of an id; an undefined id has the kind of the id that it qualifies. -/
def kindRule?
    (id : String) :
    Option KindRule :=
  match index.find? id with
  | none => (Spelling.qualifiedId? id).map fun p => .sameAs p.1
  | some e => elementKindRule? e

/-- The rule for the size of an id; an undefined id has the size of the id that it qualifies. -/
def sizeRule?
    (id : String) :
    Option SizeRule :=
  match index.find? id with
  | none => (Spelling.qualifiedId? id).map fun p => .sameAs p.1
  | some e => elementSizeRule? machine e

/-- The type of an id has a kind. -/
inductive HasKind :
    String → TypeKind → Prop
  | own
      {id : String} {k : TypeKind}
      (h : kindRule? index id = some (.own k)) :
      HasKind id k
  | sameAs
      {id target : String} {k : TypeKind}
      (h : kindRule? index id = some (.sameAs target))
      (htarget : HasKind target k) :
      HasKind id k

/-- The type of an id has a size. -/
inductive HasSize :
    String → UInt64 → Prop
  | own
      {id : String} {n : UInt64}
      (h : sizeRule? index machine id = some (.own n)) :
      HasSize id n
  | sameAs
      {id target : String} {n : UInt64}
      (h : sizeRule? index machine id = some (.sameAs target))
      (htarget : HasSize target n) :
      HasSize id n
  | times
      {id element : String} {length n : UInt64}
      (h : sizeRule? index machine id = some (.times length element))
      (helement : HasSize element n) :
      HasSize id (saturatingMul n length)

end Rules

section Uniqueness

variable {index : Index} {machine : UInt64} {id : String}

theorem HasKind.unique
    {k k' : TypeKind}
    (h : HasKind index id k)
    (h' : HasKind index id k') :
    k = k' := by
  induction h with
  | own hrule =>
      cases h' with
      | own hrule' =>
          rw [hrule] at hrule'
          cases hrule'
          rfl
      | sameAs hrule' _ =>
          rw [hrule] at hrule'
          cases hrule'
  | sameAs hrule _ ih =>
      cases h' with
      | own hrule' =>
          rw [hrule] at hrule'
          cases hrule'
      | sameAs hrule' htarget =>
          rw [hrule] at hrule'
          cases hrule'
          exact ih htarget

theorem HasSize.unique
    {n n' : UInt64}
    (h : HasSize index machine id n)
    (h' : HasSize index machine id n') :
    n = n' := by
  induction h generalizing n' with
  | own hrule =>
      cases h' with
      | own hrule' =>
          rw [hrule] at hrule'
          cases hrule'
          rfl
      | _ hrule' _ =>
          rw [hrule] at hrule'
          cases hrule'
  | sameAs hrule _ ih =>
      cases h' with
      | sameAs hrule' htarget =>
          rw [hrule] at hrule'
          cases hrule'
          exact ih htarget
      | _ hrule' =>
          rw [hrule] at hrule'
          cases hrule'
  | times hrule _ ih =>
      cases h' with
      | times hrule' helement =>
          rw [hrule] at hrule'
          cases hrule'
          rw [ih helement]
      | _ hrule' =>
          rw [hrule] at hrule'
          cases hrule'

end Uniqueness

section Steps

variable {index : Index} {machine : UInt64} {id : String}

theorem kindRule?_of_find
    {e : Element}
    (h : index.find? id = some e) :
    kindRule? index id = elementKindRule? e := by
  rw [kindRule?, h]

theorem kindRule?_of_undefined
    {base : String} {q : Qualifiers}
    (h : index.find? id = none)
    (hbase : Spelling.qualifiedId? id = some (base, q)) :
    kindRule? index id = some (.sameAs base) := by
  rw [kindRule?, h]
  simp [hbase]

theorem sizeRule?_of_find
    {e : Element}
    (h : index.find? id = some e) :
    sizeRule? index machine id = elementSizeRule? machine e := by
  rw [sizeRule?, h]

theorem sizeRule?_of_undefined
    {base : String} {q : Qualifiers}
    (h : index.find? id = none)
    (hbase : Spelling.qualifiedId? id = some (base, q)) :
    sizeRule? index machine id = some (.sameAs base) := by
  rw [sizeRule?, h]
  simp [hbase]

end Steps

section Walks

variable {index : Index} {machine : UInt64} {referrer id : String} {depth : Nat}

theorem qualifiedBase_eq_ok
    {base : String}
    (h : qualifiedBase id referrer = .ok base) :
    ∃ q, Spelling.qualifiedId? id = some (base, q) := by
  unfold qualifiedBase at h
  split at h
  · next q hq =>
      cases h
      exact ⟨q, hq⟩
  · cases h

/-- One step of the walk to the kind of an id. -/
theorem kindWithin_eq_ok
    {k : TypeKind}
    (h : kindWithin index referrer (depth + 1) id = .ok k) :
    kindRule? index id = some (.own k) ∨
      ∃ target, kindRule? index id = some (.sameAs target) ∧
        kindWithin index referrer depth target = .ok k := by
  simp only [kindWithin] at h
  split at h
  · next hundefined =>
      split at h
      · cases h
      · next base hbase =>
          obtain ⟨q, hq⟩ := qualifiedBase_eq_ok hbase
          exact .inr ⟨base, kindRule?_of_undefined hundefined hq, h⟩
  · next e he =>
      rw [kindRule?_of_find he, elementKindRule?]
      cases hkind : e.kind with
      | cvQualified =>
          simp only [hkind] at h
          split at h
          · cases h
          · next target htarget =>
              rw [Namer.required_eq_ok_iff] at htarget
              exact .inr ⟨target, by simp [htarget], h⟩
      | fundamental =>
          simp only [hkind] at h
          exact .inl (by simp [h, Except.toOption])
      | _ =>
          simp only [hkind] at h
          cases h
          exact .inl rfl

/-- A computation that goes on from another and succeeds has a value to go on from. -/
theorem exists_of_bind_eq_ok
    {α β : Type} {x : Except DocumentError α} {f : α → Except DocumentError β} {b : β}
    (h : x >>= f = .ok b) :
    ∃ a, x = .ok a ∧ f a = .ok b := by
  cases x with
  | error err =>
      cases h
  | ok a =>
      exact ⟨a, rfl, h⟩

/-- One step of the walk to the size of an array. -/
theorem arraySize_eq_ok
    {e : Element} {walk : String → Except DocumentError UInt64} {n : UInt64}
    (h : (do
      let size := bytesOfBits (← e.uint "size")
      if size = 0 then
        let length := (← e.arrayLength).getD 0
        let element ← walk (← e.required "type")
        return saturatingMul element length
      else return size) = .ok n) :
    arraySizeRule? e = some (.own n) ∨
      ∃ length target m, arraySizeRule? e = some (.times length target) ∧ walk target = .ok m ∧
        n = saturatingMul m length := by
  obtain ⟨bits, hbits, h⟩ := exists_of_bind_eq_ok h
  dsimp only at h
  split at h
  · next hzero =>
      obtain ⟨length, hlength, h⟩ := exists_of_bind_eq_ok h
      obtain ⟨target, htarget, h⟩ := exists_of_bind_eq_ok h
      obtain ⟨m, hm, h⟩ := exists_of_bind_eq_ok h
      rw [Namer.required_eq_ok_iff] at htarget
      cases h
      refine .inr ⟨length.getD 0, target, m, ?_, hm, rfl⟩
      simp [arraySizeRule?, hbits, hzero, hlength, htarget, Except.toOption]
  · next hstated =>
      cases h
      refine .inl ?_
      simp [arraySizeRule?, hbits, hstated, Except.toOption]

/-- One step of the walk to the size of an id. -/
theorem sizeWithin_eq_ok
    {n : UInt64}
    (h : sizeWithin index machine (depth + 1) id referrer = .ok n) :
    sizeRule? index machine id = some (.own n) ∨
      (∃ target referrer', sizeRule? index machine id = some (.sameAs target) ∧
        sizeWithin index machine depth target referrer' = .ok n) ∨
      ∃ length target m referrer', sizeRule? index machine id = some (.times length target) ∧
        sizeWithin index machine depth target referrer' = .ok m ∧ n = saturatingMul m length := by
  simp only [sizeWithin] at h
  split at h
  · next hundefined =>
      split at h
      · cases h
      · next base hbase =>
          obtain ⟨q, hq⟩ := qualifiedBase_eq_ok hbase
          exact .inr (.inl ⟨base, referrer, sizeRule?_of_undefined hundefined hq, h⟩)
  · next e he =>
      have hstated : (do return bytesOfBits (← e.uint "size")) = .ok n →
          (e.uint "size").toOption.map (fun bits => SizeRule.own (bytesOfBits bits)) =
            some (.own n) := by
        intro hsize
        obtain ⟨bits, hbits, hsize⟩ := exists_of_bind_eq_ok hsize
        cases hsize
        simp [hbits, Except.toOption]
      rw [sizeRule?_of_find he, elementSizeRule?]
      cases hkind : e.kind with
      | cvQualified | typedef =>
          simp only [hkind] at h
          split at h
          · cases h
          · next target htarget =>
              rw [Namer.required_eq_ok_iff] at htarget
              exact .inr (.inl ⟨target, e.id, by simp [htarget], h⟩)
      | functionType | methodType =>
          simp only [hkind] at h
          cases h
          exact .inl rfl
      | pointer | reference | offset =>
          simp only [hkind] at h
          exact .inl (by simp [h, Except.toOption])
      | array =>
          simp only [hkind] at h
          rcases arraySize_eq_ok h with hown | ⟨length, target, m, hrule, hm, rfl⟩
          · exact .inl hown
          · exact .inr (.inr ⟨length, target, m, e.id, hrule, hm, rfl⟩)
      | _ =>
          simp only [hkind] at h
          exact .inl (hstated h)

theorem hasKind_of_kindWithin
    {k : TypeKind}
    (h : kindWithin index referrer depth id = .ok k) :
    HasKind index id k := by
  induction depth generalizing id with
  | zero =>
      cases h
  | succ depth ih =>
      rcases kindWithin_eq_ok h with hown | ⟨target, hrule, htarget⟩
      · exact .own hown
      · exact .sameAs hrule (ih htarget)

theorem hasSize_of_sizeWithin
    {n : UInt64}
    (h : sizeWithin index machine depth id referrer = .ok n) :
    HasSize index machine id n := by
  induction depth generalizing id referrer n with
  | zero =>
      cases h
  | succ depth ih =>
      rcases sizeWithin_eq_ok h with
        hown | ⟨target, _, hrule, htarget⟩ | ⟨length, target, m, _, hrule, htarget, rfl⟩
      · exact .own hown
      · exact .sameAs hrule (ih htarget)
      · exact .times hrule (ih htarget)

end Walks

end Layout
end TypeCatalog
