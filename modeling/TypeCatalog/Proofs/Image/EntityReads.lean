import TypeCatalog.Image.Entity
import TypeCatalog.Proofs.Image.Reads

/-!
# Reading back entities

**Rule.** What is read back from the bytes of a structure is the structure without memos and without
computed sizes, since these are not written. Every fact here is the sequence of the facts about the
fields, in the order in which the fields are written.

**Results.**
* `reads_type`: every type is read back, whatever its variant.
* `reads_entity`: every entity is read back.
-/

namespace TypeCatalog
namespace Image

theorem reads_ref
    {r : TypeRef}
    (h : (putRef r).length < 2 ^ 64) :
    Reads getRef (putRef r) r.forget :=
  (reads_text h).finish rfl

theorem reads_kind
    (k : TypeKind) :
    Reads getKind (putKind k) k := by
  refine reads_variant ?_ k.ofTag?_tag
  cases k <;> decide

theorem reads_access
    (a : Access) :
    Reads getAccess (putAccess a) a := by
  refine reads_variant ?_ a.ofTag?_tag
  cases a <;> decide

theorem reads_qualifiers
    (q : Qualifiers) :
    Reads getQualifiers (putQualifiers q) q :=
  (reads_uint8 q.bits).finish rfl

theorem reads_specifiers
    (s : Specifiers) :
    Reads getSpecifiers (putSpecifiers s) s :=
  (reads_uint32 s.bits).finish rfl

theorem reads_optionText
    {x : Option String}
    (h : (putOption putText x).length < 2 ^ 64) :
    Reads (getOption getText) (putOption putText x) x := by
  refine reads_option fun s hs => reads_text ?_
  rw [Option.mem_def.mp hs, putOption, List.length_cons] at h
  omega

section Members

theorem length_putRef
    (r : TypeRef) :
    (putRef r).length = 8 + r.name.utf8ByteSize :=
  length_putText r.name

theorem length_putMember_pos
    (m : Member) :
    0 < (putMember m).length := by
  simp only [putMember, List.length_append, length_putText]
  omega

theorem reads_member
    {m : Member}
    (h : (putMember m).length < 2 ^ 64) :
    Reads getMember (putMember m) m.forget := by
  simp only [putMember, List.append_assoc, List.length_append] at h ⊢
  refine .bind (reads_text (by omega)) ?_
  refine .bind (reads_ref (by omega)) ?_
  refine .bind (reads_kind m.kind) ?_
  refine .bind (reads_access m.access) ?_
  refine .bind (reads_uint64 m.offset) ?_
  refine .bind (reads_text (by omega)) ?_
  exact (reads_option fun v _ => reads_int64 v).finish rfl

theorem reads_members
    {ms : List Member}
    (h : (putList putMember ms).length < 2 ^ 64) :
    Reads (getList getMember) (putList putMember ms) (ms.map Member.forget) :=
  reads_list h length_putMember_pos fun _ _ => reads_member

theorem length_putBase_pos
    (b : Base) :
    0 < (putBase b).length := by
  simp only [putBase, List.length_append, length_putRef]
  omega

theorem reads_base
    {b : Base}
    (h : (putBase b).length < 2 ^ 64) :
    Reads getBase (putBase b) b.forget := by
  simp only [putBase, List.append_assoc, List.length_append] at h ⊢
  refine .bind (reads_ref (by omega)) ?_
  refine .bind (reads_access b.access) ?_
  refine .bind (reads_uint64 b.offset) ?_
  exact (reads_bool b.isVirtual).finish rfl

theorem reads_bases
    {bs : List Base}
    (h : (putList putBase bs).length < 2 ^ 64) :
    Reads (getList getBase) (putList putBase bs) (bs.map Base.forget) :=
  reads_list h length_putBase_pos fun _ _ => reads_base

end Members

section Functions

theorem length_putParameter_pos
    (p : Parameter) :
    0 < (putParameter p).length := by
  simp only [putParameter, List.length_append, length_putText]
  omega

theorem reads_parameter
    {p : Parameter}
    (h : (putParameter p).length < 2 ^ 64) :
    Reads getParameter (putParameter p) p.forget := by
  simp only [putParameter, List.append_assoc, List.length_append] at h ⊢
  refine .bind (reads_text (by omega)) ?_
  refine .bind (reads_ref (by omega)) ?_
  exact (reads_bool p.hasDefault).finish rfl

theorem reads_prototype
    {p : Prototype}
    (h : (putPrototype p).length < 2 ^ 64) :
    Reads getPrototype (putPrototype p) p.forget := by
  simp only [putPrototype, List.append_assoc, List.length_append] at h ⊢
  refine .bind (reads_list (by omega) length_putParameter_pos fun _ _ => reads_parameter) ?_
  refine .bind (reads_ref (by omega)) ?_
  exact (reads_bool p.variadic).finish rfl

theorem length_putFunction_pos
    (f : Function) :
    0 < (putFunction f).length := by
  simp only [putFunction, List.length_append, length_putText]
  omega

theorem reads_function
    {f : Function}
    (h : (putFunction f).length < 2 ^ 64) :
    Reads getFunction (putFunction f) f.forget := by
  simp only [putFunction, List.append_assoc, List.length_append] at h ⊢
  refine .bind (reads_text (by omega)) ?_
  refine .bind (reads_text (by omega)) ?_
  refine .bind (reads_qualifiers f.qualifiers) ?_
  refine .bind (reads_specifiers f.specifiers) ?_
  exact (reads_prototype (by omega)).finish rfl

end Functions

section Types

theorem reads_header
    {header : TypeHeader}
    (h : (putHeader header).length < 2 ^ 64) :
    Reads getHeader (putHeader header) header := by
  simp only [putHeader, List.append_assoc, List.length_append] at h ⊢
  refine .bind (reads_text (by omega)) ?_
  refine .bind (reads_text (by omega)) ?_
  refine .bind (reads_uint64 header.size) ?_
  refine .bind (reads_kind header.kind) ?_
  refine .bind (reads_qualifiers header.qualifiers) ?_
  exact (reads_specifiers header.specifiers).finish rfl

theorem reads_shapeTag
    (t : ShapeTag) :
    Reads (getVariant ShapeTag.ofTag?) (putVariant t.tag) t := by
  refine reads_variant ?_ ?_
  · cases t <;> decide
  · cases t <;> rfl

/-- The fields of a shape are read back by the decoder of its variant. -/
theorem reads_shape
    {shape : TypeShape}
    (h : (putShape shape).length < 2 ^ 64) :
    Reads (getShape (.of shape)) (putShape shape) shape.forget := by
  cases shape with
  | fundamental =>
      exact .pure _
  | cvQualified r =>
      exact (reads_ref h).finish rfl
  | pointer r c =>
      simp only [putShape, List.length_append] at h
      exact .bind (reads_ref (by omega)) ((reads_optionText (by omega)).finish rfl)
  | reference r =>
      exact (reads_ref h).finish rfl
  | typedef r =>
      exact (reads_ref h).finish rfl
  | array r n =>
      simp only [putShape, List.length_append] at h
      exact .bind (reads_ref (by omega)) ((reads_uint64 n).finish rfl)
  | record key members bases =>
      simp only [putShape, List.length_append] at h
      cases key with
      | structKey =>
          exact .bind (reads_members (by omega)) ((reads_bases (by omega)).finish rfl)
      | classKey =>
          exact .bind (reads_members (by omega)) ((reads_bases (by omega)).finish rfl)
  | enumeration members =>
      exact (reads_members h).finish rfl
  | union members computed =>
      exact (reads_members h).finish rfl
  | function p =>
      exact (reads_prototype h).finish rfl

theorem reads_type
    {t : DataType}
    (h : (putType t).length < 2 ^ 64) :
    Reads getType (putType t) t.forget := by
  simp only [putType, List.append_assoc, List.length_append] at h ⊢
  refine .bind (reads_shapeTag (.of t.shape)) ?_
  refine .bind (reads_header (by omega)) ?_
  exact (reads_shape (by omega)).finish rfl

end Types

section Entities

theorem reads_namespace
    {n : Namespace}
    (h : (putNamespace n).length < 2 ^ 64) :
    Reads getNamespace (putNamespace n) n := by
  simp only [putNamespace, List.append_assoc, List.length_append] at h ⊢
  refine .bind (reads_text (by omega)) ?_
  refine .bind (reads_text (by omega)) ?_
  exact (reads_optionText (by omega)).finish rfl

theorem reads_overloads
    {o : OverloadSet}
    (h : (putOverloads o).length < 2 ^ 64) :
    Reads getOverloads (putOverloads o) o.forget := by
  simp only [putOverloads, List.append_assoc, List.length_append] at h ⊢
  refine .bind (reads_text (by omega)) ?_
  refine .bind (reads_text (by omega)) ?_
  exact (reads_list (by omega) length_putFunction_pos fun _ _ => reads_function).finish rfl

theorem reads_variable
    {v : Variable}
    (h : (putVariable v).length < 2 ^ 64) :
    Reads getVariable (putVariable v) { v with type := v.type.forget } := by
  simp only [putVariable, List.append_assoc, List.length_append] at h ⊢
  refine .bind (reads_text (by omega)) ?_
  refine .bind (reads_text (by omega)) ?_
  refine .bind (reads_ref (by omega)) ?_
  exact (reads_specifiers v.specifiers).finish rfl

theorem length_putVariant
    (n : Nat) :
    (putVariant n).length = 4 :=
  length_littleEndian 4 _

theorem length_putEntity_pos
    (e : Entity) :
    0 < (putEntity e).length := by
  cases e <;> simp only [putEntity, List.length_append, length_putVariant] <;> omega

/-- An entity is read back without memos and without computed sizes. -/
theorem reads_entity
    {e : Entity}
    (h : (putEntity e).length < 2 ^ 64) :
    Reads getEntity (putEntity e) e.forget := by
  cases e with
  | ofNamespace n =>
      simp only [putEntity, List.length_append] at h
      exact .bind (reads_uint32 0) ((reads_namespace (by omega)).finish rfl)
  | ofFunction f =>
      simp only [putEntity, List.length_append] at h
      exact .bind (reads_uint32 1) ((reads_function (by omega)).finish rfl)
  | ofOverloads o =>
      simp only [putEntity, List.length_append] at h
      exact .bind (reads_uint32 2) ((reads_overloads (by omega)).finish rfl)
  | ofVariable v =>
      simp only [putEntity, List.length_append] at h
      exact .bind (reads_uint32 3) ((reads_variable (by omega)).finish rfl)
  | ofMember m =>
      simp only [putEntity, List.length_append] at h
      exact .bind (reads_uint32 4) ((reads_member (by omega)).finish rfl)
  | ofType t =>
      simp only [putEntity, List.length_append] at h
      exact .bind (reads_uint32 5) ((reads_type (by omega)).finish rfl)

end Entities

end Image
end TypeCatalog
