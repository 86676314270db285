import Mathlib.Data.String.Basic
import TypeCatalog.Image.Bytes

/-!
# Reading back plain values

**Notion.** `Reads get bytes x` says that the decoder `get` takes exactly `bytes` from the front of
any input that begins with them, and gives `x`. It composes along the sequencing of decoders, so a
structure is read back because its fields are.

**Bound.** A length has 64 bits. So texts and lists are read back when their bytes are fewer than
`2 ^ 64`; above that the stated length is not the true one.

**Results.** One fact per encoder: `reads_text`, `reads_option`, `reads_list` and their like.
-/

namespace TypeCatalog
namespace Image

/-- The decoder takes exactly these bytes from the front of an input and gives this value. -/
def Reads
    {α : Type} (get : Decoder α) (bytes : List UInt8) (x : α) :
    Prop :=
  ∀ rest, get.run (bytes ++ rest) = .ok (x, rest)

namespace Reads

variable {α β : Type}

theorem pure
    (x : α) :
    Reads (Pure.pure x) [] x :=
  fun _ => rfl

theorem bind
    {get : Decoder α} {next : α → Decoder β} {front back : List UInt8} {x : α} {y : β}
    (h : Reads get front x)
    (h' : Reads (next x) back y) :
    Reads (get >>= next) (front ++ back) y := by
  intro rest
  have hrun : (get >>= next).run (front ++ back ++ rest) =
      (get.run (front ++ (back ++ rest))).bind fun p => (next p.1).run p.2 := by
    rw [List.append_assoc]
    rfl
  rw [hrun, h (back ++ rest)]
  exact h' rest

/-- Nothing is read after the value. -/
theorem finish
    {get : Decoder α} {next : α → Decoder β} {bytes : List UInt8} {x : α} {y : β}
    (h : Reads get bytes x)
    (hnext : next x = Pure.pure y) :
    Reads (get >>= next) bytes y := by
  have hread : Reads (next x) [] y := by
    rw [hnext]
    exact .pure y
  have hbind := h.bind hread
  rwa [List.append_nil] at hbind

end Reads

section Numbers

@[simp] theorem length_littleEndian
    (width n : Nat) :
    (littleEndian width n).length = width := by
  induction width generalizing n with
  | zero =>
      rfl
  | succ width ih =>
      simp [littleEndian, ih]

/-- The bytes of a number give back what fits in them. -/
theorem ofLittleEndian_littleEndian
    (width n : Nat) :
    ofLittleEndian (littleEndian width n) = n % 256 ^ width := by
  induction width generalizing n with
  | zero =>
      simp [littleEndian, ofLittleEndian, Nat.mod_one]
  | succ width ih =>
      rw [littleEndian, ofLittleEndian, ih, Nat.pow_succ', Nat.mod_mul]
      simp

theorem reads_bytes
    {n : Nat} {bytes : List UInt8}
    (h : bytes.length = n) :
    Reads (getBytes n) bytes bytes := by
  intro rest
  have hsplit : splitFront n (bytes ++ rest) = some (bytes, rest) :=
    splitFront_eq_some_iff.mpr ⟨rfl, h⟩
  simp [getBytes, StateT.run, hsplit]

/-- Bytes that are read are as many as were asked for, from the front of the input. -/
theorem getBytes_eq_ok
    {n : Nat} {input bytes rest : List UInt8}
    (h : (getBytes n).run input = .ok (bytes, rest)) :
    input = bytes ++ rest ∧ bytes.length = n := by
  apply splitFront_eq_some_iff.mp
  simp only [getBytes, StateT.run] at h
  split at h
  · next found hfound =>
      rw [hfound, Except.ok.inj h]
  · cases h

theorem reads_uint8
    (n : UInt8) :
    Reads getUInt8 (putUInt8 n) n :=
  fun _ => rfl

theorem reads_uint32
    (n : UInt32) :
    Reads getUInt32 (putUInt32 n) n := by
  have hlt : n.toNat < 256 ^ 4 := n.toNat_lt
  refine (reads_bytes (length_littleEndian 4 n.toNat)).finish ?_
  rw [ofLittleEndian_littleEndian, Nat.mod_eq_of_lt hlt, UInt32.ofNat_toNat]

theorem reads_uint64
    (n : UInt64) :
    Reads getUInt64 (putUInt64 n) n := by
  have hlt : n.toNat < 256 ^ 8 := n.toNat_lt
  refine (reads_bytes (length_littleEndian 8 n.toNat)).finish ?_
  rw [ofLittleEndian_littleEndian, Nat.mod_eq_of_lt hlt, UInt64.ofNat_toNat]

theorem reads_int64
    (n : Int64) :
    Reads getInt64 (putInt64 n) n := by
  refine (reads_uint64 n.toUInt64).finish ?_
  rw [Int64.toInt64_toUInt64]

theorem reads_bool
    (b : Bool) :
    Reads getBool (putBool b) b := by
  cases b <;> exact fun _ => rfl

theorem reads_length
    {n : Nat}
    (h : n < 2 ^ 64) :
    Reads getLength (putLength n) n := by
  refine (reads_uint64 (UInt64.ofNat n)).finish ?_
  rw [UInt64.toNat_ofNat_of_lt' h]

theorem reads_variant
    {α : Type} {ofTag? : Nat → Option α} {n : Nat} {x : α}
    (h : n < 2 ^ 32)
    (htag : ofTag? n = some x) :
    Reads (getVariant ofTag?) (putVariant n) x := by
  refine (reads_uint32 (UInt32.ofNat n)).finish ?_
  rw [UInt32.toNat_ofNat_of_lt' h, htag]

end Numbers

section Texts

theorem toList_loop_eq
    (bytes : ByteArray) (i : Nat) (front : List UInt8) :
    ByteArray.toList.loop bytes i front = front.reverse ++ bytes.data.toList.drop i := by
  fun_induction ByteArray.toList.loop bytes i front with
  | case1 i front hi ih =>
      have hlt : i < bytes.data.toList.length := by simpa using hi
      rw [ih, List.drop_eq_getElem_cons hlt]
      simp [ByteArray.get!, hi]
  | case2 i front hi =>
      rw [List.drop_eq_nil_of_le (by simpa using Nat.le_of_not_lt hi)]
      simp

theorem toList_toUTF8
    (s : String) :
    s.toUTF8.toList = s.toByteArray.data.toList := by
  rw [ByteArray.toList, toList_loop_eq]
  simp

theorem length_toUTF8
    (s : String) :
    s.toUTF8.toList.length = s.utf8ByteSize := by
  rw [toList_toUTF8, Array.length_toList]
  rfl

theorem fromUTF8?_toUTF8
    (s : String) :
    String.fromUTF8? ⟨s.toUTF8.toList.toArray⟩ = some s := by
  have hbytes : (⟨s.toUTF8.toList.toArray⟩ : ByteArray) = s.toByteArray := by
    rw [toList_toUTF8]
  rw [hbytes, String.fromUTF8?, dif_pos s.isValidUTF8]
  rfl

@[simp] theorem length_putText
    (s : String) :
    (putText s).length = 8 + s.utf8ByteSize := by
  rw [putText, List.length_append, length_toUTF8, putLength, putUInt64, length_littleEndian]

theorem reads_text
    {s : String}
    (h : (putText s).length < 2 ^ 64) :
    Reads getText (putText s) s := by
  rw [length_putText] at h
  refine .bind (reads_length (by omega)) ?_
  refine (reads_bytes (length_toUTF8 s)).finish ?_
  rw [fromUTF8?_toUTF8]

end Texts

section Collections

variable {α : Type}

theorem reads_option
    {get : Decoder α} {put : α → List UInt8} {x : Option α}
    (h : ∀ a ∈ x, Reads get (put a) a) :
    Reads (getOption get) (putOption put x) x := by
  cases x with
  | none =>
      exact (reads_uint8 0).finish rfl
  | some a =>
      exact (reads_uint8 1).bind ((h a rfl).finish rfl)

theorem reads_items
    {get : Decoder α} {put : α → List UInt8} {view : α → α} {xs : List α}
    (h : ∀ x ∈ xs, Reads get (put x) (view x)) :
    Reads (getItems get xs.length) (xs.flatMap put) (xs.map view) := by
  induction xs with
  | nil =>
      exact .pure []
  | cons x xs ih =>
      rw [List.flatMap_cons]
      refine .bind (h x (by simp)) ?_
      exact (ih fun y hy => h y (List.mem_cons_of_mem x hy)).finish rfl

theorem length_le_flatMap
    {put : α → List UInt8} {xs : List α}
    (hput : ∀ x ∈ xs, 0 < (put x).length) :
    xs.length ≤ (xs.flatMap put).length := by
  induction xs with
  | nil =>
      simp
  | cons x xs ih =>
      have hx := hput x (by simp)
      have hxs := ih fun y hy => hput y (List.mem_cons_of_mem x hy)
      simp only [List.length_cons, List.flatMap_cons, List.length_append]
      omega

theorem length_le_putList_of_mem
    {f : α → List UInt8} {xs : List α} {x : α}
    (hx : x ∈ xs) :
    (f x).length ≤ (putList f xs).length := by
  have hle : (f x).length ≤ (xs.flatMap f).length := by
    induction xs with
    | nil =>
        simp at hx
    | cons y ys ih =>
        simp only [List.flatMap_cons, List.length_append]
        rcases List.mem_cons.mp hx with rfl | hx
        · omega
        · have := ih hx
          omega
  simp only [putList, List.length_append]
  omega

/-- A list is read back item by item. No item is empty, so the list has fewer items than bytes. -/
theorem reads_list
    {get : Decoder α} {put : α → List UInt8} {view : α → α} {xs : List α}
    (hlen : (putList put xs).length < 2 ^ 64)
    (hput : ∀ x, 0 < (put x).length)
    (h : ∀ x ∈ xs, (put x).length < 2 ^ 64 → Reads get (put x) (view x)) :
    Reads (getList get) (putList put xs) (xs.map view) := by
  have hcount : xs.length < 2 ^ 64 := by
    have hle := length_le_flatMap fun x (_ : x ∈ xs) => hput x
    simp only [putList, List.length_append] at hlen
    omega
  refine .bind (reads_length hcount) (reads_items fun x hx => h x hx ?_)
  exact Nat.lt_of_le_of_lt (length_le_putList_of_mem hx) hlen

end Collections

end Image
end TypeCatalog
