/-!
# Bytes of plain values

**Format.** Integers have a fixed width and their lowest byte first. A truth value is one byte. A
text is the number of its UTF-8 bytes, then the bytes. An optional value is one byte, then the value
if there is one. A list is its length, then its items. Lengths have 64 bits.

**Algorithm.** A decoder takes what it needs from the front of the bytes and gives the value with
the rest; the first problem from the left is the outcome.

**Results.**
* `splitFront_eq_some_iff`: taking bytes from the front loses none.
-/

namespace TypeCatalog
namespace Image

/-- Why bytes cannot be decoded. -/
inductive CodecError where
  /-- The input ends too early. -/
  | endOfInput
  /-- A text is not UTF-8. -/
  | invalidUtf8
  /-- A truth value is neither zero nor one. -/
  | invalidBool
  /-- The mark of an optional value is neither zero nor one. -/
  | invalidOption
  /-- The number of a variant is out of range. -/
  | invalidVariant
deriving DecidableEq

/-- Takes a value from the front of the bytes. -/
abbrev Decoder (α : Type) := StateT (List UInt8) (Except CodecError) α

/-- The `width` lowest bytes of a number, the lowest first. -/
def littleEndian : Nat → Nat → List UInt8
  | 0, _ => []
  | width + 1, n => UInt8.ofNat n :: littleEndian width (n / 256)

/-- The number with the given bytes, the lowest first. -/
def ofLittleEndian : List UInt8 → Nat
  | [] => 0
  | b :: bs => b.toNat + 256 * ofLittleEndian bs

/-- The bytes of a byte. -/
def putUInt8 (n : UInt8) : List UInt8 := [n]

/-- The bytes of a 32-bit number. -/
def putUInt32 (n : UInt32) : List UInt8 := littleEndian 4 n.toNat

/-- The bytes of a 64-bit number. -/
def putUInt64 (n : UInt64) : List UInt8 := littleEndian 8 n.toNat

/-- The bytes of a signed 64-bit number. -/
def putInt64 (n : Int64) : List UInt8 := putUInt64 n.toUInt64

/-- The bytes of a truth value. -/
def putBool (b : Bool) : List UInt8 := [if b then 1 else 0]

/-- The length of a list or text. -/
def putLength (n : Nat) : List UInt8 := putUInt64 (UInt64.ofNat n)

/-- The number of a variant. -/
def putVariant (n : Nat) : List UInt8 := putUInt32 (UInt32.ofNat n)

/-- The bytes of a text. -/
def putText (s : String) : List UInt8 := putLength s.utf8ByteSize ++ s.toUTF8.toList

/-- The bytes of an optional value. -/
def putOption {α : Type} (put : α → List UInt8) : Option α → List UInt8
  | none => [0]
  | some x => 1 :: put x

/-- The bytes of a list. -/
def putList {α : Type} (put : α → List UInt8) (xs : List α) : List UInt8 :=
  putLength xs.length ++ xs.flatMap put

/-- The first `n` bytes and the rest, if there are as many. -/
def splitFront : Nat → List UInt8 → Option (List UInt8 × List UInt8)
  | 0, bs => some ([], bs)
  | _ + 1, [] => none
  | n + 1, b :: bs => (splitFront n bs).map fun (front, rest) => (b :: front, rest)

/-- The next `n` bytes. -/
def getBytes (n : Nat) : Decoder (List UInt8) := fun bs =>
  match splitFront n bs with
  | some found => .ok found
  | none => .error .endOfInput

/-- Reads a byte. -/
def getUInt8 : Decoder UInt8 := fun bs =>
  match bs with
  | [] => .error .endOfInput
  | b :: rest => .ok (b, rest)

/-- Reads a 32-bit number. -/
def getUInt32 : Decoder UInt32 := do return UInt32.ofNat (ofLittleEndian (← getBytes 4))

/-- Reads a 64-bit number. -/
def getUInt64 : Decoder UInt64 := do return UInt64.ofNat (ofLittleEndian (← getBytes 8))

/-- Reads a signed 64-bit number. -/
def getInt64 : Decoder Int64 := do return (← getUInt64).toInt64

/-- Reads a truth value. -/
def getBool : Decoder Bool := do
  match ← getUInt8 with
  | 0 => return false
  | 1 => return true
  | _ => throw .invalidBool

/-- Reads a length. -/
def getLength : Decoder Nat := do return (← getUInt64).toNat

/-- The number of a variant, which must have a meaning. -/
def getVariant {α : Type} (ofTag? : Nat → Option α) : Decoder α := do
  match ofTag? (← getUInt32).toNat with
  | some x => return x
  | none => throw .invalidVariant

/-- Reads a text. -/
def getText : Decoder String := do
  let bytes ← getBytes (← getLength)
  match String.fromUTF8? ⟨bytes.toArray⟩ with
  | some s => return s
  | none => throw .invalidUtf8

/-- Reads an optional value. -/
def getOption {α : Type} (get : Decoder α) : Decoder (Option α) := do
  match ← getUInt8 with
  | 0 => return none
  | 1 => return some (← get)
  | _ => throw .invalidOption

/-- The given number of items. -/
def getItems {α : Type} (get : Decoder α) : Nat → Decoder (List α)
  | 0 => return []
  | n + 1 => do
      let x ← get
      let xs ← getItems get n
      return x :: xs

/-- Reads a list. -/
def getList {α : Type} (get : Decoder α) : Decoder (List α) := do getItems get (← getLength)

/-- A split gives the bytes back, and the front has the length asked for. -/
theorem splitFront_eq_some_iff {n : Nat} {bs front rest : List UInt8} :
    splitFront n bs = some (front, rest) ↔ bs = front ++ rest ∧ front.length = n := by
  induction n generalizing bs front with
  | zero =>
    simp only [splitFront, Option.some.injEq, Prod.mk.injEq, List.length_eq_zero_iff]
    constructor
    · rintro ⟨rfl, rfl⟩
      exact ⟨rfl, rfl⟩
    · rintro ⟨rfl, rfl⟩
      exact ⟨rfl, rfl⟩
  | succ n ih =>
    cases bs with
    | nil =>
      simp only [splitFront, reduceCtorEq, false_iff]
      rintro ⟨h, hlen⟩
      have := congrArg List.length h
      simp at this
      omega
    | cons b bs =>
      simp only [splitFront, Option.map_eq_some_iff, Prod.exists, Prod.mk.injEq]
      constructor
      · rintro ⟨f, r, hfr, rfl, rfl⟩
        obtain ⟨rfl, hlen⟩ := ih.mp hfr
        exact ⟨rfl, by simp [hlen]⟩
      · rintro ⟨h, hlen⟩
        cases front with
        | nil => simp at hlen
        | cons c front =>
          obtain ⟨rfl, rfl⟩ := List.cons.inj h
          exact ⟨front, rest, ih.mpr ⟨rfl, by simpa using hlen⟩, rfl, rfl⟩

end Image
end TypeCatalog
