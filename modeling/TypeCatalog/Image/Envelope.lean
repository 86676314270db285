import TypeCatalog.Catalog.Register
import TypeCatalog.Image.Entity
import TypeCatalog.Image.Metadata

/-!
# The image of a catalog

**Format.** An envelope is the list of keys, the list of entities and the metadata. The keys of a
saved catalog are in ascending order, so catalogs of equal content have equal images. Bytes after
the envelope are not read.

**Loading.** The whole envelope is read and checked before the first entity is put into the
catalog. Every key must hold an entity of that name. What the catalog has under a key is replaced.
-/

namespace TypeCatalog
namespace Image

mutual

/-- The bytes of a metadata value. -/
def putMeta : MetaValue → List UInt8
  | .bool b => putVariant 0 ++ putBool b
  | .int i => putVariant 1 ++ putInt64 i
  | .float bits => putVariant 2 ++ putUInt64 bits
  | .text s => putVariant 3 ++ putText s
  | .list items => putVariant 4 ++ putLength items.length ++ putMetaItems items
  | .map fields => putVariant 5 ++ putLength fields.length ++ putMetaFields fields

/-- The bytes of the items of a list. -/
def putMetaItems : List MetaValue → List UInt8
  | [] => []
  | v :: vs => putMeta v ++ putMetaItems vs

/-- The bytes of the pairs of a map. -/
def putMetaFields : List (String × MetaValue) → List UInt8
  | [] => []
  | (k, v) :: fs => putText k ++ putMeta v ++ putMetaFields fs

end

/-- A pair of a text and a value. -/
def getField {α : Type} (get : Decoder α) : Decoder (String × α) := do
  let key ← getText
  let value ← get
  return (key, value)

/-- A metadata value nested at most `depth` deep. -/
def getMetaWithin : Nat → Decoder MetaValue
  | 0 => throw .endOfInput
  | depth + 1 => do
      match (← getUInt32).toNat with
      | 0 => return .bool (← getBool)
      | 1 => return .int (← getInt64)
      | 2 => return .float (← getUInt64)
      | 3 => return .text (← getText)
      | 4 => return .list (← getList (getMetaWithin depth))
      | 5 => return .map (Metadata.ofPairs (← getList (getField (getMetaWithin depth))))
      | _ => throw .invalidVariant

/-- A bag of metadata. A value is nested less deep than there are bytes, as every level has a
number of its own. -/
def getMetadata : Decoder Metadata := do
  let depth := (← get).length
  return Metadata.ofPairs (← getList (getField (getMetaWithin depth)))

/-- The bytes of a bag of metadata. -/
def putMetadata (bag : Metadata) : List UInt8 := putLength bag.length ++ putMetaFields bag

/-- What an image holds. -/
structure Envelope where
  keys : List String
  content : List Entity
  metadata : Metadata

/-- The bytes of an envelope. -/
def putEnvelope (e : Envelope) : List UInt8 :=
  putList putText e.keys ++ putList putEntity e.content ++ putMetadata e.metadata

/-- Reads an envelope. -/
def getEnvelope : Decoder Envelope := do
  let keys ← getList getText
  let content ← getList getEntity
  let metadata ← getMetadata
  return { keys, content, metadata }

/-- Why an envelope is refused. -/
inductive Mismatch where
  | count (keys entries : Nat)
  | holds (key name : String)
deriving DecidableEq

/-- The text of a refusal. -/
def Mismatch.message : Mismatch → String
  | .count keys entries => s!"corrupt envelope: {keys} keys for {entries} entries"
  | .holds key name => s!"corrupt envelope: key `{key}` holds `{name}`"

/-- The first key that holds an entity of another name. -/
def firstMismatch? : List (String × Entity) → Option Mismatch
  | [] => none
  | (key, e) :: rest =>
      if key = e.qualified then firstMismatch? rest else some (.holds key e.qualified)

/-- What is wrong with an envelope. -/
def Envelope.mismatch? (e : Envelope) : Option Mismatch :=
  if e.keys.length ≠ e.content.length then some (.count e.keys.length e.content.length)
  else firstMismatch? (e.keys.zip e.content)

/-- The envelope of a catalog. -/
def Envelope.ofCatalog (c : Catalog) (metadata : Metadata) : Envelope :=
  let sorted := c.slots.toList.mergeSort fun a b => decide (a.key ≤ b.key)
  { keys := sorted.map (·.key), content := sorted.map (·.entity), metadata }

/-- Puts entities under their keys, in order. -/
def merge (c : Catalog) (entries : List (String × Entity)) : Catalog :=
  entries.foldl (fun c p => (c.put p.1 p.2).2) c

/-- The bytes of a catalog with metadata. -/
def save (c : Catalog) (metadata : Metadata) : List UInt8 := putEnvelope (.ofCatalog c metadata)

/-- Why an image cannot be loaded. -/
inductive LoadError where
  | codec (e : CodecError)
  | corrupt (m : Mismatch)
deriving DecidableEq

/-- Reads an image into a catalog, giving its metadata. -/
def load (c : Catalog) (bytes : List UInt8) : Except LoadError Metadata × Catalog :=
  match getEnvelope.run bytes with
  | .error e => (.error (.codec e), c)
  | .ok (envelope, _) =>
      match envelope.mismatch? with
      | some m => (.error (.corrupt m), c)
      | none => (.ok envelope.metadata, merge c (envelope.keys.zip envelope.content))

end Image
end TypeCatalog
