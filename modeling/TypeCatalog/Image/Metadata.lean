/-!
# Metadata

**Types.** A metadata value is a truth value, a 64-bit integer, a floating-point number by its bits,
a text, a list of values or a map from texts to values. A map is a list of pairs in strictly
ascending order of the keys; `insertField` keeps that order, and a later value for a key replaces an
earlier one.
-/

namespace TypeCatalog

/-- One metadata value. -/
inductive MetaValue where
  | bool (b : Bool)
  | int (i : Int64)
  /-- A floating-point number, by its bits. -/
  | float (bits : UInt64)
  | text (s : String)
  | list (items : List MetaValue)
  | map (fields : List (String × MetaValue))

/-- A bag of metadata: pairs in ascending order of their keys. -/
abbrev Metadata := List (String × MetaValue)

namespace Metadata

/-- Sets the value of a key. -/
def insertField (key : String) (value : MetaValue) : Metadata → Metadata
  | [] => [(key, value)]
  | (k, v) :: rest =>
      if key < k then (key, value) :: (k, v) :: rest
      else if key = k then (key, value) :: rest
      else (k, v) :: insertField key value rest

/-- The bag of a list of pairs; the last value of a key counts. -/
def ofPairs (pairs : List (String × MetaValue)) : Metadata :=
  pairs.foldl (fun bag p => insertField p.1 p.2 bag) []

end Metadata
end TypeCatalog
