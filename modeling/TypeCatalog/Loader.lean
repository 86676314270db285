import TypeCatalog.Image.Envelope
import TypeCatalog.Registration.Document

/-!
# Loaders

**Types.** A loader reads a source of bytes into a catalog and gives metadata: either the image of a
catalog or a document. A table holds loaders by name.

**Rule.** The metadata of a document are its format, the number of its elements and the counts by
kind. The text of a document is read by `Markup.parse?`, which stands for an XML library: what is proved
about loaders holds whatever it accepts.
-/

namespace TypeCatalog

/-- A way to fill a catalog from bytes. -/
inductive Loader where
  | image
  | document (n : Template.Normalizer) (o : RegistrationOptions)

/-- Why a catalog cannot be loaded. -/
inductive LoaderError where
  | unknownLoader (name : String)
  | duplicateLoader (name : String)
  | image (e : Image.LoadError)
  | document (e : DocumentError)
deriving DecidableEq

/-- The text of a loader's problem. -/
def LoaderError.message : LoaderError → String
  | unknownLoader name => s!"unknown distiller `{name}`"
  | duplicateLoader name => s!"distiller `{name}` registered twice"
  | image (.codec _) => "the image cannot be decoded"
  | image (.corrupt m) => m.message
  | document (.catalog e) => e.message
  | document .unreadable => DocumentError.unreadable.message
  | document e => "ingestion failed: " ++ e.message

/-- The metadata of a document. -/
def Statistics.metadata (s : Statistics) : Metadata :=
  let number := fun (n : Nat) => MetaValue.int (Int64.ofNat n)
  Metadata.ofPairs
    [("source", .text "gccxml"), ("records", number s.total),
     ("counts", .map (Metadata.ofPairs (s.kinds.map fun p => (p.1.tag, number p.2))))]

/-- Fills a catalog from bytes. -/
def Loader.load (l : Loader) (c : Catalog) (bytes : List UInt8) :
    Except LoaderError Metadata × Catalog :=
  match l with
  | .image =>
      match Image.load c bytes with
      | (.ok bag, c) => (.ok bag, c)
      | (.error e, c) => (.error (.image e), c)
  | .document n o =>
      match Document.read bytes with
      | .error e => (.error (.document e), c)
      | .ok d =>
          match c.registerDocument d n o with
          | (.ok stats, c) => (.ok stats.metadata, c)
          | (.error e, c) => (.error (.document e), c)

/-- Loaders by name. -/
abbrev LoaderTable := Std.TreeMap String Loader

namespace LoaderTable

/-- The table without loaders. -/
def empty : LoaderTable := Std.TreeMap.empty

/-- The table with the loader of images. -/
def standard : LoaderTable := empty.insert "binary" .image

/-- Adds a loader under a new name. -/
def register (t : LoaderTable) (name : String) (l : Loader) :
    Except LoaderError Unit × LoaderTable :=
  if t.contains name then (.error (.duplicateLoader name), t) else (.ok (), t.insert name l)

/-- The loader of documents with the standard settings. -/
def documentLoader : Loader := .document .standard .standard

/-- Adds the loader of documents with the standard settings under its usual name. -/
def registerDocuments (t : LoaderTable) : Except LoaderError Unit × LoaderTable :=
  t.register "gccxml" documentLoader

/-- The names in ascending order. -/
def names (t : LoaderTable) : List String := t.keys

/-- Fills a catalog with the loader of a name. -/
def load (t : LoaderTable) (name : String) (c : Catalog) (bytes : List UInt8) :
    Except LoaderError Metadata × Catalog :=
  match t[name]? with
  | some l => l.load c bytes
  | none => (.error (.unknownLoader name), c)

end LoaderTable
end TypeCatalog
