import TypeCatalog.Catalog.Basic
import TypeCatalog.Text.Quoted

/-!
# Problems of a document

**Types.** One cause per problem that reading, spelling or registering a document can meet, and one
function that words it.
-/

namespace TypeCatalog

/-- Why a document cannot be read or registered. -/
inductive DocumentError where
  /-- The bytes are not text. -/
  | unreadable
  /-- The text is not well-formed markup. -/
  | malformed
  | unexpectedRoot (found : String)
  | missingAttribute (owner attr : String)
  | unknownId (id referrer : String)
  | invalidInteger (owner attr value : String)
  | invalidAccess (owner value : String)
  | unknownBuiltin (name : String)
  /-- The spelling of the id depends on itself. -/
  | cyclicReference (id : String)
  | catalog (e : CatalogError)
deriving DecidableEq

/-- The text of a problem. -/
def DocumentError.message : DocumentError → String
  | unreadable => "the document is not text"
  | malformed => "malformed XML"
  | unexpectedRoot found =>
      s!"expected a <GCC_XML> or <CastXML> root element, found <{found}>"
  | missingAttribute owner attr => s!"{owner}: missing `{attr}` attribute"
  | unknownId id referrer => s!"id `{id}` referenced by {referrer} is not defined"
  | invalidInteger owner attr value =>
      s!"{owner}: `{attr}` is not a valid integer: " ++ Text.quote value
  | invalidAccess owner value => s!"{owner}: unknown access specifier " ++ Text.quote value
  | unknownBuiltin name => s!"unknown builtin type `{name}`"
  | cyclicReference id => s!"{id}: type spelling depends on itself"
  | catalog e => e.message

end TypeCatalog
