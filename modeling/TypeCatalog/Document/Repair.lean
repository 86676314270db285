import TypeCatalog.Document.Basic
import TypeCatalog.Template.Literal
import TypeCatalog.Template.Normalizer
import TypeCatalog.Template.Signature

/-!
# Repair of spellings in a document

**Rule.** Compilers state some names in forms that other parts of a document do not use. Array
bounds lose their unsigned suffix, template arguments get canonical literals, instances of function
templates get the arguments of their demangled signature, operators get the word `operator`, and
builtin types their canonical spelling. Symbols of the compiler itself are left alone.
-/

namespace TypeCatalog

open Template

/-- Whether a name is a symbol that the compiler generated. -/
def isCompilerSymbol (name : String) : Bool := "_ZT".toList.isPrefixOf name.toList

namespace Element

/-- The array bound of an element without its unsigned suffix. -/
def boundText (e : Element) : List Char := Text.dropTrailing (· == 'u') (e.attr "max").toList

/-- A name with the template arguments that the element's signature shows. -/
def instanceName (e : Element) (name : String) : String :=
  patchLiterals (Template.instanceName name (e.attr "demangled"))

/-- The element with repaired spellings. -/
def repair (n : Normalizer) (e : Element) : Element :=
  match e.kind with
  | .array => e.setAttr "max" (String.ofList e.boundText)
  | .classRecord | .structRecord | .unionRecord => e.rename (patchLiterals e.name)
  | .function => e.rename (e.instanceName e.name)
  | .operatorFunction | .operatorMethod | .converter =>
      let op := operatorName e.name (e.attr "demangled")
      e.rename (if isCompilerSymbol op then op else e.instanceName op)
  | .constructor | .method =>
      if isCompilerSymbol e.name then e else e.rename (e.instanceName e.name)
  | .fundamental => e.rename (n.normalize false e.name)
  | _ => e

end Element

/-- The document with repaired spellings. -/
def Document.repair (d : Document) (n : Normalizer) : Document :=
  { d with elements := d.elements.map (Element.repair n) }

end TypeCatalog
