import TypeCatalog.Template.Arguments

/-!
# Canonical spelling of names

**Input.** A spelling, and a table that gives each template one default matcher per parameter.

**Algorithm.** A component without a template argument list has its builtin synonyms folded. In a
component with one, every argument is normalized as a scoped name, trailing arguments that match
their default are dropped unless all are to be kept, and the list is written again with `,` between
arguments and a blank before the closing bracket when an argument ends in one. A scoped name is
normalized component by component.

**Termination.** An argument is shorter than the component it stands in.
-/

namespace TypeCatalog
namespace Template

open Text Name

/-- What the argument of one template parameter is when it is left to its default. -/
inductive DefaultArg where
  /-- The parameter has no default. -/
  | required
  /-- The default is the named template itself or an instance of it. -/
  | instanceOf (template : String)
deriving DecidableEq

/-- Whether an argument is the parameter's default. -/
def DefaultArg.accepts : DefaultArg → List Char → Bool
  | .required, _ => false
  | .instanceOf template, arg =>
      match stripPrefix template.toList arg with
      | some [] => true
      | some (c :: _) => c == '<'
      | none => false

/-- Spellings of the integer types and their canonical forms, applied in order. -/
def integerSynonyms : List (String × String) :=
  [("long long unsigned int", "unsigned long long"),
   ("long long int", "long long"),
   ("unsigned short int", "unsigned short"),
   ("short unsigned int", "unsigned short"),
   ("short int", "short"),
   ("long unsigned int", "unsigned long"),
   ("unsigned long int", "unsigned long"),
   ("long int", "long")]

/-- Spellings of the complex types and their canonical forms, applied in order. -/
def complexSynonyms : List (String × String) :=
  [("complex float", "float complex"),
   ("complex double", "double complex"),
   ("complex long double", "long double complex")]

/-- Replaces every synonym in a text by its canonical form. -/
def foldSynonyms (name : List Char) : List Char :=
  (integerSynonyms ++ complexSynonyms).foldl
    (fun text pair => replaceAll pair.1.toList pair.2.toList text) name

/-- Drops the longest end of an argument list in which every argument is accepted by the matcher
at its position. -/
def elide : List DefaultArg → List (List Char) → List (List Char)
  | _, [] => []
  | params, arg :: args =>
      let rest := elide params.tail args
      if rest.isEmpty && (params.head?.any fun p => p.accepts arg) then [] else arg :: rest

/-- Writes a template argument list after the template's name. -/
def writeInstance (template : List Char) (args : List (List Char)) (suffix : List Char) :
    List Char :=
  let list := joinWith "," args
  let close := if list.getLast? = some '>' then [' ', '>'] else ['>']
  template ++ '<' :: list ++ close ++ suffix

/-- The default matchers of each template, by its unqualified name; the latest entry counts. -/
structure Normalizer where
  defaults : List (String × List DefaultArg)

namespace Normalizer

/-- A normalizer that knows no defaults. -/
def empty : Normalizer := ⟨[]⟩

/-- Sets the matchers of a template. -/
def register (n : Normalizer) (template : String) (params : List DefaultArg) : Normalizer :=
  ⟨(template, params) :: n.defaults⟩

/-- The matchers of a template, one per parameter. -/
def defaultsOf (n : Normalizer) (template : String) : Option (List DefaultArg) :=
  n.defaults.lookup template

/-- The defaults of the standard containers. -/
def standard : Normalizer :=
  let allocator := DefaultArg.instanceOf "std::allocator"
  let less := DefaultArg.instanceOf "std::less"
  let deque := DefaultArg.instanceOf "std::deque"
  let hash := DefaultArg.instanceOf "__gnu_cxx::hash"
  let equal := DefaultArg.instanceOf "std::equal_to"
  ⟨[("vector", [.required, allocator]),
    ("list", [.required, allocator]),
    ("deque", [.required, allocator]),
    ("set", [.required, less, allocator]),
    ("multiset", [.required, less, allocator]),
    ("map", [.required, .required, less, allocator]),
    ("multimap", [.required, .required, less, allocator]),
    ("queue", [.required, deque]),
    ("stack", [.required, deque]),
    ("basic_string", [.required, .instanceOf "std::char_traits", allocator]),
    ("hash_set", [.required, hash, equal, allocator]),
    ("hash_multiset", [.required, hash, equal, allocator]),
    ("hash_map", [.required, .required, hash, equal, allocator]),
    ("hash_multimap", [.required, .required, hash, equal, allocator])]⟩

/-- The arguments of a template's instance that are written. -/
def keptArguments (n : Normalizer) (keepAll : Bool) (template : List Char)
    (args : List (List Char)) : List (List Char) :=
  if keepAll then args
  else
    match n.defaultsOf (String.ofList template) with
    | some params => elide params args
    | none => args

mutual

/-- Canonical spelling of one component of a name. -/
def normalizeChars (n : Normalizer) (keepAll : Bool) (raw : List Char) : List Char :=
  match _hi : instance? (trim raw) with
  | none => foldSynonyms (trim raw)
  | some i =>
      let args := (arguments i.inner).attach.map fun ⟨arg, _⟩ =>
        normalizeScopedChars n keepAll arg
      writeInstance i.template (n.keptArguments keepAll i.template args) i.suffix
termination_by 2 * raw.length
decreasing_by
  have harg := length_le_of_mem_arguments ‹_›
  have hinner := length_inner_lt _hi
  have htrim := length_trim_le raw
  omega

/-- Canonical spelling of every component of a scoped name. -/
def normalizeScopedChars (n : Normalizer) (keepAll : Bool) (name : List Char) : List Char :=
  joinWith "::" ((pieces .start name).attach.map fun ⟨piece, _⟩ =>
    normalizeChars n keepAll piece)
termination_by 2 * name.length + 1
decreasing_by
  have hpiece := length_le_of_mem_pieces ‹_›
  omega

end

/-- Canonical spelling of a name of one component. -/
def normalize (n : Normalizer) (keepAll : Bool) (raw : String) : String :=
  String.ofList (n.normalizeChars keepAll raw.toList)

/-- Canonical spelling of a scoped name. -/
def normalizeScoped (n : Normalizer) (keepAll : Bool) (name : String) : String :=
  String.ofList (n.normalizeScopedChars keepAll name.toList)

end Normalizer
end Template
end TypeCatalog
