import TypeCatalog.Text.Blank
import TypeCatalog.Text.Search
import TypeCatalog.Text.Word

/-!
# Names recovered from a demangled signature

**Input.** The plain name of a function and its demangled signature, such as
`void NS::f<int,unsigned>(int)`.

**Rule.** When the text before the last `(` ends in a letter, digit or underscore followed by `>`,
the function is a template instance. Its name runs from the first `name<` up to that parenthesis,
with each bare `unsigned` completed to `unsigned int`. An operator is named after the word
`operator`, without a blank before a symbol and with one before a word.
-/

namespace TypeCatalog
namespace Template

open Text

/-- Completes each word `unsigned` that is followed, blanks apart, by a punctuation character;
the blanks between them are dropped. The input is a text cut into its word runs. -/
def completeUnsigned : List (List Char) → List (List Char)
  | [] => []
  | [run] => [run]
  | run :: next :: rest =>
      if run = "unsigned".toList then
        match next.dropWhile isBlank with
        | [] => run :: next :: completeUnsigned rest
        | punctuation => "unsigned int".toList :: punctuation :: completeUnsigned rest
      else run :: completeUnsigned (next :: rest)

/-- Whether the text in front of a parameter list ends a template argument list. -/
def endsInstance (before : List Char) : Bool :=
  match before.reverse with
  | '>' :: c :: _ => c.isAlphanum || c == '_'
  | _ => false

/-- The name of a function with the template arguments that its signature shows. -/
def instanceName (base demangled : String) : String :=
  match splitLast '(' demangled.toList with
  | none => base
  | some (before, _) =>
      if endsInstance before then
        match find? (base.toList ++ ['<']) demangled.toList with
        | some pos =>
            if pos < before.length then
              String.ofList (completeUnsigned (wordRuns (before.drop pos))).flatten
            else base
        | none => base
      else base

/-- The operator's name as a demangled signature shows it, without its parameter list. -/
def operatorOfSignature? (demangled : String) : Option String :=
  let text := demangled.toList
  let start :=
    match find? "::operator".toList text with
    | some pos => some (pos + 2)
    | none => find? "operator".toList text
  start.map fun pos =>
    let rest := text.drop pos
    let head :=
      match splitFirst '(' rest with
      | some (before, _) => before
      | none => rest
    String.ofList (trimEnd head)

/-- Canonical name of an operator or conversion function. A conversion to a mangled type name is
read from the signature. -/
def operatorName (name demangled : String) : String :=
  match stripPrefix "operator".toList name.toList with
  | none =>
      match name.toList with
      | [] => ""
      | c :: _ => if c.isAlpha then "operator " ++ name else "operator" ++ name
  | some (' ' :: c :: spelled) =>
      if c.isDigit then (operatorOfSignature? demangled).getD name
      else if !c.isAlpha && c != '_' then "operator" ++ String.ofList (c :: spelled)
      else name
  | some _ => name

end Template
end TypeCatalog
