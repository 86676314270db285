import TypeCatalog.Catalog.Basic
import TypeCatalog.Catalog.Register
import TypeCatalog.Catalog.Resolve
import TypeCatalog.Document.Basic
import TypeCatalog.Document.Element
import TypeCatalog.Document.ElementKind
import TypeCatalog.Document.Error
import TypeCatalog.Document.Repair
import TypeCatalog.Document.Walk
import TypeCatalog.Entity.Basic
import TypeCatalog.Entity.DataType
import TypeCatalog.Entity.Flags
import TypeCatalog.Entity.Function
import TypeCatalog.Entity.Kind
import TypeCatalog.Entity.Member
import TypeCatalog.Entity.Selection
import TypeCatalog.Image.Bytes
import TypeCatalog.Image.Entity
import TypeCatalog.Image.Envelope
import TypeCatalog.Image.Metadata
import TypeCatalog.Loader
import TypeCatalog.Markup.Character
import TypeCatalog.Markup.Item
import TypeCatalog.Markup.Reference
import TypeCatalog.Markup.Tree
import TypeCatalog.Name
import TypeCatalog.Registration.Basic
import TypeCatalog.Registration.Document
import TypeCatalog.Registration.Layout
import TypeCatalog.Registration.Members
import TypeCatalog.Scope
import TypeCatalog.Spelling.Declarator
import TypeCatalog.Spelling.Namer
import TypeCatalog.Template.Arguments
import TypeCatalog.Template.Literal
import TypeCatalog.Template.Normalizer
import TypeCatalog.Template.Signature
import TypeCatalog.Text.Blank
import TypeCatalog.Text.Integer
import TypeCatalog.Text.Nesting
import TypeCatalog.Text.Printable
import TypeCatalog.Text.Quoted
import TypeCatalog.Text.Search
import TypeCatalog.Text.Word
import TypeCatalog.Proofs.Catalog.Coherence
import TypeCatalog.Proofs.Catalog.Step
import TypeCatalog.Proofs.Registration.Trace
import TypeCatalog.Proofs.Catalog.Run
import TypeCatalog.Proofs.Image.EntityReads
import TypeCatalog.Proofs.Image.MetadataReads
import TypeCatalog.Proofs.Image.RoundTrip
import TypeCatalog.Proofs.Spelling.Plan
import TypeCatalog.Proofs.Spelling.Context
import TypeCatalog.Proofs.Spelling.ElementPlan
import TypeCatalog.Proofs.Spelling.Correspondence
import TypeCatalog.Proofs.Spelling.Brackets
import TypeCatalog.Proofs.Spelling.Exact
import TypeCatalog.Proofs.Spelling.TypeTerm
import TypeCatalog.Proofs.Spelling.Placement
import TypeCatalog.Proofs.Spelling.Reading
import TypeCatalog.Proofs.Spelling.PlainNames
import TypeCatalog.Proofs.Spelling.Distinctness
import TypeCatalog.Proofs.Catalog.Effect
import TypeCatalog.Proofs.Catalog.Keyed
import TypeCatalog.Proofs.Spelling.History
import TypeCatalog.Proofs.Registration.Request
import TypeCatalog.Proofs.Registration.Demands
import TypeCatalog.Proofs.Registration.Declarations
import TypeCatalog.Proofs.Registration.Declared
import TypeCatalog.Proofs.Registration.Resolving
import TypeCatalog.Proofs.Catalog.Failure
import TypeCatalog.Proofs.Catalog.Memo
import TypeCatalog.Proofs.Catalog.Extent
import TypeCatalog.Proofs.Catalog.SizeQuery
import TypeCatalog.Proofs.Catalog.UnionSize
import TypeCatalog.Proofs.Name.Components
import TypeCatalog.Proofs.Template.Scanning
import TypeCatalog.Proofs.Template.TypeTree
import TypeCatalog.Proofs.Template.Canonicalization
import TypeCatalog.Proofs.Image.Content
import TypeCatalog.Proofs.Spelling.FunctionParts
import TypeCatalog.Proofs.Registration.FunctionTypes
import TypeCatalog.Proofs.Registration.Layout
import TypeCatalog.Proofs.Registration.Given
import TypeCatalog.Proofs.Registration.Agreement
import TypeCatalog.Proofs.Catalog.Handles
import TypeCatalog.Proofs.Image.Truncation
import TypeCatalog.Proofs.Image.Merge
import TypeCatalog.Proofs.Image.Canonical
import TypeCatalog.Proofs.Catalog.Locality
import TypeCatalog.Proofs.Catalog.Successes
import TypeCatalog.Proofs.Catalog.Overloads
import TypeCatalog.Proofs.Catalog.Exposure
import TypeCatalog.Proofs.Registration.Cycles
import TypeCatalog.Proofs.Spelling.ImpliedIds
import TypeCatalog.Proofs.Registration.ImpliedTypes
import TypeCatalog.Proofs.Template.Retention
import TypeCatalog.Proofs.Template.Elision
import TypeCatalog.Proofs.Text.Runs
import TypeCatalog.Proofs.Template.LiteralValues
import TypeCatalog.Proofs.Template.Recovery
import TypeCatalog.Proofs.Spelling.TopLevel
import TypeCatalog.Proofs.Spelling.TemplateDeclarators
import TypeCatalog.Proofs.Spelling.QualifierSteps
import TypeCatalog.Proofs.Spelling.ArrayRanks
import TypeCatalog.Proofs.Template.ConstPrefix
import TypeCatalog.Proofs.Template.ArgumentLists
import TypeCatalog.Proofs.Text.Numerals
import TypeCatalog.Proofs.Spelling.ArrayNames
import TypeCatalog.Proofs.Registration.EnumeratorValues
import TypeCatalog.Proofs.Registration.ArraySizes
