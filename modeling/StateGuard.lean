import StateGuard.Analysis.Batch
import StateGuard.Analysis.Folder
import StateGuard.Analysis.Input
import StateGuard.Analysis.Inspection
import StateGuard.Analysis.Run
import StateGuard.CommandLine.Command
import StateGuard.CommandLine.Output
import StateGuard.CommandLine.Run
import StateGuard.Config.Basic
import StateGuard.Config.Document
import StateGuard.Config.Edit
import StateGuard.Config.Error
import StateGuard.Config.Family
import StateGuard.Config.Methods
import StateGuard.Double
import StateGuard.Dump.Node
import StateGuard.Dump.Text
import StateGuard.Dump.Unit
import StateGuard.Fault
import StateGuard.Finding.Diagnostic
import StateGuard.Finding.DirectAccess
import StateGuard.Finding.NullComparison
import StateGuard.Finding.Projection
import StateGuard.Finding.Ternary
import StateGuard.Guard.Branching
import StateGuard.Guard.Classification
import StateGuard.Guard.Context
import StateGuard.Guard.Fact
import StateGuard.Guard.Inquiry
import StateGuard.Guard.Recognize
import StateGuard.Guard.Shape
import StateGuard.Guard.UseSite
import StateGuard.Guard.Walk
import StateGuard.Json.Basic
import StateGuard.Json.Decode
import StateGuard.Json.Raw
import StateGuard.Json.Reader
import StateGuard.Json.Writer
import StateGuard.Main
import StateGuard.Proofs.Analysis.Outcome
import StateGuard.Proofs.Guard.Ascent
import StateGuard.Proofs.Guard.Cache
import StateGuard.Proofs.Guard.Evaluation
import StateGuard.Proofs.Guard.Exactness
import StateGuard.Proofs.Guard.Recognition
import StateGuard.Proofs.Guard.UseSite
import StateGuard.Proofs.Semantics.Advances
import StateGuard.Proofs.Semantics.Binding
import StateGuard.Proofs.Semantics.Location
import StateGuard.Proofs.Semantics.Resolution
import StateGuard.Proofs.Semantics.Scoping
import StateGuard.Proofs.Source.Programs
import StateGuard.Proofs.Syntax.Ancestry
import StateGuard.Proofs.Syntax.Forest
import StateGuard.Proofs.Syntax.Layout
import StateGuard.Proofs.Syntax.Order
import StateGuard.Proofs.Syntax.Sorts
import StateGuard.Rounding
import StateGuard.Rule
import StateGuard.Semantics.Binder
import StateGuard.Semantics.Imports
import StateGuard.Semantics.Location
import StateGuard.Semantics.Oracle
import StateGuard.Semantics.Scopes
import StateGuard.Semantics.SourceUnit
import StateGuard.Semantics.Table
import StateGuard.Source.Lexer
import StateGuard.Source.ParseError
import StateGuard.Source.Parser
import StateGuard.Source.Program
import StateGuard.Source.Token
import StateGuard.Span
import StateGuard.State
import StateGuard.Syntax.Arena
import StateGuard.Syntax.Draft
import StateGuard.Syntax.Node
import StateGuard.Syntax.Render
import StateGuard.Syntax.Term
import StateGuard.Syntax.Tree
import StateGuard.Syntax.Walk
import StateGuard.Text.Alphabetic
import StateGuard.Text.Blank
import StateGuard.Text.Caseless
import StateGuard.Text.EditDistance
import StateGuard.Text.Numeric
import StateGuard.Text.Ranges
import StateGuard.Text.Template
import StateGuard.Text.Uppercase
import StateGuard.TypeRef
import StateGuard.Word
import StateGuard.Yaml.Alias
import StateGuard.Yaml.Basic
import StateGuard.Yaml.Character
import StateGuard.Yaml.Cursor
import StateGuard.Yaml.Decode
import StateGuard.Yaml.Node
import StateGuard.Yaml.Number
import StateGuard.Yaml.Reader
import StateGuard.Yaml.Scalar.Block
import StateGuard.Yaml.Scalar.Plain
import StateGuard.Yaml.Scalar.Quoted
import StateGuard.Yaml.Scan
import StateGuard.Yaml.Tag
import StateGuard.Yaml.Token
import StateGuard.Yaml.Writer
import StateGuard.Proofs.Source.Extents
import StateGuard.Proofs.Source.Located
import StateGuard.Proofs.Source.Spans
import StateGuard.Proofs.Source.Heads
import StateGuard.Proofs.Source.Spelling
import StateGuard.Proofs.Source.Lookahead
import StateGuard.Proofs.Source.Reading
import StateGuard.Proofs.Source.RoundTrip
import StateGuard.Proofs.Analysis.Sharing
import StateGuard.Proofs.Syntax.Embedding
import StateGuard.Proofs.Semantics.Frame
import StateGuard.Proofs.Semantics.Agreement
import StateGuard.Proofs.Semantics.Transport
import StateGuard.Proofs.Guard.Transfer
import StateGuard.Proofs.Guard.Protection
import StateGuard.Proofs.Analysis.Findings
import StateGuard.Proofs.Analysis.Transport
import StateGuard.Proofs.Analysis.Trust
import StateGuard.Proofs.Analysis.Places
import StateGuard.Proofs.Analysis.Reformat
import StateGuard.Proofs.Syntax.Counterpart
import StateGuard.Proofs.Analysis.Isolation
import StateGuard.Proofs.CommandLine.Accounting
import StateGuard.Proofs.Text.Numerals
import StateGuard.Proofs.Json.Texts
import StateGuard.Proofs.Json.Values
import StateGuard.Proofs.Json.Records
import StateGuard.Proofs.Dump.Values
import StateGuard.Proofs.Dump.Units
import StateGuard.Proofs.Dump.Texts
import StateGuard.Proofs.Dump.RoundTrip
import StateGuard.Proofs.Yaml.Scalars
import StateGuard.Proofs.Yaml.Scanning
import StateGuard.Proofs.Yaml.Lines
import StateGuard.Proofs.Yaml.Trees
import StateGuard.Proofs.Yaml.Records
import StateGuard.Proofs.Config.RoundTrip
import StateGuard.Proofs.Safety.RawUnit
import StateGuard.Proofs.Safety.Recognition
import StateGuard.Proofs.Safety.Analysis
import StateGuard.Proofs.Safety.Binding
import StateGuard.Proofs.Guard.Facts
import StateGuard.Proofs.Config.Acceptance
import StateGuard.Proofs.Config.Consistency
import StateGuard.Proofs.Config.Reordering
import StateGuard.Proofs.Finding.Upstream
import StateGuard.Proofs.Finding.Default
import StateGuard.Proofs.Safety.Walks
import StateGuard.Proofs.Analysis.LeavingOut
import StateGuard.Proofs.Analysis.Ordering
import StateGuard.Proofs.Analysis.Reordering
import StateGuard.Proofs.Analysis.Cancellation
import StateGuard.Proofs.Analysis.Loading
import StateGuard.Proofs.Semantics.Environments
import StateGuard.Proofs.Semantics.Stack
import StateGuard.Proofs.Semantics.Following
import StateGuard.Proofs.Semantics.Visits
import StateGuard.Proofs.Semantics.Constructs
import StateGuard.Proofs.Semantics.Calls
import StateGuard.Proofs.Semantics.Symbols
import StateGuard.Proofs.Semantics.Receivers
import StateGuard.Proofs.Semantics.Keys
import StateGuard.Proofs.Source.Partition
import StateGuard.Proofs.Source.Grouping
import StateGuard.Proofs.Source.Precedence
import StateGuard.Proofs.Source.TypeReferences
import StateGuard.Proofs.Source.Suffixes
import StateGuard.Proofs.Source.Speculation
import StateGuard.Proofs.Syntax.Parentheses
import StateGuard.Proofs.Guard.Parentheses
import StateGuard.Proofs.Guard.Transparency
import StateGuard.Proofs.Text.Template
import StateGuard.Proofs.Text.EditDistance
