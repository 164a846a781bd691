import RuleTidy.CommandLine.Arguments
import RuleTidy.CommandLine.Config
import RuleTidy.CommandLine.LogFilter
import RuleTidy.CommandLine.Run
import RuleTidy.Document.Basic
import RuleTidy.Document.Edit
import RuleTidy.Document.EditError
import RuleTidy.Document.Extent
import RuleTidy.Document.InPlace
import RuleTidy.Json.Fault
import RuleTidy.Json.Reader.Basic
import RuleTidy.Json.Reader.Number
import RuleTidy.Json.Reader.Record
import RuleTidy.Json.Reader.Skip
import RuleTidy.Json.Reader.Value
import RuleTidy.Json.Text
import RuleTidy.Json.Value
import RuleTidy.Main
import RuleTidy.Number.Basic
import RuleTidy.Number.Binary64
import RuleTidy.Number.Shortest
import RuleTidy.Pattern.Ast
import RuleTidy.Pattern.Client
import RuleTidy.Pattern.Lookup
import RuleTidy.Pattern.Relation
import RuleTidy.Pattern.Return
import RuleTidy.Platform.Fault
import RuleTidy.Platform.Path
import RuleTidy.Platform.FileTree
import RuleTidy.Platform.Host
import RuleTidy.Platform.World
import RuleTidy.Report.Diagnostic
import RuleTidy.Report.Diagnostic.Json
import RuleTidy.Report.Snippet
import RuleTidy.Rule.Alternatives
import RuleTidy.Rule.Basic
import RuleTidy.Rule.Check
import RuleTidy.Source.Position
import RuleTidy.Source.Registry
import RuleTidy.Source.Sha256
import RuleTidy.Source.Span
import RuleTidy.Text.Blank
import RuleTidy.Text.Digit
import RuleTidy.Text.Escape
import RuleTidy.Text.Lines
import RuleTidy.Text.Unicode.GraphemeExtend
import RuleTidy.Text.Unicode.Invisible
import RuleTidy.Text.Unicode.Range
import RuleTidy.Text.Utf8
import RuleTidy.Tidy.Error
import RuleTidy.Tidy.File
import RuleTidy.Tidy.Fix
import RuleTidy.Tidy.Pair
import RuleTidy.Tidy.Target
import RuleTidy.Yaml.Cursor
import RuleTidy.Yaml.Event
import RuleTidy.Yaml.Event.Parser
import RuleTidy.Yaml.Node
import RuleTidy.Yaml.Node.Json
import RuleTidy.Yaml.Node.OfEvents
import RuleTidy.Yaml.Node.Traversal
import RuleTidy.Yaml.Parse
import RuleTidy.Yaml.ParseError
import RuleTidy.Yaml.Path
import RuleTidy.Yaml.Scalar
import RuleTidy.Yaml.Scalar.Schema
import RuleTidy.Yaml.Scalar.Written
import RuleTidy.Yaml.Slot
import RuleTidy.Yaml.SyntaxFault
import RuleTidy.Yaml.Token
import RuleTidy.Yaml.Token.Block
import RuleTidy.Yaml.Token.Fold
import RuleTidy.Yaml.Token.Plain
import RuleTidy.Yaml.Token.Property
import RuleTidy.Yaml.Token.Quoted
import RuleTidy.Yaml.Token.Scanner
import RuleTidy.Proofs.Document.Recorded
import RuleTidy.Proofs.Chain
import RuleTidy.Proofs.Document.Steps
import RuleTidy.Proofs.Document.Extent
import RuleTidy.Proofs.Document.Run
import RuleTidy.Proofs.Document.Render
import RuleTidy.Proofs.Rule.Alternatives
import RuleTidy.Proofs.Tidy.Target
import RuleTidy.Proofs.Tidy.Steps
import RuleTidy.Proofs.Tidy.Fix
import RuleTidy.Proofs.Document.Reparse
import RuleTidy.Proofs.Yaml.Token.Quoted
import RuleTidy.Proofs.Yaml.Token.Plain
import RuleTidy.Proofs.Yaml.Scalar.Written
import RuleTidy.Proofs.Document.InPlace
import RuleTidy.Proofs.Tidy.Findings
import RuleTidy.Proofs.CommandLine.Abort
import RuleTidy.Proofs.Text.Lines
import RuleTidy.Proofs.Yaml.Scalar.Block
import RuleTidy.Proofs.Yaml.Token.Block
import RuleTidy.Proofs.Yaml.Token.BlockScan
import RuleTidy.Proofs.Document.ReparseBlock
import RuleTidy.Proofs.Tidy.Loss
import RuleTidy.Proofs.Document.Conflict
import RuleTidy.Proofs.Tidy.Conflict
import RuleTidy.Proofs.Json.Value
import RuleTidy.Proofs.Tidy.KeepFirst
import RuleTidy.Proofs.Tidy.Course
import RuleTidy.Proofs.Pattern.Client
import RuleTidy.Proofs.Report.Render
import RuleTidy.Proofs.Yaml.Node.ReadFrom
import RuleTidy.Proofs.Tidy.Shown
import RuleTidy.Proofs.Tidy.File
import RuleTidy.Proofs.CommandLine.Batch
import RuleTidy.Proofs.Source.Registry
import RuleTidy.Proofs.Yaml.Node.Labelled
import RuleTidy.Proofs.Document.Provenance
import RuleTidy.Proofs.Yaml.Node.Builder
import RuleTidy.Proofs.Yaml.Node.Depth
import RuleTidy.Proofs.Yaml.Node.Nesting
import RuleTidy.Proofs.Yaml.Node.Reading
import RuleTidy.Proofs.Yaml.Node.Refusal
import RuleTidy.Proofs.Yaml.Node.Children
import RuleTidy.Proofs.Tidy.Survivors
import RuleTidy.Proofs.Tidy.Trimmed
import RuleTidy.Proofs.Tidy.Rewriting
import RuleTidy.Proofs.Json.Compact
import RuleTidy.Proofs.Json.Ordered
import RuleTidy.Proofs.Yaml.Node.Traversal
import RuleTidy.Proofs.Yaml.Node.RoundTrip
import RuleTidy.Proofs.Pattern.Memo
import RuleTidy.Source.LineIndex
import RuleTidy.Proofs.Text.LineCut
import RuleTidy.Proofs.Source.LineIndex
import RuleTidy.Proofs.Report.Rows
import RuleTidy.Proofs.Report.Emit
import RuleTidy.Proofs.Report.StartLine
import RuleTidy.Proofs.Json.Text
import RuleTidy.Proofs.Json.Reader.Leaf
import RuleTidy.Proofs.Json.Reader.Record
import RuleTidy.Proofs.Report.Json
import RuleTidy.Proofs.CommandLine.Lint
import RuleTidy.Proofs.Pattern.Ast
import RuleTidy.Proofs.Document.Superseded
import RuleTidy.Proofs.Pattern.Pairing
import RuleTidy.Proofs.Pattern.Symmetry
import RuleTidy.Proofs.Source.Position
import RuleTidy.Proofs.Document.LastWrite
import RuleTidy.Proofs.Document.WholeLines
import RuleTidy.Proofs.Document.Lens
import RuleTidy.Rule.Worklist
import RuleTidy.Proofs.Tidy.Bound
import RuleTidy.Proofs.Rule.Visits
import RuleTidy.Proofs.Rule.Worklist
import RuleTidy.Proofs.Rule.Violations
import RuleTidy.Proofs.Yaml.Path.Text
import RuleTidy.Proofs.Rule.Chains
import RuleTidy.Proofs.Tidy.Survey
import RuleTidy.Yaml.Node.Table
import RuleTidy.Proofs.Yaml.Node.Equality
import RuleTidy.Proofs.Yaml.Node.Table
import RuleTidy.Proofs.Yaml.Node.Unroll
import RuleTidy.Proofs.Yaml.Node.KeyText
import RuleTidy.Report.Emit
import RuleTidy.Source.Slice
import RuleTidy.Proofs.Source.Slice
import RuleTidy.Pattern.Return.Search
import RuleTidy.Proofs.Pattern.Return
import RuleTidy.Yaml.Scalar.Numeral
import RuleTidy.Proofs.Yaml.Scalar.Grammar
import RuleTidy.Proofs.Yaml.Scalar.Numeral
import RuleTidy.Proofs.Text.Digit
import RuleTidy.Proofs.Text.Front
import RuleTidy.Proofs.Yaml.Scalar.DoubleQuoted
