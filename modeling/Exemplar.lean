import Exemplar.Code.Cursor
import Exemplar.Code.Grammar.Basic
import Exemplar.Code.Grammar.Declaration
import Exemplar.Code.Grammar.Expression
import Exemplar.Code.Grammar.Modifier
import Exemplar.Code.Grammar.Statement
import Exemplar.Code.Kind
import Exemplar.Code.Lexer
import Exemplar.Code.NestedClass
import Exemplar.Code.Parser
import Exemplar.Code.Presence
import Exemplar.Code.Token
import Exemplar.Code.Tree
import Exemplar.CommandLine.Arguments
import Exemplar.CommandLine.Run
import Exemplar.CommandLine.Snapshot
import Exemplar.Coverage.Check
import Exemplar.Coverage.Conditionals
import Exemplar.Coverage.Context
import Exemplar.Coverage.Evidence
import Exemplar.Coverage.Members
import Exemplar.Coverage.NodeTypes
import Exemplar.Coverage.Result
import Exemplar.Coverage.Strategy
import Exemplar.Example.Basic
import Exemplar.Example.Marker
import Exemplar.Fault
import Exemplar.Files.Answers
import Exemplar.Files.Cache
import Exemplar.Files.Exclude
import Exemplar.Files.Glob
import Exemplar.Files.Ignore
import Exemplar.Files.IgnorePattern
import Exemplar.Files.Memory
import Exemplar.Files.Path
import Exemplar.Files.Tree
import Exemplar.Files.Walk
import Exemplar.Location.Locator
import Exemplar.Location.Needle
import Exemplar.Main
import Exemplar.Markup.Alphabet
import Exemplar.Markup.Document
import Exemplar.Markup.Event
import Exemplar.Markup.Reference
import Exemplar.Markup.Scan
import Exemplar.Project.Check
import Exemplar.Project.RuleFile
import Exemplar.Proofs.Code.Alike
import Exemplar.Proofs.Code.Balance
import Exemplar.Proofs.Code.Bracket
import Exemplar.Proofs.Code.Cursor
import Exemplar.Proofs.Code.Enclosure
import Exemplar.Proofs.Code.Gap
import Exemplar.Proofs.Code.Grammar.Blind
import Exemplar.Proofs.Code.Grammar.Declaration
import Exemplar.Proofs.Code.Grammar.Expression
import Exemplar.Proofs.Code.Grammar.Layer
import Exemplar.Proofs.Code.Grammar.Modifier
import Exemplar.Proofs.Code.Grammar.Statement
import Exemplar.Proofs.Code.Grammar.Type
import Exemplar.Proofs.Code.Grammar.TypeRef
import Exemplar.Proofs.Code.Keyword
import Exemplar.Proofs.Code.Layout
import Exemplar.Proofs.Code.Lexer
import Exemplar.Proofs.Code.Line
import Exemplar.Proofs.Code.Mark
import Exemplar.Proofs.Code.NestedClass
import Exemplar.Proofs.Code.Parser
import Exemplar.Proofs.Code.Progress
import Exemplar.Proofs.Code.Reading
import Exemplar.Proofs.Code.Remark
import Exemplar.Proofs.Code.Search
import Exemplar.Proofs.Code.Shape
import Exemplar.Proofs.Code.Stretch
import Exemplar.Proofs.Code.Structure
import Exemplar.Proofs.Code.Tree
import Exemplar.Proofs.CommandLine.Run
import Exemplar.Proofs.Coverage.Balance
import Exemplar.Proofs.Coverage.Evidence
import Exemplar.Proofs.Coverage.Growth
import Exemplar.Proofs.Coverage.Lines
import Exemplar.Proofs.Coverage.Offset
import Exemplar.Proofs.Files.Cache
import Exemplar.Proofs.Files.Glob
import Exemplar.Proofs.Files.Tree
import Exemplar.Proofs.Location.Answer
import Exemplar.Proofs.Location.Clause
import Exemplar.Proofs.Location.Counted
import Exemplar.Proofs.Location.Locator
import Exemplar.Proofs.Location.Name
import Exemplar.Proofs.Location.Needle
import Exemplar.Proofs.Location.Spelling
import Exemplar.Proofs.Location.Target
import Exemplar.Proofs.Location.Value
import Exemplar.Proofs.Markup.Document
import Exemplar.Proofs.Markup.Element
import Exemplar.Proofs.Markup.Event
import Exemplar.Proofs.Markup.Local
import Exemplar.Proofs.Markup.Piece
import Exemplar.Proofs.Markup.Prefix
import Exemplar.Proofs.Markup.Reference
import Exemplar.Proofs.Markup.Scan
import Exemplar.Proofs.Markup.Slice
import Exemplar.Proofs.Markup.Tree
import Exemplar.Proofs.Markup.Writing
import Exemplar.Proofs.Project.Check
import Exemplar.Proofs.Project.Order
import Exemplar.Proofs.Project.Pool
import Exemplar.Proofs.Project.RuleFile
import Exemplar.Proofs.Project.Schedule
import Exemplar.Proofs.Query.Attribute
import Exemplar.Proofs.Query.Conditional
import Exemplar.Proofs.Query.NodeType
import Exemplar.Proofs.Query.Quote
import Exemplar.Proofs.Query.Segment
import Exemplar.Proofs.Report.Rule
import Exemplar.Proofs.Report.Slice
import Exemplar.Proofs.Rule.Basic
import Exemplar.Proofs.Rule.Definition
import Exemplar.Proofs.Rule.Line
import Exemplar.Proofs.Rule.Slice
import Exemplar.Proofs.Rule.Spelling
import Exemplar.Proofs.Settings.Exclude
import Exemplar.Proofs.Text.Line
import Exemplar.Proofs.Text.Part
import Exemplar.Proofs.Text.Place
import Exemplar.Proofs.Text.Search
import Exemplar.Proofs.Text.Word
import Exemplar.Query.Analysis
import Exemplar.Query.Attribute
import Exemplar.Query.Conditional
import Exemplar.Query.LetBlock
import Exemplar.Query.Literal
import Exemplar.Query.NodeType
import Exemplar.Query.Quote
import Exemplar.Report.Basic
import Exemplar.Report.Encode
import Exemplar.Report.Json
import Exemplar.Report.Style
import Exemplar.Report.Text
import Exemplar.Rule.Basic
import Exemplar.Settings.Basic
import Exemplar.Settings.Encode
import Exemplar.Text.Basic
import Exemplar.Text.Fold
import Exemplar.Text.Place
import Exemplar.Text.Search
import Exemplar.Text.Word
import Exemplar.Toml.Document
import Exemplar.Toml.Quoted
import Exemplar.Toml.Scalar
import Exemplar.Toml.Value
import Exemplar.Proofs.Example.Comment
import Exemplar.Proofs.Example.Marker
import Exemplar.Proofs.Example.Highlight
import Exemplar.Proofs.Query.LetBlock
import Exemplar.Proofs.Query.Literal
import Exemplar.Proofs.Query.Alike
import Exemplar.Proofs.Text.Match
import Exemplar.Proofs.Coverage.Item
import Exemplar.Proofs.Project.TooMany
import Exemplar.Proofs.Files.Prune
import Exemplar.Proofs.Code.Height
import Exemplar.Proofs.Location.Word
import Exemplar.Proofs.Rule.Dedent
