import RouteLens.Analysis.ApiDocs
import RouteLens.Analysis.Auth
import RouteLens.Analysis.ByName
import RouteLens.Analysis.Collaborators
import RouteLens.Analysis.Complexity
import RouteLens.Analysis.Exceptions
import RouteLens.Analysis.FieldTypes
import RouteLens.Analysis.LoopFetches
import RouteLens.Analysis.Method
import RouteLens.Analysis.Transactions
import RouteLens.Command.Arguments
import RouteLens.Command.Request
import RouteLens.Command.Result
import RouteLens.Command.Run
import RouteLens.Command.Template
import RouteLens.Config
import RouteLens.Config.File
import RouteLens.Config.Listing
import RouteLens.Config.Reading
import RouteLens.Disk
import RouteLens.Document.Base64
import RouteLens.Document.Content
import RouteLens.Document.Lexeme
import RouteLens.Document.Reading
import RouteLens.Document.Scalar
import RouteLens.Document.Timestamp
import RouteLens.Document.Writing
import RouteLens.Fault
import RouteLens.Feedback
import RouteLens.Grammar.CasePattern
import RouteLens.Grammar.Expression
import RouteLens.Grammar.Quoted
import RouteLens.Grammar.Reader
import RouteLens.Grammar.Statement
import RouteLens.Inquiry
import RouteLens.Issue
import RouteLens.Main
import RouteLens.Note
import RouteLens.Number.Binary64
import RouteLens.Number.Decimal
import RouteLens.Number.Reading
import RouteLens.Ordered
import RouteLens.Path
import RouteLens.Payload.Annotation
import RouteLens.Payload.Classes
import RouteLens.Payload.FieldType
import RouteLens.Payload.Quantity
import RouteLens.Payload.Scalar
import RouteLens.Payload.Synthesis
import RouteLens.Project
import RouteLens.Project.Discovery
import RouteLens.Proofs.Number.Exact
import RouteLens.Proofs.Payload.BestNumber
import RouteLens.Proofs.Payload.Bounds
import RouteLens.Proofs.Payload.Limit
import RouteLens.Proofs.Payload.Quantity
import RouteLens.Proofs.Payload.Samples
import RouteLens.Proofs.Payload.ScalarField
import RouteLens.Proofs.Project.Extent
import RouteLens.Proofs.Project.Reading
import RouteLens.Proofs.Session.Isolation
import RouteLens.Proofs.Session.Memory
import RouteLens.Proofs.Session.Places
import RouteLens.Proofs.Session.Steps
import RouteLens.Proofs.Session.Transparency
import RouteLens.Regex
import RouteLens.Regex.Matcher
import RouteLens.Regex.Patterns
import RouteLens.Regex.Reader
import RouteLens.ResultCache
import RouteLens.Session
import RouteLens.Source.Declaration
import RouteLens.Source.Reading
import RouteLens.Source.Segment
import RouteLens.Text.Case
import RouteLens.Text.Compatibility
import RouteLens.Text.Identifier
import RouteLens.Text.Letter
import RouteLens.Text.Lines
import RouteLens.Text.Printable
import RouteLens.Text.Quote
import RouteLens.Text.Search
import RouteLens.Text.Table
import RouteLens.Text.Utf8
import RouteLens.Token
import RouteLens.Token.Lexer
import RouteLens.Token.Number
import RouteLens.Tree.Expr
import RouteLens.Tree.Kind
import RouteLens.Tree.Literal
import RouteLens.Tree.Naming
import RouteLens.Tree.Node
import RouteLens.Tree.Position
import RouteLens.Tree.Printer
import RouteLens.Tree.Stmt
import RouteLens.Tree.Traversal
import RouteLens.Value
import RouteLens.Value.Arithmetic
import RouteLens.Value.Equality
import RouteLens.Value.Json
import RouteLens.Proofs.Tree.DocumentOrder
import RouteLens.Proofs.Tree.Preorder
import RouteLens.Proofs.Tree.LoopPaths
import RouteLens.Proofs.Analysis.LoopFetches
import RouteLens.Proofs.Payload.Depth
import RouteLens.Proofs.Grammar.Texts
import RouteLens.Proofs.Grammar.Readers
import RouteLens.Proofs.Payload.Recursion
import RouteLens.Proofs.Payload.QuotedAnnotations
import RouteLens.Proofs.Payload.Termination
import RouteLens.Proofs.Session.ResultHistory
import RouteLens.Proofs.Session.BuildChange
import RouteLens.Proofs.Session.PartialSettings
import RouteLens.Proofs.Session.Answers
import RouteLens.Proofs.Command.SampleModes
import RouteLens.Proofs.Session.PayloadLocality
import RouteLens.Proofs.Ordered
import RouteLens.Proofs.Payload.Ancestry
import RouteLens.Proofs.Payload.BaseSearch
import RouteLens.Proofs.Payload.FullReading
import RouteLens.Proofs.Payload.WrappedAnnotations
import RouteLens.Proofs.Payload.UnionMembers
import RouteLens.Proofs.Payload.LengthBounds
import RouteLens.Proofs.Payload.InheritedFields
import RouteLens.Proofs.Payload.Linearization
import RouteLens.Proofs.Payload.ClassReferences
import RouteLens.Proofs.Analysis.Constructions
import RouteLens.Proofs.Analysis.ExceptionChoice
import RouteLens.Proofs.Tree.Relabelling
import RouteLens.Proofs.Analysis.ImportAliases
import RouteLens.Proofs.Analysis.ExceptionSources
import RouteLens.Proofs.Analysis.CallViews
import RouteLens.Proofs.Analysis.DecisionPoints
import RouteLens.Proofs.Session.Snapshots
import RouteLens.Proofs.Number.Line
import RouteLens.Proofs.Payload.BoundCalls
import RouteLens.Proofs.Source.Signatures
import RouteLens.Proofs.Feedback.CallAccounting
import RouteLens.Proofs.Value.Operations
import RouteLens.Proofs.Tree.Evaluation
