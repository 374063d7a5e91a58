import Erasure.Check.StatedType
import Erasure.Check.File
import Erasure.Check.Function
import Erasure.Check.Global
import Erasure.Check.LiteralType
import Erasure.Check.Overload
import Erasure.Check.Place
import Erasure.Check.Reference
import Erasure.Check.Statement
import Erasure.Check.Target
import Erasure.CommandLine.Arguments
import Erasure.CommandLine.FileTable
import Erasure.CommandLine.Path
import Erasure.CommandLine.Run
import Erasure.Comment
import Erasure.Compile
import Erasure.Decimal.Double
import Erasure.Decimal.Literal
import Erasure.Decimal.Shortest
import Erasure.Diagnostic
import Erasure.Diagnostic.Message
import Erasure.Directive
import Erasure.Limits
import Erasure.Options
import Erasure.Parse.Arrows
import Erasure.Parse.Bindings
import Erasure.Parse.Chains
import Erasure.Parse.Classes
import Erasure.Parse.Declarations
import Erasure.Parse.Functions
import Erasure.Parse.Grammar
import Erasure.Parse.Imports
import Erasure.Parse.Modifiers
import Erasure.Parse.Operators
import Erasure.Parse.Primary
import Erasure.Parse.State
import Erasure.Parse.Statements
import Erasure.Parse.Types
import Erasure.Parse.Variables
import Erasure.Print.Callable
import Erasure.Print.Class
import Erasure.Print.Collection
import Erasure.Print.Context
import Erasure.Print.Erased
import Erasure.Print.Expression
import Erasure.Print.Field
import Erasure.Print.File
import Erasure.Print.FreshName
import Erasure.Print.Linkage
import Erasure.Print.Lowered
import Erasure.Print.Module
import Erasure.Print.Operand
import Erasure.Print.Pattern
import Erasure.Print.Statement
import Erasure.Print.Trivia
import Erasure.Print.ValueUse
import Erasure.Print.Writer
import Erasure.Report
import Erasure.Report.Json
import Erasure.Scope.Binder
import Erasure.Scope.Bindings
import Erasure.Scope.EnumValue
import Erasure.Scope.Symbol
import Erasure.Span
import Erasure.Syntax.Children
import Erasure.Syntax.Name
import Erasure.Syntax.Node
import Erasure.Syntax.Precedence
import Erasure.Syntax.Query
import Erasure.Syntax.SourceFile
import Erasure.Text.Basic
import Erasure.Text.Character
import Erasure.Text.LineMap
import Erasure.Text.Property
import Erasure.Text.Quoted
import Erasure.Token.Cursor
import Erasure.Token.Escape
import Erasure.Token.Kind
import Erasure.Token.Scanner
import Erasure.Token.Stream
import Erasure.Main
import Erasure.Proofs.Parse.Chains
import Erasure.Proofs.Parse.Comparisons
import Erasure.Proofs.Parse.DeepTypes
import Erasure.Proofs.Parse.Types
import Erasure.Proofs.Parse.Genuine
import Erasure.Proofs.Parse.Judgement
import Erasure.Proofs.Parse.Names
import Erasure.Proofs.Parse.Expressions
import Erasure.Proofs.Parse.Recovery
import Erasure.Proofs.Parse.Runs
import Erasure.Proofs.Parse.Statements
import Erasure.Proofs.Parse.Tests
import Erasure.Proofs.Parse.TypeArguments
import Erasure.Proofs.Token.Coverage
import Erasure.Proofs.Token.Cursor
import Erasure.Proofs.Token.Line
import Erasure.Proofs.Token.Place
import Erasure.Proofs.Token.Scanner
import Erasure.Proofs.Token.Trivia
import Erasure.Proofs.Untyped.Tree
import Erasure.Proofs.Untyped.Visit
import Erasure.Proofs.Scope.Bindings
import Erasure.Proofs.Untyped.Matching
import Erasure.Proofs.Untyped.Changes
import Erasure.Proofs.Scope.Growth
import Erasure.Proofs.Scope.Secluded
import Erasure.Proofs.Scope.SecludedWalk
import Erasure.Proofs.Untyped.Binder
import Erasure.Proofs.Untyped.BinderWalk
import Erasure.Proofs.Untyped.EnumValues
import Erasure.Proofs.Untyped.Linkage
import Erasure.Proofs.Untyped.Output
import Erasure.Proofs.Print.EnumConstant
import Erasure.Proofs.Print.ExportedName
import Erasure.Proofs.Print.ObjectVariable
import Erasure.Proofs.Print.OptionalChain
import Erasure.Proofs.Scope.Invariant
import Erasure.Proofs.Scope.Placement
import Erasure.Proofs.Text.Quoted
import Erasure.Proofs.Print.ExportList
import Erasure.Proofs.Print.Surroundings
import Erasure.Proofs.Print.Comments
import Erasure.Proofs.Scope.Agreement
import Erasure.Proofs.Parse.Descent
import Erasure.Proofs.Parse.Termination
import Erasure.Proofs.Parse.Numbering.Functions
import Erasure.Proofs.Parse.Numbering.Statements
import Erasure.Proofs.Scope.RecordingWalk
import Erasure.Proofs.Scope.Entry
import Erasure.Proofs.Scope.Redeclaration
import Erasure.Proofs.Parse.OperatorTree
import Erasure.Proofs.Parse.Climbing
import Erasure.Proofs.Parse.Reports
import Erasure.Proofs.Print.LiveExport
import Erasure.Proofs.Text.Lines
import Erasure.Proofs.Text.Placeholders
import Erasure.Proofs.Text.Positions
import Erasure.Proofs.Token.StringLiteral
import Erasure.Proofs.Token.Skipped
import Erasure.Proofs.Token.DirectiveLines
import Erasure.Proofs.Token.Reached
import Erasure.Proofs.Token.Spelling
import Erasure.Proofs.Token.Apart
import Erasure.Proofs.Print.EnumInitializer
import Erasure.Proofs.Print.StaticOrder
import Erasure.Proofs.Scope.EnumFolding
import Erasure.Proofs.Scope.OwnName
import Erasure.Proofs.Print.EmbeddedBody
import Erasure.Proofs.Print.FreshName
import Erasure.Proofs.Check.UnionType
import Erasure.Proofs.Check.JumpReports
import Erasure.Proofs.DiagnosticLimit
