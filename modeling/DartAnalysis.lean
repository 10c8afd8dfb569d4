import DartAnalysis.Binding.Inference
import DartAnalysis.Binding.Locate
import DartAnalysis.Binding.Node
import DartAnalysis.Binding.Reference
import DartAnalysis.Binding.Role
import DartAnalysis.Binding.State
import DartAnalysis.Binding.Unit
import DartAnalysis.Binding.Walk
import DartAnalysis.Diagnostic.Basic
import DartAnalysis.Diagnostic.Code
import DartAnalysis.Element.Basic
import DartAnalysis.Element.Core
import DartAnalysis.Element.Declarations
import DartAnalysis.Element.Graph
import DartAnalysis.Element.Id
import DartAnalysis.Element.Library
import DartAnalysis.Element.Location
import DartAnalysis.Flow.Exit
import DartAnalysis.Flow.Hint
import DartAnalysis.Grammar.Classes
import DartAnalysis.Grammar.Declarations
import DartAnalysis.Grammar.Expressions
import DartAnalysis.Grammar.Lookahead
import DartAnalysis.Grammar.Nesting
import DartAnalysis.Grammar.State
import DartAnalysis.Grammar.Statements
import DartAnalysis.Grammar.Strings
import DartAnalysis.Grammar.Types
import DartAnalysis.Grammar.Units
import DartAnalysis.LineMap
import DartAnalysis.Literal.Number
import DartAnalysis.Literal.Text
import DartAnalysis.Program.Closure
import DartAnalysis.Program.DeclaredType
import DartAnalysis.Program.Failure
import DartAnalysis.Program.TypeName
import DartAnalysis.Scope.Frame
import DartAnalysis.Scope.Namespace
import DartAnalysis.Source
import DartAnalysis.StaticType.Basic
import DartAnalysis.StaticType.Core
import DartAnalysis.StaticType.Hierarchy
import DartAnalysis.StaticType.Subtype
import DartAnalysis.Text.Basic
import DartAnalysis.Token.Basic
import DartAnalysis.Token.Keyword
import DartAnalysis.Token.Lexeme
import DartAnalysis.Token.Lexer
import DartAnalysis.Token.Operator
import DartAnalysis.Tree.Arena
import DartAnalysis.Tree.Basic
import DartAnalysis.Tree.Declaration
import DartAnalysis.Tree.Edit
import DartAnalysis.Tree.Expression
import DartAnalysis.Tree.Field
import DartAnalysis.Tree.Kind
import DartAnalysis.Tree.Locate
import DartAnalysis.Tree.Printer
import DartAnalysis.Tree.Statement
import DartAnalysis.Tree.Value
import DartAnalysis.Tree.Visit
import DartAnalysis.Workspace.Basic
import DartAnalysis.Workspace.Disk
import DartAnalysis.Workspace.Request
import DartAnalysis.Workspace.Sources
import DartAnalysis.Proofs.Scan.Piece
import DartAnalysis.Proofs.Scan.Tiling
import DartAnalysis.Proofs.Tree.Ownership
import DartAnalysis.Proofs.Tree.Sorts
import DartAnalysis.Proofs.Parse.Table
import DartAnalysis.Proofs.Parse.Edits
import DartAnalysis.Proofs.Parse.Held
import DartAnalysis.Proofs.Parse.Logic
import DartAnalysis.Proofs.Parse.Making
import DartAnalysis.Proofs.Parse.Classes
import DartAnalysis.Proofs.Parse.Statements
import DartAnalysis.Proofs.Parse.Total
import DartAnalysis.Proofs.Parse.Conservation
import DartAnalysis.Proofs.Parse.Formed
import DartAnalysis.Proofs.Parse.Spans
import DartAnalysis.Proofs.Parse.Fidelity
import DartAnalysis.Proofs.StaticType.Comparison
import DartAnalysis.Proofs.Program.Finished
import DartAnalysis.Proofs.Program.Reuse
import DartAnalysis.Proofs.Workspace.Reading
import DartAnalysis.Proofs.Workspace.History
import DartAnalysis.Proofs.Workspace.Stamps
import DartAnalysis.Proofs.Workspace.Freshness
import DartAnalysis.Proofs.Workspace.Notice
import DartAnalysis.Proofs.Scope.Exports
import DartAnalysis.Proofs.Program.Order
import DartAnalysis.Proofs.Program.Reachable
import DartAnalysis.Proofs.Parse.Places
import DartAnalysis.Proofs.Binding.Reports
import DartAnalysis.Proofs.Binding.Agreement
import DartAnalysis.Proofs.Binding.Extension
import DartAnalysis.Proofs.Binding.Conservative
import DartAnalysis.Proofs.StaticType.Lookup
import DartAnalysis.Proofs.StaticType.Instantiation
import DartAnalysis.Proofs.StaticType.UpperBound
import DartAnalysis.Proofs.Parse.Silence
import DartAnalysis.Proofs.Tree.Moves
import DartAnalysis.Proofs.Parse.Reading
import DartAnalysis.Proofs.Parse.Operators
import DartAnalysis.Proofs.Parse.TypeSyntax
import DartAnalysis.Proofs.Scan.Quoted
import DartAnalysis.Proofs.Parse.Quoted
import DartAnalysis.Proofs.StaticType.Inheritance
import DartAnalysis.Proofs.Element.ClassNames
import DartAnalysis.Proofs.Binding.Hierarchy
import DartAnalysis.Proofs.Flow.Exits
import DartAnalysis.Proofs.Parse.Innermost
import DartAnalysis.Proofs.Parse.Documentation
import DartAnalysis.Proofs.Tree.Placement
import DartAnalysis.Proofs.Workspace.Failures
import DartAnalysis.Proofs.LineMap
import DartAnalysis.Proofs.Source.Identity
import DartAnalysis.Proofs.Source.NormalForms
