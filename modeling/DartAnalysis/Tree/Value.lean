/-
  What a node denotes beyond its structure: the value of a literal, the name that an identifier or
  type writes, the kind of a parameter, the text of a comment.
-/
import DartAnalysis.Literal.Number
import DartAnalysis.Tree.Basic

namespace DartAnalysis

inductive Node.Value where
  /-- Absent if the literal does not fit. -/
  | integer (n : Option Nat)
  /-- A binary64 number, as its bits. -/
  | double (bits : Nat)
  | boolean (b : Bool)
  /-- Absent if the string has interpolation. -/
  | text (s : Option String)
  | name (s : String)
  | parameter (k : ParameterKind)
  | comments (lexemes : List String)
deriving DecidableEq, Repr

namespace Tree

def value? (t : Tree) (id : NodeId) : Option Node.Value :=
  match t.kind id with
  | .expression (.integer literal) => some (.integer (Literal.integer? (t.lexeme literal)))
  | .expression (.double literal) => some (.double (Literal.doubleBits (t.lexeme literal)))
  | .expression (.boolean literal) =>
    some (.boolean ((t.token literal).kind == .keyword .trueKw))
  | .stringElement (.text _ value) => some (.text (some value))
  | .expression (.string ..) | .expression (.adjacent _) => some (.text (t.stringValue? id))
  | .expression (.qualified ..) | .libraryName _ | .type .. => some (.name (t.nameOf id))
  | .parameter (.optional _ kind _ _) => some (.parameter kind)
  | .comment comments => some (.comments (comments.map fun c => (t.comment c).lexeme))
  | _ => none

end Tree

end DartAnalysis
