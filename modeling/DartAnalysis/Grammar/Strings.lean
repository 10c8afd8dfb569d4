/-
  String literals. A string with interpolation comes as an opening segment, marks with what they
  interpolate, and further segments; empty segments do not come at all.
-/
import DartAnalysis.Grammar.Types
import DartAnalysis.Literal.Text

namespace DartAnalysis

namespace Grammar

def isInterpolation (k : Token.Kind) : Bool :=
  k == .interpolationExpression || k == .interpolationIdentifier

/-- What an interpolation mark without braces stands before. -/
def interpolatedName : Parse NodeId := do
  match (← acceptKeyword .thisKw) with
  | some keyword => finish (.expression (.this keyword)) keyword
  | none => identifier

/-- One element after the opening segment, if there is another. -/
def stringElement (g : Inner) (quoting : Literal.Quoting) : Parse (Option NodeId) := do
  let first ← here
  match (← currentKind) with
  | .interpolationExpression =>
    let leftBracket ← advance
    let expression ← g.expression
    let rightBracket ← expectPunctuation .closeCurly
    return some (← finish (.stringElement (.spliced leftBracket expression (some rightBracket)))
      first)
  | .interpolationIdentifier =>
    let leftBracket ← advance
    let expression ← interpolatedName
    return some (← finish (.stringElement (.spliced leftBracket expression none)) first)
  | .stringPart =>
    let lexeme := (← current).lexeme
    let contents ← advance
    let isLast := !isInterpolation (← currentKind)
    let value := Literal.segmentValue quoting false isLast lexeme.toList
    return some (← finish (.stringElement (.text contents value)) first)
  | _ => return none

/-- One string, simple or with interpolation. -/
def singleString (g : Inner) : Parse NodeId := do
  let first ← here
  let lexeme := (← current).lexeme.toList
  let quoting := Literal.Quoting.ofSegment lexeme
  let literal ← advance
  if isInterpolation (← currentKind) then
    let opening ← finish
      (.stringElement (.text literal (Literal.segmentValue quoting true false lexeme))) first
    let elements ← many (stringElement g quoting)
    finish (.expression (.interpolation (opening :: elements))) first
  else
    finish (.expression (.string literal (Literal.segmentValue quoting true true lexeme))) first

/-- One string, or several in a row. -/
def stringLiteral (g : Inner) : Parse NodeId := do
  let first ← here
  let strings ← many do
    if (← isAt .string) then return some (← singleString g) else return none
  match strings with
  | [string] => return string
  | _ => finish (.expression (.adjacent strings)) first

end Grammar

end DartAnalysis
