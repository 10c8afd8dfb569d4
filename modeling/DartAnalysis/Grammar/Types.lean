/-
  Type names, type arguments and type parameters. Productions that nest take the productions of the
  next nesting level as an argument, `Inner`; which these are is decided in one place for the whole
  grammar.
-/
import DartAnalysis.Grammar.Lookahead

namespace DartAnalysis

namespace Grammar

/-- The productions through which the grammar recurs, one nesting level further in. -/
structure Inner where
  expression : Parse NodeId
  /-- An expression without cascade. -/
  plainExpression : Parse NodeId
  unary : Parse NodeId
  statement : Parse NodeId
  typeName : Parse NodeId

/-- A name with an optional qualifier, as a type is called. -/
def typeIdentifier : Parse NodeId := do
  let first ← here
  if (← isAtName) then
    let qualifier ← identifier
    if (← isAtPunctuation .period) && (← peek 1).isName then
      let period ← advance
      let name ← identifier
      finish (.expression (.qualified qualifier period name)) first
    else return qualifier
  else
    reportHere .expectedTypeName []
    missingIdentifier

def typeArguments (g : Inner) : Parse NodeId := do
  let first ← here
  let leftBracket ← expectOperator .lt
  let arguments ← commaSeparated g.typeName
  let rightBracket ← expectAngle
  finish (.typeArgumentList leftBracket arguments rightBracket) first

/-- Type arguments, if there are any. -/
def typeArguments? (g : Inner) : Parse (Option NodeId) := do
  if (← isAtOperator .lt) then return some (← typeArguments g) else return none

def typeName (g : Inner) : Parse NodeId := do
  let first ← here
  let name ← typeIdentifier
  let arguments? ← typeArguments? g
  finish (.type name arguments?) first

/-- `void` or a type name. -/
def returnType (g : Inner) : Parse NodeId := do
  match (← acceptKeyword .voidKw) with
  | some token =>
    let name ← identifierOn token
    alloc (.type name none) token token
  | none => g.typeName

def typeParameter (g : Inner) : Parse NodeId := do
  let first ← here
  let name ← identifier
  match (← acceptKeyword .extendsKw) with
  | some keyword =>
    let bound ← g.typeName
    finish (.typeParameter name (some keyword) (some bound)) first
  | none => finish (.typeParameter name none none) first

def typeParameters (g : Inner) : Parse NodeId := do
  let first ← here
  let leftBracket ← expectOperator .lt
  let parameters ← commaSeparated (typeParameter g)
  let rightBracket ← expectAngle
  finish (.typeParameterList leftBracket parameters rightBracket) first

/-- Type parameters, if there are any. -/
def typeParameters? (g : Inner) : Parse (Option NodeId) := do
  if (← isAtOperator .lt) then return some (← typeParameters g) else return none

end Grammar

end DartAnalysis
