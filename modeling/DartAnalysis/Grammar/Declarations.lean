/-
  Parameters, function bodies, functions and variables: the declarations that occur at the top level
  and inside classes and statements alike.
-/
import DartAnalysis.Grammar.Types

namespace DartAnalysis

namespace Grammar

/-- The keyword of a variable or parameter, if there is one. -/
def variableKeyword? : Parse (Option TokenId) := do
  if isVariableKeyword (← currentKind) then return some (← advance) else return none

/-! ## Parameters -/

def normalParameter (g : Inner) : Parse NodeId := do
  let first ← here
  let keyword? ← variableKeyword?
  let typed ← looking fun ts =>
    (skipType ts).any fun after => isDeclaredNameAt after || kindAt after == .keyword .thisKw
  let type? ← if typed then some <$> g.typeName else pure none
  match (← acceptKeyword .thisKw) with
  | some this =>
    let period ← expectPunctuation .period
    let name ← identifier
    finish (.parameter (.field keyword? type? this period name)) first
  | none =>
    let name ← identifier
    finish (.parameter (.simple keyword? type? name)) first

/-- What separates an optional parameter from its default value; a colon only if it is named. -/
def defaultSeparator? (named : Bool) : Parse (Option TokenId) := do
  if named then
    match (← acceptPunctuation .colon) with
    | some colon => return some colon
    | none => acceptOperator .eq
  else acceptOperator .eq

def optionalParameter (g : Inner) (named : Bool) : Parse NodeId := do
  let first ← here
  let parameter ← normalParameter g
  let separator? ← defaultSeparator? named
  let value? ← if separator?.isSome then some <$> g.expression else pure none
  let kind := if named then ParameterKind.named else .positional
  finish (.parameter (.optional parameter kind separator? value?)) first

/-- The optional parameters after their opening delimiter. -/
def optionalParameters (g : Inner) (named : Bool) : Parse (List NodeId) := do
  let found ← repeating (fun (found : List NodeId) => do
    let parameter ← optionalParameter g named
    let comma? ← acceptPunctuation .comma
    let closed := (← isAtPunctuation .closeSquare) || (← isAtPunctuation .closeCurly)
    return (parameter :: found, comma?.isSome && !closed)) []
  return found.reverse

/-- The parameters between the parentheses, with the delimiters of the optional ones. -/
structure ParameterGroup where
  /-- Latest first. -/
  parameters : List NodeId
  leftDelimiter? : Option TokenId
  rightDelimiter? : Option TokenId

/-- One more parameter, or the group of optional ones that ends the list. -/
def parameterStep (g : Inner) (group : ParameterGroup) : Parse (ParameterGroup × Bool) := do
  let kind ← currentKind
  if kind == .punctuation .openSquare || kind == .punctuation .openCurly then
    let named := kind == .punctuation .openCurly
    let left ← advance
    let optional ← optionalParameters g named
    let right ← expectPunctuation (if named then .closeCurly else .closeSquare)
    return (⟨optional.reverse ++ group.parameters, some left, some right⟩, false)
  else
    let parameter ← normalParameter g
    let comma? ← acceptPunctuation .comma
    let closed ← isAtPunctuation .closeParen
    return ({ group with parameters := parameter :: group.parameters },
      comma?.isSome && !closed)

def parameterList (g : Inner) : Parse NodeId := do
  let first ← here
  let leftParen ← expectPunctuation .openParen
  let group ←
    if (← isAtPunctuation .closeParen) then pure ⟨[], none, none⟩
    else repeating (parameterStep g) ⟨[], none, none⟩
  let rightParen ← expectPunctuation .closeParen
  finish (.parameterList leftParen group.parameters.reverse group.leftDelimiter?
    group.rightDelimiter? rightParen) first

/-- The parameters of a function; a getter has none, and elsewhere their lack is reported. -/
def functionParameters? (g : Inner) (isGetter : Bool) : Parse (Option NodeId) := do
  if isGetter then return none
  else if (← isAtPunctuation .openParen) then return some (← parameterList g)
  else
    reportHere .missingFunctionParameters []
    return none

/-! ## Bodies -/

/-- Repeats `statement` up to a token where `stop` holds; a token that no statement reads is
    reported and skipped. -/
def statements (g : Inner) (stop : Parse Bool) : Parse (List NodeId) := do
  let found ← repeating (fun (found : List NodeId) => do
    if (← stop) then return (found, false)
    let before ← unreadCount
    let statement ← g.statement
    if (← unreadCount) = before then
      reportUnexpected
      let _ ← advance
    return (statement :: found, true)) []
  return found.reverse

def block (g : Inner) : Parse NodeId := do
  let first ← here
  let leftBrace ← expectPunctuation .openCurly
  let body ← statements g do return (← isAtPunctuation .closeCurly) || (← isAtEnd)
  let rightBrace ← expectPunctuation .closeCurly
  finish (.statement (.block leftBrace body rightBrace)) first

/-- A function body. A semicolon alone is a body only where `allowEmpty` says so, and the
    expression of a closure is not followed by one. -/
def functionBody (g : Inner) (allowEmpty inExpression : Bool) : Parse NodeId := do
  let first ← here
  match (← currentKind) with
  | .punctuation .semicolon =>
    if !allowEmpty then reportHere .missingFunctionBody []
    let semicolon ← advance
    finish (.functionBody (.emptyBody semicolon)) first
  | .punctuation .fatArrow =>
    let arrow ← advance
    let expression ← g.expression
    let semicolon? ←
      if inExpression then pure none else some <$> expectPunctuation .semicolon
    finish (.functionBody (.expressionBody arrow expression semicolon?)) first
  | .punctuation .openCurly =>
    let body ← block g
    finish (.functionBody (.blockBody body)) first
  | _ =>
    reportHere .missingFunctionBody []
    let semicolon ← insertMissing (.punctuation .semicolon)
    finish (.functionBody (.emptyBody semicolon)) first

/-! ## Functions and variables -/

/-- A function, getter or setter after its return type. -/
def functionDeclaration (g : Inner) (comment? : Option NodeId) (external? : Option TokenId)
    (returnType? : Option NodeId) (first : TokenId) : Parse NodeId := do
  let isProperty ← looking isPropertyAt
  let isGetter := isProperty && (← isAtKeyword .getKw)
  let property? ← if isProperty then some <$> advance else pure none
  let name ← identifier
  let closureFirst ← here
  let parameters? ← functionParameters? g isGetter
  let body ← functionBody g external?.isSome false
  let closure ← finish (.expression (.closure parameters? body)) closureFirst
  finish (.declaration (.functionDecl comment? external? returnType? property? name closure)) first

def variableDeclaration (g : Inner) : Parse NodeId := do
  let first ← here
  let name ← identifier
  match (← acceptOperator .eq) with
  | some equals =>
    let initializer ← g.expression
    finish (.variable name (some equals) (some initializer)) first
  | none => finish (.variable name none none) first

/-- Variables with their keyword or type, without the semicolon. -/
def variableList (g : Inner) : Parse NodeId := do
  let first ← here
  let isVar ← isAtKeyword .varKw
  let keyword? ← variableKeyword?
  let typed := !isVar && (← looking isTypeThenName)
  let type? ← if typed then some <$> g.typeName else pure none
  if keyword?.isNone && type?.isNone then reportHere .expectedTypeName []
  let vars ← commaSeparated (variableDeclaration g)
  finish (.variableList keyword? type? vars) first

/-- The return type of a function that writes one. -/
def returnType? (g : Inner) : Parse (Option NodeId) := do
  if (← isAtKeyword .voidKw) || (← looking isTypeThenName) then return some (← returnType g)
  else return none

end Grammar

end DartAnalysis
