/-
  Statements. A name followed by a colon labels the statement after it; otherwise a keyword decides,
  and failing that the tokens ahead tell declarations from expressions.
-/
import DartAnalysis.Grammar.Expressions

namespace DartAnalysis

namespace Grammar

def finishStatement (s : Statement) (first : TokenId) : Parse NodeId :=
  finish (.statement s) first

def label? : Parse (Option NodeId) := do
  if (← isAtName) && (← peek 1).kind == .punctuation .colon then
    let first ← here
    let name ← identifier
    let colon ← advance
    return some (← finish (.label name colon) first)
  else return none

def labels : Parse (List NodeId) := many label?

/-! ## Declarations -/

def variableStatement (g : Inner) : Parse NodeId := do
  let first ← here
  let varList ← variableList g
  let semicolon ← expectPunctuation .semicolon
  finishStatement (.variablesDecl varList semicolon) first

def localFunction (g : Inner) : Parse NodeId := do
  let first ← here
  let type? ← returnType? g
  let declaration ← functionDeclaration g none none type? first
  finishStatement (.functionDecl declaration) first

/-! ## Control flow -/

/-- A condition in parentheses. -/
def parenCondition (g : Inner) : Parse (TokenId × NodeId × TokenId) := do
  let leftParen ← expectPunctuation .openParen
  let condition ← g.expression
  let rightParen ← expectPunctuation .closeParen
  return (leftParen, condition, rightParen)

def ifStatement (g : Inner) : Parse NodeId := do
  let first ← here
  let keyword ← advance
  let (leftParen, condition, rightParen) ← parenCondition g
  let thenStatement ← g.statement
  match (← acceptKeyword .elseKw) with
  | some elseKeyword =>
    let elseStatement ← g.statement
    finishStatement (.ifElse keyword leftParen condition rightParen thenStatement
      (some elseKeyword) (some elseStatement)) first
  | none =>
    finishStatement (.ifElse keyword leftParen condition rightParen thenStatement none none) first

def whileStatement (g : Inner) : Parse NodeId := do
  let first ← here
  let keyword ← advance
  let (leftParen, condition, rightParen) ← parenCondition g
  let body ← g.statement
  finishStatement (.whileLoop keyword leftParen condition rightParen body) first

def doStatement (g : Inner) : Parse NodeId := do
  let first ← here
  let keyword ← advance
  let body ← g.statement
  let whileKeyword ← expectKeyword .whileKw
  let (leftParen, condition, rightParen) ← parenCondition g
  let semicolon ← expectPunctuation .semicolon
  finishStatement (.doLoop keyword body whileKeyword leftParen condition rightParen semicolon)
    first

/-- The variable of a loop over elements: a declared one, or the name of a variable in scope. -/
def loopVariable (g : Inner) : Parse NodeId := do
  let first ← here
  let keyword? ← variableKeyword?
  let type? ← if (← looking isTypeThenName) then some <$> g.typeName else pure none
  let name ← identifier
  if keyword?.isSome || type?.isSome then
    finish (.declaredIdentifier keyword? type? name) first
  else return name

def forEachStatement (g : Inner) (first keyword leftParen : TokenId) : Parse NodeId := do
  let declared ← loopVariable g
  let inKeyword ← expectKeyword .inKw
  let iterator ← g.expression
  let rightParen ← expectPunctuation .closeParen
  let body ← g.statement
  finishStatement (.forEach keyword leftParen declared inKeyword iterator rightParen body) first

/-- What a loop declares or evaluates before it starts. -/
def loopStart (g : Inner) : Parse (Option NodeId × Option NodeId) := do
  let declares := isVariableKeyword (← currentKind) || (← looking isTypeThenName)
  if declares then return (some (← variableList g), none)
  else if (← isAtPunctuation .semicolon) then return (none, none)
  else return (none, some (← g.expression))

def countingStatement (g : Inner) (first keyword leftParen : TokenId) : Parse NodeId := do
  let (varList?, initialization?) ← loopStart g
  let leftSeparator ← expectPunctuation .semicolon
  let condition? ←
    if (← isAtPunctuation .semicolon) then pure none else some <$> g.expression
  let rightSeparator ← expectPunctuation .semicolon
  let updaters ←
    if (← isAtPunctuation .closeParen) then pure [] else commaSeparated g.expression
  let rightParen ← expectPunctuation .closeParen
  let body ← g.statement
  finishStatement (.forLoop keyword leftParen varList? initialization? leftSeparator condition?
    rightSeparator updaters rightParen body) first

def forStatement (g : Inner) : Parse NodeId := do
  let first ← here
  let keyword ← advance
  let leftParen ← expectPunctuation .openParen
  if (← looking isForEachAt) then forEachStatement g first keyword leftParen
  else countingStatement g first keyword leftParen

/-! ## Switches -/

def isSwitchBoundary (k : Token.Kind) : Bool :=
  k == .keyword .caseKw || k == .keyword .defaultKw || k == .punctuation .closeCurly

/-- The statements of a switch member. -/
def memberStatements (g : Inner) : Parse (List NodeId) :=
  statements g do
    return (← isAtEnd) || isSwitchBoundary (← currentKind) || (← looking isSwitchLabelAt)

/-- The members read so far, last first, and whether a default was among them. -/
structure SwitchMembers where
  members : List NodeId
  hasDefault : Bool

def switchCase (g : Inner) (first keyword : TokenId) (labels : List NodeId) : Parse NodeId := do
  let expression ← g.expression
  let colon ← expectPunctuation .colon
  let body ← memberStatements g
  finish (.switchMember (.case labels keyword expression colon body)) first

def switchDefault (g : Inner) (first keyword : TokenId) (labels : List NodeId) :
    Parse NodeId := do
  let colon ← expectPunctuation .colon
  let body ← memberStatements g
  finish (.switchMember (.default labels keyword colon body)) first

/-- The member after its labels. What is neither a case nor the default is reported and skipped. -/
def switchMember (g : Inner) (found : SwitchMembers) (first : TokenId) (labels : List NodeId) :
    Parse SwitchMembers := do
  match (← currentKind) with
  | .keyword .caseKw =>
    let keyword ← advance
    if found.hasDefault then reportAt .switchHasCaseAfterDefaultCase keyword
    let member ← switchCase g first keyword labels
    return { found with members := member :: found.members }
  | .keyword .defaultKw =>
    let keyword ← advance
    if found.hasDefault then reportAt .switchHasMultipleDefaultCases keyword
    let member ← switchDefault g first keyword labels
    return ⟨member :: found.members, true⟩
  | _ =>
    reportHere .expectedCaseOrDefault []
    skipUntil isSwitchBoundary
    return found

/-- One more member. -/
def switchStep (g : Inner) (found : SwitchMembers) : Parse (SwitchMembers × Bool) := do
  if (← isAtPunctuation .closeCurly) || (← isAtEnd) then return (found, false)
  let first ← here
  let labels ← labels
  return (← switchMember g found first labels, true)

def switchStatement (g : Inner) : Parse NodeId := do
  let first ← here
  let keyword ← advance
  let (leftParen, expression, rightParen) ← parenCondition g
  let leftBrace ← expectPunctuation .openCurly
  let found ← repeating (switchStep g) ⟨[], false⟩
  let rightBrace ← expectPunctuation .closeCurly
  finishStatement (.switch keyword leftParen expression rightParen leftBrace found.members.reverse
    rightBrace) first

/-! ## Exceptions -/

/-- The names that a catch binds, in parentheses. -/
structure CatchHead where
  catchKeyword? : Option TokenId := none
  leftParen? : Option TokenId := none
  exception? : Option NodeId := none
  comma? : Option TokenId := none
  stackTrace? : Option NodeId := none
  rightParen? : Option TokenId := none

def catchHead : Parse CatchHead := do
  match (← acceptKeyword .catchKw) with
  | none => return {}
  | some keyword =>
    let leftParen ← expectPunctuation .openParen
    let exception ← identifier
    let comma? ← acceptPunctuation .comma
    let stackTrace? ← if comma?.isSome then some <$> identifier else pure none
    let rightParen ← expectPunctuation .closeParen
    return ⟨some keyword, some leftParen, some exception, comma?, stackTrace?, some rightParen⟩

def catchClause (g : Inner) : Parse NodeId := do
  let first ← here
  let on? ← acceptKeyword .onKw
  let type? ← if on?.isSome then some <$> g.typeName else pure none
  let head ← catchHead
  let body ← block g
  finish (.catchClause on? type? head.catchKeyword? head.leftParen? head.exception? head.comma?
    head.stackTrace? head.rightParen? body) first

def tryStatement (g : Inner) : Parse NodeId := do
  let first ← here
  let keyword ← advance
  let body ← block g
  let clauses ← many do
    if (← isAtKeyword .onKw) || (← isAtKeyword .catchKw) then return some (← catchClause g)
    else return none
  let finally? ← acceptKeyword .finallyKw
  let finallyBlock? ← if finally?.isSome then some <$> block g else pure none
  if clauses.isEmpty && finallyBlock?.isNone then reportHere .missingCatchOrFinally []
  finishStatement (.tryCatch keyword body clauses finally? finallyBlock?) first

/-! ## Jumps and the rest -/

def returnStatement (g : Inner) : Parse NodeId := do
  let first ← here
  let keyword ← advance
  let expression? ←
    if (← isAtPunctuation .semicolon) then pure none else some <$> g.expression
  let semicolon ← expectPunctuation .semicolon
  finishStatement (.returns keyword expression? semicolon) first

/-- A break or continue: its keyword, the label it may name and the semicolon. -/
def jump : Parse (TokenId × Option NodeId × TokenId) := do
  let keyword ← advance
  let label? ← if (← isAtName) then some <$> identifier else pure none
  let semicolon ← expectPunctuation .semicolon
  return (keyword, label?, semicolon)

def breakStatement : Parse NodeId := do
  let first ← here
  let (keyword, label?, semicolon) ← jump
  finishStatement (.breaks keyword label? semicolon) first

def continueStatement : Parse NodeId := do
  let first ← here
  let (keyword, label?, semicolon) ← jump
  finishStatement (.continues keyword label? semicolon) first

def assertStatement (g : Inner) : Parse NodeId := do
  let first ← here
  let keyword ← advance
  let (leftParen, condition, rightParen) ← parenCondition g
  let semicolon ← expectPunctuation .semicolon
  finishStatement (.assertion keyword leftParen condition rightParen semicolon) first

def emptyStatement : Parse NodeId := do
  let first ← here
  let semicolon ← advance
  finishStatement (.empty semicolon) first

def expressionStatement (g : Inner) : Parse NodeId := do
  let first ← here
  let expression ← g.expression
  let semicolon ← expectPunctuation .semicolon
  finishStatement (.evaluate expression semicolon) first

/-- Nothing that begins a statement: it is reported, and one token is skipped unless a block or the
    text ends. -/
def noStatement : Parse NodeId := do
  reportHere .missingStatement []
  if !((← isAtPunctuation .closeCurly) || (← isAtEnd)) then
    let _ ← advance
  let first ← here
  let semicolon ← insertMissing (.punctuation .semicolon)
  finishStatement (.empty semicolon) first

/-- A declaration or expression that no keyword introduces. -/
def unmarkedStatement (g : Inner) : Parse NodeId := do
  let ts ← ahead
  if isTypeThenName ts then
    if isFunctionAt (((skipType ts).getD ts).drop 1) then localFunction g
    else variableStatement g
  else if isDeclaredNameAt ts && isFunctionAt (ts.drop 1) then localFunction g
  else if isExpressionAt ts then expressionStatement g
  else noStatement

def unlabeledStatement (g : Inner) : Parse NodeId := do
  match (← currentKind) with
  | .punctuation .openCurly => block g
  | .punctuation .semicolon => emptyStatement
  | .keyword .ifKw => ifStatement g
  | .keyword .whileKw => whileStatement g
  | .keyword .doKw => doStatement g
  | .keyword .forKw => forStatement g
  | .keyword .switchKw => switchStatement g
  | .keyword .tryKw => tryStatement g
  | .keyword .returnKw => returnStatement g
  | .keyword .breakKw => breakStatement
  | .keyword .continueKw => continueStatement
  | .keyword .assertKw => assertStatement g
  | .keyword .varKw | .keyword .finalKw => variableStatement g
  | .keyword .constKw =>
    if (← looking fun ts => isConstDeclaration (ts.drop 1)) then variableStatement g
    else unmarkedStatement g
  | .keyword .voidKw => localFunction g
  | _ => unmarkedStatement g

def statement (g : Inner) : Parse NodeId := do
  let first ← here
  let labels ← labels
  let statement ← unlabeledStatement g
  if labels.isEmpty then return statement
  else finishStatement (.labeled labels statement) first

end Grammar

end DartAnalysis
