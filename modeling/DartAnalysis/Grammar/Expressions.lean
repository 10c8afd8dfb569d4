/-
  Expressions. From the loosest: throw, assignment and cascade; the conditional; binary operators by
  precedence, with type tests and casts among the relational ones; operators before an operand;
  selectors and operators after one; primaries.
-/
import DartAnalysis.Grammar.Declarations
import DartAnalysis.Grammar.Strings

namespace DartAnalysis

namespace Grammar

def finishExpression (e : Expression) (first : TokenId) : Parse NodeId :=
  finish (.expression e) first

/-! ## Arguments -/

/-- An argument, which a label makes a named one. -/
def argument (g : Inner) : Parse NodeId := do
  if (← isAtName) && (← peek 1).kind == .punctuation .colon then
    let first ← here
    let label ← identifier
    let colon ← advance
    let name ← finish (.label label colon) first
    let expression ← g.expression
    finishExpression (.named name expression) first
  else g.expression

def argumentList (g : Inner) : Parse NodeId := do
  let first ← here
  let leftParen ← expectPunctuation .openParen
  let arguments ← closedList .closeParen (argument g)
  let rightParen ← expectPunctuation .closeParen
  finish (.argumentList leftParen arguments rightParen) first

/-! ## Primaries -/

/-- A dot and a name after it, if there is a dot. -/
def dottedName? : Parse (Option TokenId × Option NodeId) := do
  match (← acceptPunctuation .period) with
  | some period => return (some period, some (← identifier))
  | none => return (none, none)

/-- The creation of an instance. A dotted name is kept as a qualified type name; whether its last
    part names a constructor is not decided here. -/
def instanceCreation (g : Inner) : Parse NodeId := do
  let first ← here
  let keyword ← advance
  let nameFirst ← here
  let type ← g.typeName
  let (period?, name?) ← dottedName?
  let constructorName ← finish (.constructorName type period? name?) nameFirst
  let arguments ← argumentList g
  finishExpression (.create keyword constructorName arguments) first

def mapEntry (g : Inner) : Parse NodeId := do
  let first ← here
  let key ← g.expression
  let separator ← expectPunctuation .colon
  let value ← g.expression
  finish (.mapEntry key separator value) first

/-- A list or map after its `const`. -/
def collection (g : Inner) (const? : Option TokenId) (first : TokenId) : Parse NodeId := do
  let typeArguments? ← typeArguments? g
  match (← acceptPunctuation .openCurly) with
  | some leftBracket =>
    let entries ← closedList .closeCurly (mapEntry g)
    let rightBracket ← expectPunctuation .closeCurly
    finishExpression (.map const? typeArguments? leftBracket entries rightBracket) first
  | none =>
    let leftBracket ← expectPunctuation .openSquare
    let elements ← closedList .closeSquare g.expression
    let rightBracket ← expectPunctuation .closeSquare
    finishExpression (.list const? typeArguments? leftBracket elements rightBracket) first

/-- A closure or a parenthesized expression. -/
def parenthesized (g : Inner) : Parse NodeId := do
  let first ← here
  if (← looking isFunctionAt) then
    let parameters ← parameterList g
    let body ← functionBody g false true
    finishExpression (.closure (some parameters) body) first
  else
    let leftParen ← advance
    let expression ← g.expression
    let rightParen ← expectPunctuation .closeParen
    finishExpression (.paren leftParen expression rightParen) first

def primary (g : Inner) : Parse NodeId := do
  let first ← here
  match (← currentKind) with
  | .keyword .thisKw => finishExpression (.this (← advance)) first
  | .keyword .superKw => finishExpression (.super (← advance)) first
  | .keyword .nullKw => finishExpression (.null (← advance)) first
  | .keyword .trueKw | .keyword .falseKw => finishExpression (.boolean (← advance)) first
  | .int | .hexInt => finishExpression (.integer (← advance)) first
  | .double => finishExpression (.double (← advance)) first
  | .string => stringLiteral g
  | .keyword .newKw => instanceCreation g
  | .keyword .constKw =>
    if (← peek 1).isName then instanceCreation g
    else
      let const ← advance
      collection g (some const) first
  | .operator .lt | .punctuation .openSquare | .punctuation .openCurly => collection g none first
  | .punctuation .openParen => parenthesized g
  | k =>
    if k.isName then identifier
    else
      reportHere .missingExpression []
      missingIdentifier

/-! ## Selectors -/

def isIdentifierKind : Node.Kind → Bool
  | .expression (.identifier _) => true
  | _ => false

/-- A dot and a name after a target: a call, a qualified name or a property. -/
def dotSelector (g : Inner) (target : NodeId) (first : TokenId) : Parse NodeId := do
  let period ← advance
  let name ← identifier
  if (← isAtPunctuation .openParen) then
    let arguments ← argumentList g
    finishExpression (.call (some target) (some period) name arguments) first
  else if isIdentifierKind (← kindOf target) then
    finishExpression (.qualified target period name) first
  else finishExpression (.property (some target) period name) first

def indexSelector (g : Inner) (target? : Option NodeId) (period? : Option TokenId)
    (first : TokenId) : Parse NodeId := do
  let leftBracket ← advance
  let index ← g.expression
  let rightBracket ← expectPunctuation .closeSquare
  finishExpression (.indexed target? period? leftBracket index rightBracket) first

/-- One selector after a target, if there is one. -/
def selector? (g : Inner) (target : NodeId) : Parse (Option NodeId) := do
  let first ← firstTokenOf target
  match (← currentKind) with
  | .punctuation .period => return some (← dotSelector g target first)
  | .punctuation .openSquare => return some (← indexSelector g (some target) none first)
  | .punctuation .openParen =>
    let arguments ← argumentList g
    if isIdentifierKind (← kindOf target) then
      return some (← finishExpression (.call none none target arguments) first)
    else return some (← finishExpression (.apply target arguments) first)
  | _ => return none

def selectors (g : Inner) (target : NodeId) : Parse NodeId := chained (selector? g) target

/-! ## Operators -/

def isIncrement (k : Token.Kind) : Bool :=
  k == .operator .plusPlus || k == .operator .minusMinus

/-- A primary with its selectors, perhaps counted up or down. -/
def operand (g : Inner) : Parse NodeId := do
  let first ← here
  let target ← primary g
  let target ← selectors g target
  if isIncrement (← currentKind) then finishExpression (.postUnary target (← advance)) first
  else return target

/-- An operand with the operators before it. -/
def unary (g : Inner) : Parse NodeId := do
  let first ← here
  match (← currentKind) with
  | .operator .minus | .operator .bang | .operator .tilde | .operator .plusPlus
  | .operator .minusMinus =>
    let operator ← advance
    let operand ← g.unary
    finishExpression (.unary operator operand) first
  | _ => operand g

/-- A type test or cast of `left`, if one follows. -/
def typeOperation? (g : Inner) (first : TokenId) (left : NodeId) : Parse (Option NodeId) := do
  match (← acceptKeyword .isKw) with
  | some isOperator =>
    let not? ← acceptOperator .bang
    let type ← g.typeName
    return some (← finishExpression (.isTest left isOperator not? type) first)
  | none =>
    match (← acceptKeyword .asKw) with
    | some asOperator =>
      let type ← g.typeName
      return some (← finishExpression (.cast left asOperator type) first)
    | none => return none

/-- `left` with an operator of the given level and its right operand, if one follows. -/
def binaryStep (g : Inner) (level : Precedence) (right : Parse NodeId) (first : TokenId)
    (left : NodeId) : Parse (Option NodeId) := do
  let typed? ← if level == .relational then typeOperation? g first left else pure none
  match typed? with
  | some node => return some node
  | none =>
    match (← currentKind) with
    | .operator o =>
      if o.precedence == level then
        let operator ← advance
        let operand ← right
        return some (← finishExpression (.binary left operator operand) first)
      else return none
    | _ => return none

/-- Binary operators of the given levels, the loosest first; each associates to the left. -/
def binary (g : Inner) : List Precedence → Parse NodeId
  | [] => g.unary
  | level :: tighter => do
    let first ← here
    let left ← binary g tighter
    chained (binaryStep g level (binary g tighter) first) left

/-- The levels of binary operators, the loosest first. -/
def binaryLevels : List Precedence :=
  [.logicalOr, .logicalAnd, .equality, .relational, .bitwiseOr, .bitwiseXor, .bitwiseAnd, .shift,
   .additive, .multiplicative]

def conditional (g : Inner) : Parse NodeId := do
  let first ← here
  let condition ← binary g binaryLevels
  match (← acceptPunctuation .question) with
  | some question =>
    let thenExpression ← g.plainExpression
    let colon ← expectPunctuation .colon
    let elseExpression ← g.plainExpression
    finishExpression (.conditional condition question thenExpression colon elseExpression) first
  | none => return condition

/-! ## Whole expressions -/

def assignmentOperator? : Parse (Option TokenId) := do
  match (← currentKind) with
  | .operator o => if o.isAssignment then return some (← advance) else return none
  | _ => return none

/-- The part of a cascade section that its mark applies to the target. -/
def cascadeAccess (g : Inner) : Parse NodeId := do
  let first ← here
  let period ← advance
  if (← isAtPunctuation .openSquare) then indexSelector g none (some period) first
  else
    let name ← identifier
    if (← isAtPunctuation .openParen) then
      let arguments ← argumentList g
      finishExpression (.call none (some period) name arguments) first
    else finishExpression (.property none period name) first

/-- A section of a cascade: an access, further selectors and perhaps an assignment. -/
def cascadeSection (g : Inner) : Parse NodeId := do
  let first ← here
  let target ← cascadeAccess g
  let target ← selectors g target
  match (← assignmentOperator?) with
  | some operator =>
    let value ← g.plainExpression
    finishExpression (.assign target operator value) first
  | none => return target

/-- A conditional expression, perhaps assigned to; the value is read by `value`. -/
def assignment (g : Inner) (value : Parse NodeId) : Parse (NodeId × Bool) := do
  let first ← here
  let target ← conditional g
  match (← assignmentOperator?) with
  | some operator =>
    let value ← value
    return (← finishExpression (.assign target operator value) first, true)
  | none => return (target, false)

/-- An expression without cascade. -/
def plainExpression (g : Inner) : Parse NodeId := do
  let first ← here
  match (← acceptKeyword .throwKw) with
  | some keyword =>
    let expression ← g.plainExpression
    finishExpression (.throws keyword expression) first
  | none => return (← assignment g g.plainExpression).1

def expression (g : Inner) : Parse NodeId := do
  let first ← here
  match (← currentKind) with
  | .keyword .throwKw =>
    let keyword ← advance
    let expression ← g.expression
    finishExpression (.throws keyword expression) first
  | .keyword .rethrowKw => finishExpression (.rethrows (← advance)) first
  | _ =>
    let (target, assigned) ← assignment g g.expression
    if !assigned && (← isAtPunctuation .periodPeriod) then
      let sections ← many do
        if (← isAtPunctuation .periodPeriod) then return some (← cascadeSection g)
        else return none
      finishExpression (.cascade target sections) first
    else return target

end Grammar

end DartAnalysis
