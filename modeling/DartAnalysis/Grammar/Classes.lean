/-
  Classes and their members. A class heading takes each clause once; a further one of the same kind
  is read, reported and left out of the tree.
-/
import DartAnalysis.Grammar.Expressions

namespace DartAnalysis

namespace Grammar

/-! ## Headings -/

/-- The clauses of a class heading read so far. -/
structure Heading where
  extends? : Option NodeId := none
  with? : Option NodeId := none
  implements? : Option NodeId := none

/-- The clause of a superclass, which should come before the others. -/
def extendsClause (g : Inner) (heading : Heading) (first keyword : TokenId) : Parse Heading := do
  let superclass ← g.typeName
  let clause ← finish (.clause (.extending keyword superclass)) first
  if heading.extends?.isSome then
    reportAt .multipleExtendsClauses keyword
    return heading
  else
    if heading.with?.isSome then reportAt .withBeforeExtends keyword
    else if heading.implements?.isSome then reportAt .implementsBeforeExtends keyword
    return { heading with extends? := some clause }

def withClause (g : Inner) (heading : Heading) (first keyword : TokenId) : Parse Heading := do
  let mixins ← commaSeparated g.typeName
  let clause ← finish (.clause (.mixing keyword mixins)) first
  if heading.with?.isSome then
    reportAt .multipleWithClauses keyword
    return heading
  else return { heading with with? := some clause }

def implementsClause (g : Inner) (heading : Heading) (first keyword : TokenId) :
    Parse Heading := do
  let interfaces ← commaSeparated g.typeName
  let clause ← finish (.clause (.implementing keyword interfaces)) first
  if heading.implements?.isSome then
    reportAt .multipleImplementsClauses keyword
    return heading
  else return { heading with implements? := some clause }

def headingStep (g : Inner) (heading : Heading) : Parse (Heading × Bool) := do
  let first ← here
  match (← currentKind) with
  | .keyword .extendsKw => return (← extendsClause g heading first (← advance), true)
  | .keyword .withKw => return (← withClause g heading first (← advance), true)
  | .keyword .implementsKw => return (← implementsClause g heading first (← advance), true)
  | _ => return (heading, false)

/-! ## Constructors -/

def initializer (g : Inner) : Parse NodeId := do
  let first ← here
  match (← acceptKeyword .superKw) with
  | some keyword =>
    let (period?, name?) ← dottedName?
    let arguments ← argumentList g
    finish (.constructorInitializer (.superCall keyword period? name? arguments)) first
  | none =>
    let this? ← acceptKeyword .thisKw
    let period? ← if this?.isSome then some <$> expectPunctuation .period else pure none
    let field ← identifier
    let equals ← expectOperator .eq
    let value ← conditional g
    finish (.constructorInitializer (.field this? period? field equals value)) first

def constructorDeclaration (g : Inner) (comment? : Option NodeId) (external? : Option TokenId)
    (first : TokenId) : Parse NodeId := do
  let const? ← acceptKeyword .constKw
  let factory? ← acceptKeyword .factoryKw
  let className ← identifier
  let (period?, name?) ← dottedName?
  let parameters ← parameterList g
  let separator? ← acceptPunctuation .colon
  let initializers ← if separator?.isSome then commaSeparated (initializer g) else pure []
  let body ← functionBody g true false
  finish (.member (.constructor comment? external? const? factory? className period? name?
    parameters separator? initializers body)) first

/-! ## Fields and methods -/

def fieldDeclaration (g : Inner) (comment? : Option NodeId) (static? : Option TokenId)
    (first : TokenId) : Parse NodeId := do
  let fields ← variableList g
  let semicolon ← expectPunctuation .semicolon
  finish (.member (.field comment? static? fields semicolon)) first

/-- The brackets that name an index operator as one token, with an equals sign that stands tight
    behind them, and how many tokens it is made of. -/
def indexToken? : List Token → Option (Token × Nat)
  | left :: right :: rest =>
    if rest.head?.any fun t => t.kind == .operator .eq && t.offset == right.finish then
      some (⟨.operator .indexEq, Operator.indexEq.spelling, left.offset⟩, 3)
    else some (⟨.operator .index, Operator.index.spelling, left.offset⟩, 2)
  | _ => none

/-- The operator that a method declares. -/
def operatorName : Parse TokenId := do
  if (← isAtPunctuation .openSquare) then
    let some (t, n) := indexToken? (← ahead) | failure
    modify fun s => s.replace n [t]
  advance

/-- How a method is introduced: an operator, or a name that may be a property. -/
structure MethodName where
  property? : Option TokenId
  operator? : Option TokenId
  name : NodeId
  isGetter : Bool

def methodName : Parse MethodName := do
  if (← looking isOperatorAt) then
    let keyword ← advance
    let name ← identifierOn (← operatorName)
    return ⟨none, some keyword, name, false⟩
  else if (← looking isPropertyAt) then
    let isGetter ← isAtKeyword .getKw
    let keyword ← advance
    let name ← identifier
    return ⟨some keyword, none, name, isGetter⟩
  else return ⟨none, none, ← identifier, false⟩

def methodDeclaration (g : Inner) (comment? : Option NodeId)
    (external? modifier? : Option TokenId) (returnType? : Option NodeId) (first : TokenId) :
    Parse NodeId := do
  let name ← methodName
  let parameters? ← functionParameters? g name.isGetter
  let body ← functionBody g true false
  finish (.member (.method comment? external? modifier? returnType? name.property? name.operator?
    name.name parameters? body)) first

/-! ## Members -/

/-- What follows the type of a member that has one. A name before a parenthesis is the member's
    own, and so is the keyword of a property or operator. -/
def afterMemberType? (ts : List Token) : Option (List Token) :=
  if kindAt ts == .keyword .voidKw then some (ts.drop 1)
  else (skipType ts).filter fun after =>
    (isDeclaredNameAt after || isOperatorAt after) &&
      !(isPropertyAt ts || isOperatorAt ts || kindAt (ts.drop 1) == .punctuation .openParen)

/-- A member that is named here is a method. -/
def isMethodAt (ts : List Token) : Bool :=
  isOperatorAt ts || isPropertyAt ts ||
    (isDeclaredNameAt ts && kindAt (ts.drop 1) == .punctuation .openParen)

/-- A member after its modifiers, if there is one. -/
def memberDeclaration? (g : Inner) (comment? : Option NodeId) (external? modifier? : Option TokenId)
    (isStatic : Bool) (first : TokenId) : Parse (Option NodeId) := do
  let static? := modifier?.filter fun _ => isStatic
  if isVariableKeyword (← currentKind) then
    return some (← fieldDeclaration g comment? static? first)
  let ts ← ahead
  let after? := afterMemberType? ts
  if kindAt ts == .keyword .voidKw || isMethodAt (after?.getD ts) then
    let type? ← if after?.isSome then some <$> returnType g else pure none
    return some (← methodDeclaration g comment? external? modifier? type? first)
  else if after?.isSome then return some (← fieldDeclaration g comment? static? first)
  else
    if external?.isSome || modifier?.isSome then reportHere .expectedClassMember []
    return none

/-- The member of the class called `className` after a documentation comment, if there is one. -/
def memberAfter? (g : Inner) (className : String) (comment? : Option NodeId) :
    Parse (Option NodeId) := do
  let first ← here
  let external? ← acceptKeyword .externalKw
  let ts ← ahead
  let named :=
    if kindAt ts == .keyword .constKw || kindAt ts == .keyword .factoryKw then ts.drop 1 else ts
  if isConstructorAt className named then
    return some (← constructorDeclaration g comment? external? first)
  let isStatic ← isAtKeyword .staticKw
  let modifier? ←
    if isStatic || (← isAtKeyword .abstractKw) then some <$> advance else pure none
  memberDeclaration? g comment? external? modifier? isStatic first

def classMember? (g : Inner) (className : String) : Parse (Option NodeId) := do
  memberAfter? g className (← docComment)

/-- Reads up to the next member; a token that no member reads is reported and skipped. -/
def memberStep (g : Inner) (className : String) (found : List NodeId) :
    Parse (List NodeId × Bool) := do
  if (← isAtPunctuation .closeCurly) || (← isAtEnd) then return (found, false)
  let before ← unreadCount
  let member? ← classMember? g className
  if (← unreadCount) = before then
    reportHere .expectedClassMember []
    let _ ← advance
  return (member?.toList ++ found, true)

/-- The members of a class, up to its closing brace. -/
def classMembers (g : Inner) (className : String) : Parse (List NodeId) := do
  let found ← repeating (memberStep g className) []
  return found.reverse

def classDeclaration (g : Inner) (comment? : Option NodeId) : Parse NodeId := do
  let first ← here
  let abstract? ← acceptKeyword .abstractKw
  let keyword ← expectKeyword .classKw
  let next ← current
  let name ← identifier
  let typeParameters? ← typeParameters? g
  let heading ← repeating (headingStep g) {}
  let leftBrace ← expectPunctuation .openCurly
  let members ← classMembers g (if next.isName then next.lexeme else "")
  let rightBrace ← expectPunctuation .closeCurly
  finish (.declaration (.classDecl comment? abstract? keyword name typeParameters?
    heading.extends? heading.with? heading.implements? leftBrace members rightBrace)) first

end Grammar

end DartAnalysis
