/-
  Expressions and the elements of a string with interpolation.
-/
import DartAnalysis.Tree.Field

namespace DartAnalysis

/-- An expression. -/
inductive Expression where
  | identifier (token : TokenId)
  | qualified (qualifier : NodeId) (period : TokenId) (name : NodeId)
  | integer (literal : TokenId)
  | double (literal : TokenId)
  | boolean (literal : TokenId)
  | null (literal : TokenId)
  /-- The value has its quotes removed and its escapes applied. -/
  | string (literal : TokenId) (value : String)
  | interpolation (elements : List NodeId)
  | adjacent (strings : List NodeId)
  | list (constKeyword : Option TokenId) (typeArguments : Option NodeId) (leftBracket : TokenId)
      (elements : List NodeId) (rightBracket : TokenId)
  | map (constKeyword : Option TokenId) (typeArguments : Option NodeId) (leftBracket : TokenId)
      (entries : List NodeId) (rightBracket : TokenId)
  | this (keyword : TokenId)
  | super (keyword : TokenId)
  | paren (leftParen : TokenId) (expression : NodeId) (rightParen : TokenId)
  | assign (target : NodeId) (operator : TokenId) (value : NodeId)
  | conditional (condition : NodeId) (question : TokenId) (thenExpression : NodeId)
      (colon : TokenId) (elseExpression : NodeId)
  | binary (left : NodeId) (operator : TokenId) (right : NodeId)
  | unary (operator : TokenId) (operand : NodeId)
  | postUnary (operand : NodeId) (operator : TokenId)
  | isTest (expression : NodeId) (isOperator : TokenId) (notOperator : Option TokenId)
      (typeName : NodeId)
  | cast (expression : NodeId) (asOperator : TokenId) (typeName : NodeId)
  /-- In a cascade there is no target, and the period is the cascade mark. -/
  | indexed (target : Option NodeId) (period : Option TokenId) (leftBracket : TokenId)
      (index : NodeId) (rightBracket : TokenId)
  /-- In a cascade there is no target, and the operator is the cascade mark. -/
  | property (target : Option NodeId) (operator : TokenId) (name : NodeId)
  | call (target : Option NodeId) (period : Option TokenId) (name arguments : NodeId)
  | apply (function arguments : NodeId)
  | create (keyword : TokenId) (constructorName arguments : NodeId)
  | named (name expression : NodeId)
  | cascade (target : NodeId) (sections : List NodeId)
  | throws (keyword : TokenId) (expression : NodeId)
  | rethrows (keyword : TokenId)
  /-- Parameters and body, also those of a declared function. -/
  | closure (parameters : Option NodeId) (body : NodeId)

namespace Expression

def kindName : Expression → String
  | .identifier .. => "SimpleIdentifier"
  | .qualified .. => "PrefixedIdentifier"
  | .integer .. => "IntegerLiteral"
  | .double .. => "DoubleLiteral"
  | .boolean .. => "BooleanLiteral"
  | .null .. => "NullLiteral"
  | .string .. => "SimpleStringLiteral"
  | .interpolation .. => "StringInterpolation"
  | .adjacent .. => "AdjacentStrings"
  | .list .. => "ListLiteral"
  | .map .. => "MapLiteral"
  | .this .. => "ThisExpression"
  | .super .. => "SuperExpression"
  | .paren .. => "ParenthesizedExpression"
  | .assign .. => "AssignmentExpression"
  | .conditional .. => "ConditionalExpression"
  | .binary .. => "BinaryExpression"
  | .unary .. => "PrefixExpression"
  | .postUnary .. => "PostfixExpression"
  | .isTest .. => "IsExpression"
  | .cast .. => "AsExpression"
  | .indexed .. => "IndexExpression"
  | .property .. => "PropertyAccess"
  | .call .. => "MethodInvocation"
  | .apply .. => "FunctionExpressionInvocation"
  | .create .. => "InstanceCreationExpression"
  | .named .. => "NamedExpression"
  | .cascade .. => "CascadeExpression"
  | .throws .. => "ThrowExpression"
  | .rethrows .. => "RethrowExpression"
  | .closure .. => "FunctionExpression"

def fields : Expression → List Field
  | .identifier token => [.token token]
  | .qualified qualifier period name => [.node qualifier, .token period, .node name]
  | .integer literal => [.token literal]
  | .double literal => [.token literal]
  | .boolean literal => [.token literal]
  | .null literal => [.token literal]
  | .string literal _ => [.token literal]
  | .interpolation elements => [.nodes elements]
  | .adjacent strings => [.nodes strings]
  | .list constKeyword typeArguments leftBracket elements rightBracket =>
    [.token? constKeyword, .node? typeArguments, .token leftBracket, .nodes elements,
     .token rightBracket]
  | .map constKeyword typeArguments leftBracket entries rightBracket =>
    [.token? constKeyword, .node? typeArguments, .token leftBracket, .nodes entries,
     .token rightBracket]
  | .this keyword => [.token keyword]
  | .super keyword => [.token keyword]
  | .paren leftParen expression rightParen =>
    [.token leftParen, .node expression, .token rightParen]
  | .assign target operator value => [.node target, .token operator, .node value]
  | .conditional condition question thenExpression colon elseExpression =>
    [.node condition, .token question, .node thenExpression, .token colon, .node elseExpression]
  | .binary left operator right => [.node left, .token operator, .node right]
  | .unary operator operand => [.token operator, .node operand]
  | .postUnary operand operator => [.node operand, .token operator]
  | .isTest expression isOperator notOperator typeName =>
    [.node expression, .token isOperator, .token? notOperator, .node typeName]
  | .cast expression asOperator typeName => [.node expression, .token asOperator, .node typeName]
  | .indexed target period leftBracket index rightBracket =>
    [.node? target, .token? period, .token leftBracket, .node index, .token rightBracket]
  | .property target operator name => [.node? target, .token operator, .node name]
  | .call target period name arguments =>
    [.node? target, .token? period, .node name, .node arguments]
  | .apply function arguments => [.node function, .node arguments]
  | .create keyword constructorName arguments =>
    [.token keyword, .node constructorName, .node arguments]
  | .named name expression => [.node name, .node expression]
  | .cascade target sections => [.node target, .nodes sections]
  | .throws keyword expression => [.token keyword, .node expression]
  | .rethrows keyword => [.token keyword]
  | .closure parameters body => [.node? parameters, .node body]

def withFields (e : Expression) (fs : List Field) : Expression :=
  match e, fs with
  | .identifier .., [.token token] => .identifier token
  | .qualified .., [.node qualifier, .token period, .node name] => .qualified qualifier period name
  | .integer .., [.token literal] => .integer literal
  | .double .., [.token literal] => .double literal
  | .boolean .., [.token literal] => .boolean literal
  | .null .., [.token literal] => .null literal
  | .string _ value, [.token literal] => .string literal value
  | .interpolation .., [.nodes elements] => .interpolation elements
  | .adjacent .., [.nodes strings] => .adjacent strings
  | .list ..,
    [.token? constKeyword, .node? typeArguments, .token leftBracket, .nodes elements,
     .token rightBracket] =>
    .list constKeyword typeArguments leftBracket elements rightBracket
  | .map ..,
    [.token? constKeyword, .node? typeArguments, .token leftBracket, .nodes entries,
     .token rightBracket] =>
    .map constKeyword typeArguments leftBracket entries rightBracket
  | .this .., [.token keyword] => .this keyword
  | .super .., [.token keyword] => .super keyword
  | .paren .., [.token leftParen, .node expression, .token rightParen] =>
    .paren leftParen expression rightParen
  | .assign .., [.node target, .token operator, .node value] => .assign target operator value
  | .conditional ..,
    [.node condition, .token question, .node thenExpression, .token colon,
     .node elseExpression] =>
    .conditional condition question thenExpression colon elseExpression
  | .binary .., [.node left, .token operator, .node right] => .binary left operator right
  | .unary .., [.token operator, .node operand] => .unary operator operand
  | .postUnary .., [.node operand, .token operator] => .postUnary operand operator
  | .isTest .., [.node expression, .token isOperator, .token? notOperator, .node typeName] =>
    .isTest expression isOperator notOperator typeName
  | .cast .., [.node expression, .token asOperator, .node typeName] =>
    .cast expression asOperator typeName
  | .indexed ..,
    [.node? target, .token? period, .token leftBracket, .node index,
     .token rightBracket] =>
    .indexed target period leftBracket index rightBracket
  | .property .., [.node? target, .token operator, .node name] => .property target operator name
  | .call .., [.node? target, .token? period, .node name, .node arguments] =>
    .call target period name arguments
  | .apply .., [.node function, .node arguments] => .apply function arguments
  | .create .., [.token keyword, .node constructorName, .node arguments] =>
    .create keyword constructorName arguments
  | .named .., [.node name, .node expression] => .named name expression
  | .cascade .., [.node target, .nodes sections] => .cascade target sections
  | .throws .., [.token keyword, .node expression] => .throws keyword expression
  | .rethrows .., [.token keyword] => .rethrows keyword
  | .closure .., [.node? parameters, .node body] => .closure parameters body
  | _, _ => e

@[simp] theorem withFields_fields (e : Expression) : e.withFields e.fields = e := by
  cases e <;> rfl

end Expression

/-- An element of a string with interpolation. -/
inductive StringElement where
  | text (contents : TokenId) (value : String)
  | spliced (leftBracket : TokenId) (expression : NodeId) (rightBracket : Option TokenId)

namespace StringElement

def kindName : StringElement → String
  | .text .. => "InterpolationString"
  | .spliced .. => "InterpolationExpression"

def fields : StringElement → List Field
  | .text contents _ => [.token contents]
  | .spliced leftBracket expression rightBracket =>
    [.token leftBracket, .node expression, .token? rightBracket]

def withFields (s : StringElement) (fs : List Field) : StringElement :=
  match s, fs with
  | .text _ value, [.token contents] => .text contents value
  | .spliced .., [.token leftBracket, .node expression, .token? rightBracket] =>
    .spliced leftBracket expression rightBracket
  | _, _ => s

@[simp] theorem withFields_fields (s : StringElement) : s.withFields s.fields = s := by
  cases s <;> rfl

end StringElement

end DartAnalysis
