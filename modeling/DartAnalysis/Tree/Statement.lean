/-
  Statements and the members of a switch.
-/
import DartAnalysis.Tree.Field

namespace DartAnalysis

/-- A statement. -/
inductive Statement where
  | block (leftBrace : TokenId) (statements : List NodeId) (rightBrace : TokenId)
  | variablesDecl (varList : NodeId) (semicolon : TokenId)
  | functionDecl (declaration : NodeId)
  | evaluate (expression : NodeId) (semicolon : TokenId)
  | empty (semicolon : TokenId)
  | ifElse (ifKeyword leftParen : TokenId) (condition : NodeId) (rightParen : TokenId)
      (thenStatement : NodeId) (elseKeyword : Option TokenId) (elseStatement : Option NodeId)
  | whileLoop (keyword leftParen : TokenId) (condition : NodeId) (rightParen : TokenId)
      (body : NodeId)
  | doLoop (doKeyword : TokenId) (body : NodeId) (whileKeyword leftParen : TokenId)
      (condition : NodeId) (rightParen semicolon : TokenId)
  | forLoop (forKeyword leftParen : TokenId) (varList initialization : Option NodeId)
      (leftSeparator : TokenId) (condition : Option NodeId) (rightSeparator : TokenId)
      (updaters : List NodeId) (rightParen : TokenId) (body : NodeId)
  /-- The loop variable is a declared identifier or the name of a variable. -/
  | forEach (forKeyword leftParen : TokenId) (loopVariable : NodeId) (inKeyword : TokenId)
      (iterator : NodeId) (rightParen : TokenId) (body : NodeId)
  | switch (keyword leftParen : TokenId) (expression : NodeId) (rightParen leftBrace : TokenId)
      (members : List NodeId) (rightBrace : TokenId)
  | tryCatch (tryKeyword : TokenId) (body : NodeId) (catchClauses : List NodeId)
      (finallyKeyword : Option TokenId) (finallyBlock : Option NodeId)
  | returns (keyword : TokenId) (expression : Option NodeId) (semicolon : TokenId)
  | breaks (keyword : TokenId) (label : Option NodeId) (semicolon : TokenId)
  | continues (keyword : TokenId) (label : Option NodeId) (semicolon : TokenId)
  | labeled (labels : List NodeId) (statement : NodeId)
  | assertion (keyword leftParen : TokenId) (condition : NodeId) (rightParen semicolon : TokenId)

namespace Statement

def kindName : Statement → String
  | .block .. => "Block"
  | .variablesDecl .. => "VariableDeclarationStatement"
  | .functionDecl .. => "FunctionDeclarationStatement"
  | .evaluate .. => "ExpressionStatement"
  | .empty .. => "EmptyStatement"
  | .ifElse .. => "IfStatement"
  | .whileLoop .. => "WhileStatement"
  | .doLoop .. => "DoStatement"
  | .forLoop .. => "ForStatement"
  | .forEach .. => "ForEachStatement"
  | .switch .. => "SwitchStatement"
  | .tryCatch .. => "TryStatement"
  | .returns .. => "ReturnStatement"
  | .breaks .. => "BreakStatement"
  | .continues .. => "ContinueStatement"
  | .labeled .. => "LabeledStatement"
  | .assertion .. => "AssertStatement"

def fields : Statement → List Field
  | .block leftBrace statements rightBrace =>
    [.token leftBrace, .nodes statements, .token rightBrace]
  | .variablesDecl varList semicolon => [.node varList, .token semicolon]
  | .functionDecl declaration => [.node declaration]
  | .evaluate expression semicolon => [.node expression, .token semicolon]
  | .empty semicolon => [.token semicolon]
  | .ifElse ifKeyword leftParen condition rightParen thenStatement elseKeyword elseStatement =>
    [.token ifKeyword, .token leftParen, .node condition, .token rightParen, .node thenStatement,
     .token? elseKeyword, .node? elseStatement]
  | .whileLoop keyword leftParen condition rightParen body =>
    [.token keyword, .token leftParen, .node condition, .token rightParen, .node body]
  | .doLoop doKeyword body whileKeyword leftParen condition rightParen semicolon =>
    [.token doKeyword, .node body, .token whileKeyword, .token leftParen, .node condition,
     .token rightParen, .token semicolon]
  | .forLoop forKeyword leftParen varList initialization leftSeparator condition rightSeparator
      updaters rightParen body =>
    [.token forKeyword, .token leftParen, .node? varList, .node? initialization,
     .token leftSeparator, .node? condition, .token rightSeparator, .nodes updaters,
     .token rightParen, .node body]
  | .forEach forKeyword leftParen loopVariable inKeyword iterator rightParen body =>
    [.token forKeyword, .token leftParen, .node loopVariable, .token inKeyword, .node iterator,
     .token rightParen, .node body]
  | .switch keyword leftParen expression rightParen leftBrace members rightBrace =>
    [.token keyword, .token leftParen, .node expression, .token rightParen, .token leftBrace,
     .nodes members, .token rightBrace]
  | .tryCatch tryKeyword body catchClauses finallyKeyword finallyBlock =>
    [.token tryKeyword, .node body, .nodes catchClauses, .token? finallyKeyword,
     .node? finallyBlock]
  | .returns keyword expression semicolon => [.token keyword, .node? expression, .token semicolon]
  | .breaks keyword label semicolon => [.token keyword, .node? label, .token semicolon]
  | .continues keyword label semicolon => [.token keyword, .node? label, .token semicolon]
  | .labeled labels statement => [.nodes labels, .node statement]
  | .assertion keyword leftParen condition rightParen semicolon =>
    [.token keyword, .token leftParen, .node condition, .token rightParen, .token semicolon]

def withFields (s : Statement) (fs : List Field) : Statement :=
  match s, fs with
  | .block .., [.token leftBrace, .nodes statements, .token rightBrace] =>
    .block leftBrace statements rightBrace
  | .variablesDecl .., [.node varList, .token semicolon] => .variablesDecl varList semicolon
  | .functionDecl .., [.node declaration] => .functionDecl declaration
  | .evaluate .., [.node expression, .token semicolon] => .evaluate expression semicolon
  | .empty .., [.token semicolon] => .empty semicolon
  | .ifElse ..,
    [.token ifKeyword, .token leftParen, .node condition, .token rightParen,
     .node thenStatement, .token? elseKeyword, .node? elseStatement] =>
    .ifElse ifKeyword leftParen condition rightParen thenStatement elseKeyword elseStatement
  | .whileLoop ..,
    [.token keyword, .token leftParen, .node condition, .token rightParen,
     .node body] =>
    .whileLoop keyword leftParen condition rightParen body
  | .doLoop ..,
    [.token doKeyword, .node body, .token whileKeyword, .token leftParen,
     .node condition, .token rightParen, .token semicolon] =>
    .doLoop doKeyword body whileKeyword leftParen condition rightParen semicolon
  | .forLoop ..,
    [.token forKeyword, .token leftParen, .node? varList, .node? initialization,
     .token leftSeparator, .node? condition, .token rightSeparator, .nodes updaters,
     .token rightParen, .node body] =>
    .forLoop forKeyword leftParen varList initialization leftSeparator condition rightSeparator
      updaters rightParen body
  | .forEach ..,
    [.token forKeyword, .token leftParen, .node loopVariable, .token inKeyword,
     .node iterator, .token rightParen, .node body] =>
    .forEach forKeyword leftParen loopVariable inKeyword iterator rightParen body
  | .switch ..,
    [.token keyword, .token leftParen, .node expression, .token rightParen,
     .token leftBrace, .nodes members, .token rightBrace] =>
    .switch keyword leftParen expression rightParen leftBrace members rightBrace
  | .tryCatch ..,
    [.token tryKeyword, .node body, .nodes catchClauses, .token? finallyKeyword,
     .node? finallyBlock] =>
    .tryCatch tryKeyword body catchClauses finallyKeyword finallyBlock
  | .returns .., [.token keyword, .node? expression, .token semicolon] =>
    .returns keyword expression semicolon
  | .breaks .., [.token keyword, .node? label, .token semicolon] => .breaks keyword label semicolon
  | .continues .., [.token keyword, .node? label, .token semicolon] =>
    .continues keyword label semicolon
  | .labeled .., [.nodes labels, .node statement] => .labeled labels statement
  | .assertion ..,
    [.token keyword, .token leftParen, .node condition, .token rightParen,
     .token semicolon] =>
    .assertion keyword leftParen condition rightParen semicolon
  | _, _ => s

@[simp] theorem withFields_fields (s : Statement) : s.withFields s.fields = s := by
  cases s <;> rfl

end Statement

/-- A member of a switch. -/
inductive SwitchMember where
  | case (labels : List NodeId) (keyword : TokenId) (expression : NodeId) (colon : TokenId)
      (statements : List NodeId)
  | default (labels : List NodeId) (keyword colon : TokenId) (statements : List NodeId)

namespace SwitchMember

def kindName : SwitchMember → String
  | .case .. => "SwitchCase"
  | .default .. => "SwitchDefault"

def fields : SwitchMember → List Field
  | .case labels keyword expression colon statements =>
    [.nodes labels, .token keyword, .node expression, .token colon, .nodes statements]
  | .default labels keyword colon statements =>
    [.nodes labels, .token keyword, .token colon, .nodes statements]

def withFields (s : SwitchMember) (fs : List Field) : SwitchMember :=
  match s, fs with
  | .case .., [.nodes labels, .token keyword, .node expression, .token colon, .nodes statements] =>
    .case labels keyword expression colon statements
  | .default .., [.nodes labels, .token keyword, .token colon, .nodes statements] =>
    .default labels keyword colon statements
  | _, _ => s

@[simp] theorem withFields_fields (s : SwitchMember) : s.withFields s.fields = s := by
  cases s <;> rfl

end SwitchMember

end DartAnalysis
