/-
  Node kinds: the closed set of productions. The children of a node are read off its fields, and a
  child leaves a node by an edit of its fields.
-/
import DartAnalysis.Tree.Declaration
import DartAnalysis.Tree.Expression
import DartAnalysis.Tree.Statement

namespace DartAnalysis

namespace Node

inductive Kind where
  | unit (directives declarations : List NodeId)
  /-- A run of documentation comments before a declaration. -/
  | comment (comments : List CommentId)
  | directive (d : Directive)
  | combinator (c : Combinator)
  /-- A dotted name. -/
  | libraryName (components : List NodeId)
  | declaration (d : Declaration)
  | member (m : Member)
  | clause (c : Clause)
  | constructorInitializer (i : Initializer)
  | typeParameterList (leftBracket : TokenId) (parameters : List NodeId) (rightBracket : TokenId)
  | typeParameter (name : NodeId) (extendsKeyword : Option TokenId) (bound : Option NodeId)
  | type (name : NodeId) (typeArguments : Option NodeId)
  | typeArgumentList (leftBracket : TokenId) (arguments : List NodeId) (rightBracket : TokenId)
  | variableList (keyword : Option TokenId) (typeName : Option NodeId) (vars : List NodeId)
  | variable (name : NodeId) (equals : Option TokenId) (initializer : Option NodeId)
  /-- The delimiters enclose the optional parameters. -/
  | parameterList (leftParen : TokenId) (parameters : List NodeId)
      (leftDelimiter rightDelimiter : Option TokenId) (rightParen : TokenId)
  | parameter (p : Parameter)
  | functionBody (b : Body)
  | statement (s : Statement)
  /-- The variable that a loop declares. -/
  | declaredIdentifier (keyword : Option TokenId) (typeName : Option NodeId) (name : NodeId)
  | switchMember (s : SwitchMember)
  | catchClause (onKeyword : Option TokenId) (exceptionType : Option NodeId)
      (catchKeyword leftParen : Option TokenId) (exceptionParameter : Option NodeId)
      (comma : Option TokenId) (stackTraceParameter : Option NodeId) (rightParen : Option TokenId)
      (body : NodeId)
  | label (name : NodeId) (colon : TokenId)
  | expression (e : Expression)
  | stringElement (s : StringElement)
  | mapEntry (key : NodeId) (separator : TokenId) (value : NodeId)
  | constructorName (typeName : NodeId) (period : Option TokenId) (name : Option NodeId)
  | argumentList (leftParen : TokenId) (arguments : List NodeId) (rightParen : TokenId)

namespace Kind

instance : Inhabited Kind := ⟨.unit [] []⟩

/-- The name of the production. -/
def name : Kind → String
  | .unit .. => "CompilationUnit"
  | .comment .. => "Comment"
  | .directive x => x.kindName
  | .combinator x => x.kindName
  | .libraryName .. => "LibraryIdentifier"
  | .declaration x => x.kindName
  | .member x => x.kindName
  | .clause x => x.kindName
  | .constructorInitializer x => x.kindName
  | .typeParameterList .. => "TypeParameterList"
  | .typeParameter .. => "TypeParameter"
  | .type .. => "TypeName"
  | .typeArgumentList .. => "TypeArgumentList"
  | .variableList .. => "VariableDeclarationList"
  | .variable .. => "VariableDeclaration"
  | .parameterList .. => "FormalParameterList"
  | .parameter x => x.kindName
  | .functionBody x => x.kindName
  | .statement x => x.kindName
  | .declaredIdentifier .. => "DeclaredIdentifier"
  | .switchMember x => x.kindName
  | .catchClause .. => "CatchClause"
  | .label .. => "Label"
  | .expression x => x.kindName
  | .stringElement x => x.kindName
  | .mapEntry .. => "MapLiteralEntry"
  | .constructorName .. => "ConstructorName"
  | .argumentList .. => "ArgumentList"

/-- The tokens and children, in the order of the fields. -/
def fields : Kind → List Field
  | .unit directives declarations => [.nodes directives, .nodes declarations]
  | .comment _ => []
  | .directive x => x.fields
  | .combinator x => x.fields
  | .libraryName components => [.nodes components]
  | .declaration x => x.fields
  | .member x => x.fields
  | .clause x => x.fields
  | .constructorInitializer x => x.fields
  | .typeParameterList leftBracket parameters rightBracket =>
    [.token leftBracket, .nodes parameters, .token rightBracket]
  | .typeParameter name extendsKeyword bound => [.node name, .token? extendsKeyword, .node? bound]
  | .type name typeArguments => [.node name, .node? typeArguments]
  | .typeArgumentList leftBracket arguments rightBracket =>
    [.token leftBracket, .nodes arguments, .token rightBracket]
  | .variableList keyword typeName vars => [.token? keyword, .node? typeName, .nodes vars]
  | .variable name equals initializer => [.node name, .token? equals, .node? initializer]
  | .parameterList leftParen parameters leftDelimiter rightDelimiter rightParen =>
    [.token leftParen, .nodes parameters, .token? leftDelimiter, .token? rightDelimiter,
     .token rightParen]
  | .parameter x => x.fields
  | .functionBody x => x.fields
  | .statement x => x.fields
  | .declaredIdentifier keyword typeName name => [.token? keyword, .node? typeName, .node name]
  | .switchMember x => x.fields
  | .catchClause onKeyword exceptionType catchKeyword leftParen exceptionParameter comma
      stackTraceParameter rightParen body =>
    [.token? onKeyword, .node? exceptionType, .token? catchKeyword, .token? leftParen,
     .node? exceptionParameter, .token? comma, .node? stackTraceParameter, .token? rightParen,
     .node body]
  | .label name colon => [.node name, .token colon]
  | .expression x => x.fields
  | .stringElement x => x.fields
  | .mapEntry key separator value => [.node key, .token separator, .node value]
  | .constructorName typeName period name => [.node typeName, .token? period, .node? name]
  | .argumentList leftParen arguments rightParen =>
    [.token leftParen, .nodes arguments, .token rightParen]

/-- Puts fields in place of those of a node; fields of another shape change nothing. -/
def withFields (k : Kind) (fs : List Field) : Kind :=
  match k, fs with
  | .unit .., [.nodes directives, .nodes declarations] => .unit directives declarations
  | .directive x, fs => .directive (x.withFields fs)
  | .combinator x, fs => .combinator (x.withFields fs)
  | .libraryName .., [.nodes components] => .libraryName components
  | .declaration x, fs => .declaration (x.withFields fs)
  | .member x, fs => .member (x.withFields fs)
  | .clause x, fs => .clause (x.withFields fs)
  | .constructorInitializer x, fs => .constructorInitializer (x.withFields fs)
  | .typeParameterList .., [.token leftBracket, .nodes parameters, .token rightBracket] =>
    .typeParameterList leftBracket parameters rightBracket
  | .typeParameter .., [.node name, .token? extendsKeyword, .node? bound] =>
    .typeParameter name extendsKeyword bound
  | .type .., [.node name, .node? typeArguments] => .type name typeArguments
  | .typeArgumentList .., [.token leftBracket, .nodes arguments, .token rightBracket] =>
    .typeArgumentList leftBracket arguments rightBracket
  | .variableList .., [.token? keyword, .node? typeName, .nodes vars] =>
    .variableList keyword typeName vars
  | .variable .., [.node name, .token? equals, .node? initializer] =>
    .variable name equals initializer
  | .parameterList ..,
    [.token leftParen, .nodes parameters, .token? leftDelimiter,
     .token? rightDelimiter, .token rightParen] =>
    .parameterList leftParen parameters leftDelimiter rightDelimiter rightParen
  | .parameter x, fs => .parameter (x.withFields fs)
  | .functionBody x, fs => .functionBody (x.withFields fs)
  | .statement x, fs => .statement (x.withFields fs)
  | .declaredIdentifier .., [.token? keyword, .node? typeName, .node name] =>
    .declaredIdentifier keyword typeName name
  | .switchMember x, fs => .switchMember (x.withFields fs)
  | .catchClause ..,
    [.token? onKeyword, .node? exceptionType, .token? catchKeyword,
     .token? leftParen, .node? exceptionParameter, .token? comma, .node? stackTraceParameter,
     .token? rightParen, .node body] =>
    .catchClause onKeyword exceptionType catchKeyword leftParen exceptionParameter comma
      stackTraceParameter rightParen body
  | .label .., [.node name, .token colon] => .label name colon
  | .expression x, fs => .expression (x.withFields fs)
  | .stringElement x, fs => .stringElement (x.withFields fs)
  | .mapEntry .., [.node key, .token separator, .node value] => .mapEntry key separator value
  | .constructorName .., [.node typeName, .token? period, .node? name] =>
    .constructorName typeName period name
  | .argumentList .., [.token leftParen, .nodes arguments, .token rightParen] =>
    .argumentList leftParen arguments rightParen
  | _, _ => k

@[simp] theorem withFields_fields (k : Kind) : k.withFields k.fields = k := by
  cases k with
  | directive x => exact congrArg directive x.withFields_fields
  | combinator x => exact congrArg combinator x.withFields_fields
  | declaration x => exact congrArg declaration x.withFields_fields
  | member x => exact congrArg member x.withFields_fields
  | clause x => exact congrArg clause x.withFields_fields
  | constructorInitializer x => exact congrArg constructorInitializer x.withFields_fields
  | parameter x => exact congrArg parameter x.withFields_fields
  | functionBody x => exact congrArg functionBody x.withFields_fields
  | statement x => exact congrArg statement x.withFields_fields
  | switchMember x => exact congrArg switchMember x.withFields_fields
  | expression x => exact congrArg expression x.withFields_fields
  | stringElement x => exact congrArg stringElement x.withFields_fields
  | _ => rfl

/-- The children, in the order of the fields. -/
def children (k : Kind) : List NodeId := k.fields.flatMap Field.children

/-- Tokens and children, without the absent ones. -/
def parts (k : Kind) : List Part := k.fields.filterMap Field.part?

/-- Takes `child` out of the node. A mandatory field gives it up only for `standIn?`; nothing is
    returned if no field gives it up. -/
def detach? (k : Kind) (child : NodeId) (standIn? : Option NodeId) : Option Kind :=
  (detachField? child standIn? k.fields).map k.withFields

def isExpression : Kind → Bool
  | .expression _ => true
  | _ => false

def isStatement : Kind → Bool
  | .statement _ => true
  | _ => false

def isDirective : Kind → Bool
  | .directive _ => true
  | _ => false

def isComment : Kind → Bool
  | .comment _ => true
  | _ => false

/-- The documentation comment of a directive, declaration or member. -/
def comment? : Kind → Option NodeId
  | .directive (.library c ..) | .directive (.importing c ..) | .directive (.exporting c ..)
  | .directive (.part c ..) | .directive (.partOf c ..) | .declaration (.classDecl c ..)
  | .declaration (.typeAlias c ..) | .declaration (.functionDecl c ..)
  | .declaration (.variablesDecl c ..) | .member (.field c ..) | .member (.method c ..)
  | .member (.constructor c ..) => c
  | _ => none

end Kind

end Node

end DartAnalysis
