/-
  Directives, declarations and the parts that declarations are made of. Each production lists its
  fields in source order; `fields` shows them and `withFields` puts them back.
-/
import DartAnalysis.Tree.Field

namespace DartAnalysis

/-- A directive of a unit. -/
inductive Directive where
  | library (comment : Option NodeId) (keyword : TokenId) (name : NodeId) (semicolon : TokenId)
  | importing (comment : Option NodeId) (keyword : TokenId) (uri : NodeId)
      (asKeyword : Option TokenId) (qualifier : Option NodeId) (combinators : List NodeId)
      (semicolon : TokenId)
  | exporting (comment : Option NodeId) (keyword : TokenId) (uri : NodeId)
      (combinators : List NodeId) (semicolon : TokenId)
  | part (comment : Option NodeId) (keyword : TokenId) (uri : NodeId) (semicolon : TokenId)
  | partOf (comment : Option NodeId) (partKeyword ofKeyword : TokenId) (libraryName : NodeId)
      (semicolon : TokenId)

namespace Directive

def kindName : Directive → String
  | .library .. => "LibraryDirective"
  | .importing .. => "ImportDirective"
  | .exporting .. => "ExportDirective"
  | .part .. => "PartDirective"
  | .partOf .. => "PartOfDirective"

def fields : Directive → List Field
  | .library comment keyword name semicolon =>
    [.node? comment, .token keyword, .node name, .token semicolon]
  | .importing comment keyword uri asKeyword qualifier combinators semicolon =>
    [.node? comment, .token keyword, .node uri, .token? asKeyword, .node? qualifier,
     .nodes combinators, .token semicolon]
  | .exporting comment keyword uri combinators semicolon =>
    [.node? comment, .token keyword, .node uri, .nodes combinators, .token semicolon]
  | .part comment keyword uri semicolon =>
    [.node? comment, .token keyword, .node uri, .token semicolon]
  | .partOf comment partKeyword ofKeyword libraryName semicolon =>
    [.node? comment, .token partKeyword, .token ofKeyword, .node libraryName, .token semicolon]

def withFields (d : Directive) (fs : List Field) : Directive :=
  match d, fs with
  | .library .., [.node? comment, .token keyword, .node name, .token semicolon] =>
    .library comment keyword name semicolon
  | .importing ..,
    [.node? comment, .token keyword, .node uri, .token? asKeyword,
     .node? qualifier, .nodes combinators, .token semicolon] =>
    .importing comment keyword uri asKeyword qualifier combinators semicolon
  | .exporting ..,
    [.node? comment, .token keyword, .node uri, .nodes combinators,
     .token semicolon] =>
    .exporting comment keyword uri combinators semicolon
  | .part .., [.node? comment, .token keyword, .node uri, .token semicolon] =>
    .part comment keyword uri semicolon
  | .partOf ..,
    [.node? comment, .token partKeyword, .token ofKeyword, .node libraryName,
     .token semicolon] =>
    .partOf comment partKeyword ofKeyword libraryName semicolon
  | _, _ => d

@[simp] theorem withFields_fields (d : Directive) : d.withFields d.fields = d := by
  cases d <;> rfl

end Directive

/-- A restriction on the names that an import or export makes visible. -/
inductive Combinator where
  | showing (keyword : TokenId) (names : List NodeId)
  | hiding (keyword : TokenId) (names : List NodeId)

namespace Combinator

def kindName : Combinator → String
  | .showing .. => "ShowCombinator"
  | .hiding .. => "HideCombinator"

def fields : Combinator → List Field
  | .showing keyword names => [.token keyword, .nodes names]
  | .hiding keyword names => [.token keyword, .nodes names]

def withFields (c : Combinator) (fs : List Field) : Combinator :=
  match c, fs with
  | .showing .., [.token keyword, .nodes names] => .showing keyword names
  | .hiding .., [.token keyword, .nodes names] => .hiding keyword names
  | _, _ => c

@[simp] theorem withFields_fields (c : Combinator) : c.withFields c.fields = c := by
  cases c <;> rfl

end Combinator

/-- A declaration of a unit; functions are also declared inside statements. -/
inductive Declaration where
  | classDecl (comment : Option NodeId) (abstractKeyword : Option TokenId) (classKeyword : TokenId)
      (name : NodeId) (typeParameters extendsClause withClause implementsClause : Option NodeId)
      (leftBrace : TokenId) (members : List NodeId) (rightBrace : TokenId)
  | typeAlias (comment : Option NodeId) (keyword : TokenId) (returnType : Option NodeId)
      (name : NodeId) (typeParameters : Option NodeId) (parameters : NodeId) (semicolon : TokenId)
  /-- Also a getter or setter, by its property keyword. -/
  | functionDecl (comment : Option NodeId) (externalKeyword : Option TokenId)
      (returnType : Option NodeId) (propertyKeyword : Option TokenId) (name function : NodeId)
  | variablesDecl (comment : Option NodeId) (varList : NodeId) (semicolon : TokenId)

namespace Declaration

def kindName : Declaration → String
  | .classDecl .. => "ClassDeclaration"
  | .typeAlias .. => "TypeAlias"
  | .functionDecl .. => "FunctionDeclaration"
  | .variablesDecl .. => "TopLevelVariableDeclaration"

def fields : Declaration → List Field
  | .classDecl comment abstractKeyword classKeyword name typeParameters extendsClause withClause
      implementsClause leftBrace members rightBrace =>
    [.node? comment, .token? abstractKeyword, .token classKeyword, .node name,
     .node? typeParameters, .node? extendsClause, .node? withClause, .node? implementsClause,
     .token leftBrace, .nodes members, .token rightBrace]
  | .typeAlias comment keyword returnType name typeParameters parameters semicolon =>
    [.node? comment, .token keyword, .node? returnType, .node name, .node? typeParameters,
     .node parameters, .token semicolon]
  | .functionDecl comment externalKeyword returnType propertyKeyword name function =>
    [.node? comment, .token? externalKeyword, .node? returnType, .token? propertyKeyword,
     .node name, .node function]
  | .variablesDecl comment varList semicolon =>
    [.node? comment, .node varList, .token semicolon]

def withFields (d : Declaration) (fs : List Field) : Declaration :=
  match d, fs with
  | .classDecl ..,
    [.node? comment, .token? abstractKeyword, .token classKeyword, .node name,
     .node? typeParameters, .node? extendsClause, .node? withClause, .node? implementsClause,
     .token leftBrace, .nodes members, .token rightBrace] =>
    .classDecl comment abstractKeyword classKeyword name typeParameters extendsClause withClause
      implementsClause leftBrace members rightBrace
  | .typeAlias ..,
    [.node? comment, .token keyword, .node? returnType, .node name,
     .node? typeParameters, .node parameters, .token semicolon] =>
    .typeAlias comment keyword returnType name typeParameters parameters semicolon
  | .functionDecl ..,
    [.node? comment, .token? externalKeyword, .node? returnType,
     .token? propertyKeyword, .node name, .node function] =>
    .functionDecl comment externalKeyword returnType propertyKeyword name function
  | .variablesDecl .., [.node? comment, .node varList, .token semicolon] =>
    .variablesDecl comment varList semicolon
  | _, _ => d

@[simp] theorem withFields_fields (d : Declaration) : d.withFields d.fields = d := by
  cases d <;> rfl

end Declaration

/-- A member of a class. -/
inductive Member where
  | field (comment : Option NodeId) (staticKeyword : Option TokenId) (fields : NodeId)
      (semicolon : TokenId)
  /-- The modifier is `static` or `abstract`, the property keyword `get` or `set`. -/
  | method (comment : Option NodeId) (externalKeyword modifierKeyword : Option TokenId)
      (returnType : Option NodeId) (propertyKeyword operatorKeyword : Option TokenId)
      (name : NodeId) (parameters : Option NodeId) (body : NodeId)
  /-- The return type is the class name as written. -/
  | constructor (comment : Option NodeId)
      (externalKeyword constKeyword factoryKeyword : Option TokenId) (returnType : NodeId)
      (period : Option TokenId) (name : Option NodeId) (parameters : NodeId)
      (separator : Option TokenId) (initializers : List NodeId) (body : NodeId)

namespace Member

def kindName : Member → String
  | .field .. => "FieldDeclaration"
  | .method .. => "MethodDeclaration"
  | .constructor .. => "ConstructorDeclaration"

def fields : Member → List Field
  | .field comment staticKeyword fields semicolon =>
    [.node? comment, .token? staticKeyword, .node fields, .token semicolon]
  | .method comment externalKeyword modifierKeyword returnType propertyKeyword operatorKeyword name
      parameters body =>
    [.node? comment, .token? externalKeyword, .token? modifierKeyword, .node? returnType,
     .token? propertyKeyword, .token? operatorKeyword, .node name, .node? parameters, .node body]
  | .constructor comment externalKeyword constKeyword factoryKeyword returnType period name
      parameters separator initializers body =>
    [.node? comment, .token? externalKeyword, .token? constKeyword, .token? factoryKeyword,
     .node returnType, .token? period, .node? name, .node parameters, .token? separator,
     .nodes initializers, .node body]

def withFields (m : Member) (fs : List Field) : Member :=
  match m, fs with
  | .field .., [.node? comment, .token? staticKeyword, .node fields, .token semicolon] =>
    .field comment staticKeyword fields semicolon
  | .method ..,
    [.node? comment, .token? externalKeyword, .token? modifierKeyword,
     .node? returnType, .token? propertyKeyword, .token? operatorKeyword, .node name,
     .node? parameters, .node body] =>
    .method comment externalKeyword modifierKeyword returnType propertyKeyword operatorKeyword name
      parameters body
  | .constructor ..,
    [.node? comment, .token? externalKeyword, .token? constKeyword,
     .token? factoryKeyword, .node returnType, .token? period, .node? name, .node parameters,
     .token? separator, .nodes initializers, .node body] =>
    .constructor comment externalKeyword constKeyword factoryKeyword returnType period name
      parameters separator initializers body
  | _, _ => m

@[simp] theorem withFields_fields (m : Member) : m.withFields m.fields = m := by
  cases m <;> rfl

end Member

/-- A clause in the heading of a class. -/
inductive Clause where
  | extending (keyword : TokenId) (superclass : NodeId)
  | mixing (keyword : TokenId) (mixins : List NodeId)
  | implementing (keyword : TokenId) (interfaces : List NodeId)

namespace Clause

def kindName : Clause → String
  | .extending .. => "ExtendsClause"
  | .mixing .. => "WithClause"
  | .implementing .. => "ImplementsClause"

def fields : Clause → List Field
  | .extending keyword superclass => [.token keyword, .node superclass]
  | .mixing keyword mixins => [.token keyword, .nodes mixins]
  | .implementing keyword interfaces => [.token keyword, .nodes interfaces]

def withFields (c : Clause) (fs : List Field) : Clause :=
  match c, fs with
  | .extending .., [.token keyword, .node superclass] => .extending keyword superclass
  | .mixing .., [.token keyword, .nodes mixins] => .mixing keyword mixins
  | .implementing .., [.token keyword, .nodes interfaces] => .implementing keyword interfaces
  | _, _ => c

@[simp] theorem withFields_fields (c : Clause) : c.withFields c.fields = c := by
  cases c <;> rfl

end Clause

/-- An initializer of a constructor. -/
inductive Initializer where
  | field (thisKeyword period : Option TokenId) (fieldName : NodeId) (equals : TokenId)
      (expression : NodeId)
  | superCall (keyword : TokenId) (period : Option TokenId) (constructorName : Option NodeId)
      (arguments : NodeId)

namespace Initializer

def kindName : Initializer → String
  | .field .. => "ConstructorFieldInitializer"
  | .superCall .. => "SuperConstructorInvocation"

def fields : Initializer → List Field
  | .field thisKeyword period fieldName equals expression =>
    [.token? thisKeyword, .token? period, .node fieldName, .token equals, .node expression]
  | .superCall keyword period constructorName arguments =>
    [.token keyword, .token? period, .node? constructorName, .node arguments]

def withFields (i : Initializer) (fs : List Field) : Initializer :=
  match i, fs with
  | .field ..,
    [.token? thisKeyword, .token? period, .node fieldName, .token equals,
     .node expression] =>
    .field thisKeyword period fieldName equals expression
  | .superCall .., [.token keyword, .token? period, .node? constructorName, .node arguments] =>
    .superCall keyword period constructorName arguments
  | _, _ => i

@[simp] theorem withFields_fields (i : Initializer) : i.withFields i.fields = i := by
  cases i <;> rfl

end Initializer

/-- A formal parameter. -/
inductive Parameter where
  | simple (keyword : Option TokenId) (typeName : Option NodeId) (name : NodeId)
  /-- Assigns a field of the class under construction. -/
  | field (keyword : Option TokenId) (typeName : Option NodeId) (thisKeyword period : TokenId)
      (name : NodeId)
  | optional (parameter : NodeId) (kind : ParameterKind) (separator : Option TokenId)
      (defaultValue : Option NodeId)

namespace Parameter

def kindName : Parameter → String
  | .simple .. => "SimpleFormalParameter"
  | .field .. => "FieldFormalParameter"
  | .optional .. => "DefaultFormalParameter"

def fields : Parameter → List Field
  | .simple keyword typeName name => [.token? keyword, .node? typeName, .node name]
  | .field keyword typeName thisKeyword period name =>
    [.token? keyword, .node? typeName, .token thisKeyword, .token period, .node name]
  | .optional parameter _ separator defaultValue =>
    [.node parameter, .token? separator, .node? defaultValue]

def withFields (p : Parameter) (fs : List Field) : Parameter :=
  match p, fs with
  | .simple .., [.token? keyword, .node? typeName, .node name] => .simple keyword typeName name
  | .field .., [.token? keyword, .node? typeName, .token thisKeyword, .token period, .node name] =>
    .field keyword typeName thisKeyword period name
  | .optional _ kind _ _, [.node parameter, .token? separator, .node? defaultValue] =>
    .optional parameter kind separator defaultValue
  | _, _ => p

@[simp] theorem withFields_fields (p : Parameter) : p.withFields p.fields = p := by
  cases p <;> rfl

end Parameter

/-- The body of a function. -/
inductive Body where
  | blockBody (block : NodeId)
  | expressionBody (arrow : TokenId) (expression : NodeId) (semicolon : Option TokenId)
  | emptyBody (semicolon : TokenId)

namespace Body

def kindName : Body → String
  | .blockBody .. => "BlockFunctionBody"
  | .expressionBody .. => "ExpressionFunctionBody"
  | .emptyBody .. => "EmptyFunctionBody"

def fields : Body → List Field
  | .blockBody block => [.node block]
  | .expressionBody arrow expression semicolon =>
    [.token arrow, .node expression, .token? semicolon]
  | .emptyBody semicolon => [.token semicolon]

def withFields (b : Body) (fs : List Field) : Body :=
  match b, fs with
  | .blockBody .., [.node block] => .blockBody block
  | .expressionBody .., [.token arrow, .node expression, .token? semicolon] =>
    .expressionBody arrow expression semicolon
  | .emptyBody .., [.token semicolon] => .emptyBody semicolon
  | _, _ => b

@[simp] theorem withFields_fields (b : Body) : b.withFields b.fields = b := by
  cases b <;> rfl

end Body

end DartAnalysis
