/-
  What the grammar asks of the fields of a node: of each token field which kinds of token it may
  hold, and of each child field the category of the child. `Node.Kind.slots` lists this for every
  production, field by field, and `Node.Kind.WellSorted` asks it of a node against the tables of
  tokens and nodes it lives in.
-/
import DartAnalysis.Tree.Basic
import Mathlib.Data.List.Forall2

namespace DartAnalysis

/-! ## Tokens -/

namespace Token.Kind

/-- The kind itself and no other. -/
def exactly (kind : Kind) : Kind → Bool := (· == kind)

def anyOf (kinds : List Kind) : Kind → Bool := kinds.contains

/-- What may stand before a variable or parameter. -/
def isVariableWord : Kind → Bool := anyOf [.keyword .varKw, .keyword .finalKw, .keyword .constKw]

def isBinaryOperator : Kind → Bool
  | .operator o =>
    Precedence.logicalOr.level ≤ o.precedence.level &&
      o.precedence.level ≤ Precedence.multiplicative.level
  | _ => false

def isAssignmentOperator : Kind → Bool
  | .operator o => o.isAssignment
  | _ => false

def isPrefixOperator : Kind → Bool :=
  anyOf [.operator .minus, .operator .bang, .operator .tilde, .operator .plusPlus,
    .operator .minusMinus]

def isPostfixOperator : Kind → Bool := anyOf [.operator .plusPlus, .operator .minusMinus]

/-- The operators that a class may declare. -/
def isDefinableOperator : Kind → Bool
  | .operator o => o.isDefinable
  | _ => false

/-- How a type may be called: by a name, or `void`. -/
def isTypeWord (k : Kind) : Bool := k.isName || k == .keyword .voidKw

/-- What an identifier may be written as; an operator only where it is declared. -/
def isIdentifierWord (k : Kind) : Bool := k.isTypeWord || k.isDefinableOperator

/-- What may stand before the default value of a parameter; a colon only if it is named. -/
def isDefaultSeparator : ParameterKind → Kind → Bool
  | .named => anyOf [.punctuation .colon, .operator .eq]
  | _ => exactly (.operator .eq)

end Token.Kind

/-! ## Categories -/

/-- What a child may be. -/
inductive Category where
  | expression
  /-- An expression with a label before it or without. -/
  | argument
  | name
  /-- The name of a type, perhaps with a qualifier. -/
  | typeIdentifier
  /-- The operator that a method declares. -/
  | operatorName
  /-- A string literal that is not made of several. -/
  | singleString
  | string
  /-- The URI of a directive, or the name that was read in its place. -/
  | uri
  /-- What is interpolated without braces. -/
  | interpolatedName
  | closure
  | statement
  | block
  | unit
  | comment
  | directive
  | combinator
  | libraryName
  | declaration
  /-- A function with a name, also a getter or setter. -/
  | function
  | member
  | extendsClause
  | withClause
  | implementsClause
  | constructorInitializer
  | typeParameterList
  | typeParameter
  | type
  | typeArgumentList
  | variableList
  | variableDeclaration
  | parameterList
  | parameter
  /-- A parameter without default value. -/
  | normalParameter
  | functionBody
  /-- The variable of a loop over elements: a declared one, or the name of one. -/
  | loopVariable
  | switchMember
  | catchClause
  | label
  | stringElement
  | mapEntry
  | constructorName
  | argumentList

namespace Category

/-- The nodes of a category. -/
def admits : Category → Node.Kind → Bool
  | .expression => fun | .expression (.named ..) => false | .expression _ => true | _ => false
  | .argument => fun | .expression _ => true | _ => false
  | .name | .operatorName => fun | .expression (.identifier _) => true | _ => false
  | .typeIdentifier => fun
    | .expression (.identifier _) | .expression (.qualified ..) => true
    | _ => false
  | .singleString => fun
    | .expression (.string ..) | .expression (.interpolation _) => true
    | _ => false
  | .string => fun
    | .expression (.string ..) | .expression (.interpolation _) | .expression (.adjacent _) => true
    | _ => false
  | .uri => fun
    | .expression (.string ..) | .expression (.interpolation _) | .expression (.adjacent _)
    | .expression (.identifier _) => true
    | _ => false
  | .interpolatedName => fun
    | .expression (.identifier _) | .expression (.this _) => true
    | _ => false
  | .closure => fun | .expression (.closure ..) => true | _ => false
  | .statement => fun | .statement _ => true | _ => false
  | .block => fun | .statement (.block ..) => true | _ => false
  | .unit => fun | .unit .. => true | _ => false
  | .comment => fun | .comment _ => true | _ => false
  | .directive => fun | .directive _ => true | _ => false
  | .combinator => fun | .combinator _ => true | _ => false
  | .libraryName => fun | .libraryName _ => true | _ => false
  | .declaration => fun | .declaration _ => true | _ => false
  | .function => fun | .declaration (.functionDecl ..) => true | _ => false
  | .member => fun | .member _ => true | _ => false
  | .extendsClause => fun | .clause (.extending ..) => true | _ => false
  | .withClause => fun | .clause (.mixing ..) => true | _ => false
  | .implementsClause => fun | .clause (.implementing ..) => true | _ => false
  | .constructorInitializer => fun | .constructorInitializer _ => true | _ => false
  | .typeParameterList => fun | .typeParameterList .. => true | _ => false
  | .typeParameter => fun | .typeParameter .. => true | _ => false
  | .type => fun | .type .. => true | _ => false
  | .typeArgumentList => fun | .typeArgumentList .. => true | _ => false
  | .variableList => fun | .variableList .. => true | _ => false
  | .variableDeclaration => fun | .variable .. => true | _ => false
  | .parameterList => fun | .parameterList .. => true | _ => false
  | .parameter => fun | .parameter _ => true | _ => false
  | .normalParameter => fun
    | .parameter (.simple ..) | .parameter (.field ..) => true
    | _ => false
  | .functionBody => fun | .functionBody _ => true | _ => false
  | .loopVariable => fun
    | .declaredIdentifier .. | .expression (.identifier _) => true
    | _ => false
  | .switchMember => fun | .switchMember _ => true | _ => false
  | .catchClause => fun | .catchClause .. => true | _ => false
  | .label => fun | .label .. => true | _ => false
  | .stringElement => fun | .stringElement _ => true | _ => false
  | .mapEntry => fun | .mapEntry .. => true | _ => false
  | .constructorName => fun | .constructorName .. => true | _ => false
  | .argumentList => fun | .argumentList .. => true | _ => false

/-- The kinds of token that an identifier of a category is written as. -/
def spells : Category → Token.Kind → Bool
  | .typeIdentifier => Token.Kind.isTypeWord
  | .operatorName => Token.Kind.isDefinableOperator
  | _ => Token.Kind.isName

/-- Admits a node for what it is, whatever tokens it is written with. -/
def takes (c : Category) : Node.Kind → Bool
  | .expression (.identifier _) => false
  | kind => c.admits kind

theorem ne_identifier_of_takes {c : Category} {kind : Node.Kind} (h : c.takes kind = true)
    (t : TokenId) : kind ≠ .expression (.identifier t) := by
  rintro rfl
  cases h

/-- Every node of a category is one of another category as well. -/
structure Within (c d : Category) : Prop where
  admits : ∀ kind, c.admits kind = true → d.admits kind = true
  spells : ∀ k, c.spells k = true → d.spells k = true

/-- A category of expressions lies within another one if it does so expression by expression. -/
theorem Within.of_expressions {c d : Category}
    (hc : ∀ kind, c.admits kind = true → kind.isExpression = true)
    (hadmits : ∀ e, c.admits (.expression e) = true → d.admits (.expression e) = true)
    (hspells : ∀ k, c.spells k = true → d.spells k = true) : Within c d where
  admits kind h := by
    have hkind := hc kind h
    unfold Node.Kind.isExpression at hkind
    split at hkind
    · exact hadmits _ h
    · cases hkind
  spells := hspells

theorem isExpression_of_name (kind : Node.Kind) (h : name.admits kind = true) :
    kind.isExpression = true := by
  cases kind <;> first | rfl | cases h

theorem isExpression_of_singleString (kind : Node.Kind) (h : singleString.admits kind = true) :
    kind.isExpression = true := by
  cases kind <;> first | rfl | cases h

theorem isExpression_of_string (kind : Node.Kind) (h : string.admits kind = true) :
    kind.isExpression = true := by
  cases kind <;> first | rfl | cases h

theorem isExpression_of_expression (kind : Node.Kind) (h : expression.admits kind = true) :
    kind.isExpression = true := by
  cases kind <;> first | rfl | cases h

theorem name_within_typeIdentifier : Within .name .typeIdentifier :=
  .of_expressions isExpression_of_name (fun e h => by cases e <;> first | rfl | cases h)
    fun k h => Bool.or_eq_true_iff.2 (.inl h)

theorem name_within_expression : Within .name .expression :=
  .of_expressions isExpression_of_name (fun e h => by cases e <;> first | rfl | cases h) fun _ => id

theorem name_within_interpolatedName : Within .name .interpolatedName :=
  .of_expressions isExpression_of_name (fun e h => by cases e <;> first | rfl | cases h) fun _ => id

theorem name_within_loopVariable : Within .name .loopVariable :=
  .of_expressions isExpression_of_name (fun e h => by cases e <;> first | rfl | cases h) fun _ => id

theorem singleString_within_string : Within .singleString .string :=
  .of_expressions isExpression_of_singleString (fun e h => by cases e <;> first | rfl | cases h)
    fun _ => id

theorem string_within_expression : Within .string .expression :=
  .of_expressions isExpression_of_string (fun e h => by cases e <;> first | rfl | cases h)
    fun _ => id

theorem string_within_uri : Within .string .uri :=
  .of_expressions isExpression_of_string (fun e h => by cases e <;> first | rfl | cases h)
    fun _ => id

theorem expression_within_argument : Within .expression .argument :=
  .of_expressions isExpression_of_expression (fun _ _ => rfl) fun _ => id

theorem normalParameter_within_parameter : Within .normalParameter .parameter where
  admits kind h := by
    cases kind <;> first | rfl | cases h
  spells _ := id

theorem block_within_statement : Within .block .statement where
  admits kind h := by
    cases kind <;> first | rfl | cases h
  spells _ := id

theorem function_within_declaration : Within .function .declaration where
  admits kind h := by
    cases kind <;> first | rfl | cases h
  spells _ := id

end Category

/-! ## Tables -/

/-- A node by itself: its kind and the tokens that it begins and ends with. -/
structure Shape where
  kind : Node.Kind
  first : Nat
  last : Nat

/-- The kinds of the tokens that there are, and the nodes. -/
structure Tables where
  token? : TokenId → Option Token.Kind
  node? : NodeId → Option Shape

namespace Tables

/-- There is a token with an index, of one of the given kinds. -/
def Has (T : Tables) (p : Token.Kind → Bool) (t : TokenId) : Prop :=
  ∃ k, T.token? t = some k ∧ p k = true

/-- There is a node with an index, and it is of the category. -/
def Is (T : Tables) (c : Category) (n : NodeId) : Prop :=
  ∃ shape, T.node? n = some shape ∧ c.admits shape.kind = true ∧
    ∀ t, shape.kind = .expression (.identifier t) → T.Has c.spells t

/-- Tables with more in them. -/
structure Extends (S T : Tables) : Prop where
  token : ∀ {t k}, S.token? t = some k → T.token? t = some k
  node : ∀ {n shape}, S.node? n = some shape → T.node? n = some shape

variable {S T : Tables}

theorem Has.mono (hle : S.Extends T) {p : Token.Kind → Bool} {t : TokenId} (h : S.Has p t) :
    T.Has p t := by
  obtain ⟨k, hk, hp⟩ := h
  exact ⟨k, hle.token hk, hp⟩

theorem Has.weaken {p q : Token.Kind → Bool} {t : TokenId} (h : T.Has p t)
    (hpq : ∀ k, p k = true → q k = true) : T.Has q t := by
  obtain ⟨k, hk, hp⟩ := h
  exact ⟨k, hk, hpq k hp⟩

theorem Is.mono (hle : S.Extends T) {c : Category} {n : NodeId} (h : S.Is c n) : T.Is c n := by
  obtain ⟨shape, hshape, hadmits, hspells⟩ := h
  exact ⟨shape, hle.node hshape, hadmits, fun t ht => (hspells t ht).mono hle⟩

theorem Is.weaken {c d : Category} {n : NodeId} (h : T.Is c n) (hcd : c.Within d) : T.Is d n := by
  obtain ⟨shape, hshape, hadmits, hspells⟩ := h
  exact ⟨shape, hshape, hcd.admits shape.kind hadmits, fun t ht => (hspells t ht).weaken hcd.spells⟩

theorem Is.of_takes {c : Category} {n : NodeId} {shape : Shape} (h : T.node? n = some shape)
    (htakes : c.takes shape.kind = true) : T.Is c n := by
  refine ⟨shape, h, ?_, fun t ht => ?_⟩
  · unfold Category.takes at htakes
    split at htakes
    · exact absurd htakes nofun
    · exact htakes
  · rw [ht] at htakes
    exact absurd htakes nofun

end Tables

/-- Tables of which is known whether anything was reported. -/
structure Layout extends Tables where
  clean : Prop

/-- A layout with more in it. -/
structure Layout.Extends (S T : Layout) : Prop extends S.toTables.Extends T.toTables where
  clean : T.clean → S.clean

theorem Layout.Extends.trans {S T U : Layout} (h : S.Extends T) (h' : T.Extends U) : S.Extends U where
  token ht := h'.token (h.token ht)
  node hn := h'.node (h.node hn)
  clean hclean := h.clean (h'.clean hclean)

/-! ## Slots -/

/-- What is asked of a field. -/
inductive Slot where
  | token (p : Token.Kind → Bool)
  | token? (p : Token.Kind → Bool)
  /-- A token that stands between the nodes of the field before it. -/
  | delimiter? (p : Token.Kind → Bool)
  | node (c : Category)
  | node? (c : Category)
  | nodes (c : Category)
  /-- A string literal; a name in its place is reported. -/
  | uri
  /-- A run of comments before the node. -/
  | comment

namespace Slot

abbrev keyword (k : Keyword) : Slot := .token (Token.Kind.exactly (.keyword k))

abbrev keyword? (k : Keyword) : Slot := .token? (Token.Kind.exactly (.keyword k))

abbrev punctuation (p : Punctuation) : Slot := .token (Token.Kind.exactly (.punctuation p))

abbrev punctuation? (p : Punctuation) : Slot := .token? (Token.Kind.exactly (.punctuation p))

abbrev operator (o : Operator) : Slot := .token (Token.Kind.exactly (.operator o))

abbrev operator? (o : Operator) : Slot := .token? (Token.Kind.exactly (.operator o))

/-- A field that is not of the shape that is asked for satisfies nothing. -/
def Holds (T : Layout) : Slot → Field → Prop
  | .token p, .token t => T.Has p t
  | .token? p, .token? t? | .delimiter? p, .token? t? => ∀ t ∈ t?, T.Has p t
  | .node c, .node n => T.Is c n
  | .node? c, .node? n? => ∀ n ∈ n?, T.Is c n
  | .nodes c, .nodes ns => ∀ n ∈ ns, T.Is c n
  | .uri, .node n => T.Is .uri n ∧ (T.clean → T.Is .string n)
  | .comment, .node? n? => ∀ n ∈ n?, T.Is .comment n
  | _, _ => False

end Slot

section Signature

open Token.Kind

def Directive.slots : Directive → List Slot
  | .library .. =>
    [.comment, .keyword .libraryKw, .node .libraryName, .punctuation .semicolon]
  | .importing .. =>
    [.comment, .keyword .importKw, .uri, .keyword? .asKw, .node? .name,
     .nodes .combinator, .punctuation .semicolon]
  | .exporting .. =>
    [.comment, .keyword .exportKw, .uri, .nodes .combinator, .punctuation .semicolon]
  | .part .. => [.comment, .keyword .partKw, .uri, .punctuation .semicolon]
  | .partOf .. =>
    [.comment, .keyword .partKw, .keyword .ofKw, .node .libraryName,
     .punctuation .semicolon]

def Combinator.slots : Combinator → List Slot
  | .showing .. => [.keyword .showKw, .nodes .name]
  | .hiding .. => [.keyword .hideKw, .nodes .name]

def Declaration.slots : Declaration → List Slot
  | .classDecl .. =>
    [.comment, .keyword? .abstractKw, .keyword .classKw, .node .name,
     .node? .typeParameterList, .node? .extendsClause, .node? .withClause, .node? .implementsClause,
     .punctuation .openCurly, .nodes .member, .punctuation .closeCurly]
  | .typeAlias .. =>
    [.comment, .keyword .typedefKw, .node? .type, .node .name, .node? .typeParameterList,
     .node .parameterList, .punctuation .semicolon]
  | .functionDecl .. =>
    [.comment, .keyword? .externalKw, .node? .type,
     .token? (anyOf [.keyword .getKw, .keyword .setKw]), .node .name, .node .closure]
  | .variablesDecl .. => [.comment, .node .variableList, .punctuation .semicolon]

def Member.slots : Member → List Slot
  | .field .. =>
    [.comment, .keyword? .staticKw, .node .variableList, .punctuation .semicolon]
  | .method _ _ _ _ _ operatorKeyword _ _ _ =>
    [.comment, .keyword? .externalKw,
     .token? (anyOf [.keyword .staticKw, .keyword .abstractKw]), .node? .type,
     .token? (anyOf [.keyword .getKw, .keyword .setKw]), .keyword? .operatorKw,
     .node (if operatorKeyword.isSome then .operatorName else .name), .node? .parameterList,
     .node .functionBody]
  | .constructor .. =>
    [.comment, .keyword? .externalKw, .keyword? .constKw, .keyword? .factoryKw, .node .name,
     .punctuation? .period, .node? .name, .node .parameterList, .punctuation? .colon,
     .nodes .constructorInitializer, .node .functionBody]

def Clause.slots : Clause → List Slot
  | .extending .. => [.keyword .extendsKw, .node .type]
  | .mixing .. => [.keyword .withKw, .nodes .type]
  | .implementing .. => [.keyword .implementsKw, .nodes .type]

def Initializer.slots : Initializer → List Slot
  | .field .. =>
    [.keyword? .thisKw, .punctuation? .period, .node .name, .operator .eq, .node .expression]
  | .superCall .. => [.keyword .superKw, .punctuation? .period, .node? .name, .node .argumentList]

def Parameter.slots : Parameter → List Slot
  | .simple .. => [.token? isVariableWord, .node? .type, .node .name]
  | .field .. =>
    [.token? isVariableWord, .node? .type, .keyword .thisKw, .punctuation .period,
     .node .name]
  | .optional _ kind _ _ =>
    [.node .normalParameter, .token? (isDefaultSeparator kind), .node? .expression]

def Body.slots : Body → List Slot
  | .blockBody .. => [.node .block]
  | .expressionBody .. => [.punctuation .fatArrow, .node .expression, .punctuation? .semicolon]
  | .emptyBody .. => [.punctuation .semicolon]

def Statement.slots : Statement → List Slot
  | .block .. => [.punctuation .openCurly, .nodes .statement, .punctuation .closeCurly]
  | .variablesDecl .. => [.node .variableList, .punctuation .semicolon]
  | .functionDecl .. => [.node .function]
  | .evaluate .. => [.node .expression, .punctuation .semicolon]
  | .empty .. => [.punctuation .semicolon]
  | .ifElse .. =>
    [.keyword .ifKw, .punctuation .openParen, .node .expression, .punctuation .closeParen,
     .node .statement, .keyword? .elseKw, .node? .statement]
  | .whileLoop .. =>
    [.keyword .whileKw, .punctuation .openParen, .node .expression, .punctuation .closeParen,
     .node .statement]
  | .doLoop .. =>
    [.keyword .doKw, .node .statement, .keyword .whileKw, .punctuation .openParen,
     .node .expression, .punctuation .closeParen, .punctuation .semicolon]
  | .forLoop .. =>
    [.keyword .forKw, .punctuation .openParen, .node? .variableList, .node? .expression,
     .punctuation .semicolon, .node? .expression, .punctuation .semicolon, .nodes .expression,
     .punctuation .closeParen, .node .statement]
  | .forEach .. =>
    [.keyword .forKw, .punctuation .openParen, .node .loopVariable, .keyword .inKw,
     .node .expression, .punctuation .closeParen, .node .statement]
  | .switch .. =>
    [.keyword .switchKw, .punctuation .openParen, .node .expression, .punctuation .closeParen,
     .punctuation .openCurly, .nodes .switchMember, .punctuation .closeCurly]
  | .tryCatch .. =>
    [.keyword .tryKw, .node .block, .nodes .catchClause, .keyword? .finallyKw, .node? .block]
  | .returns .. => [.keyword .returnKw, .node? .expression, .punctuation .semicolon]
  | .breaks .. => [.keyword .breakKw, .node? .name, .punctuation .semicolon]
  | .continues .. => [.keyword .continueKw, .node? .name, .punctuation .semicolon]
  | .labeled .. => [.nodes .label, .node .statement]
  | .assertion .. =>
    [.keyword .assertKw, .punctuation .openParen, .node .expression, .punctuation .closeParen,
     .punctuation .semicolon]

def SwitchMember.slots : SwitchMember → List Slot
  | .case .. =>
    [.nodes .label, .keyword .caseKw, .node .expression, .punctuation .colon, .nodes .statement]
  | .default .. => [.nodes .label, .keyword .defaultKw, .punctuation .colon, .nodes .statement]

/-- The mark between the target of an access and what is accessed; a cascade has no target. -/
def accessMark (target? : Option NodeId) : Token.Kind → Bool :=
  exactly (.punctuation (if target?.isSome then .period else .periodPeriod))

def Expression.slots : Expression → List Slot
  | .identifier .. => [.token isIdentifierWord]
  | .qualified .. => [.node .name, .punctuation .period, .node .name]
  | .integer .. => [.token (anyOf [.int, .hexInt])]
  | .double .. => [.token (exactly .double)]
  | .boolean .. => [.token (anyOf [.keyword .trueKw, .keyword .falseKw])]
  | .null .. => [.keyword .nullKw]
  | .string .. => [.token (exactly .string)]
  | .interpolation .. => [.nodes .stringElement]
  | .adjacent .. => [.nodes .singleString]
  | .list .. =>
    [.keyword? .constKw, .node? .typeArgumentList, .punctuation .openSquare, .nodes .expression,
     .punctuation .closeSquare]
  | .map .. =>
    [.keyword? .constKw, .node? .typeArgumentList, .punctuation .openCurly, .nodes .mapEntry,
     .punctuation .closeCurly]
  | .this .. => [.keyword .thisKw]
  | .super .. => [.keyword .superKw]
  | .paren .. => [.punctuation .openParen, .node .expression, .punctuation .closeParen]
  | .assign .. => [.node .expression, .token isAssignmentOperator, .node .expression]
  | .conditional .. =>
    [.node .expression, .punctuation .question, .node .expression, .punctuation .colon,
     .node .expression]
  | .binary .. => [.node .expression, .token isBinaryOperator, .node .expression]
  | .unary .. => [.token isPrefixOperator, .node .expression]
  | .postUnary .. => [.node .expression, .token isPostfixOperator]
  | .isTest .. => [.node .expression, .keyword .isKw, .operator? .bang, .node .type]
  | .cast .. => [.node .expression, .keyword .asKw, .node .type]
  | .indexed .. =>
    [.node? .expression, .punctuation? .periodPeriod, .punctuation .openSquare, .node .expression,
     .punctuation .closeSquare]
  | .property target? _ _ => [.node? .expression, .token (accessMark target?), .node .name]
  | .call target? _ _ _ =>
    [.node? .expression, .token? (accessMark target?), .node .name, .node .argumentList]
  | .apply .. => [.node .expression, .node .argumentList]
  | .create .. =>
    [.token (anyOf [.keyword .newKw, .keyword .constKw]), .node .constructorName,
     .node .argumentList]
  | .named .. => [.node .label, .node .expression]
  | .cascade .. => [.node .expression, .nodes .expression]
  | .throws .. => [.keyword .throwKw, .node .expression]
  | .rethrows .. => [.keyword .rethrowKw]
  | .closure .. => [.node? .parameterList, .node .functionBody]

def StringElement.slots : StringElement → List Slot
  | .text .. => [.token (anyOf [.string, .stringPart])]
  | .spliced _ _ (some _) =>
    [.token (exactly .interpolationExpression), .node .expression, .punctuation? .closeCurly]
  | .spliced _ _ none =>
    [.token (exactly .interpolationIdentifier), .node .interpolatedName, .punctuation? .closeCurly]

/-- What the grammar asks of the fields of a node, in their order. -/
def Node.Kind.slots : Node.Kind → List Slot
  | .unit .. => [.nodes .directive, .nodes .declaration]
  | .comment _ => []
  | .directive x => x.slots
  | .combinator x => x.slots
  | .libraryName .. => [.nodes .name]
  | .declaration x => x.slots
  | .member x => x.slots
  | .clause x => x.slots
  | .constructorInitializer x => x.slots
  | .typeParameterList .. => [.operator .lt, .nodes .typeParameter, .operator .gt]
  | .typeParameter .. => [.node .name, .keyword? .extendsKw, .node? .type]
  | .type .. => [.node .typeIdentifier, .node? .typeArgumentList]
  | .typeArgumentList .. => [.operator .lt, .nodes .type, .operator .gt]
  | .variableList .. => [.token? isVariableWord, .node? .type, .nodes .variableDeclaration]
  | .variable .. => [.node .name, .operator? .eq, .node? .expression]
  | .parameterList .. =>
    [.punctuation .openParen, .nodes .parameter,
     .delimiter? (anyOf [.punctuation .openSquare, .punctuation .openCurly]),
     .delimiter? (anyOf [.punctuation .closeSquare, .punctuation .closeCurly]),
     .punctuation .closeParen]
  | .parameter x => x.slots
  | .functionBody x => x.slots
  | .statement x => x.slots
  | .declaredIdentifier .. => [.token? isVariableWord, .node? .type, .node .name]
  | .switchMember x => x.slots
  | .catchClause .. =>
    [.keyword? .onKw, .node? .type, .keyword? .catchKw, .punctuation? .openParen, .node? .name,
     .punctuation? .comma, .node? .name, .punctuation? .closeParen, .node .block]
  | .label .. => [.node .name, .punctuation .colon]
  | .expression x => x.slots
  | .stringElement x => x.slots
  | .mapEntry .. => [.node .expression, .punctuation .colon, .node .expression]
  | .constructorName .. => [.node .type, .punctuation? .period, .node? .name]
  | .argumentList .. => [.punctuation .openParen, .nodes .argument, .punctuation .closeParen]

/-- Every field of a node holds what the grammar asks of it. -/
def Node.Kind.WellSorted (T : Layout) (kind : Node.Kind) : Prop :=
  List.Forall₂ (Slot.Holds T) kind.slots kind.fields

end Signature

end DartAnalysis
