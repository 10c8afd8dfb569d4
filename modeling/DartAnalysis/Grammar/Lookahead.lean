/-
  Looking ahead to choose a production. Each function takes the tokens from some place on, without
  the end of file, and reads nothing.
-/
import DartAnalysis.Grammar.State

namespace DartAnalysis

namespace Grammar

/-- The kind of the first token; at the end it is the end of file. -/
def kindAt : List Token → Token.Kind
  | [] => .eof
  | t :: _ => t.kind

def isNameAt (ts : List Token) : Bool := (kindAt ts).isName

/-- A name that can be declared; `as` would read as a cast. -/
def isDeclaredNameAt (ts : List Token) : Bool :=
  isNameAt ts && kindAt ts != .keyword .asKw

/-- What follows type arguments of which `depth` lists are open. A double angle bracket closes two
    at once. -/
def skipTypeArguments : Nat → List Token → Option (List Token)
  | 0, ts => some ts
  | _ + 1, [] => none
  | depth + 1, t :: ts =>
    match t.kind with
    | .operator .lt => skipTypeArguments (depth + 2) ts
    | .operator .gt => skipTypeArguments depth ts
    | .operator .gtGt => skipTypeArguments (depth - 1) ts
    | .punctuation .comma | .punctuation .period => skipTypeArguments (depth + 1) ts
    | k => if k.isName then skipTypeArguments (depth + 1) ts else none

/-- What follows a type name at the front, if there is one. -/
def skipType (ts : List Token) : Option (List Token) :=
  if !isNameAt ts then none
  else
    let named := ts.drop 1
    let named :=
      if kindAt named == .punctuation .period && isNameAt (named.drop 1) then named.drop 2
      else named
    if kindAt named == .operator .lt then skipTypeArguments 1 (named.drop 1) else some named

/-- A type followed by a name that it declares. -/
def isTypeThenName (ts : List Token) : Bool :=
  (skipType ts).any isDeclaredNameAt

/-- What follows the parenthesis that closes `depth` open ones. -/
def skipParens : Nat → List Token → Option (List Token)
  | 0, ts => some ts
  | _ + 1, [] => none
  | depth + 1, t :: ts =>
    match t.kind with
    | .punctuation .openParen => skipParens (depth + 2) ts
    | .punctuation .closeParen => skipParens depth ts
    | _ => skipParens (depth + 1) ts

/-- A parameter list followed by a function body. -/
def isFunctionAt (ts : List Token) : Bool :=
  if kindAt ts == .punctuation .openParen then
    match skipParens 1 (ts.drop 1) with
    | some after =>
      kindAt after == .punctuation .openCurly || kindAt after == .punctuation .fatArrow
    | none => false
  else false

/-- The keyword of a getter or setter, followed by a name. -/
def isPropertyAt (ts : List Token) : Bool :=
  (kindAt ts == .keyword .getKw || kindAt ts == .keyword .setKw) && isDeclaredNameAt (ts.drop 1)

/-- The keyword of an operator, followed by one that can be declared. -/
def isOperatorAt (ts : List Token) : Bool :=
  kindAt ts == .keyword .operatorKw &&
  match kindAt (ts.drop 1) with
  | .operator o => o.isDefinable
  | .punctuation .openSquare => kindAt (ts.drop 2) == .punctuation .closeSquare
  | _ => false

/-- The beginning of a directive, as against a name spelled like its keyword. -/
def isDirectiveAt (ts : List Token) : Bool :=
  let next := kindAt (ts.drop 1)
  match kindAt ts with
  | .keyword .importKw | .keyword .exportKw =>
    next == .string || (next.isName && kindAt (ts.drop 2) == .punctuation .semicolon)
  | .keyword .partKw => next == .string || next == .keyword .ofKw
  | .keyword .libraryKw => next.isName
  | _ => false

/-- The beginning of an expression. -/
def isExpressionAt (ts : List Token) : Bool :=
  match kindAt ts with
  | .int | .hexInt | .double | .string => true
  | .keyword .thisKw | .keyword .superKw | .keyword .nullKw | .keyword .trueKw
  | .keyword .falseKw | .keyword .newKw | .keyword .constKw | .keyword .throwKw
  | .keyword .rethrowKw => true
  | .punctuation .openParen | .punctuation .openSquare | .punctuation .openCurly => true
  | .operator .lt | .operator .minus | .operator .bang | .operator .tilde | .operator .plusPlus
  | .operator .minusMinus => true
  | k => k.isName

/-- The keywords that begin a variable declaration. -/
def isVariableKeyword (k : Token.Kind) : Bool :=
  k == .keyword .varKw || k == .keyword .finalKw || k == .keyword .constKw

/-- A `const` that begins a declaration and not a constant expression; the tokens after it are
    given. -/
def isConstDeclaration (ts : List Token) : Bool :=
  isTypeThenName ts ||
  (isDeclaredNameAt ts &&
    match kindAt (ts.drop 1) with
    | .punctuation .openParen | .punctuation .period | .operator .lt => false
    | _ => true)

/-- The heading of a loop over the elements of something, after its parenthesis. -/
def isForEachAt (ts : List Token) : Bool :=
  let typed := if isVariableKeyword (kindAt ts) then ts.drop 1 else ts
  let named := if isTypeThenName typed then (skipType typed).getD typed else typed
  isDeclaredNameAt named && kindAt (named.drop 1) == .keyword .inKw

/-- What follows the labels at the front. -/
def skipLabels : List Token → List Token
  | t :: c :: ts =>
    if t.isName && c.kind == .punctuation .colon then skipLabels ts else t :: c :: ts
  | ts => ts

/-- One or more labels of a switch member. -/
def isSwitchLabelAt : List Token → Bool
  | t :: c :: ts =>
    let member := kindAt (skipLabels ts)
    t.isName && c.kind == .punctuation .colon &&
      (member == .keyword .caseKw || member == .keyword .defaultKw)
  | _ => false

/-- A constructor of the class called `name`: its name, perhaps dotted, and a parenthesis. -/
def isConstructorAt (name : String) (ts : List Token) : Bool :=
  match ts with
  | [] => false
  | t :: rest =>
    t.isName && t.lexeme == name &&
    match kindAt rest with
    | .punctuation .openParen => true
    | .punctuation .period =>
      isNameAt (rest.drop 1) && kindAt (rest.drop 2) == .punctuation .openParen
    | _ => false

/-- Whether a test holds of the unread tokens. -/
def looking (test : List Token → Bool) : Parse Bool := return test (← ahead)

end Grammar

end DartAnalysis
