/-
  Directives, top-level declarations and whole units.
-/
import DartAnalysis.Grammar.Classes

namespace DartAnalysis

namespace Grammar

/-! ## Directives -/

def finishDirective (d : Directive) (first : TokenId) : Parse NodeId :=
  finish (.directive d) first

/-- A dotted library name. -/
def libraryName : Parse NodeId := do
  let first ← here
  let head ← identifier
  let more ← many do
    if (← isAtPunctuation .period) && (← peek 1).isName then
      let _ ← advance
      return some (← identifier)
    else return none
  finish (.libraryName (head :: more)) first

/-- The URI of a directive. A name in its place is reported and read, so that the directive goes on
    after it. -/
def directiveUri (g : Inner) : Parse NodeId := do
  if (← isAt .string) then stringLiteral g
  else if (← isAtName) then
    let token ← advance
    reportAt .nonStringLiteralAsUri token
    identifierOn token
  else
    reportHere .expectedStringLiteral []
    let literal ← insertMissing .string
    alloc (.expression (.string literal "")) literal literal

def combinator? : Parse (Option NodeId) := do
  let first ← here
  match (← currentKind) with
  | .keyword .showKw =>
    let keyword ← advance
    let names ← commaSeparated identifier
    return some (← finish (.combinator (.showing keyword names)) first)
  | .keyword .hideKw =>
    let keyword ← advance
    let names ← commaSeparated identifier
    return some (← finish (.combinator (.hiding keyword names)) first)
  | _ => return none

def importDirective (g : Inner) (comment? : Option NodeId) : Parse NodeId := do
  let first ← here
  let keyword ← advance
  let uri ← directiveUri g
  let as? ← acceptKeyword .asKw
  let qualifier? ← if as?.isSome then some <$> identifier else pure none
  let combinators ← many combinator?
  let semicolon ← expectPunctuation .semicolon
  finishDirective (.importing comment? keyword uri as? qualifier? combinators semicolon) first

def exportDirective (g : Inner) (comment? : Option NodeId) : Parse NodeId := do
  let first ← here
  let keyword ← advance
  let uri ← directiveUri g
  let combinators ← many combinator?
  let semicolon ← expectPunctuation .semicolon
  finishDirective (.exporting comment? keyword uri combinators semicolon) first

/-- A part directive, or the one by which a part names its library. -/
def partDirective (g : Inner) (comment? : Option NodeId) : Parse NodeId := do
  let first ← here
  let keyword ← expectKeyword .partKw
  match (← acceptKeyword .ofKw) with
  | some ofKeyword =>
    let name ← libraryName
    let semicolon ← expectPunctuation .semicolon
    finishDirective (.partOf comment? keyword ofKeyword name semicolon) first
  | none =>
    let uri ← directiveUri g
    let semicolon ← expectPunctuation .semicolon
    finishDirective (.part comment? keyword uri semicolon) first

def libraryDirective (comment? : Option NodeId) : Parse NodeId := do
  let first ← here
  let keyword ← advance
  let name ← libraryName
  let semicolon ← expectPunctuation .semicolon
  finishDirective (.library comment? keyword name semicolon) first

def directive (g : Inner) (comment? : Option NodeId) : Parse NodeId := do
  match (← currentKind) with
  | .keyword .libraryKw => libraryDirective comment?
  | .keyword .importKw => importDirective g comment?
  | .keyword .exportKw => exportDirective g comment?
  | _ => partDirective g comment?

/-! ## Declarations -/

def missingParameterList : Parse NodeId := do
  let first ← here
  let leftParen ← insertMissing (.punctuation .openParen)
  let rightParen ← insertMissing (.punctuation .closeParen)
  finish (.parameterList leftParen [] none none rightParen) first

def typeAlias (g : Inner) (comment? : Option NodeId) : Parse NodeId := do
  let first ← here
  let keyword ← expectKeyword .typedefKw
  let type? ← returnType? g
  let name ← identifier
  let typeParameters? ← typeParameters? g
  let parameters ←
    if (← isAtPunctuation .openParen) then parameterList g
    else
      reportHere .missingTypedefParameters []
      missingParameterList
  let semicolon ← expectPunctuation .semicolon
  finish (.declaration (.typeAlias comment? keyword type? name typeParameters? parameters
    semicolon)) first

def topLevelVariables (g : Inner) (comment? : Option NodeId) (first : TokenId) :
    Parse NodeId := do
  let varList ← variableList g
  let semicolon ← expectPunctuation .semicolon
  finish (.declaration (.variablesDecl comment? varList semicolon)) first

/-- What follows the type of a top-level declaration that has one. -/
def afterType? (ts : List Token) : Option (List Token) :=
  if kindAt ts == .keyword .voidKw then some (ts.drop 1)
  else (skipType ts).filter fun after => isDeclaredNameAt after && !isPropertyAt ts

/-- A declaration that is named here is a function. -/
def isTopLevelFunctionAt (ts : List Token) : Bool :=
  isPropertyAt ts || (isDeclaredNameAt ts && kindAt (ts.drop 1) == .punctuation .openParen)

/-- A function or variables after the modifier `external`, if it is one of these. -/
def unmarkedDeclaration? (g : Inner) (comment? : Option NodeId) (external? : Option TokenId)
    (first : TokenId) : Parse (Option NodeId) := do
  if isVariableKeyword (← currentKind) then return some (← topLevelVariables g comment? first)
  let ts ← ahead
  let after? := afterType? ts
  if kindAt ts == .keyword .voidKw || isTopLevelFunctionAt (after?.getD ts) then
    let type? ← if after?.isSome then some <$> returnType g else pure none
    return some (← functionDeclaration g comment? external? type? first)
  else if after?.isSome then return some (← topLevelVariables g comment? first)
  else
    if external?.isSome then reportHere .expectedExecutable []
    return none

/-- A top-level declaration, if there is one. -/
def declaration? (g : Inner) (comment? : Option NodeId) : Parse (Option NodeId) := do
  let first ← here
  let next ← peek 1
  match (← currentKind) with
  | .keyword .classKw => return some (← classDeclaration g comment?)
  | .keyword .abstractKw =>
    if next.kind == .keyword .classKw then return some (← classDeclaration g comment?)
    else unmarkedDeclaration? g comment? none first
  | .keyword .typedefKw =>
    if next.kind == .punctuation .openParen then unmarkedDeclaration? g comment? none first
    else return some (← typeAlias g comment?)
  | .keyword .externalKw =>
    if next.isName || next.kind == .keyword .voidKw then
      let external ← advance
      unmarkedDeclaration? g comment? (some external) first
    else unmarkedDeclaration? g comment? none first
  | _ => unmarkedDeclaration? g comment? none first

/-! ## Units -/

/-- A token before which the search for the next declaration stops. -/
def isDeclarationStart (ts : List Token) : Bool :=
  isDirectiveAt ts || kindAt ts == .keyword .classKw || kindAt ts == .keyword .typedefKw ||
    kindAt ts == .keyword .abstractKw

/-- How many tokens to skip: at least one, up to and with a semicolon or closing brace, or up to
    where a declaration starts. -/
def boundary : List Token → Nat
  | [] => 0
  | t :: ts =>
    if t.kind == .punctuation .semicolon || t.kind == .punctuation .closeCurly ||
      isDeclarationStart ts then 1
    else 1 + boundary ts

def skipToBoundary : Parse Unit :=
  modify fun s => s.take (boundary s.unread)

/-- The directives and declarations read so far, last first. -/
structure UnitParts where
  directives : List NodeId
  declarations : List NodeId

/-- The region of a node whose tokens have all been read. -/
def regionOf (id : NodeId) : Parse (Nat × Nat) := do
  let node ← nodeAt id
  let first ← tokenAt node.first
  let last ← tokenAt node.last
  return (first.offset, max last.finish first.offset - first.offset)

/-- Reports a directive that comes after a declaration. -/
def checkDirectivePlace (found : UnitParts) (directive : NodeId) : Parse Unit := do
  if !found.declarations.isEmpty then
    let (offset, length) ← regionOf directive
    reportSpan .directiveAfterDeclaration offset length []

/-- The directive or declaration after a documentation comment. -/
def unitPart (g : Inner) (found : UnitParts) (comment? : Option NodeId) : Parse UnitParts := do
  if (← looking isDirectiveAt) then
    let d ← directive g comment?
    checkDirectivePlace found d
    return { found with directives := d :: found.directives }
  else
    let d? ← declaration? g comment?
    return { found with declarations := d?.toList ++ found.declarations }

def unitStep (g : Inner) (found : UnitParts) : Parse (UnitParts × Bool) := do
  if (← isAtEnd) then return (found, false)
  let before ← unreadCount
  let found ← unitPart g found (← docComment)
  if (← unreadCount) = before then
    reportHere .expectedExecutable []
    skipToBoundary
  return (found, true)

/-- A whole unit; it spans all tokens with the end of file. -/
def compilationUnit (g : Inner) : Parse NodeId := do
  let first ← here
  let found ← repeating (unitStep g) ⟨[], []⟩
  alloc (.unit found.directives.reverse found.declarations.reverse) first (← here)

/-- Reports a token after what should be the whole text. -/
def expectEnd : Parse Unit := do
  if !(← isAtEnd) then reportUnexpected

end Grammar

end DartAnalysis
