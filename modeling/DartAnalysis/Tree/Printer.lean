/-
  Canonical text of a tree: its tokens in order, with one space between two tokens unless they
  stand tight. Missing tokens and comments are left out, and the separators of a list follow from
  the node that owns it.
-/
import DartAnalysis.Tree.Basic

namespace DartAnalysis

namespace Tree

namespace Printer

/-- What has been written. A separator has no token, so that after it nothing is last. -/
structure Page where
  text : String
  /-- The token written last, with the kind of the node that owns it. -/
  last? : Option (Token × Node.Kind)
  afterComma : Bool

def Page.blank : Page := ⟨"", none, false⟩

/-! ## Spacing -/

def isOperator : Token.Kind → Bool
  | .operator _ => true
  | _ => false

/-- Marks and later segments of a string stand tight to what precedes them. -/
def continuesString : Token.Kind → Bool
  | .stringPart | .interpolationExpression | .interpolationIdentifier => true
  | _ => false

def opensInterpolation : Token.Kind → Bool
  | .interpolationExpression | .interpolationIdentifier => true
  | _ => false

/-- Braces of parameter lists and map literals are tight. -/
def hasTightBraces : Node.Kind → Bool
  | .parameterList .. | .expression (.map ..) => true
  | _ => false

def hasAngles : Node.Kind → Bool
  | .typeArgumentList .. | .typeParameterList .. => true
  | _ => false

/-- Lists that follow directly what they apply to. -/
def isApplied : Node.Kind → Bool
  | .argumentList .. | .parameterList .. | .typeArgumentList .. | .typeParameterList ..
  | .expression (.indexed ..) => true
  | _ => false

def isCollection : Node.Kind → Bool
  | .expression (.list ..) | .expression (.map ..) => true
  | _ => false

/-- What an argument, parameter or type list may apply to. -/
def canBeApplied (p : Token) (owner : Node.Kind) : Bool :=
  p.isName ||
  (match p.kind with
   | .keyword .thisKw | .keyword .superKw | .string | .stringPart | .punctuation .closeParen
   | .punctuation .closeSquare | .operator .gt => true
   | _ => false) ||
  (isOperator p.kind && (match owner with | .expression (.identifier _) => true | _ => false))

/-- Tightness that the string pieces around a gap decide. -/
def isTightInString (p n : Token.Kind) (nOwner : Node.Kind) : Bool :=
  continuesString n || opensInterpolation p ||
  (n == .punctuation .closeCurly &&
    (match nOwner with | .stringElement (.spliced ..) => true | _ => false))

/-- Punctuation that is tight on its left, and a colon, which is so but in conditionals and
    constructors. -/
def punctuationSpace? (p n : Token.Kind) (nOwner : Node.Kind) : Option Bool :=
  match n with
  | .punctuation .comma | .punctuation .semicolon | .punctuation .closeParen
  | .punctuation .closeSquare | .punctuation .period | .punctuation .periodPeriod => some false
  | .punctuation .colon =>
    some (match nOwner with
      | .expression (.conditional ..) | .member (.constructor ..) => true
      | _ => false)
  | .punctuation .closeCurly => if p == .punctuation .openCurly then some false else none
  | _ => none

/-- Punctuation that is tight on its right. -/
def isTightAfter : Token.Kind → Bool
  | .punctuation .openParen | .punctuation .openSquare | .punctuation .period
  | .punctuation .periodPeriod => true
  | _ => false

/-- Braces, operators on one operand and angle brackets that are tight by the node they belong
    to. -/
def isTightByOwner (p : Token.Kind) (pOwner : Node.Kind) (n : Token.Kind) (nOwner : Node.Kind) :
    Bool :=
  (p == .punctuation .openCurly && hasTightBraces pOwner) ||
  (n == .punctuation .closeCurly && hasTightBraces nOwner) ||
  (isOperator p && (match pOwner with | .expression (.unary ..) => true | _ => false)) ||
  (isOperator n && (match nOwner with | .expression (.postUnary ..) => true | _ => false)) ||
  (n == .operator .bang && (match nOwner with | .expression (.isTest ..) => true | _ => false)) ||
  (p == .operator .lt && hasAngles pOwner) ||
  (n == .operator .gt && hasAngles nOwner)

def opensApplied (n : Token.Kind) (nOwner : Node.Kind) : Bool :=
  (match n with
   | .punctuation .openParen | .punctuation .openSquare | .operator .lt => true
   | _ => false) && isApplied nOwner

/-- A collection literal follows its type arguments directly. -/
def opensTypedCollection (p n : Token.Kind) (nOwner : Node.Kind) : Bool :=
  (n == .punctuation .openSquare || n == .punctuation .openCurly) && isCollection nOwner &&
    p == .operator .gt

/-- Whether a space goes between two tokens, each given with the node that owns it. -/
def needsSpace (p : Token) (pOwner : Node.Kind) (n : Token) (nOwner : Node.Kind) : Bool :=
  if isTightInString p.kind n.kind nOwner then false
  else match punctuationSpace? p.kind n.kind nOwner with
    | some space => space
    | none =>
      !(isTightAfter p.kind || isTightByOwner p.kind pOwner n.kind nOwner ||
        opensTypedCollection p.kind n.kind nOwner ||
        (opensApplied n.kind nOwner && canBeApplied p pOwner))

/-! ## Writing -/

/-- What separates the members of a node's list. -/
def separator? : Node.Kind → Option String
  | .argumentList .. | .typeArgumentList .. | .typeParameterList .. | .combinator _
  | .clause (.mixing ..) | .clause (.implementing ..) | .expression (.list ..)
  | .expression (.map ..) | .variableList .. | .statement (.forLoop ..)
  | .member (.constructor ..) => some ","
  | .libraryName _ => some "."
  | _ => none

namespace Page

def separate (page : Page) (separator : String) : Page :=
  ⟨page.text ++ separator, none, separator == ","⟩

def write (page : Page) (token : Token) (owner : Node.Kind) : Page :=
  if token.isEmpty then page
  else
    let space := match page.last? with
      | some (last, lastOwner) => needsSpace last lastOwner token owner
      | none => page.afterComma
    let gap := if space && !page.text.isEmpty then " " else ""
    ⟨page.text ++ gap ++ token.lexeme, some (token, owner), false⟩

end Page

def isOptional : Node.Kind → Bool
  | .parameter (.optional _ kind ..) => kind != .required
  | _ => false

/-- Writes the members of a list, `separator?` between them. -/
def writeList (write : NodeId → Page → Page) (separator? : Option String) :
    List NodeId → Page → Page
  | [], page => page
  | [m], page => write m page
  | m :: ms, page =>
    let page := write m page
    writeList write separator? ms
      (match separator? with | some s => page.separate s | none => page)

/-- Writes parameters; the opening delimiter goes before the first optional one. -/
def writeParameters (write : NodeId → Page → Page) (optional : NodeId → Bool)
    (delimit : Page → Page) : Bool → List NodeId → Page → Page
  | _, [], page => page
  | opened, p :: ps, page =>
    let opens := optional p && !opened
    let page := write p (if opens then delimit page else page)
    let page := if ps.isEmpty then page else page.separate ","
    writeParameters write optional delimit (opened || opens) ps page

/-- Writes the subtree at a node, which is no deeper than the first argument. -/
def writeNode (t : Tree) : Nat → NodeId → Page → Page
  | 0, _, page => page
  | depth + 1, id, page =>
    let kind := t.kind id
    let token (i : TokenId) (page : Page) : Page := page.write (t.token i) kind
    let token? (i : Option TokenId) (page : Page) : Page := i.elim page (token · page)
    match kind with
    | .comment _ => page
    | .parameterList leftParen parameters leftDelimiter rightDelimiter rightParen =>
      token rightParen (token? rightDelimiter
        (writeParameters (writeNode t depth) (fun p => isOptional (t.kind p))
          (token? leftDelimiter) false parameters (token leftParen page)))
    | _ =>
      kind.parts.foldl (fun page part =>
        match part with
        | .token i => token i page
        | .node n => writeNode t depth n page
        | .list ns => writeList (writeNode t depth) (separator? kind) ns page) page

end Printer

/-- The canonical text of the subtree at `id`. -/
def toSource (t : Tree) (id : NodeId) : String :=
  (Printer.writeNode t (t.nodes.size + 1) id .blank).text

end Tree

end DartAnalysis
