/-
  The parser's state and its basic moves. Tokens that were read stand in a table that only grows at
  its end, so that a token keeps its index; the unread ones may still be split, merged or preceded
  by a missing one. The end of file is never read.

  A production has no result if it looks outside the tables of tokens, comments and nodes, or if one
  of its loops does not end. No parse of a scanned text comes to that (`Proofs.Parse`).
-/
import DartAnalysis.Token.Lexer
import DartAnalysis.Tree.Basic

namespace DartAnalysis

namespace Grammar

structure State where
  source? : Option Source
  comments : Array Comment
  /-- Tokens read so far, missing ones included. -/
  read : Array Token
  /-- Tokens still to be read, without the end of file. -/
  unread : List Token
  /-- How many tokens are still to be read. -/
  left : Nat
  left_eq : left = unread.length
  eof : Token
  nodes : Arena
  /-- Set while a construct that nests too deeply is left; nothing is reported meanwhile. -/
  unwinding : Bool
  errors : Array Diagnostic

/-- A production: reads tokens, makes nodes and reports problems. A text with mistakes does not
    make it fail. -/
abbrev Parse := StateT State Option

namespace State

def ofScan (s : Scan) : State :=
  { source? := s.source?, comments := s.comments, read := #[],
    unread := s.tokens.toList.dropLast, left := s.tokens.size - 1, left_eq := by simp,
    eof := s.tokens.back?.getD default, nodes := #[], unwinding := false, errors := #[] }

/-- Reads the first `n` unread tokens. -/
def take (s : State) (n : Nat) : State :=
  { s with
    read := s.read ++ (s.unread.take n).toArray
    unread := s.unread.drop n
    left := s.left - n
    left_eq := by simp [s.left_eq] }

/-- Puts other tokens in place of the first `n` unread ones. -/
def replace (s : State) (n : Nat) (tokens : List Token) : State :=
  { s with
    unread := tokens ++ s.unread.drop n
    left := tokens.length + (s.left - n)
    left_eq := by simp [s.left_eq] }

/-- The token at the current position. -/
def current (s : State) : Token := s.unread.headD s.eof

/-- The token table as it stands. -/
def tokens (s : State) : Array Token := s.read ++ s.unread.toArray.push s.eof

/-- The token at an index of the table. -/
def token? (s : State) (id : TokenId) : Option Token :=
  if id < s.read.size then s.read[id]? else (s.unread ++ [s.eof])[id - s.read.size]?

end State

/-! ## Looking -/

/-- Index of the current token. -/
def here : Parse TokenId := return (← get).read.size

/-- Index of the token read last; that of the current one at the start. -/
def previous : Parse TokenId := return (← get).read.size - 1

def current : Parse Token := return (← get).current

def currentKind : Parse Token.Kind := return (← current).kind

/-- The unread tokens. -/
def ahead : Parse (List Token) := return (← get).unread

/-- The token `n` places after the current one. -/
def peek (n : Nat) : Parse Token := return ((← get).unread[n]?).getD (← get).eof

def isAtEnd : Parse Bool := return (← currentKind) == .eof

def isAt (kind : Token.Kind) : Parse Bool := return (← currentKind) == kind

def isAtKeyword (k : Keyword) : Parse Bool := isAt (.keyword k)

def isAtPunctuation (p : Punctuation) : Parse Bool := isAt (.punctuation p)

def isAtOperator (o : Operator) : Parse Bool := isAt (.operator o)

def isAtName : Parse Bool := return (← current).isName

/-- The token at an index of the table. -/
def tokenAt (id : TokenId) : Parse Token := do
  let some t := (← get).token? id | failure
  return t

/-- The node at an index of the arena. -/
def nodeAt (id : NodeId) : Parse Node := do
  let some node := (← get).nodes[id]? | failure
  return node

/-! ## Reading -/

/-- Reads the current token, unless it is the end of file. -/
def advance : Parse TokenId := do
  let id ← here
  modify fun s =>
    match h : s.unread with
    | [] => s
    | t :: rest =>
      { s with
        read := s.read.push t
        unread := rest
        left := s.left - 1
        left_eq := by simp [s.left_eq, h] }
  return id

/-- Reads a token of the given kind if it is the current one. -/
def accept (kind : Token.Kind) : Parse (Option TokenId) := do
  if (← isAt kind) then return some (← advance) else return none

def acceptKeyword (k : Keyword) : Parse (Option TokenId) := accept (.keyword k)

def acceptPunctuation (p : Punctuation) : Parse (Option TokenId) := accept (.punctuation p)

def acceptOperator (o : Operator) : Parse (Option TokenId) := accept (.operator o)

/-- Puts a missing token before the current one and reads it. It stands at the end of the token
    before it. -/
def insertMissing (kind : Token.Kind) : Parse TokenId := do
  let id ← here
  modify fun s =>
    let offset := match s.read.back? with
      | some t => t.finish
      | none => s.current.offset
    { s with read := s.read.push (.missing kind offset) }
  return id

/-- Reads tokens up to one whose kind satisfies `stop`. -/
def skipUntil (stop : Token.Kind → Bool) : Parse Unit :=
  modify fun s => s.take (s.unread.takeWhile (!stop ·.kind)).length

/-! ## Reporting -/

def reportSpan (code : Diagnostic.Code) (offset length : Nat) (args : List String) : Parse Unit :=
  modify fun s =>
    if s.unwinding then s
    else { s with errors := s.errors.push (.make s.source? offset length code args) }

/-- Reports a problem at a token. -/
def reportAt (code : Diagnostic.Code) (id : TokenId) : Parse Unit := do
  let t ← tokenAt id
  reportSpan code t.offset t.length []

/-- Reports a problem at the current token. -/
def reportHere (code : Diagnostic.Code) (args : List String) : Parse Unit := do
  let t ← current
  reportSpan code t.offset t.length args

def reportUnexpected : Parse Unit := do
  reportHere .unexpectedToken [(← current).lexeme]

/-- Reads a token of the given kind, or reports it and goes on with a missing one. -/
def expect (kind : Token.Kind) : Parse TokenId := do
  if (← isAt kind) then advance
  else
    reportHere .expectedToken [kind.describe]
    insertMissing kind

def expectKeyword (k : Keyword) : Parse TokenId := expect (.keyword k)

def expectPunctuation (p : Punctuation) : Parse TokenId := expect (.punctuation p)

def expectOperator (o : Operator) : Parse TokenId := expect (.operator o)

/-- What is left of an operator after its first angle bracket. -/
def afterAngle? : Operator → Option Operator
  | .gtGt => some .gt
  | .gtGtEq => some .gtEq
  | .gtEq => some .eq
  | _ => none

/-- Splits an operator that begins with a closing angle bracket into that bracket and the rest. -/
def splitAngle (t : Token) : List Token :=
  match t.kind with
  | .operator o =>
    match afterAngle? o with
    | some rest => [⟨.operator .gt, Operator.gt.spelling, t.offset⟩,
        ⟨.operator rest, rest.spelling, t.offset + 1⟩]
    | none => [t]
  | _ => [t]

/-- Reads a closing angle bracket, also off the front of a longer operator. -/
def expectAngle : Parse TokenId := do
  modify fun s =>
    match s.unread with
    | t :: _ => s.replace 1 (splitAngle t)
    | [] => s
  expectOperator .gt

/-! ## Making nodes -/

/-- Makes a node, whose children have to be there. -/
def alloc (kind : Node.Kind) (first last : TokenId) : Parse NodeId := do
  let s ← get
  guard (kind.children.all (· < s.nodes.size))
  let (id, nodes) := s.nodes.alloc kind first last
  set { s with nodes }
  return id

/-- Makes a node from `first` up to the token read last. -/
def finish (kind : Node.Kind) (first : TokenId) : Parse NodeId := do
  alloc kind first (max (← previous) first)

def kindOf (id : NodeId) : Parse Node.Kind := return (← nodeAt id).kind

def firstTokenOf (id : NodeId) : Parse TokenId := return (← nodeAt id).first

/-- An identifier node on a token. -/
def identifierOn (token : TokenId) : Parse NodeId :=
  alloc (.expression (.identifier token)) token token

/-- An identifier that is missing. -/
def missingIdentifier : Parse NodeId := do
  identifierOn (← insertMissing .identifier)

/-- An identifier; a missing one is reported. -/
def identifier : Parse NodeId := do
  if (← isAtName) then identifierOn (← advance)
  else
    reportHere .missingIdentifier []
    missingIdentifier

def missingTypeName : Parse NodeId := do
  let name ← missingIdentifier
  let token ← previous
  alloc (.type name none) token token

def missingStatement : Parse NodeId := do
  let semicolon ← insertMissing (.punctuation .semicolon)
  alloc (.statement (.empty semicolon)) semicolon semicolon

/-! ## Loops -/

/-- Goes on with `step` from what a round found until no further round is asked for. -/
def Parse.untilDone {α : Type} (round : Parse (α × Bool)) (step : α → Parse (α × Bool)) :
    Parse α := do
  let (a, goesOn) ← round
  if goesOn then step a |>.untilDone step else return a
partial_fixpoint

/-- Repeats `step` on a value for as long as it asks to go on. -/
def repeating {α : Type} (step : α → Parse (α × Bool)) (a : α) : Parse α :=
  (step a).untilDone step

theorem repeating_eq {α : Type} (step : α → Parse (α × Bool)) (a : α) :
    repeating step a = do
      let (next, goesOn) ← step a
      if goesOn then repeating step next else return next := by
  rw [repeating, Parse.untilDone]
  rfl

/-- Puts what `item` returns before what was found. -/
def collect {α : Type} (item : Parse (Option α)) (found : List α) : Parse (List α × Bool) := do
  match (← item) with
  | some a => return (a :: found, true)
  | none => return (found, false)

/-- Collects what `item` returns until it returns nothing. -/
def many {α : Type} (item : Parse (Option α)) : Parse (List α) := do
  let found ← repeating (collect item) []
  return found.reverse

/-- What `item` returns once, and once more after each comma. -/
def commaSeparated (item : Parse NodeId) : Parse (List NodeId) := do
  let first ← item
  let more ← many do
    match (← acceptPunctuation .comma) with
    | some _ => return some (← item)
    | none => return none
  return first :: more

/-- Items up to a closing token, with commas between them; one may also follow the last. -/
def closedList (close : Punctuation) (item : Parse NodeId) : Parse (List NodeId) := do
  let found ← repeating (fun (found : List NodeId) => do
    if (← isAtPunctuation close) || (← isAtEnd) then return (found, false)
    let a ← item
    return (a :: found, (← acceptPunctuation .comma).isSome)) []
  return found.reverse

/-- Applies `step` to a node again and again until it returns nothing. -/
def chained (step : NodeId → Parse (Option NodeId)) (node : NodeId) : Parse NodeId :=
  repeating (fun node => do
    match (← step node) with
    | some node' => return (node', true)
    | none => return (node, false)) node

/-- The number of tokens still to be read. -/
def unreadCount : Parse Nat := return (← get).left

/-! ## Documentation comments -/

def isLineDoc (c : Comment) : Bool :=
  c.isDocumentation && ['/', '/', '/'].isPrefixOf c.lexeme.toList

/-- Of comments given last first, how many make up the documentation: the last one if it is
    documentation, and with a line comment the line comments before it. -/
def docRun : List Comment → Nat
  | [] => 0
  | c :: cs =>
    if isLineDoc c then 1 + (cs.takeWhile isLineDoc).length
    else if c.isDocumentation then 1 else 0

/-- Index of the first of the comments between `low` and `high` that does not start before an
    offset. Comments go by their offsets. -/
def firstCommentFrom (comments : Array Comment) (offset low high : Nat) : Nat :=
  if low < high then
    let middle := (low + high) / 2
    if comments[middle]?.any (·.offset < offset) then
      firstCommentFrom comments offset (middle + 1) high
    else firstCommentFrom comments offset low middle
  else low
termination_by high - low

/-- Documentation right before the current token and after the one before it. -/
def docComment : Parse (Option NodeId) := do
  let s ← get
  let lower := (s.read.back?.map Token.finish).getD 0
  let stop := firstCommentFrom s.comments s.current.offset 0 s.comments.size
  let start := firstCommentFrom s.comments lower 0 s.comments.size
  guard (start ≤ stop)
  let run := docRun (s.comments.extract start stop).toList.reverse
  if run = 0 then return none
  let token ← here
  return some (← alloc (.comment ((List.range run).map (stop - run + ·))) token token)

end Grammar

end DartAnalysis
