/-
  What a region of a resolved unit refers to: the element behind the word around it, and where that
  element is declared.
-/
import DartAnalysis.Binding.Unit
import DartAnalysis.Tree.Locate

namespace DartAnalysis

/-- A piece of a text. -/
structure Span where
  offset : Nat
  length : Nat
deriving DecidableEq, Repr

structure Located where
  element : ElementId
  /-- The word in the unit. -/
  word : Span
  /-- The declaring name in the element's own source; what no text declares has none. -/
  declaration? : Option Span
deriving DecidableEq, Repr

namespace Tree

variable (t : Tree)

/-- Whether a node is the URI of a directive. -/
def isDirectiveUri (id : NodeId) : Bool :=
  match (t.parent? id).map t.kind with
  | some (.directive (.importing _ _ uri _ _ _ _)) => uri == id
  | some (.directive (.exporting _ _ uri _ _)) => uri == id
  | some (.directive (.part _ _ uri _)) => uri == id
  | _ => false

/-- The length of the quotes at both ends of a text. -/
def quoteLength? (cs : List Char) : Option Nat :=
  let enclosed (quote : List Char) :=
    quote.isPrefixOf cs && quote.isSuffixOf cs && 2 * quote.length ≤ cs.length
  ([['\'', '\'', '\''], ['"', '"', '"'], ['\''], ['"']].find? enclosed).map List.length

/-- The part of a string token between its quotes; all of it where quotes are missing. -/
def stringContents (token : TokenId) : Span :=
  let token := t.token token
  let cs := token.lexeme.toList
  let (rawMark, body) := match cs with
    | 'r' :: body => (1, body)
    | _ => (0, cs)
  match quoteLength? body with
  | some n => ⟨token.offset + rawMark + n, token.length - rawMark - n - n⟩
  | none => ⟨token.offset, token.length⟩

/-- An operator token, if the region lies inside it. -/
def operatorSpan? (r : Region) (token : TokenId) : Option Span :=
  let token := t.token token
  if token.offset ≤ r.start && r.stop ≤ token.finish then some ⟨token.offset, token.length⟩
  else none

/-- The word that a node puts around the region. -/
def word? (r : Region) (id : NodeId) : Option Span :=
  match t.kind id with
  | .expression (.identifier _) => some ⟨t.offset id, t.length id⟩
  | .expression (.binary _ operator _) => t.operatorSpan? r operator
  | .expression (.unary operator _) => t.operatorSpan? r operator
  | .expression (.postUnary _ operator) => t.operatorSpan? r operator
  | .expression (.assign _ operator _) => t.operatorSpan? r operator
  | .expression (.string literal _) =>
    if t.isDirectiveUri id then some (t.stringContents literal) else none
  | _ => none

end Tree

namespace ResolvedUnit

variable (u : ResolvedUnit)

/-- What a node refers to, if it puts a word around the region. -/
def located? (r : Region) (id : NodeId) : Option Located := do
  let word ← u.tree.word? r id
  let element ← (u.element? id).filter fun e => e != .error && e != .dynamic
  let e := u.graph.element element
  return ⟨element, word, e.nameOffset?.map (⟨·, e.name.utf8ByteSize⟩)⟩

/-- What a region refers to, looking outwards from the innermost node around it. -/
def locate? (r : Region) : Option Located := do
  let node ← u.tree.locate? r
  (u.tree.ancestors node).findSome? (u.located? r)

end ResolvedUnit

end DartAnalysis
