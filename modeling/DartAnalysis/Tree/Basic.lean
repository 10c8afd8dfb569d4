/-
  Syntax trees: nodes over a table of tokens and a table of comments. Offsets come from the tokens
  that a node begins and ends with.
-/
import DartAnalysis.LineMap
import DartAnalysis.Source
import DartAnalysis.Token.Basic
import DartAnalysis.Tree.Arena

namespace DartAnalysis

structure Tree where
  source? : Option Source
  nodes : Arena
  tokens : Array Token
  comments : Array Comment
  lines : LineMap
  root : NodeId

namespace Tree

variable (t : Tree)

def kind (id : NodeId) : Node.Kind := t.nodes.kind id

def parent? (id : NodeId) : Option NodeId := t.nodes.parent? id

def children (id : NodeId) : List NodeId := t.nodes.children id

def token (id : TokenId) : Token := t.tokens.getD id default

def lexeme (id : TokenId) : String := (t.token id).lexeme

def comment (id : CommentId) : Comment := t.comments.getD id default

def firstToken (id : NodeId) : TokenId := (t.nodes.node id).first

def lastToken (id : NodeId) : TokenId := (t.nodes.node id).last

/-! ## Regions -/

/-- Where a node begins. -/
def offset (id : NodeId) : Nat :=
  match t.kind id with
  | .comment (c :: _) => (t.comment c).offset
  | _ => (t.token (t.firstToken id)).offset

/-- Where a node ends; never before it begins. -/
def finish (id : NodeId) : Nat :=
  let tokens := max (t.token (t.lastToken id)).finish (t.offset id)
  match t.kind id with
  | .comment cs => (cs.getLast?.map fun c => (t.comment c).finish).getD tokens
  | _ => tokens

def length (id : NodeId) : Nat := t.finish id - t.offset id

/-- A node without text stands for something missing. -/
def isMissing (id : NodeId) : Bool := t.length id == 0

/-! ## Traversal -/

/-- The nodes from `id` down to a given depth, each before its children. -/
def preorderTo : Nat → NodeId → List NodeId
  | 0, _ => []
  | depth + 1, id => id :: (t.children id).flatMap (preorderTo depth)

/-- The nodes of the tree, each before its children. -/
def preorder : List NodeId := t.preorderTo t.nodes.size t.root

/-- The nodes from `id` down to a given depth, with their level; `id` is at `level`. -/
def outlineTo : Nat → Nat → NodeId → List (Nat × NodeId)
  | 0, _, _ => []
  | depth + 1, level, id => (level, id) :: (t.children id).flatMap (outlineTo depth (level + 1))

/-- The nodes of the tree in preorder, each with its distance from the root. -/
def outline : List (Nat × NodeId) := t.outlineTo t.nodes.size 0 t.root

/-- The node, its parent, and so on, in at most a given number of steps. -/
def ancestorsTo : Nat → NodeId → List NodeId
  | 0, _ => []
  | steps + 1, id =>
    match t.parent? id with
    | some p => id :: ancestorsTo steps p
    | none => [id]

/-- The node, its parent, and so on up to a node without parent. -/
def ancestors (id : NodeId) : List NodeId := t.ancestorsTo (t.nodes.size + 1) id

/-- The node itself counts as its own ancestor. -/
def isAncestor (ancestor id : NodeId) : Bool := (t.ancestors id).contains ancestor

/-! ## Names and values -/

def directives : List NodeId :=
  match t.kind t.root with
  | .unit directives _ => directives
  | _ => []

def declarations : List NodeId :=
  match t.kind t.root with
  | .unit _ declarations => declarations
  | _ => []

/-- The lexeme of an identifier. -/
def identifier? (id : NodeId) : Option String :=
  match t.kind id with
  | .expression (.identifier token) => some (t.lexeme token)
  | _ => none

/-- The name that an identifier, a dotted name or a type writes; names nest no deeper than
    `depth`. -/
def nameTo : Nat → NodeId → String
  | 0, _ => ""
  | depth + 1, id =>
    match t.kind id with
    | .expression (.identifier token) => t.lexeme token
    | .expression (.qualified qualifier _ name) =>
      nameTo depth qualifier ++ "." ++ nameTo depth name
    | .libraryName components => ".".intercalate (components.map (nameTo depth))
    | .type name _ => nameTo depth name
    | _ => ""

def nameOf (id : NodeId) : String := t.nameTo (t.nodes.size + 1) id

/-- The value of a string without interpolation, or of several such strings in a row. -/
def stringValueTo : Nat → NodeId → Option String
  | 0, _ => none
  | depth + 1, id =>
    match t.kind id with
    | .expression (.string _ value) => some value
    | .expression (.adjacent strings) => (strings.mapM (stringValueTo depth)).map String.join
    | _ => none

def stringValue? (id : NodeId) : Option String := t.stringValueTo (t.nodes.size + 1) id

/-- The characters that begin at `start` or later and before `stop`, in a text that begins at
    `offset`. -/
def sliceFrom (start stop offset : Nat) : List Char → List Char
  | [] => []
  | c :: cs =>
    if offset < start then sliceFrom start stop (offset + c.utf8Size) cs
    else if offset < stop then c :: sliceFrom start stop (offset + c.utf8Size) cs
    else []

/-- The part of `text` from byte `start` up to byte `stop`. -/
def slice (text : String) (start stop : Nat) : String :=
  String.ofList (sliceFrom start stop 0 text.toList)

/-- The part of `text` that a node covers. -/
def textOf (id : NodeId) (text : String) : String :=
  let stop := min (t.finish id) text.utf8ByteSize
  slice text (min (t.offset id) stop) stop

end Tree

end DartAnalysis
