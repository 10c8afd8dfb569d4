/-
  The fields of a syntax node. A field holds a token, a child or a list of children; tokens and
  children may be optional. Nodes, tokens and comments are named by their index in a table.
-/

namespace DartAnalysis

/-- Index of a node in its tree. -/
abbrev NodeId := Nat

/-- Index of a token in the token table of a tree. -/
abbrev TokenId := Nat

/-- Index of a comment in the comment table of a tree. -/
abbrev CommentId := Nat

inductive ParameterKind where
  | required
  | positional
  | named
deriving DecidableEq, Repr, Inhabited

def ParameterKind.name : ParameterKind → String
  | .required => "Required"
  | .positional => "Positional"
  | .named => "Named"

inductive Field where
  | token (t : TokenId)
  | token? (t : Option TokenId)
  | node (n : NodeId)
  | node? (n : Option NodeId)
  | nodes (ns : List NodeId)
deriving DecidableEq, Repr

/-- What a node is made of. The separators of a list are not part of it. -/
inductive Part where
  | token (t : TokenId)
  | node (n : NodeId)
  | list (ns : List NodeId)
deriving DecidableEq, Repr

namespace Field

def children : Field → List NodeId
  | .node n => [n]
  | .node? n => n.toList
  | .nodes ns => ns
  | _ => []

/-- The part a field contributes; an absent one contributes none. -/
def part? : Field → Option Part
  | .token t => some (.token t)
  | .token? t => t.map .token
  | .node n => some (.node n)
  | .node? n => n.map .node
  | .nodes ns => some (.list ns)

/-- Takes `child` out of a field. An optional field becomes empty and a list loses the first
    occurrence, but a mandatory field needs something to hold in its place. -/
def detach? (child : NodeId) (standIn? : Option NodeId) : Field → Option Field
  | .node n => if n = child then standIn?.map .node else none
  | .node? n => if n = some child then some (.node? none) else none
  | .nodes ns => if child ∈ ns then some (.nodes (ns.erase child)) else none
  | _ => none

end Field

/-- Takes `child` out of the first field that gives it up. -/
def detachField? (child : NodeId) (standIn? : Option NodeId) : List Field → Option (List Field)
  | [] => none
  | f :: fs =>
    match f.detach? child standIn? with
    | some f' => some (f' :: fs)
    | none => (detachField? child standIn? fs).map (f :: ·)

end DartAnalysis
