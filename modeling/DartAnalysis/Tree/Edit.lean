/-
  Moving a node to another parent. The child goes to the end of the parent's list, or into its
  optional or only slot, whatever was there before.
-/
import DartAnalysis.Tree.Basic

namespace DartAnalysis

/-- Puts `child` into a node of a kind that takes it. -/
def Node.Kind.place? (k : Node.Kind) (child : NodeId) : Option Node.Kind :=
  match k with
  | .unit directives declarations => some (.unit directives (declarations ++ [child]))
  | .statement (.block left body right) => some (.statement (.block left (body ++ [child]) right))
  | .declaration (.classDecl doc abstract? keyword name parameters extends? with? implements?
      left members right) =>
    some (.declaration (.classDecl doc abstract? keyword name parameters extends? with?
      implements? left (members ++ [child]) right))
  | .argumentList left arguments right => some (.argumentList left (arguments ++ [child]) right)
  | .expression (.list const? types left elements right) =>
    some (.expression (.list const? types left (elements ++ [child]) right))
  | .variableList keyword type? vars =>
    some (.variableList keyword type? (vars ++ [child]))
  | .statement (.returns keyword _ semicolon) =>
    some (.statement (.returns keyword (some child) semicolon))
  | .statement (.ifElse keyword left condition right then' else' _) =>
    some (.statement (.ifElse keyword left condition right then' else' (some child)))
  | .variable name equals _ => some (.variable name equals (some child))
  | .expression (.paren left _ right) => some (.expression (.paren left child right))
  | _ => none

namespace Tree

/-- Moves `child` to `parent`. Both have to be nodes of the tree, the parent of a kind that takes a
    child, and not below the child. -/
def move? (t : Tree) (child parent : NodeId) : Option Tree :=
  if t.nodes.size ≤ child || t.nodes.size ≤ parent || t.isAncestor child parent then none
  else ((t.kind parent).place? child).map fun kind =>
    { t with nodes := t.nodes.reparent child parent kind }

end Tree

end DartAnalysis
