/-
  Visits in preorder. Nodes of a category go to that category's hook, which decides whether the node
  counts and whether the visit goes on below it; other nodes are passed through.
-/
import DartAnalysis.Tree.Basic

namespace DartAnalysis

namespace Tree

/-- The categories that a visit tells apart. -/
inductive Hook where
  | directive
  | declaration
  | classMember
  | statement
  | expression
  | typeName
  | comment
deriving DecidableEq, Repr

namespace Hook

def name : Hook → String
  | .directive => "directive"
  | .declaration => "declaration"
  | .classMember => "class_member"
  | .statement => "statement"
  | .expression => "expression"
  | .typeName => "type_name"
  | .comment => "comment"

def of? : Node.Kind → Option Hook
  | .directive _ => some .directive
  | .statement _ => some .statement
  | .expression _ => some .expression
  | .declaration _ => some .declaration
  | .member _ => some .classMember
  | .type .. => some .typeName
  | .comment _ => some .comment
  | _ => none

end Hook

/-- What a hook does with a node. -/
structure Response where
  counts : Bool
  descends : Bool

/-- Passes through a node. -/
def Response.pass : Response := ⟨false, true⟩

/-- Says what a hook does with a node of a kind. -/
abbrev Visitor := Hook → Node.Kind → Response

namespace Visitor

/-- Counts every node that has a hook. -/
def everything : Visitor
  | .comment, _ => ⟨true, false⟩
  | _, _ => ⟨true, true⟩

/-- Counts expressions and types without going into them, but looks into closures. -/
def shallow : Visitor
  | .expression, .expression (.closure ..) => .pass
  | .expression, _ | .typeName, _ => ⟨true, false⟩
  | _, _ => .pass

def statements : Visitor
  | .statement, _ => ⟨true, true⟩
  | _, _ => .pass

end Visitor

variable (t : Tree) (v : Visitor)

/-- The nodes that count, from a node down to a given depth. -/
def visitTo : Nat → NodeId → List (Hook × NodeId)
  | 0, _ => []
  | depth + 1, id =>
    let below := (t.children id).flatMap (visitTo depth)
    match Hook.of? (t.kind id) with
    | none => below
    | some hook =>
      let r := v hook (t.kind id)
      (if r.counts then [(hook, id)] else []) ++ (if r.descends then below else [])

/-- The nodes of the tree that count, in preorder. -/
def visit : List (Hook × NodeId) := t.visitTo v t.nodes.size t.root

end Tree

end DartAnalysis
