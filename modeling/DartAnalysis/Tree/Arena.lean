/-
  The nodes of a tree, in order of creation. A node is owned by at most one other node: whoever
  takes a child takes it away from its previous owner, where a mandatory field is left with an
  identifier in its place.
-/
import DartAnalysis.Tree.Kind

namespace DartAnalysis

structure Node where
  kind : Node.Kind
  parent? : Option NodeId
  /-- First token of the node. -/
  first : TokenId
  /-- Last token of the node. -/
  last : TokenId

instance : Inhabited Node := ⟨default, none, 0, 0⟩

/-- Nodes by index. -/
abbrev Arena := Array Node

namespace Arena

def node (a : Arena) (id : NodeId) : Node := a.getD id default

def kind (a : Arena) (id : NodeId) : Node.Kind := (a.node id).kind

def parent? (a : Arena) (id : NodeId) : Option NodeId := (a.node id).parent?

def children (a : Arena) (id : NodeId) : List NodeId := (a.kind id).children

def setKind (a : Arena) (id : NodeId) (kind : Node.Kind) : Arena :=
  a.modify id fun n => { n with kind }

def setParent (a : Arena) (id : NodeId) (parent : NodeId) : Arena :=
  a.modify id fun n => { n with parent? := some parent }

/-- Takes `child` out of `owner`. If only a mandatory field holds it, a new identifier on the
    child's first token is left there. -/
def sever (a : Arena) (owner child : NodeId) : Arena :=
  match (a.kind owner).detach? child none with
  | some kind => a.setKind owner kind
  | none =>
    let token := (a.node child).first
    let standIn := a.size
    let a : Arena := a.push ⟨.expression (.identifier token), some owner, token, token⟩
    match (a.kind owner).detach? child (some standIn) with
    | some kind => a.setKind owner kind
    | none => a

/-- Makes `parent` the only owner of `child`. -/
def adopt (a : Arena) (parent child : NodeId) : Arena :=
  let freed : Arena :=
    match a.parent? child with
    | some previous => if previous ≠ parent then a.sever previous child else a
    | none => a
  freed.setParent child parent

/-- Adds a node that owns the children its kind names. -/
def alloc (a : Arena) (kind : Node.Kind) (first last : TokenId) : NodeId × Arena :=
  let id := a.size
  (id, kind.children.foldl (fun b child => adopt b id child) (a.push ⟨kind, none, first, last⟩))

/-- Moves `child` to `parent`, whose kind becomes `kind`. A child that is there already stays. -/
def reparent (a : Arena) (child parent : NodeId) (kind : Node.Kind) : Arena :=
  if a.parent? child = some parent then a
  else (a.setKind parent kind).adopt parent child

end Arena

end DartAnalysis
