/-
  The innermost node around a region of the text. A node covers a region that it encloses; a node
  without text covers only an empty region at its place. Comments are passed over.
-/
import DartAnalysis.Tree.Basic

namespace DartAnalysis

/-- A region of a text, its ends in order. -/
structure Region where
  start : Nat
  stop : Nat
deriving DecidableEq, Repr

namespace Region

/-- The empty region at an offset. -/
def point (offset : Nat) : Region := ⟨offset, offset⟩

/-- The region between two offsets, given in either order. -/
def between (a b : Nat) : Region := ⟨min a b, max a b⟩

end Region

namespace Tree

variable (t : Tree)

def covers (r : Region) (id : NodeId) : Bool :=
  !(t.offset id == t.finish id && r.start != r.stop) &&
    t.offset id ≤ r.start && r.stop ≤ t.finish id

/-- The child to go down to: the first that covers the region. -/
def coveringChild? (r : Region) (id : NodeId) : Option NodeId :=
  (t.children id).find? fun c => !(t.kind c).isComment && t.covers r c

/-- Goes down from a node that covers the region for as long as a child does. -/
def descend (r : Region) : Nat → NodeId → NodeId
  | 0, id => id
  | depth + 1, id =>
    match t.coveringChild? r id with
    | some c => descend r depth c
    | none => id

/-- The innermost node of the tree that covers the region. -/
def locate? (r : Region) : Option NodeId :=
  if t.covers r t.root then some (t.descend r t.nodes.size t.root) else none

end Tree

end DartAnalysis
