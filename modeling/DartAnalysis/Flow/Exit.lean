/-
  Statements and expressions that never complete: every way through them returns, throws or
  evaluates something that does. Only structure is looked at. A loop counts if its condition is
  the literal `true` or absent, since nothing tracks jumps out of it; a switch needs a default; a try
  goes by its body and its finally block.
-/
import DartAnalysis.Tree.Basic

namespace DartAnalysis

namespace Tree

variable (t : Tree)

def isTrueLiteral (id : NodeId) : Bool :=
  match t.kind id with
  | .expression (.boolean literal) => (t.token literal).kind == .keyword .trueKw
  | _ => false

/-- The statements of a switch member. -/
def switchStatements? (id : NodeId) : Option (List NodeId) :=
  match t.kind id with
  | .switchMember (.case _ _ _ _ statements) => some statements
  | .switchMember (.default _ _ _ statements) => some statements
  | _ => none

def isDefault (id : NodeId) : Bool :=
  match t.kind id with
  | .switchMember (.default ..) => true
  | _ => false

/-- Every member exits. An empty member falls through into the next, so only the last one has to
    have statements. -/
def membersExit (exits : NodeId → Bool) : List NodeId → Bool
  | [] => true
  | m :: ms =>
    let exited := match t.switchStatements? m with
      | some statements => (statements.isEmpty && !ms.isEmpty) || statements.any exits
      | none => true
    exited && membersExit exits ms

/-- Whether a node exits, looking down to a given depth. -/
def exitsTo : Nat → NodeId → Bool
  | 0, _ => false
  | depth + 1, id =>
    let exits := exitsTo depth
    match t.kind id with
    | .statement (.returns ..) | .expression (.throws ..) | .expression (.rethrows _) => true
    | .statement (.block _ statements _) => statements.any exits
    | .statement (.ifElse _ _ condition _ then' _ else?) =>
      exits condition || else?.any fun otherwise => exits then' && exits otherwise
    | .expression (.conditional condition _ then' _ otherwise) =>
      exits condition || (exits then' && exits otherwise)
    | .statement (.whileLoop _ _ condition _ body) =>
      exits condition || (t.isTrueLiteral condition && exits body)
    | .statement (.doLoop _ body _ _ condition _ _) => exits body || exits condition
    | .statement (.forLoop _ _ varList? initialization? _ condition? _ updaters _ body) =>
      varList?.any exits || initialization?.any exits || condition?.any exits ||
        updaters.any exits || (condition?.all t.isTrueLiteral && exits body)
    | .statement (.forEach _ _ _ _ iterator _ _) => exits iterator
    | .statement (.switch _ _ expression _ _ members _) =>
      exits expression || (t.membersExit exits members && members.any t.isDefault)
    | .statement (.tryCatch _ body _ _ finally?) => exits body || finally?.any exits
    | .statement (.labeled _ statement) => exits statement
    | .expression (.closure ..) | .statement (.functionDecl _) => false
    | .expression (.list ..) | .expression (.map ..) | .expression (.interpolation _) => false
    | .statement (.breaks ..) | .statement (.continues ..) | .statement (.empty _) => false
    | _ => (t.children id).any exits

/-- Whether control never gets past a node. -/
def alwaysExits (id : NodeId) : Bool := t.exitsTo (t.nodes.size + 1) id

end Tree

end DartAnalysis
