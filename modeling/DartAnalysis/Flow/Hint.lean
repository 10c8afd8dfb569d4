/-
  Hints: functions that declare a return type and may end without returning, and statements after
  one that always exits.
-/
import DartAnalysis.Diagnostic.Basic
import DartAnalysis.Flow.Exit

namespace DartAnalysis

namespace Hint

variable (t : Tree) (source : Source)

/-- A block body that may complete, under a return type other than `void` and `dynamic`. -/
def missingReturn (returnType? : Option NodeId) (body : NodeId) : List Diagnostic :=
  match returnType?, t.kind body with
  | some returnType, .functionBody (.blockBody block) =>
    let name := t.nameOf returnType
    if name == "void" || name == "dynamic" || t.alwaysExits block then []
    else [.make (some source) (t.offset returnType) (t.length returnType) .missingReturn [name]]
  | _, _ => []

/-- The statements after the first that always exits, as one region. -/
def deadCode (statements : List NodeId) : List Diagnostic :=
  match (statements.dropWhile (!t.alwaysExits ·)).drop 1 with
  | [] => []
  | first :: more =>
    let last := more.getLast?.getD first
    [.make (some source) (t.offset first) (t.finish last - t.offset first) .deadCode []]

def isSetter (property? : Option TokenId) : Bool :=
  property?.any fun id => (t.token id).kind == .keyword .setKw

/-- The hints at one node. -/
def atNode (id : NodeId) : List Diagnostic :=
  match t.kind id with
  | .declaration (.functionDecl _ _ returnType? property? _ function) =>
    match t.kind function with
    | .expression (.closure _ body) =>
      if isSetter t property? then [] else missingReturn t source returnType? body
    | _ => []
  | .member (.method _ _ _ returnType? property? _ _ _ body) =>
    if isSetter t property? then [] else missingReturn t source returnType? body
  | .statement (.block _ statements _) => deadCode t source statements
  | .switchMember (.case _ _ _ _ statements) => deadCode t source statements
  | .switchMember (.default _ _ _ statements) => deadCode t source statements
  | _ => []

/-- The hints of a unit, outer nodes first. -/
def ofTree : List Diagnostic := t.preorder.flatMap (atNode t source)

end Hint

end DartAnalysis
