/-
  The walk over a unit. The children of a node come before the node itself; classes, functions,
  blocks and loops open frames around theirs.
-/
import DartAnalysis.Binding.Inference
import DartAnalysis.Binding.Node

namespace DartAnalysis

namespace Binding

/-! ## Type names -/

/-- The class before the dot in `new A.named()`, unless the name before the dot qualifies an
    import. -/
def constructorClass? (node : NodeId) : Resolving (Option (NodeId × ElementId)) := do
  let t ← tree
  match (t.parent? node).map t.kind, t.kind node with
  | some (.constructorName ..), .type name _ =>
    match t.kind name with
    | .expression (.qualified qualifier _ _) =>
      let written := t.nameOf qualifier
      if ((← read).scope.qualifier? written).isSome then return none
      match ← lookupType? written with
      | some id =>
        if (← kindOf id) == .classElement then return some (qualifier, id) else return none
      | none => return none
    | _ => return none
  | _, _ => return none

/-- A type annotation, with everything inside it. -/
def typeName (node : NodeId) : Resolving Unit := do
  match ← constructorClass? node with
  | some (qualifier, id) =>
    let parameters := (← elementOf id).typeParameters
    setElement qualifier id
    setType node (.interface id (parameters.map fun _ => .dynamic))
  | none =>
    let env ← read
    let names : TypeNames := ⟨env.graph, env.scope, env.unit⟩
    let frames := (← get).frames
    let (_, found) := names.read (frames.local? ·) node
    found.elements.forM fun (n, id) => setElement n id
    found.types.forM fun (n, type) => setType n type
    modify fun s => { s with errors := s.errors ++ found.errors }

/-! ## Frames -/

/-- Walks below a node. -/
abbrev Visit := Place → NodeId → Resolving Unit

def visitAll (visit : Visit) (place : Place) (nodes : List NodeId) : Resolving Unit :=
  nodes.forM (visit place)

/-- A class sees its type parameters and its members, inherited ones too. -/
def classBody (visit : Visit) (node name : NodeId) : Resolving Unit := do
  let owner := (← declared? name).getD .error
  let g ← graph
  let names := (g.element owner).typeParameters.map fun p => (g.nameOf p, p)
  inFrame { owner? := some owner, names := names.reverse } do
    visitAll visit { owner? := some owner } ((← tree).children node)

/-- The place inside a function. -/
def Place.inFunction (place : Place) (function? : Option ElementId) (inStatic : Bool) : Place :=
  { place with function?, inStatic, inLoop := false, inSwitch := false }

/-- The children of an executable; those of its body only if bodies are looked into. -/
def executable (visit : Visit) (place : Place) (node : NodeId) (isBody : NodeId → Bool) :
    Resolving Unit := do
  let bodies := (← read).bodies
  inFrame { isFunction := true } do
    visitAll visit place (((← tree).children node).filter fun c => bodies || !isBody c)

/-- The children of a loop, of which one is its body. -/
def loop (visit : Visit) (place : Place) (node body : NodeId) : Resolving Unit := do
  ((← tree).children node).forM fun c =>
    visit (if c = body then { place with inLoop := true } else place) c

/-- The labels of a switch member. -/
def memberLabels (t : Tree) (node : NodeId) : List NodeId :=
  match t.kind node with
  | .switchMember (.case labels _ _ _ _) => labels
  | .switchMember (.default labels _ _ _) => labels
  | _ => []

/-- Every member of a switch can jump to every other by its label. -/
def switchBody (visit : Visit) (place : Place) (members : List NodeId) : Resolving Unit := do
  let t ← tree
  inFrame {} do
    (members.flatMap (memberLabels t)).forM fun label => do
      match t.kind label with
      | .label name _ => (← declared? name).forM (defineLabel (t.nameOf name))
      | _ => return
    visitAll visit { place with inSwitch := true } members

/-- The statements of a switch member have a frame of their own. -/
def switchMember (visit : Visit) (place : Place) (node : NodeId) (statements : List NodeId) :
    Resolving Unit := do
  let children := (← tree).children node
  visitAll visit place (children.filter fun c => !statements.contains c)
  inFrame {} (visitAll visit place (children.filter statements.contains))

/-- What is below a node; a frame is open while the nodes that it holds are walked over. -/
def inside (visit : Visit) (place : Place) (node : NodeId) : Resolving Unit := do
  let t ← tree
  match t.kind node with
  | .declaration (.classDecl _ _ _ name _ _ _ _ _ _ _) => classBody visit node name
  | .member (.method _ _ modifier? _ _ _ name _ body) =>
    let isStatic := modifier?.any fun token => (t.token token).kind == .keyword .staticKw
    executable visit (place.inFunction (← declared? name) isStatic) node (· == body)
  | .member (.constructor _ _ _ factory? returnType _ name? _ _ initializers body) =>
    let function? ← declared? (name?.getD returnType)
    executable visit (place.inFunction function? factory?.isSome) node fun c =>
      c == body || initializers.contains c
  | .expression (.closure _ body) =>
    let function? ← functionElement? node
    executable visit (place.inFunction function? place.inStatic) node (· == body)
  | .statement (.block ..) | .catchClause .. | .statement (.labeled ..) =>
    inFrame {} (visitAll visit place (t.children node))
  | .statement (.forLoop _ _ _ _ _ _ _ _ _ body) => inFrame {} (loop visit place node body)
  | .statement (.whileLoop _ _ _ _ body) => loop visit place node body
  | .statement (.doLoop _ body _ _ _ _ _) => loop visit place node body
  | .statement (.forEach _ _ loopVariable _ iterator _ body) =>
    visit place iterator
    inFrame {} do
      visit place loopVariable
      visit { place with inLoop := true } body
  | .statement (.switch _ _ expression _ _ members _) =>
    visit place expression
    switchBody visit place members
  | .switchMember (.case _ _ _ _ statements) => switchMember visit place node statements
  | .switchMember (.default _ _ _ statements) => switchMember visit place node statements
  | _ => visitAll visit place (t.children node)

/-- Resolves a node and what is below it, down to a given depth. -/
def visitTo : Nat → Visit
  | 0, _, _ => return
  | depth + 1, place, node => do
    match (← tree).kind node with
    | .comment _ | .libraryName _ => return
    | .type .. => typeName node
    | _ =>
      inside (visitTo depth) place node
      bind place node
      infer place node

/-- Resolves the whole unit. -/
def resolve : Resolving Unit := do
  let t ← tree
  visitTo (t.nodes.size + 1) {} t.root

end Binding

end DartAnalysis
