/-
  The element behind each kind of node: members, operators, constructors, directives and jumps. It
  is asked for after the children of the node have theirs.
-/
import DartAnalysis.Binding.Reference

namespace DartAnalysis

namespace Binding

/-! ## Constructors -/

/-- Gives a node the constructor of a class, and its name too if it is written. -/
def bindConstructor (node : NodeId) (owner : ElementId) (name? : Option NodeId)
    (blamed : NodeId) : Resolving Unit := do
  let g ← graph
  let written := (name?.map (← tree).nameOf).getD ""
  match g.constructor? owner written with
  | some id =>
    setElement node id
    name?.forM (setElement · id)
  | none => report blamed .undefinedConstructor [g.nameOf owner, written]

/-- The class and the constructor name that a constructor reference writes. `A.named` reads as a
    qualified type name, of which the first part may be the class. -/
def constructorParts (typeName : NodeId) (name? : Option NodeId) :
    Resolving (Option ElementId × Option NodeId) := do
  let t ← tree
  match t.kind typeName with
  | .type written _ =>
    match t.kind written with
    | .expression (.qualified qualifier _ name) =>
      match ← element? qualifier with
      | some id => if (← kindOf id) == .classElement then return (some id, some name)
      | none => pure ()
    | _ => pure ()
    return ((← typeOf typeName).class?, name?)
  | _ => return (none, name?)

def constructorName (node typeName : NodeId) (name? : Option NodeId) : Resolving Unit := do
  let (owner?, name?) ← constructorParts typeName name?
  match owner? with
  | some owner =>
    if (← kindOf owner) == .classElement then
      bindConstructor node owner name? (name?.getD typeName)
  | none => return

/-- A call of a superclass constructor. -/
def superCall (place : Place) (node : NodeId) (name? : Option NodeId) : Resolving Unit := do
  let g ← graph
  match (place.owner?.bind fun owner => (g.element owner).supertype?).bind StaticType.class? with
  | some superclass => bindConstructor node superclass name? (name?.getD node)
  | none => return

/-- The field that an initializer assigns. -/
def initializedField (place : Place) (name : NodeId) : Resolving Unit := do
  let g ← graph
  let written := (← tree).nameOf name
  let field? := (place.owner?.bind (g.declaredMember? · written)).filter (g.kind · == .field)
  match field? with
  | some field =>
    setElement name field
    setType name (g.element field).type
  | none => undefined name .undefinedIdentifier written

/-! ## Directives -/

/-- The library that an import or export names. -/
def libraryUri (node : NodeId) : Resolving Unit := do
  let env ← read
  match env.unit.tree.stringValue? node with
  | none => return
  | some uri =>
    let target? := env.unit.source.resolve? uri
    match target?.bind env.graph.libraryOf? with
    | some l => setElement node l.self
    | none =>
      if target?.any env.nonLibraries.contains then report node .importOfNonLibrary [uri]
      else report node .uriDoesNotExist [uri]

/-- The unit that a part directive names. -/
def partUri (node : NodeId) : Resolving Unit := do
  let env ← read
  match env.unit.tree.stringValue? node with
  | none => return
  | some uri =>
    match (env.unit.source.resolve? uri).bind env.library.unit? with
    | some id => setElement node id
    | none => report node .uriDoesNotExist [uri]

/-! ## Classes -/

/-- Whether a class reaches itself. -/
def isCyclic (g : Graph) (owner : ElementId) : Bool :=
  (g.superclasses owner).any fun c => c == owner || (g.allSuperclasses c).contains owner

/-- A class must not inherit from itself. -/
def hierarchyCheck (name : NodeId) : Resolving Unit := do
  let some owner ← declared? name | return
  let g ← graph
  if isCyclic g owner then report name .recursiveInterfaceInheritance [g.nameOf owner]

/-- A class extends a class. -/
def extendsCheck (typeName : NodeId) : Resolving Unit := do
  match (← tree).kind typeName with
  | .type name _ =>
    match ← element? name with
    | some id =>
      if id ≠ .error && (← kindOf id) != .classElement then report typeName .extendsNonClass []
    | none => return
  | _ => return

/-! ## Nodes -/

def binaryOperator (node left : NodeId) (operator : TokenId) : Resolving Unit := do
  match (← tree).operator? operator with
  | none | some .ampAmp | some .barBar => return
  | some .bangEq => operatorMethod node left "=="
  | some o => operatorMethod node left o.spelling

def unaryOperator (node operand : NodeId) (operator : TokenId) : Resolving Unit := do
  match (← tree).operator? operator with
  | some .minus => operatorMethod node operand "unary-"
  | some .tilde => operatorMethod node operand "~"
  | some .plusPlus => operatorMethod node operand "+"
  | some .minusMinus => operatorMethod node operand "-"
  | _ => return

def postfixed (node operand : NodeId) (operator : TokenId) : Resolving Unit := do
  match (← tree).operator? operator with
  | some .plusPlus => operatorMethod node operand "+"
  | some .minusMinus => operatorMethod node operand "-"
  | _ => return

def bindExpression (place : Place) (node : NodeId) (e : Expression) : Resolving Unit := do
  let t ← tree
  match e with
  | .identifier _ => identifier place node
  | .qualified qualifier _ name => member node (some qualifier) name (t.accessOf node)
  | .property target? _ name => member node target? name (t.accessOf node)
  | .call target? period? name _ =>
    if target?.isSome || period?.isSome then member node target? name .call
    else plainCall node name
  | .indexed target? _ _ _ _ => indexed node target?
  | .binary left operator _ => binaryOperator node left operator
  | .unary operator operand => unaryOperator node operand operator
  | .postUnary operand operator => postfixed node operand operator
  | .assign target operator _ =>
    match (t.operator? operator).bind Operator.ofAssignment? with
    | some o => operatorMethod node target o.spelling
    | none => return
  | .create _ constructorName _ => (← element? constructorName).forM (setElement node)
  | .this _ | .super _ =>
    if place.owner?.isNone || place.inStatic then report node .invalidReferenceToThis []
  | _ => return

/-- Finds the element of a node whose children have theirs. -/
def bind (place : Place) (node : NodeId) : Resolving Unit := do
  let t ← tree
  match t.kind node with
  | .expression e => bindExpression place node e
  | .constructorName typeName _ name? => constructorName node typeName name?
  | .constructorInitializer (.superCall _ _ name? _) => superCall place node name?
  | .constructorInitializer (.field _ _ name _ _) => initializedField place name
  | .directive (.importing _ _ uri _ _ _ _) => libraryUri uri
  | .directive (.exporting _ _ uri _ _) => libraryUri uri
  | .directive (.part _ _ uri _) => partUri uri
  | .statement (.breaks _ label? _) =>
    if label?.isNone && !place.inLoop && !place.inSwitch then report node .breakOutsideLoop []
  | .statement (.continues _ label? _) =>
    if label?.isNone && !place.inLoop then report node .continueOutsideLoop []
  | .variable name _ _ =>
    match ← declared? name with
    | some id => if (← kindOf id) == .localVariable then define (t.nameOf name) id
    | none => return
  | .declaration (.classDecl _ _ _ name _ _ _ _ _ _ _) => hierarchyCheck name
  | .clause (.extending _ typeName) => extendsCheck typeName
  | _ => return

end Binding

end DartAnalysis
