/-
  Static types of expressions, and the checks that need them. Member accesses and calls got their
  types with their elements.
-/
import DartAnalysis.Binding.Reference

namespace DartAnalysis

namespace Binding

/-- The element of the function that a closure is the body of, or of the unnamed function that it
    is itself. -/
def functionElement? (node : NodeId) : Resolving (Option ElementId) := do
  let t ← tree
  match (t.parent? node).map t.kind with
  | some (.declaration (.functionDecl _ _ _ _ name function)) =>
    declared? (if function = node then name else node)
  | _ => declared? node

/-! ## Checks -/

def assignableCheck (node : NodeId) (source target : StaticType) : Resolving Unit := do
  if !(← isAssignable source target) then
    report node .invalidAssignment [← display source, ← display target]

def isCondition (node : NodeId) : Resolving Bool := do
  isAssignable (← typeOf node) (← read).core.bool

def conditionCheck (node : NodeId) : Resolving Unit := do
  if !(← isCondition node) then report node .nonBoolCondition []

def operandCheck (node : NodeId) (operator : Operator) : Resolving Unit := do
  if !(← isCondition node) then report node .nonBoolOperand [operator.spelling]

/-- A returned value has to fit the declared return type; constructors and functions that declare
    none or `void` take every value. -/
def returnCheck (place : Place) (node : NodeId) : Resolving Unit := do
  let some function := place.function? | return
  let e ← elementOf function
  let some declared := e.type.result? | return
  if e.kind == .constructor || declared.isUnknown || declared = .void then return
  let actual ← typeOf node
  if !(← isAssignable actual declared) then
    report node .returnOfInvalidType [← display actual, ← display declared, e.name]

/-! ## Expressions -/

def typeArguments (list? : Option NodeId) : Resolving (List StaticType) := do
  match list?.map (← tree).kind with
  | some (.typeArgumentList _ nodes _) => nodes.mapM typeOf
  | _ => return []

/-- What the method behind an operator returns. -/
def operatorResult (node operand : NodeId) : Resolving StaticType := do
  let g ← graph
  match ← element? node, ← receiver? (← typeOf operand) with
  | some id, some receiver =>
    let result? := (g.element id).enclosing?.bind (g.asInstanceOf? receiver) |>.bind fun owner =>
      (g.memberType ⟨id, owner⟩).result?
    return result?.getD .dynamic
  | _, _ => return .dynamic

/-- Arithmetic on numbers stays among the integers or doubles if it can. -/
def arithmeticType (core : CoreTypes) (left right : StaticType) : StaticType :=
  if core.isInt left && core.isInt right then core.int
  else if core.isDouble left || core.isDouble right then core.double
  else core.num

def binaryType (node left : NodeId) (operator : TokenId) (right : NodeId) :
    Resolving StaticType := do
  let core := (← read).core
  let some o := (← tree).operator? operator | return .dynamic
  let (l, r) := (← typeOf left, ← typeOf right)
  let isNumeric := core.isNumeric l && core.isNumeric r
  match o, isNumeric with
  | .ampAmp, _ | .barBar, _ =>
    operandCheck left o
    operandCheck right o
    return core.bool
  | .eqEq, _ | .bangEq, _ => return core.bool
  | .lt, true | .gt, true | .ltEq, true | .gtEq, true => return core.bool
  | .slash, true => return core.double
  | .tildeSlash, true => return core.int
  | .plus, true | .minus, true | .star, true | .percent, true => return arithmeticType core l r
  | _, _ => operatorResult node left

def unaryType (node : NodeId) (operator : TokenId) (operand : NodeId) : Resolving StaticType := do
  let core := (← read).core
  let type ← typeOf operand
  match (← tree).operator? operator with
  | some .bang =>
    operandCheck operand .bang
    return core.bool
  | some .minus => if core.isNumeric type then return type else operatorResult node operand
  | some .plusPlus | some .minusMinus => return type
  | _ => operatorResult node operand

/-- What a plain assignment stores into: a local variable without annotation takes every value,
    whatever its type was inferred to be. -/
def targetType (target : NodeId) : Resolving StaticType := do
  match ← element? target with
  | some id => if (← inferred? id).isSome then return (← elementOf id).type else typeOf target
  | none => typeOf target

def assignmentType (node target : NodeId) (operator : TokenId) (value : NodeId) :
    Resolving StaticType := do
  if (← tree).operator? operator == some .eq then
    let type ← typeOf value
    assignableCheck value type (← targetType target)
    return type
  else operatorResult node target

/-- The type of an identifier; qualifiers, labels, libraries and units have none. -/
def identifierType? (node : NodeId) : Resolving (Option StaticType) := do
  match ← type? node, ← element? node with
  | none, some id =>
    match ← kindOf id with
    | .importQualifier | .label | .library | .unit => return none
    | _ => return some (← referenceType id)
  | known, _ => return known

/-- The type of `this` or `super` where there is one. -/
def receiverOf (place : Place) (type : Element → StaticType) : Resolving StaticType := do
  match place.owner? with
  | some owner => if place.inStatic then return .error else return type (← elementOf owner)
  | none => return .error

/-- What a call of an expression gives. -/
def applyType (function : NodeId) : Resolving StaticType := do
  match ← typeOf function with
  | .function result _ _ _ => return result
  | .interface .. =>
    report function .invocationOfNonFunction ["call"]
    return .dynamic
  | .error => return .error
  | _ => return .dynamic

/-- The type of an expression that does not have one yet. -/
def expressionType? (place : Place) (node : NodeId) (e : Expression) :
    Resolving (Option StaticType) := do
  let env ← read
  let core := env.core
  match e with
  | .integer _ => return core.int
  | .double _ => return core.double
  | .boolean _ | .isTest .. => return core.bool
  | .null _ | .throws .. | .rethrows _ => return some .bottom
  | .string .. | .interpolation _ | .adjacent _ => return core.string
  | .list _ arguments? _ _ _ =>
    return core.list ((← typeArguments arguments?).getLast?.getD .dynamic)
  | .map _ arguments? _ _ _ =>
    let arguments ← typeArguments arguments?
    return core.map (arguments.getD 0 .dynamic) (arguments.getD 1 .dynamic)
  | .identifier _ => identifierType? node
  | .paren _ inner _ => typeOf inner
  | .named _ inner => typeOf inner
  | .this _ => receiverOf place (·.type)
  | .super _ => receiverOf place (·.supertype?.getD .dynamic)
  | .assign target operator value => assignmentType node target operator value
  | .conditional condition _ then' _ else' =>
    conditionCheck condition
    return ← leastUpperBound (← typeOf then') (← typeOf else')
  | .binary left operator right => binaryType node left operator right
  | .unary operator operand => unaryType node operator operand
  | .postUnary operand _ => typeOf operand
  | .cast _ _ typeName => typeOf typeName
  | .apply function _ => applyType function
  | .create _ constructorName _ =>
    match env.unit.tree.kind constructorName with
    | .constructorName typeName _ _ => typeOf typeName
    | _ => return some .dynamic
  | .cascade target _ => typeOf target
  | .closure .. =>
    match ← functionElement? node with
    | some id => return (← elementOf id).type
    | none => return some .dynamic
  | .qualified .. | .indexed .. | .property .. | .call .. => return none

/-! ## Declarations and statements -/

/-- Whether a variable is a local one without annotation. -/
def isUntypedLocal (node : NodeId) (id : ElementId) : Resolving Bool := do
  let t ← tree
  match (t.parent? node).map t.kind with
  | some (.variableList _ none _) => return (← kindOf id) == .localVariable
  | _ => return false

/-- An initializer has to fit the declared type, and gives a local variable without annotation
    its type. -/
def initialized (node name initializer : NodeId) : Resolving Unit := do
  let some id ← declared? name | return
  let value ← typeOf initializer
  assignableCheck initializer value (← elementOf id).type
  if (← isUntypedLocal node id) && !value.isUnknown && value ≠ .bottom && value ≠ .void then
    modify fun s => { s with inferred := (id, value) :: s.inferred }

/-- Infers the type of a node whose element is known, or checks it. -/
def infer (place : Place) (node : NodeId) : Resolving Unit := do
  match (← tree).kind node with
  | .expression e => (← expressionType? place node e).forM (setType node)
  | .statement (.ifElse _ _ condition _ _ _ _) => conditionCheck condition
  | .statement (.whileLoop _ _ condition _ _) => conditionCheck condition
  | .statement (.doLoop _ _ _ _ condition _ _) => conditionCheck condition
  | .statement (.assertion _ _ condition _ _) => conditionCheck condition
  | .statement (.forLoop _ _ _ _ _ condition? _ _ _ _) => condition?.forM conditionCheck
  | .statement (.returns _ expression? _) => expression?.forM (returnCheck place)
  | .functionBody (.expressionBody _ expression _) => returnCheck place expression
  | .variable name _ (some initializer) => initialized node name initializer
  | .constructorInitializer (.field _ _ name _ expression) =>
    assignableCheck expression (← typeOf expression) (← typeOf name)
  | _ => return

end Binding

end DartAnalysis
