/-
  The meaning of names: plain identifiers by their role, and members by the type of their receiver.
  A receiver has its type by the time its member is looked up.
-/
import DartAnalysis.Binding.State

namespace DartAnalysis

namespace Binding

/-! ## Types of references -/

/-- The type of an element's name in an expression. -/
def referenceType (id : ElementId) : Resolving StaticType := do
  if id = .error then return .error
  match ← inferred? id with
  | some t => return t
  | none =>
    let e ← elementOf id
    match e.kind with
    | .getter => return e.type.result?.getD .dynamic
    | .setter => return e.type.firstParameter?.getD .dynamic
    | .classElement | .typeAlias | .typeParameter => return (← read).core.type
    | kind => if kind.isVariable || kind.isExecutable then return e.type else return .dynamic

/-- The type of what an element's name can be assigned. -/
def assignedType (id : ElementId) : Resolving StaticType := do
  let e ← elementOf id
  match e.kind with
  | .setter => referenceType id
  | _ => return e.type

/-- What a call of a value gives. A value that cannot be called is reported, unless nothing is
    known of it. -/
def callType (callee : StaticType) (name : NodeId) : Resolving StaticType := do
  match callee with
  | .function result _ _ _ => return result
  | .error => return .error
  | .interface c _ =>
    if (← graph).nameOf c != "Function" then notAFunction
    return .dynamic
  | .void =>
    notAFunction
    return .dynamic
  | _ => return .dynamic
where
  notAFunction : Resolving Unit := do
    report name .invocationOfNonFunction [(← tree).nameOf name]

/-- The type of an access to an element, given the type of reading it. -/
def accessType (access : Access) (id : ElementId) (read : StaticType) (name : NodeId) :
    Resolving StaticType :=
  match access with
  | .read => return read
  | .write => assignedType id
  | .call => callType read name

/-! ## Identifiers -/

/-- Gives a declaring name its element and makes locals visible from here on. A variable becomes
    visible only after its whole declaration. -/
def declaration (node : NodeId) : Resolving Unit := do
  let some id ← declared? node | return
  setElement node id
  let t ← tree
  let name := t.nameOf node
  let e ← elementOf id
  let enclosing? := e.enclosing?.map (← graph).kind
  let isVariableName := match (t.parent? node).map t.kind with
    | some (.variable ..) => true
    | _ => false
  match e.kind with
  | .label => defineLabel name id
  | .localVariable => if !isVariableName then define name id
  | .parameter => if enclosing? != some .typeAlias then define name id
  | .function => if enclosing?.any Element.Kind.isExecutable then define name id
  | _ => return

/-- Reports a name that means nothing. -/
def undefined (node : NodeId) (code : Diagnostic.Code) (name : String) : Resolving Unit := do
  report node code [name]
  setElement node .error

/-- A name in an expression. A write prefers the setter over a getter of the name. -/
def reference (node : NodeId) : Resolving Unit := do
  let t ← tree
  let name := t.nameOf node
  let found ← lookup? name
  let readOnly ← match found with
    | some id => pure ((← kindOf id) == .getter)
    | none => pure true
  let found ←
    if readOnly && t.accessOf node == .write then pure ((← lookup? (name ++ "=")) <|> found)
    else pure found
  match found <|> (← read).scope.qualifier? name with
  | some id => setElement node id
  | none => undefined node .undefinedIdentifier name

/-- The URI of the import or export around a node. -/
def directiveUri? (t : Tree) (node : NodeId) : Option NodeId :=
  (t.ancestors node).findSome? fun a =>
    match t.kind a with
    | .directive (.importing _ _ uri _ _ _ _) => some uri
    | .directive (.exporting _ _ uri _ _) => some uri
    | _ => none

/-- A name that is shown or hidden means what the library exports under it, if anything. -/
def combinatorName (node : NodeId) : Resolving Unit := do
  let env ← read
  let t := env.unit.tree
  let library? := (directiveUri? t node).bind t.stringValue?
    |>.bind env.unit.source.resolve? |>.bind env.graph.libraryOf?
  match library?.bind fun l => (env.graph.exportedNames l).lookup (t.nameOf node) with
  | some id => setElement node id
  | none => return

def identifier (place : Place) (node : NodeId) : Resolving Unit := do
  let t ← tree
  match t.role node with
  | .declaration => declaration node
  | .constructorClass => place.owner?.forM (setElement node)
  | .importQualifier => ((← read).scope.qualifier? (t.nameOf node)).forM (setElement node)
  | .combinator => combinatorName node
  | .jumpTarget =>
    match (← get).frames.label? (t.nameOf node) with
    | some id => setElement node id
    | none => undefined node .labelUndefined (t.nameOf node)
  | .bound => return
  | .reference => reference node

/-! ## Members -/

/-- Gives an access and its name their element and types. -/
def bindMember (node name : NodeId) (id : ElementId) (type nameType : StaticType) :
    Resolving Unit := do
  setElement node id
  setElement name id
  setType node type
  setType name nameType

/-- An access whose member is not there. -/
def undefinedMember (node name : NodeId) (code : Diagnostic.Code) (args : List String) :
    Resolving Unit := do
  report name code args
  bindMember node name .error .error .error

/-- How a missing member is reported. -/
def undefinedCode : Access → Diagnostic.Code
  | .read => .undefinedGetter
  | .write => .undefinedSetter
  | .call => .undefinedMethod

/-- An access to an element that is found by name alone. -/
def bindElement (node name : NodeId) (access : Access) (id : ElementId) : Resolving Unit := do
  let read ← referenceType id
  bindMember node name id (← accessType access id read name) read

/-- A name behind the qualifier of an import. -/
def qualifiedMember (node qualifier name : NodeId) (access : Access) : Resolving Unit := do
  let t ← tree
  let scope := (← read).scope
  let (qualifier, written) := (t.nameOf qualifier, t.nameOf name)
  let plain := scope.lookupQualified? qualifier written
  let found := match access with
    | .write => scope.lookupQualified? qualifier (written ++ "=") <|> plain
    | _ => plain
  match found with
  | some id => bindElement node name access id
  | none => undefinedMember node name .undefinedIdentifier [qualifier ++ "." ++ written]

/-- A member behind the name of a class. -/
def staticMember (node : NodeId) (owner : ElementId) (name : NodeId) (access : Access) :
    Resolving Unit := do
  let g ← graph
  let written := (← tree).nameOf name
  let plain := g.declaredMember? owner written
  let found := match access with
    | .write => g.declaredMember? owner (written ++ "=") <|> plain
    | _ => plain
  match found with
  | some id => bindElement node name access id
  | none => undefinedMember node name (undefinedCode access) [written, g.nameOf owner]

/-- The type on which a member is looked up: that of the target, or of the target of the cascade
    around. -/
def receiverType (node : NodeId) (target? : Option NodeId) : Resolving StaticType := do
  match target? with
  | some target => typeOf target
  | none =>
    let t ← tree
    let cascade? := (t.ancestors node).findSome? fun a =>
      match t.kind a with
      | .expression (.cascade target _) => some target
      | _ => none
    match cascade? with
    | some target => typeOf target
    | none => return .dynamic

def isSuper (t : Tree) (node : NodeId) : Bool :=
  match t.kind node with
  | .expression (.super _) => true
  | _ => false

/-- A member behind a value. Where nothing is known of the value, nothing is reported. -/
def instanceMember (node : NodeId) (target? : Option NodeId) (name : NodeId) (access : Access) :
    Resolving Unit := do
  let t ← tree
  let g ← graph
  let written := t.nameOf name
  let receiver ← receiverType node target?
  let member? ← match access with
    | .write => setter? receiver written
    | _ => member? receiver written
  match member? with
  | some m =>
    let read := g.readType m
    let type ← match access with
      | .read => pure read
      | .write => pure (g.writeType m)
      | .call => callType read name
    bindMember node name m.element type read
  | none =>
    if (← receiver? receiver).isSome then
      let code := if target?.any (isSuper t) then .undefinedSuperMethod else undefinedCode access
      undefinedMember node name code [written, ← display receiver]
    else
      let type : StaticType := if receiver = .error then .error else .dynamic
      setType node type
      setType name type

/-- A member behind a qualifier, a class or a value. -/
def member (node : NodeId) (target? : Option NodeId) (name : NodeId) (access : Access) :
    Resolving Unit := do
  let id? ← match target? with
    | some target => element? target
    | none => pure none
  match target?, id? with
  | some target, some id =>
    match ← kindOf id with
    | .importQualifier => qualifiedMember node target name access
    | .classElement => staticMember node id name access
    | _ => instanceMember node target? name access
  | _, _ => instanceMember node target? name access

/-- A call of a plain name. -/
def plainCall (node name : NodeId) : Resolving Unit := do
  match ← element? name with
  | none => setType node .dynamic
  | some id =>
    if id = .error then setType node .error
    else
      let type ← callType (← typeOf name) name
      setElement node id
      setType node type

/-! ## Operators -/

/-- How an operator method is written: the unary minus as a minus. -/
def writtenOperator (name : String) : String := if name == "unary-" then "-" else name

/-- The method behind an operator. -/
def operatorMethod (node operand : NodeId) (name : String) : Resolving Unit := do
  let receiver ← typeOf operand
  match ← member? receiver name with
  | some m => setElement node m.element
  | none =>
    if (← receiver? receiver).isSome then
      report node .undefinedOperator [writtenOperator name, ← display receiver]

/-- The type of the place that an index operator writes. -/
def storedType : StaticType → Option StaticType
  | .function _ required _ _ => required[1]?
  | _ => none

/-- The method behind an index. -/
def indexed (node : NodeId) (target? : Option NodeId) : Resolving Unit := do
  let receiver ← receiverType node target?
  let isWrite := (← tree).accessOf node == .write
  let name := if isWrite then "[]=" else "[]"
  match ← member? receiver name with
  | some m =>
    let signature := (← graph).memberType m
    let type := if isWrite then storedType signature else signature.result?
    setElement node m.element
    setType node (type.getD .dynamic)
  | none =>
    if (← receiver? receiver).isSome then
      report node .undefinedOperator [name, ← display receiver]
      setType node .error
    else setType node .dynamic

end Binding

end DartAnalysis
