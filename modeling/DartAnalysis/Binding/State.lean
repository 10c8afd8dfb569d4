/-
  What is known while a unit is resolved: the program around it, the frames around the current node,
  and the meaning of the nodes met so far. Problems are collected and stop nothing; what cannot be
  resolved gets the error element and type.
-/
import DartAnalysis.Binding.Role
import DartAnalysis.Program.TypeName
import DartAnalysis.Scope.Frame
import DartAnalysis.StaticType.Subtype

namespace DartAnalysis

/-- The element and the static type of nodes, by node. -/
structure Annotations where
  elements : Array (Option ElementId)
  types : Array (Option StaticType)

namespace Annotations

/-- No node has a meaning yet. -/
def blank (size : Nat) : Annotations := ⟨Array.replicate size none, Array.replicate size none⟩

def element? (a : Annotations) (id : NodeId) : Option ElementId := a.elements.getD id none

def type? (a : Annotations) (id : NodeId) : Option StaticType := a.types.getD id none

def setElement (a : Annotations) (id : NodeId) (e : ElementId) : Annotations :=
  { a with elements := a.elements.setIfInBounds id (some e) }

def setType (a : Annotations) (id : NodeId) (t : StaticType) : Annotations :=
  { a with types := a.types.setIfInBounds id (some t) }

end Annotations

namespace Binding

/-- The surroundings of a unit. -/
structure Env where
  unit : LibraryUnit
  graph : Graph
  core : CoreTypes
  library : Library
  scope : LibraryScope
  /-- Sources that are parts and no libraries. -/
  nonLibraries : List Source
  /-- Whether the bodies of functions are looked into. -/
  bodies : Bool

/-- The constructs around a node. -/
structure Place where
  owner? : Option ElementId := none
  function? : Option ElementId := none
  inLoop : Bool := false
  inSwitch : Bool := false
  /-- Where `this` means nothing although there is a class around. -/
  inStatic : Bool := false

structure State where
  frames : Frames
  annotations : Annotations
  /-- The types of local variables without annotation, from their initializers; latest first. -/
  inferred : List (ElementId × StaticType)
  errors : Array Diagnostic
  /-- Whether types were compared without end; then nothing else counts. -/
  endless : Bool := false

abbrev Resolving := ReaderT Env (StateM State)

/-! ## The program -/

def tree : Resolving Tree := return (← read).unit.tree

def graph : Resolving Graph := return (← read).graph

/-- The element that the name at a node declares. -/
def declared? (node : NodeId) : Resolving (Option ElementId) := do
  let env ← read
  return env.library.declaredAt? env.unit.source (env.unit.tree.offset node)

def elementOf (id : ElementId) : Resolving Element := return (← graph).element id

def kindOf (id : ElementId) : Resolving Element.Kind := return (← graph).kind id

def display (t : StaticType) : Resolving String := return (← graph).display t

def receiver? (t : StaticType) : Resolving (Option Interface) := do
  let env ← read
  return env.graph.receiver? env.core t

/-- What comparing types comes to. If it does not end, nothing counts that is done from then on. -/
def compared {α : Type} (answer? : Option α) (unending : α) : Resolving α := do
  match answer? with
  | some answer => return answer
  | none =>
    modify fun s => { s with endless := true }
    return unending

def isAssignable (a b : StaticType) : Resolving Bool := do
  let env ← read
  compared (env.graph.assignable? env.core a b) false

def leastUpperBound (a b : StaticType) : Resolving StaticType := do
  let env ← read
  compared (env.graph.leastUpperBound? env.core a b) .dynamic

def member? (receiver : StaticType) (name : String) : Resolving (Option TypedMember) := do
  let env ← read
  return env.graph.typedMember? env.core receiver name

def setter? (receiver : StaticType) (name : String) : Resolving (Option TypedMember) := do
  let env ← read
  return env.graph.typedSetter? env.core receiver name

/-! ## Annotations -/

def report (node : NodeId) (code : Diagnostic.Code) (args : List String) : Resolving Unit := do
  let unit := (← read).unit
  let error := Diagnostic.make (some unit.source) (unit.tree.offset node) (unit.tree.length node)
    code args
  modify fun s => { s with errors := s.errors.push error }

def element? (node : NodeId) : Resolving (Option ElementId) :=
  return (← get).annotations.element? node

def type? (node : NodeId) : Resolving (Option StaticType) :=
  return (← get).annotations.type? node

/-- The type of a node, `dynamic` while it has none. -/
def typeOf (node : NodeId) : Resolving StaticType := return (← type? node).getD .dynamic

def setElement (node : NodeId) (id : ElementId) : Resolving Unit :=
  modify fun s => { s with annotations := s.annotations.setElement node id }

def setType (node : NodeId) (t : StaticType) : Resolving Unit :=
  modify fun s => { s with annotations := s.annotations.setType node t }

def inferred? (id : ElementId) : Resolving (Option StaticType) :=
  return (← get).inferred.lookup id

/-! ## Frames -/

/-- Runs inside one more frame. -/
def inFrame (frame : Frame) (action : Resolving Unit) : Resolving Unit := do
  modify fun s => { s with frames := frame :: s.frames }
  action
  modify fun s => { s with frames := s.frames.tail }

def define (name : String) (id : ElementId) : Resolving Unit :=
  modify fun s => { s with frames := s.frames.define name id }

def defineLabel (name : String) (id : ElementId) : Resolving Unit :=
  modify fun s => { s with frames := s.frames.defineLabel name id }

/-- What a name means here: the nearest frame or class member, then the scope of the library. -/
def lookup? (name : String) : Resolving (Option ElementId) := do
  let env ← read
  return (← get).frames.lookup? env.graph.member? name <|> env.scope.lookup? name

/-- What a type name means here: members of classes are no types. -/
def lookupType? (name : String) : Resolving (Option ElementId) := do
  return (← get).frames.local? name <|> (← read).scope.lookup? name

end Binding

end DartAnalysis
