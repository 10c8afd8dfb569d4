/-
  What a type annotation means. Declarations and expressions read annotations alike; what is found
  on the way is kept beside the type, so that either can use what it needs.
-/
import DartAnalysis.Element.Declarations
import DartAnalysis.Scope.Namespace

namespace DartAnalysis

/-- Where type names are read: a unit inside a library. -/
structure TypeNames where
  graph : Graph
  scope : LibraryScope
  unit : LibraryUnit

namespace TypeNames

/-- What was found while type names were read. -/
structure Findings where
  /-- The element of every name. -/
  elements : Array (NodeId × ElementId) := #[]
  /-- The type of every annotation, nested ones first. -/
  types : Array (NodeId × StaticType) := #[]
  errors : Array Diagnostic := #[]

abbrev Reading := StateM Findings

def noteElement (node : NodeId) (id : ElementId) : Reading Unit :=
  modify fun f => { f with elements := f.elements.push (node, id) }

def noteType (node : NodeId) (type : StaticType) : Reading Unit :=
  modify fun f => { f with types := f.types.push (node, type) }

variable (names : TypeNames)

def report (node : NodeId) (code : Diagnostic.Code) (args : List String) : Reading Unit :=
  let t := names.unit.tree
  let error :=
    Diagnostic.make (some names.unit.source) (t.offset node) (t.length node) code args
  modify fun f => { f with errors := f.errors.push error }

/-- What a type name refers to. -/
inductive Target where
  | void
  | dynamic
  | element (id : ElementId)
  | undefined

/-- The target of a plain or qualified name. `local?` knows the names declared between the
    annotation and the scope of the library. -/
def target (local? : String → Option ElementId) (name : NodeId) : Target :=
  let t := names.unit.tree
  match t.kind name with
  | .expression (.identifier token) =>
    match (t.token token).kind with
    | .keyword .voidKw => .void
    | .keyword .dynamicKw => .dynamic
    | _ =>
      let lexeme := t.lexeme token
      match local? lexeme <|> names.scope.lookup? lexeme with
      | some id => .element id
      | none => .undefined
  | .expression (.qualified qualifier _ member) =>
    match names.scope.lookupQualified? (t.nameOf qualifier) (t.nameOf member) with
    | some id => .element id
    | none => .undefined
  | _ => .undefined

/-- Notes what the sides of a qualified name refer to. -/
def noteSides (name : NodeId) : Reading Unit := do
  let t := names.unit.tree
  match t.kind name with
  | .expression (.qualified qualifier _ member) =>
    (names.scope.qualifier? (t.nameOf qualifier)).forM (noteElement qualifier)
    (names.scope.lookupQualified? (t.nameOf qualifier) (t.nameOf member)).forM (noteElement member)
  | _ => return

/-- The type that an element stands for, applied to arguments. A class without arguments, or with a
    wrong number of them, is applied to `dynamic`. -/
def elementType (name : NodeId) (id : ElementId) (arguments : List StaticType) :
    Reading StaticType := do
  let written := names.unit.tree.nameOf name
  let e := names.graph.element id
  match e.kind with
  | .classElement =>
    let declared := e.typeParameters.length
    if arguments.length = declared then return .interface id arguments
    else
      if !arguments.isEmpty then
        names.report name .wrongNumberOfTypeArguments
          [written, toString declared, toString arguments.length]
      return .interface id (List.replicate declared .dynamic)
  | .typeAlias => return e.type
  | .typeParameter => return .parameter id
  | .dynamic => return .dynamic
  | _ =>
    names.report name .notAType [written]
    return .error

/-- The type of an annotation whose arguments nest no deeper than `depth`. -/
def readTo (local? : String → Option ElementId) : Nat → NodeId → Reading StaticType
  | 0, _ => return .dynamic
  | depth + 1, id => do
    let t := names.unit.tree
    match t.kind id with
    | .type name arguments? =>
      let nodes := match arguments?.map t.kind with
        | some (.typeArgumentList _ nodes _) => nodes
        | _ => []
      let arguments ← nodes.mapM (readTo local? depth)
      names.noteSides name
      let type ← match names.target local? name with
        | .void => pure .void
        | .dynamic => pure .dynamic
        | .element e => do
          noteElement name e
          names.elementType name e arguments
        | .undefined => do
          names.report name .undefinedClass [t.nameOf name]
          noteElement name .error
          pure .error
      noteType id type
      return type
    | _ => return .dynamic

/-- The type of an annotation, with what was found on the way. -/
def read (local? : String → Option ElementId) (id : NodeId) : StaticType × Findings :=
  names.readTo local? (names.unit.tree.nodes.size + 1) id {}

end TypeNames

end DartAnalysis
