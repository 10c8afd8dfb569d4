/-
  The declared types of a library's elements, filled in once all libraries of a program have their
  elements. It goes in three rounds, each of which sees what the rounds before it have filled in:
  type aliases first, since every annotation may name one; then hierarchy, bounds and variables; then
  executables, whose initializing parameters read the types of fields. Nothing is reported here.
-/
import DartAnalysis.Program.TypeName
import DartAnalysis.StaticType.Core

namespace DartAnalysis

namespace DeclaredType

/-- One change of what an element's type is known to be. -/
inductive Change where
  | type (t : StaticType)
  | supertype (t : Option StaticType)
  | interfaces (ts : List StaticType)
  | mixins (ts : List StaticType)
  | bound (t : StaticType)

def Change.apply (e : Element) : Change → Element
  | .type t => { e with type := t }
  | .supertype t => { e with supertype? := t }
  | .interfaces ts => { e with interfaces := ts }
  | .mixins ts => { e with mixins := ts }
  | .bound t => { e with bound? := some t }

/-- Changes in order of discovery. -/
abbrev Changing := StateM (Array (ElementId × Change))

def change (id : ElementId) (c : Change) : Changing Unit := modify (·.push (id, c))

/-- Where a declaration stands. -/
structure Site where
  core : CoreTypes
  /-- The library, with what the rounds before have filled in. -/
  library : Library
  unit : LibraryUnit
  /-- What an annotation of the unit means among type parameters. -/
  annotation : List ElementId → NodeId → StaticType
  /-- The class around the declaration. -/
  owner? : Option ElementId
  /-- The type parameters around it. -/
  typeParameters : List ElementId

variable (site : Site)

def declared? (name : NodeId) : Option ElementId :=
  site.library.declaredAt? site.unit.source (site.unit.tree.offset name)

/-- The type of an annotation. -/
def read (typeName : NodeId) : StaticType := site.annotation site.typeParameters typeName

/-- The type of an annotation, `dynamic` where there is none. -/
def read? (typeName? : Option NodeId) : StaticType := (typeName?.map (read site)).getD .dynamic

/-- The types of annotations that name classes. -/
def readClasses (typeNames : List NodeId) : List StaticType :=
  (typeNames.map (read site)).filter StaticType.isInterface

/-! ## Variables and hierarchy -/

/-- The variables of a declaration list with their initializers. -/
def variablesOf (t : Tree) (list : NodeId) : List (NodeId × Option NodeId) :=
  match t.kind list with
  | .variableList _ _ nodes =>
    nodes.filterMap fun node =>
      match t.kind node with
      | .variable name _ initializer? => some (name, initializer?)
      | _ => none
  | _ => []

def writtenType? (t : Tree) (list : NodeId) : Option NodeId :=
  match t.kind list with
  | .variableList _ typeName? _ => typeName?
  | _ => none

/-- All variables of a list have the one type that is written before them. -/
def declareVariables (list : NodeId) : Changing Unit :=
  let t := site.unit.tree
  let type := read? site (writtenType? t list)
  (variablesOf t list).forM fun (name, _) =>
    (declared? site name).forM fun id => change id (.type type)

def bounds (list? : Option NodeId) : Changing Unit :=
  let t := site.unit.tree
  match list?.map t.kind with
  | some (.typeParameterList _ nodes _) =>
    nodes.forM fun node =>
      match t.kind node with
      | .typeParameter name _ (some bound) =>
        (declared? site name).forM fun id => change id (.bound (read site bound))
      | _ => pure ()
  | _ => pure ()

/-- The superclass: the one written if it is a class, otherwise the root class, which alone has
    none. -/
def superclass (id : ElementId) (clause? : Option NodeId) : Option StaticType :=
  let t := site.unit.tree
  if id = site.core.objectClass then none
  else match clause?.map t.kind with
    | some (.clause (.extending _ typeName)) =>
      let written := read site typeName
      some (if written.isInterface then written else site.core.object)
    | _ => some site.core.object

/-- Bounds, superclass, mixins and interfaces of a class. -/
def hierarchy (id : ElementId) (typeParameters? extends? with? implements? : Option NodeId) :
    Changing Unit := do
  let t := site.unit.tree
  bounds site typeParameters?
  change id (.supertype (superclass site id extends?))
  match with?.map t.kind with
  | some (.clause (.mixing _ typeNames)) => change id (.mixins (readClasses site typeNames))
  | _ => pure ()
  match implements?.map t.kind with
  | some (.clause (.implementing _ typeNames)) =>
    change id (.interfaces (readClasses site typeNames))
  | _ => pure ()

/-! ## Executables -/

/-- The type of the field of a name, for a parameter that assigns it. -/
def fieldType (name : String) : StaticType :=
  match site.owner?.bind (site.library.alone.declaredMember? · name) with
  | some id =>
    let e := site.library.element id
    if e.kind == .field then e.type else .dynamic
  | none => .dynamic

/-- The parameters collected so far, by kind. -/
structure Parameters where
  required : List StaticType := []
  positional : List StaticType := []
  named : List (String × StaticType) := []

def Parameters.add (ps : Parameters) (kind : ParameterKind) (name : String) (type : StaticType) :
    Parameters :=
  match kind with
  | .required => { ps with required := ps.required ++ [type] }
  | .positional => { ps with positional := ps.positional ++ [type] }
  | .named => { ps with named := ps.named ++ [(name, type)] }

def parameter (ps : Parameters) (node : NodeId) : Changing Parameters := do
  let t := site.unit.tree
  let (inner, kind) := match t.kind node with
    | .parameter (.optional inner kind _ _) => (inner, kind)
    | _ => (node, ParameterKind.required)
  let named? := match t.kind inner with
    | .parameter (.simple _ typeName? name) => some (name, read? site typeName?)
    | .parameter (.field _ typeName? _ _ name) =>
      some (name, (typeName?.map (read site)).getD (fieldType site (t.nameOf name)))
    | _ => none
  match named? with
  | none => return ps
  | some (name, type) =>
    (declared? site name).forM fun id => change id (.type type)
    return ps.add kind (t.nameOf name) type

/-- The function type of an executable; the types of its parameters are filled in on the way. -/
def functionType (result : StaticType) (parameters? : Option NodeId) : Changing StaticType := do
  match parameters?.map site.unit.tree.kind with
  | some (.parameterList _ nodes _ _ _) =>
    let ps ← nodes.foldlM (parameter site) {}
    return .function result ps.required ps.positional ps.named
  | _ => return .function result [] [] []

/-- Fills in the types of the declarations below a node. -/
abbrev Walk := NodeId → Changing Unit

/-- What the initializers of a list declare. -/
def initializers (walk : Walk) (list : NodeId) : Changing Unit :=
  (variablesOf site.unit.tree list).forM fun (_, initializer?) => initializer?.forM walk

/-- Parameters and body of an executable. -/
def inside (walk : Walk) (parameters? : Option NodeId) (body : NodeId) : Changing Unit := do
  parameters?.forM walk
  walk body

def functionDeclaration (walk : Walk) (node : NodeId) : Changing Unit := do
  let t := site.unit.tree
  match t.kind node with
  | .declaration (.functionDecl _ _ typeName? _ name function) =>
    match t.kind function with
    | .expression (.closure parameters? body) =>
      (declared? site name).forM fun id => do
        change id (.type (← functionType site (read? site typeName?) parameters?))
      inside walk parameters? body
    | _ => return
  | _ => return

/-- The types of the declarations below a node, down to a given depth. -/
def walkTo : Nat → Walk
  | 0, _ => return
  | depth + 1, node => do
    let walk := walkTo depth
    let t := site.unit.tree
    match t.kind node with
    | .variableList .. =>
      declareVariables site node
      initializers site walk node
    | .declaredIdentifier _ typeName? name =>
      (declared? site name).forM fun id => change id (.type (read? site typeName?))
    | .catchClause _ typeName? _ _ exception? _ trace? _ body =>
      (exception?.bind (declared? site)).forM fun id => change id (.type (read? site typeName?))
      (trace?.bind (declared? site)).forM fun id => change id (.type site.core.stackTrace)
      walk body
    | .declaration (.functionDecl ..) => functionDeclaration site walk node
    | .expression (.closure parameters? body) =>
      (declared? site node).forM fun id => do
        change id (.type (← functionType site .dynamic parameters?))
      inside walk parameters? body
    | _ => (t.children node).forM walk

def walk (node : NodeId) : Changing Unit := walkTo site (site.unit.tree.nodes.size + 1) node

def classMember (node : NodeId) : Changing Unit := do
  let t := site.unit.tree
  match t.kind node with
  | .member (.field _ _ fields _) => initializers site (walk site) fields
  | .member (.method _ _ _ typeName? _ _ name parameters? body) =>
    (declared? site name).forM fun id => do
      change id (.type (← functionType site (read? site typeName?) parameters?))
      inside (walk site) parameters? body
  | .member (.constructor _ _ _ _ returnType _ name? parameters' _ inits body) =>
    (declared? site (name?.getD returnType)).forM fun id => do
      let owner := (site.owner?.map (site.library.element · |>.type)).getD .dynamic
      change id (.type (← functionType site owner (some parameters')))
      walk site parameters'
      inits.forM (walk site)
      walk site body
  | _ => return

/-! ## Rounds -/

inductive Round where
  | aliases
  | hierarchy
  | executables
deriving DecidableEq, Repr

def Round.all : List Round := [.aliases, .hierarchy, .executables]

def declaration (round : Round) (node : NodeId) : Changing Unit := do
  let t := site.unit.tree
  match round, t.kind node with
  | .aliases, .declaration (.typeAlias _ _ typeName? name _ parameters' _) =>
    (declared? site name).forM fun id => do
      let site := { site with typeParameters := (site.library.element id).typeParameters }
      change id (.type (← functionType site (read? site typeName?) (some parameters')))
  | _, .declaration (.classDecl _ _ _ name typeParameters? extends? with? implements? _ members _) =>
    (declared? site name).forM fun id => do
      let typeParameters := (site.library.element id).typeParameters
      let site := { site with owner? := some id, typeParameters }
      match round with
      | .aliases => return
      | .hierarchy =>
        hierarchy site id typeParameters? extends? with? implements?
        members.forM fun member =>
          match t.kind member with
          | .member (.field _ _ fields _) => declareVariables site fields
          | _ => pure ()
      | .executables => members.forM (classMember site)
  | .hierarchy, .declaration (.variablesDecl _ list _) => declareVariables site list
  | .executables, .declaration (.variablesDecl _ list _) => initializers site (walk site) list
  | .executables, .declaration (.functionDecl ..) => functionDeclaration site (walk site) node
  | _, _ => return

/-- What one round over the units of a library finds out. -/
def changes (sites : List Site) (round : Round) : Array (ElementId × Change) :=
  let collect : Changing Unit := sites.forM fun site =>
    site.unit.tree.declarations.forM (declaration site round)
  (collect #[]).2

end DeclaredType

namespace Library

open DeclaredType

/-- Makes changes in order. -/
def apply (l : Library) (changes : Array (ElementId × Change)) : Library :=
  changes.foldl (fun l change => l.modify change.1 change.2.apply) l

/-- The library after one round over its units. -/
def declareRound (core : CoreTypes)
    (annotations : LibraryUnit → List ElementId → NodeId → StaticType)
    (units : List LibraryUnit) (l : Library) (round : Round) : Library :=
  let sites := units.map fun unit =>
    { core, library := l, unit, annotation := annotations unit, owner? := none
      typeParameters := [] }
  l.apply (changes sites round)

end Library

namespace Graph

variable (g : Graph)

/-- What the annotations of a library mean, unit by unit. -/
def annotations (scope : LibraryScope) (l : Library) (unit : LibraryUnit)
    (typeParameters : List ElementId) (typeName : NodeId) : StaticType :=
  let names : TypeNames := ⟨g, scope, unit⟩
  let local? (name : String) := typeParameters.find? fun id =>
    (l.element? id).any (·.name == name)
  (names.read local? typeName).1

/-- One round of a library whose scope is given. -/
def declareRound (core : CoreTypes) (scope : LibraryScope) (units : List LibraryUnit) (l : Library)
    (round : DeclaredType.Round) : Library :=
  l.declareRound core ((g.put l).annotations scope l) units round

/-- A library of the graph with its declared types. -/
def typedLibrary (core : CoreTypes) (units : List LibraryUnit) (l : Library) : Library :=
  DeclaredType.Round.all.foldl (g.declareRound core (.ofLibrary g l) units) l

/-- Fills in the declared types of a library. -/
def declareTypes (core : CoreTypes) (library : LibraryId) (units : List LibraryUnit) : Graph :=
  match g.library? library with
  | none => g
  | some l => g.put (g.typedLibrary core units l)

/-- Fills in the declared types of libraries, one after the other. -/
def declareAll (core : CoreTypes) (pending : List (LibraryId × List LibraryUnit)) : Graph :=
  pending.foldl (fun g (library, units) => g.declareTypes core library units) g

end Graph

end DartAnalysis
