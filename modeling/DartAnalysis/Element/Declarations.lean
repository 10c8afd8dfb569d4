/-
  The elements of a library, collected from its units before any of them is resolved, so that a name
  is known wherever it is declared. Locals, labels and unnamed functions get elements too. Types are
  left open, but for those that need no resolution.

  A name that is declared twice in one library, class, parameter list or block is reported; all
  its elements are kept, and the first stays visible.
-/
import DartAnalysis.Element.Library
import DartAnalysis.Tree.Basic

namespace DartAnalysis

/-- A unit of a library. -/
structure LibraryUnit where
  source : Source
  tree : Tree

namespace Declare

structure State where
  library : Library
  /-- Names of the members of the class at hand. -/
  members : List String
  /-- Names of its constructors. -/
  constructors : List String
  /-- Names declared so far in each open block, innermost first. -/
  scopes : List (List String)
  errors : Array Diagnostic

/-- Collects the elements of one unit. -/
abbrev Declaring := ReaderT LibraryUnit (StateM State)

/-! ## Elements -/

def tree : Declaring Tree := return (← read).tree

/-- Adds an element declared in the unit. -/
def add (kind : Element.Kind) (name : String) (offset : Nat) (parent : ElementId) :
    Declaring ElementId := do
  let e : Element :=
    { kind, name, enclosing? := some parent, source? := some (← read).source
      nameOffset? := some offset }
  let s ← get
  let (id, library) := s.library.add e
  set { s with library }
  return id

/-- Adds an element declared by the name at a node. -/
def addNamed (kind : Element.Kind) (name : NodeId) (parent : ElementId) : Declaring ElementId := do
  let t ← tree
  add kind (t.nameOf name) (t.offset name) parent

def update (id : ElementId) (f : Element → Element) : Declaring Unit :=
  modify fun s => { s with library := s.library.modify id f }

def setModifiers (id : ElementId) (modifiers : Modifiers) : Declaring Unit :=
  update id fun e => { e with modifiers }

/-- What an element of the library is looked up by. -/
def lookupName (id : ElementId) : Declaring String :=
  return (((← get).library.element? id).map Element.lookupName).getD ""

/-! ## Duplicates -/

def reportDuplicate (name : NodeId) : Declaring Unit := do
  let t ← tree
  let error := Diagnostic.make (some (← read).source) (t.offset name) (t.length name)
    .duplicateDefinition [t.nameOf name]
  modify fun s => { s with errors := s.errors.push error }

/-- A missing name declares nothing, and nor does a setter without one. -/
def isMissingKey (key : String) : Bool := key.isEmpty || key == "="

/-- The names with one more; a name that is there already is reported. -/
def enter (seen : List String) (key : String) (name : NodeId) : Declaring (List String) := do
  if isMissingKey key then return seen
  else if seen.contains key then
    reportDuplicate name
    return seen
  else return key :: seen

/-- Enters a name in the innermost open block. -/
def enterLocal (name : NodeId) : Declaring Unit := do
  match (← get).scopes with
  | [] => return
  | scope :: outer =>
    let scope ← enter scope ((← tree).nameOf name) name
    modify fun s => { s with scopes := scope :: outer }

/-- Enters a name among the members of the class. -/
def enterMember (key : String) (name : NodeId) : Declaring Unit := do
  let members ← enter (← get).members key name
  modify fun s => { s with members }

/-- Makes a top-level element visible in the library. -/
def define (key : String) (id : ElementId) (name : NodeId) : Declaring Unit := do
  if isMissingKey key then return
  else if ((← get).library.definition? key).isSome then reportDuplicate name
  else modify fun s => { s with library := s.library.define key id }

/-- Runs with one more open block. -/
def inBlock (action : Declaring Unit) : Declaring Unit := do
  modify fun s => { s with scopes := [] :: s.scopes }
  action
  modify fun s => { s with scopes := s.scopes.tail }

/-- Runs with the given open blocks, and those of before afterwards. -/
def withScopes (scopes : List (List String)) (action : Declaring Unit) : Declaring Unit := do
  let outer := (← get).scopes
  modify fun s => { s with scopes }
  action
  modify fun s => { s with scopes := outer }

/-! ## Keywords -/

def hasKeyword (token? : Option TokenId) (keyword : Keyword) : Declaring Bool := do
  let t ← tree
  return token?.any fun token => (t.token token).kind == .keyword keyword

/-- The modifiers that the keyword of a variable gives. -/
def variableModifiers (keyword? : Option TokenId) : Declaring Modifiers :=
  return { isFinal := ← hasKeyword keyword? .finalKw, isConst := ← hasKeyword keyword? .constKw }

/-- A getter or setter by its property keyword, otherwise `kind`. -/
def accessorKind (property? : Option TokenId) (kind : Element.Kind) : Declaring Element.Kind := do
  if ← hasKeyword property? .getKw then return .getter
  else if ← hasKeyword property? .setKw then return .setter
  else return kind

/-! ## Executables and locals -/

/-- Collects the declarations below a node for the executable around it. -/
abbrev Walk := NodeId → ElementId → Declaring Unit

/-- Declares a local variable. -/
def declareLocal (name : NodeId) (modifiers : Modifiers) (parent : ElementId) :
    Declaring Unit := do
  let id ← addNamed .localVariable name parent
  setModifiers id modifiers
  enterLocal name

/-- One parameter, after what its default value declares. -/
def parameter (walk : Walk) (owner : ElementId) (id : NodeId) : Declaring Unit := do
  let t ← tree
  let (inner, kind, default?) := match t.kind id with
    | .parameter (.optional inner kind _ default?) => (inner, kind, default?)
    | _ => (id, ParameterKind.required, none)
  match t.kind inner with
  | .parameter (.simple keyword? _ name) => declare name keyword? false kind default?
  | .parameter (.field keyword? _ _ _ name) => declare name keyword? true kind default?
  | _ => return
where
  declare (name : NodeId) (keyword? : Option TokenId) (isInitializing : Bool)
      (kind : ParameterKind) (default? : Option NodeId) : Declaring Unit := do
    default?.forM (walk · owner)
    let modifiers := { ← variableModifiers keyword? with isInitializing }
    let id ← addNamed .parameter name owner
    update id fun e => { e with parameterKind? := some kind, modifiers }
    enterLocal name

def parameters (walk : Walk) (list? : Option NodeId) (owner : ElementId) : Declaring Unit := do
  match list?.map (← tree).kind with
  | some (.parameterList _ ps _ _ _) => ps.forM (parameter walk owner)
  | _ => return

/-- The parameters and body of a function, in a block of their own. -/
def closure (walk : Walk) (id : NodeId) (owner : ElementId) : Declaring Unit := do
  match (← tree).kind id with
  | .expression (.closure parameters? body) =>
    inBlock do
      parameters walk parameters? owner
      walk body owner
  | _ => return

/-- The declarations below a node, down to a given depth. -/
def walkTo : Nat → Walk
  | 0, _, _ => return
  | depth + 1, id, parent => do
    let walk := walkTo depth
    let t ← tree
    match t.kind id with
    | .statement (.block _ statements _) => inBlock (statements.forM (walk · parent))
    | .variableList keyword? _ nodes =>
      let modifiers ← variableModifiers keyword?
      nodes.forM fun node => do
        match t.kind node with
        | .variable name _ initializer? =>
          initializer?.forM (walk · parent)
          declareLocal name modifiers parent
        | _ => return
    | .declaration (.functionDecl _ _ _ _ name function) =>
      let function' ← addNamed .function name parent
      enterLocal name
      closure walk function function'
    | .expression (.closure ..) =>
      let function ← add .function "" (t.offset id) parent
      closure walk id function
    | .statement (.forLoop ..) | .statement (.switch ..) =>
      inBlock ((t.children id).forM (walk · parent))
    | .statement (.forEach _ _ loopVariable _ iterator _ body) =>
      walk iterator parent
      inBlock do
        match t.kind loopVariable with
        | .declaredIdentifier keyword? _ name =>
          declareLocal name (← variableModifiers keyword?) parent
        | _ => pure ()
        walk body parent
    | .catchClause _ _ _ _ exception? _ trace? _ body =>
      inBlock do
        (exception?.toList ++ trace?.toList).forM (declareLocal · {} parent)
        walk body parent
    | .label name _ => discard (addNamed .label name parent)
    | .expression (.named _ expression) => walk expression parent
    | _ => (t.children id).forM (walk · parent)

/-- The declarations below a node. -/
def walk (id : NodeId) (parent : ElementId) : Declaring Unit := do
  walkTo ((← tree).nodes.size + 1) id parent

/-! ## Members -/

/-- The type parameters of `owner`. A class gets its type here, generic or not. -/
def typeParameters (list? : Option NodeId) (owner : ElementId) : Declaring Unit := do
  let t ← tree
  let nodes := match list?.map t.kind with
    | some (.typeParameterList _ nodes _) => nodes
    | _ => []
  let declare (node : NodeId) : StateT (List String) Declaring (Option ElementId) := do
    match t.kind node with
    | .typeParameter name _ _ =>
      let id ← addNamed .typeParameter name owner
      update id fun e => { e with type := .parameter id }
      set (← enter (← get) (t.nameOf name) name)
      return some id
    | _ => return none
  let (ids, _) ← (nodes.filterMapM declare).run []
  update owner fun e =>
    { e with
      type := if e.kind == .classElement then .interface owner (ids.map .parameter) else e.type
      typeParameters := ids }

/-- Fields or top-level variables. What an initializer declares belongs to its variable. -/
def declareVariables (list : NodeId) (kind : Element.Kind) (parent : ElementId) (isStatic : Bool) :
    Declaring Unit := do
  let t ← tree
  match t.kind list with
  | .variableList keyword? _ nodes =>
    let modifiers := { ← variableModifiers keyword? with isStatic }
    nodes.forM fun node => do
      match t.kind node with
      | .variable name _ initializer? =>
        let id ← addNamed kind name parent
        setModifiers id modifiers
        if kind == .field then enterMember (t.nameOf name) name
        else define (t.nameOf name) id name
        initializer?.forM fun initializer => withScopes [] (walk initializer id)
      | _ => return
  | _ => return

def parameterCount (t : Tree) (list? : Option NodeId) : Nat :=
  match list?.map t.kind with
  | some (.parameterList _ nodes _ _ _) => nodes.length
  | _ => 0

def isEmptyBody (t : Tree) (body : NodeId) : Bool :=
  match t.kind body with
  | .functionBody (.emptyBody _) => true
  | _ => false

/-- The name a method goes by: a minus without parameters is the unary one. -/
def methodName (t : Tree) (operator? : Option TokenId) (name : NodeId)
    (parameters? : Option NodeId) : String :=
  let written := t.nameOf name
  if operator?.isSome && written == "-" && parameterCount t parameters? == 0 then "unary-"
  else written

def classMember (owner : ElementId) (id : NodeId) : Declaring Unit := do
  let t ← tree
  match t.kind id with
  | .member (.field _ static? fields _) => declareVariables fields .field owner static?.isSome
  | .member (.method _ external? modifier? _ property? operator? name parameters? body) =>
    let kind ← accessorKind property? .method
    let method ← add kind (methodName t operator? name parameters?) (t.offset name) owner
    let isAbstract ← hasKeyword modifier? .abstractKw
    setModifiers method
      { isStatic := ← hasKeyword modifier? .staticKw
        isAbstract := isAbstract || (isEmptyBody t body && external?.isNone)
        isExternal := external?.isSome }
    enterMember (← lookupName method) name
    withScopes [[]] do
      parameters walk parameters? method
      walk body method
  | .member (.constructor _ external? const? factory? returnType _ name? parameters' _
      initializers body) =>
    let name := (name?.map t.nameOf).getD ""
    let constructor ← add .constructor name (t.offset (name?.getD returnType)) owner
    setModifiers constructor
      { isFactory := factory?.isSome, isConst := const?.isSome, isExternal := external?.isSome }
    if (← get).constructors.contains name then reportDuplicate (name?.getD returnType)
    else modify fun s => { s with constructors := name :: s.constructors }
    withScopes [[]] do
      parameters walk (some parameters') constructor
      initializers.forM (walk · constructor)
      walk body constructor
  | _ => return

/-! ## Top level -/

/-- A class without constructors has an unnamed one. -/
def defaultConstructor (owner : ElementId) : Declaring Unit := do
  if (← get).constructors.isEmpty then
    let e : Element :=
      { kind := .constructor, name := "", enclosing? := some owner
        source? := some (← read).source, modifiers := { isImplicit := true } }
    modify fun s => { s with library := (s.library.add e).2 }

def declaration (unit : ElementId) (id : NodeId) : Declaring Unit := do
  let t ← tree
  match t.kind id with
  | .declaration (.classDecl _ abstract? _ name typeParameters? _ _ _ _ members _) =>
    let owner ← addNamed .classElement name unit
    setModifiers owner { isAbstract := abstract?.isSome }
    define (t.nameOf name) owner name
    typeParameters typeParameters? owner
    modify fun s => { s with members := [], constructors := [] }
    members.forM (classMember owner)
    defaultConstructor owner
  | .declaration (.typeAlias _ _ _ name typeParameters? parameters' _) =>
    let aliased ← addNamed .typeAlias name unit
    define (t.nameOf name) aliased name
    typeParameters typeParameters? aliased
    withScopes [[]] (parameters walk (some parameters') aliased)
  | .declaration (.functionDecl _ external? _ property? name function) =>
    let function' ← addNamed (← accessorKind property? .function) name unit
    setModifiers function' { isExternal := external?.isSome }
    define (← lookupName function') function' name
    withScopes [] (closure walk function function')
  | .declaration (.variablesDecl _ list _) => declareVariables list .topLevelVariable unit false
  | _ => return

/-- The filters that the combinators of a directive write. -/
def filters (t : Tree) (combinators : List NodeId) : List NameFilter :=
  combinators.filterMap fun c =>
    match t.kind c with
    | .combinator (.showing _ names) => some (.only (names.map t.nameOf))
    | .combinator (.hiding _ names) => some (.except (names.map t.nameOf))
    | _ => none

/-- The element of the name that qualifies an import; imports share it by name. -/
def qualifier (unit : ElementId) (name : NodeId) : Declaring ElementId := do
  let written := (← tree).nameOf name
  let known := (← get).library.entries.find? fun (_, e) =>
    e.kind == .importQualifier && e.name == written
  match known with
  | some (id, _) => return id
  | none => addNamed .importQualifier name unit

def directive (unit : ElementId) (id : NodeId) : Declaring Unit := do
  let t ← tree
  let source := (← read).source
  match t.kind id with
  | .directive (.library _ _ name _) =>
    update (← get).library.self fun e => { e with name := t.nameOf name }
  | .directive (.importing _ _ uri _ qualifier? combinators _) =>
    let uri := (t.stringValue? uri).getD ""
    let qualifier? ← qualifier?.mapM (qualifier unit)
    let imported : Import :=
      { uri, source? := source.resolve? uri, qualifier?, filters := filters t combinators }
    modify fun s =>
      { s with library := { s.library with imports := s.library.imports ++ [imported] } }
  | .directive (.exporting _ _ uri combinators _) =>
    let uri := (t.stringValue? uri).getD ""
    let exported : Export :=
      { uri, source? := source.resolve? uri, filters := filters t combinators }
    modify fun s =>
      { s with library := { s.library with exports := s.library.exports ++ [exported] } }
  | _ => return

/-- All of a unit; only the defining one has directives that count. -/
def unit (isDefining : Bool) : Declaring Unit := do
  let t ← tree
  let source := (← read).source
  let s ← get
  let (id, library) := s.library.add
    { kind := .unit, name := source.shortName, enclosing? := some s.library.self
      source? := some source }
  set { s with library }
  if isDefining then t.directives.forM (directive id)
  t.declarations.forM (declaration id)

end Declare

/-- The library that units make, the defining one first. -/
def Library.ofUnits (id : LibraryId) (units : List LibraryUnit) : Library :=
  let start : Declare.State :=
    { library := .empty id "", members := [], constructors := [], scopes := []
      errors := #[] }
  let declareAll : StateM Declare.State Unit :=
    units.zipIdx.forM fun (u, index) => (Declare.unit (index == 0)).run u
  let (_, final) := declareAll start
  { final.library with id, errors := final.errors.toList }

end DartAnalysis
