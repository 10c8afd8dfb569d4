/-
  A minimal core library: the classes that resolution relies on, with the members that literals and
  operators need. It is declared by no text, so its elements have no offsets.
-/
import DartAnalysis.Element.Library

namespace DartAnalysis

namespace CoreLibrary

/-- A library under construction. -/
abbrev Draft := StateM Library

def add (e : Element) : Draft ElementId := fun l => l.add e

def modify (id : ElementId) (f : Element → Element) : Draft Unit := fun l => ((), l.modify id f)

def define (name : String) (id : ElementId) : Draft Unit := fun l => ((), l.define name id)

def element (id : ElementId) : Draft Element := fun l => ((l.element? id).getD .error, l)

/-- An element inside `parent`. -/
def child (parent : ElementId) (kind : Element.Kind) (name : String) (type : StaticType) :
    Draft ElementId :=
  add { kind, name, enclosing? := some parent, source? := some .core, type }

/-- A class with its type parameters. -/
def declareClass (unit : ElementId) (name : String) (parameters : List String)
    (supertype? : Option StaticType) : Draft ElementId := do
  let id ← child unit .classElement name .dynamic
  let ids ← parameters.mapM fun p => do
    let parameter ← child id .typeParameter p .dynamic
    modify parameter fun e => { e with type := .parameter parameter }
    return parameter
  modify id fun e =>
    { e with type := .interface id (ids.map .parameter), typeParameters := ids, supertype? }
  define name id
  return id

/-- An executable with required parameters `p0`, `p1` and so on. -/
def executable (parent : ElementId) (kind : Element.Kind) (name : String) (result : StaticType)
    (parameters : List StaticType) : Draft ElementId := do
  let id ← child parent kind name (.function result parameters [] [])
  parameters.zipIdx.forM fun (type, index) => do
    let parameter ← child id .parameter ("p" ++ toString index) type
    modify parameter fun e => { e with parameterKind? := some .required }
  return id

def method (owner : ElementId) (name : String) (result : StaticType)
    (parameters : List StaticType) : Draft Unit :=
  discard (executable owner .method name result parameters)

/-- Several methods of one signature. -/
def methods (owner : ElementId) (names : List String) (result : StaticType)
    (parameters : List StaticType) : Draft Unit :=
  names.forM fun name => method owner name result parameters

def getter (owner : ElementId) (name : String) (result : StaticType) : Draft Unit :=
  discard (executable owner .getter name result [])

/-- The unnamed constructor of a class. -/
def constructor (owner : ElementId) : Draft ElementId := do
  let id ← executable owner .constructor "" (← element owner).type []
  modify id fun e => { e with modifiers := { e.modifiers with isImplicit := true } }
  return id

def function (unit : ElementId) (name : String) (result : StaticType)
    (parameters : List StaticType) : Draft Unit := do
  define name (← executable unit .function name result parameters)

/-- Gives an executable one more parameter, an optional one. -/
def optional (owner : ElementId) (name : String) (type : StaticType) : Draft Unit := do
  let parameter ← child owner .parameter name type
  modify parameter fun e => { e with parameterKind? := some .positional }
  modify owner fun e =>
    { e with
      type := match e.type with
        | .function result required positional named =>
          .function result required (positional ++ [type]) named
        | other => other
      modifiers := { e.modifiers with isImplicit := false } }

/-- The declarations of the core library. -/
def declarations : Draft Unit := do
  let library := (← get).self
  let unit ← add
    { kind := .unit, name := Source.core.shortName, enclosing? := some library
      source? := some .core }
  let objectClass ← declareClass unit "Object" [] none
  let object := StaticType.interface objectClass []
  let boolClass ← declareClass unit "bool" [] (some object)
  let numClass ← declareClass unit "num" [] (some object)
  let num := StaticType.interface numClass []
  let intClass ← declareClass unit "int" [] (some num)
  let doubleClass ← declareClass unit "double" [] (some num)
  let stringClass ← declareClass unit "String" [] (some object)
  let traceClass ← declareClass unit "StackTrace" [] (some object)
  let typeClass ← declareClass unit "Type" [] (some object)
  let listClass ← declareClass unit "List" ["E"] (some object)
  let mapClass ← declareClass unit "Map" ["K", "V"] (some object)
  let bool := StaticType.interface boolClass []
  let int := StaticType.interface intClass []
  let double := StaticType.interface doubleClass []
  let string := StaticType.interface stringClass []

  method objectClass "==" bool [object]
  method objectClass "toString" string []
  getter objectClass "hashCode" int
  getter objectClass "runtimeType" (.interface typeClass [])

  methods numClass ["+", "-", "*", "%", "~/"] num [num]
  method numClass "/" double [num]
  methods numClass ["<", ">", "<=", ">="] bool [num]
  method numClass "unary-" num []
  method numClass "abs" num []
  method numClass "toInt" int []
  method numClass "toDouble" double []

  methods intClass ["&", "|", "^", "<<", ">>"] int [int]
  method intClass "~" int []
  method intClass "unary-" int []
  getter intClass "isEven" bool

  method doubleClass "round" int []

  method stringClass "+" string [string]
  method stringClass "[]" string [int]
  getter stringClass "length" int
  getter stringClass "isEmpty" bool
  let substring ← executable stringClass .method "substring" string [int]
  optional substring "endIndex" int

  let item := (((← element listClass).typeParameters.map StaticType.parameter)[0]?).getD .dynamic
  getter listClass "length" int
  getter listClass "isEmpty" bool
  method listClass "[]" item [int]
  method listClass "[]=" .void [int, item]
  method listClass "add" .void [item]
  let newList ← constructor listClass
  optional newList "length" int

  let entry := (← element mapClass).typeParameters.map StaticType.parameter
  let key := (entry[0]?).getD .dynamic
  let value := (entry[1]?).getD .dynamic
  getter mapClass "length" int
  getter mapClass "isEmpty" bool
  method mapClass "[]" value [object]
  method mapClass "[]=" .void [key, value]
  method mapClass "containsKey" bool [object]
  discard (constructor mapClass)

  [objectClass, boolClass, numClass, intClass, doubleClass, stringClass, traceClass,
    typeClass].forM fun owner => discard (constructor owner)

  function unit "print" .void [object]
  function unit "identical" bool [object, object]

end CoreLibrary

/-- The minimal core library. -/
def Library.core : Library :=
  (CoreLibrary.declarations (Library.empty ⟨.core, 0⟩ Source.core.uri)).2

end DartAnalysis
