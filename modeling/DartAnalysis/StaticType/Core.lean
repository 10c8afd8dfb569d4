/-
  The core classes that typing relies on, found by name in a core library.
-/
import DartAnalysis.Element.Library

namespace DartAnalysis

structure CoreTypes where
  objectClass : ElementId
  boolClass : ElementId
  numClass : ElementId
  intClass : ElementId
  doubleClass : ElementId
  stringClass : ElementId
  stackTraceClass : ElementId
  typeClass : ElementId
  listClass : ElementId
  mapClass : ElementId
deriving DecidableEq, Repr

namespace CoreTypes

/-- Why a library cannot serve as the core library. -/
inductive Defect where
  | missingClass (library : Source) (name : String)
  | wrongArity (name : String) (declared expected : Nat)
deriving DecidableEq, Repr

def Defect.message : Defect → String
  | .missingClass library name =>
    library.fullName ++ " does not declare class `" ++ name ++ "`"
  | .wrongArity name declared expected =>
    "`" ++ name ++ "` declares " ++ toString declared ++ " type parameters, expected " ++
      toString expected

def findClass (core : Library) (name : String) : Except Defect ElementId :=
  match core.class? name with
  | some id => .ok id
  | none => .error (.missingClass core.source name)

/-- A class with a given number of type parameters. -/
def findGeneric (core : Library) (name : String) (arity : Nat) : Except Defect ElementId := do
  let id ← findClass core name
  let declared := ((core.element? id).map (·.typeParameters.length)).getD 0
  if declared = arity then return id else throw (.wrongArity name declared arity)

/-- The core classes of a library; the first defect counts. -/
def ofLibrary (core : Library) : Except Defect CoreTypes := do
  return {
    objectClass := ← findClass core "Object"
    boolClass := ← findClass core "bool"
    numClass := ← findClass core "num"
    intClass := ← findClass core "int"
    doubleClass := ← findClass core "double"
    stringClass := ← findClass core "String"
    stackTraceClass := ← findClass core "StackTrace"
    typeClass := ← findClass core "Type"
    listClass := ← findGeneric core "List" 1
    mapClass := ← findGeneric core "Map" 2 }

variable (c : CoreTypes)

def objectInterface : Interface := ⟨c.objectClass, []⟩

def object : StaticType := .interface c.objectClass []

def bool : StaticType := .interface c.boolClass []

def num : StaticType := .interface c.numClass []

def int : StaticType := .interface c.intClass []

def double : StaticType := .interface c.doubleClass []

def string : StaticType := .interface c.stringClass []

def stackTrace : StaticType := .interface c.stackTraceClass []

def type : StaticType := .interface c.typeClass []

def list (item : StaticType) : StaticType := .interface c.listClass [item]

def map (key value : StaticType) : StaticType := .interface c.mapClass [key, value]

def isObject (t : StaticType) : Bool := t.class? == some c.objectClass

def isBool (t : StaticType) : Bool := t.class? == some c.boolClass

def isInt (t : StaticType) : Bool := t.class? == some c.intClass

def isDouble (t : StaticType) : Bool := t.class? == some c.doubleClass

def isNumeric (t : StaticType) : Bool :=
  t.class? == some c.numClass || c.isInt t || c.isDouble t

end CoreTypes

end DartAnalysis
