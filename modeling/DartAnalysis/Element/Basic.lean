/-
  Elements: what a library declares, from the library itself down to labels. An element knows the
  element around it and those inside it by id.
-/
import DartAnalysis.Source
import DartAnalysis.StaticType.Basic
import DartAnalysis.Tree.Field

namespace DartAnalysis

inductive Element.Kind where
  | library
  | unit
  | classElement
  | constructor
  | method
  | getter
  | setter
  | field
  | topLevelVariable
  | function
  | localVariable
  | parameter
  | typeAlias
  | typeParameter
  | label
  | importQualifier
  | dynamic
  | error
deriving DecidableEq, Repr

namespace Element.Kind

def name : Element.Kind → String
  | .library => "Library"
  | .unit => "CompilationUnit"
  | .classElement => "Class"
  | .constructor => "Constructor"
  | .method => "Method"
  | .getter => "Getter"
  | .setter => "Setter"
  | .field => "Field"
  | .topLevelVariable => "TopLevelVariable"
  | .function => "Function"
  | .localVariable => "LocalVariable"
  | .parameter => "Parameter"
  | .typeAlias => "TypeAlias"
  | .typeParameter => "TypeParameter"
  | .label => "Label"
  | .importQualifier => "ImportPrefix"
  | .dynamic => "Dynamic"
  | .error => "Error"

def isExecutable : Element.Kind → Bool
  | .constructor | .method | .getter | .setter | .function => true
  | _ => false

def isVariable : Element.Kind → Bool
  | .field | .topLevelVariable | .localVariable | .parameter => true
  | _ => false

/-- Whether the element can be used as a type annotation. -/
def isType : Element.Kind → Bool
  | .classElement | .typeAlias | .typeParameter | .dynamic => true
  | _ => false

end Element.Kind

structure Modifiers where
  isStatic : Bool := false
  isAbstract : Bool := false
  isFinal : Bool := false
  isConst : Bool := false
  isExternal : Bool := false
  isFactory : Bool := false
  /-- Declared by nothing in the text, as a default constructor is. -/
  isImplicit : Bool := false
  /-- A constructor parameter that assigns a field. -/
  isInitializing : Bool := false
deriving DecidableEq, Repr

structure Element where
  kind : Element.Kind
  /-- Empty for unnamed constructors and functions; an operator method goes by its operator, the
      unary minus by `unary-`. -/
  name : String
  enclosing? : Option ElementId := none
  source? : Option Source := none
  /-- Where the declaring name stands, if it stands in a text. -/
  nameOffset? : Option Nat := none
  modifiers : Modifiers := {}
  /-- The declared type: that of a variable, the function type of an executable, a class applied to
      its own type parameters, a type parameter itself. -/
  type : StaticType := .dynamic
  /-- The elements declared directly inside, in order of declaration. -/
  children : List ElementId := []
  typeParameters : List ElementId := []
  /-- The superclass; only the root class has none. -/
  supertype? : Option StaticType := none
  interfaces : List StaticType := []
  mixins : List StaticType := []
  /-- The bound of a type parameter. -/
  bound? : Option StaticType := none
  parameterKind? : Option ParameterKind := none
deriving DecidableEq, Repr

namespace Element

/-- What the element is looked up by: a setter's name ends in `=`. -/
def lookupName (e : Element) : String :=
  match e.kind with
  | .setter => e.name ++ "="
  | _ => e.name

def isPrivate (e : Element) : Bool := e.name.startsWith "_"

/-- A field that can be assigned. -/
def isWritableField (e : Element) : Bool :=
  e.kind == .field && !e.modifiers.isFinal && !e.modifiers.isConst

/-- The declared supertypes in the order in which members are looked up: the mixin applied last
    comes first, interfaces come last. -/
def supertypes (e : Element) : List StaticType :=
  e.mixins.reverse ++ e.supertype?.toList ++ e.interfaces

/-- The element of the type `dynamic`. -/
def dynamic : Element := { kind := .dynamic, name := "dynamic" }

/-- Stands in for whatever could not be resolved. -/
def error : Element := { kind := .error, name := "<error>", type := .error }

instance : Inhabited Element := ⟨error⟩

end Element

end DartAnalysis
