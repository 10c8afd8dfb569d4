/-
  Locations: names of elements that do not depend on how a library was built. A location lists the
  URI of the library, that of the unit, and the declarations from the outermost to the element.
  What is not unique by name, such as a local variable, also carries its offset.
-/
import DartAnalysis.Element.Library

namespace DartAnalysis

structure Element.Location where
  components : List String
deriving DecidableEq, Repr

namespace Element.Location

/-- Components are written in a row, with semicolons between them. -/
def encode (l : Element.Location) : String := ";".intercalate l.components

def decode (text : String) : Element.Location :=
  ⟨(Text.split (· == ';') text.toList).map String.ofList⟩

def libraryUri? (l : Element.Location) : Option String := l.components.head?

end Element.Location

namespace Library

variable (l : Library)

/-- A name together with where it stands. -/
def placed (e : Element) : String := e.name ++ "@" ++ toString (e.nameOffset?.getD 0)

/-- Whether an element lies inside something other than a unit or class. -/
def isNested (e : Element) : Bool :=
  match e.enclosing?.bind l.element? with
  | some parent => parent.kind != .unit && parent.kind != .classElement
  | none => false

/-- What tells an element from the others beside it. -/
def component (e : Element) : String :=
  match e.kind with
  | .localVariable | .label => placed e
  | .function => if e.name.isEmpty || l.isNested e then placed e else e.name
  | .unit => (e.source?.map Source.uri).getD ""
  | _ => e.lookupName

/-- The components from an element outwards up to the library, in at most `steps` steps. -/
def componentsTo : Nat → ElementId → Option (List String)
  | 0, _ => some []
  | steps + 1, id => do
    let e ← l.element? id
    if e.kind == .library then return []
    match e.enclosing? with
    | some parent => return l.component e :: (← componentsTo steps parent)
    | none => return [l.component e]

/-- The location of an element of the library. -/
def location? (id : ElementId) : Option Element.Location :=
  (l.componentsTo (l.elements.size + 1) id).map fun inner => ⟨l.source.uri :: inner.reverse⟩

/-- The first of some elements that goes by a component. -/
def named? (ids : List ElementId) (component : String) : Option ElementId :=
  ids.find? fun id => (l.element? id).any (l.component · == component)

/-- Follows components inwards from an element. -/
def descend? (id : ElementId) : List String → Option ElementId
  | [] => some id
  | c :: cs => do
    let e ← l.element? id
    descend? (← l.named? e.children c) cs

/-- The element at a location. -/
def find? (location : Element.Location) : Option ElementId :=
  match location.components with
  | [] => none
  | uri :: rest =>
    if uri ≠ l.source.uri then none
    else match rest with
      | [] => some l.self
      | unit :: inner => (l.named? l.units unit).bind (l.descend? · inner)

end Library

end DartAnalysis
