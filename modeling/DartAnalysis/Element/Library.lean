/-
  Libraries: the elements of a defining unit and its parts, in order of creation, with what the
  library imports, exports and makes visible. The library itself is the first element.
-/
import DartAnalysis.Diagnostic.Basic
import DartAnalysis.Element.Basic

namespace DartAnalysis

/-! ## Imports and exports -/

/-- A restriction on the names that cross an import or export. -/
inductive NameFilter where
  | only (names : List String)
  | except (names : List String)
deriving DecidableEq, Repr

namespace NameFilter

/-- A setter goes by the name it sets. -/
def baseName (name : String) : String :=
  match name.toList.reverse with
  | '=' :: rest => String.ofList rest.reverse
  | _ => name

def admits (name : String) : NameFilter → Bool
  | .only names => names.contains (baseName name)
  | .except names => !names.contains (baseName name)

/-- Every filter in turn has to let the name through. -/
def admitAll (filters : List NameFilter) (name : String) : Bool := filters.all (admits name)

end NameFilter

structure Import where
  /-- The URI as written. -/
  uri : String
  /-- The defining unit of the library, if the URI names one. -/
  source? : Option Source
  /-- The element of the name that qualifies what is imported. -/
  qualifier? : Option ElementId
  filters : List NameFilter
deriving DecidableEq, Repr

structure Export where
  uri : String
  source? : Option Source
  filters : List NameFilter
deriving DecidableEq, Repr

/-! ## Libraries -/

structure Library where
  id : LibraryId
  elements : Array Element
  imports : List Import := []
  exports : List Export := []
  /-- Top-level names in order of declaration, each once, with the index of what they declare;
      setters as `name=`. -/
  defined : List (String × Nat) := []
  /-- What was wrong with the declarations. -/
  errors : List Diagnostic := []

namespace Library

/-- A library with no declarations yet. -/
def empty (id : LibraryId) (name : String) : Library :=
  { id, elements := #[{ kind := .library, name, source? := some id.source }] }

variable (l : Library)

/-- The defining unit. -/
def source : Source := l.id.source

/-- The id of the element at an index. -/
def idAt (index : Nat) : ElementId := .declared l.id index

/-- The id of the library element itself. -/
def self : ElementId := l.idAt 0

def element? : ElementId → Option Element
  | .declared library index => if library = l.id then l.elements[index]? else none
  | _ => none

/-- The element of an id; an id of another library stands for the error element. -/
def element (id : ElementId) : Element := (l.element? id).getD .error

def name : String := ((l.element? l.self).map (·.name)).getD ""

/-- The elements with their ids, in order of creation. -/
def entries : List (ElementId × Element) :=
  l.elements.toList.zipIdx.map fun (e, index) => (l.idAt index, e)

/-- Changes one element; an id of another library changes nothing. -/
def modify (id : ElementId) (f : Element → Element) : Library :=
  match id with
  | .declared library index =>
    if library = l.id then { l with elements := l.elements.modify index f } else l
  | _ => l

/-- Adds an element at the end of its enclosing element's children. -/
def add (e : Element) : ElementId × Library :=
  let id := l.idAt l.elements.size
  let linked :=
    match e.enclosing? with
    | some parent => l.modify parent fun p => { p with children := p.children ++ [id] }
    | none => l
  (id, { linked with elements := linked.elements.push e })

/-- The units, the defining one first. -/
def units : List ElementId :=
  (l.entries.filter fun (_, e) => e.kind == .unit).map (·.1)

/-- The unit of a source that belongs to the library. -/
def unit? (source : Source) : Option ElementId :=
  (l.entries.find? fun (_, e) => e.kind == .unit && e.source? == some source).map (·.1)

/-- The last element below an index that satisfies `p`. -/
def lastBelow? (p : Element → Bool) : Nat → Option Nat
  | 0 => none
  | index + 1 => if l.elements[index]?.any p then some index else lastBelow? p index

/-- The element that the name at an offset declares; of several the last. -/
def declaredAt? (source : Source) (offset : Nat) : Option ElementId :=
  let declares (e : Element) := e.nameOffset? == some offset && e.source? == some source
  (l.lastBelow? declares l.elements.size).map l.idAt

/-- The top-level names with the ids of what they declare. -/
def definitions : List (String × ElementId) :=
  l.defined.map fun (name, index) => (name, l.idAt index)

def definition? (name : String) : Option ElementId := l.definitions.lookup name

/-- The top-level class of a name. -/
def class? (name : String) : Option ElementId :=
  (l.definition? name).filter fun id => (l.element? id).any (·.kind == .classElement)

/-- Makes a top-level name visible; an id of another library defines nothing. -/
def define (name : String) (id : ElementId) : Library :=
  match id with
  | .declared library index =>
    if library = l.id then { l with defined := l.defined ++ [(name, index)] } else l
  | _ => l

end Library

end DartAnalysis
