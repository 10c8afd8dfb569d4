/-
  The libraries that one resolution sees. Elements are found by id across libraries, and the
  hierarchy of classes is walked nearest first; a class is met once, so that a cyclic hierarchy
  ends.
-/
import DartAnalysis.Element.Library

namespace DartAnalysis

/-! ## Breadth-first search -/

section Search

variable {α κ : Type} [BEq κ] (key : α → κ)

/-- The items whose key was not seen before, the first of each key. -/
def unseen (seen : List κ) : List α → List α
  | [] => []
  | x :: xs =>
    if seen.contains (key x) then unseen seen xs else x :: unseen (seen ++ [key x]) xs

/-- What is found from a queue of items in at most a given number of steps, nearest first. Each key
    is found once. -/
def search (next : α → List α) : Nat → List α → List κ → List α
  | 0, _, _ => []
  | _, [], _ => []
  | steps + 1, x :: queue, seen =>
    let found := unseen key seen (next x)
    found ++ search next steps (queue ++ found) (seen ++ found.map key)

end Search

/-! ## Graphs -/

/-- Libraries; no two have the same defining unit. -/
structure Graph where
  libraries : List Library := []

namespace Graph

variable (g : Graph)

/-- Adds a library in place of one with the same defining unit. -/
def insert (l : Library) : Graph :=
  ⟨g.libraries.filter (fun k => k.source != l.source) ++ [l]⟩

/-- The library whose defining unit is `source`. -/
def libraryOf? (source : Source) : Option Library := g.libraries.find? (·.source == source)

def library? (id : LibraryId) : Option Library := (g.libraryOf? id.source).filter (·.id == id)

/-- Puts a library in the place of the one with its id. -/
def put (l : Library) : Graph := ⟨g.libraries.map fun k => if k.id == l.id then l else k⟩

def element? : ElementId → Option Element
  | .dynamic => some .dynamic
  | .error => some .error
  | .declared library index => (g.library? library).bind (·.elements[index]?)

/-- The element of an id; an id that the graph does not know stands for the error element. -/
def element (id : ElementId) : Element := (g.element? id).getD .error

def kind (id : ElementId) : Element.Kind := (g.element id).kind

def nameOf (id : ElementId) : String := (g.element id).name

/-- How a type is written. -/
def display (t : StaticType) : String := t.display g.nameOf

/-! ## Classes -/

/-- How many supertypes the graph declares, which bounds every walk up the hierarchy. -/
def supertypeCount : Nat :=
  (g.libraries.flatMap fun l => l.elements.toList.flatMap Element.supertypes).length

/-- The classes that a class directly extends, mixes in or implements. -/
def superclasses (id : ElementId) : List ElementId :=
  (g.element id).supertypes.filterMap StaticType.class?

/-- The classes that a class inherits from, nearest first, without the class itself. -/
def allSuperclasses (id : ElementId) : List ElementId :=
  search (fun c => c) g.superclasses (g.supertypeCount + 1) [id] [id]

/-- The member that a class itself declares under a name; setters go by `name=`. -/
def declaredMember? (owner : ElementId) (name : String) : Option ElementId :=
  (g.element owner).children.find? fun id =>
    let member := g.element id
    member.kind != .constructor && member.kind != .typeParameter && member.lookupName == name

/-- The setter that a class itself declares, or its writable field of that name. -/
def declaredSetter? (owner : ElementId) (name : String) : Option ElementId :=
  g.declaredMember? owner (name ++ "=") <|>
    (g.declaredMember? owner name).filter fun id => (g.element id).isWritableField

/-- The member of a class or of the nearest class it inherits from. -/
def member? (owner : ElementId) (name : String) : Option ElementId :=
  (owner :: g.allSuperclasses owner).findSome? (g.declaredMember? · name)

/-- The setter or writable field of a class or of the nearest class it inherits from. -/
def setter? (owner : ElementId) (name : String) : Option ElementId :=
  (owner :: g.allSuperclasses owner).findSome? (g.declaredSetter? · name)

/-- The constructor of a name, empty for the unnamed one; constructors are not inherited. -/
def constructor? (owner : ElementId) (name : String) : Option ElementId :=
  (g.element owner).children.find? fun id =>
    let member := g.element id
    member.kind == .constructor && member.name == name

end Graph

/-- A library by itself. -/
def Library.alone (l : Library) : Graph := ⟨[l]⟩

end DartAnalysis
