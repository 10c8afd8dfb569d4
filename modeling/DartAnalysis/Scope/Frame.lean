/-
  Lexical scopes: the frames around a place in a unit, innermost first. A declaration goes into the
  innermost frame and is seen from there on.
-/
import DartAnalysis.Element.Id

namespace DartAnalysis

structure Frame where
  /-- Latest first. -/
  names : List (String × ElementId) := []
  labels : List (String × ElementId) := []
  /-- The class whose members are visible from this frame. -/
  owner? : Option ElementId := none
  /-- Labels are not visible from inside a function. -/
  isFunction : Bool := false
deriving Repr

/-- Frames, innermost first. -/
abbrev Frames := List Frame

namespace Frames

def define (name : String) (id : ElementId) : Frames → Frames
  | [] => []
  | f :: fs => { f with names := (name, id) :: f.names } :: fs

def defineLabel (name : String) (id : ElementId) : Frames → Frames
  | [] => []
  | f :: fs => { f with labels := (name, id) :: f.labels } :: fs

/-- The nearest meaning of a name; the frame of a class also knows the members that `memberOf?`
    finds, so that inherited members hide what is declared further out. -/
def lookup? (memberOf? : ElementId → String → Option ElementId) (name : String) :
    Frames → Option ElementId
  | [] => none
  | f :: fs =>
    f.names.lookup name <|> f.owner?.bind (memberOf? · name) <|> lookup? memberOf? name fs

/-- The nearest declaration of a name, members of classes aside. -/
def local? (name : String) (fs : Frames) : Option ElementId := fs.lookup? (fun _ _ => none) name

/-- The nearest label of a name in the same function. -/
def label? (name : String) : Frames → Option ElementId
  | [] => none
  | f :: fs => f.labels.lookup name <|> if f.isFunction then none else label? name fs

end Frames

end DartAnalysis
