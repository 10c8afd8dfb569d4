/-
  A directory of files. A path is followed segment by segment from the directory: every segment but
  the last has to be a directory, and nothing is known of what lies outside, except that the
  directories above are there.
-/
import DartAnalysis.Source

namespace DartAnalysis

/-- The segments of a path, innermost first. -/
abbrev Disk.Place := List (List Char)

/-- Files and directories by place; a file whose bytes are no text has none. -/
structure Disk where
  files : List (Disk.Place × Option String) := []
  /-- Those below the directory itself. -/
  directories : List Disk.Place := []

namespace Disk

def segments (path : List Char) : List (List Char) := Text.split (· == '/') path

/-- A segment that stays in a directory or goes up from it, and names nothing in it. -/
def isStep (segment : List Char) : Bool :=
  segment = [] || segment = ['.'] || segment = ['.', '.']

/-- What a path leads to. -/
inductive Target where
  | file (text? : Option String)
  | directory
  | missing
  /-- The path runs through a file, or is no path at all. -/
  | invalid
deriving DecidableEq, Repr

/-- The longest name of a file, in bytes. -/
def maxName : Nat := 255

/-- The longest path, in bytes. -/
def maxPath : Nat := 4095

/-- Whether a text can be a path at all. -/
def isPath (path : List Char) : Bool := !path.contains '\x00' && Text.byteSize path ≤ maxPath

/-! ## Following paths -/

/-- What a name leads to in a directory. -/
def entry (d : Disk) (place : Place) (name : List Char) : Target :=
  if Text.byteSize name > maxName then .invalid
  else match d.files.lookup (name :: place) with
    | some text? => .file text?
    | none => if d.directories.contains (name :: place) then .directory else .missing

/-- Follows segments from a directory. -/
def follow (d : Disk) (place : Place) : List (List Char) → Target
  | [] => .directory
  | s :: ss =>
    if isStep s then d.follow (Path.push false place s) ss
    else match d.entry place s with
      | .directory => d.follow (s :: place) ss
      | .file text? => if ss = [] then .file text? else .invalid
      | other => other

/-- What a path leads to. -/
def find (d : Disk) (path : String) : Target :=
  let cs := path.toList
  if !isPath cs then .invalid
  else if cs = [] then .missing
  else if cs.head? = some '/' then
    if (segments cs).all isStep then .directory else .missing
  else d.follow [] (segments cs)

/-! ## Writing files -/

/-- Follows segments from a directory and makes the directories that are missing; none if a file is
    in the way. -/
def makeDirectories? (d : Disk) (place : Place) : List (List Char) → Option (Disk × Place)
  | [] => some (d, place)
  | s :: ss =>
    if isStep s then d.makeDirectories? (Path.push false place s) ss
    else match d.entry place s with
      | .directory => d.makeDirectories? (s :: place) ss
      | .missing =>
        { d with directories := (s :: place) :: d.directories }.makeDirectories? (s :: place) ss
      | .file _ | .invalid => none

/-- Puts a file into a directory; a directory of the same name stays as it is. -/
def put (d : Disk) (place : Place) (name : List Char) (text? : Option String) : Disk :=
  match d.entry place name with
  | .directory | .invalid => d
  | .file _ | .missing => { d with files := (name :: place, text?) :: d.files }

/-- Writes a file at a relative path, with the directories on the way. A path that leads to no place
    for a file changes nothing. -/
def write (d : Disk) (path : String) (text? : Option String) : Disk :=
  let cs := path.toList
  let name := (segments cs).getLast?.getD []
  if !isPath cs || cs.head? = some '/' || isStep name then d
  else match d.makeDirectories? [] (segments cs).dropLast with
    | some (d, place) => d.put place name text?
    | none => d

/-- A directory with the given files, written in order. -/
def ofFiles (files : List (String × Option String)) : Disk :=
  files.foldl (fun d (path, text?) => d.write path text?) {}

end Disk

end DartAnalysis
