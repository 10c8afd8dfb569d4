/-
  Sources and their texts. An editor's text comes before every other; without one, the first
  resolver that knows the source decides. A text has a stamp, which changes with it.
-/
import DartAnalysis.Program.Failure
import DartAnalysis.Workspace.Disk

namespace DartAnalysis

/-- A text and the stamp it was read at. -/
structure Contents where
  text : String
  stamp : Nat
deriving DecidableEq, Repr

/-- The stamp of every file. Files do not change, and texts of an editor have larger stamps. -/
def Disk.stamp : Nat := 0

/-! ## Files -/

/-- The stamp of the file or directory at a path. -/
def Disk.stampOf (d : Disk) (source : Source) (path : String) : Except ReadError Nat :=
  match d.find path with
  | .file _ | .directory => .ok Disk.stamp
  | .missing => .error (.notFound source)
  | .invalid => .error (.broken path)

/-- The text of the file at a path. -/
def Disk.read (d : Disk) (source : Source) (path : String) : Except ReadError Contents :=
  match d.find path with
  | .file (some text) => .ok ⟨text, Disk.stamp⟩
  | .missing => .error (.notFound source)
  | _ => .error (.broken path)

/-- A path inside a directory; a path from the root stands for itself. -/
def Path.append (directory path : List Char) : List Char :=
  if path.head? = some '/' then path
  else if directory = [] || directory.getLast? = some '/' then directory ++ path
  else directory ++ '/' :: path

/-! ## Resolvers -/

/-- Knows how to address and read one family of sources. -/
inductive Resolver where
  /-- Libraries, in a directory of libraries if there is one. -/
  | libraries (sdk? : Option String)
  | files
  /-- Listed texts, under a URI scheme of their own; a listed source may have no text. -/
  | listed (scheme : String) (texts : List (Source × Option String × Nat))

namespace Resolver

/-- The path of a library below the directory of libraries: `dart:core` is `core/core.dart`, and
    `dart:core/list.dart` is `core/list.dart`. -/
def libraryPath? (sdk : String) (source : Source) : Option String := do
  let rest ← Source.scheme.isPrefixOf? source.fullName.toList
  let library := rest.takeWhile (· ≠ '/')
  let file := match rest.dropWhile (· ≠ '/') with
    | _ :: file => file
    | [] => rest ++ ".dart".toList
  let directory := Path.append (Path.append sdk.toList "lib".toList) library
  return String.ofList (Path.append directory file)

/-- The source that an absolute URI names. -/
def source? (uri : String) : Resolver → Option Source
  | .libraries _ => Source.ofLibraryUri? uri
  | .files =>
    match Source.fileScheme.isPrefixOf? uri.toList with
    | some path => some (.ofPath path)
    | none => if uri.toList.contains ':' then none else some (.ofFile uri)
  | .listed scheme _ => (scheme.toList.isPrefixOf? uri.toList).map .ofPath

/-- The text of a source; none if the source is of another family. -/
def contents? (d : Disk) (source : Source) : Resolver → Option (Except ReadError Contents)
  | .libraries sdk? =>
    if !source.isLibrary then none
    else some (match sdk?.bind (libraryPath? · source) with
      | some path => d.read source path
      | none => .error (.notFound source))
  | .files => source.path?.map (d.read source)
  | .listed _ texts =>
    (texts.lookup source).map fun (text?, stamp) =>
      match text? with
      | some text => .ok ⟨text, stamp⟩
      | none => .error (.notFound source)

/-- The stamp of a source; none if the source is of another family. -/
def stamp? (d : Disk) (source : Source) : Resolver → Option (Except ReadError Nat)
  | .libraries sdk? =>
    if !source.isLibrary then none
    else some (match sdk?.bind (libraryPath? · source) with
      | some path => d.stampOf source path
      | none => .error (.notFound source))
  | .files => source.path?.map (d.stampOf source)
  | r => (r.contents? d source).map fun contents => contents.map (·.stamp)

end Resolver

/-! ## Sources -/

structure Sources where
  disk : Disk := {}
  /-- Asked in order. -/
  resolvers : List Resolver
  /-- Texts that an editor holds. -/
  overlay : List (Source × Contents) := []
  /-- Stamp of the last text that an editor gave. -/
  lastStamp : Nat := 0

namespace Sources

/-- Libraries in a directory, then files. -/
def standard (disk : Disk) (sdk? : Option String) : Sources :=
  { disk, resolvers := [.libraries sdk?, .files] }

variable (s : Sources)

/-- Gives a source the text of an editor, or takes it away. Every text gets a new stamp. -/
def setText (source : Source) (text? : Option String) : Sources :=
  let others := s.overlay.filter (·.1 ≠ source)
  match text? with
  | some text =>
    let stamp := s.lastStamp + 1
    { s with overlay := (source, ⟨text, stamp⟩) :: others, lastStamp := stamp }
  | none => { s with overlay := others }

/-- The source that an absolute URI names. -/
def source? (uri : String) : Option Source := s.resolvers.findSome? (·.source? uri)

/-- The source that a URI names where it is written, in a source or nowhere. -/
def resolve? (containing? : Option Source) (uri : String) : Option Source :=
  match containing? with
  | some source => source.resolve? uri
  | none => s.source? uri

def contents (source : Source) : Except ReadError Contents :=
  match s.overlay.lookup source with
  | some contents => .ok contents
  | none =>
    (s.resolvers.findSome? (·.contents? s.disk source)).getD (.error (.unresolvable source))

/-- The stamp of a source that can be read. -/
def stamp? (source : Source) : Option Nat :=
  match s.overlay.lookup source with
  | some contents => some contents.stamp
  | none => (s.resolvers.findSome? (·.stamp? s.disk source)).bind Except.toOption

def contains (source : Source) : Bool := (s.stamp? source).isSome

end Sources

end DartAnalysis
