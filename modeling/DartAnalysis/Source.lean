/-
  Source identity. A source names a unit of text and does not hold it: the text comes from a
  provider, so that an editor's copy can stand in for the file on disk. Two sources are the same
  when their kind and full name are the same.

  A full name is a library URI (`dart:core`, `dart:core/list.dart`) or a path in normal form:
  no backslash, no empty or `.` segment, `..` only at the front of a relative path.
-/
import DartAnalysis.Text.Basic

namespace DartAnalysis

/-! ## Paths -/

namespace Path

/-- Both slashes separate segments. -/
def isSeparator (c : Char) : Bool := c == '/' || c == '\\'

/-- The segments of a path, empty ones included: one more than there are separators. -/
def segments (cs : List Char) : List (List Char) := Text.split isSeparator cs

def isAbsolute (cs : List Char) : Bool := cs.head?.any isSeparator

/-- One more segment onto a stack of kept segments, innermost first. A `..` removes the segment
    above it; where there is none it stays in a relative path and is dropped at the root. -/
def push (absolute : Bool) (kept : List (List Char)) (segment : List Char) : List (List Char) :=
  if segment = [] || segment = ['.'] then kept
  else if segment = ['.', '.'] then
    match kept with
    | top :: below => if top ≠ ['.', '.'] then below else segment :: kept
    | [] => if absolute then [] else [segment]
  else segment :: kept

/-- The kept segments of a path in reading order. -/
def normalSegments (cs : List Char) : List (List Char) :=
  ((segments cs).foldl (push (isAbsolute cs)) []).reverse

/-- Segments joined by single slashes. -/
def join : List (List Char) → List Char
  | [] => []
  | [s] => s
  | s :: ss => s ++ '/' :: join ss

/-- The normal form of a path. -/
def normalize (cs : List Char) : List Char :=
  let body := join (normalSegments cs)
  if isAbsolute cs then '/' :: body else body

/-- The part of a path up to and with its last slash, empty if there is none. -/
def directory (cs : List Char) : List Char :=
  (cs.reverse.dropWhile (· ≠ '/')).reverse

/-- The part of a path after its last slash. -/
def fileName (cs : List Char) : List Char :=
  (cs.reverse.takeWhile (· ≠ '/')).reverse

end Path

/-! ## Sources -/

/-- How a source is addressed. -/
inductive Source.Kind where
  | library
  | file
deriving DecidableEq, Repr

structure Source where
  kind : Source.Kind
  fullName : String
deriving DecidableEq, Repr

namespace Source

/-- The scheme of library URIs, with its colon. -/
def scheme : List Char := ['d', 'a', 'r', 't', ':']

/-- The scheme of file URIs. -/
def fileScheme : List Char := ['f', 'i', 'l', 'e', ':', '/', '/']

/-- The file with a given path, in normal form. -/
def ofPath (path : List Char) : Source :=
  ⟨.file, String.ofList (Path.normalize path)⟩

def ofFile (path : String) : Source := ofPath path.toList

/-- The system library called `name`. -/
def ofLibrary (name : String) : Source :=
  ⟨.library, String.ofList (scheme ++ name.toList)⟩

/-- The system library a URI names: the scheme and at least one more character. -/
def ofLibraryUri? (uri : String) : Option Source :=
  match scheme.isPrefixOf? uri.toList with
  | none | some [] => none
  | some _ => some ⟨.library, uri⟩

/-- A library URI names its library, every other text a file. -/
def ofName (name : String) : Source :=
  (ofLibraryUri? name).getD (ofFile name)

def core : Source := ofLibrary "core"

def isLibrary (s : Source) : Bool := s.kind == .library

/-- A library's full name, or the last segment of a file's. -/
def shortName (s : Source) : String :=
  match s.kind with
  | .library => s.fullName
  | .file => String.ofList (Path.fileName s.fullName.toList)

def uri (s : Source) : String :=
  match s.kind with
  | .library => s.fullName
  | .file => String.ofList (fileScheme ++ s.fullName.toList)

/-- The path of a file; a library has none. -/
def path? (s : Source) : Option String :=
  match s.kind with
  | .library => none
  | .file => some s.fullName

/-- The source that a relative reference names inside `s`: a file is looked for beside a file, a
    library keeps the reference inside the library. -/
def relative (s : Source) (uri : List Char) : Source :=
  match s.kind with
  | .file =>
    if uri.head? = some '/' then ofPath uri
    else ofPath (Path.directory s.fullName.toList ++ uri)
  | .library =>
    let owner := s.fullName.toList.takeWhile (· ≠ '/')
    ⟨.library, String.ofList (Path.normalize (owner ++ '/' :: uri))⟩

/-- The source that a URI written inside `s` names. Library URIs name themselves, file URIs a
    path; no other scheme is known, and everything else is relative. -/
def resolve? (s : Source) (uri : String) : Option Source :=
  let cs := uri.toList
  if cs = [] then none
  else if scheme.isPrefixOf cs then ofLibraryUri? uri
  else match fileScheme.isPrefixOf? cs with
    | some path => some (ofPath path)
    | none => if cs.contains ':' then none else some (s.relative cs)

/-- Libraries come before files, and names go by code point. -/
def le (a b : Source) : Bool :=
  match a.kind, b.kind with
  | .library, .file => true
  | .file, .library => false
  | _, _ => !(b.fullName < a.fullName)

end Source

end DartAnalysis
