/-
  Why a request cannot be answered. Problems in a text are diagnostics and no failures; a request
  fails only if the sources cannot supply what it needs, or if it asks for what is not there. Some
  computations come to no answer at all; these are failures too.
-/
import DartAnalysis.StaticType.Core

namespace DartAnalysis

/-- Why the text of a source cannot be had. -/
inductive ReadError where
  | notFound (source : Source)
  /-- The file is there and cannot be read. -/
  | broken (path : String)
  /-- Nothing knows how to read the source. -/
  | unresolvable (source : Source)
deriving DecidableEq, Repr

namespace ReadError

/-- What is said of a source; a broken file has no words of its own. -/
def message? : ReadError → Option String
  | .notFound source => some (source.fullName ++ " does not exist")
  | .broken _ => none
  | .unresolvable source => some ("no resolver can read " ++ source.fullName)

/-- Whether the source is simply not there. -/
def isAbsence : ReadError → Bool
  | .notFound _ | .unresolvable _ => true
  | .broken _ => false

end ReadError

inductive Failure where
  /-- The core library is neither installed nor readable. -/
  | missingCore
  | unreadable (e : ReadError)
  /-- The core library lacks what typing relies on. -/
  | defectiveCore (defect : CoreTypes.Defect)
  /-- A library was to be installed under another source than its own. -/
  | misfiled (library source : Source)
  /-- A part was used as a library. -/
  | notALibrary (source : Source)
  | notAPartOf (unit library : Source)
  /-- Nothing comes of it: types are compared without end, or there is no room for a library. -/
  | exhausted
deriving DecidableEq, Repr

namespace Failure

/-- What it is called where it is printed. -/
@[match_pattern] abbrev tooManyLibraries : Failure := .exhausted

def malformed (what : String) : String := "malformed bootstrap library: " ++ what

def message? : Failure → Option String
  | .missingCore =>
    some ("the core library `" ++ Source.core.uri ++
      "` is not available; install a bootstrap library or configure an SDK")
  | .unreadable e => e.message?
  | .defectiveCore defect => some (malformed defect.message)
  | .misfiled library source =>
    some (malformed ("library defined by " ++ library.fullName ++ " is recorded under " ++
      source.fullName))
  | .notALibrary source => some (source.fullName ++ " is not a library")
  | .notAPartOf unit library =>
    some (unit.fullName ++ " is not part of the library " ++ library.fullName)
  | .exhausted => none

end Failure

end DartAnalysis
