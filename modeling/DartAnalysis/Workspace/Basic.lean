/-
  Workspaces: sources with what was derived from them. A scan and a tree depend on their own source
  alone and go when it changes. Libraries and resolved units depend on other sources too; they
  belong to the epoch they were made in, and every change starts a new one.
-/
import DartAnalysis.Binding.Unit
import DartAnalysis.Grammar.Nesting
import DartAnalysis.Workspace.Sources

namespace DartAnalysis

/-- A value that counts as long as its epoch lasts. -/
structure Epoched (α : Type) where
  epoch : Nat
  value : α

namespace Epoched

/-- The value, if its epoch is the given one. -/
def at? {α : Type} (e : Epoched α) (epoch : Nat) : Option α :=
  if e.epoch = epoch then some e.value else none

end Epoched

/-- What was derived from a source. -/
structure Entry where
  /-- Stamp of the text that was scanned. -/
  stamp? : Option Nat := none
  scan? : Option Scan := none
  parsed? : Option Parsed := none
  /-- The library that the source defines. -/
  library? : Option (Epoched Library) := none
  /-- The unit as resolved inside a library. -/
  resolved : List (Source × Epoched ResolvedUnit) := []

namespace Entry

def libraryAt? (e : Entry) (epoch : Nat) : Option Library := e.library?.bind (·.at? epoch)

def resolvedAt? (e : Entry) (library : Source) (epoch : Nat) : Option ResolvedUnit :=
  (e.resolved.lookup library).bind (·.at? epoch)

end Entry

structure Workspace where
  options : Options
  sources : Sources
  entries : List (Source × Entry) := []
  /-- Libraries that come from no source and are there for good. -/
  installed : List (Source × Library) := []
  epoch : Nat := 0
  /-- How many libraries a program has room for. -/
  room : Nat := 0x100000000

namespace Workspace

variable (w : Workspace)

def entry (source : Source) : Entry := (w.entries.lookup source).getD {}

/-- Puts an entry in place of that of a source. -/
def setEntry (source : Source) (e : Entry) : Workspace :=
  if w.entries.any (·.1 == source) then
    { w with entries := w.entries.map fun (s, old) => if s == source then (s, e) else (s, old) }
  else { w with entries := w.entries ++ [(source, e)] }

/-- Drops what was derived from a source and starts a new epoch. -/
def invalidate (source : Source) : Workspace :=
  { w.setEntry source {} with epoch := w.epoch + 1 }

/-- Drops what was derived from a source whose text changed since it was scanned. -/
def validate (source : Source) : Workspace :=
  let scanned := (w.entry source).stamp?
  if scanned.isSome && scanned ≠ w.sources.stamp? source then w.invalidate source else w

/-- A library that is installed, or that was made in an epoch. -/
def knownLibrary? (epoch : Nat) (source : Source) : Option Library :=
  w.installed.lookup source <|> (w.entry source).libraryAt? epoch

/-- The libraries that were made in an epoch. -/
def derivedLibraries (epoch : Nat) : List Library :=
  w.entries.filterMap fun (_, e) => e.libraryAt? epoch

def installedLibraries : List Library := w.installed.map (·.2)

/-- Gives a source the text of an editor, or takes it away. What was derived from it is not
    dropped yet. -/
def setText (source : Source) (text? : Option String) : Workspace :=
  { w with sources := w.sources.setText source text? }

/-- Installs a library under a source, which has to be its own. -/
def install (under : Source) (l : Library) : Except Failure Workspace :=
  if l.source ≠ under then .error (.misfiled l.source under)
  else .ok {
    w with
    installed := w.installed.filter (·.1 ≠ under) ++ [(under, l)]
    epoch := w.epoch + 1 }

end Workspace

end DartAnalysis
