/-
  Diagnostics: a code placed in a text, with its message filled in. Nothing that reads source
  text fails on it; every problem becomes one of these.
-/
import DartAnalysis.Diagnostic.Code
import DartAnalysis.Source

namespace DartAnalysis

structure Diagnostic where
  code : Diagnostic.Code
  source? : Option Source
  offset : Nat
  length : Nat
  message : String
deriving DecidableEq, Repr

namespace Diagnostic

/-- How hole `n` is written in a message. -/
def hole (n : Nat) : String := "\x7b" ++ toString n ++ "\x7d"

/-- Fills the holes from `n` on, one argument after the other, so that a hole inside an argument
    is filled by a later one. -/
def fill (n : Nat) (message : String) : List String → String
  | [] => message
  | a :: as => fill (n + 1) (message.replace (hole n) a) as

def make (source? : Option Source) (offset length : Nat) (code : Code) (args : List String) :
    Diagnostic :=
  { code, source?, offset, length, message := fill 0 code.template args }

def severity (d : Diagnostic) : Severity := d.code.severity

def family (d : Diagnostic) : Family := d.code.family

def finish (d : Diagnostic) : Nat := d.offset + d.length

/-- Message, code and region on one line. -/
def display (d : Diagnostic) : String :=
  d.message ++ " (" ++ d.code.name ++ ") at " ++ toString d.offset ++ ".." ++ toString d.finish

/-! ## Reports -/

structure Label where
  offset : Nat
  length : Nat
  text : String
deriving DecidableEq, Repr

/-- A diagnostic shown against a text. -/
structure Report where
  message : String
  code : Code
  severity : Severity
  labels : List Label
deriving DecidableEq, Repr

/-- The region of a report is cut to the text. -/
def toReport (d : Diagnostic) (text : String) : Report :=
  let size := text.utf8ByteSize
  let offset := min d.offset size
  { message := d.message, code := d.code, severity := d.severity,
    labels := [⟨offset, min d.length (size - offset), d.family.label⟩] }

/-! ## Collections of diagnostics -/

/-- The diagnostics recorded for one source. -/
def inSource (source : Source) (ds : List Diagnostic) : List Diagnostic :=
  ds.filter (·.source? == some source)

/-- The diagnostics that are at least as serious as `severity`. -/
def atLeast (severity : Severity) (ds : List Diagnostic) : List Diagnostic :=
  ds.filter (severity.rank ≤ ·.severity.rank)

def sortCodes (codes : List Code) : List Code :=
  codes.mergeSort (fun a b => a.rank ≤ b.rank)

/-- The codes in order of declaration, each as often as it occurs. -/
def codes (ds : List Diagnostic) : List Code :=
  sortCodes (ds.map (·.code))

/-- Exactly the expected codes, in any order. -/
def haveCodes (ds : List Diagnostic) (expected : List Code) : Bool :=
  codes ds == sortCodes expected

/-- Exactly the expected severities, in any order. -/
def haveSeverities (ds : List Diagnostic) (expected : List Severity) : Bool :=
  let sort (ss : List Severity) := ss.mergeSort (fun a b => a.rank ≤ b.rank)
  sort (ds.map (·.severity)) == sort expected

end Diagnostic

end DartAnalysis
