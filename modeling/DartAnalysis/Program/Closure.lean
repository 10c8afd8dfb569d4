/-
  Programs: a library with every library it reaches through imports and exports, and the core
  library. Libraries that exist already are used as they are; the others are built from their
  units, and get their declared types once all elements are there.
-/
import DartAnalysis.Program.DeclaredType
import DartAnalysis.Program.Failure

namespace DartAnalysis

/-- Whether a unit is a part of some library. -/
def Tree.isPart (t : Tree) : Bool :=
  t.directives.any fun d =>
    match t.kind d with
    | .directive (.partOf ..) => true
    | _ => false

/-- The sources of the parts that a unit names. -/
def Tree.partSources (t : Tree) (source : Source) : List Source :=
  t.directives.filterMap fun d =>
    match t.kind d with
    | .directive (.part _ _ uri _) => (t.stringValue? uri).bind source.resolve?
    | _ => none

/-- The sources that a library imports, then those that it exports. -/
def Library.dependencies (l : Library) : List Source :=
  l.imports.filterMap (·.source?) ++ l.exports.filterMap (·.source?)

/-- A library and all it depends on. -/
structure Program where
  graph : Graph
  core : CoreTypes
  /-- The libraries that were built for it. -/
  built : List Library
  /-- Sources that were to be libraries and are parts. -/
  nonLibraries : List Source

/-- Where libraries come from. -/
structure Provider (m : Type → Type) where
  /-- The tree of a source, if there is such a source. -/
  unit? : Source → m (Option Tree)
  /-- A library that exists already. -/
  library? : Source → m (Option Library)
  /-- The edition of a library that is built now. -/
  edition : m Nat
  /-- How many libraries a program has room for: a bound for gathering, and none of programs. -/
  room : Nat

namespace Program

/-- What a source turns out to be. -/
inductive Found where
  /-- A library that exists already. -/
  | known (l : Library)
  /-- A library just built from its units, without declared types. -/
  | built (l : Library) (units : List LibraryUnit)
  | part
  | absent

namespace Found

def library? : Found → Option Library
  | .known l | .built l _ => some l
  | .part | .absent => none

/-- The library that needs its declared types, with its units. -/
def pending? : Found → Option (LibraryId × List LibraryUnit)
  | .built l units => some (l.id, units)
  | .known _ | .part | .absent => none

def isPart : Found → Bool
  | .part => true
  | .known _ | .built .. | .absent => false

/-- Why a program cannot do with this at a source. The core library has to be there, and the root
    cannot be a part; any other source may be missing or a part. -/
def failure? (root source : Source) : Found → Option Failure
  | .known _ | .built .. => none
  | .part => if source = root then some (.notALibrary source) else none
  | .absent => if source = .core then some .missingCore else none

end Found

section Find

variable {m : Type → Type} [Monad m] (provider : Provider m)

/-- The parts of a library that exist. -/
def parts (t : Tree) (source : Source) : m (List LibraryUnit) :=
  (t.partSources source).filterMapM fun part =>
    return (← provider.unit? part).map fun tree => ⟨part, tree⟩

def find (source : Source) : m Found := do
  match ← provider.library? source with
  | some l => return .known l
  | none =>
    match ← provider.unit? source with
    | none => return .absent
    | some t =>
      if t.isPart then return .part
      else
        let units := ⟨source, t⟩ :: (← parts provider t source)
        return .built (.ofUnits ⟨source, ← provider.edition⟩ units) units

end Find

/-- A program while its libraries are gathered. -/
structure Gathering where
  graph : Graph := {}
  /-- Latest first. -/
  visited : List Source := []
  nonLibraries : List Source := []
  /-- The libraries that were built and lack their declared types, in order of discovery. -/
  pending : List (LibraryId × List LibraryUnit) := []

/-- Takes in what a source turned out to be. -/
def Gathering.enter (root source : Source) (found : Found) (s : Gathering) :
    Except Failure Gathering :=
  match found.failure? root source with
  | some failure => .error failure
  | none => .ok {
      graph := match found.library? with
        | some l => s.graph.insert l
        | none => s.graph
      visited := source :: s.visited
      nonLibraries := if found.isPart then s.nonLibraries ++ [source] else s.nonLibraries
      pending := s.pending ++ found.pending?.toList }

/-- The program of the gathered libraries. Declared types are filled in from the last library to
    the first: what a library imports was found after it. -/
def finish (s : Gathering) : Except Failure Program :=
  match s.graph.libraryOf? .core with
  | none => .error .missingCore
  | some l =>
    match CoreTypes.ofLibrary l with
    | .error defect => .error (.defectiveCore defect)
    | .ok core =>
      let graph := s.graph.declareAll core s.pending.reverse
      .ok {
        graph, core
        built := s.pending.filterMap fun (id, _) => graph.library? id
        nonLibraries := s.nonLibraries }

section Gather

variable {m : Type → Type} [Monad m] [MonadExceptOf Failure m] (provider : Provider m)

/-- Goes through a queue of sources and what they depend on. The budget is used up by libraries; if
    there are finitely many, one that does for them makes no difference. -/
def gather (root : Source) (budget : Nat) (queue : List Source) (s : Gathering) : m Gathering :=
  match queue with
  | [] => return s
  | source :: rest =>
    if s.visited.contains source then gather root budget rest s
    else do
      let found ← find provider source
      let s ← MonadExcept.ofExcept (s.enter root source found)
      match found.library?, budget with
      | none, budget => gather root budget rest s
      | some _, 0 => throw .exhausted
      | some l, budget + 1 => gather root budget (rest ++ l.dependencies) s
termination_by (budget, queue.length)

/-- The program of a root library. -/
def ofRoot (root : Source) : m Program := do
  MonadExcept.ofExcept (finish (← gather provider root provider.room [root, .core] {}))

end Gather

end Program

end DartAnalysis
