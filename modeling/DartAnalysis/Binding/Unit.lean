/-
  Resolved units: a unit whose nodes have their elements and types, with everything that is wrong
  with it.
-/
import DartAnalysis.Binding.Walk
import DartAnalysis.Flow.Hint
import DartAnalysis.Program.Closure

namespace DartAnalysis

/-- What is computed for a unit. -/
structure Options where
  hints : Bool := true
  /-- Whether the bodies of functions are resolved too. -/
  bodies : Bool := true
  /-- The directory of the files behind library URIs. -/
  sdk? : Option String := none
  /-- How many problems of a source are shown. -/
  maxErrors? : Option Nat := none
deriving DecidableEq, Repr

structure ResolvedUnit where
  unit : LibraryUnit
  library : LibraryId
  annotations : Annotations
  /-- The problems of declarations, of resolution and, if asked for, of flow. -/
  errors : List Diagnostic
  graph : Graph
  core : CoreTypes

namespace ResolvedUnit

variable (u : ResolvedUnit)

def tree : Tree := u.unit.tree

def element? (node : NodeId) : Option ElementId := u.annotations.element? node

def type? (node : NodeId) : Option StaticType := u.annotations.type? node

end ResolvedUnit

/-- Resolves a unit of a library of the program. -/
def Program.resolve (p : Program) (options : Options) (library : Source) (unit : LibraryUnit) :
    Except Failure ResolvedUnit :=
  match p.graph.libraryOf? library with
  | none => .error (.notALibrary library)
  | some l =>
    if (l.unit? unit.source).isNone then .error (.notAPartOf unit.source library)
    else
      let env : Binding.Env :=
        { unit, graph := p.graph, core := p.core, library := l, scope := .ofLibrary p.graph l
          nonLibraries := p.nonLibraries, bodies := options.bodies }
      let start : Binding.State :=
        { frames := [{}], annotations := .blank unit.tree.nodes.size, inferred := []
          errors := #[] }
      let (_, final) := Binding.resolve env start
      if final.endless then .error .exhausted
      else
        let hints := if options.hints then Hint.ofTree unit.tree unit.source else []
        .ok {
          unit, library := l.id, annotations := final.annotations
          errors := Diagnostic.inSource unit.source l.errors ++ final.errors.toList ++ hints
          graph := p.graph, core := p.core }

end DartAnalysis
