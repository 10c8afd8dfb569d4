/-
  Requests to a workspace: scans, trees, libraries, elements and resolved units, with their
  problems. An answer that is at hand is given again; what is new is kept for later.
-/
import DartAnalysis.Element.Location
import DartAnalysis.Workspace.Basic

namespace DartAnalysis

/-- A request to a workspace. What was derived on the way stays, also if the request fails. -/
abbrev Request := ExceptT Failure (StateM Workspace)

namespace Request

def workspace : Request Workspace := get

def epoch : Request Nat := return (← workspace).epoch

def entry (source : Source) : Request Entry := return (← workspace).entry source

def updateEntry (source : Source) (f : Entry → Entry) : Request Unit :=
  modify fun w => w.setEntry source (f (w.entry source))

def validate (source : Source) : Request Unit := modify (·.validate source)

/-! ## Scans and trees -/

def contents (source : Source) : Request Contents := do
  match (← workspace).sources.contents source with
  | .ok contents => return contents
  | .error e => throw (.unreadable e)

def scan (source : Source) : Request Scan := do
  validate source
  match (← entry source).scan? with
  | some scan => return scan
  | none =>
    let contents ← contents source
    let scan := Scan.ofText (some source) contents.text
    updateEntry source fun e => { e with stamp? := some contents.stamp, scan? := some scan }
    return scan

/-- The tree of a source, with the problems of scanning and parsing. -/
def parse (source : Source) : Request Parsed := do
  validate source
  match (← entry source).parsed? with
  | some parsed => return parsed
  | none =>
    let scan ← scan source
    let tree := Parsed.ofScan .unit scan
    let parsed := { tree with errors := scan.errors ++ tree.errors }
    updateEntry source fun e => { e with parsed? := some parsed }
    return parsed

/-! ## Libraries -/

/-- The tree of a source that may be absent. -/
def unit? (source : Source) : Request (Option Tree) :=
  tryCatch (do return some (← parse source).tree) fun
    | .unreadable e => if e.isAbsence then return none else throw (.unreadable e)
    | failure => throw failure

/-- Feeds programs from what was derived in an epoch. -/
def provider (epoch room : Nat) : Provider Request where
  unit? := unit?
  library? source := return (← workspace).knownLibrary? epoch source
  edition := return (← workspace).epoch - epoch
  room := room

/-- The program of a library. The libraries built for it are kept, unless a new epoch began
    meanwhile. -/
def program (root : Source) (epoch : Nat) : Request Program := do
  let p ← Program.ofRoot (provider epoch (← workspace).room) root
  if (← workspace).epoch = epoch then
    p.built.forM fun l => updateEntry l.source fun e => { e with library? := some ⟨epoch, l⟩ }
  return p

/-- The library that a source defines, if the source is there and is no part. -/
def library? (source : Source) : Request (Option Library) := do
  let epoch ← epoch
  match (← workspace).knownLibrary? epoch source with
  | some l => return some l
  | none =>
    match ← unit? source with
    | some t =>
      if t.isPart then return none
      else return (← program source epoch).graph.libraryOf? source
    | none => return none

/-- The library at the start of a location, from the known ones or by its URI. -/
def locatedLibrary? (uri : String) : Request (Option Library) := do
  let w ← workspace
  match (w.installedLibraries ++ w.derivedLibraries w.epoch).find? (·.source.uri == uri) with
  | some l => return some l
  | none =>
    match w.sources.source? uri with
    | some source => tryCatch (library? source) fun _ => return none
    | none => return none

/-- The element at a location. -/
def element? (location : Element.Location) : Request (Option Element) := do
  match location.libraryUri? with
  | none => return none
  | some uri => return (← locatedLibrary? uri).bind fun l => (l.find? location).bind l.element?

/-! ## Units -/

/-- Resolves a unit inside a library. The result is kept, unless a new epoch began meanwhile. -/
def resolve (unit library : Source) : Request ResolvedUnit := do
  validate library
  validate unit
  let epoch ← epoch
  match (← entry unit).resolvedAt? library epoch with
  | some u => return u
  | none =>
    let tree := (← parse unit).tree
    let p ← program library epoch
    match p.resolve (← workspace).options library ⟨unit, tree⟩ with
    | .error failure => throw failure
    | .ok u =>
      if (← workspace).epoch = epoch then
        updateEntry unit fun e =>
          { e with resolved := (library, ⟨epoch, u⟩) :: e.resolved.filter (·.1 ≠ library) }
      return u

/-- A library at hand that a part belongs to. -/
def includingLibrary? (part : Source) : Request (Option Source) := do
  let w ← workspace
  return ((w.derivedLibraries w.epoch ++ w.installedLibraries).find? fun l =>
    (l.unit? part).isSome).map (·.source)

/-- All problems of a source by their offset, up to the number that is asked for. A part is
    resolved inside a library at hand that it belongs to, and not at all if there is none. -/
def errors (source : Source) : Request (List Diagnostic) := do
  let parsed ← parse source
  let library? ←
    if parsed.tree.isPart then includingLibrary? source else pure (some source)
  let resolved ← match library? with
    | some library => pure (← resolve source library).errors
    | none => pure []
  let sorted := (parsed.errors ++ resolved).mergeSort fun a b => a.offset ≤ b.offset
  match (← workspace).options.maxErrors? with
  | some n => return sorted.take n
  | none => return sorted

/-- The problems of a source, shown against its text. -/
def reports (source : Source) : Request (List Diagnostic.Report) := do
  let errors ← errors source
  let contents ← contents source
  return errors.map (·.toReport contents.text)

end Request

end DartAnalysis
