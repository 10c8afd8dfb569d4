/-
  What a library makes visible to others: its own public top-level names and what it exports. A
  library is entered once, at the first export that reaches it, so that cyclic exports end.
-/
import DartAnalysis.Element.Graph

namespace DartAnalysis

/-- Elements by name; each name stands once. -/
abbrev Namespace := List (String × ElementId)

namespace Namespace

/-- Adds a name unless it is there already. -/
def insertNew (ns : Namespace) (entry : String × ElementId) : Namespace :=
  if (ns.lookup entry.1).isSome then ns else ns ++ [entry]

/-- Adds the names that are not there already. -/
def merge (ns more : Namespace) : Namespace := more.foldl insertNew ns

/-- The names that every filter admits. -/
def restrict (ns : Namespace) (filters : List NameFilter) : Namespace :=
  ns.filter fun (name, _) => NameFilter.admitAll filters name

end Namespace

/-- The top-level names that do not begin with an underscore. -/
def Library.publicNames (l : Library) : Namespace :=
  l.definitions.filter fun (name, _) => !name.startsWith "_"

namespace Graph

variable (g : Graph)

/-- The exported names of a library and the libraries entered for them, given those entered before.
    Chains of exports are followed down to a given depth. -/
def exportedTo : Nat → Library → List Source → Namespace × List Source
  | 0, _, entered => ([], entered)
  | depth + 1, l, entered =>
    if entered.contains l.source then ([], entered)
    else l.exports.foldl (fun (names, entered) e =>
      match e.source?.bind g.libraryOf? with
      | some target =>
        let (more, entered) := exportedTo depth target entered
        (names.merge (more.restrict e.filters), entered)
      | none => (names, entered)) (l.publicNames, l.source :: entered)

/-- The names that a library exports. Its own declarations win over those it exports from others,
    and earlier exports over later ones. -/
def exportedNames (l : Library) : Namespace :=
  (g.exportedTo (g.libraries.length + 1) l []).1

end Graph

/-! ## The scope of a library -/

/-- The names visible at the top of every unit of a library. -/
structure LibraryScope where
  names : Namespace
  /-- By qualifier: its element and the names it qualifies. -/
  qualified : List (String × ElementId × Namespace)

namespace LibraryScope

/-- Adds names under a qualifier. -/
def qualify (s : LibraryScope) (qualifier : String) (id : ElementId) (names : Namespace) :
    LibraryScope :=
  if s.qualified.any (·.1 == qualifier) then
    { s with qualified := s.qualified.map fun (q, e, ns) =>
        if q == qualifier then (q, e, ns.merge names) else (q, e, ns) }
  else { s with qualified := s.qualified ++ [(qualifier, id, Namespace.merge [] names)] }

/-- Adds what one import of a library makes visible; an import of no library adds nothing. -/
def addImport (g : Graph) (importer : Library) (s : LibraryScope) (i : Import) : LibraryScope :=
  match i.source?.bind g.libraryOf? with
  | none => s
  | some l =>
    let names := (g.exportedNames l).restrict i.filters
    match i.qualifier? with
    | some q => s.qualify (importer.element q).name q names
    | none => { s with names := s.names.merge names }

/-- The scope of a library: its own names, then the imported ones, then those of the core library
    unless it is imported in so many words. -/
def ofLibrary (g : Graph) (l : Library) : LibraryScope :=
  let s := l.imports.foldl (addImport g l) ⟨l.definitions, []⟩
  if l.imports.any (·.source? == some .core) || l.source == .core then s
  else match g.libraryOf? .core with
    | some core => { s with names := s.names.merge (g.exportedNames core) }
    | none => s

variable (s : LibraryScope)

def lookup? (name : String) : Option ElementId := s.names.lookup name

/-- The element of a qualifier. -/
def qualifier? (name : String) : Option ElementId := (s.qualified.lookup name).map (·.1)

/-- A name behind a qualifier. -/
def lookupQualified? (qualifier name : String) : Option ElementId :=
  (s.qualified.lookup qualifier).bind fun (_, names) => names.lookup name

end LibraryScope

end DartAnalysis
