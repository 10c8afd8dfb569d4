/-
  Outlines: what of a library is settled before its declared types are filled in. Filling them in
  keeps the outline of every library (`typedLibrary_outline`), and whatever the core types are
  found by is part of it (`CoreTypes.ofLibrary_eq`).
-/
import DartAnalysis.Program.Closure

namespace DartAnalysis

/-! ## Elements and libraries -/

/-- An element without its declared types. -/
def Element.outline (e : Element) : Element :=
  { e with type := .dynamic, supertype? := none, interfaces := [], mixins := [], bound? := none }

theorem Element.kind_eq_of_outline {e f : Element} (h : e.outline = f.outline) : e.kind = f.kind :=
  show e.outline.kind = f.outline.kind by rw [h]

theorem Element.typeParameters_eq_of_outline {e f : Element} (h : e.outline = f.outline) :
    e.typeParameters = f.typeParameters :=
  show e.outline.typeParameters = f.outline.typeParameters by rw [h]

theorem DeclaredType.Change.outline_apply (c : DeclaredType.Change) (e : Element) :
    (c.apply e).outline = e.outline := by
  cases c <;> rfl

namespace Library

/-- A library without declared types. -/
def outline (l : Library) : Library := { l with elements := l.elements.map Element.outline }

section Outline

variable {k l : Library} (h : k.outline = l.outline)
include h

theorem id_eq_of_outline : k.id = l.id := show k.outline.id = l.outline.id by rw [h]

theorem source_eq_of_outline : k.source = l.source :=
  congrArg LibraryId.source (id_eq_of_outline h)

theorem imports_eq_of_outline : k.imports = l.imports :=
  show k.outline.imports = l.outline.imports by rw [h]

theorem exports_eq_of_outline : k.exports = l.exports :=
  show k.outline.exports = l.outline.exports by rw [h]

theorem defined_eq_of_outline : k.defined = l.defined :=
  show k.outline.defined = l.outline.defined by rw [h]

theorem definitions_eq_of_outline : k.definitions = l.definitions := by
  unfold definitions idAt
  rw [defined_eq_of_outline h, id_eq_of_outline h]

theorem publicNames_eq_of_outline : k.publicNames = l.publicNames := by
  unfold publicNames
  rw [definitions_eq_of_outline h]

theorem dependencies_eq_of_outline : k.dependencies = l.dependencies := by
  unfold dependencies
  rw [imports_eq_of_outline h, exports_eq_of_outline h]

theorem getElem?_eq_of_outline (index : Nat) :
    k.elements[index]?.map Element.outline = l.elements[index]?.map Element.outline := by
  have helements : k.elements.map Element.outline = l.elements.map Element.outline :=
    congrArg Library.elements h
  rw [← Array.getElem?_map, ← Array.getElem?_map, helements]

theorem element?_eq_of_outline (id : ElementId) :
    (k.element? id).map Element.outline = (l.element? id).map Element.outline := by
  cases id with
  | dynamic => rfl
  | error => rfl
  | declared library index =>
    simp only [element?, id_eq_of_outline h]
    split
    · exact getElem?_eq_of_outline h index
    · rfl

/-- What two elements of one outline have in common. -/
theorem map_element?_eq_of_outline {α : Type} (f : Element → α)
    (hf : ∀ e, f e = f e.outline) (id : ElementId) :
    (k.element? id).map f = (l.element? id).map f := by
  have hfactor (o : Option Element) : o.map f = (o.map Element.outline).map f := by
    rw [Option.map_map]
    exact congrArg (o.map ·) (funext hf)
  rw [hfactor, hfactor (l.element? id), element?_eq_of_outline h]

theorem name_element_eq_of_outline (id : ElementId) : (k.element id).name = (l.element id).name := by
  have hname := map_element?_eq_of_outline h Element.name (fun _ => rfl) id
  unfold element
  cases hk : k.element? id <;> cases hl : l.element? id <;> simp_all

theorem class?_eq_of_outline (name : String) : k.class? name = l.class? name := by
  have hkind (id : ElementId) : (k.element? id).any (·.kind == .classElement) =
      (l.element? id).any (·.kind == .classElement) := by
    have hmap := map_element?_eq_of_outline h Element.kind (fun _ => rfl) id
    cases hk : k.element? id <;> cases hl : l.element? id <;> simp_all
  unfold class? definition?
  rw [definitions_eq_of_outline h]
  simp only [hkind]

end Outline

theorem outline_modify (l : Library) (id : ElementId) (f : Element → Element)
    (hf : ∀ e, (f e).outline = e.outline) : (l.modify id f).outline = l.outline := by
  unfold modify
  split
  · split
    · unfold outline
      congr 1
      refine Array.ext_getElem? fun i => ?_
      simp only [Array.getElem?_map, Array.getElem?_modify]
      split <;> cases l.elements[i]? <;> simp [hf]
    · rfl
  · rfl

theorem outline_declareRound (core : CoreTypes)
    (annotations : LibraryUnit → List ElementId → NodeId → StaticType)
    (units : List LibraryUnit) (l : Library) (round : DeclaredType.Round) :
    (l.declareRound core annotations units round).outline = l.outline := by
  unfold declareRound apply
  rw [← Array.foldl_toList]
  generalize Array.toList _ = changes
  induction changes generalizing l with
  | nil => rfl
  | cons change changes ih =>
    rw [List.foldl_cons, ih]
    exact outline_modify l _ _ fun e => change.2.outline_apply e

end Library

/-! ## The core types -/

namespace CoreTypes

variable {k l : Library} (h : k.outline = l.outline)
include h

theorem findClass_eq_of_outline (name : String) : findClass k name = findClass l name := by
  unfold findClass
  rw [Library.class?_eq_of_outline h, Library.source_eq_of_outline h]

theorem findGeneric_eq_of_outline (name : String) (arity : Nat) :
    findGeneric k name arity = findGeneric l name arity := by
  unfold findGeneric
  rw [findClass_eq_of_outline h]
  simp only [Library.map_element?_eq_of_outline h (fun e => e.typeParameters.length) fun _ => rfl]

theorem ofLibrary_eq_of_outline : ofLibrary k = ofLibrary l := by
  unfold ofLibrary
  simp only [findClass_eq_of_outline h, findGeneric_eq_of_outline h]

end CoreTypes

/-! ## Graphs -/

namespace Graph

variable (g : Graph)

theorem source_of_libraryOf? {s : Source} {l : Library} (h : g.libraryOf? s = some l) :
    l.source = s :=
  eq_of_beq (List.find?_some (p := fun k : Library => k.source == s) h)

theorem mem_of_libraryOf? {s : Source} {l : Library} (h : g.libraryOf? s = some l) :
    l ∈ g.libraries :=
  List.mem_of_find?_eq_some h

/-- A library that is put in its place is found there. -/
theorem libraryOf?_put (l : Library) (s : Source) :
    (g.put l).libraryOf? s = (g.libraryOf? s).map fun k => if k.id == l.id then l else k := by
  unfold libraryOf? put
  rw [List.find?_map]
  congr 2
  refine funext fun k => ?_
  simp only [Function.comp]
  split
  · next hid => rw [show l.source = k.source from congrArg LibraryId.source (eq_of_beq hid).symm]
  · rfl

theorem libraryOf?_put_of_ne {g : Graph} {k l : Library} {s : Source} (hk : g.libraryOf? s = some k)
    (hne : k.id ≠ l.id) : (g.put l).libraryOf? s = some k := by
  rw [libraryOf?_put, hk, Option.map_some, if_neg (by simpa using hne)]

theorem libraryOf?_put_self {g : Graph} {k l : Library} {s : Source} (hk : g.libraryOf? s = some k)
    (hid : k.id = l.id) : (g.put l).libraryOf? s = some l := by
  rw [libraryOf?_put, hk, Option.map_some, if_pos (by simpa using hid)]

theorem outline_declareRound (core : CoreTypes) (scope : LibraryScope) (units : List LibraryUnit)
    (l : Library) (round : DeclaredType.Round) :
    (g.declareRound core scope units l round).outline = l.outline :=
  Library.outline_declareRound ..

theorem outline_typedLibrary (core : CoreTypes) (units : List LibraryUnit) (l : Library) :
    (g.typedLibrary core units l).outline = l.outline := by
  have hrounds (rounds : List DeclaredType.Round) (k : Library) :
      (rounds.foldl (g.declareRound core (.ofLibrary g l) units) k).outline = k.outline := by
    induction rounds generalizing k with
    | nil => rfl
    | cons round rounds ih => rw [List.foldl_cons, ih, outline_declareRound]
  exact hrounds _ l

/-- The outlines of the libraries, in order. -/
def outlines : List Library := g.libraries.map Library.outline

/-- Graphs of the same outlines have libraries of the same sources. -/
theorem libraryOf?_outline (s : Source) :
    (g.libraryOf? s).map Library.outline = g.outlines.find? (·.source == s) := by
  unfold outlines libraryOf?
  rw [List.find?_map]
  rfl

theorem outlines_put (l : Library)
    (h : ∀ k ∈ g.libraries, k.id = l.id → k.outline = l.outline) :
    (g.put l).outlines = g.outlines := by
  unfold outlines put
  rw [List.map_map]
  refine List.map_congr_left fun k hk => ?_
  simp only [Function.comp]
  split
  · next hid => exact (h k hk (eq_of_beq hid)).symm
  · rfl

end Graph

end DartAnalysis
