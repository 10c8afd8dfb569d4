/-
  Declared types are local, up to type aliases. What an annotation means depends on the kinds of the
  elements that its names stand for and on their number of type parameters, which are part of the
  outline of their library, and for a type alias on its declared type, which is not
  (`read_eq_of_looks`). So where a library names no alias of another library, or only such whose
  declared types were there before (`KeepsAliases`), its declared types are the same in all graphs
  that agree on what it reaches (`typedLibrary_eq_of_agree`).
-/
import DartAnalysis.Proofs.Program.Scope

namespace DartAnalysis

/-! ## Annotations -/

/-- What of an element decides what its name means as an annotation. -/
def Element.look (e : Element) : Element.Kind × Nat × Option StaticType :=
  (e.kind, e.typeParameters.length, if e.kind = .typeAlias then some e.type else none)

/-- Elements of one outline look alike unless they are aliases. -/
theorem Element.look_eq_of_outline {e f : Element} (h : e.outline = f.outline)
    (halias : e.kind ≠ .typeAlias) : e.look = f.look := by
  have hkind := kind_eq_of_outline h
  unfold look
  rw [if_neg halias, if_neg (hkind ▸ halias), hkind, typeParameters_eq_of_outline h]

namespace TypeNames

variable {g h : Graph} {scope : LibraryScope} {unit : LibraryUnit}

/-- A type name stands for what is declared around it, or for what it means without that. -/
theorem target_eq_element {names : TypeNames} {local? : String → Option ElementId} {name : NodeId}
    {id : ElementId} (hid : names.target local? name = .element id) :
    (∃ written, local? written = some id) ∨
      names.target (fun _ => none) name = .element id := by
  unfold target at hid ⊢
  dsimp only at hid ⊢
  split at hid
  · next token hname =>
    split at hid
    · cases hid
    · cases hid
    · next hvoid hdynamic =>
      cases hlocal : local? (names.unit.tree.lexeme token) with
      | some e =>
        rw [hlocal] at hid
        cases hid
        exact .inl ⟨_, hlocal⟩
      | none =>
        rw [hlocal] at hid
        exact .inr hid
  · exact .inr hid
  · cases hid

/-- What the names of a scope mean at the top of a unit. -/
theorem target_of_all {names : TypeNames} {Q : ElementId → Prop} (hscope : names.scope.All Q)
    {name : NodeId} {id : ElementId} (hid : names.target (fun _ => none) name = .element id) :
    Q id := by
  unfold target at hid
  dsimp only at hid
  split at hid
  · split at hid
    · cases hid
    · cases hid
    · split at hid
      · next hlookup =>
        cases hid
        exact hscope.lookup? (by simpa using hlookup)
      · cases hid
  · split at hid
    · next hlookup =>
      cases hid
      exact hscope.lookupQualified? hlookup
    · cases hid
  · cases hid

theorem elementType_eq_of_look {name : NodeId} {id : ElementId} (arguments : List StaticType)
    (hlook : (g.element id).look = (h.element id).look) :
    elementType ⟨g, scope, unit⟩ name id arguments = elementType ⟨h, scope, unit⟩ name id arguments := by
  have hkind : (g.element id).kind = (h.element id).kind := congrArg (·.1) hlook
  have hlength : (g.element id).typeParameters.length = (h.element id).typeParameters.length :=
    congrArg (·.2.1) hlook
  unfold elementType
  dsimp only
  rw [hkind, hlength]
  cases hcase : (h.element id).kind with
  | typeAlias =>
    have htype : some (g.element id).type = some (h.element id).type := by
      have := congrArg (·.2.2) hlook
      simpa [Element.look, hkind, hcase] using this
    rw [Option.some.inj htype]
  | _ => rfl

/-- Annotations mean the same in two graphs if all elements named look alike in them. -/
theorem readTo_eq_of_look {local? : String → Option ElementId}
    (hlook : ∀ node name arguments?, unit.tree.kind node = .type name arguments? →
      ∀ id, target ⟨g, scope, unit⟩ local? name = .element id →
        (g.element id).look = (h.element id).look) (depth : Nat) (node : NodeId) :
    readTo ⟨g, scope, unit⟩ local? depth node = readTo ⟨h, scope, unit⟩ local? depth node := by
  induction depth generalizing node with
  | zero => rfl
  | succ depth ih =>
    unfold readTo
    dsimp only
    split
    · next name arguments? hnode =>
      rw [show readTo ⟨g, scope, unit⟩ local? depth = readTo ⟨h, scope, unit⟩ local? depth from
        funext ih]
      refine bind_congr fun arguments => bind_congr fun _ => ?_
      rw [show target ⟨h, scope, unit⟩ local? name = target ⟨g, scope, unit⟩ local? name from rfl]
      cases htarget : target ⟨g, scope, unit⟩ local? name with
      | element id =>
        dsimp only
        rw [elementType_eq_of_look arguments (hlook node name arguments? hnode id htarget)]
      | _ => rfl
    · rfl

end TypeNames

/-! ## Libraries -/

/-- A round depends on what the annotations of its units mean. -/
theorem Library.declareRound_congr {core : CoreTypes} {l : Library} {units : List LibraryUnit}
    {round : DeclaredType.Round}
    {annotations annotations' : LibraryUnit → List ElementId → NodeId → StaticType}
    (h : ∀ unit ∈ units, annotations unit = annotations' unit) :
    l.declareRound core annotations units round = l.declareRound core annotations' units round := by
  refine congrArg (fun sites => l.apply (DeclaredType.changes sites round)) ?_
  refine List.map_congr_left fun unit hunit => ?_
  rw [h unit hunit]

namespace Graph

variable {g h : Graph} {P : Source → Prop}

/-- No annotation of a library names an alias of another library, unless the declared types of that
    one are fixed. -/
def KeepsAliases (g : Graph) (fixed : Source → Prop) (l : Library) (units : List LibraryUnit) :
    Prop :=
  ∀ unit ∈ units, ∀ node name arguments?, unit.tree.kind node = .type name arguments? →
    ∀ library index,
      TypeNames.target ⟨g, .ofLibrary g l, unit⟩ (fun _ => none) name =
        .element (.declared library index) →
      g.kind (.declared library index) = .typeAlias → library = l.id ∨ fixed library.source

theorem element_declared (g : Graph) {l : Library} (hl : g.libraryOf? l.source = some l)
    (index : Nat) : g.element (l.idAt index) = (l.elements[index]?).getD .error := by
  have hid : g.library? l.id = some l := by
    unfold library?
    rw [show g.libraryOf? l.id.source = some l from hl]
    simp
  show ((g.library? l.id).bind (·.elements[index]?)).getD .error = _
  rw [hid, Option.bind_some]

theorem kind_eq_of_agree (hgh : Agree P g h) {s : Source} (hs : P s) {k l : Library}
    (hk : g.libraryOf? s = some k) (hl : h.libraryOf? s = some l) (index : Nat) :
    g.kind (k.idAt index) = h.kind (k.idAt index) := by
  have hkl : k.outline = l.outline := by simpa [hk, hl] using hgh s hs
  obtain rfl : k.source = s := g.source_of_libraryOf? hk
  have hids : k.idAt index = l.idAt index := by
    unfold Library.idAt
    rw [Library.id_eq_of_outline hkl]
  unfold kind
  rw [element_declared _ hk, hids,
    element_declared _ (Library.source_eq_of_outline hkl ▸ hl : h.libraryOf? l.source = some l)]
  have houtline := Library.getElem?_eq_of_outline hkl index
  cases hi : k.elements[index]? <;> cases hj : l.elements[index]? <;> rw [hi, hj] at houtline
  · cases houtline
  · cases houtline
  · exact Element.kind_eq_of_outline (Option.some.inj houtline)

/-- Whether a library keeps to its aliases is settled by the outlines of what it reaches. -/
theorem KeepsAliases.of_agree {fixed : Source → Prop} {l : Library} {units : List LibraryUnit}
    (halias : g.KeepsAliases fixed l units) (hgh : Agree P g h) (hg : g.SelfContained P)
    (hs : P l.source) (hgl : g.libraryOf? l.source = some l)
    (hhl : h.libraryOf? l.source = some l) : h.KeepsAliases fixed l units := by
  intro unit hunit node name arguments? hnode library index htarget hkind
  have hscope : LibraryScope.ofLibrary h l = .ofLibrary g l :=
    (LibraryScope.ofLibrary_eq_of_agree hgh hg hs hgl hhl).symm
  rw [hscope] at htarget
  refine halias unit hunit node name arguments? hnode library index htarget ?_
  obtain ⟨s, m, hsP, hm, i, hid⟩ := @TypeNames.target_of_all
    ⟨h, .ofLibrary g l, unit⟩ _ (LibraryScope.ofLibrary_within hg hs hgl) _ _ htarget
  rcases hgh.cases hsP with ⟨hnone, -⟩ | ⟨_, m', hsome, hm', -⟩
  · rw [hnone] at hm
    cases hm
  · rw [hid] at hkind ⊢
    rw [kind_eq_of_agree hgh hsP hm hm' i]
    exact hkind

/-- What is declared in another library looks the same in graphs that agree, unless it is an alias and
    that library differs. -/
theorem look_eq_of_agree (hgh : Agree P g h) {k m : Library} (hs : P m.source)
    (hm : g.libraryOf? m.source = some m) (hmk : m.id ≠ k.id) (index : Nat)
    (halias : g.kind (m.idAt index) = .typeAlias → g.libraryOf? m.source = h.libraryOf? m.source) :
    ((g.put k).element (m.idAt index)).look = ((h.put k).element (m.idAt index)).look := by
  obtain ⟨m', hm', hmm'⟩ : ∃ m', h.libraryOf? m.source = some m' ∧ m.outline = m'.outline := by
    rcases hgh.cases hs with ⟨hnone, -⟩ | ⟨_, m', hsome, hm', hmm'⟩
    · rw [hnone] at hm
      cases hm
    · rw [hsome] at hm
      cases hm
      exact ⟨m', hm', hmm'⟩
  have hmid : m.id = m'.id := Library.id_eq_of_outline hmm'
  have hhm : (h.put k).element (m.idAt index) = (m'.elements[index]?).getD .error := by
    rw [show m.idAt index = m'.idAt index by unfold Library.idAt; rw [hmid]]
    refine element_declared _ ?_ index
    rw [← Library.source_eq_of_outline hmm']
    exact libraryOf?_put_of_ne hm' (hmid ▸ hmk)
  rw [element_declared _ (libraryOf?_put_of_ne hm hmk) index, hhm]
  have houtline := Library.getElem?_eq_of_outline hmm' index
  cases he : m.elements[index]? with
  | none =>
    rw [he] at houtline
    rw [Option.map_eq_none_iff.1 houtline.symm]
  | some e =>
    rw [he] at houtline
    obtain ⟨e', he', hee'⟩ := Option.map_eq_some_iff.1 houtline.symm
    rw [he']
    by_cases hkind : e.kind = .typeAlias
    · have hsame := halias (by unfold kind; rw [element_declared _ hm, he]; exact hkind)
      rw [hm, hm'] at hsame
      cases hsame
      cases he.symm.trans he'
      rfl
    · exact Element.look_eq_of_outline hee'.symm hkind

section Typed

variable {l : Library} {units : List LibraryUnit} {fixed : Source → Prop}
  (hgh : Agree P g h) (hg : g.SelfContained P) (hs : P l.source)
  (hgl : g.libraryOf? l.source = some l) (hhl : h.libraryOf? l.source = some l)
  (hfixed : ∀ s, P s → fixed s → g.libraryOf? s = h.libraryOf? s)
  (halias : g.KeepsAliases fixed l units)
include hgh hg hs hgl hhl hfixed halias

theorem annotations_eq_of_agree {k : Library} (hk : k.outline = l.outline) {unit : LibraryUnit}
    (hunit : unit ∈ units) :
    (g.put k).annotations (.ofLibrary g l) k unit =
      (h.put k).annotations (.ofLibrary h l) k unit := by
  have hid : k.id = l.id := Library.id_eq_of_outline hk
  have hgk : (g.put k).libraryOf? k.source = some k :=
    libraryOf?_put_self (Library.source_eq_of_outline hk ▸ hgl) hid.symm
  have hhk : (h.put k).libraryOf? k.source = some k :=
    libraryOf?_put_self (Library.source_eq_of_outline hk ▸ hhl) hid.symm
  have hown (index : Nat) :
      (g.put k).element (k.idAt index) = (h.put k).element (k.idAt index) := by
    rw [element_declared _ hgk, element_declared _ hhk]
  have hscope : LibraryScope.ofLibrary g l = .ofLibrary h l :=
    LibraryScope.ofLibrary_eq_of_agree hgh hg hs hgl hhl
  funext typeParameters node
  unfold annotations TypeNames.read
  rw [← hscope]
  dsimp only
  rw [TypeNames.readTo_eq_of_look]
  intro node name arguments? hnode id htarget
  rcases TypeNames.target_eq_element htarget with ⟨written, hlocal⟩ | htop
  · have hsome : (k.element? id).any (·.name == written) :=
      List.find?_some (p := fun id => (k.element? id).any (·.name == written)) hlocal
    cases id with
    | dynamic => rfl
    | error => rfl
    | declared library index =>
      simp only [Library.element?] at hsome
      split at hsome
      · next hlibrary =>
        subst hlibrary
        exact congrArg Element.look (hown index)
      · simp at hsome
  · obtain ⟨s, m, hsP, hm, index, rfl⟩ := @TypeNames.target_of_all
      ⟨g.put k, .ofLibrary g l, unit⟩ _ (LibraryScope.ofLibrary_within hg hs hgl) _ _ htop
    obtain rfl : m.source = s := g.source_of_libraryOf? hm
    by_cases hmk : m.id = k.id
    · rw [show m.idAt index = k.idAt index by unfold Library.idAt; rw [hmk]]
      exact congrArg Element.look (hown index)
    · refine look_eq_of_agree hgh hsP hm hmk index fun hkind => ?_
      refine hfixed m.source hsP ?_
      refine (halias unit hunit node name arguments? hnode m.id index htop hkind).resolve_left ?_
      exact fun hml => hmk (hml.trans hid.symm)

theorem declareRound_eq_of_agree {core : CoreTypes} {k : Library} (hk : k.outline = l.outline)
    (round : DeclaredType.Round) :
    g.declareRound core (.ofLibrary g l) units k round =
      h.declareRound core (.ofLibrary h l) units k round :=
  Library.declareRound_congr fun _ hunit =>
    annotations_eq_of_agree hgh hg hs hgl hhl hfixed halias hk hunit

/-- A library that keeps to its aliases has the same declared types in graphs that agree on what it
    reaches. -/
theorem typedLibrary_eq_of_agree (core : CoreTypes) :
    g.typedLibrary core units l = h.typedLibrary core units l := by
  have hrounds (rounds : List DeclaredType.Round) (k : Library) (hk : k.outline = l.outline) :
      rounds.foldl (g.declareRound core (.ofLibrary g l) units) k =
        rounds.foldl (h.declareRound core (.ofLibrary h l) units) k := by
    induction rounds generalizing k with
    | nil => rw [List.foldl_nil, List.foldl_nil]
    | cons round rounds ih =>
      rw [List.foldl_cons, List.foldl_cons,
        declareRound_eq_of_agree hgh hg hs hgl hhl hfixed halias hk]
      exact ih _ ((h.outline_declareRound ..).trans hk)
  exact hrounds _ l rfl

end Typed

end Graph

end DartAnalysis
