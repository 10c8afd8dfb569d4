/-
  Scopes are local. What a library exports, and what is visible at its top, is settled by the
  outlines of the libraries it reaches, whatever else a graph holds. A set of sources is
  `SelfContained` in a graph if it holds the core library and what its libraries depend on; where two
  graphs `Agree` on such a set, they give every library of the set the same scope
  (`ofLibrary_eq_of_agree`), and its names mean elements of libraries of the set
  (`ofLibrary_within`).
-/
import DartAnalysis.Proofs.Program.Outline

namespace DartAnalysis

theorem countP_lt_of_mem {α : Type} {p q : α → Bool} {xs : List α} (h : ∀ x, p x → q x) {a : α}
    (ha : a ∈ xs) (hp : ¬ p a) (hq : q a) : xs.countP p < xs.countP q := by
  induction ha with
  | head xs =>
    rw [List.countP_cons_of_neg hp, List.countP_cons_of_pos hq]
    exact Nat.lt_succ_of_le (List.countP_mono_left fun x _ => h x)
  | tail b _ ih =>
    rw [List.countP_cons, List.countP_cons]
    by_cases hb : p b
    · rw [if_pos hb, if_pos (h b hb)]
      exact Nat.add_lt_add_right ih 1
    · rw [if_neg hb]
      exact Nat.lt_add_right _ ih

namespace Namespace

theorem mem_insertNew {ns : Namespace} {entry x : String × ElementId}
    (h : x ∈ ns.insertNew entry) : x ∈ ns ∨ x = entry := by
  unfold insertNew at h
  split at h
  · exact .inl h
  · simpa using h

theorem mem_merge {ns more : Namespace} {x : String × ElementId} (h : x ∈ ns.merge more) :
    x ∈ ns ∨ x ∈ more := by
  unfold merge at h
  induction more generalizing ns with
  | nil => exact .inl h
  | cons entry more ih =>
    rcases ih h with h | h
    · rcases mem_insertNew h with h | rfl
      · exact .inl h
      · exact .inr List.mem_cons_self
    · exact .inr (List.mem_cons_of_mem _ h)

theorem mem_restrict {ns : Namespace} {filters : List NameFilter} {x : String × ElementId}
    (h : x ∈ ns.restrict filters) : x ∈ ns :=
  (List.mem_filter.1 h).1

end Namespace

namespace Graph

variable {g h : Graph} {P : Source → Prop}

/-! ## Sets of sources -/

/-- A set of sources that holds what its libraries depend on. -/
structure SelfContained (g : Graph) (P : Source → Prop) : Prop where
  core : P .core
  dependencies : ∀ s l, P s → g.libraryOf? s = some l → ∀ d ∈ l.dependencies, P d

/-- Graphs that have libraries of the same outlines on a set of sources. -/
def Agree (P : Source → Prop) (g h : Graph) : Prop :=
  ∀ s, P s → (g.libraryOf? s).map Library.outline = (h.libraryOf? s).map Library.outline

theorem Agree.symm (hgh : Agree P g h) : Agree P h g := fun s hs => (hgh s hs).symm

theorem Agree.selfContained (hgh : Agree P g h) (hg : g.SelfContained P) : h.SelfContained P := by
  refine ⟨hg.core, fun s l hs hl => ?_⟩
  have houtline := hgh s hs
  rw [hl] at houtline
  obtain ⟨k, hk, hkl⟩ := Option.map_eq_some_iff.1 houtline
  rw [← Library.dependencies_eq_of_outline hkl]
  exact hg.dependencies s k hs hk

/-- A source of the set has no library in either graph, or libraries of one outline. -/
theorem Agree.cases (hgh : Agree P g h) {s : Source} (hs : P s) :
    (g.libraryOf? s = none ∧ h.libraryOf? s = none) ∨
      ∃ k l, g.libraryOf? s = some k ∧ h.libraryOf? s = some l ∧ k.outline = l.outline := by
  have houtline := hgh s hs
  cases hk : g.libraryOf? s <;> cases hl : h.libraryOf? s <;> simp_all

/-- The element of an id that belongs to a library of the set. -/
def Within (g : Graph) (P : Source → Prop) (id : ElementId) : Prop :=
  ∃ s l, P s ∧ g.libraryOf? s = some l ∧ ∃ index, id = l.idAt index

/-! ## Exports -/

/-- How many libraries were not entered yet. -/
def unentered (g : Graph) (entered : List Source) : Nat :=
  g.libraries.countP fun l => !entered.contains l.source

theorem unentered_mono {entered more : List Source} (hmore : entered ⊆ more) :
    g.unentered more ≤ g.unentered entered := by
  refine List.countP_mono_left fun l _ hl => ?_
  simp only [Bool.not_eq_eq_eq_not, Bool.not_true, List.contains_eq_mem, decide_eq_false_iff_not]
    at hl ⊢
  exact fun hentered => hl (hmore hentered)

theorem unentered_cons_lt {l : Library} {entered : List Source} (hl : l ∈ g.libraries)
    (hnew : l.source ∉ entered) : g.unentered (l.source :: entered) < g.unentered entered := by
  refine countP_lt_of_mem (fun k hk => ?_) hl (by simp) (by simpa using hnew)
  simp only [Bool.not_eq_eq_eq_not, Bool.not_true, List.contains_eq_mem, decide_eq_false_iff_not]
    at hk ⊢
  exact fun hentered => hk (List.mem_cons_of_mem _ hentered)

/-- What is exported through one export, added to what was exported before. -/
def exportStep (g : Graph) (depth : Nat) (acc : Namespace × List Source) (e : Export) :
    Namespace × List Source :=
  match e.source?.bind g.libraryOf? with
  | some target =>
    let result := g.exportedTo depth target acc.2
    (acc.1.merge (result.1.restrict e.filters), result.2)
  | none => acc

theorem exportedTo_succ (depth : Nat) (l : Library) (entered : List Source) :
    g.exportedTo (depth + 1) l entered =
      if entered.contains l.source then ([], entered)
      else l.exports.foldl (g.exportStep depth) (l.publicNames, l.source :: entered) := rfl

theorem subset_exportedTo (depth : Nat) (l : Library) (entered : List Source) :
    entered ⊆ (g.exportedTo depth l entered).2 := by
  induction depth generalizing l entered with
  | zero => exact List.Subset.refl _
  | succ depth ih =>
    have hfold (es : List Export) (acc : Namespace × List Source) :
        acc.2 ⊆ (es.foldl (g.exportStep depth) acc).2 := by
      induction es generalizing acc with
      | nil => exact List.Subset.refl _
      | cons e es ih' =>
        refine List.Subset.trans ?_ (ih' _)
        unfold exportStep
        split
        · exact ih _ _
        · exact List.Subset.refl _
    rw [exportedTo_succ]
    split
    · exact List.Subset.refl _
    · exact List.Subset.trans (List.subset_cons_self l.source entered)
        (hfold l.exports (l.publicNames, l.source :: entered))

theorem mem_dependencies_of_export {l : Library} {e : Export} (he : e ∈ l.exports) {s : Source}
    (hs : e.source? = some s) : s ∈ l.dependencies :=
  List.mem_append_right _ (List.mem_filterMap.2 ⟨e, he, hs⟩)

theorem mem_dependencies_of_import {l : Library} {i : Import} (hi : i ∈ l.imports) {s : Source}
    (hs : i.source? = some s) : s ∈ l.dependencies :=
  List.mem_append_left _ (List.mem_filterMap.2 ⟨i, hi, hs⟩)

/-- With steps enough for all libraries that were not entered yet, the exports of a library are the
    same in graphs that agree. -/
theorem exportedTo_eq_of_agree (hgh : Agree P g h) (hg : g.SelfContained P) {d d' : Nat}
    {s : Source} {k l : Library} {entered : List Source} (hs : P s) (hk : g.libraryOf? s = some k)
    (hl : h.libraryOf? s = some l) (hd : g.unentered entered < d) (hd' : h.unentered entered < d') :
    g.exportedTo d k entered = h.exportedTo d' l entered := by
  induction d generalizing d' s k l entered with
  | zero => exact absurd hd (Nat.not_lt_zero _)
  | succ d ih =>
    obtain _ | d' := d'
    · exact absurd hd' (Nat.not_lt_zero _)
    have hkl : k.outline = l.outline := by simpa [hk, hl] using hgh s hs
    rw [exportedTo_succ, exportedTo_succ, Library.source_eq_of_outline hkl,
      Library.publicNames_eq_of_outline hkl, ← Library.exports_eq_of_outline hkl]
    by_cases hentered : entered.contains l.source
    · rw [if_pos hentered, if_pos hentered]
    rw [if_neg hentered, if_neg hentered]
    have hnew : l.source ∉ entered := by simpa using hentered
    -- Entering the library leaves fewer libraries, and entering more never adds any.
    have hless : g.unentered (l.source :: entered) < d := by
      have := unentered_cons_lt (g.mem_of_libraryOf? hk)
        (Library.source_eq_of_outline hkl ▸ hnew)
      rw [Library.source_eq_of_outline hkl] at this
      omega
    have hless' : h.unentered (l.source :: entered) < d' := by
      have := unentered_cons_lt (h.mem_of_libraryOf? hl) hnew
      omega
    have hfold (es : List Export) (hes : ∀ e ∈ es, e ∈ k.exports) (acc : Namespace × List Source)
        (hacc : l.source :: entered ⊆ acc.2) :
        es.foldl (g.exportStep d) acc = es.foldl (h.exportStep d') acc := by
      induction es generalizing acc with
      | nil => rfl
      | cons e es ih' =>
        have hstep : g.exportStep d acc e = h.exportStep d' acc e := by
          unfold exportStep
          cases ht : e.source? with
          | none => rfl
          | some t =>
            have hPt : P t := hg.dependencies s k hs hk t
              (mem_dependencies_of_export (hes e List.mem_cons_self) ht)
            rcases hgh.cases hPt with ⟨hgt, hht⟩ | ⟨k', l', hgt, hht, -⟩
            · simp only [Option.bind_some, hgt, hht]
            · simp only [Option.bind_some, hgt, hht]
              rw [ih hPt hgt hht (Nat.lt_of_le_of_lt (unentered_mono hacc) hless)
                (Nat.lt_of_le_of_lt (unentered_mono hacc) hless')]
        rw [List.foldl_cons, List.foldl_cons, ← hstep]
        refine ih' (fun e' he' => hes e' (List.mem_cons_of_mem _ he')) _ ?_
        unfold exportStep
        split
        · exact List.Subset.trans hacc (subset_exportedTo _ _ _)
        · exact hacc
    exact hfold k.exports (fun e he => he) _ (List.Subset.refl _)

theorem exportedNames_eq_of_agree (hgh : Agree P g h) (hg : g.SelfContained P) {s : Source}
    {k l : Library} (hs : P s) (hk : g.libraryOf? s = some k) (hl : h.libraryOf? s = some l) :
    g.exportedNames k = h.exportedNames l := by
  unfold exportedNames
  rw [exportedTo_eq_of_agree hgh hg hs hk hl (Nat.lt_succ_of_le List.countP_le_length)
    (Nat.lt_succ_of_le List.countP_le_length)]

theorem within_of_mem_definitions {s : Source} {l : Library} (hs : P s)
    (hl : g.libraryOf? s = some l) {x : String × ElementId} (hx : x ∈ l.definitions) :
    g.Within P x.2 := by
  obtain ⟨entry, -, rfl⟩ := List.mem_map.1 hx
  exact ⟨s, l, hs, hl, entry.2, rfl⟩

section Names

variable {Q : ElementId → Prop} (hg : g.SelfContained P)
  (hQ : ∀ s l, P s → g.libraryOf? s = some l → ∀ x ∈ l.definitions, Q x.2)
include hg hQ

/-- Whatever holds of all that is declared holds of all that is exported. -/
theorem all_of_mem_exportedTo {depth : Nat} {s : Source} {l : Library} {entered : List Source} (hs : P s)
    (hl : g.libraryOf? s = some l) : ∀ x ∈ (g.exportedTo depth l entered).1, Q x.2 := by
  induction depth generalizing s l entered with
  | zero => exact nofun
  | succ depth ih =>
    have hfold (es : List Export) (hes : ∀ e ∈ es, e ∈ l.exports) (acc : Namespace × List Source)
        (hacc : ∀ x ∈ acc.1, Q x.2) :
        ∀ x ∈ (es.foldl (g.exportStep depth) acc).1, Q x.2 := by
      induction es generalizing acc with
      | nil => exact hacc
      | cons e es ih' =>
        refine ih' (fun e' he' => hes e' (List.mem_cons_of_mem _ he')) _ ?_
        unfold exportStep
        cases ht : e.source?.bind g.libraryOf? with
        | none => exact hacc
        | some target =>
          obtain ⟨t, hsource, htarget⟩ := Option.bind_eq_some_iff.1 ht
          have hPt : P t := hg.dependencies s l hs hl t
            (mem_dependencies_of_export (hes e List.mem_cons_self) hsource)
          intro x hx
          rcases Namespace.mem_merge hx with hx | hx
          · exact hacc x hx
          · exact ih hPt htarget x (Namespace.mem_restrict hx)
    rw [exportedTo_succ]
    split
    · exact nofun
    · exact hfold l.exports (fun e he => he) _ fun x hx => hQ s l hs hl x (List.mem_filter.1 hx).1

theorem all_of_mem_exportedNames {s : Source} {l : Library} (hs : P s)
    (hl : g.libraryOf? s = some l) : ∀ x ∈ g.exportedNames l, Q x.2 :=
  all_of_mem_exportedTo hg hQ hs hl

end Names

end Graph

/-! ## Scopes -/

theorem mem_of_lookup_eq_some {α β : Type} [BEq α] [LawfulBEq α] {xs : List (α × β)} {a : α} {b : β}
    (h : xs.lookup a = some b) : (a, b) ∈ xs := by
  obtain ⟨l₁, l₂, rfl, -⟩ := List.lookup_eq_some_iff.1 h
  exact List.mem_append_right _ List.mem_cons_self

namespace LibraryScope

variable {g h : Graph} {P : Source → Prop}

theorem addImport_eq_of_agree (hgh : Graph.Agree P g h) (hg : g.SelfContained P) {k l : Library}
    (hkl : k.outline = l.outline) (s : LibraryScope) (i : Import)
    (hi : ∀ t, i.source? = some t → P t) : addImport g k s i = addImport h l s i := by
  unfold addImport
  cases ht : i.source? with
  | none => rfl
  | some t =>
    rcases hgh.cases (hi t ht) with ⟨hgt, hht⟩ | ⟨k', l', hgt, hht, -⟩
    · simp only [Option.bind_some, hgt, hht]
    · simp only [Option.bind_some, hgt, hht,
        Graph.exportedNames_eq_of_agree hgh hg (hi t ht) hgt hht,
        Library.name_element_eq_of_outline hkl]

/-- Graphs that agree on such a set give a library of the set the same scope. -/
theorem ofLibrary_eq_of_agree (hgh : Graph.Agree P g h) (hg : g.SelfContained P) {s : Source}
    {k l : Library} (hs : P s) (hk : g.libraryOf? s = some k) (hl : h.libraryOf? s = some l) :
    ofLibrary g k = ofLibrary h l := by
  have hkl : k.outline = l.outline := by simpa [hk, hl] using hgh s hs
  have himports (is : List Import) (his : ∀ i ∈ is, i ∈ k.imports) (scope : LibraryScope) :
      is.foldl (addImport g k) scope = is.foldl (addImport h l) scope := by
    induction is generalizing scope with
    | nil => rfl
    | cons i is ih =>
      have hi : ∀ t, i.source? = some t → P t := fun t ht => hg.dependencies s k hs hk t
        (Graph.mem_dependencies_of_import (his i List.mem_cons_self) ht)
      rw [List.foldl_cons, List.foldl_cons, addImport_eq_of_agree hgh hg hkl scope i hi]
      exact ih (fun i' hi' => his i' (List.mem_cons_of_mem _ hi')) _
  unfold ofLibrary
  rw [himports k.imports (fun i hi => hi), Library.imports_eq_of_outline hkl,
    Library.definitions_eq_of_outline hkl, Library.source_eq_of_outline hkl]
  rcases hgh.cases hg.core with ⟨hgc, hhc⟩ | ⟨k', l', hgc, hhc, -⟩
  · simp only [hgc, hhc]
  · simp only [hgc, hhc, Graph.exportedNames_eq_of_agree hgh hg hg.core hgc hhc]

/-- All names of a scope mean elements that satisfy `Q`. -/
structure All (Q : ElementId → Prop) (s : LibraryScope) : Prop where
  names : ∀ x ∈ s.names, Q x.2
  qualified : ∀ q ∈ s.qualified, ∀ x ∈ q.2.2, Q x.2

theorem All.merge {Q : ElementId → Prop} {s : LibraryScope} (hs : s.All Q) {more : Namespace}
    (hmore : ∀ x ∈ more, Q x.2) : All Q { s with names := s.names.merge more } := by
  refine ⟨fun x hx => ?_, hs.qualified⟩
  rcases Namespace.mem_merge hx with hx | hx
  · exact hs.names x hx
  · exact hmore x hx

theorem All.qualify {Q : ElementId → Prop} {s : LibraryScope} (hs : s.All Q) {more : Namespace}
    (hmore : ∀ x ∈ more, Q x.2) (qualifier : String) (id : ElementId) :
    (s.qualify qualifier id more).All Q := by
  unfold LibraryScope.qualify
  split
  · refine ⟨hs.names, fun q hq x hx => ?_⟩
    obtain ⟨⟨name, e, ns⟩, hold, rfl⟩ := List.mem_map.1 hq
    dsimp only at hx
    split at hx
    · rcases Namespace.mem_merge hx with hx | hx
      · exact hs.qualified _ hold x hx
      · exact hmore x hx
    · exact hs.qualified _ hold x hx
  · refine ⟨hs.names, fun q hq x hx => ?_⟩
    rcases List.mem_append.1 hq with hq | hq
    · exact hs.qualified q hq x hx
    · obtain rfl := List.mem_singleton.1 hq
      rcases Namespace.mem_merge hx with hx | hx
      · exact absurd hx List.not_mem_nil
      · exact hmore x hx

/-- Whatever holds of all that the libraries of such a set declare holds of all that is in scope. -/
theorem ofLibrary_all {Q : ElementId → Prop} (hg : g.SelfContained P)
    (hQ : ∀ s l, P s → g.libraryOf? s = some l → ∀ x ∈ l.definitions, Q x.2) {s : Source} {l : Library}
    (hs : P s) (hl : g.libraryOf? s = some l) : (ofLibrary g l).All Q := by
  have himports (is : List Import) (his : ∀ i ∈ is, i ∈ l.imports) (scope : LibraryScope)
      (hscope : scope.All Q) : (is.foldl (addImport g l) scope).All Q := by
    induction is generalizing scope with
    | nil => exact hscope
    | cons i is ih =>
      refine ih (fun i' hi' => his i' (List.mem_cons_of_mem _ hi')) _ ?_
      unfold addImport
      cases ht : i.source?.bind g.libraryOf? with
      | none => exact hscope
      | some target =>
        obtain ⟨t, hsource, htarget⟩ := Option.bind_eq_some_iff.1 ht
        have hPt : P t := hg.dependencies s l hs hl t
          (Graph.mem_dependencies_of_import (his i List.mem_cons_self) hsource)
        have hmore : ∀ x ∈ (g.exportedNames target).restrict i.filters, Q x.2 :=
          fun x hx => Graph.all_of_mem_exportedNames hg hQ hPt htarget x (Namespace.mem_restrict hx)
        cases i.qualifier? with
        | none => exact hscope.merge hmore
        | some q => exact hscope.qualify hmore _ q
  have hs' := himports l.imports (fun i hi => hi) ⟨l.definitions, []⟩ ⟨hQ s l hs hl, nofun⟩
  unfold ofLibrary
  dsimp only
  split
  · exact hs'
  · split
    · next core hcore => exact hs'.merge (Graph.all_of_mem_exportedNames hg hQ hg.core hcore)
    · exact hs'

/-- The scope of a library of such a set means elements of libraries of the set. -/
theorem ofLibrary_within (hg : g.SelfContained P) {s : Source} {l : Library} (hs : P s)
    (hl : g.libraryOf? s = some l) : (ofLibrary g l).All (g.Within P) :=
  ofLibrary_all hg (fun _ _ hs hl _ => Graph.within_of_mem_definitions hs hl) hs hl

/-- The qualifiers in scope are those of imports. -/
theorem qualifier_of_mem_qualified {l : Library} {q : String × ElementId × Namespace}
    (hq : q ∈ (ofLibrary g l).qualified) : ∃ i ∈ l.imports, i.qualifier? = some q.2.1 := by
  have hqualify {scope : LibraryScope} {name : String} {id : ElementId} {more : Namespace}
      (h : ∀ q ∈ scope.qualified, ∃ i ∈ l.imports, i.qualifier? = some q.2.1)
      (hid : ∃ i ∈ l.imports, i.qualifier? = some id) :
      ∀ q ∈ (scope.qualify name id more).qualified, ∃ i ∈ l.imports, i.qualifier? = some q.2.1 := by
    intro q hq
    unfold LibraryScope.qualify at hq
    split at hq
    · obtain ⟨q', hold, rfl⟩ := List.mem_map.1 hq
      dsimp only
      split <;> exact h q' hold
    · rcases List.mem_append.1 hq with hq | hq
      · exact h q hq
      · obtain rfl := List.mem_singleton.1 hq
        exact hid
  have himports (is : List Import) (his : ∀ i ∈ is, i ∈ l.imports) (scope : LibraryScope)
      (hscope : ∀ q ∈ scope.qualified, ∃ i ∈ l.imports, i.qualifier? = some q.2.1) :
      ∀ q ∈ (is.foldl (addImport g l) scope).qualified, ∃ i ∈ l.imports, i.qualifier? = some q.2.1 := by
    induction is generalizing scope with
    | nil => exact hscope
    | cons i is ih =>
      refine ih (fun i' hi' => his i' (List.mem_cons_of_mem _ hi')) _ ?_
      unfold addImport
      cases i.source?.bind g.libraryOf? with
      | none => exact hscope
      | some target =>
        cases hqualifier : i.qualifier? with
        | none => exact hscope
        | some q => exact hqualify hscope ⟨i, his i List.mem_cons_self, hqualifier⟩
  refine himports l.imports (fun i hi => hi) ⟨l.definitions, []⟩ nofun q ?_
  unfold ofLibrary at hq
  dsimp only at hq
  split at hq
  · exact hq
  · split at hq <;> exact hq

theorem All.lookup? {Q : ElementId → Prop} {s : LibraryScope} (hs : s.All Q) {name : String}
    {id : ElementId} (h : s.lookup? name = some id) : Q id := by
  unfold LibraryScope.lookup? at h
  exact hs.names (name, id) (mem_of_lookup_eq_some h)

theorem All.lookupQualified? {Q : ElementId → Prop} {s : LibraryScope} (hs : s.All Q)
    {qualifier name : String} {id : ElementId} (h : s.lookupQualified? qualifier name = some id) :
    Q id := by
  obtain ⟨⟨e, names⟩, hq, hname⟩ := Option.bind_eq_some_iff.1 h
  exact hs.qualified (qualifier, e, names) (mem_of_lookup_eq_some hq) (name, id)
    (mem_of_lookup_eq_some hname)

end LibraryScope

end DartAnalysis
