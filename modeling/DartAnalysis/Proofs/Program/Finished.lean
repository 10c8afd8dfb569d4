/-
  Programs once their declared types are filled in. Filling them in keeps all outlines, so every
  pending library gets its types from a graph of the gathered outlines, whatever was filled in
  before it (`libraryOf?_declareAll`), and whether a gathered program can be finished depends on
  the outline of its core library alone (`finish_core_congr`).
-/
import DartAnalysis.Proofs.Program.Gathering
import Mathlib.Data.List.Nodup

namespace DartAnalysis

namespace Graph

variable {g h : Graph}

/-! ## Libraries of different sources -/

def Distinct (g : Graph) : Prop := (g.libraries.map Library.source).Nodup

theorem map_source_outlines (g : Graph) :
    g.outlines.map Library.source = g.libraries.map Library.source := by
  unfold outlines
  rw [List.map_map]
  rfl

theorem Distinct.of_outlines (hg : g.Distinct) (hgh : g.outlines = h.outlines) : h.Distinct := by
  unfold Distinct
  rw [← map_source_outlines, ← hgh, map_source_outlines]
  exact hg

theorem Distinct.eq_of_source (hg : g.Distinct) {k l : Library} (hk : k ∈ g.libraries)
    (hl : l ∈ g.libraries) (h : k.source = l.source) : k = l :=
  List.inj_on_of_nodup_map hg hk hl h

theorem Distinct.libraryOf?_eq (hg : g.Distinct) {l : Library} (hl : l ∈ g.libraries) :
    g.libraryOf? l.source = some l := by
  cases hk : g.libraryOf? l.source with
  | none => exact absurd (List.find?_eq_none.1 hk l hl) (by simp)
  | some k =>
    exact congrArg some (hg.eq_of_source (g.mem_of_libraryOf? hk) hl (g.source_of_libraryOf? hk))

theorem agree_of_outlines (hgh : g.outlines = h.outlines) (P : Source → Prop) : Agree P g h :=
  fun s _ => by rw [libraryOf?_outline, libraryOf?_outline, hgh]

/-- Graphs of the same outlines are equal if they have the same library at every source. -/
theorem eq_of_libraryOf?_eq (hg : g.Distinct) (hgh : g.outlines = h.outlines)
    (heq : ∀ s, g.libraryOf? s = h.libraryOf? s) : g = h := by
  have hlength : g.libraries.length = h.libraries.length := by
    simpa [outlines] using congrArg List.length hgh
  have hlibraries : g.libraries = h.libraries := by
    refine List.ext_getElem hlength fun i hi hi' => ?_
    have hsource : g.libraries[i].source = h.libraries[i].source := by
      have houtline : g.outlines[i]? = h.outlines[i]? := by rw [hgh]
      simp only [outlines, List.getElem?_map, List.getElem?_eq_getElem hi,
        List.getElem?_eq_getElem hi', Option.map_some, Option.some.injEq] at houtline
      exact Library.source_eq_of_outline houtline
    have hgi := hg.libraryOf?_eq (List.getElem_mem hi)
    have hhi := (hg.of_outlines hgh).libraryOf?_eq (List.getElem_mem hi')
    rw [heq, hsource, hhi] at hgi
    exact (Option.some.inj hgi).symm
  cases g
  cases h
  exact congrArg Graph.mk hlibraries

/-! ## Filling in declared types -/

variable {core : CoreTypes} {id : LibraryId} {units : List LibraryUnit} {l : Library}

theorem declareTypes_eq (hl : g.libraryOf? id.source = some l) (hid : l.id = id) :
    g.declareTypes core id units = g.put (g.typedLibrary core units l) := by
  unfold declareTypes library?
  rw [hl, Option.filter_some, if_pos (by simpa using hid)]

theorem outlines_declareTypes (hg : g.Distinct) :
    (g.declareTypes core id units).outlines = g.outlines := by
  cases hlibrary : g.library? id with
  | none =>
    unfold declareTypes
    rw [hlibrary]
  | some l =>
    obtain ⟨hl, hid⟩ := Option.filter_eq_some_iff.1 hlibrary
    rw [declareTypes_eq hl (eq_of_beq hid)]
    have houtline := g.outline_typedLibrary core units l
    refine g.outlines_put _ fun k hk hkid => ?_
    rw [houtline, hg.eq_of_source hk (g.mem_of_libraryOf? hl)]
    rw [← Library.source_eq_of_outline houtline]
    exact congrArg LibraryId.source hkid

theorem libraryOf?_declareTypes (hl : g.libraryOf? id.source = some l) (hid : l.id = id) :
    (g.declareTypes core id units).libraryOf? id.source = some (g.typedLibrary core units l) := by
  rw [declareTypes_eq hl hid]
  exact libraryOf?_put_self hl (Library.id_eq_of_outline (g.outline_typedLibrary core units l)).symm

theorem libraryOf?_declareTypes_of_ne {s : Source} (hs : id.source ≠ s) :
    (g.declareTypes core id units).libraryOf? s = g.libraryOf? s := by
  cases hlibrary : g.library? id with
  | none =>
    unfold declareTypes
    rw [hlibrary]
  | some l =>
    obtain ⟨hl, hid⟩ := Option.filter_eq_some_iff.1 hlibrary
    rw [declareTypes_eq hl (eq_of_beq hid)]
    cases hk : g.libraryOf? s with
    | none => rw [libraryOf?_put, hk, Option.map_none]
    | some k =>
      refine libraryOf?_put_of_ne hk fun hkl => hs ?_
      rw [Library.id_eq_of_outline (g.outline_typedLibrary core units l)] at hkl
      rw [← g.source_of_libraryOf? hk, ← eq_of_beq hid, ← hkl]
      rfl

/-- Whatever is filled in, the library of a source keeps its outline. -/
theorem outline_libraryOf?_declareTypes (s : Source) :
    ((g.declareTypes core id units).libraryOf? s).map Library.outline =
      (g.libraryOf? s).map Library.outline := by
  by_cases hs : id.source = s
  · subst hs
    cases hlibrary : g.library? id with
    | none =>
      unfold declareTypes
      rw [hlibrary]
    | some l =>
      obtain ⟨hl, hid⟩ := Option.filter_eq_some_iff.1 hlibrary
      rw [libraryOf?_declareTypes hl (eq_of_beq hid), hl]
      exact congrArg some (g.outline_typedLibrary core units l)
  · rw [libraryOf?_declareTypes_of_ne hs]

section DeclareAll

variable {pending : List (LibraryId × List LibraryUnit)}

theorem declareAll_cons (entry : LibraryId × List LibraryUnit) :
    g.declareAll core (entry :: pending) =
      (g.declareTypes core entry.1 entry.2).declareAll core pending := rfl

theorem outlines_declareAll (hg : g.Distinct) :
    (g.declareAll core pending).outlines = g.outlines := by
  induction pending generalizing g with
  | nil => rfl
  | cons entry pending ih =>
    have hhead : (g.declareTypes core entry.1 entry.2).outlines = g.outlines :=
      outlines_declareTypes hg
    rw [declareAll_cons, ih (hg.of_outlines hhead.symm), hhead]

theorem libraryOf?_declareAll_of_ne {s : Source} (hs : ∀ entry ∈ pending, entry.1.source ≠ s) :
    (g.declareAll core pending).libraryOf? s = g.libraryOf? s := by
  induction pending generalizing g with
  | nil => rfl
  | cons entry pending ih =>
    rw [declareAll_cons, ih fun e he => hs e (List.mem_cons_of_mem _ he),
      libraryOf?_declareTypes_of_ne (hs entry List.mem_cons_self)]

theorem outline_libraryOf?_declareAll (s : Source) :
    ((g.declareAll core pending).libraryOf? s).map Library.outline =
      (g.libraryOf? s).map Library.outline := by
  induction pending generalizing g with
  | nil => rfl
  | cons entry pending ih => rw [declareAll_cons, ih, outline_libraryOf?_declareTypes]

/-- A pending library gets its declared types from a graph that differs from the gathered one in
    the declared types of pending libraries alone. -/
theorem libraryOf?_declareAll (hg : g.Distinct)
    (hpending : (pending.map fun entry => entry.1.source).Nodup) (hmem : (id, units) ∈ pending)
    (hl : g.libraryOf? id.source = some l) (hid : l.id = id) :
    ∃ g' : Graph, g'.outlines = g.outlines ∧ g'.libraryOf? id.source = some l ∧
      (∀ s, (∀ entry ∈ pending, entry.1.source ≠ s) → g'.libraryOf? s = g.libraryOf? s) ∧
      (g.declareAll core pending).libraryOf? id.source = some (g'.typedLibrary core units l) := by
  induction pending generalizing g with
  | nil => cases hmem
  | cons entry pending ih =>
    obtain ⟨hentry, hrest⟩ := List.nodup_cons.1 hpending
    have hne : ∀ e ∈ pending, e.1.source ≠ entry.1.source := fun e he h =>
      hentry (List.mem_map.2 ⟨e, he, h⟩)
    rw [declareAll_cons]
    rcases List.mem_cons.1 hmem with rfl | hmem
    · refine ⟨g, rfl, hl, fun _ _ => rfl, ?_⟩
      rw [libraryOf?_declareAll_of_ne hne]
      exact libraryOf?_declareTypes hl hid
    · have hhead : (g.declareTypes core entry.1 entry.2).outlines = g.outlines :=
        outlines_declareTypes hg
      obtain ⟨g', houtlines, hl', hsame, htyped⟩ := ih (hg.of_outlines hhead.symm) hrest hmem
        ((libraryOf?_declareTypes_of_ne (hne _ hmem).symm).trans hl)
      refine ⟨g', houtlines.trans hhead, hl', fun s hs => ?_, htyped⟩
      rw [hsame s fun e he => hs e (List.mem_cons_of_mem _ he),
        libraryOf?_declareTypes_of_ne (hs entry List.mem_cons_self)]

end DeclareAll

end Graph

namespace Program

variable {p : Provider (Except Failure)} {root : Source} {s : Gathering}

/-! ## Gathered graphs -/

theorem Gathered.libraryOf? (hp : p.Sound) (hs : Gathered p root s) {source : Source}
    (hsource : source ∈ s.visited) : s.graph.libraryOf? source = p.libraryAt? source := by
  have hat {k : Library} (hk : k ∈ s.graph.libraries) : p.libraryAt? k.source = some k := by
    rw [hs.libraries] at hk
    obtain ⟨x, -, hx⟩ := List.mem_filterMap.1 hk
    rw [hp.source_eq hx, hx]
  cases hk : s.graph.libraryOf? source with
  | some k =>
    rw [← s.graph.source_of_libraryOf? hk]
    exact (hat (s.graph.mem_of_libraryOf? hk)).symm
  | none =>
    cases hl : p.libraryAt? source with
    | none => rfl
    | some l =>
      have hmem : l ∈ s.graph.libraries := by
        rw [hs.libraries]
        exact List.mem_filterMap.2 ⟨source, List.mem_reverse.2 hsource, hl⟩
      refine absurd (List.find?_eq_none.1 hk l hmem) ?_
      simp [hp.source_eq hl]

theorem Gathered.mem_visited (hp : p.Sound) (hs : Gathered p root s) {source : Source} {l : Library}
    (hl : s.graph.libraryOf? source = some l) : source ∈ s.visited := by
  have hmem := s.graph.mem_of_libraryOf? hl
  rw [hs.libraries] at hmem
  obtain ⟨x, hx, hxl⟩ := List.mem_filterMap.1 hmem
  rw [← s.graph.source_of_libraryOf? hl, hp.source_eq hxl]
  exact List.mem_reverse.1 hx

/-- What a list of different keys leads to goes by different keys. -/
theorem nodup_map_filterMap {α β : Type} {xs : List β} {key : β → Source}
    (hxs : (xs.map key).Nodup) (f : β → Option α) (source : α → Source)
    (hf : ∀ x a, f x = some a → source a = key x) : ((xs.filterMap f).map source).Nodup := by
  induction xs with
  | nil => exact List.nodup_nil
  | cons x xs ih =>
    obtain ⟨hx, hxs⟩ := List.nodup_cons.1 hxs
    cases ha : f x with
    | none =>
      rw [List.filterMap_cons_none ha]
      exact ih hxs
    | some a =>
      rw [List.filterMap_cons_some ha, List.map_cons]
      refine List.nodup_cons.2 ⟨fun hmem => hx ?_, ih hxs⟩
      obtain ⟨b, hb, hab⟩ := List.mem_map.1 hmem
      obtain ⟨y, hy, hyb⟩ := List.mem_filterMap.1 hb
      rw [← hf x a ha, ← hab, hf y b hyb]
      exact List.mem_map_of_mem hy

theorem Gathered.nodup_reached (hs : Gathered p root s) :
    (s.visited.reverse.map fun source => source).Nodup := by
  rw [List.map_id']
  exact List.nodup_reverse.2 hs.nodup

theorem Gathered.distinct (hp : p.Sound) (hs : Gathered p root s) : s.graph.Distinct := by
  unfold Graph.Distinct
  rw [hs.libraries]
  exact nodup_map_filterMap hs.nodup_reached _ _ fun _ _ => hp.source_eq

theorem pendingAt?_eq_some {source : Source} {entry : LibraryId × List LibraryUnit}
    (h : p.pendingAt? source = some entry) :
    ∃ l, find p source = .ok (.built l entry.2) ∧ l.id = entry.1 ∧ entry.1.source = source := by
  unfold Provider.pendingAt? at h
  cases hfind : find p source with
  | error failure =>
    rw [hfind] at h
    cases h
  | ok found =>
    rw [hfind] at h
    cases found with
    | built l units =>
      cases h
      obtain ⟨-, -, edition, rfl⟩ := Provider.find_built hfind
      exact ⟨_, rfl, rfl, rfl⟩
    | _ => cases h

theorem Gathered.nodup_pending (hs : Gathered p root s) :
    (s.pending.reverse.map fun entry => entry.1.source).Nodup := by
  rw [List.map_reverse, List.nodup_reverse, hs.pending]
  refine nodup_map_filterMap hs.nodup_reached _ _ fun x entry hx => ?_
  obtain ⟨l, -, -, hsource⟩ := pendingAt?_eq_some hx
  exact hsource

theorem Gathered.mem_pending (hs : Gathered p root s) {entry : LibraryId × List LibraryUnit}
    (h : entry ∈ s.pending) : entry.1.source ∈ s.visited ∧
      ∃ l, find p entry.1.source = .ok (.built l entry.2) ∧ l.id = entry.1 := by
  rw [hs.pending] at h
  obtain ⟨x, hx, hentry⟩ := List.mem_filterMap.1 h
  obtain ⟨l, hfind, hid, rfl⟩ := pendingAt?_eq_some hentry
  exact ⟨List.mem_reverse.1 hx, l, hfind, hid⟩

theorem Gathered.pending_of_built (hs : Gathered p root s) {source : Source}
    (hsource : source ∈ s.visited) {l : Library} {units : List LibraryUnit}
    (hfind : find p source = .ok (.built l units)) : (l.id, units) ∈ s.pending := by
  rw [hs.pending]
  exact List.mem_filterMap.2 ⟨source, List.mem_reverse.2 hsource,
    Provider.pendingAt?_of_find hfind⟩

/-! ## Finishing -/

theorem finish_eq_ok {q : Program} (h : finish s = .ok q) :
    ∃ l, s.graph.libraryOf? .core = some l ∧ CoreTypes.ofLibrary l = .ok q.core ∧
      q.graph = s.graph.declareAll q.core s.pending.reverse ∧
      q.built = (s.pending.filterMap fun entry => q.graph.library? entry.1) ∧
      q.nonLibraries = s.nonLibraries := by
  unfold finish at h
  split at h
  · cases h
  · next l hl =>
    split at h
    · cases h
    · next core hcore =>
      cases h
      exact ⟨l, hl, hcore, rfl, rfl, rfl⟩

section Finish

variable (hp : p.Sound) (hs : Gathered p root s) {q : Program} (hq : finish s = .ok q)
include hp hs hq

theorem outlines_finish : q.graph.outlines = s.graph.outlines := by
  obtain ⟨-, -, -, hgraph, -, -⟩ := finish_eq_ok hq
  rw [hgraph, Graph.outlines_declareAll (hs.distinct hp)]

theorem libraryOf?_finish_eq_none {source : Source} (h : s.graph.libraryOf? source = none) :
    q.graph.libraryOf? source = none := by
  have hmap := Graph.agree_of_outlines (outlines_finish hp hs hq) (fun _ => True) source trivial
  rw [h] at hmap
  exact Option.map_eq_none_iff.1 hmap

/-- What was not built stays as it was found. -/
theorem libraryOf?_finish_of_not_pending {source : Source} (hsource : source ∈ s.visited)
    (h : ∀ entry ∈ s.pending.reverse, entry.1.source ≠ source) :
    q.graph.libraryOf? source = p.libraryAt? source := by
  obtain ⟨-, -, -, hgraph, -, -⟩ := finish_eq_ok hq
  rw [hgraph, Graph.libraryOf?_declareAll_of_ne h, hs.libraryOf? hp hsource]

end Finish

/-- Programs whose core libraries have one outline are finished with the same core types, or fail
    for the same reason. -/
theorem finish_core_congr {s s' : Gathering}
    (h : (s.graph.libraryOf? .core).map Library.outline =
      (s'.graph.libraryOf? .core).map Library.outline) :
    (finish s).map Program.core = (finish s').map Program.core := by
  unfold finish
  cases hl : s.graph.libraryOf? .core with
  | none =>
    rw [hl] at h
    rw [Option.map_eq_none_iff.1 h.symm]
  | some l =>
    rw [hl] at h
    obtain ⟨l', hl', hll'⟩ := Option.map_eq_some_iff.1 h.symm
    rw [hl']
    dsimp only
    rw [CoreTypes.ofLibrary_eq_of_outline hll']
    cases CoreTypes.ofLibrary l <;> rfl

end Program

end DartAnalysis
