/-
  The order in which declared types are filled in. A library reads the aliases of another one as they
  are at that moment, so what they stand for has to be settled before. Where no library names an alias
  of one whose turn comes later (`AliasesFirst`), the declared types of all are those that their
  annotations have in the finished graph (`typed_in_finished`), and what a library is does not depend
  on the program it is found in (`declaredTypes_settled`). That is so where every library comes after
  those it depends on (`aliasesFirst_of_dependenciesFirst`); the order of discovery does not see to
  it, since a library that is imported twice is found at its first import (`declaredTypes_crossed`).
-/
import Mathlib
import DartAnalysis.Proofs.Program.Reuse

namespace DartAnalysis

/-! ## Scopes and put libraries -/

theorem LibraryScope.ofLibrary_eq_of_outline (g : Graph) {k l : Library}
    (hkl : k.outline = l.outline) : ofLibrary g k = ofLibrary g l := by
  have himports (is : List Import) (scope : LibraryScope) :
      is.foldl (addImport g k) scope = is.foldl (addImport g l) scope := by
    induction is generalizing scope with
    | nil => rfl
    | cons i is ih =>
      rw [List.foldl_cons, List.foldl_cons, ih]
      congr 1
      unfold addImport
      simp only [Library.name_element_eq_of_outline hkl]
  unfold ofLibrary
  rw [himports, Library.imports_eq_of_outline hkl, Library.definitions_eq_of_outline hkl,
    Library.source_eq_of_outline hkl]

namespace Graph

variable {g h : Graph} {core : CoreTypes}

theorem put_put {k l : Library} (hid : k.id = l.id) : (g.put l).put k = g.put k := by
  unfold put
  rw [List.map_map]
  refine congrArg Graph.mk (List.map_congr_left fun m _ => ?_)
  simp only [Function.comp]
  split
  · next hm => rw [if_pos (by simpa using hid.symm), if_pos (hid ▸ hm)]
  · next hm => rfl

theorem libraryOf?_put_replacing {m l : Library} (hm : g.libraryOf? l.source = some m)
    (hid : m.id = l.id) (s : Source) :
    (g.put l).libraryOf? s = if s = l.source then some l else g.libraryOf? s := by
  split
  · next hs => rw [hs, libraryOf?_put_self hm hid]
  · next hs =>
    cases hk : g.libraryOf? s with
    | none => rw [libraryOf?_put, hk, Option.map_none]
    | some k =>
      refine libraryOf?_put_of_ne hk fun hkl => hs ?_
      rw [← g.source_of_libraryOf? hk]
      exact congrArg LibraryId.source hkl

theorem outlines_put_of_libraryOf? (hg : g.Distinct) {m l : Library}
    (hm : g.libraryOf? l.source = some m) (hml : m.outline = l.outline) :
    (g.put l).outlines = g.outlines := by
  refine g.outlines_put l fun k hk hkl => ?_
  have hkm : k = m := hg.eq_of_source hk (g.mem_of_libraryOf? hm)
    ((congrArg LibraryId.source hkl).trans (g.source_of_libraryOf? hm).symm)
  rw [hkm, hml]

/-- While a library gets its declared types it stands in the graph as far as it has got, whatever
    stood there before. -/
theorem typedLibrary_put (hg : g.Distinct) {m l : Library} (hm : g.libraryOf? l.source = some m)
    (hml : m.outline = l.outline) (units : List LibraryUnit) :
    (g.put l).typedLibrary core units l = g.typedLibrary core units l := by
  have hid : m.id = l.id := Library.id_eq_of_outline hml
  have hscope : LibraryScope.ofLibrary (g.put l) l = .ofLibrary g l := by
    rw [LibraryScope.ofLibrary_eq_of_agree (P := fun _ => True)
      (agree_of_outlines (outlines_put_of_libraryOf? hg hm hml) _)
      ⟨trivial, fun _ _ _ _ _ _ => trivial⟩ trivial (libraryOf?_put_self hm hid) hm]
    exact LibraryScope.ofLibrary_eq_of_outline g hml
  have hrounds (rounds : List DeclaredType.Round) (k : Library) (hk : k.outline = l.outline) :
      rounds.foldl ((g.put l).declareRound core (.ofLibrary g l) units) k =
        rounds.foldl (g.declareRound core (.ofLibrary g l) units) k := by
    induction rounds generalizing k with
    | nil => rw [List.foldl_nil, List.foldl_nil]
    | cons round rounds ih =>
      have hround : (g.put l).declareRound core (.ofLibrary g l) units k round =
          g.declareRound core (.ofLibrary g l) units k round := by
        unfold declareRound
        rw [put_put (Library.id_eq_of_outline hk)]
      rw [List.foldl_cons, List.foldl_cons, hround]
      exact ih _ ((g.outline_declareRound ..).trans hk)
  unfold typedLibrary
  rw [hscope]
  exact hrounds _ l rfl

theorem agree_put (hg : g.Distinct) {m l : Library} (hm : g.libraryOf? l.source = some m)
    (hml : m.outline = l.outline) (P : Source → Prop) : Agree P g (g.put l) :=
  agree_of_outlines (outlines_put_of_libraryOf? hg hm hml).symm P

/-- The declared types of a library in two graphs, whatever stands there in its place. -/
theorem typedLibrary_eq_of_replaced {P fixed : Source → Prop} {m m' l : Library}
    {units : List LibraryUnit} (hg : g.Distinct) (hm : g.libraryOf? l.source = some m)
    (hml : m.outline = l.outline) (hh : h.Distinct) (hm' : h.libraryOf? l.source = some m')
    (hml' : m'.outline = l.outline) (hgh : Agree P g h) (hclosed : g.SelfContained P)
    (hl : P l.source)
    (hfixed : ∀ s, P s → fixed s → s ≠ l.source → g.libraryOf? s = h.libraryOf? s)
    (halias : (g.put l).KeepsAliases fixed l units) :
    g.typedLibrary core units l = h.typedLibrary core units l := by
  have hid := Library.id_eq_of_outline hml
  have hid' := Library.id_eq_of_outline hml'
  have hput := agree_put hg hm hml P
  rw [← typedLibrary_put hg hm hml, ← typedLibrary_put hh hm' hml']
  refine typedLibrary_eq_of_agree ?_ (hput.selfContained hclosed) hl
    (libraryOf?_put_self hm hid) (libraryOf?_put_self hm' hid') (fun s hs hsfixed => ?_) halias core
  · exact fun s hs => (hput s hs).symm.trans ((hgh s hs).trans (agree_put hh hm' hml' P s hs))
  · rw [libraryOf?_put_replacing hm hid, libraryOf?_put_replacing hm' hid']
    split
    · rfl
    · next hne => exact hfixed s hs hsfixed hne

/-! ## Orders -/

/-- Libraries with their units, in the order in which they get their declared types. -/
abbrev Order := List (LibraryId × List LibraryUnit)

/-- A source that no library of an order has. -/
def Order.Avoids (order : Order) (source : Source) : Prop := ∀ entry ∈ order, entry.1.source ≠ source

/-- No library names an alias of a library that comes later. -/
def AliasesFirst (g : Graph) : Order → Prop
  | [] => True
  | entry :: later =>
    (∀ l, g.libraryOf? entry.1.source = some l → g.KeepsAliases (Order.Avoids later) l entry.2) ∧
      g.AliasesFirst later

/-- No library depends on one that comes later. -/
def DependenciesFirst (g : Graph) : Order → Prop
  | [] => True
  | entry :: later =>
    (∀ l ∈ g.libraryOf? entry.1.source, ∀ d ∈ l.dependencies, Order.Avoids later d) ∧
      g.DependenciesFirst later

instance (order : Order) (source : Source) : Decidable (order.Avoids source) :=
  inferInstanceAs (Decidable (∀ entry ∈ order, entry.1.source ≠ source))

instance decidableDependenciesFirst (g : Graph) :
    (order : Order) → Decidable (g.DependenciesFirst order)
  | [] => inferInstanceAs (Decidable True)
  | entry :: later =>
    have := decidableDependenciesFirst g later
    inferInstanceAs (Decidable ((∀ l ∈ g.libraryOf? entry.1.source,
      ∀ d ∈ l.dependencies, Order.Avoids later d) ∧ g.DependenciesFirst later))

theorem Order.Avoids.tail {entry : LibraryId × List LibraryUnit} {later : Order} {source : Source}
    (h : Order.Avoids (entry :: later) source) : Order.Avoids later source :=
  fun e he => h e (List.mem_cons_of_mem _ he)

/-- What a library names is found in what it depends on. So aliases come first where dependencies
    do, if what had its declared types from the start depends on nothing else. -/
theorem aliasesFirst_of_dependenciesFirst {order : Order}
    (hnodup : (order.map fun entry => entry.1.source).Nodup)
    (hsettled : g.SelfContained order.Avoids) (hfirst : g.DependenciesFirst order) :
    g.AliasesFirst order := by
  induction order with
  | nil => trivial
  | cons entry later ih =>
    obtain ⟨hentry, hlater⟩ := List.nodup_cons.1 hnodup
    have hself : Order.Avoids later entry.1.source := fun e he heq =>
      hentry (List.mem_map.2 ⟨e, he, heq⟩)
    have hclosed : g.SelfContained (Order.Avoids later) := by
      refine ⟨hsettled.core.tail, fun s k hs hk d hd => ?_⟩
      by_cases hsource : entry.1.source = s
      · exact hfirst.1 k (hsource ▸ hk) d hd
      · refine (hsettled.dependencies s k (fun e he => ?_) hk d hd).tail
        rcases List.mem_cons.1 he with rfl | he
        · exact hsource
        · exact hs e he
    refine ⟨fun l hl unit _ node name arguments? _ library index htarget _ => ?_,
      ih hlater hclosed hfirst.2⟩
    have hsource := g.source_of_libraryOf? hl
    obtain ⟨s, m, hs, hm, i, hid⟩ := @TypeNames.target_of_all ⟨g, .ofLibrary g l, unit⟩ _
      (LibraryScope.ofLibrary_within hclosed (hsource ▸ hself) (hsource ▸ hl)) _ _ htarget
    cases hid
    right
    rw [← g.source_of_libraryOf? hm] at hs
    exact hs

/-- Whether aliases come first is settled by the outlines of the libraries. -/
theorem AliasesFirst.of_outlines {order : Order} (hgh : g.outlines = h.outlines)
    (hsame : ∀ entry ∈ order, g.libraryOf? entry.1.source = h.libraryOf? entry.1.source)
    (hfirst : g.AliasesFirst order) : h.AliasesFirst order := by
  induction order with
  | nil => trivial
  | cons entry later ih =>
    refine ⟨fun l hl => ?_, ih (fun e he => hsame e (List.mem_cons_of_mem _ he)) hfirst.2⟩
    have hgl := (hsame entry List.mem_cons_self).trans hl
    have hsource := g.source_of_libraryOf? hgl
    exact (hfirst.1 l hgl).of_agree (P := fun _ => True) (agree_of_outlines hgh _)
      ⟨trivial, fun _ _ _ _ _ _ => trivial⟩ trivial (hsource ▸ hgl) (hsource ▸ hl)

/-- A library whose aliases come first gets the declared types that its annotations have in the
    finished graph. -/
theorem libraryOf?_declareAll_of_aliasesFirst {order : Order} {id : LibraryId}
    {units : List LibraryUnit} {l : Library} (hg : g.Distinct)
    (hnodup : (order.map fun entry => entry.1.source).Nodup) (hfirst : g.AliasesFirst order)
    (hmem : (id, units) ∈ order) (hl : g.libraryOf? id.source = some l) (hid : l.id = id) :
    (g.declareAll core order).libraryOf? id.source =
      some ((g.declareAll core order).typedLibrary core units l) := by
  induction order generalizing g with
  | nil => cases hmem
  | cons entry later ih =>
    obtain ⟨hentry, hlater⟩ := List.nodup_cons.1 hnodup
    have hne : ∀ e ∈ later, e.1.source ≠ entry.1.source := fun e he h =>
      hentry (List.mem_map.2 ⟨e, he, h⟩)
    have houtlines : (g.declareTypes core entry.1 entry.2).outlines = g.outlines :=
      outlines_declareTypes hg
    rw [declareAll_cons]
    rcases List.mem_cons.1 hmem with rfl | hmem
    · have hlsource : l.source = id.source := congrArg LibraryId.source hid
      have hdone : ((g.declareTypes core id units).declareAll core later).libraryOf? id.source =
          some (g.typedLibrary core units l) :=
        (libraryOf?_declareAll_of_ne hne).trans (libraryOf?_declareTypes hl hid)
      have hdistinct := hg.of_outlines houtlines.symm
      have hall : ((g.declareTypes core id units).declareAll core later).outlines = g.outlines :=
        (outlines_declareAll hdistinct).trans houtlines
      rw [hdone]
      rw [← hlsource] at hl hdone
      have hput := agree_put hg hl rfl fun _ => True
      have hclosed : g.SelfContained fun _ => True := ⟨trivial, fun _ _ _ _ _ _ => trivial⟩
      -- Every library whose turn does not come later is the same in both graphs.
      refine congrArg some (typedLibrary_eq_of_replaced hg hl rfl (hg.of_outlines hall.symm) hdone
        (g.outline_typedLibrary ..) (agree_of_outlines hall.symm _) hclosed trivial
        (fun source _ hsource hother => ?_)
        ((hfirst.1 l (hlsource ▸ hl)).of_agree hput hclosed trivial hl (libraryOf?_put_self hl rfl)))
      rw [libraryOf?_declareAll_of_ne hsource,
        libraryOf?_declareTypes_of_ne fun heq => hother (heq.symm.trans hlsource.symm)]
    · have hsame : ∀ e ∈ later, g.libraryOf? e.1.source =
          (g.declareTypes core entry.1 entry.2).libraryOf? e.1.source := fun e he =>
        (libraryOf?_declareTypes_of_ne (hne e he).symm).symm
      exact ih (hg.of_outlines houtlines.symm) hlater (hfirst.2.of_outlines houtlines.symm hsame)
        hmem ((hsame _ hmem).symm.trans hl)

end Graph

/-! ## Programs -/

namespace Program

variable {p p' : Provider (Except Failure)} {root root' : Source} {s s' : Gathering} {q q' : Program}

/-- No library names an alias of one that gets its declared types later. -/
def Gathering.Ordered (s : Gathering) : Prop := s.graph.AliasesFirst s.pending.reverse

/-- No library depends on one that gets its declared types later. -/
structure Gathering.Layered (s : Gathering) : Prop where
  core : Graph.Order.Avoids s.pending.reverse .core
  /-- What was there before depends on nothing that was built. -/
  settled : ∀ l ∈ s.graph.libraries, Graph.Order.Avoids s.pending.reverse l.source →
    ∀ d ∈ l.dependencies, Graph.Order.Avoids s.pending.reverse d
  pending : s.graph.DependenciesFirst s.pending.reverse

instance (s : Gathering) : Decidable s.Layered :=
  decidable_of_iff _
    ⟨fun h => ⟨h.1, h.2.1, h.2.2⟩, fun h => And.intro h.core (And.intro h.settled h.pending)⟩

theorem Gathered.ordered (hs : Gathered p root s) (hlayered : s.Layered) : s.Ordered :=
  Graph.aliasesFirst_of_dependenciesFirst hs.nodup_pending
    ⟨hlayered.core, fun _ _ hx hl => hlayered.settled _ (s.graph.mem_of_libraryOf? hl)
      (s.graph.source_of_libraryOf? hl ▸ hx)⟩ hlayered.pending

/-- What a library depends on, with the core library, on which all do. -/
inductive Reached (p : Provider (Except Failure)) (source : Source) : Source → Prop where
  | self : Reached p source source
  | core : Reached p source .core
  | dependency {s d : Source} {l : Library} (hs : Reached p source s)
      (hl : p.libraryAt? s = some l) (hd : d ∈ l.dependencies) : Reached p source d

theorem Complete.mem_of_reached (hs : Complete p root s) {source : Source}
    (hsource : source ∈ s.visited) {d : Source} (hd : Reached p source d) : d ∈ s.visited := by
  induction hd with
  | self => exact hsource
  | core => exact hs.core_mem
  | dependency _ hl hd ih => exact hs.dependencies ih hl hd

theorem Complete.selfContained_reached (hp : p.Sound) (hs : Complete p root s) {source : Source}
    (hsource : source ∈ s.visited) : s.graph.SelfContained (Reached p source) := by
  refine ⟨.core, fun x l hx hl d hd => hx.dependency ?_ hd⟩
  rw [← hl, hs.gathered.libraryOf? hp (hs.mem_of_reached hsource hx)]

section Ordered

variable (hp : p.Sound) (hs : Complete p root s) (hq : finish s = .ok q)
include hp hs hq

/-- In an ordered program the declared types of what was built are those that its annotations have
    in the finished graph. -/
theorem typed_in_finished (hordered : s.Ordered) {entry : LibraryId × List LibraryUnit}
    (hentry : entry ∈ s.pending) {l : Library}
    (hl : s.graph.libraryOf? entry.1.source = some l) :
    q.graph.libraryOf? entry.1.source = some (q.graph.typedLibrary q.core entry.2 l) := by
  obtain ⟨hvisited, k, hfind, hid⟩ := hs.gathered.mem_pending hentry
  have hkl : l = k := by
    rw [hs.gathered.libraryOf? hp hvisited, Provider.libraryAt?_of_find hfind] at hl
    exact (Option.some.inj hl).symm
  obtain ⟨-, -, -, hgraph, -, -⟩ := finish_eq_ok hq
  rw [hgraph]
  exact Graph.libraryOf?_declareAll_of_aliasesFirst (hs.gathered.distinct hp)
    hs.gathered.nodup_pending hordered (List.mem_reverse.2 hentry) hl (hkl ▸ hid)

end Ordered

/-! ## One library in two programs -/

section TwoPrograms

variable (hp : p.Sound) (hs : Complete p root s) (hq : finish s = .ok q)
  (hp' : p'.Sound) (hs' : Complete p' root' s') (hq' : finish s' = .ok q')
  {source : Source} (hsource : source ∈ s.visited) (hsource' : source ∈ s'.visited)
  (hfind : ∀ d, Reached p source d → find p d = find p' d)
include hp hs hp' hs' hsource hsource' hfind

omit hp hs hp' hs' hsource hsource' in
theorem libraryAt?_of_reached {d : Source} (hd : Reached p source d) :
    p.libraryAt? d = p'.libraryAt? d := by
  unfold Provider.libraryAt?
  rw [hfind d hd]

omit hp hs hp' hs' hsource hsource' in
theorem Reached.transfer {d : Source} (hd : Reached p source d) : Reached p' source d := by
  induction hd with
  | self => exact .self
  | core => exact .core
  | dependency hx hl hd ih =>
    exact ih.dependency ((libraryAt?_of_reached hfind hx).symm.trans hl) hd

theorem libraryOf?_of_reached {d : Source} (hd : Reached p source d) :
    s.graph.libraryOf? d = s'.graph.libraryOf? d := by
  rw [hs.gathered.libraryOf? hp (hs.mem_of_reached hsource hd),
    hs'.gathered.libraryOf? hp' (hs'.mem_of_reached hsource' (hd.transfer hfind)),
    libraryAt?_of_reached hfind hd]

include hq hq'

theorem core_of_reached : q.core = q'.core := by
  have hcore := finish_core_congr (congrArg (Option.map Library.outline)
    (libraryOf?_of_reached hp hs hp' hs' hsource hsource' hfind .core))
  rw [hq, hq'] at hcore
  exact Except.ok.inj hcore

variable (hordered : s.Ordered) (hordered' : s'.Ordered)
include hordered hordered'

/-- A library has the same declared types in both programs if those that come before it have. -/
theorem libraryOf?_eq_of_earlier {entry : LibraryId × List LibraryUnit} {later : Graph.Order}
    (hentry : entry ∈ s.pending) (hreached : Reached p source entry.1.source)
    (halias : ∀ l, s.graph.libraryOf? entry.1.source = some l →
      s.graph.KeepsAliases (Graph.Order.Avoids later) l entry.2)
    (hearlier : ∀ d, Reached p source d → Graph.Order.Avoids (entry :: later) d →
      q.graph.libraryOf? d = q'.graph.libraryOf? d) :
    q.graph.libraryOf? entry.1.source = q'.graph.libraryOf? entry.1.source := by
  obtain ⟨hvisited, l, hbuilt, hid⟩ := hs.gathered.mem_pending hentry
  have hl : s.graph.libraryOf? entry.1.source = some l := by
    rw [hs.gathered.libraryOf? hp hvisited, Provider.libraryAt?_of_find hbuilt]
    rfl
  have hl' := (libraryOf?_of_reached hp hs hp' hs' hsource hsource' hfind hreached).symm.trans hl
  have hentry' : entry ∈ s'.pending := by
    have hmem := hs'.gathered.pending_of_built
      (hs'.mem_of_reached hsource' (hreached.transfer hfind)) ((hfind _ hreached).symm.trans hbuilt)
    rwa [hid] at hmem
  have htyped := typed_in_finished hp hs hq hordered hentry hl
  have htyped' := typed_in_finished hp' hs' hq' hordered' hentry' hl'
  have hlsource : l.source = entry.1.source := congrArg LibraryId.source hid
  have houtlines := outlines_finish hp hs.gathered hq
  have houtlines' := outlines_finish hp' hs'.gathered hq'
  have hclosed := hs.selfContained_reached hp hsource
  have hsettled : Graph.Agree (Reached p source) s.graph q.graph :=
    Graph.agree_of_outlines houtlines.symm _
  have hagree : Graph.Agree (Reached p source) q.graph q'.graph := by
    intro d hd
    rw [← hsettled d hd, Graph.agree_of_outlines houtlines' (Reached p source) d hd,
      libraryOf?_of_reached hp hs hp' hs' hsource hsource' hfind hd]
  rw [htyped, htyped', ← core_of_reached hp hs hq hp' hs' hq' hsource hsource' hfind]
  rw [← hlsource] at hl htyped htyped' hreached
  have hdistinct := (hs.gathered.distinct hp).of_outlines houtlines.symm
  have houtline := q.graph.outline_typedLibrary q.core entry.2 l
  have hput := Graph.agree_put hdistinct htyped houtline (Reached p source)
  refine congrArg some (Graph.typedLibrary_eq_of_replaced hdistinct htyped houtline
    ((hs'.gathered.distinct hp').of_outlines houtlines'.symm) htyped' (q'.graph.outline_typedLibrary ..)
    hagree (hsettled.selfContained hclosed) hreached (fun d hd hlater hne => ?_)
    ((halias l (hlsource ▸ hl)).of_agree (fun d hd => (hsettled d hd).trans (hput d hd)) hclosed
      hreached hl (Graph.libraryOf?_put_self htyped (Library.id_eq_of_outline houtline))))
  refine hearlier d hd fun e he heq => ?_
  rcases List.mem_cons.1 he with rfl | he
  · exact hne (heq.symm.trans hlsource.symm)
  · exact hlater e he heq

/-- Libraries that agree up to some point of the order agree at its end. -/
theorem libraryOf?_eq_of_rest {rest : Graph.Order} (hrest : ∀ entry ∈ rest, entry ∈ s.pending)
    (hfirst : s.graph.AliasesFirst rest)
    (hdone : ∀ d, Reached p source d → rest.Avoids d →
      q.graph.libraryOf? d = q'.graph.libraryOf? d) :
    ∀ d, Reached p source d → q.graph.libraryOf? d = q'.graph.libraryOf? d := by
  induction rest with
  | nil => exact fun d hd => hdone d hd nofun
  | cons entry later ih =>
    refine ih (fun e he => hrest e (List.mem_cons_of_mem _ he)) hfirst.2 fun d hd havoids => ?_
    by_cases hentry : entry.1.source = d
    · subst hentry
      exact libraryOf?_eq_of_earlier hp hs hq hp' hs' hq' hsource hsource' hfind hordered hordered'
        (hrest entry List.mem_cons_self) hd hfirst.1 hdone
    · refine hdone d hd fun e he => ?_
      rcases List.mem_cons.1 he with rfl | he
      · exact hentry
      · exact havoids e he

theorem libraryOf?_eq_of_ordered :
    ∀ d, Reached p source d → q.graph.libraryOf? d = q'.graph.libraryOf? d := by
  refine libraryOf?_eq_of_rest hp hs hq hp' hs' hq' hsource hsource' hfind hordered hordered'
    (fun entry => List.mem_reverse.1) hordered fun d hd havoids => ?_
  have hvisited' := hs'.mem_of_reached hsource' (hd.transfer hfind)
  rw [libraryOf?_finish_of_not_pending hp hs.gathered hq (hs.mem_of_reached hsource hd) havoids,
    libraryOf?_finish_of_not_pending hp' hs'.gathered hq' hvisited' fun entry hentry heq => ?_,
    libraryAt?_of_reached hfind hd]
  -- What the one program has built, the other one has built as well.
  obtain ⟨-, l, hbuilt, hid⟩ := hs'.gathered.mem_pending (List.mem_reverse.1 hentry)
  rw [heq, ← hfind d hd] at hbuilt
  refine havoids (l.id, entry.2) (List.mem_reverse.2
    (hs.gathered.pending_of_built (hs.mem_of_reached hsource hd) hbuilt)) ?_
  rw [hid, heq]

end TwoPrograms

/-- In an ordered program every library that was built has the declared types that its annotations
    have in the finished graph, where all aliases stand for what they mean in the end; and whatever
    ordered program a library is found in, it is the same there, as long as what it reaches is. -/
theorem declaredTypes_settled (hp : p.Sound)
    (hgather : gather p root p.room [root, .core] {} = .ok s) (hq : finish s = .ok q)
    (hordered : s.Ordered) :
    (∀ entry ∈ s.pending, ∀ l, s.graph.libraryOf? entry.1.source = some l →
      q.graph.libraryOf? entry.1.source = some (q.graph.typedLibrary q.core entry.2 l)) ∧
    ∀ p' root' s' q', p'.Sound → gather p' root' p'.room [root', .core] {} = .ok s' →
      finish s' = .ok q' → s'.Ordered → ∀ source ∈ s.visited, source ∈ s'.visited →
        (∀ d, Reached p source d → find p d = find p' d) →
          q.graph.libraryOf? source = q'.graph.libraryOf? source := by
  have hs := complete_of_gather hp hgather
  refine ⟨fun entry hentry l hl => typed_in_finished hp hs hq hordered hentry hl, ?_⟩
  intro p' root' s' q' hp' hgather' hq' hordered' source hsource hsource' hfind
  exact libraryOf?_eq_of_ordered hp hs hq hp' (complete_of_gather hp' hgather') hq' hsource hsource'
    hfind hordered hordered' source .self

/-! ## Two imports in either order -/

section Sample

/-- A library with the classes that resolution relies on, and nothing else. -/
def coreSample : Library :=
  let names := ["Object", "bool", "num", "int", "double", "String", "StackTrace", "Type", "List", "Map"]
  let arity (name : String) := if name = "List" then 1 else if name = "Map" then 2 else 0
  { id := ⟨.core, 0⟩
    elements := (names.map fun name =>
      { kind := .classElement, name, typeParameters := List.replicate (arity name) .dynamic }).toArray
    defined := names.zipIdx }

/-- A tree over names that stand one after the other; its root comes last. -/
def treeOf (names : List String) (nodes : List Node) : Tree where
  source? := none
  nodes := nodes.toArray
  tokens := (names.zipIdx.map fun (name, offset) => ⟨.identifier, name, offset⟩).toArray
  comments := #[]
  lines := .one
  root := nodes.length - 1

/-- The nodes of an import, the first of which gets the number `uri`. -/
def importOf (uri : NodeId) (path : String) : List Node :=
  [⟨.expression (.string 0 path), some (uri + 1), 0, 0⟩,
    ⟨.directive (.importing none 0 uri none none [] 0), none, 0, 0⟩]

def fileAt (path : String) : Source := ⟨.file, "/" ++ path⟩

/-- Four units: `c` declares the alias `F`; `b` imports `c` and declares a variable `f` of type `F`;
    `a` and `d` import both, `a` the unit `b` first and `d` the unit `c`. -/
def unitSample? (s : Source) : Option Tree :=
  if s = fileAt "c" then
    some (treeOf ["typedef", "F", "(", ")", ";"] [
      ⟨.expression (.identifier 1), some 2, 1, 1⟩,
      ⟨.parameterList 2 [] none none 3, some 2, 2, 3⟩,
      ⟨.declaration (.typeAlias none 0 none 0 none 1 4), some 3, 0, 4⟩,
      ⟨.unit [] [2], none, 0, 4⟩])
  else if s = fileAt "b" then
    some (treeOf ["import", "F", "f", ";"] (importOf 0 "c" ++ [
      ⟨.expression (.identifier 1), some 3, 1, 1⟩,
      ⟨.type 2 none, some 6, 1, 1⟩,
      ⟨.expression (.identifier 2), some 5, 2, 2⟩,
      ⟨.variable 4 none none, some 6, 2, 2⟩,
      ⟨.variableList none (some 3) [5], some 7, 1, 2⟩,
      ⟨.declaration (.variablesDecl none 6 3), some 8, 1, 3⟩,
      ⟨.unit [1] [7], none, 0, 3⟩]))
  else if s = fileAt "a" then
    some (treeOf ["import"] (importOf 0 "b" ++ importOf 2 "c" ++ [⟨.unit [1, 3] [], none, 0, 0⟩]))
  else if s = fileAt "d" then
    some (treeOf ["import"] (importOf 0 "c" ++ importOf 2 "b" ++ [⟨.unit [1, 3] [], none, 0, 0⟩]))
  else none

def providerSample : Provider (Except Failure) :=
  .reading (fun s => .ok (unitSample? s)) (fun s => if s = .core then some coreSample else none) 5

/-- What is gathered for a root. -/
def gatheringSample (path : String) : Except Failure Gathering :=
  gather providerSample (fileAt path) 5 [fileAt path, .core] {}

/-- A program with the library `b` that can be built, and where no library depends on a later one. -/
def LayeredSample (path : String) : Prop :=
  (gatheringSample path).toOption.any fun s =>
    decide s.Layered && (finish s).isOk && s.visited.contains (fileAt "b")

/-- The declared type of `f` in the program of a root. -/
def typeSample? (path : String) : Option StaticType :=
  (ofRoot providerSample (fileAt path) : Except Failure Program).toOption.bind fun q =>
    (q.graph.libraryOf? (fileAt "b")).bind fun l =>
      ((l.definition? "f").bind l.element?).map Element.type

theorem sound_sample : providerSample.Sound := by
  intro s l h
  unfold providerSample Provider.reading at h
  dsimp only at h
  split at h
  · next hs =>
    cases h
    exact hs.symm
  · cases h

theorem LayeredSample.program (path : String) (h : LayeredSample path) :
    ∃ s q, gatheringSample path = .ok s ∧ finish s = .ok q ∧ s.Ordered ∧
      fileAt "b" ∈ s.visited := by
  unfold LayeredSample at h
  cases hs : gatheringSample path with
  | error failure =>
    rw [hs] at h
    cases h
  | ok s =>
    rw [hs] at h
    have hall : decide s.Layered && (finish s).isOk && s.visited.contains (fileAt "b") := h
    simp only [Bool.and_eq_true, decide_eq_true_eq, List.contains_eq_mem] at hall
    obtain ⟨⟨hlayered, hok⟩, hmem⟩ := hall
    have hordered := (complete_of_gather sound_sample hs).gathered.ordered hlayered
    cases hq : finish s with
    | error failure =>
      rw [hq] at hok
      cases hok
    | ok q => exact ⟨s, q, rfl, hq, hordered, hmem⟩

/-- The library `b` is the same in its own program and in the program of `a`. -/
theorem declaredTypes_straight : ∃ s q s' q',
    gatheringSample "b" = .ok s ∧ finish s = .ok q ∧ s.Ordered ∧
    gatheringSample "a" = .ok s' ∧ finish s' = .ok q' ∧ s'.Ordered ∧
      q.graph.libraryOf? (fileAt "b") = q'.graph.libraryOf? (fileAt "b") := by
  obtain ⟨s, q, hs, hq, hordered, hmem⟩ := LayeredSample.program "b" (by cbv)
  obtain ⟨s', q', hs', hq', hordered', hmem'⟩ := LayeredSample.program "a" (by cbv)
  refine ⟨s, q, s', q', hs, hq, hordered, hs', hq', hordered', ?_⟩
  exact (declaredTypes_settled sound_sample hs hq hordered).2 providerSample _ s' q' sound_sample hs'
    hq' hordered' _ hmem hmem' fun _ _ => rfl

/-- In the program of `d` the library `b` has its turn before `c`, and `f` has no function type. -/
theorem declaredTypes_crossed :
    typeSample? "b" = some (.function .dynamic [] [] []) ∧ typeSample? "d" = some .dynamic :=
  ⟨by cbv, by cbv⟩

end Sample

end Program

end DartAnalysis
