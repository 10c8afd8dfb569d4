/-
  Chains of exports. A library offers a name along a chain of exports if every export of the chain
  lets the name through and the library at its end declares it publicly (`Offers`). Every name that
  a library exports is offered along some chain, and its own names mean what it declares. The
  converse needs care: a library is entered once, along the first chain that leads to it, so a name
  that only a later chain lets through is lost (`exportedNames_lost`). It holds of a name if all
  chains to a library that offers it let it through (`EvenlyOffered`, `exportedNames_chains`).

  The exports of a library are walked depth first. Two facts carry the walk (`Walked`): each library
  that was entered was entered along a chain without repetition, whose names were taken in; and what
  such a library exports was entered too.
-/
import Mathlib
import DartAnalysis.Proofs.Program.Scope

namespace DartAnalysis

/-! ## Names of namespaces -/

theorem lookup_filter {β : Type} (p : String → Bool) (xs : List (String × β)) (name : String) :
    (xs.filter fun (n, _) => p n).lookup name = if p name then xs.lookup name else none := by
  induction xs with
  | nil => simp
  | cons x xs ih =>
    obtain ⟨n, b⟩ := x
    by_cases hname : name = n
    · subst hname
      by_cases hp : p name <;> simp [hp, ih]
    · have hbeq : (name == n) = false := beq_false_of_ne hname
      by_cases hp : p n <;> simp [hp, List.lookup_cons, hbeq, ih]

namespace Namespace

theorem lookup_insertNew (ns : Namespace) (entry : String × ElementId) (name : String) :
    (ns.insertNew entry).lookup name = (ns.lookup name).or ([entry].lookup name) := by
  unfold insertNew
  split
  · next hfound =>
    obtain ⟨id, hid⟩ := Option.isSome_iff_exists.1 hfound
    by_cases hname : name = entry.1
    · rw [hname, hid, Option.some_or]
    · have hbeq : (name == entry.1) = false := beq_false_of_ne hname
      rw [List.lookup_cons, hbeq, List.lookup_nil, Option.or_none]
  · rw [List.lookup_append]

theorem lookup_merge (ns more : Namespace) (name : String) :
    (ns.merge more).lookup name = (ns.lookup name).or (more.lookup name) := by
  unfold merge
  induction more generalizing ns with
  | nil => simp
  | cons entry more ih =>
    rw [List.foldl_cons, ih, lookup_insertNew, Option.or_assoc, ← List.lookup_append]
    rfl

theorem lookup_restrict (ns : Namespace) (filters : List NameFilter) (name : String) :
    (ns.restrict filters).lookup name =
      if NameFilter.admitAll filters name then ns.lookup name else none :=
  lookup_filter _ ns name

end Namespace

theorem Library.lookup_publicNames (l : Library) (name : String) :
    l.publicNames.lookup name = if !name.startsWith "_" then l.definition? name else none :=
  lookup_filter (fun n => !n.startsWith "_") l.definitions name

namespace Graph

variable {g : Graph}

/-! ## Chains -/

/-- An export with the library it leads to. -/
structure Link where
  via : Export
  target : Library

/-- Each export belongs to the library before it and leads to the next one. -/
def IsChain (g : Graph) : Library → List Link → Prop
  | _, [] => True
  | l, link :: chain =>
    link.via ∈ l.exports ∧ link.via.source?.bind g.libraryOf? = some link.target ∧
      IsChain g link.target chain

/-- The library at the end of a chain. -/
def chainEnd : Library → List Link → Library
  | l, [] => l
  | _, link :: chain => chainEnd link.target chain

/-- Every export of a chain lets the name through. -/
def letsThrough (chain : List Link) (name : String) : Bool :=
  chain.all fun link => NameFilter.admitAll link.via.filters name

/-- The libraries on the way, the first one included. -/
def route (l : Library) (chain : List Link) : List Source :=
  l.source :: chain.map (·.target.source)

/-- A library declares the name at its top, and shows it to others. -/
def Publishes (l : Library) (name : String) : Prop :=
  (l.definition? name).isSome ∧ name.startsWith "_" = false

/-- A chain of exports along which a library offers a name. -/
structure Offers (g : Graph) (l : Library) (chain : List Link) (name : String) : Prop where
  isChain : g.IsChain l chain
  passes : letsThrough chain name = true
  published : Publishes (chainEnd l chain) name

/-- Where a name is offered along one chain, every chain without repetition that leads to the same
    library lets it through. -/
def EvenlyOffered (g : Graph) (l : Library) (name : String) : Prop :=
  ∀ chain, g.Offers l chain name → ∀ other, g.IsChain l other → (route l other).Nodup →
    chainEnd l other = chainEnd l chain → letsThrough other name = true

theorem Offers.cons {l : Library} {e : Export} {t : Library} {chain : List Link} {name : String}
    (he : e ∈ l.exports) (ht : e.source?.bind g.libraryOf? = some t)
    (hpass : NameFilter.admitAll e.filters name = true) (h : g.Offers t chain name) :
    g.Offers l (⟨e, t⟩ :: chain) name where
  isChain := ⟨he, ht, h.isChain⟩
  passes := by
    rw [letsThrough, List.all_cons, hpass]
    exact h.passes
  published := h.published

/-- A link leads to the library of its source. -/
theorem libraryOf?_of_link {e : Export} {t : Library} (h : e.source?.bind g.libraryOf? = some t) :
    g.libraryOf? t.source = some t := by
  obtain ⟨s, -, hs⟩ := Option.bind_eq_some_iff.1 h
  rwa [g.source_of_libraryOf? hs]

/-! ## The walk -/

/-- A chain along which a library was entered, and the names it brought. -/
structure Entered (g : Graph) (l : Library) (before : List Source) (names : Namespace)
    (chain : List Link) : Prop where
  isChain : g.IsChain l chain
  nodup : (route l chain).Nodup
  avoids : ∀ s ∈ route l chain, s ∉ before
  names : ∀ name, Publishes (chainEnd l chain) name → letsThrough chain name = true →
    (names.lookup name).isSome

/-- Whatever a library exports has been entered. -/
def Exhausted (g : Graph) (entered : List Source) (s : Source) : Prop :=
  ∀ m, g.libraryOf? s = some m → ∀ e ∈ m.exports, ∀ t, e.source?.bind g.libraryOf? = some t →
    t.source ∈ entered

/-- The names and sources that a walk from a library ends with; `open?` is not exhausted yet. -/
structure Walked (g : Graph) (l : Library) (before : List Source) (stillOpen : Source → Prop)
    (result : Namespace × List Source) : Prop where
  grows : before ⊆ result.2
  self : l.source ∈ result.2
  sound : ∀ name, (result.1.lookup name).isSome → ∃ chain, g.Offers l chain name
  entered : ∀ s ∈ result.2, s ∉ before →
    ∃ chain, g.libraryOf? s = some (chainEnd l chain) ∧ g.Entered l before result.1 chain
  exhausted : ∀ s ∈ result.2, s ∉ before → ¬ stillOpen s → g.Exhausted result.2 s

theorem Exhausted.mono {entered more : List Source} {s : Source} (h : g.Exhausted entered s)
    (hmore : entered ⊆ more) : g.Exhausted more s :=
  fun m hm e he t ht => hmore (h m hm e he t ht)

/-- A walk begins with the names of the library itself. -/
theorem walked_start {l : Library} (hl : g.libraryOf? l.source = some l) {before : List Source}
    (hnew : l.source ∉ before) :
    g.Walked l before (· = l.source) (l.publicNames, l.source :: before) where
  grows := List.subset_cons_self _ _
  self := List.mem_cons_self
  sound name hname := by
    refine ⟨[], trivial, rfl, ?_⟩
    rw [Library.lookup_publicNames] at hname
    split at hname
    · next hpublic => exact ⟨hname, by simpa using hpublic⟩
    · cases hname
  entered s hs hbefore := by
    obtain rfl : s = l.source := (List.mem_cons.1 hs).resolve_right hbefore
    refine ⟨[], hl, trivial, List.pairwise_singleton _ _, fun s hs => ?_, fun name hname _ => ?_⟩
    · exact List.mem_singleton.1 hs ▸ hnew
    · rw [Library.lookup_publicNames, hname.2]
      exact hname.1
  exhausted s hs hbefore hopen := absurd ((List.mem_cons.1 hs).resolve_right hbefore) hopen

/-- One export is walked along. -/
theorem Walked.step {l t : Library} {before : List Source} {acc result : Namespace × List Source}
    {e : Export} (hnew : l.source ∉ before) (hacc : g.Walked l before (· = l.source) acc)
    (he : e ∈ l.exports) (ht : e.source?.bind g.libraryOf? = some t)
    (hresult : g.Walked t acc.2 (fun _ => False) result) :
    g.Walked l before (· = l.source) (acc.1.merge (result.1.restrict e.filters), result.2) where
  grows := List.Subset.trans hacc.grows hresult.grows
  self := hresult.grows hacc.self
  sound name hname := by
    rw [Namespace.lookup_merge, Namespace.lookup_restrict, Option.isSome_or, Bool.or_eq_true]
      at hname
    rcases hname with hname | hname
    · exact hacc.sound name hname
    · split at hname
      · next hpass =>
        obtain ⟨chain, hchain⟩ := hresult.sound name hname
        exact ⟨_, hchain.cons he ht hpass⟩
      · cases hname
  entered s hs hbefore := by
    by_cases hold : s ∈ acc.2
    · obtain ⟨chain, hend, hchain⟩ := hacc.entered s hold hbefore
      refine ⟨chain, hend, hchain.isChain, hchain.nodup, hchain.avoids, fun name hp hl => ?_⟩
      rw [Namespace.lookup_merge, Option.isSome_or, hchain.names name hp hl, Bool.true_or]
    · obtain ⟨chain, hend, hchain⟩ := hresult.entered s hs hold
      refine ⟨⟨e, t⟩ :: chain, hend, ⟨he, ht, hchain.isChain⟩, ?_, fun s' hs' => ?_,
        fun name hp hl => ?_⟩
      · -- The chain goes on from a library that avoids all that was entered, `l` included.
        exact List.nodup_cons.2 ⟨fun hmem => hchain.avoids l.source hmem hacc.self, hchain.nodup⟩
      · rcases List.mem_cons.1 hs' with rfl | hs'
        · exact hnew
        · exact fun hmem => hchain.avoids s' hs' (hacc.grows hmem)
      · rw [letsThrough, List.all_cons, Bool.and_eq_true] at hl
        rw [Namespace.lookup_merge, Namespace.lookup_restrict, Option.isSome_or, if_pos hl.1,
          hchain.names name hp hl.2, Bool.or_true]
  exhausted s hs hbefore hopen := by
    by_cases hold : s ∈ acc.2
    · exact (hacc.exhausted s hold hbefore hopen).mono hresult.grows
    · exact hresult.exhausted s hs hold id

/-- The exports of a library are walked along one after the other. -/
theorem Walked.exports {l : Library} {before : List Source} {depth : Nat}
    (hnew : l.source ∉ before)
    (hwalk : ∀ e ∈ l.exports, ∀ t, e.source?.bind g.libraryOf? = some t → ∀ entered,
      l.source :: before ⊆ entered → g.Walked t entered (fun _ => False)
        (g.exportedTo depth t entered))
    {es : List Export} (hes : ∀ e ∈ es, e ∈ l.exports) {acc : Namespace × List Source}
    (hacc : g.Walked l before (· = l.source) acc) :
    g.Walked l before (· = l.source) (es.foldl (g.exportStep depth) acc) ∧
      acc.2 ⊆ (es.foldl (g.exportStep depth) acc).2 ∧
      ∀ e ∈ es, ∀ t, e.source?.bind g.libraryOf? = some t →
        t.source ∈ (es.foldl (g.exportStep depth) acc).2 := by
  induction es generalizing acc with
  | nil => exact ⟨hacc, List.Subset.refl _, nofun⟩
  | cons e es ih =>
    have he := hes e List.mem_cons_self
    have hstep : g.Walked l before (· = l.source) (g.exportStep depth acc e) ∧
        acc.2 ⊆ (g.exportStep depth acc e).2 ∧ ∀ t, e.source?.bind g.libraryOf? = some t →
          t.source ∈ (g.exportStep depth acc e).2 := by
      unfold exportStep
      cases ht : e.source?.bind g.libraryOf? with
      | none => exact ⟨hacc, List.Subset.refl _, nofun⟩
      | some t =>
        have hresult := hwalk e he t ht acc.2 (List.cons_subset.2 ⟨hacc.self, hacc.grows⟩)
        refine ⟨hacc.step hnew he ht hresult, hresult.grows, fun t' ht' => ?_⟩
        cases ht'
        exact hresult.self
    obtain ⟨hwalked, hgrows, hmem⟩ := ih (fun e' he' => hes e' (List.mem_cons_of_mem _ he')) hstep.1
    refine ⟨hwalked, List.Subset.trans hstep.2.1 hgrows, fun e' he' t ht => ?_⟩
    rcases List.mem_cons.1 he' with rfl | he'
    · exact hgrows (hstep.2.2 t ht)
    · exact hmem e' he' t ht

/-- With steps enough for all libraries that were not entered yet, a walk is complete. -/
theorem walked_exportedTo {depth : Nat} {l : Library} {before : List Source}
    (hl : g.libraryOf? l.source = some l) (hdepth : g.unentered before < depth) :
    g.Walked l before (fun _ => False) (g.exportedTo depth l before) := by
  induction depth generalizing l before with
  | zero => exact absurd hdepth (Nat.not_lt_zero _)
  | succ depth ih =>
    rw [exportedTo_succ]
    split
    · next hentered =>
      exact ⟨List.Subset.refl _, by simpa using hentered, nofun, fun s hs hbefore =>
        absurd hs hbefore, fun s hs hbefore => absurd hs hbefore⟩
    · next hentered =>
      have hnew : l.source ∉ before := by simpa using hentered
      have hless := unentered_cons_lt (g.mem_of_libraryOf? hl) hnew
      obtain ⟨hwalked, -, hexports⟩ := Walked.exports hnew (fun e _ t ht entered hmore =>
        ih (libraryOf?_of_link ht) (Nat.lt_of_le_of_lt (unentered_mono hmore) (by omega)))
        (fun e he => he) (walked_start hl hnew)
      refine ⟨hwalked.grows, hwalked.self, hwalked.sound, hwalked.entered,
        fun s hs hbefore _ => ?_⟩
      by_cases hsl : s = l.source
      · subst hsl
        intro m hm
        rw [hl] at hm
        cases hm
        exact hexports
      · exact hwalked.exhausted s hs hbefore hsl

/-! ## Exported names -/

section Exported

variable {l : Library} (hl : g.libraryOf? l.source = some l)
include hl

theorem walked_exportedNames : g.Walked l [] (fun _ => False)
    (g.exportedTo (g.libraries.length + 1) l []) :=
  walked_exportedTo hl (Nat.lt_succ_of_le List.countP_le_length)

/-- The library at the end of a chain has been entered. -/
theorem chainEnd_entered {k : Library} (hk : g.libraryOf? k.source = some k) {chain : List Link}
    (hchain : g.IsChain k chain)
    (hmem : k.source ∈ (g.exportedTo (g.libraries.length + 1) l []).2) :
    (chainEnd k chain).source ∈ (g.exportedTo (g.libraries.length + 1) l []).2 ∧
      g.libraryOf? (chainEnd k chain).source = some (chainEnd k chain) := by
  induction chain generalizing k with
  | nil => exact ⟨hmem, hk⟩
  | cons link chain ih =>
    obtain ⟨he, ht, hchain⟩ := hchain
    exact ih (libraryOf?_of_link ht) hchain
      ((walked_exportedNames hl).exhausted _ hmem List.not_mem_nil id k hk _ he _ ht)

/-- A name that is offered evenly is exported. -/
theorem exportedNames_of_evenlyOffered {name : String} (heven : g.EvenlyOffered l name)
    {chain : List Link} (hchain : g.Offers l chain name) :
    ((g.exportedNames l).lookup name).isSome := by
  have hwalked := walked_exportedNames hl
  obtain ⟨hmem, hend⟩ := chainEnd_entered hl hl hchain.isChain hwalked.self
  obtain ⟨first, hfirst, hentered⟩ := hwalked.entered _ hmem List.not_mem_nil
  rw [hend] at hfirst
  have hsame : chainEnd l first = chainEnd l chain := (Option.some.inj hfirst).symm
  exact hentered.names name (hsame ▸ hchain.published)
    (heven chain hchain first hentered.isChain hentered.nodup hsame)

omit hl in
/-- What stands under a name already stays there. -/
theorem lookup_exportStep {depth : Nat} {acc : Namespace × List Source} {e : Export} {name : String}
    (h : (acc.1.lookup name).isSome) :
    ((g.exportStep depth acc e).1).lookup name = acc.1.lookup name := by
  obtain ⟨id, hid⟩ := Option.isSome_iff_exists.1 h
  unfold exportStep
  split
  · rw [Namespace.lookup_merge, hid, Option.some_or]
  · rfl

omit hl in
/-- A name that a library publishes means what the library itself declares. -/
theorem lookup_exportedNames_of_publishes {name : String} (h : Publishes l name) :
    (g.exportedNames l).lookup name = l.definition? name := by
  have hown : l.publicNames.lookup name = l.definition? name := by
    rw [Library.lookup_publicNames, h.2]
    rfl
  have hfold (es : List Export) (acc : Namespace × List Source)
      (hacc : acc.1.lookup name = l.definition? name) :
      (es.foldl (g.exportStep g.libraries.length) acc).1.lookup name = l.definition? name := by
    induction es generalizing acc with
    | nil => exact hacc
    | cons e es ih =>
      refine ih _ ?_
      rw [lookup_exportStep (hacc ▸ h.1), hacc]
  unfold exportedNames
  rw [exportedTo_succ]
  exact hfold l.exports _ hown

/-- A library exports a name only if it is offered along a chain of exports, and does export it if
    it is offered evenly. What the library publishes itself is its own. -/
theorem exportedNames_chains (name : String) :
    (((g.exportedNames l).lookup name).isSome → ∃ chain, g.Offers l chain name) ∧
    (g.EvenlyOffered l name → ∀ chain, g.Offers l chain name →
      ((g.exportedNames l).lookup name).isSome) ∧
    (Publishes l name → (g.exportedNames l).lookup name = l.definition? name) :=
  ⟨(walked_exportedNames hl).sound name, fun heven _ hchain =>
    exportedNames_of_evenlyOffered hl heven hchain, lookup_exportedNames_of_publishes⟩

end Exported

/-- A name that no export of a graph holds back is let through by every chain. -/
theorem letsThrough_of_admitted {name : String}
    (h : ∀ l ∈ g.libraries, ∀ e ∈ l.exports, NameFilter.admitAll e.filters name = true)
    {l : Library} (hl : l ∈ g.libraries) {chain : List Link} (hchain : g.IsChain l chain) :
    letsThrough chain name = true := by
  induction chain generalizing l with
  | nil => rfl
  | cons link chain ih =>
    obtain ⟨he, ht, hchain⟩ := hchain
    rw [letsThrough, List.all_cons, h l hl _ he]
    exact ih (g.mem_of_libraryOf? (libraryOf?_of_link ht)) hchain

theorem evenlyOffered_of_admitted {name : String}
    (h : ∀ l ∈ g.libraries, ∀ e ∈ l.exports, NameFilter.admitAll e.filters name = true)
    {l : Library} (hl : l ∈ g.libraries) : g.EvenlyOffered l name :=
  fun _ _ _ hother _ _ => letsThrough_of_admitted h hl hother

/-! ## Two ways to a library -/

section TwoWays

/-- A library at a path that declares names and exports others. -/
def sample (path : String) (names : List String) (exports : List Export) : Library where
  id := ⟨⟨.file, path⟩, 0⟩
  elements := #[]
  exports := exports
  defined := names.zipIdx

/-- An export of a file. -/
def exporting (path : String) (filters : List NameFilter) : Export :=
  ⟨path, some ⟨.file, path⟩, filters⟩

def deep : Library := sample "b" ["x", "y"] []

def between : Library := sample "c" [] [exporting "b" []]

/-- Exports `b` in part, and all of it by way of `c`. -/
def outer : Library := sample "a" [] [exporting "b" [.only ["x"]], exporting "c" []]

def diamond : Graph := ⟨[outer, between, deep]⟩

/-- One of the names is let through on both ways. -/
theorem exportedNames_diamond : diamond.EvenlyOffered outer "x" ∧
    diamond.Offers outer [⟨exporting "c" [], between⟩, ⟨exporting "b" [], deep⟩] "x" ∧
    ((diamond.exportedNames outer).lookup "x").isSome := by
  have heven : diamond.EvenlyOffered outer "x" :=
    evenlyOffered_of_admitted (by decide) List.mem_cons_self
  have hoffers : diamond.Offers outer
      [⟨exporting "c" [], between⟩, ⟨exporting "b" [], deep⟩] "x" :=
    ⟨⟨by decide, rfl, by decide, rfl, trivial⟩, by decide, by decide, by cbv⟩
  exact ⟨heven, hoffers, (exportedNames_chains rfl "x").2.1 heven _ hoffers⟩

/-- The other one is let through by `c` alone, and `b` was entered before. -/
theorem exportedNames_lost :
    diamond.Offers outer [⟨exporting "c" [], between⟩, ⟨exporting "b" [], deep⟩] "y" ∧
      (diamond.exportedNames outer).lookup "y" = none := by
  refine ⟨⟨⟨?_, rfl, ?_, rfl, trivial⟩, ?_, ?_, ?_⟩, ?_⟩
  · decide
  · decide
  · decide
  · decide
  · cbv
  · cbv

end TwoWays

end Graph

end DartAnalysis
