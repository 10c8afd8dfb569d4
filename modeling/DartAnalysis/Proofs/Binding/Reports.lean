/-
  Where everything is reported. The scanner and the parser report within their text; declarations,
  resolution and hints report at nodes, or from one statement to a later one beside it, and the nodes of
  a parsed text lie inside it. A resolved unit is also shown what the declarations of its library were
  reported for, as far as it was reported for the source of the unit: that lies inside the text
  if the library was made of it, as the libraries are that a program is built of
  (`Program.exists_madeOf`). Nothing comes of resolving a unit only if types can be compared without end
  (`Program.endless_of_exhausted`). Main statement: `diagnostics_within`, for any text, whatever is wrong with
  it, and in any surroundings.
-/
import DartAnalysis.Binding.Unit
import DartAnalysis.Proofs.Binding.Effects
import DartAnalysis.Proofs.Element.ClassNames
import DartAnalysis.Proofs.Parse.Regions
import DartAnalysis.Proofs.Program.Reachable
import DartAnalysis.Proofs.StaticType.Comparison

namespace DartAnalysis

/-- The unit that a text of a source makes. -/
def LibraryUnit.ofText (source : Source) (text : String) : LibraryUnit :=
  ⟨source, (Parsed.ofText .unit (some source) text).tree⟩

/-! ## Regions of a text -/

theorem Parsed.ofText_errors (e : Grammar.Entry) (source? : Option Source) (text : String) :
    ∀ d ∈ (ofText e source? text).errors, d.Within source? text := by
  obtain ⟨parsed, hparsed, -, h⟩ := ofText_formed e source? text
  intro d hd
  simp only [ofText, ofScan, hparsed, Option.getD_some] at hd
  rcases List.mem_append.1 hd with hd | hd
  · exact (Scan.ofText_reports source? text).1 d hd
  · exact h.reports d hd

/-- What is reported at a node of a text lies inside it. -/
theorem Diagnostic.At.within {d : Diagnostic} {u : LibraryUnit} {text : String} {n : NodeId}
    (h : d.At u n) (hu : u.tree.Inside text) : d.Within (some u.source) text where
  source_eq := h.source_eq
  finish_le := by
    rw [Diagnostic.finish, h.offset_eq, h.length_eq, hu.offset_add_length]
    exact hu.finish_le n

/-! ## Resolution -/

namespace Binding

/-- What is reported while a unit is resolved is reported at nodes of it. -/
theorem resolve_reports (env : Env) (start : State) :
    ∀ d ∈ (resolve env start).2.errors, d ∈ start.errors ∨ ∃ n, d.At env.unit n := by
  have hspreads : env.unit.tree.Spreads fun _ => True := fun _ _ _ _ => trivial
  have hallows : Allows env (fun _ => True)
      (fun s => ∀ d ∈ s.errors, d ∈ start.errors ∨ ∃ n, d.At env.unit n) := {
    frames := fun _ _ h => h
    endless := fun _ _ h => h
    element := fun _ _ _ _ h => h
    type := fun _ _ _ _ h => h
    errors := fun s more hmore h d hd => by
      rcases Array.mem_append.1 hd with hd | hd
      · exact h d hd
      · obtain ⟨n, -, hreport⟩ := hmore d hd
        exact .inr ⟨n, hreport.at_node⟩
    inferred := fun _ _ _ _ _ _ _ _ _ _ _ h => h }
  exact (resolve_does hallows hspreads trivial start ⟨fun _ => .inl, rfl⟩).1

/-- If types were compared without end, they can be. -/
theorem endless_of_resolve {env : Env} {start : State} (hstart : start.endless = false)
    (h : (resolve env start).2.endless = true) : env.Endless := by
  have hspreads : env.unit.tree.Spreads fun _ => True := fun _ _ _ _ => trivial
  have hallows : Allows env (fun _ => True) (fun s => s.endless = true → env.Endless) := {
    frames := fun _ _ h => h
    endless := fun _ hendless _ _ => hendless
    element := fun _ _ _ _ h => h
    type := fun _ _ _ _ h => h
    errors := fun _ _ _ h => h
    inferred := fun _ _ _ _ _ _ _ _ _ _ _ h => h }
  exact (resolve_does hallows hspreads trivial start ⟨fun h => absurd (hstart.symm.trans h) nofun, rfl⟩).1 h

end Binding

/-! ## Hints -/

namespace Hint

variable {u : LibraryUnit} {text : String} (hu : u.tree.Inside text)
include hu

theorem missingReturn_within (returnType? : Option NodeId) (body : NodeId) :
    ∀ d ∈ missingReturn u.tree u.source returnType? body, d.Within (some u.source) text := by
  intro d hd
  unfold missingReturn at hd
  split at hd
  · rename_i returnType block _
    dsimp only at hd
    split at hd
    · exact absurd hd List.not_mem_nil
    · rw [List.mem_singleton.1 hd]
      exact (Diagnostic.at_make u returnType .missingReturn _).within hu
  · exact absurd hd List.not_mem_nil

/-- What follows an exit reaches from one statement to a later one, or is one statement. -/
theorem deadCode_within (n : NodeId) :
    ∀ d ∈ deadCode u.tree u.source (u.tree.statements n), d.Within (some u.source) text := by
  intro d hd
  unfold deadCode at hd
  split at hd
  · exact absurd hd List.not_mem_nil
  · rename_i first more hafter
    have hrow : (first :: more).Pairwise fun c d => u.tree.offset c ≤ u.tree.finish d := by
      refine (hu.statements n).sublist ?_
      rw [← hafter]
      exact (List.drop_sublist 1 _).trans (List.dropWhile_sublist _)
    have hspan : u.tree.offset first ≤ u.tree.finish (more.getLast?.getD first) := by
      cases hlast : more.getLast? with
      | none => exact hu.span first
      | some last => exact (List.pairwise_cons.1 hrow).1 last (List.mem_of_getLast? hlast)
    rw [List.mem_singleton.1 hd]
    refine ⟨rfl, ?_⟩
    show u.tree.offset first + (_ - u.tree.offset first) ≤ _
    rw [Nat.add_sub_cancel' hspan]
    exact hu.finish_le _

theorem atNode_within (n : NodeId) :
    ∀ d ∈ atNode u.tree u.source n, d.Within (some u.source) text := by
  have hdead := deadCode_within hu n
  unfold Tree.statements Tree.switchStatements? at hdead
  intro d hd
  unfold atNode at hd
  split at hd
  · split at hd
    · split at hd
      · exact absurd hd List.not_mem_nil
      · exact missingReturn_within hu _ _ d hd
    · exact absurd hd List.not_mem_nil
  · split at hd
    · exact absurd hd List.not_mem_nil
    · exact missingReturn_within hu _ _ d hd
  · rename_i hkind
    rw [hkind] at hdead
    exact hdead d hd
  · rename_i hkind
    rw [hkind] at hdead
    exact hdead d hd
  · rename_i hkind
    rw [hkind] at hdead
    exact hdead d hd
  · exact absurd hd List.not_mem_nil

theorem ofTree_within : ∀ d ∈ ofTree u.tree u.source, d.Within (some u.source) text := by
  intro d hd
  obtain ⟨n, -, hd⟩ := List.mem_flatMap.1 hd
  exact atNode_within hu n d hd

end Hint

/-! ## Libraries -/

theorem Library.MadeOf.errors_eq {l : Library} {units : List LibraryUnit} (hl : l.MadeOf units) :
    l.errors = (Library.ofUnits l.id units).errors :=
  show l.outline.errors = (Library.ofUnits l.id units).outline.errors from congrArg Library.errors hl

/-- In the program of a root, a library that was not known before is made of units that are there. -/
theorem Program.exists_madeOf {provider : Provider (Except Failure)} (hprovider : provider.Sound)
    {root : Source} {p : Program} (hp : ofRoot provider root = .ok p) {l : Library}
    (hl : l ∈ p.graph.libraries) (hnew : provider.library? l.source = .ok none) :
    ∃ units, (∀ u ∈ units, provider.Has u) ∧ l.MadeOf units := by
  obtain ⟨s, hgather, hfinish⟩ := gather_of_ofRoot hp
  have hs := complete_of_gather hprovider hgather
  have houtline := outline_finish hprovider hs hfinish (mem_visited_of_library hprovider hs hfinish hl)
  rw [(distinct_finish hprovider hs hfinish).libraryOf?_eq hl] at houtline
  obtain ⟨k, hk, houtline⟩ := Option.map_eq_some_iff.1 houtline.symm
  obtain ⟨found, hfound, hk⟩ := Provider.find_of_libraryAt? hk
  cases found with
  | known k =>
    cases hnew.symm.trans (Provider.find_known hfound)
  | built k units =>
    obtain rfl := Option.some.inj hk
    obtain ⟨-, -, edition, rfl⟩ := Provider.find_built hfound
    exact ⟨units, Provider.has_of_find_built hfound, .of_outline houtline.symm⟩
  | part | absent => cases hk

/-! ## Resolving -/

/-- What surrounds the nodes of a unit of a program. -/
def Program.surroundings (p : Program) (l : Library) (u : LibraryUnit) (bodies : Bool) : Binding.Env where
  unit := u
  graph := p.graph
  core := p.core
  library := l
  scope := .ofLibrary p.graph l
  nonLibraries := p.nonLibraries
  bodies := bodies

/-- Nothing is known of a unit yet. -/
def Binding.State.blank (u : LibraryUnit) : State where
  frames := [{}]
  annotations := .blank u.tree.nodes.size
  inferred := []
  errors := #[]

/-- A unit of a library of the program is resolved in its surroundings. -/
theorem Program.resolve_eq {p : Program} {l : Library} {u : LibraryUnit} {library : Source}
    (hl : p.graph.libraryOf? library = some l) (hunit : (l.unit? u.source).isSome) (options : Options) :
    p.resolve options library u =
      let final := (Binding.resolve (p.surroundings l u options.bodies) (.blank u)).2
      if final.endless then .error .exhausted
      else .ok {
        unit := u, library := l.id, annotations := final.annotations
        errors := Diagnostic.inSource u.source l.errors ++ final.errors.toList ++
          if options.hints then Hint.ofTree u.tree u.source else []
        graph := p.graph, core := p.core } := by
  unfold resolve
  rw [hl]
  dsimp only
  rw [if_neg (by simpa [Option.isSome_iff_ne_none] using hunit)]
  rfl

/-- Other units are refused, whatever the options are. -/
theorem Program.resolve_cases (p : Program) (library : Source) (u : LibraryUnit) :
    (∃ failure, failure ≠ .exhausted ∧ ∀ options, p.resolve options library u = .error failure) ∨
      ∃ l, p.graph.libraryOf? library = some l ∧ (l.unit? u.source).isSome := by
  cases hl : p.graph.libraryOf? library with
  | none =>
    refine .inl ⟨.notALibrary library, nofun, fun options => ?_⟩
    unfold resolve
    rw [hl]
  | some l =>
    cases hunit : l.unit? u.source with
    | none =>
      refine .inl ⟨.notAPartOf u.source library, nofun, fun options => ?_⟩
      unfold resolve
      rw [hl]
      exact if_pos (by rw [hunit]; rfl)
    | some id => exact .inr ⟨l, rfl, by rw [hunit]; rfl⟩

/-- Resolved units get what was reported of the declarations of their library in their source, what
    resolution reports, and hints. -/
theorem Program.resolve_errors {p : Program} {options : Options} {library : Source} {u : LibraryUnit}
    {r : ResolvedUnit} (hr : p.resolve options library u = .ok r) :
    ∃ (env : Binding.Env) (start : Binding.State) (hints : List Diagnostic),
      p.graph.libraryOf? library = some env.library ∧ env.graph = p.graph ∧ env.unit = u ∧
      start.errors = #[] ∧ hints ⊆ Hint.ofTree u.tree u.source ∧
      r.errors = Diagnostic.inSource u.source env.library.errors ++
        (Binding.resolve env start).2.errors.toList ++ hints := by
  rcases p.resolve_cases library u with ⟨failure, -, hfailure⟩ | ⟨l, hl, hunit⟩
  · cases (hfailure options).symm.trans hr
  rw [resolve_eq hl hunit] at hr
  dsimp only at hr
  split at hr
  · cases hr
  obtain rfl := Except.ok.inj hr
  refine ⟨p.surroundings l u options.bodies, .blank u, _, hl, rfl, rfl, rfl, fun d hd => ?_, rfl⟩
  split at hd
  · exact hd
  · cases hd

/-- Types of the program can be compared without end. -/
def Program.Endless (p : Program) : Prop :=
  ∃ a b, p.graph.assignable? p.core a b = none ∨ p.graph.leastUpperBound? p.core a b = none

/-- Where they cannot, a unit of a library is resolved. -/
theorem Program.exists_resolve {p : Program} (hends : ¬ p.Endless) {l : Library} {u : LibraryUnit}
    {library : Source} (hl : p.graph.libraryOf? library = some l) (hunit : (l.unit? u.source).isSome)
    (options : Options) : ∃ r, p.resolve options library u = .ok r := by
  rw [resolve_eq hl hunit]
  dsimp only
  split
  · next hendless => exact absurd (Binding.endless_of_resolve rfl hendless) hends
  · exact ⟨_, rfl⟩

/-- Nothing comes of resolving a unit only if types are compared without end. -/
theorem Program.endless_of_exhausted {p : Program} {options : Options} {library : Source}
    {u : LibraryUnit} (h : p.resolve options library u = .error .exhausted) : p.Endless := by
  by_contra hends
  rcases p.resolve_cases library u with ⟨failure, hne, hfailure⟩ | ⟨l, hl, hunit⟩
  · exact hne (Except.error.inj ((hfailure options).symm.trans h))
  · obtain ⟨r, hr⟩ := exists_resolve hends hl hunit options
    cases h.symm.trans hr

/-- Where supertypes and bounds mention no functions, they cannot. -/
theorem Program.not_endless {p : Program} (h : p.graph.FunctionFree) : ¬ p.Endless := by
  rintro ⟨a, b, hab⟩
  have hgrounded : p.graph.Grounded p.core a := Graph.grounded_of_functionFree h a
  rcases hab with hab | hab
  · have hsome := (hgrounded.settled b).assignable?_isSome
    rw [hab] at hsome
    cases hsome
  · have hsome := p.graph.leastUpperBound?_isSome p.core (b := b) (.inl hgrounded)
    rw [hab] at hsome
    cases hsome

section Resolved

variable {p : Program} {options : Options} {library : Source} {u : LibraryUnit} {text : String}
  (hu : u.tree.Inside text) {r : ResolvedUnit} (hr : p.resolve options library u = .ok r)
include hu hr

/-- What is wrong with a resolved unit was reported for its source, and lies inside its text unless the
    declarations of its library reported it. -/
theorem Program.resolve_within :
    ∀ d ∈ r.errors, d.source? = some u.source ∧
      ((∃ l, p.graph.libraryOf? library = some l ∧ d ∈ l.errors) ∨ d.Within (some u.source) text) := by
  obtain ⟨env, start, hints, hl, -, rfl, hstart, hhints, herrors⟩ := resolve_errors hr
  have hwithin {d : Diagnostic} (h : d.Within (some env.unit.source) text) :
      d.source? = some env.unit.source ∧
        ((∃ l, p.graph.libraryOf? library = some l ∧ d ∈ l.errors) ∨
          d.Within (some env.unit.source) text) := ⟨h.source_eq, .inr h⟩
  intro d hd
  rw [herrors] at hd
  rcases List.mem_append.1 hd with hd | hd
  · rcases List.mem_append.1 hd with hd | hd
    · obtain ⟨hd, hsource⟩ := List.mem_filter.1 hd
      exact ⟨eq_of_beq hsource, .inl ⟨env.library, hl, hd⟩⟩
    · rcases Binding.resolve_reports env start d (Array.mem_toList_iff.1 hd) with hd | ⟨n, hat⟩
      · exact absurd (hstart ▸ hd) (Array.not_mem_empty d)
      · exact hwithin (hat.within hu)
  · exact hwithin (Hint.ofTree_within hu d (hhints hd))

/-- All of it does if the library was made of the unit, and of no other one of its source. -/
theorem Program.resolve_within_of_madeOf {l : Library} (hl : p.graph.libraryOf? library = some l)
    {units : List LibraryUnit} (hmade : l.MadeOf units)
    (hsame : ∀ v ∈ units, v.source = u.source → v = u) :
    ∀ d ∈ r.errors, d.Within (some u.source) text := by
  intro d hd
  obtain ⟨hsource, ⟨k, hk, hd⟩ | hwithin⟩ := resolve_within hu hr d hd
  · obtain rfl := Option.some.inj (hl.symm.trans hk)
    rw [hmade.errors_eq] at hd
    obtain ⟨v, hv, n, hat, -⟩ := Library.ofUnits_reports _ _ d hd
    obtain rfl := hsame v hv (Option.some.inj (hat.source_eq.symm.trans hsource))
    exact hat.within hu
  · exact hwithin

end Resolved

/-! ## Diagnostics -/

/-- Every diagnostic lies inside its text and carries its source, and what its length is computed from
    is in order. This goes for what is reported while a text is scanned, parsed from any entry and
    resolved, with any options and in any program, and for the declarations of a library of any units;
    in every text a string that is still open began before the end, nodes end behind their beginning,
    and statements stand in order. A resolved unit has all of that, and nothing that was reported for
    other sources: in a library that was made of its text everything lies inside the text, whatever
    other libraries there are. What a library forwards that was made of another text of the source was
    reported for that text, and lies inside it. -/
theorem diagnostics_within (texts : Source → String) :
    (∀ source? text, ∀ d ∈ (Scan.ofText source? text).errors, d.Within source? text) ∧
    (∀ source? (text : String) offset,
      Lexer.openInterpolation? (Lexer.run (.start source? text.toList)).groups = some offset →
      offset ≤ (Lexer.run (.start source? text.toList)).offset) ∧
    (∀ e source? text, ∀ d ∈ (Parsed.ofText e source? text).errors, d.Within source? text) ∧
    (∀ e source? text, (Parsed.ofText e source? text).tree.Inside text) ∧
    (∀ id (sources : List Source),
      ∀ d ∈ (Library.ofUnits id (sources.map fun s => .ofText s (texts s))).errors,
        ∃ s ∈ sources, d.Within (some s) (texts s)) ∧
    (∀ (p : Program) (options : Options) (library source : Source) (text : String) (r : ResolvedUnit),
      p.resolve options library (.ofText source text) = .ok r →
        (∀ d ∈ r.errors, d.source? = some source ∧
          ((∃ l, p.graph.libraryOf? library = some l ∧ d ∈ l.errors) ∨ d.Within (some source) text)) ∧
        ∀ l units, p.graph.libraryOf? library = some l → l.MadeOf units →
          (∀ v ∈ units, v.source = source → v = .ofText source text) →
            ∀ d ∈ r.errors, d.Within (some source) text) ∧
    ∀ (provider : Provider (Except Failure)) (root : Source) (p : Program), provider.Sound →
      Program.ofRoot provider root = .ok p →
        ∀ (options : Options) (library source : Source) (text : String) (r : ResolvedUnit),
          provider.library? library = .ok none → provider.Has (.ofText source text) →
            p.resolve options library (.ofText source text) = .ok r →
              ∀ d ∈ r.errors, d.Within (some source) text := by
  have hinside (source : Source) (text : String) : (LibraryUnit.ofText source text).tree.Inside text :=
    Parsed.ofText_inside .unit (some source) text
  refine ⟨fun source? text => (Scan.ofText_reports source? text).1,
    fun source? text => (Scan.ofText_reports source? text).2, Parsed.ofText_errors,
    Parsed.ofText_inside, fun id sources d hd => ?_, fun p options library source text r hr => ⟨?_, ?_⟩,
    fun provider root p hprovider hp options library source text r hnew hu hr => ?_⟩
  · obtain ⟨u, hu, n, hat, -⟩ := Library.ofUnits_reports id _ d hd
    obtain ⟨s, hs, rfl⟩ := List.mem_map.1 hu
    exact ⟨s, hs, hat.within (hinside s (texts s))⟩
  · exact Program.resolve_within (hinside source text) hr
  · exact fun l units hl hmade hsame =>
      Program.resolve_within_of_madeOf (hinside source text) hr hl hmade hsame
  · obtain ⟨env, -, -, hl, -⟩ := Program.resolve_errors hr
    have hsource := p.graph.source_of_libraryOf? hl
    obtain ⟨units, hunits, hmade⟩ := Program.exists_madeOf hprovider hp
      (p.graph.mem_of_libraryOf? hl) (hsource.symm ▸ hnew)
    exact Program.resolve_within_of_madeOf (hinside source text) hr hl hmade
      fun v hv hsame => (hunits v hv).eq_of_source hu hsame

end DartAnalysis
