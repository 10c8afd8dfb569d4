/-
  What is reported of the hierarchy. A search up the hierarchy ends with all classes that a class
  inherits from, each once, the nearest first (`Graph.allSuperclasses`). When a unit is resolved, a cycle
  is reported at the name of a class just if the class inherits from itself: all reports of cycles are at
  names that declare such classes (`Binding.resolve_cyclic`), and no class of the unit is passed over
  (`Binding.resolve_ensures`). Main statement: `hierarchy_exact`.
-/
import DartAnalysis.Proofs.Binding.Reports
import DartAnalysis.Proofs.StaticType.Inheritance

namespace DartAnalysis

namespace Binding

variable {env : Env}

/-! ## Reports of cycles -/

/-- A cycle is reported at a node. -/
def Env.Reported (env : Env) (n : NodeId) (s : State) : Prop :=
  ∃ d ∈ s.errors, d.code = .recursiveInterfaceInheritance ∧ d.At env.unit n

/-- What is reported once stays reported. -/
theorem allows_reported (env : Env) (n : NodeId) : Allows env (fun _ => True) (env.Reported n) where
  frames _ _ h := h
  endless _ _ h := h
  element _ _ _ _ h := h
  type _ _ _ _ h := h
  errors _ _ _ h := h.imp fun _ hd => ⟨Array.mem_append.2 (.inl hd.1), hd.2⟩
  inferred _ _ _ _ _ _ _ _ _ _ _ h := h

theorem spreads_true (t : Tree) : t.Spreads fun _ => True := fun _ _ _ _ => trivial

/-- What is kept along with the outer frames is kept. -/
theorem keeps_of_does {α : Type} {I : State → Prop} {x : Resolving α}
    (h : ∀ outer, Does env I outer x) : KeepsIn env I x :=
  fun s hs => (h s.frames.tail s ⟨hs, rfl⟩).1

section Reading

variable {I : State → Prop} {α : Type}

theorem tree_ensures {f : Tree → Resolving α} (h : EnsuresIn env I (f env.unit.tree)) :
    EnsuresIn env I (tree >>= f) := h

theorem graph_ensures {f : Graph → Resolving α} (h : EnsuresIn env I (f env.graph)) :
    EnsuresIn env I (graph >>= f) := h

theorem declared?_ensures {node : NodeId} {f : Option ElementId → Resolving α}
    (h : EnsuresIn env I (f (env.library.declaredAt? env.unit.source (env.unit.tree.offset node)))) :
    EnsuresIn env I (declared? node >>= f) := h

end Reading

theorem hierarchyCheck_ensures {name : NodeId} (h : env.Cyclic name) :
    EnsuresIn env (env.Reported name) (hierarchyCheck name) := by
  obtain ⟨c, hc, hcyclic⟩ := h
  have hreport (args : List String) :
      EnsuresIn env (env.Reported name) (report name .recursiveInterfaceInheritance args) :=
    fun s => ⟨_, Array.mem_push_self, rfl, Diagnostic.at_make env.unit name _ args⟩
  unfold hierarchyCheck
  refine declared?_ensures ?_
  rw [hc]
  refine graph_ensures ?_
  rw [if_pos hcyclic]
  exact hreport _

section Class

variable {n name : NodeId} (hn : env.unit.tree.NamesClass n name) (hcyclic : env.Cyclic name)
include hn hcyclic

theorem bind_ensures (place : Place) : EnsuresIn env (env.Reported name) (bind place n) := by
  obtain ⟨-, hkind⟩ := hn
  unfold bind
  refine tree_ensures ?_
  rw [hkind]
  exact hierarchyCheck_ensures hcyclic

theorem visitTo_ensures (depth : Nat) (place : Place) :
    EnsuresIn env (env.Reported name) (visitTo (depth + 1) place n) := by
  have hinfer : KeepsIn env (env.Reported name) (infer place n) := keeps_of_does fun _ =>
    infer_does (allows_reported env name) (spreads_true _) place trivial
  obtain ⟨-, hkind⟩ := id hn
  rw [visitTo]
  refine tree_ensures ?_
  rw [hkind]
  exact .bind fun _ => .bind_first (bind_ensures hn hcyclic place) fun _ => hinfer

/-- The walk comes to every class of the unit. -/
theorem resolve_ensures : EnsuresIn env (env.Reported name) resolve := by
  have hallows := allows_reported env name
  have hspreads := spreads_true env.unit.tree
  obtain ⟨hdeclaration, -⟩ := id hn
  obtain ⟨directives, declarations, hroot, -⟩ := Tree.exists_unit_of_declaration hdeclaration
  have hchild := Tree.mem_children_root_of_declaration hdeclaration
  obtain ⟨depth, hdepth⟩ : ∃ depth, env.unit.tree.nodes.size = depth + 1 :=
    Nat.exists_eq_succ_of_ne_zero (Nat.ne_of_gt (Nat.zero_lt_of_lt (Tree.parent_lt hchild)))
  have hinside : EnsuresIn env (env.Reported name) (inside (visitTo (depth + 1)) {} env.unit.tree.root) := by
    unfold inside
    refine tree_ensures ?_
    rw [hroot]
    refine .forM hchild (visitTo_ensures hn hcyclic depth {}) fun c _ => ?_
    exact keeps_of_does fun outer => visitTo_does hallows hspreads _ _ c outer trivial
  unfold resolve
  refine tree_ensures ?_
  rw [hdepth, visitTo]
  refine tree_ensures ?_
  rw [hroot]
  refine .bind_first hinside fun _ => .bind ?_ fun _ => ?_
  · exact keeps_of_does fun _ => bind_does hallows hspreads {} trivial
  · exact keeps_of_does fun _ => infer_does hallows hspreads {} trivial

end Class

/-- Cycles are reported nowhere but at names that declare classes in cycles. -/
theorem resolve_cyclic {start : State} (hstart : start.errors = #[]) :
    ∀ d ∈ (resolve env start).2.errors, d.code = .recursiveInterfaceInheritance →
      ∃ n, d.At env.unit n ∧ env.Cyclic n := by
  have hallows : Allows env (fun _ => True) fun s =>
      ∀ d ∈ s.errors, d.code = .recursiveInterfaceInheritance → ∃ n, d.At env.unit n ∧ env.Cyclic n := {
    frames := fun _ _ h => h
    endless := fun _ _ h => h
    element := fun _ _ _ _ h => h
    type := fun _ _ _ _ h => h
    errors := fun s more hmore h d hd hcode => by
      rcases Array.mem_append.1 hd with hd | hd
      · exact h d hd hcode
      · obtain ⟨n, -, hreport⟩ := hmore d hd
        exact ⟨n, hreport.at_node, hreport.cyclic hcode⟩
    inferred := fun _ _ _ _ _ _ _ _ _ _ _ h => h }
  refine keeps_of_does (fun _ => resolve_does hallows (spreads_true _) trivial) start ?_
  rw [hstart]
  exact fun d hd => absurd hd (Array.not_mem_empty d)

end Binding

/-! ## Programs -/

theorem Hint.ofTree_code (t : Tree) (source : Source) :
    ∀ d ∈ ofTree t source, d.code ≠ .recursiveInterfaceInheritance := by
  have hreturn (returnType? : Option NodeId) (body : NodeId) :
      ∀ d ∈ missingReturn t source returnType? body, d.code ≠ .recursiveInterfaceInheritance := by
    intro d hd
    unfold missingReturn at hd
    split at hd
    · dsimp only at hd
      split at hd
      · cases hd
      · rw [List.mem_singleton.1 hd]
        exact nofun
    · cases hd
  have hdead (statements : List NodeId) :
      ∀ d ∈ deadCode t source statements, d.code ≠ .recursiveInterfaceInheritance := by
    intro d hd
    unfold deadCode at hd
    split at hd
    · cases hd
    · rw [List.mem_singleton.1 hd]
      exact nofun
  intro d hd
  obtain ⟨n, -, hd⟩ := List.mem_flatMap.1 hd
  unfold atNode at hd
  split at hd
  · split at hd
    · split at hd
      · cases hd
      · exact hreturn _ _ d hd
    · cases hd
  · split at hd
    · cases hd
    · exact hreturn _ _ d hd
  · exact hdead _ d hd
  · exact hdead _ d hd
  · exact hdead _ d hd
  · cases hd

/-- A cycle is reported at the name of a class of a unit just if the class is in one. -/
theorem Program.resolve_reports_cycle {p : Program} {options : Options} {source : Source}
    {u : LibraryUnit} {r : ResolvedUnit} (hr : p.resolve options source u = .ok r) {l : Library}
    (hl : p.graph.libraryOf? source = some l) {units : List LibraryUnit} (hmade : l.MadeOf units)
    {n name : NodeId} (hn : u.tree.NamesClass n name) {c : ElementId}
    (hc : l.declaredAt? u.source (u.tree.offset name) = some c) :
    (∃ d ∈ r.errors, d.code = .recursiveInterfaceInheritance ∧ d.At u name) ↔
      Relation.TransGen p.graph.Extends c c := by
  obtain ⟨env, start, hints, hlibrary, hgraph, rfl, hstart, hhints, herrors⟩ := resolve_errors hr
  obtain rfl := Option.some.inj (hl.symm.trans hlibrary)
  rw [← Binding.isCyclic_iff, ← hgraph]
  constructor
  · rintro ⟨d, hd, hcode, hat⟩
    rw [herrors] at hd
    rcases List.mem_append.1 hd with hd | hd
    · rcases List.mem_append.1 hd with hd | hd
      · have hd : d ∈ env.library.errors := List.mem_of_mem_filter hd
        rw [hmade.errors_eq] at hd
        obtain ⟨-, -, -, -, hduplicate⟩ := Library.ofUnits_reports _ _ d hd
        rw [hcode] at hduplicate
        cases hduplicate
      · obtain ⟨m, hm, c', hc', hcyclic⟩ :=
          Binding.resolve_cyclic hstart d (Array.mem_toList_iff.1 hd) hcode
        rw [← hm.offset_eq, hat.offset_eq, hc] at hc'
        rwa [Option.some.inj hc']
    · exact absurd hcode (Hint.ofTree_code _ _ d (hhints hd))
  · intro hcyclic
    obtain ⟨d, hd, hcode⟩ := Binding.resolve_ensures hn ⟨c, hc, hcyclic⟩ start
    refine ⟨d, ?_, hcode⟩
    rw [herrors]
    exact List.mem_append_left _ (List.mem_append_right _ (Array.mem_toList_iff.2 hd))

/-- What a class inherits from is found in order of distance and without repetition, however many steps
    are taken; and resolving a unit in which nothing is wrong reports a cycle at the name of each class
    that inherits from itself, and of no other one. -/
theorem hierarchy_exact :
    (∀ (g : Graph) (c : ElementId),
      (∀ more, search (fun d => d) g.superclasses (g.supertypeCount + 1 + more) [c] [c] =
        g.allSuperclasses c) ∧
      (g.allSuperclasses c).Nodup ∧
      (∀ d, d ∈ g.allSuperclasses c ↔ d ≠ c ∧ Relation.TransGen g.Extends c d) ∧
      (g.allSuperclasses c).Pairwise fun d e => g.distance c d ≤ g.distance c e) ∧
    ∀ (p : Program) (options : Options) (source : Source) (l : Library) (units : List LibraryUnit)
      (u : LibraryUnit) (r : ResolvedUnit), p.graph.libraryOf? source = some l → l.MadeOf units →
      u ∈ units → (∀ v ∈ units, v.source = u.source → v = u) → u.Clean →
      p.resolve options source u = .ok r → ∀ n name, u.tree.NamesClass n name →
        ∃ c, l.declaredAt? u.source (u.tree.offset name) = some c ∧
          p.graph.kind c = .classElement ∧
          ((∃ d ∈ r.errors, d.code = .recursiveInterfaceInheritance ∧ d.At u name) ↔
            Relation.TransGen p.graph.Extends c c) := by
  refine ⟨fun g c => ⟨g.allSuperclasses_settled c, g.allSuperclasses_nodup c,
    g.mem_allSuperclasses_iff c, g.allSuperclasses_sorted c⟩, ?_⟩
  intro p options source l units u r hl hmade hu hsame hclean hr n name hn
  obtain ⟨c, hc, hkind⟩ := l.exists_class hmade hu hsame hclean hn
  refine ⟨c, hc, ?_, Program.resolve_reports_cycle hr hl hmade hn hc⟩
  obtain ⟨i, -, rfl⟩ := Option.map_eq_some_iff.1 hc
  rw [← p.graph.source_of_libraryOf? hl] at hl
  rw [Graph.kind, p.graph.element_declared hl, ← Library.element_idAt, hkind]

section Sample

def sourceSample : Source := ⟨.file, "/a.dart"⟩

/-- A class that extends itself. -/
def knotSample : LibraryUnit := .ofText sourceSample "class A extends A {}"

def coreTypesSample : CoreTypes :=
  ⟨.dynamic, .dynamic, .dynamic, .dynamic, .dynamic, .dynamic, .dynamic, .dynamic, .dynamic, .dynamic⟩

def librarySample : Library :=
  let l := Library.ofUnits ⟨sourceSample, 0⟩ [knotSample]
  l.alone.typedLibrary coreTypesSample [knotSample] l

def programSample : Program := ⟨librarySample.alone, coreTypesSample, [librarySample], []⟩

theorem namesClass_sample : knotSample.tree.NamesClass 4 0 := by
  have hsample : (knotSample.tree.declarations, knotSample.tree.kind 4) =
      ([4], .declaration (.classDecl none none 0 0 none (some 3) none none 4 [] 5)) := by
    cbv
  obtain ⟨hdeclarations, hkind⟩ := Prod.mk.inj hsample
  exact .intro (hdeclarations ▸ List.mem_singleton_self 4) hkind

theorem place_sample : (knotSample.tree.offset 0, knotSample.tree.length 0) = (6, 1) := by
  cbv

theorem clean_sample : knotSample.Clean := by
  have herrors : (Parsed.ofText .unit (some sourceSample) "class A extends A {}").errors.length = 0 := by
    cbv
  exact ⟨_, List.length_eq_zero_iff.1 herrors, rfl⟩

theorem outline_sample :
    librarySample.outline = (Library.ofUnits ⟨sourceSample, 0⟩ [knotSample]).outline :=
  Graph.outline_typedLibrary ..

/-- The cycle is reported, so that the class inherits from itself. -/
theorem hierarchy_exact_knot : ∃ r c, programSample.resolve {} sourceSample knotSample = .ok r ∧
    librarySample.declaredAt? sourceSample (knotSample.tree.offset 0) = some c ∧
    (∃ d ∈ r.errors, d.code = .recursiveInterfaceInheritance ∧ d.At knotSample 0) ∧
    Relation.TransGen programSample.graph.Extends c c := by
  have hreports : (programSample.resolve {} sourceSample knotSample).toOption.map
      (fun r => r.errors.map fun d => (d.code, d.source?, d.offset, d.length)) =
      some [(.recursiveInterfaceInheritance, some sourceSample, 6, 1)] := by
    cbv
  obtain ⟨hoffset, hlength⟩ := Prod.mk.inj place_sample
  have hl : programSample.graph.libraryOf? sourceSample = some librarySample := by
    simp [Graph.libraryOf?, programSample, Library.alone, Library.source,
      Library.id_eq_of_outline outline_sample]
  cases hr : programSample.resolve {} sourceSample knotSample with
  | error failure =>
    rw [hr] at hreports
    cases hreports
  | ok r =>
    rw [hr] at hreports
    obtain ⟨d, hd, hfacts⟩ := List.map_eq_singleton_iff.1 (Option.some.inj hreports)
    obtain ⟨hcode, hsource, hdoffset, hdlength⟩ : d.code = _ ∧ d.source? = _ ∧ d.offset = _ ∧
        d.length = _ := by simpa using hfacts
    obtain ⟨c, hc, -, hcycle⟩ := hierarchy_exact.2 programSample {} sourceSample librarySample
      [knotSample] knotSample r hl (.of_outline outline_sample) List.mem_cons_self
      (fun v hv _ => List.mem_singleton.1 hv) clean_sample hr 4 0 namesClass_sample
    have hreported : ∃ d ∈ r.errors, d.code = .recursiveInterfaceInheritance ∧ d.At knotSample 0 :=
      ⟨d, hd ▸ List.mem_singleton_self d, hcode, hsource, hdoffset.trans hoffset.symm,
        hdlength.trans hlength.symm⟩
    exact ⟨r, c, rfl, hc, hreported, hcycle.1 hreported⟩

end Sample

end DartAnalysis
