/-
  The classes of declared types. Whatever is filled in as a declared type is what an annotation
  means, or is put together from such types and from core types; and an annotation is made of classes
  of the graph and of what was filled in before. So if all classes of a graph are of some sort, and all
  types that its libraries come with are made of classes of that sort, then so are all types once they
  are filled in. Main statement: `finish_types`.
-/
import DartAnalysis.Proofs.Element.Locals
import DartAnalysis.Proofs.Program.Finished
import DartAnalysis.Proofs.Program.TypeNames
import DartAnalysis.Proofs.Program.Typed

namespace DartAnalysis

namespace DeclaredType

/-! ## Changes -/

/-- A change to types that are made of classes of a sort. -/
def Change.Over (Q : ElementId → Prop) : Change → Prop
  | .type t | .bound t => t.Over Q
  | .supertype t? => ∀ t ∈ t?, t.isInterface = true ∧ t.Over Q
  | .interfaces ts | .mixins ts => ∀ t ∈ ts, t.isInterface = true ∧ t.Over Q

variable {Q : ElementId → Prop}

theorem Change.over_apply {c : Change} (hc : c.Over Q) {e : Element} (he : e.TypesOver Q) :
    (c.apply e).TypesOver Q := by
  obtain ⟨htype, hsupertypes, hbound⟩ := he
  have hmem {t : StaticType} (e : Element) : t ∈ e.supertypes ↔
      t ∈ e.mixins ∨ t ∈ e.supertype? ∨ t ∈ e.interfaces := by
    simp [Element.supertypes]
  simp only [hmem] at hsupertypes
  cases c with
  | type t => exact ⟨hc, fun t ht => hsupertypes t ((hmem _).1 ht), hbound⟩
  | bound t => exact ⟨htype, fun t ht => hsupertypes t ((hmem _).1 ht), fun u hu => Option.some.inj hu ▸ hc⟩
  | supertype t? =>
    refine ⟨htype, fun t ht => ?_, hbound⟩
    rcases (hmem _).1 ht with ht | ht | ht
    · exact hsupertypes t (.inl ht)
    · exact hc t ht
    · exact hsupertypes t (.inr (.inr ht))
  | interfaces ts =>
    refine ⟨htype, fun t ht => ?_, hbound⟩
    rcases (hmem _).1 ht with ht | ht | ht
    · exact hsupertypes t (.inl ht)
    · exact hsupertypes t (.inr (.inl ht))
    · exact hc t ht
  | mixins ts =>
    refine ⟨htype, fun t ht => ?_, hbound⟩
    rcases (hmem _).1 ht with ht | ht | ht
    · exact hc t ht
    · exact hsupertypes t (.inr (.inl ht))
    · exact hsupertypes t (.inr (.inr ht))

/-- All changes are to such types. -/
def AllOver (Q : ElementId → Prop) (changes : Array (ElementId × Change)) : Prop :=
  ∀ x ∈ changes, x.2.Over Q

theorem change_keeps (id : ElementId) {c : Change} (hc : c.Over Q) :
    Keeps (AllOver Q) (change id c) := by
  refine .modify fun changes h x hx => ?_
  rcases Array.mem_push.1 hx with hx | rfl
  · exact h x hx
  · exact hc

/-! ## Sites -/

/-- All that types are made of at a site is made of classes of the sort. -/
structure Site.Fits (Q : ElementId → Prop) (site : Site) : Prop where
  core : site.core.Over Q
  library : site.library.TypesOver Q
  annotation : ∀ typeParameters node, (site.annotation typeParameters node).Over Q

section Sites

variable {site : Site} (hsite : site.Fits Q)
include hsite

theorem read_over (typeName : NodeId) : (read site typeName).Over Q := hsite.annotation _ _

theorem read?_over (typeName? : Option NodeId) : (read? site typeName?).Over Q := by
  cases typeName? with
  | none => trivial
  | some typeName => exact read_over hsite typeName

theorem readClasses_over (typeNames : List NodeId) :
    ∀ t ∈ readClasses site typeNames, t.isInterface = true ∧ t.Over Q := by
  intro t ht
  obtain ⟨hread, hinterface⟩ := List.mem_filter.1 ht
  obtain ⟨typeName, -, rfl⟩ := List.mem_map.1 hread
  exact ⟨hinterface, read_over hsite typeName⟩

/-! ### Variables and hierarchy -/

omit hsite in
/-- The type of what a name declares is filled in. -/
theorem declare_keeps (name : NodeId) {c : Change} (hc : c.Over Q) :
    Keeps (AllOver Q) ((declared? site name).forM fun id => change id c) :=
  .option_forM fun id _ => change_keeps id hc

theorem declareVariables_keeps (list : NodeId) : Keeps (AllOver Q) (declareVariables site list) :=
  .forM fun x _ => declare_keeps x.1 (read?_over hsite _)

theorem bounds_keeps (list? : Option NodeId) : Keeps (AllOver Q) (bounds site list?) := by
  unfold bounds
  dsimp only
  split
  · refine .forM fun node _ => ?_
    split
    · exact declare_keeps _ (read_over hsite _)
    · exact .pure _
  · exact .pure _

theorem superclass_over (id : ElementId) (clause? : Option NodeId) :
    ∀ t ∈ superclass site id clause?, t.isInterface = true ∧ t.Over Q := by
  have hobject : site.core.object.isInterface = true ∧ site.core.object.Over Q :=
    ⟨rfl, hsite.core.objectClass, trivial⟩
  intro t ht
  unfold superclass at ht
  dsimp only at ht
  split at ht
  · cases ht
  · split at ht
    · rename_i typeName hclause
      obtain rfl := Option.some.inj ht
      split
      · exact ⟨‹_›, read_over hsite typeName⟩
      · exact hobject
    · obtain rfl := Option.some.inj ht
      exact hobject

theorem hierarchy_keeps (id : ElementId) (typeParameters? extends? with? implements? : Option NodeId) :
    Keeps (AllOver Q) (hierarchy site id typeParameters? extends? with? implements?) := by
  unfold hierarchy
  dsimp only
  refine .bind (bounds_keeps hsite _) fun _ =>
    .bind (change_keeps id (superclass_over hsite id extends?)) fun _ => ?_
  split
  · refine .bind (change_keeps id (readClasses_over hsite _)) fun _ => ?_
    split
    · exact change_keeps id (readClasses_over hsite _)
    · exact .pure _
  · split
    · exact change_keeps id (readClasses_over hsite _)
    · exact .pure _

/-! ### Executables -/

theorem fieldType_over (name : String) : (fieldType site name).Over Q := by
  unfold fieldType
  split
  · dsimp only
    split
    · exact (hsite.library.element _).type
    · trivial
  · trivial

omit hsite in
/-- Parameters whose types are made of classes of the sort. -/
structure Parameters.Over (Q : ElementId → Prop) (ps : Parameters) : Prop where
  required : ∀ t ∈ ps.required, t.Over Q
  positional : ∀ t ∈ ps.positional, t.Over Q
  named : ∀ x ∈ ps.named, x.2.Over Q

omit hsite in
theorem Parameters.Over.add {ps : Parameters} (h : ps.Over Q) (kind : ParameterKind) (name : String)
    {type : StaticType} (htype : type.Over Q) : (ps.add kind name type).Over Q := by
  have hone {α : Type} {xs : List α} {x : α} {P : α → Prop} (hxs : ∀ y ∈ xs, P y) (hx : P x) :
      ∀ y ∈ xs ++ [x], P y := by
    intro y hy
    rcases List.mem_append.1 hy with hy | hy
    · exact hxs y hy
    · exact List.mem_singleton.1 hy ▸ hx
  obtain ⟨hrequired, hpositional, hnamed⟩ := h
  cases kind with
  | required => exact ⟨hone hrequired htype, hpositional, hnamed⟩
  | positional => exact ⟨hrequired, hone hpositional htype, hnamed⟩
  | named => exact ⟨hrequired, hpositional, hone (P := fun x : String × StaticType => x.2.Over Q) hnamed htype⟩

/-- A parameter that assigns a field has the type of the field, unless one is written. -/
theorem fieldParameter_over (typeName? : Option NodeId) (name : String) :
    ((typeName?.map (read site)).getD (fieldType site name)).Over Q := by
  cases typeName? with
  | none => exact fieldType_over hsite name
  | some typeName => exact read_over hsite typeName

theorem parameter_gives {ps : Parameters} (hps : ps.Over Q) (node : NodeId) :
    Gives (AllOver Q) (Parameters.Over Q) (parameter site ps node) := by
  unfold parameter
  dsimp only
  split
  · exact .pure hps
  · rename_i name type hnamed
    refine .after (declare_keeps name ?_) fun _ => .pure (hps.add _ _ ?_)
    all_goals
      split at hnamed
      · obtain ⟨rfl, rfl⟩ := Prod.mk.inj (Option.some.inj hnamed)
        exact read?_over hsite _
      · obtain ⟨rfl, rfl⟩ := Prod.mk.inj (Option.some.inj hnamed)
        exact fieldParameter_over hsite _ _
      · cases hnamed

theorem functionType_gives {result : StaticType} (hresult : result.Over Q)
    (parameters? : Option NodeId) :
    Gives (AllOver Q) (·.Over Q) (functionType site result parameters?) := by
  unfold functionType
  split
  · refine .bind (.foldlM (fun ps hps node _ => parameter_gives hsite hps node)
      ⟨nofun, nofun, nofun⟩) fun ps hps => .pure ?_
    exact StaticType.over_function.2 ⟨hresult, hps.required, hps.positional, hps.named⟩
  · exact .pure (StaticType.over_function.2 ⟨hresult, nofun, nofun, nofun⟩)

/-- The type of an executable is filled in. -/
theorem function_keeps (id : ElementId) {result : StaticType} (hresult : result.Over Q)
    (parameters? : Option NodeId) :
    Keeps (AllOver Q) (do change id (.type (← functionType site result parameters?))) :=
  (functionType_gives hsite hresult parameters?).keeps fun _ htype => change_keeps id htype

section Walk

omit hsite

variable {walk : Walk} (hwalk : ∀ node, Keeps (AllOver Q) (walk node))
include hwalk

theorem initializers_keeps (list : NodeId) : Keeps (AllOver Q) (initializers site walk list) :=
  .forM fun _ _ => .option_forM fun n _ => hwalk n

theorem inside_keeps (parameters? : Option NodeId) (body : NodeId) :
    Keeps (AllOver Q) (inside walk parameters? body) :=
  .bind (.option_forM fun n _ => hwalk n) fun _ => hwalk body

include hsite in
theorem functionDeclaration_keeps (node : NodeId) :
    Keeps (AllOver Q) (functionDeclaration site walk node) := by
  unfold functionDeclaration
  dsimp only
  split
  · split
    · exact .bind (.option_forM fun id _ => function_keeps hsite id (read?_over hsite _) _) fun _ =>
        inside_keeps hwalk _ _
    · exact .pure _
  · exact .pure _

end Walk

theorem walkTo_keeps (depth : Nat) (node : NodeId) : Keeps (AllOver Q) (walkTo site depth node) := by
  induction depth generalizing node with
  | zero => exact .pure _
  | succ depth ih =>
    unfold walkTo
    dsimp only
    split
    · exact .bind (declareVariables_keeps hsite node) fun _ => initializers_keeps ih node
    · exact declare_keeps _ (read?_over hsite _)
    · refine .bind (.option_forM fun id _ => change_keeps id (read?_over hsite _)) fun _ =>
        .bind (.option_forM fun id _ => change_keeps id ?_) fun _ => ih _
      exact ⟨hsite.core.stackTraceClass, trivial⟩
    · exact functionDeclaration_keeps hsite ih node
    · refine .bind (.option_forM fun id _ => function_keeps hsite id ?_ _) fun _ => inside_keeps ih _ _
      exact (trivial : StaticType.dynamic.Over Q)
    · exact .forM fun n _ => ih n

theorem classMember_keeps (node : NodeId) : Keeps (AllOver Q) (classMember site node) := by
  have hwalk (node : NodeId) : Keeps (AllOver Q) (walk site node) := walkTo_keeps hsite _ node
  unfold classMember
  dsimp only
  split
  · exact initializers_keeps hwalk _
  · refine .option_forM fun id _ => ?_
    exact (functionType_gives hsite (read?_over hsite _) _).keeps fun type htype =>
      .bind (change_keeps id htype) fun _ => inside_keeps hwalk _ _
  · refine .option_forM fun id _ => (functionType_gives hsite ?_ _).keeps fun type htype =>
      .bind (change_keeps id htype) fun _ => .bind (hwalk _) fun _ =>
        .bind (.forM fun n _ => hwalk n) fun _ => hwalk _
    cases site.owner? with
    | none => trivial
    | some owner => exact (hsite.library.element owner).type
  · exact .pure _

/-! ### Rounds -/

theorem declaration_keeps (round : Round) (node : NodeId) :
    Keeps (AllOver Q) (declaration site round node) := by
  have hwithin (owner? : Option ElementId) (typeParameters : List ElementId) :
      Site.Fits Q { site with owner?, typeParameters } :=
    ⟨hsite.core, hsite.library, hsite.annotation⟩
  unfold declaration
  dsimp only
  split
  · exact .option_forM fun id _ =>
      function_keeps (hwithin site.owner? _) id (read?_over (hwithin site.owner? _) _) _
  · refine .option_forM fun id _ => ?_
    have hclass := hwithin (some id) (site.library.element id).typeParameters
    split
    · exact .pure _
    · refine .bind (hierarchy_keeps hclass _ _ _ _ _) fun _ => .forM fun member _ => ?_
      split
      · exact declareVariables_keeps hclass _
      · exact .pure _
    · exact .forM fun member _ => classMember_keeps hclass member
  · exact declareVariables_keeps hsite _
  · exact initializers_keeps (walkTo_keeps hsite _) _
  · exact functionDeclaration_keeps hsite (walkTo_keeps hsite _) _
  · exact .pure _

end Sites

/-- All that a round finds out is made of classes of the sort. -/
theorem changes_over {sites : List Site} (hsites : ∀ site ∈ sites, site.Fits Q) (round : Round) :
    AllOver Q (changes sites round) := by
  have hkeeps : Keeps (AllOver Q) (sites.forM fun site =>
      site.unit.tree.declarations.forM (declaration site round)) :=
    .forM fun site hsite => .forM fun node _ => declaration_keeps (hsites site hsite) round node
  exact hkeeps #[] fun _ hx => absurd hx (Array.not_mem_empty _)

end DeclaredType

/-! ## Libraries -/

section Libraries

variable {Q : ElementId → Prop} {core : CoreTypes} {l : Library} {units : List LibraryUnit}

theorem Library.TypesOver.modify (hl : l.TypesOver Q) (id : ElementId) {c : DeclaredType.Change}
    (hc : c.Over Q) : (l.modify id c.apply).TypesOver Q := by
  intro i e he
  rcases getElem?_modify_cases he with he | ⟨g, hg, -, rfl⟩
  · exact hl i e he
  · exact DeclaredType.Change.over_apply hc (hl i g hg)

theorem Library.TypesOver.apply (hl : l.TypesOver Q) {changes : Array (ElementId × DeclaredType.Change)}
    (h : DeclaredType.AllOver Q changes) : (l.apply changes).TypesOver Q := by
  unfold Library.apply
  rw [← Array.foldl_toList]
  have h : ∀ x ∈ changes.toList, x.2.Over Q := fun x hx => h x (Array.mem_toList_iff.1 hx)
  generalize changes.toList = changes at h
  induction changes generalizing l with
  | nil => exact hl
  | cons x changes ih =>
    exact ih (hl.modify x.1 (h x List.mem_cons_self)) fun y hy => h y (List.mem_cons_of_mem x hy)

theorem Library.TypesOver.declareRound (hl : l.TypesOver Q) (hcore : core.Over Q)
    {annotations : LibraryUnit → List ElementId → NodeId → StaticType}
    (hannotations : ∀ unit typeParameters node, (annotations unit typeParameters node).Over Q)
    (round : DeclaredType.Round) : (l.declareRound core annotations units round).TypesOver Q := by
  refine hl.apply (DeclaredType.changes_over (fun site hsite => ?_) round)
  obtain ⟨unit, -, rfl⟩ := List.mem_map.1 hsite
  exact ⟨hcore, hl, hannotations unit⟩

end Libraries

/-! ## Graphs -/

namespace Graph

variable {g h : Graph} {Q : ElementId → Prop} {core : CoreTypes} {l : Library}
  {units : List LibraryUnit}

/-- Elements have their kinds whatever their declared types are. -/
theorem kind_eq_of_outlines (hgh : g.outlines = h.outlines) (id : ElementId) : g.kind id = h.kind id := by
  cases id with
  | dynamic | error => rfl
  | declared library index =>
    have hlibrary : (g.library? library).map Library.outline = (h.library? library).map Library.outline := by
      have hfilter (g : Graph) : (g.library? library).map Library.outline =
          ((g.libraryOf? library.source).map Library.outline).filter (·.id == library) := by
        unfold library?
        cases g.libraryOf? library.source with
        | none => rfl
        | some l =>
          rw [Option.map_some, Option.filter_some, Option.filter_some]
          split <;> rename_i hid <;> simp only [Library.outline, hid] <;> rfl
      rw [hfilter, hfilter, libraryOf?_outline, libraryOf?_outline, hgh]
    show (((g.library? library).bind (·.elements[index]?)).getD .error).kind =
      (((h.library? library).bind (·.elements[index]?)).getD .error).kind
    cases hk : g.library? library with
    | none =>
      rw [hk] at hlibrary
      rw [Option.map_eq_none_iff.1 hlibrary.symm]
    | some k =>
      rw [hk] at hlibrary
      obtain ⟨l, hl, hlibrary⟩ := Option.map_eq_some_iff.1 hlibrary.symm
      rw [hl]
      have houtline := Library.getElem?_eq_of_outline hlibrary.symm index
      rw [Option.bind_some, Option.bind_some]
      cases hi : k.elements[index]? with
      | none =>
        rw [hi] at houtline
        rw [Option.map_eq_none_iff.1 houtline.symm]
      | some e =>
        rw [hi] at houtline
        obtain ⟨f, hf, houtline⟩ := Option.map_eq_some_iff.1 houtline.symm
        rw [hf]
        exact Element.kind_eq_of_outline houtline.symm

/-- The graph knows the elements of its libraries. -/
theorem kind_of_kindOf? (hl : g.libraryOf? l.source = some l) {id : ElementId} {kind : Element.Kind}
    (hkind : l.kindOf? id = some kind) : g.kind id = kind := by
  obtain ⟨i, -, rfl⟩ := l.exists_of_kindOf? (Option.isSome_iff_exists.2 ⟨_, hkind⟩)
  obtain ⟨e, he, rfl⟩ := Option.map_eq_some_iff.1 hkind
  rw [Library.element?_idAt] at he
  rw [kind, element_declared g hl, he]
  rfl

/-- Elements other than what stands for none are those of libraries. -/
theorem exists_library_of_kind {id : ElementId} {kind : Element.Kind} (hkind : g.kind id = kind)
    (hdeclared : kind ≠ .dynamic ∧ kind ≠ .error) :
    ∃ l ∈ g.libraries, l.kindOf? id = some kind := by
  subst hkind
  rcases g.element_cases id with hid | hid | ⟨l, hl, i, rfl, he⟩
  · exact absurd (congrArg Element.kind hid) hdeclared.1
  · exact absurd (congrArg Element.kind hid) hdeclared.2
  · refine ⟨l, hl, ?_⟩
    rw [Library.kindOf?, Library.element?_idAt, he]
    rfl

/-- All classes of the graph are of a sort, and so are those that types are made of. -/
structure ClassesOver (Q : ElementId → Prop) (g : Graph) : Prop where
  classes : ∀ id, g.kind id = .classElement → Q id
  types : ∀ l ∈ g.libraries, l.TypesOver Q

theorem ClassesOver.annotations (hg : g.ClassesOver Q) (scope : LibraryScope) (l : Library) (unit : LibraryUnit)
    (typeParameters : List ElementId) (node : NodeId) :
    (g.annotations scope l unit typeParameters node).Over Q := by
  have hfits : TypeNames.Fits ⟨g, scope, unit⟩ (fun _ => True) Q := {
    error := trivial
    lookup := fun _ _ _ => trivial
    qualified := fun _ _ _ _ => trivial
    qualifier := fun _ _ _ => trivial
    classes := hg.classes
    aliases := fun id _ => (Over.of_libraries hg.types).type id }
  exact (TypeNames.read_fits hfits (fun _ _ _ => trivial) node).1

theorem ClassesOver.put (hg : g.ClassesOver Q) (hl : l.TypesOver Q)
    (houtline : ∀ k ∈ g.libraries, k.id = l.id → k.outline = l.outline) : (g.put l).ClassesOver Q where
  classes id hid := hg.classes id (by rwa [← kind_eq_of_outlines (g.outlines_put l houtline)])
  types k hk := by
    obtain ⟨m, hm, rfl⟩ := List.mem_map.1 hk
    split
    · exact hl
    · exact hg.types m hm

/-- The declared types of a library are made of classes of the sort once they are filled in. -/
theorem ClassesOver.typedLibrary (hg : g.ClassesOver Q) (hcore : core.Over Q) (hdistinct : g.Distinct)
    (hl : l ∈ g.libraries) (units : List LibraryUnit) : (g.typedLibrary core units l).TypesOver Q := by
  have hrounds (rounds : List DeclaredType.Round) (k : Library) (hk : k.outline = l.outline)
      (htypes : k.TypesOver Q) :
      (rounds.foldl (g.declareRound core (.ofLibrary g l) units) k).TypesOver Q := by
    induction rounds generalizing k with
    | nil => exact htypes
    | cons round rounds ih =>
      refine ih _ ((g.outline_declareRound ..).trans hk) ?_
      refine htypes.declareRound hcore (fun unit => ?_) round
      refine (hg.put htypes fun m hm hid => ?_).annotations _ k unit
      rw [hk, hdistinct.eq_of_source hm hl]
      exact (congrArg LibraryId.source hid).trans (Library.source_eq_of_outline hk)
  exact hrounds _ l rfl (hg.types l hl)

theorem ClassesOver.declareTypes (hg : g.ClassesOver Q) (hcore : core.Over Q) (hdistinct : g.Distinct)
    (id : LibraryId) (units : List LibraryUnit) : (g.declareTypes core id units).ClassesOver Q := by
  unfold Graph.declareTypes
  cases hlibrary : g.library? id with
  | none => exact hg
  | some l =>
    have hl : l ∈ g.libraries := g.mem_of_libraryOf? (Option.mem_filter_iff.1 hlibrary).1
    have houtline := g.outline_typedLibrary core units l
    refine hg.put (hg.typedLibrary hcore hdistinct hl units) fun k hk hid => ?_
    rw [houtline, hdistinct.eq_of_source hk hl]
    exact (congrArg LibraryId.source hid).trans (Library.source_eq_of_outline houtline)

/-- Filling in declared types keeps that. -/
theorem ClassesOver.declareAll (hg : g.ClassesOver Q) (hcore : core.Over Q) (hdistinct : g.Distinct)
    (pending : List (LibraryId × List LibraryUnit)) : (g.declareAll core pending).ClassesOver Q := by
  induction pending generalizing g with
  | nil => exact hg
  | cons entry pending ih =>
    rw [declareAll_cons]
    exact ih (hg.declareTypes hcore hdistinct entry.1 entry.2)
      (hdistinct.of_outlines (outlines_declareTypes hdistinct).symm)

end Graph

/-! ## Core types -/

namespace CoreTypes

variable {core : CoreTypes} {l : Library}

theorem kindOf?_of_findClass {name : String} {c : ElementId} (h : findClass l name = .ok c) :
    l.kindOf? c = some .classElement := by
  unfold findClass at h
  split at h
  · rename_i d hd
    obtain rfl := Except.ok.inj h
    obtain ⟨e, he, hkind⟩ := (Option.any_eq_true _ _).1 (Option.mem_filter_iff.1 hd).2
    rw [Library.kindOf?, he, Option.map_some, eq_of_beq hkind]
  · cases h

theorem findClass_of_findGeneric {name : String} {arity : Nat} {c : ElementId}
    (h : findGeneric l name arity = .ok c) : findClass l name = .ok c := by
  unfold findGeneric at h
  cases hclass : findClass l name with
  | error defect =>
    rw [hclass] at h
    cases h
  | ok d =>
    rw [hclass] at h
    dsimp only [bind, Except.bind] at h
    split at h
    · exact h
    · cases h

/-- The core types are classes of the core library. -/
theorem over_of_ofLibrary (h : ofLibrary l = .ok core) :
    core.Over fun c => l.kindOf? c = some .classElement := by
  unfold ofLibrary at h
  obtain ⟨objectClass, hobject, h⟩ := exists_of_bind_eq_ok h
  obtain ⟨boolClass, hbool, h⟩ := exists_of_bind_eq_ok h
  obtain ⟨numClass, hnum, h⟩ := exists_of_bind_eq_ok h
  obtain ⟨intClass, hint, h⟩ := exists_of_bind_eq_ok h
  obtain ⟨doubleClass, hdouble, h⟩ := exists_of_bind_eq_ok h
  obtain ⟨stringClass, hstring, h⟩ := exists_of_bind_eq_ok h
  obtain ⟨stackTraceClass, hstackTrace, h⟩ := exists_of_bind_eq_ok h
  obtain ⟨typeClass, htype, h⟩ := exists_of_bind_eq_ok h
  obtain ⟨listClass, hlist, h⟩ := exists_of_bind_eq_ok h
  obtain ⟨mapClass, hmap, h⟩ := exists_of_bind_eq_ok h
  obtain rfl := Except.ok.inj h
  have hlist := findClass_of_findGeneric hlist
  have hmap := findClass_of_findGeneric hmap
  constructor <;> exact kindOf?_of_findClass ‹_›

end CoreTypes

/-! ## Programs -/

/-- If nothing but classes of a sort was there before, there is nothing else in a program. -/
theorem Program.finish_types {p : Provider (Except Failure)} {root : Source} {s : Gathering}
    {q : Program} (hp : p.Sound) (hs : Gathered p root s) (hq : finish s = .ok q)
    {Q : ElementId → Prop} (hclosed : s.graph.ClassesOver Q) : q.graph.ClassesOver Q ∧ q.core.Over Q := by
  obtain ⟨l, hl, hcore, hgraph, -, -⟩ := finish_eq_ok hq
  have hover : q.core.Over Q := (CoreTypes.over_of_ofLibrary hcore).mono fun c hc =>
    hclosed.classes c (Graph.kind_of_kindOf? (s.graph.source_of_libraryOf? hl ▸ hl) hc)
  rw [hgraph]
  exact ⟨hclosed.declareAll hover (hs.distinct hp) _, hover⟩

end DartAnalysis
