/-
  What a library is made of and linked to. It has an element for every unit that it is made of
  (`Library.isSome_unit?_ofUnits`), and it depends on the sources that the directives of its defining
  unit import and export, in order: declarations and parts add nothing to that
  (`Library.dependencies_ofUnits`).
-/
import DartAnalysis.Proofs.Element.ClassNames

namespace DartAnalysis

namespace Tree

variable (t : Tree) (source : Source)

/-- The source that a directive imports, if its URI names one. -/
def imported? (directive : NodeId) : Option Source :=
  match t.kind directive with
  | .directive (.importing _ _ uri _ _ _ _) => source.resolve? ((t.stringValue? uri).getD "")
  | _ => none

/-- The source that a directive exports. -/
def exported? (directive : NodeId) : Option Source :=
  match t.kind directive with
  | .directive (.exporting _ _ uri _ _) => source.resolve? ((t.stringValue? uri).getD "")
  | _ => none

/-- The sources that a unit imports, then those that it exports. -/
def linkedSources : List Source :=
  t.directives.filterMap (t.imported? source) ++ t.directives.filterMap (t.exported? source)

end Tree

namespace Declare

/-! ## Links -/

/-- A library that imports and exports these sources. -/
structure State.Links (imports exports : List Source) (s : State) : Prop where
  imports : s.library.imports.filterMap (·.source?) = imports
  exports : s.library.exports.filterMap (·.source?) = exports

variable {u : LibraryUnit} {imports exports : List Source} {s : State}

theorem State.Links.congr {library : Library} (hlinks : library.links = s.library.links)
    (h : s.Links imports exports) : State.Links imports exports { s with library } := by
  obtain ⟨himports, hexports⟩ := Prod.mk.inj hlinks
  exact ⟨by rw [← h.imports, ← himports], by rw [← h.exports, ← hexports]⟩

/-- Declarations neither import nor export. -/
theorem allowsDeclarations_links (u : LibraryUnit) (imports exports : List Source) :
    AllowsDeclarations u (State.Links imports exports) where
  names _ _ _ _ h := ⟨h.imports, h.exports⟩
  report _ _ _ _ _ h := ⟨h.imports, h.exports⟩
  change s id f _ h := h.congr (s.library.links_modify id f)
  define s name id _ _ _ h := h.congr (s.library.links_define name id)
  element s e _ h := h.congr (s.library.links_add e)

/-- A directive adds its own source. -/
theorem directive_links (unit : ElementId) {d : NodeId} (hd : u.tree.Under u.tree.root d)
    (h : s.Links imports exports) :
    (directive unit d u s).2.Links (imports ++ (u.tree.imported? u.source d).toList)
      (exports ++ (u.tree.exported? u.source d).toList) := by
  have hquiet {s' : State} (h' : s'.Links imports exports) :
      s'.Links (imports ++ []) (exports ++ []) := by
    rwa [List.append_nil, List.append_nil]
  unfold directive Tree.imported? Tree.exported?
  rw [tree_run, read_run]
  cases hkind : u.tree.kind d with
  | directive x =>
    cases x with
    | library comment? keyword name semicolon =>
      exact hquiet (h.congr (s.library.links_modify s.library.self _))
    | importing comment? keyword uri as? qualifier? combinators semicolon =>
      -- Its qualifier may be new; that is an element and no link.
      have hqualifier : (qualifier?.mapM (qualifier unit) u s).2.Links imports exports := by
        cases qualifier? with
        | none => exact h
        | some name =>
          have hname : DeclaredBy u.tree .importQualifier name :=
            declares_of_kind .importQualifier hd hkind (List.mem_singleton_self _) rfl nofun
          exact (qualifier_gives (allowsDeclarations_links u imports exports) hname h).2.1
      obtain ⟨himports, hexports⟩ := hqualifier
      subst himports hexports
      exact ⟨List.filterMap_append, (List.append_nil _).symm⟩
    | exporting comment? keyword uri combinators semicolon =>
      obtain ⟨himports, hexports⟩ := h
      subst himports hexports
      exact ⟨(List.append_nil _).symm, List.filterMap_append⟩
    | _ => exact hquiet h
  | _ => exact hquiet h

theorem directives_links (unit : ElementId) {ds : List NodeId}
    (hds : ∀ d ∈ ds, u.tree.Under u.tree.root d) (h : s.Links imports exports) :
    ((ds.forM (directive unit) : Declaring PUnit) u s).2.Links
      (imports ++ ds.filterMap (u.tree.imported? u.source))
      (exports ++ ds.filterMap (u.tree.exported? u.source)) := by
  induction ds generalizing imports exports s with
  | nil =>
    rw [List.filterMap_nil, List.filterMap_nil, List.append_nil, List.append_nil]
    exact h
  | cons d ds ih =>
    have hrest := ih (fun d' hd' => hds d' (List.mem_cons_of_mem d hd'))
      (directive_links unit (hds d List.mem_cons_self) h)
    rw [List.append_assoc, List.append_assoc] at hrest
    have hcons {β : Type} (f : NodeId → Option β) :
        (d :: ds).filterMap f = (f d).toList ++ ds.filterMap f := by
      cases hd : f d <;> simp [hd]
    rw [hcons, hcons]
    exact hrest

/-- The defining unit adds what its directives name. -/
theorem definingUnit_links (h : s.Links imports exports) :
    (unit true u s).2.Links (imports ++ u.tree.directives.filterMap (u.tree.imported? u.source))
      (exports ++ u.tree.directives.filterMap (u.tree.exported? u.source)) := by
  let e : Element :=
    { kind := .unit, name := u.source.shortName, enclosing? := some s.library.self
      source? := some u.source }
  have hunit : State.Links imports exports { s with library := (s.library.add e).2 } :=
    h.congr (Library.links_add e)
  have hdirectives := @directives_links u _ _ _ (s.library.add e).1 u.tree.directives
    (fun _ hd => under_of_directive hd) hunit
  exact (declarations_do (allowsDeclarations_links u _ _) (s.library.add e).1 _
    ⟨.refl _, hdirectives⟩).2

/-- A library is linked to what the directives of its first unit name. -/
theorem collect_links (units : List LibraryUnit) (h : s.Links imports exports) :
    (collect (u :: units) s).2.Links
      (imports ++ u.tree.directives.filterMap (u.tree.imported? u.source))
      (exports ++ u.tree.directives.filterMap (u.tree.exported? u.source)) := by
  have hparts : Keeps (State.Links (imports ++ u.tree.directives.filterMap (u.tree.imported? u.source))
      (exports ++ u.tree.directives.filterMap (u.tree.exported? u.source)))
      ((units.zipIdx 1).forM fun x => (unit (x.2 == 0)).run x.1) := by
    refine .forM fun x hx => ?_
    have hindex : (x.2 == 0) = false := by
      have := List.le_snd_of_mem_zipIdx hx
      simp only [beq_eq_false_iff_ne]
      omega
    rw [hindex]
    exact fun s h => (part_does (allowsDeclarations_links x.1 _ _) s ⟨.refl _, h⟩).2
  exact hparts _ (definingUnit_links h)

/-! ## Units -/

/-- Where the element of a unit stands. -/
def unitSpot (u : LibraryUnit) : Element.Spot := ⟨.unit, some u.source, none⟩

/-- A unit gets an element of its own. -/
theorem collect_adds (id : LibraryId) {units : List LibraryUnit} (hu : u ∈ units) :
    unitSpot u ∈ (collect units (.start id)).2.library.spots := by
  refine mem_spots_collect hu id fun isDefining s hgrown => ?_
  let e : Element :=
    { kind := .unit, name := u.source.shortName, enclosing? := some s.library.self
      source? := some u.source }
  have hunit : unitSpot u ∈ (s.library.add e).2.spots := by
    rw [Library.spots_add]
    exact List.mem_append_right _ (List.mem_singleton_self _)
  exact (contents_do (allows_spot u _) (Library.kindOf?_self_empty id "") isDefining
    (s.library.add e).1 { s with library := (s.library.add e).2 }
    ⟨hgrown.trans (.add s.library e), hunit⟩).2

end Declare

/-! ## Libraries -/

namespace Library

/-- The sources that a library depends on are those that its defining unit imports and exports. -/
theorem dependencies_ofUnits (id : LibraryId) (u : LibraryUnit) (units : List LibraryUnit) :
    (ofUnits id (u :: units)).dependencies = u.tree.linkedSources u.source := by
  have hstart : (Declare.State.start id).Links [] [] := ⟨rfl, rfl⟩
  obtain ⟨himports, hexports⟩ := Declare.collect_links (u := u) units hstart
  unfold dependencies Tree.linkedSources
  rw [Declare.ofUnits_eq]
  exact congrArg₂ (· ++ ·) himports hexports

/-- Whether a source has a unit in a library is settled by where the elements stand. -/
theorem isSome_unit?_iff {l : Library} {source : Source} :
    (l.unit? source).isSome ↔ ∃ spot ∈ l.spots, spot.kind = .unit ∧ spot.source? = some source := by
  unfold unit? entries spots
  rw [Option.isSome_map, List.find?_isSome]
  constructor
  · rintro ⟨entry, hentry, hunit⟩
    obtain ⟨x, hx, rfl⟩ := List.mem_map.1 hentry
    have hmem : x.1 ∈ l.elements.toList := List.mem_of_getElem? (List.mem_zipIdx_iff_getElem?.1 hx)
    exact ⟨x.1.spot, List.mem_map_of_mem hmem, by simpa [Element.spot] using hunit⟩
  · rintro ⟨spot, hspot, hkind, hsource⟩
    obtain ⟨e, he, rfl⟩ := List.mem_map.1 hspot
    obtain ⟨i, hi⟩ := List.mem_iff_getElem?.1 he
    have hentry : (e, i) ∈ l.elements.toList.zipIdx := List.mem_zipIdx_iff_getElem?.2 hi
    refine ⟨_, List.mem_map_of_mem hentry, ?_⟩
    have hkind : e.kind = .unit := hkind
    have hsource : e.source? = some source := hsource
    simp [hkind, hsource]

theorem isSome_unit?_of_outline {k l : Library} (h : k.outline = l.outline) (source : Source) :
    (k.unit? source).isSome = (l.unit? source).isSome := by
  rw [Bool.eq_iff_iff, isSome_unit?_iff, isSome_unit?_iff, ← spots_outline k, h, spots_outline]

/-- The units that a library is made of are units of it. -/
theorem isSome_unit?_ofUnits (id : LibraryId) {units : List LibraryUnit} {u : LibraryUnit}
    (hu : u ∈ units) : ((ofUnits id units).unit? u.source).isSome := by
  refine isSome_unit?_iff.2 ⟨Declare.unitSpot u, ?_, rfl, rfl⟩
  rw [Declare.ofUnits_eq]
  exact Declare.collect_adds id hu

end Library

end DartAnalysis
