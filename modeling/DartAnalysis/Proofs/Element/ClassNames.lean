/-
  Where the classes of a unit stand. In a unit in which nothing is wrong every class declaration has its
  element at the offset of its name, whatever other units the library has, and what stands there is a
  class (`Library.exists_class`).
-/
import DartAnalysis.Proofs.Element.Proper
import DartAnalysis.Proofs.Element.Effects
import DartAnalysis.Proofs.Program.Outline

namespace DartAnalysis

/-- A node declares a class of a given name. -/
inductive Tree.NamesClass (t : Tree) (n name : NodeId) : Prop
  | intro {a b c d : Option NodeId} {e : Option TokenId} {f g h : TokenId} {e? : Option NodeId}
      {members : List NodeId} (hn : n ∈ t.declarations)
      (hkind : t.kind n = .declaration (.classDecl a e f name b c d e? g members h))

theorem Tree.NamesClass.mem_declarations {t : Tree} {n name : NodeId} (h : t.NamesClass n name) :
    n ∈ t.declarations := by
  obtain ⟨hn, -⟩ := h
  exact hn

theorem Tree.exists_unit_of_declaration {t : Tree} {n : NodeId} (h : n ∈ t.declarations) :
    ∃ directives declarations, t.kind t.root = .unit directives declarations ∧ n ∈ declarations := by
  unfold declarations at h
  split at h
  · rename_i hkind
    exact ⟨_, _, hkind, h⟩
  · cases h

theorem Tree.mem_children_root_of_declaration {t : Tree} {n : NodeId} (h : n ∈ t.declarations) :
    n ∈ t.children t.root := by
  obtain ⟨directives, declarations, hkind, hn⟩ := exists_unit_of_declaration h
  rw [children_of_kind hkind]
  simp [Node.Kind.fields, Field.children, hn]

/-! ## Elements at offsets -/

namespace Library

variable {l : Library}

theorem spots_outline (l : Library) : l.outline.spots = l.spots := by
  unfold spots outline
  rw [Array.toList_map, List.map_map]
  rfl

theorem element_idAt (l : Library) (i : Nat) :
    l.element (l.idAt i) = (l.elements[i]?).getD .error := by
  simp [element, element?, idAt]

theorem lastBelow?_spec {p : Element → Bool} {n i : Nat} (h : l.lastBelow? p n = some i) :
    ∃ e, l.elements[i]? = some e ∧ p e = true := by
  induction n with
  | zero => cases h
  | succ n ih =>
    unfold lastBelow? at h
    split at h
    · rename_i hp
      obtain rfl := Option.some.inj h
      obtain ⟨e, he, hpe⟩ := (Option.any_eq_true _ _).1 hp
      exact ⟨e, he, hpe⟩
    · exact ih h

theorem exists_lastBelow? {p : Element → Bool} {n i : Nat} (hi : i < n) {e : Element}
    (he : l.elements[i]? = some e) (hp : p e = true) : ∃ j, l.lastBelow? p n = some j := by
  induction n with
  | zero => exact absurd hi (Nat.not_lt_zero i)
  | succ n ih =>
    unfold lastBelow?
    split
    · exact ⟨n, rfl⟩
    · rename_i hnot
      refine ih (Nat.lt_of_le_of_ne (Nat.le_of_lt_succ hi) fun heq => hnot ?_)
      rw [← heq, he]
      exact hp

/-- An element that stands at an offset is found there, or another one is that stands there too. -/
theorem exists_declaredAt? {kind : Element.Kind} {source : Source} {offset : Nat}
    (h : (⟨kind, some source, some offset⟩ : Element.Spot) ∈ l.spots) :
    ∃ c, l.declaredAt? source offset = some c := by
  obtain ⟨e, he, hspot⟩ := List.mem_map.1 h
  obtain ⟨i, hi⟩ := List.mem_iff_getElem?.1 he
  rw [Array.getElem?_toList] at hi
  have hsource : e.source? = some source := congrArg Element.Spot.source? hspot
  have hoffset : e.nameOffset? = some offset := congrArg Element.Spot.nameOffset? hspot
  obtain ⟨j, hj⟩ := exists_lastBelow?
    (p := fun e => e.nameOffset? == some offset && e.source? == some source)
    (Array.getElem?_eq_some_iff.1 hi).1 hi (by simp [hsource, hoffset])
  exact ⟨l.idAt j, by rw [declaredAt?, hj]; rfl⟩

/-- What is found at an offset stands there. -/
theorem spot_of_declaredAt? {source : Source} {offset : Nat} {c : ElementId}
    (h : l.declaredAt? source offset = some c) :
    ∃ i e, c = l.idAt i ∧ l.elements[i]? = some e ∧ e.spot ∈ l.spots ∧
      e.source? = some source ∧ e.nameOffset? = some offset := by
  obtain ⟨i, hi, rfl⟩ := Option.map_eq_some_iff.1 h
  obtain ⟨e, he, hp⟩ := lastBelow?_spec hi
  rw [Bool.and_eq_true, beq_iff_eq, beq_iff_eq] at hp
  have hmem : e ∈ l.elements.toList := Array.mem_toList_iff.2 (Array.mem_of_getElem? he)
  exact ⟨i, e, rfl, he, List.mem_map_of_mem hmem, hp.2, hp.1⟩

end Library

namespace Declare

variable {u : LibraryUnit}

/-- All that stands where a class is named is a class. -/
theorem DeclaredBy.kind_eq (ht : u.tree.Proper) {kind : Element.Kind} {m n name : NodeId}
    (hm : DeclaredBy u.tree kind m) (hn : u.tree.NamesClass n name)
    (hoffset : u.tree.offset name = u.tree.offset m) : kind = .classElement := by
  obtain ⟨hdeclaration, hkind⟩ := hn
  have hbelow : n ∈ u.tree.below u.tree.root :=
    Tree.mem_below_snoc ht.owned (Tree.mem_below_self ht.owned _)
      (Tree.mem_children_root_of_declaration hdeclaration)
  have hdeclared : name ∈ (u.tree.kind n).declared := by simp [hkind, Node.Kind.declared]
  have hchild : name ∈ u.tree.children n := Node.Kind.mem_children_of_declared hdeclared
  obtain ⟨token, htoken⟩ := ht.sorted.identifier_of_declared hdeclared
  have heq {m : NodeId} (hm : m ∈ u.tree.below u.tree.root) (hmay : (u.tree.kind m).mayDeclare = true)
      (hoffset : u.tree.offset name = u.tree.offset m) : name = m :=
    ht.eq_of_offset_eq name (Tree.mem_below_snoc ht.owned hbelow hchild) m hm (by rw [htoken]; rfl) hmay
      hoffset
  cases hm with
  | @name _ p _ hp hm hclass =>
    have hp := (Tree.mem_below_iff ht.owned).2 hp
    obtain ⟨token', htoken'⟩ := ht.sorted.identifier_of_declared hm
    have hchild' : m ∈ u.tree.children p := Node.Kind.mem_children_of_declared hm
    obtain rfl := heq (Tree.mem_below_snoc ht.owned hp hchild') (by rw [htoken']; rfl) hoffset
    -- The node that declares the name is its parent, which is the class.
    have hparent := Tree.parent?_of_mem_children ht hchild
    rw [Tree.parent?_of_mem_children ht hchild'] at hparent
    obtain rfl := Option.some.inj hparent
    exact hclass.2 (by rw [hkind]; rfl)
  | closure hm hclosure =>
    obtain rfl := heq ((Tree.mem_below_iff ht.owned).2 hm) (by rw [hclosure]; rfl) hoffset
    rw [htoken] at hclosure
    cases hclosure

/-! ## What is there to stay -/

/-- Elements that were added stay where they are. -/
theorem allows_spot (u : LibraryUnit) (spot : Element.Spot) :
    Allows u fun s => spot ∈ s.library.spots where
  names _ _ _ _ h := h
  report _ _ _ _ _ h := h
  change s id f hf h := by
    show spot ∈ (s.library.modify id f).spots
    rwa [Library.spots_modify fun e he => (hf e he).heading]
  define s name id _ _ _ h := by
    show spot ∈ (s.library.define name id).spots
    rwa [Library.spots_define]
  element s e _ h := by
    show spot ∈ (s.library.add e).2.spots
    rw [Library.spots_add]
    exact List.mem_append_left _ h
  imports _ _ _ h := h
  exports _ _ h := h

/-- What one of its units adds to a library is in it. -/
theorem mem_spots_collect {units : List LibraryUnit} (hu : u ∈ units) (id : LibraryId)
    {spot : Element.Spot} (h : ∀ isDefining s, (Library.empty id "").Grown s.library →
      spot ∈ (unit isDefining u s).2.library.spots) :
    spot ∈ (collect units (.start id)).2.library.spots := by
  obtain ⟨i, hi⟩ := List.mem_iff_getElem?.1 hu
  have hmem : (u, i) ∈ units.zipIdx := List.mem_zipIdx_iff_getElem?.2 hi
  have hself := Library.kindOf?_self_empty id ""
  have hyields : Yields (fun s => (Library.empty id "").Grown s.library)
      (fun s => spot ∈ s.library.spots) (collect units) := by
    refine .forM hmem (fun s hs => h _ s hs) (fun x _ s hs => ?_) fun x _ => ?_
    · exact (unit_does (allows_true x.1) hself _ s ⟨hs, trivial⟩).1
    · exact unit_does (allows_spot x.1 spot) hself _
  exact hyields (.start id) (.refl _)

section Ensuring

variable {n name : NodeId}

/-- Where the name of a class of the unit stands. -/
def classSpot (u : LibraryUnit) (name : NodeId) : Element.Spot :=
  ⟨.classElement, some u.source, some (u.tree.offset name)⟩

/-- A class gets an element at its name. -/
theorem declaration_ensures (hn : u.tree.NamesClass n name) (unit : ElementId) :
    EnsuresIn u (fun s => classSpot u name ∈ s.library.spots) (declaration unit n) := by
  intro s
  let e : Element :=
    { kind := .classElement, name := u.tree.nameOf name, enclosing? := some unit
      source? := some u.source, nameOffset? := some (u.tree.offset name) }
  have hunder : u.tree.Under u.tree.root n := under_of_declaration hn.mem_declarations
  obtain ⟨-, hkind⟩ := hn
  have hclass : classSpot u name ∈ (s.library.add e).2.spots := by
    rw [Library.spots_add]
    exact List.mem_append_right _ (List.mem_singleton_self _)
  have howner : (s.library.add e).2.kindOf? (s.library.add e).1 = some .classElement :=
    Library.kindOf?_of_heading? Library.heading?_add
  have hcontents := classContents_does (allows_spot u (classSpot u name)).toAllowsDeclarations hunder
    hkind howner { s with library := (s.library.add e).2 } ⟨.refl _, hclass⟩
  unfold declaration
  show _ ∈ ((tree >>= _) u s).2.library.spots
  rw [tree_run, hkind]
  exact hcontents.2

/-- Nothing else that is done with a unit takes that away. -/
theorem unit_ensures (hn : u.tree.NamesClass n name) (isDefining : Bool) :
    EnsuresIn u (fun s => classSpot u name ∈ s.library.spots) (unit isDefining) := by
  have hdeclarations (id : ElementId) : EnsuresIn u (fun s => classSpot u name ∈ s.library.spots)
      (u.tree.declarations.forM (declaration id)) :=
    .forM hn.mem_declarations (declaration_ensures hn id) fun d hd s hs =>
      (declaration_does (allows_spot u _).toAllowsDeclarations id (under_of_declaration hd) s
        ⟨.refl _, hs⟩).2
  have hrest (id : ElementId) : EnsuresIn u (fun s => classSpot u name ∈ s.library.spots) (do
      if isDefining then u.tree.directives.forM (directive id)
      u.tree.declarations.forM (declaration id)) := by
    dsimp only
    split
    · exact .bind fun _ => hdeclarations id
    · exact hdeclarations id
  exact fun s => hrest _ _

end Ensuring

/-- Where elements of a source may stand: at nodes of its unit that declare them. -/
def Settled (u : LibraryUnit) (s : State) : Prop :=
  ∀ spot ∈ s.library.spots, spot.source? = some u.source → ∀ offset ∈ spot.nameOffset?,
    ∃ n, DeclaredBy u.tree spot.kind n ∧ offset = u.tree.offset n

/-- Other units have other sources. -/
theorem allows_settled {v : LibraryUnit} (hsame : v.source = u.source → v = u) :
    Allows v (Settled u) where
  names _ _ _ _ h := h
  report _ _ _ _ _ h := h
  change s id f hf h := by
    show ∀ spot ∈ (s.library.modify id f).spots, _
    rwa [Library.spots_modify fun e he => (hf e he).heading]
  define s name id _ _ _ h := by
    show ∀ spot ∈ (s.library.define name id).spots, _
    rwa [Library.spots_define]
  element s e he h spot hspot hsource offset hoffset := by
    have hspot : spot ∈ (s.library.add e).2.spots := hspot
    rw [Library.spots_add] at hspot
    rcases List.mem_append.1 hspot with hspot | hspot
    · exact h spot hspot hsource offset hoffset
    · obtain rfl := List.mem_singleton.1 hspot
      have hv : e.source? = some u.source := hsource
      rw [he.source_eq] at hv
      obtain rfl := hsame (Option.some.inj hv)
      exact he.declared offset hoffset
  imports _ _ _ h := h
  exports _ _ h := h

end Declare

/-! ## Libraries -/

/-- The library is made of units, whatever its declared types are filled in with. -/
def Library.MadeOf (l : Library) (units : List LibraryUnit) : Prop :=
  l.outline = (Library.ofUnits l.id units).outline

@[simp] theorem Library.id_ofUnits (id : LibraryId) (units : List LibraryUnit) :
    (Library.ofUnits id units).id = id := by
  rw [Declare.ofUnits_eq]

theorem Library.MadeOf.of_outline {l : Library} {id : LibraryId} {units : List LibraryUnit}
    (h : l.outline = (Library.ofUnits id units).outline) : l.MadeOf units := by
  rw [MadeOf, id_eq_of_outline h, id_ofUnits]
  exact h

/-- What a library has stands in its units, but for the library itself. -/
theorem Library.MadeOf.exists_source_eq {l : Library} {units : List LibraryUnit} (hl : l.MadeOf units) :
    ∀ spot ∈ l.spots, spot.kind ≠ .library → ∃ u ∈ units, spot.source? = some u.source := by
  have hallows : ∀ u ∈ units, Declare.Allows u fun s =>
      ∀ spot ∈ s.library.spots, spot.kind ≠ .library → ∃ u ∈ units, spot.source? = some u.source := fun u hu => {
    names := fun _ _ _ _ h => h
    report := fun _ _ _ _ _ h => h
    change := fun s id f hf h => by
      show ∀ spot ∈ (s.library.modify id f).spots, _
      rwa [Library.spots_modify fun e he => (hf e he).heading]
    define := fun s name id _ _ _ h => by
      show ∀ spot ∈ (s.library.define name id).spots, _
      rwa [Library.spots_define]
    element := fun s e he h spot hspot hkind => by
      have hspot : spot ∈ (s.library.add e).2.spots := hspot
      rw [Library.spots_add] at hspot
      rcases List.mem_append.1 hspot with hspot | hspot
      · exact h spot hspot hkind
      · obtain rfl := List.mem_singleton.1 hspot
        exact ⟨u, hu, he.source_eq⟩
    imports := fun _ _ _ h => h
    exports := fun _ _ h => h }
  have hstart : ∀ spot ∈ (Declare.State.start l.id).library.spots, spot.kind ≠ .library →
      ∃ u ∈ units, spot.source? = some u.source := fun spot hspot hkind =>
    absurd (List.mem_singleton.1 hspot ▸ rfl) hkind
  obtain ⟨-, hspots⟩ := Declare.collect_start hallows hstart
  rw [← spots_outline, show l.outline = _ from hl, spots_outline, Declare.ofUnits_eq]
  exact hspots

/-- So the library has a unit element for no other unit. -/
theorem Library.MadeOf.exists_of_unit? {l : Library} {units : List LibraryUnit} (hl : l.MadeOf units)
    {source : Source} (h : (l.unit? source).isSome) : ∃ u ∈ units, u.source = source := by
  obtain ⟨id, hid⟩ := Option.isSome_iff_exists.1 h
  obtain ⟨x, hx, -⟩ := Option.map_eq_some_iff.1 hid
  have hunit := List.find?_some hx
  rw [Bool.and_eq_true, beq_iff_eq, beq_iff_eq] at hunit
  obtain ⟨⟨e, i⟩, he, rfl⟩ := List.mem_map.1 (List.mem_of_find?_eq_some hx)
  have hspot : e.spot ∈ l.spots :=
    List.mem_map_of_mem (List.mem_of_getElem? (List.mem_zipIdx_iff_getElem?.1 he))
  obtain ⟨u, hu, hsource⟩ := hl.exists_source_eq _ hspot
    (by rw [show e.spot.kind = _ from hunit.1]; nofun)
  exact ⟨u, hu, Option.some.inj (hsource.symm.trans hunit.2)⟩

/-- Each class that a clean unit declares has an element at the offset of its name, which is a class,
    in every library that the unit belongs to; no other unit there may have its source. -/
theorem Library.exists_class {l : Library} {units : List LibraryUnit} (hl : l.MadeOf units)
    {u : LibraryUnit} (hu : u ∈ units) (hsame : ∀ v ∈ units, v.source = u.source → v = u)
    (hclean : u.Clean) {n name : NodeId} (hn : u.tree.NamesClass n name) :
    ∃ c, l.declaredAt? u.source (u.tree.offset name) = some c ∧ (l.element c).kind = .classElement := by
  have hspots : l.spots = (Declare.collect units (.start l.id)).2.library.spots := by
    rw [← spots_outline, show l.outline = _ from hl, spots_outline, Declare.ofUnits_eq]
    rfl
  have hclass : Declare.classSpot u name ∈ l.spots := by
    rw [hspots]
    exact Declare.mem_spots_collect hu l.id fun isDefining s _ => Declare.unit_ensures hn isDefining s
  obtain ⟨c, hc⟩ := exists_declaredAt? hclass
  obtain ⟨i, e, rfl, he, hspot, hsource, hoffset⟩ := spot_of_declaredAt? hc
  have hstart : Declare.Settled u (.start l.id) := by
    intro spot hspot _ offset hoffset
    rw [List.mem_singleton.1 hspot] at hoffset
    cases hoffset
  obtain ⟨-, hsettled⟩ := Declare.collect_start
    (fun v hv => Declare.allows_settled (hsame v hv)) hstart
  obtain ⟨m, hm, heq⟩ := hsettled e.spot (hspots ▸ hspot) hsource _ hoffset
  refine ⟨_, hc, ?_⟩
  rw [element_idAt, he, Option.getD_some]
  exact hm.kind_eq hclean.proper hn heq

end DartAnalysis
