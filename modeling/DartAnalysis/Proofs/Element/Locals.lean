/-
  Where local variables are in a library. The elements of a library refer to each other as they should:
  children are of the library, type parameters are type parameters, and what is visible at the top is no
  local variable (`Library.Orderly`). A local variable is a child of a function that stands where one is
  declared whose body declares something (`Houses`), so that no class has one among its children. A
  library keeps that while elements are added to it and more is known of them, and so does every library
  that sorted units make (`Library.orderly_ofUnits`); some libraries have no local variables at all, as the
  core library (`Library.Orderly.of_isPlain`).
-/
import DartAnalysis.Element.Core
import DartAnalysis.Proofs.Element.Effects
import DartAnalysis.Proofs.Program.Outline

namespace DartAnalysis

namespace Library

variable {U : LibraryUnit → Prop} {l k : Library}

/-- An element that is no class and stands where a function of a unit does that declares something in
    its body; the second element is of that unit too. -/
def Houses (U : LibraryUnit → Prop) (e f : Element) : Prop :=
  e.kind ≠ .classElement ∧ ∃ u, U u ∧ f.source? = some u.source ∧ e.source? = some u.source ∧
    ∃ n d body m, u.tree.Under u.tree.root n ∧ u.tree.Hosts n d body ∧ u.tree.Under body m ∧
      (u.tree.kind m).isLocal = true ∧ (u.tree.kind m).declared ≠ [] ∧
      e.nameOffset? = some (u.tree.offset d)

theorem Houses.congr {e e' f : Element} (h : Houses U e f) (heading : e'.heading = e.heading) :
    Houses U e' f := by
  have h : Houses U e.heading f := h
  rw [← heading] at h
  exact h

/-- The elements of a library refer to each other as they should, and local variables are inside
    functions. -/
structure Orderly (U : LibraryUnit → Prop) (l : Library) : Prop where
  self : l.kindOf? l.self = some .library
  children : ∀ (i : Nat) (e : Element), l.elements[i]? = some e → ∀ c ∈ e.children,
    ∃ j f, c = l.idAt j ∧ l.headings[j]? = some f ∧ (f.kind = .localVariable → Houses U e f)
  typeParameters : ∀ (i : Nat) (e : Element), l.elements[i]? = some e → ∀ p ∈ e.typeParameters,
    l.kindOf? p = some .typeParameter
  definitions : ∀ x ∈ l.definitions, ∃ kind, l.kindOf? x.2 = some kind ∧ kind ≠ .localVariable
  qualifiers : ∀ i ∈ l.imports, ∀ q ∈ i.qualifier?, l.kindOf? q = some .importQualifier

/-- All declared types are made of classes of the library itself. -/
def OwnTypes (l : Library) : Prop := l.TypesOver fun c => l.kindOf? c = some .classElement

namespace Orderly

theorem definitions_of_grown (h : l.Orderly U) (hgrown : l.Grown k) (hdefined : k.defined = l.defined) :
    ∀ x ∈ k.definitions, ∃ kind, k.kindOf? x.2 = some kind ∧ kind ≠ .localVariable := by
  have hdefinitions : k.definitions = l.definitions := by
    unfold Library.definitions
    simp only [hdefined, hgrown.idAt]
  intro x hx
  obtain ⟨kind, hkind, hlocal⟩ := h.definitions x (hdefinitions ▸ hx)
  exact ⟨kind, hgrown.kindOf? hkind, hlocal⟩

theorem self_of_grown (h : l.Orderly U) (hgrown : l.Grown k) : k.kindOf? k.self = some .library := by
  have hself : k.self = l.self := hgrown.idAt 0
  rw [hself]
  exact hgrown.kindOf? h.self

theorem qualifiers_of_grown (h : l.Orderly U) (hgrown : l.Grown k) (hlinks : k.links = l.links) :
    ∀ i ∈ k.imports, ∀ q ∈ i.qualifier?, k.kindOf? q = some .importQualifier := by
  intro i hi q hq
  have himports : k.imports = l.imports := congrArg Prod.fst hlinks
  exact hgrown.kindOf? (h.qualifiers i (himports ▸ hi) q hq)

end Orderly

/-- Each element after one was added is the new one, or an old one with perhaps one child more. -/
theorem getElem?_add_cases {e f : Element} {i : Nat} (h : (l.add e).2.elements[i]? = some f) :
    f = e ∨ ∃ g, l.elements[i]? = some g ∧ (f = g ∨ e.enclosing? = some (l.idAt i) ∧
      f = { g with children := g.children ++ [l.idAt l.elements.size] }) := by
  unfold Library.add at h
  dsimp only at h
  rw [Array.getElem?_push] at h
  split at h
  · rename_i p hp
    split at h
    · exact .inl (Option.some.inj h).symm
    rw [getElem?_modify] at h
    split at h
    · rename_i hpi
      obtain ⟨g, hg, rfl⟩ := Option.map_eq_some_iff.1 h
      exact .inr ⟨g, hg, .inr ⟨hpi ▸ hp, rfl⟩⟩
    · exact .inr ⟨f, h, .inl rfl⟩
  · split at h
    · exact .inl (Option.some.inj h).symm
    · exact .inr ⟨f, h, .inl rfl⟩

/-- An element after one was changed is what it was before, or the changed one. -/
theorem getElem?_modify_cases {id : ElementId} {f : Element → Element} {i : Nat} {e : Element}
    (h : (l.modify id f).elements[i]? = some e) :
    l.elements[i]? = some e ∨ ∃ g, l.elements[i]? = some g ∧ l.element? id = some g ∧ e = f g := by
  rw [getElem?_modify] at h
  split at h
  · rename_i hid
    obtain ⟨g, hg, rfl⟩ := Option.map_eq_some_iff.1 h
    exact .inr ⟨g, hg, by rw [hid, element?_idAt, hg], rfl⟩
  · exact .inl h

/-- One more element, which has nothing inside yet. -/
theorem Orderly.add (h : l.Orderly U) {e : Element} (hblank : e.IsBlank)
    (hlocal : e.kind = .localVariable → ∃ p g, e.enclosing? = some p ∧ l.heading? p = some g ∧
      Houses U g e) : (l.add e).2.Orderly U := by
  have hgrown := Grown.add l e
  have hnew : (l.add e).2.headings[l.elements.size]? = some e.heading := by
    rw [headings_add, ← l.length_headings, List.getElem?_concat_length]
  refine ⟨h.self_of_grown hgrown, fun i f hf c hc => ?_, fun i f hf p hp => ?_,
    h.definitions_of_grown hgrown defined_add, h.qualifiers_of_grown hgrown (links_add e)⟩
  · have hold {g : Element} (hg : l.elements[i]? = some g) (hc : c ∈ g.children) :
        ∃ j f, c = (l.add e).2.idAt j ∧ (l.add e).2.headings[j]? = some f ∧
          (f.kind = .localVariable → Houses U g f) := by
      obtain ⟨j, f, hj, hf, hlocal⟩ := h.children i g hg c hc
      exact ⟨j, f, hj.trans (hgrown.idAt j).symm, hgrown.getElem? hf, hlocal⟩
    rcases getElem?_add_cases hf with rfl | ⟨g, hg, rfl | ⟨henclosing, rfl⟩⟩
    · rw [hblank] at hc
      cases hc
    · exact @hold _ hg hc
    · rcases List.mem_append.1 hc with hc | hc
      · exact @hold g hg hc
      · refine ⟨l.elements.size, e.heading, (List.mem_singleton.1 hc).trans (hgrown.idAt _).symm, hnew,
          fun hkind => ?_⟩
        obtain ⟨p, g', hp, hg', hhouses⟩ := hlocal hkind
        obtain rfl := Option.some.inj (henclosing.symm.trans hp)
        rw [heading?_idAt, getElem?_headings, hg] at hg'
        obtain rfl := Option.some.inj hg'
        exact hhouses
  · rcases getElem?_add_cases hf with rfl | ⟨g, hg, rfl | ⟨-, rfl⟩⟩
    · rw [hblank] at hp
      cases hp
    · exact hgrown.kindOf? (h.typeParameters i _ hg p hp)
    · exact hgrown.kindOf? (h.typeParameters i g hg p hp)

/-- More is known of an element. -/
theorem Orderly.modify (h : l.Orderly U) {id : ElementId} {f : Element → Element}
    (hf : ∀ e, l.element? id = some e → e.Refines l (f e)) : (l.modify id f).Orderly U := by
  have hgrown : l.Grown (l.modify id f) := .modify fun e he => (hf e he).heading
  refine ⟨h.self_of_grown hgrown, fun i e he c hc => ?_, fun i e he p hp => ?_,
    h.definitions_of_grown hgrown defined_modify, h.qualifiers_of_grown hgrown (links_modify id f)⟩
  · rcases getElem?_modify_cases he with he | ⟨g, hg, hid, rfl⟩
    · obtain ⟨j, x, hj, hx, hlocal⟩ := h.children i e he c hc
      exact ⟨j, x, hj.trans (hgrown.idAt j).symm, hgrown.getElem? hx, hlocal⟩
    · rw [(hf g hid).children] at hc
      obtain ⟨j, x, hj, hx, hlocal⟩ := h.children i g hg c hc
      exact ⟨j, x, hj.trans (hgrown.idAt j).symm, hgrown.getElem? hx,
        fun hkind => (hlocal hkind).congr (hf g hid).heading⟩
  · rcases getElem?_modify_cases he with he | ⟨g, hg, hid, rfl⟩
    · exact hgrown.kindOf? (h.typeParameters i e he p hp)
    · rcases (hf g hid).typeParameters p hp with hp | hp
      · exact hgrown.kindOf? (h.typeParameters i g hg p hp)
      · exact hgrown.kindOf? hp

/-- One more top-level name, of what is no local variable. -/
theorem Orderly.define (h : l.Orderly U) (name : String) {id : ElementId} {kind : Element.Kind}
    (hkind : l.kindOf? id = some kind) (hlocal : kind ≠ .localVariable) : (l.define name id).Orderly U := by
  obtain ⟨i, -, rfl⟩ := l.exists_of_kindOf? (Option.isSome_iff_exists.2 ⟨_, hkind⟩)
  have heq : l.define name (l.idAt i) = { l with defined := l.defined ++ [(name, i)] } := if_pos rfl
  rw [heq]
  refine ⟨h.self, h.children, h.typeParameters, fun x hx => ?_, h.qualifiers⟩
  obtain ⟨⟨written, index⟩, hmem, rfl⟩ := List.mem_map.1 hx
  rcases List.mem_append.1 hmem with hmem | hmem
  · exact h.definitions _ (List.mem_map.2 ⟨_, hmem, rfl⟩)
  · obtain ⟨rfl, rfl⟩ := Prod.mk.inj (List.mem_singleton.1 hmem)
    exact ⟨kind, hkind, hlocal⟩

namespace OwnTypes

theorem define (h : l.OwnTypes) (name : String) (id : ElementId) : (l.define name id).OwnTypes := by
  unfold Library.define
  split
  · split
    · exact h
    · exact h
  · exact h

theorem mono_of_grown (hgrown : l.Grown k) {e : Element}
    (h : e.TypesOver fun c => l.kindOf? c = some .classElement) :
    e.TypesOver fun c => k.kindOf? c = some .classElement :=
  h.mono fun _ hc => hgrown.kindOf? hc

theorem add (h : l.OwnTypes) {e : Element} (hblank : e.IsBlank) : (l.add e).2.OwnTypes := by
  have hgrown := Grown.add l e
  intro i f hf
  rcases getElem?_add_cases hf with rfl | ⟨g, hg, rfl | ⟨-, rfl⟩⟩
  · rw [hblank]
    exact ⟨trivial, nofun, nofun⟩
  · exact mono_of_grown hgrown (h i _ hg)
  · have htypes := mono_of_grown hgrown (h i g hg)
    exact ⟨htypes.type, htypes.supertypes, htypes.bound⟩

theorem modify (h : l.OwnTypes) {id : ElementId} {f : Element → Element}
    (hf : ∀ e, l.element? id = some e → e.Refines l (f e)) : (l.modify id f).OwnTypes := by
  have hgrown : l.Grown (l.modify id f) := .modify fun e he => (hf e he).heading
  intro i e he
  rcases getElem?_modify_cases he with he | ⟨g, hg, hid, rfl⟩
  · exact mono_of_grown hgrown (h i e he)
  · exact mono_of_grown hgrown ((hf g hid).types _ (fun _ hc => hc) (h i g hg))

end OwnTypes

end Library

/-! ## Collecting -/

/-- Where local variables are declared is not inline. -/
theorem Node.Kind.isInline_of_isLocal {kind : Node.Kind} (h : kind.isLocal = true) :
    kind.isInline = false := by
  cases kind <;> first | rfl | cases h

namespace Declare

open Library

variable {U : LibraryUnit → Prop} {u : LibraryUnit} {l : Library} {e : Element}

/-- A local variable of a sorted unit is inside a function. -/
theorem Stands.houses (hu : U u) (hsorted : u.tree.Sorted) (h : Stands u l e)
    (hkind : e.kind = .localVariable) :
    ∃ p g, e.enclosing? = some p ∧ l.heading? p = some g ∧ Houses U g e := by
  obtain ⟨p, m, hp, hseat, hlocal, hdeclared⟩ := h.seated hkind
  rcases hseat.hosted with hinline | ⟨g, hg, hclass, hsource, n, d, body, hn, hhosts, hm, hoffset⟩
  · rw [Node.Kind.isInline_of_isLocal hlocal] at hinline
    exact absurd (hinline hsorted) Bool.false_ne_true
  · exact ⟨p, g, hp, hg, hclass, u, hu, h.source_eq, hsource, n, d, body, m, hn, hhosts, hm, hlocal,
      hdeclared, hoffset⟩

/-- What collecting a sorted unit does keeps a library in order. -/
theorem allows_orderly (hu : U u) (hsorted : u.tree.Sorted) :
    Allows u fun s => s.library.Orderly U ∧ s.library.OwnTypes where
  names _ _ _ _ h := h
  report _ _ _ _ _ h := h
  change _ _ _ hf h := ⟨h.1.modify hf, h.2.modify hf⟩
  define s name _ _ hkind hlocal h := ⟨h.1.define name hkind hlocal, h.2.define name _⟩
  element _ _ he h := ⟨h.1.add he.blank (he.houses hu hsorted), h.2.add he.blank⟩
  imports _ i hi h := by
    refine ⟨⟨h.1.self, h.1.children, h.1.typeParameters, h.1.definitions, fun j hj q hq => ?_⟩, h.2⟩
    rcases List.mem_append.1 hj with hj | hj
    · exact h.1.qualifiers j hj q hq
    · obtain rfl := List.mem_singleton.1 hj
      exact hi q hq
  exports _ _ h := ⟨⟨h.1.self, h.1.children, h.1.typeParameters, h.1.definitions, h.1.qualifiers⟩, h.2⟩

end Declare

namespace Library

variable {U : LibraryUnit → Prop} {k l : Library}

theorem eq_of_getElem?_empty {id : LibraryId} {name : String} {i : Nat} {e : Element}
    (h : (empty id name).elements[i]? = some e) :
    e = { kind := .library, name, source? := some id.source } :=
  List.mem_singleton.1 (Array.mem_toList_iff.2 (Array.mem_of_getElem? h))

theorem orderly_empty (id : LibraryId) (name : String) : (empty id name).Orderly U where
  self := kindOf?_self_empty id name
  children i e he c hc := by
    rw [eq_of_getElem?_empty he] at hc
    cases hc
  typeParameters i e he p hp := by
    rw [eq_of_getElem?_empty he] at hp
    cases hp
  definitions _ hx := absurd hx List.not_mem_nil
  qualifiers _ hi := absurd hi List.not_mem_nil

theorem ownTypes_empty (id : LibraryId) (name : String) : (empty id name).OwnTypes := by
  intro i e he
  rw [eq_of_getElem?_empty he]
  exact ⟨trivial, nofun, nofun⟩

/-- A library that is made of sorted units is in order, and its types are its own. -/
theorem orderly_ofUnits {units : List LibraryUnit} (hU : ∀ u ∈ units, U u)
    (hsorted : ∀ u ∈ units, u.tree.Sorted) (id : LibraryId) :
    (ofUnits id units).Orderly U ∧ (ofUnits id units).OwnTypes := by
  obtain ⟨hgrown, horderly, htypes⟩ := Declare.collect_start
    (fun u hu => Declare.allows_orderly (hU u hu) (hsorted u hu))
    ⟨orderly_empty id "", ownTypes_empty id ""⟩
  rw [Declare.ofUnits_eq]
  have hid : (Declare.collect units (.start id)).2.library.id = id := hgrown.id
  generalize Declare.collect units (.start id) = x at hid horderly htypes
  subst hid
  exact ⟨⟨horderly.self, horderly.children, horderly.typeParameters, horderly.definitions,
    horderly.qualifiers⟩, htypes⟩

/-! ## Outlines -/

section Outline

variable (houtline : k.outline = l.outline)
include houtline

theorem kindOf?_eq_of_outline (id : ElementId) : k.kindOf? id = l.kindOf? id :=
  map_element?_eq_of_outline houtline Element.kind (fun _ => rfl) id

theorem headings_eq_of_outline : k.headings = l.headings := by
  have hheadings (l : Library) : l.headings = l.outline.headings := by
    unfold headings outline
    rw [Array.toList_map, List.map_map]
    rfl
  rw [hheadings k, hheadings l, houtline]

/-- Where local variables are does not depend on declared types. -/
theorem Orderly.of_outline (h : k.Orderly U) : l.Orderly U := by
  have hid (i : Nat) : k.idAt i = l.idAt i := congrArg (ElementId.declared · i) (id_eq_of_outline houtline)
  have hkind := kindOf?_eq_of_outline houtline
  have helement {i : Nat} {e : Element} (he : l.elements[i]? = some e) :
      ∃ f, k.elements[i]? = some f ∧ f.outline = e.outline := by
    have hmap := getElem?_eq_of_outline houtline i
    rw [he] at hmap
    exact Option.map_eq_some_iff.1 hmap
  refine ⟨?_, fun i e he c hc => ?_, fun i e he p hp => ?_, ?_, ?_⟩
  · rw [← hkind, show l.self = k.self from (hid 0).symm]
    exact h.self
  · obtain ⟨f, hf, hfe⟩ := helement he
    have hchildren : f.children = e.children :=
      show f.outline.children = e.outline.children by rw [hfe]
    have hheading : e.heading = f.heading := show e.outline.heading = f.outline.heading by rw [hfe]
    obtain ⟨j, g, hj, hg, hlocal⟩ := h.children i f hf c (hchildren ▸ hc)
    exact ⟨j, g, hj.trans (hid j), headings_eq_of_outline houtline ▸ hg,
      fun hg => (hlocal hg).congr hheading⟩
  · obtain ⟨f, hf, hfe⟩ := helement he
    rw [← hkind]
    exact h.typeParameters i f hf p (Element.typeParameters_eq_of_outline hfe ▸ hp)
  · simp only [← hkind, ← definitions_eq_of_outline houtline]
    exact h.definitions
  · simp only [← hkind, ← imports_eq_of_outline houtline]
    exact h.qualifiers

end Outline

/-! ## The core library -/

/-- All elements and what they refer to are of the library, and none is a local variable. -/
def isPlain (l : Library) : Bool :=
  l.kindOf? l.self == some .library &&
  (l.elements.toList.all fun e =>
    e.kind != .localVariable &&
    (e.children.all fun c => (List.range l.elements.size).any fun j => c == l.idAt j) &&
    e.typeParameters.all fun p => l.kindOf? p == some .typeParameter) &&
  (l.definitions.all fun x => (l.kindOf? x.2).any (· != .localVariable)) &&
  l.imports.isEmpty

theorem Orderly.of_isPlain (h : l.isPlain = true) : l.Orderly U := by
  unfold isPlain at h
  simp only [Bool.and_eq_true, beq_iff_eq, List.all_eq_true, List.any_eq_true, bne_iff_ne,
    List.mem_range, List.isEmpty_iff] at h
  obtain ⟨⟨⟨hself, helements⟩, hdefinitions⟩, himports⟩ := h
  have hmem {i : Nat} {e : Element} (he : l.elements[i]? = some e) : e ∈ l.elements.toList :=
    Array.mem_toList_iff.2 (Array.mem_of_getElem? he)
  refine ⟨hself, fun i e he c hc => ?_, fun i e he => (helements e (hmem he)).2, fun x hx => ?_, ?_⟩
  · obtain ⟨j, hj, rfl⟩ := (helements e (hmem he)).1.2 c hc
    have hf := Array.getElem?_eq_getElem hj
    refine ⟨j, _, rfl, by rw [getElem?_headings, hf]; rfl, fun hlocal => ?_⟩
    exact absurd hlocal (helements _ (hmem hf)).1.1
  · obtain ⟨kind, hkind, hlocal⟩ := (Option.any_eq_true _ _).1 (hdefinitions x hx)
    exact ⟨kind, hkind, bne_iff_ne.1 hlocal⟩
  · rw [himports]
    exact fun _ hi => absurd hi List.not_mem_nil

/-- What can be seen of the core library, which no text declares. -/
theorem core_plain : core.source = .core ∧ core.isPlain = true ∧
    ∀ e ∈ core.elements.toList, e.TypesOver fun c => core.kindOf? c = some .classElement := by
  decide +kernel

theorem ownTypes_core : core.OwnTypes := TypesOver.of_elements core_plain.2.2

end Library

end DartAnalysis
