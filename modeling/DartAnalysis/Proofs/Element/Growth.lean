/-
  How libraries grow. An element is added behind all others, and what is settled of it then, its heading,
  stays (`Library.Grown.add`); what is known of an element later is no part of its heading
  (`Library.Grown.modify`).
-/
import DartAnalysis.Element.Location
import Mathlib.Data.List.Basic

namespace DartAnalysis

namespace Element

/-- What is settled of an element when it is added; a library gets its name later. -/
def heading (e : Element) : Element :=
  { kind := e.kind, name := if e.kind = .library then "" else e.name, enclosing? := e.enclosing?
    source? := e.source?, nameOffset? := e.nameOffset? }

end Element

namespace Library

variable (l : Library)

def headings : List Element := l.elements.toList.map Element.heading

def kindOf? (id : ElementId) : Option Element.Kind := (l.element? id).map (·.kind)

/-! ## Headings -/

theorem length_headings : l.headings.length = l.elements.size := by
  simp [headings]

theorem getElem?_headings (i : Nat) : l.headings[i]? = l.elements[i]?.map Element.heading := by
  simp [headings]

@[simp] theorem idAt_inj {i j : Nat} : l.idAt i = l.idAt j ↔ i = j := by
  simp [idAt]

theorem element?_idAt (i : Nat) : l.element? (l.idAt i) = l.elements[i]? := if_pos rfl

theorem kindOf?_idAt (i : Nat) : l.kindOf? (l.idAt i) = l.headings[i]?.map (·.kind) := by
  rw [kindOf?, element?_idAt, getElem?_headings, Option.map_map]
  rfl

theorem exists_of_kindOf? {id : ElementId} (h : (l.kindOf? id).isSome) :
    ∃ i < l.elements.size, id = l.idAt i := by
  cases id with
  | declared library index =>
    by_cases hlibrary : library = l.id
    · subst hlibrary
      have h : (l.kindOf? (l.idAt index)).isSome := h
      rw [kindOf?, Option.isSome_map, element?_idAt] at h
      obtain ⟨e, he⟩ := Option.isSome_iff_exists.1 h
      exact ⟨index, (Array.getElem?_eq_some_iff.1 he).1, rfl⟩
    · simp [kindOf?, element?, hlibrary] at h
  | _ => cases h

theorem kindOf?_of_mem_entries {x : ElementId × Element} (h : x ∈ l.entries) :
    l.kindOf? x.1 = some x.2.kind := by
  obtain ⟨y, hy, rfl⟩ := List.mem_map.1 h
  have hget := List.mem_zipIdx_iff_getElem?.1 hy
  rw [Array.getElem?_toList] at hget
  rw [kindOf?, element?_idAt, hget]
  rfl

section Modify

variable {l} {id : ElementId} {f : Element → Element}

theorem id_modify : (l.modify id f).id = l.id := by
  unfold modify
  split
  · split <;> rfl
  · rfl

theorem defined_modify : (l.modify id f).defined = l.defined := by
  unfold modify
  split
  · split <;> rfl
  · rfl

theorem size_modify : (l.modify id f).elements.size = l.elements.size := by
  unfold modify
  split
  · split
    · exact Array.size_modify
    · rfl
  · rfl

theorem getElem?_modify (i : Nat) :
    (l.modify id f).elements[i]? = if id = l.idAt i then l.elements[i]?.map f else l.elements[i]? := by
  unfold modify
  split
  · rename_i library index
    split
    · rename_i hlibrary
      subst hlibrary
      rw [Array.getElem?_modify]
      simp [idAt]
    · rename_i hlibrary
      rw [if_neg]
      exact fun heq => hlibrary (ElementId.declared.inj heq).1
  · rename_i hid
    rw [if_neg]
    exact fun heq => hid _ _ heq

theorem headings_modify (hf : ∀ e, (f e).heading = e.heading) :
    (l.modify id f).headings = l.headings := by
  refine List.ext_getElem? fun i => ?_
  rw [getElem?_headings, getElem?_headings, getElem?_modify]
  split
  · cases l.elements[i]? <;> simp [hf]
  · rfl

end Modify

section Add

variable {l} {e : Element}

theorem id_add : (l.add e).2.id = l.id := by
  unfold add
  dsimp only
  split
  · exact id_modify
  · rfl

theorem defined_add : (l.add e).2.defined = l.defined := by
  unfold add
  dsimp only
  split
  · exact defined_modify
  · rfl

theorem headings_add : (l.add e).2.headings = l.headings ++ [e.heading] := by
  unfold add
  dsimp only
  split
  · rename_i p hp
    rw [headings, Array.toList_push, List.map_append]
    exact congrArg (· ++ [e.heading]) (headings_modify fun _ => rfl)
  · simp [headings]

end Add

/-! ## Growth -/

section Grown

variable {l} {k : Library} {es : List Element} (hid : k.id = l.id)
  (hgrown : k.headings = l.headings ++ es)
include hid

theorem idAt_eq_of_id (i : Nat) : k.idAt i = l.idAt i := by
  unfold idAt
  rw [hid]

include hgrown

omit hid in
theorem getElem?_of_grown {i : Nat} {e : Element} (h : l.headings[i]? = some e) :
    k.headings[i]? = some e := by
  rw [hgrown, List.getElem?_append_left (List.getElem?_eq_some_iff.1 h).1]
  exact h

theorem kindOf?_of_grown {id : ElementId} {kind : Element.Kind} (h : l.kindOf? id = some kind) :
    k.kindOf? id = some kind := by
  cases id with
  | declared library index =>
    by_cases hlibrary : library = l.id
    · subst hlibrary
      have h : l.kindOf? (l.idAt index) = some kind := h
      rw [kindOf?_idAt] at h
      obtain ⟨e, he, hkind⟩ := Option.map_eq_some_iff.1 h
      show k.kindOf? (l.idAt index) = _
      rw [← idAt_eq_of_id hid, kindOf?_idAt, getElem?_of_grown hgrown he]
      exact congrArg some hkind
    · simp [kindOf?, element?, hlibrary] at h
  | _ => cases h

end Grown

/-- A larger library, in which all elements of the smaller one are what they were. -/
structure Grown (l k : Library) : Prop where
  id : k.id = l.id
  headings : l.headings <+: k.headings

/-- What is settled of an element. -/
def heading? (id : ElementId) : Option Element := (l.element? id).map Element.heading

theorem heading?_idAt (i : Nat) : l.heading? (l.idAt i) = l.headings[i]? := by
  rw [heading?, element?_idAt, getElem?_headings]

theorem kindOf?_of_heading? {l : Library} {id : ElementId} {e : Element} (h : l.heading? id = some e) :
    l.kindOf? id = some e.kind := by
  obtain ⟨f, hf, rfl⟩ := Option.map_eq_some_iff.1 h
  rw [kindOf?, hf]
  rfl

/-- An added element is what it was added as. -/
theorem heading?_add {l : Library} {e : Element} :
    (l.add e).2.heading? (l.add e).1 = some e.heading := by
  have hid : (l.add e).1 = (l.add e).2.idAt l.elements.size := (idAt_eq_of_id id_add _).symm
  rw [hid, heading?_idAt, headings_add, ← l.length_headings, List.getElem?_concat_length]

namespace Grown

variable {l} {k m : Library}

theorem refl (l : Library) : l.Grown l := ⟨rfl, List.prefix_refl _⟩

theorem trans (h : l.Grown k) (h' : k.Grown m) : l.Grown m :=
  ⟨h'.id.trans h.id, h.headings.trans h'.headings⟩

theorem of_eq (hid : k.id = l.id) (hheadings : k.headings = l.headings) : l.Grown k :=
  ⟨hid, hheadings ▸ List.prefix_refl _⟩

theorem idAt (h : l.Grown k) (i : Nat) : k.idAt i = l.idAt i := idAt_eq_of_id h.id i

theorem kindOf? (h : l.Grown k) {id : ElementId} {kind : Element.Kind}
    (hkind : l.kindOf? id = some kind) : k.kindOf? id = some kind := by
  obtain ⟨es, hes⟩ := h.headings
  exact kindOf?_of_grown h.id hes.symm hkind

theorem getElem? (h : l.Grown k) {i : Nat} {e : Element} (he : l.headings[i]? = some e) :
    k.headings[i]? = some e := by
  obtain ⟨es, hes⟩ := h.headings
  exact getElem?_of_grown hes.symm he

theorem heading? (h : l.Grown k) {id : ElementId} {e : Element} (he : l.heading? id = some e) :
    k.heading? id = some e := by
  obtain ⟨i, -, rfl⟩ := l.exists_of_kindOf? (Option.isSome_iff_exists.2 ⟨_, kindOf?_of_heading? he⟩)
  rw [heading?_idAt] at he
  rw [← h.idAt, heading?_idAt]
  exact h.getElem? he

theorem add (l : Library) (e : Element) : l.Grown (l.add e).2 :=
  ⟨id_add, headings_add ▸ List.prefix_append _ _⟩

theorem modify {id : ElementId} {f : Element → Element}
    (hf : ∀ e, l.element? id = some e → (f e).heading = e.heading) : l.Grown (l.modify id f) := by
  refine .of_eq id_modify (List.ext_getElem? fun i => ?_)
  rw [getElem?_headings, getElem?_headings, getElem?_modify]
  split
  · rename_i hid
    cases he : l.elements[i]? with
    | none => rfl
    | some e => exact congrArg some (hf e (by rw [hid, element?_idAt, he]))
  · rfl

theorem define (l : Library) (name : String) (id : ElementId) : l.Grown (l.define name id) := by
  unfold Library.define
  split
  · split
    · exact .of_eq rfl rfl
    · exact .refl l
  · exact .refl l

end Grown

theorem kindOf?_self_empty (id : LibraryId) (name : String) :
    (empty id name).kindOf? (empty id name).self = some .library := by
  rw [self, kindOf?_idAt]
  rfl

end Library

end DartAnalysis
