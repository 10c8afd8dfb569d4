/-
  Who owns a node. In a well-owned arena children are made before their parents, links to parents and
  lists of children agree, and no list names a child twice. A node that is made out of nodes without
  parent keeps an arena well-owned (`Owned.alloc`), and in a well-owned arena there is at most one
  way from one node down to another (`Owned.path_unique`).
-/
import DartAnalysis.Tree.Basic
import Mathlib.Data.List.Nodup

namespace DartAnalysis

namespace Arena

/-- Nodes and their children agree on who owns whom. -/
structure Owned (a : Arena) : Prop where
  child_lt : ∀ p, ∀ c ∈ a.children p, c < p
  parent_of_child : ∀ p, ∀ c ∈ a.children p, a.parent? c = some p
  child_of_parent : ∀ c p, a.parent? c = some p → c ∈ a.children p
  children_nodup : ∀ p, (a.children p).Nodup

/-! ## Reading -/

theorem node_of_size_le {a : Arena} {i : NodeId} (h : a.size ≤ i) : a.node i = default := by
  simp [node, Array.getD, Nat.not_lt.2 h]

theorem children_of_size_le {a : Arena} {i : NodeId} (h : a.size ≤ i) : a.children i = [] := by
  rw [children, kind, node_of_size_le h]
  rfl

theorem parent?_of_size_le {a : Arena} {i : NodeId} (h : a.size ≤ i) : a.parent? i = none := by
  rw [parent?, node_of_size_le h]
  rfl

theorem getElem?_eq_node {a : Arena} {i : NodeId} (h : i < a.size) : a[i]? = some (a.node i) := by
  simp [node, Array.getD, h]

theorem node_push (a : Arena) (n : Node) (i : NodeId) :
    node (a.push n) i = if i = a.size then n else a.node i := by
  unfold node
  split
  · rename_i h
    simp [h]
  · rename_i h
    rcases Nat.lt_or_gt_of_ne h with h | h
    · simp [Array.getD, h, Nat.lt_succ_of_lt h, Array.getElem_push_lt h]
    · simp [Array.getD, Nat.not_lt.2 (Nat.le_of_lt h), Nat.not_lt.2 (Nat.succ_le_of_lt h)]

theorem size_setParent (a : Arena) (c p : NodeId) : (a.setParent c p).size = a.size := by
  simp [setParent]

theorem node_setParent {a : Arena} {c : NodeId} (h : c < a.size) (p i : NodeId) :
    (a.setParent c p).node i = if i = c then { a.node i with parent? := some p } else a.node i := by
  unfold node setParent
  by_cases hi : i < a.size
  · simp only [Array.getD, Array.size_modify, hi, dif_pos, Array.getInternal_eq_getElem,
      Array.getElem_modify]
    by_cases hc : c = i
    · simp [hc]
    · simp [hc, Ne.symm hc]
  · have hne : i ≠ c := fun heq => hi (heq ▸ h)
    simp [Array.getD, hi, hne]

theorem size_setKind (a : Arena) (i : NodeId) (k : Node.Kind) : (a.setKind i k).size = a.size := by
  simp [setKind]

theorem node_setKind {a : Arena} {i : NodeId} (h : i < a.size) (k : Node.Kind) (j : NodeId) :
    (a.setKind i k).node j = if j = i then { a.node j with kind := k } else a.node j := by
  unfold node setKind
  by_cases hj : j < a.size
  · simp only [Array.getD, Array.size_modify, hj, dif_pos, Array.getInternal_eq_getElem,
      Array.getElem_modify]
    by_cases hi : i = j
    · simp [hi]
    · simp [hi, Ne.symm hi]
  · have hne : j ≠ i := fun heq => hj (heq ▸ h)
    simp [Array.getD, hj, hne]

/-! ## Making a node -/

/-- Who adopts nodes without parent only sets their parent. -/
theorem foldl_adopt {cs : List NodeId} {id : NodeId} (hnodup : cs.Nodup) {a : Arena}
    (hfree : ∀ c ∈ cs, c < a.size ∧ a.parent? c = none) :
    (cs.foldl (fun b c => adopt b id c) a).size = a.size ∧
    ∀ i, (cs.foldl (fun b c => adopt b id c) a).node i =
      if i ∈ cs then { a.node i with parent? := some id } else a.node i := by
  induction cs generalizing a with
  | nil => exact ⟨rfl, fun i => by simp⟩
  | cons c cs ih =>
    obtain ⟨hc, hcs⟩ := List.nodup_cons.1 hnodup
    obtain ⟨hlt, hnone⟩ := hfree c (List.mem_cons_self ..)
    have hadopt : adopt a id c = a.setParent c id := by
      simp only [adopt, hnone]
    have hrest : ∀ d ∈ cs, d < (a.setParent c id).size ∧ (a.setParent c id).parent? d = none := by
      intro d hd
      have hne : d ≠ c := fun heq => hc (heq ▸ hd)
      rw [size_setParent, parent?, node_setParent hlt, if_neg hne]
      exact hfree d (List.mem_cons_of_mem c hd)
    obtain ⟨hsize, hnode⟩ := ih hcs hrest
    rw [List.foldl_cons, hadopt]
    refine ⟨hsize.trans (size_setParent a c id), fun i => ?_⟩
    rw [hnode, node_setParent hlt]
    by_cases hi : i = c
    · subst hi
      simp [hc]
    · simp [hi]

section Alloc

variable {a : Arena} {kind : Node.Kind} (hnodup : kind.children.Nodup)
  (hfree : ∀ c ∈ kind.children, c < a.size ∧ a.parent? c = none) (first last : TokenId)
include hnodup hfree

theorem alloc_spec :
    (a.alloc kind first last).2.size = a.size + 1 ∧
    ∀ i, (a.alloc kind first last).2.node i =
      if i = a.size then ⟨kind, none, first, last⟩
      else if i ∈ kind.children then { a.node i with parent? := some a.size } else a.node i := by
  have hpush : ∀ c ∈ kind.children, c < (a.push ⟨kind, none, first, last⟩).size ∧
      parent? (a.push ⟨kind, none, first, last⟩) c = none := by
    intro c hc
    obtain ⟨hlt, hnone⟩ := hfree c hc
    rw [parent?, node_push, if_neg (Nat.ne_of_lt hlt), Array.size_push]
    exact ⟨Nat.lt_succ_of_lt hlt, hnone⟩
  obtain ⟨hsize, hnode⟩ := @foldl_adopt kind.children a.size hnodup _ hpush
  refine ⟨hsize.trans (Array.size_push ..), fun i => ?_⟩
  rw [alloc, hnode, node_push]
  by_cases hi : i = a.size
  · have hout : i ∉ kind.children := fun hmem => Nat.ne_of_lt (hfree i hmem).1 hi
    rw [if_neg hout, if_pos hi, if_pos hi]
  · rw [if_neg hi, if_neg hi]

theorem kind_alloc_new : (a.alloc kind first last).2.kind a.size = kind := by
  rw [Arena.kind, (alloc_spec hnodup hfree first last).2, if_pos rfl]

theorem kind_alloc {i : NodeId} (hi : i ≠ a.size) :
    (a.alloc kind first last).2.kind i = a.kind i := by
  rw [Arena.kind, (alloc_spec hnodup hfree first last).2, if_neg hi]
  split <;> rfl

theorem parent?_alloc (i : NodeId) :
    (a.alloc kind first last).2.parent? i =
      if i ∈ kind.children then some a.size else a.parent? i := by
  rw [parent?, (alloc_spec hnodup hfree first last).2]
  by_cases hi : i = a.size
  · have hout : i ∉ kind.children := fun hmem => Nat.ne_of_lt (hfree i hmem).1 hi
    rw [if_pos hi, if_neg hout, parent?_of_size_le (Nat.le_of_eq hi.symm)]
  · rw [if_neg hi]
    split <;> rfl

theorem children_alloc (i : NodeId) :
    (a.alloc kind first last).2.children i =
      if i = a.size then kind.children else a.children i := by
  unfold children
  split
  · rename_i hi
    rw [hi, kind_alloc_new hnodup hfree]
  · rename_i hi
    rw [kind_alloc hnodup hfree first last hi]

theorem Owned.alloc (h : a.Owned) : (a.alloc kind first last).2.Owned where
  child_lt p c hc := by
    rw [children_alloc hnodup hfree] at hc
    split at hc
    · rename_i hp
      exact hp ▸ (hfree c hc).1
    · exact h.child_lt p c hc
  parent_of_child p c hc := by
    rw [children_alloc hnodup hfree] at hc
    rw [parent?_alloc hnodup hfree]
    split at hc
    · rename_i hp
      rw [if_pos hc, hp]
    · -- A child that is owned already is not among the new ones.
      have hsome := h.parent_of_child p c hc
      have hout : c ∉ kind.children := by
        intro hmem
        rw [(hfree c hmem).2] at hsome
        exact absurd hsome nofun
      rw [if_neg hout, hsome]
  child_of_parent c p hp := by
    rw [parent?_alloc hnodup hfree] at hp
    rw [children_alloc hnodup hfree]
    split at hp
    · rename_i hmem
      obtain rfl := Option.some.inj hp
      rwa [if_pos rfl]
    · have hmem := h.child_of_parent c p hp
      have hne : p ≠ a.size := by
        intro heq
        rw [children_of_size_le (Nat.le_of_eq heq.symm)] at hmem
        exact absurd hmem List.not_mem_nil
      rwa [if_neg hne]
  children_nodup p := by
    rw [children_alloc hnodup hfree]
    split
    · exact hnodup
    · exact h.children_nodup p

end Alloc

theorem Owned.empty : Owned #[] where
  child_lt p c hc := by rw [children_of_size_le (Nat.zero_le p)] at hc; exact absurd hc nofun
  parent_of_child p c hc := by
    rw [children_of_size_le (Nat.zero_le p)] at hc; exact absurd hc nofun
  child_of_parent c p hp := by rw [parent?_of_size_le (Nat.zero_le c)] at hp; exact absurd hp nofun
  children_nodup p := by rw [children_of_size_le (Nat.zero_le p)]; exact List.nodup_nil

/-! ## All lists of children, and paths -/

/-- If every child knows the one node that lists it, no node is named twice in all lists together. -/
theorem flatMap_children_nodup {a : Arena} (hparent : ∀ p, ∀ c ∈ a.children p, a.parent? c = some p)
    (hnodup : ∀ p, (a.children p).Nodup) : ((List.range a.size).flatMap a.children).Nodup := by
  refine List.nodup_flatMap.2 ⟨fun p _ => hnodup p, ?_⟩
  refine List.nodup_range.imp fun {p q} hne c hp hq => hne ?_
  have hp := hparent p c hp
  rw [hparent q c hq] at hp
  exact (Option.some.inj hp).symm

theorem Owned.flatMap_nodup {a : Arena} (h : a.Owned) :
    ((List.range a.size).flatMap a.children).Nodup :=
  flatMap_children_nodup h.parent_of_child h.children_nodup

/-- The nodes on a way down from one node to another, without the first. -/
inductive Path (a : Arena) (root : NodeId) : NodeId → List NodeId → Prop
  | here : Path a root root []
  | down {p c : NodeId} {way : List NodeId} (h : Path a root p way) (hc : c ∈ a.children p) :
      Path a root c (way ++ [c])

theorem Owned.path_le {a : Arena} (h : a.Owned) {root n : NodeId} {way : List NodeId}
    (hpath : a.Path root n way) : n ≤ root := by
  induction hpath with
  | here => exact Nat.le_refl root
  | down _ hc ih => exact Nat.le_of_lt (Nat.lt_of_lt_of_le (h.child_lt _ _ hc) ih)

/-- There is one way down at most. -/
theorem Owned.path_unique {a : Arena} (h : a.Owned) {root n : NodeId} {way way' : List NodeId}
    (hpath : a.Path root n way) (hpath' : a.Path root n way') : way = way' := by
  induction hpath generalizing way' with
  | here =>
    cases hpath' with
    | here => rfl
    | down hp hc =>
      exact absurd (h.path_le hp) (Nat.not_le.2 (h.child_lt _ _ hc))
  | @down p c way hp hc ih =>
    cases hpath' with
    | here => exact absurd (h.path_le hp) (Nat.not_le.2 (h.child_lt _ _ hc))
    | down hp' hc' =>
      have hparent := h.parent_of_child _ _ hc
      rw [h.parent_of_child _ _ hc'] at hparent
      obtain rfl := Option.some.inj hparent
      rw [ih hp']

end Arena

end DartAnalysis
