/-
  Where a call that moves a child leaves it. The call looks at the parent link of the child and does
  nothing if that is the new parent already. A node that was overwritten in a slot keeps its link, so
  a call that is to bring it back finds nothing to do, and nobody lists the node (`reparent_overwritten`).
  Every other call puts the child into the new parent, and whatever happened before, no other node
  lists it (`ofText_placed`).
-/
import DartAnalysis.Proofs.Tree.Moves
import Mathlib

namespace DartAnalysis

theorem Node.Kind.Takes.mem_children {child : NodeId} {k k' : Node.Kind} (h : k.Takes child k') :
    child ∈ k'.children := by
  obtain ⟨front, back, hchildren, -⟩ := h.children
  rw [hchildren]
  exact List.mem_append_right front (List.mem_cons_self ..)

namespace Arena

theorem reparent_eq_self {a : Arena} {child parent : NodeId} (h : a.parent? child = some parent)
    (kind : Node.Kind) : a.reparent child parent kind = a :=
  if_pos h

/-- A child with another parent, or with none, gets the new one, which holds what it was given. -/
theorem reparent_places {a : Arena} (h : a.Kept) {child parent : NodeId} (hchild : child < a.size)
    (hparent : parent < a.size) (hother : a.parent? child ≠ some parent) (kind : Node.Kind) :
    (a.reparent child parent kind).parent? child = some parent ∧
      (a.reparent child parent kind).kind parent = kind := by
  unfold reparent
  rw [if_neg hother]
  unfold adopt
  rw [parent?_setKind hparent]
  cases hprevious : a.parent? child with
  | none =>
    have hchild' : child < (a.setKind parent kind).size := (size_setKind a parent kind).symm ▸ hchild
    dsimp only
    rw [parent?_setParent hchild', kind_setParent hchild', kind_setKind hparent]
    exact ⟨if_pos rfl, if_pos rfl⟩
  | some previous =>
    have hne : parent ≠ previous := fun heq => hother (heq ▸ hprevious)
    have hlt : previous < a.size := h.parent_lt child previous hprevious
    have hsize : a.size ≤ (a.sever previous child).size := (a.sever_other hlt hchild).1
    have hparent' : parent < (a.sever previous child).size := Nat.lt_of_lt_of_le hparent hsize
    have hchild' : child < ((a.sever previous child).setKind parent kind).size :=
      (size_setKind (a.sever previous child) parent kind).symm ▸ Nat.lt_of_lt_of_le hchild hsize
    dsimp only
    rw [if_pos (Ne.symm hne), sever_setKind hparent hlt hne, parent?_setParent hchild',
      kind_setParent hchild', kind_setKind hparent']
    exact ⟨if_pos rfl, if_pos rfl⟩

end Arena

namespace Tree

/-- After a call the link is to the new parent. It lists the child, unless the link was the same
    before and it did not list the child then. -/
theorem Moves.placed_iff {t t' : Tree} {child parent : NodeId} (h : t.Moves child parent t')
    (hkept : t.nodes.Kept) : t'.parent? child = some parent ∧
      (child ∈ t'.children parent ↔
        (t.parent? child = some parent → child ∈ t.children parent)) := by
  obtain ⟨kind, htakes, rfl⟩ := h.placed
  by_cases hsame : t.nodes.parent? child = some parent
  · have heq := Arena.reparent_eq_self hsame kind
    rw [Tree.children, Tree.parent?, heq]
    exact ⟨hsame, fun hmem _ => hmem, fun hmem => hmem hsame⟩
  · obtain ⟨hlink, hkind⟩ :=
      Arena.reparent_places hkept h.child_lt h.parent_lt hsame kind
    refine ⟨hlink, fun _ hlinked => absurd hlinked hsame, fun _ => ?_⟩
    rw [Tree.children, Arena.children, hkind]
    exact htakes.mem_children

end Tree

namespace Parsed

/-- However many calls have moved nodes about since a parse, another one leaves the child with the
    new parent as its parent, and no other node lists it. The new parent does, unless the child had it
    as its parent already and was not among its children, which is where overwriting leaves a node. -/
theorem ofText_placed (e : Grammar.Entry) (source? : Option Source) (text : String) {t t' : Tree}
    (h : Relation.ReflTransGen (fun t t' : Tree => ∃ child parent, t.Moves child parent t')
      (ofText e source? text).tree t)
    {child parent : NodeId} (hmove : t.Moves child parent t') :
    t'.parent? child = some parent ∧ (∀ p, child ∈ t'.children p → p = parent) ∧
      (child ∈ t'.children parent ↔
        (t.parent? child = some parent → child ∈ t.children parent)) := by
  have hkept : t.nodes.Kept := kept_of_moves h
  obtain ⟨hlink, hplaced⟩ := hmove.placed_iff hkept
  refine ⟨hlink, fun p hmem => ?_, hplaced⟩
  have hlists := (hmove.kept hkept).1.parent_of_child p child hmem
  exact Option.some.inj (hlists.symm.trans hlink)

/-- The first element takes the place of the one in the parentheses. -/
theorem ofText_placed_over :
    ∃ t, (ofText .expression none "[a, (b)]").tree.move? 0 2 = some t ∧
      t.children 3 = [2] ∧ t.children 2 = [0] ∧ t.parent? 0 = some 2 ∧
      (∀ p, 0 ∈ t.children p → p = 2) ∧
      (0 ∈ t.children 2 ↔ ((ofText .expression none "[a, (b)]").tree.parent? 0 = some 2 →
        0 ∈ (ofText .expression none "[a, (b)]").tree.children 2)) := by
  obtain ⟨u, hu⟩ := tree_crossing
  have hfirst := move?_crossing u
  rw [← hu] at hfirst
  exact ⟨_, hfirst, rfl, rfl,
    ofText_placed .expression none "[a, (b)]" .refl (Tree.moves_of_move? hfirst)⟩

theorem move?_overwritten (t : Tree) :
    { t with nodes := halfCrossed }.move? 1 2 = some { t with nodes := halfCrossed } :=
  rfl

/-- The one that stood in the parentheses is to go back there. It has them as its parent all the time,
    so nothing happens, and no node lists it. -/
theorem reparent_overwritten :
    ∃ t t', (ofText .expression none "[a, (b)]").tree.move? 0 2 = some t ∧
      t.move? 1 2 = some t' ∧ t'.parent? 1 = some 2 ∧ t'.children 2 = [0] ∧
      1 ∉ (List.range t'.nodes.size).flatMap t'.children := by
  obtain ⟨u, hu⟩ := tree_crossing
  rw [hu]
  refine ⟨_, _, move?_crossing u, move?_overwritten u, rfl, rfl, ?_⟩
  have hall : (List.range halfCrossed.size).flatMap halfCrossed.children = [0, 2] := rfl
  exact fun hmem => absurd (hall ▸ hmem) (by decide)

end Parsed

end DartAnalysis
