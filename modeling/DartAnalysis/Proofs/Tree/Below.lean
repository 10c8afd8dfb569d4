/-
  What lies below a node. In a well-owned arena a node is below another one just if there is a way down
  to it (`mem_below_iff`), and children of a node have nothing below them in common
  (`below_disjoint`).
-/
import DartAnalysis.Proofs.Tree.Ownership

namespace DartAnalysis

namespace Arena

/-- A way down may be prolonged at its upper end. -/
theorem Path.under {a : Arena} {root c n : NodeId} {way : List NodeId} (hc : c ∈ a.children root)
    (hpath : a.Path c n way) : a.Path root n (c :: way) := by
  induction hpath with
  | here => exact Path.here.down hc
  | down _ hchild ih => exact ih.down hchild

end Arena

namespace Tree

variable {t : Tree}

/-- There is a way down from a node to another one. -/
def Under (t : Tree) (n m : NodeId) : Prop := ∃ way, t.nodes.Path n m way

theorem Under.refl (n : NodeId) : t.Under n n := ⟨[], .here⟩

theorem Under.child {n m c : NodeId} (h : t.Under n m) (hc : c ∈ t.children m) : t.Under n c := by
  obtain ⟨way, hway⟩ := h
  exact ⟨way ++ [c], hway.down hc⟩

/-- A node and all nodes below it, each before its children. -/
def below (t : Tree) (id : NodeId) : List NodeId := t.preorderTo (id + 1) id

variable (howned : t.nodes.Owned)
include howned

/-- Children come before their parents, so that an id bounds the depth below it. -/
theorem preorderTo_eq_below {depth : Nat} {id : NodeId} (h : id < depth) :
    t.preorderTo depth id = t.below id := by
  induction id using Nat.strongRecOn generalizing depth with
  | ind id ih =>
    cases depth with
    | zero => exact absurd h (Nat.not_lt_zero id)
    | succ depth =>
      show id :: _ = id :: _
      refine congrArg (id :: ·) (List.flatMap_congr fun c hc => ?_)
      have hlt := howned.child_lt id c hc
      rw [ih c hlt hlt, ih c hlt (Nat.lt_of_lt_of_le hlt (Nat.le_of_lt_succ h))]

theorem below_eq (id : NodeId) : t.below id = id :: (t.children id).flatMap t.below := by
  show id :: _ = id :: _
  refine congrArg (id :: ·) (List.flatMap_congr fun c hc => ?_)
  exact preorderTo_eq_below howned (howned.child_lt id c hc)

theorem below_of_leaf {id : NodeId} (h : t.children id = []) : t.below id = [id] := by
  rw [below_eq howned, h]
  rfl

theorem mem_below_self (id : NodeId) : id ∈ t.below id := by
  rw [below_eq howned]
  exact List.mem_cons_self

theorem mem_below_child {p c n : NodeId} (hc : c ∈ t.children p) (hn : n ∈ t.below c) :
    n ∈ t.below p := by
  rw [below_eq howned]
  exact List.mem_cons_of_mem _ (List.mem_flatMap.2 ⟨c, hc, hn⟩)

/-- Whatever is below a node is the node itself or below one of its children. -/
theorem below_cases {p n : NodeId} (h : n ∈ t.below p) :
    n = p ∨ ∃ c ∈ t.children p, n ∈ t.below c := by
  rw [below_eq howned] at h
  rcases List.mem_cons.1 h with rfl | h
  · exact .inl rfl
  · exact .inr (List.mem_flatMap.1 h)

theorem exists_path_of_mem_below {p n : NodeId} (h : n ∈ t.below p) :
    ∃ way, t.nodes.Path p n way := by
  induction p using Nat.strongRecOn with
  | ind p ih =>
    rcases below_cases howned h with rfl | ⟨c, hc, hn⟩
    · exact ⟨[], .here⟩
    · obtain ⟨way, hway⟩ := ih c (howned.child_lt p c hc) hn
      exact ⟨c :: way, hway.under hc⟩

theorem mem_below_snoc {p q c : NodeId} (hq : q ∈ t.below p) (hc : c ∈ t.children q) :
    c ∈ t.below p := by
  induction p using Nat.strongRecOn with
  | ind p ih =>
    rcases below_cases howned hq with rfl | ⟨d, hd, hqd⟩
    · exact mem_below_child howned hc (mem_below_self howned c)
    · exact mem_below_child howned hd (ih d (howned.child_lt p d hd) hqd)

theorem mem_below_iff {p n : NodeId} : n ∈ t.below p ↔ t.Under p n := by
  refine ⟨exists_path_of_mem_below howned, ?_⟩
  rintro ⟨way, hway⟩
  induction hway with
  | here => exact mem_below_self howned p
  | down _ hc ih => exact mem_below_snoc howned ih hc

/-- What is below a node is the node itself or a child of something below it. -/
theorem below_last {p n : NodeId} (h : n ∈ t.below p) :
    n = p ∨ ∃ q ∈ t.below p, n ∈ t.children q := by
  obtain ⟨way, hway⟩ := exists_path_of_mem_below howned h
  cases hway with
  | here => exact .inl rfl
  | down hpath hchild => exact .inr ⟨_, (mem_below_iff howned).2 ⟨_, hpath⟩, hchild⟩

theorem mem_below_trans {n m k : NodeId} (hm : m ∈ t.below n) (hk : k ∈ t.below m) :
    k ∈ t.below n := by
  obtain ⟨way, hway⟩ := exists_path_of_mem_below howned hk
  induction hway with
  | here => exact hm
  | down hpath hc ih =>
    exact mem_below_snoc howned (ih ((mem_below_iff howned).2 ⟨_, hpath⟩)) hc

/-- A node is below its ancestors. -/
theorem mem_below_of_isAncestor {a n : NodeId} (h : t.isAncestor a n = true) : n ∈ t.below a := by
  have hsteps (steps : Nat) (n : NodeId) (h : a ∈ t.ancestorsTo steps n) : n ∈ t.below a := by
    induction steps generalizing n with
    | zero => cases h
    | succ steps ih =>
      unfold ancestorsTo at h
      cases hp : t.parent? n with
      | none =>
        rw [hp] at h
        obtain rfl := List.mem_singleton.1 h
        exact mem_below_self howned a
      | some p =>
        rw [hp] at h
        rcases List.mem_cons.1 h with rfl | h
        · exact mem_below_self howned a
        · exact mem_below_snoc howned (ih p h) (howned.child_of_parent n p hp)
  exact hsteps _ n (List.contains_iff_mem.1 h)

/-- What is around a node of the tree is part of the tree. -/
theorem mem_below_of_mem_ancestors {root n a : NodeId} (hroot : t.parent? root = none)
    (hn : n ∈ t.below root) (ha : a ∈ t.ancestors n) : a ∈ t.below root := by
  have hsteps (steps : Nat) (n : NodeId) (hn : n ∈ t.below root) (ha : a ∈ t.ancestorsTo steps n) :
      a ∈ t.below root := by
    induction steps generalizing n with
    | zero => cases ha
    | succ steps ih =>
      unfold ancestorsTo at ha
      cases hp : t.parent? n with
      | none =>
        rw [hp] at ha
        exact List.mem_singleton.1 ha ▸ hn
      | some p =>
        rw [hp] at ha
        rcases List.mem_cons.1 ha with rfl | ha
        · exact hn
        rcases below_last howned hn with rfl | ⟨q, hq, hc⟩
        · rw [hroot] at hp
          cases hp
        · have hparent : t.parent? n = some q := howned.parent_of_child q n hc
          rw [hp] at hparent
          exact ih p (Option.some.inj hparent ▸ hq) ha
  exact hsteps _ n hn ha

/-- Two children of a node have nothing below them in common. -/
theorem below_disjoint {p c d : NodeId} (hc : c ∈ t.children p) (hd : d ∈ t.children p)
    (hne : c ≠ d) : List.Disjoint (t.below c) (t.below d) := by
  intro n hnc hnd
  obtain ⟨way, hway⟩ := exists_path_of_mem_below howned hnc
  obtain ⟨way', hway'⟩ := exists_path_of_mem_below howned hnd
  have heq := howned.path_unique (hway.under hc) (hway'.under hd)
  exact hne (List.cons.inj heq).1

end Tree

end DartAnalysis
