/-
  The innermost node around a region. The search goes down from the root to the first child that covers
  the region, and never back up. Nothing is lost that way: whatever stands below a node covers no more
  than the node does, and of two children only one can cover a region that is not empty, since they have
  no token in common. An empty region may be covered by several children, as it may lie between two of
  them. Main statement: `Parsed.ofText_innermost`.
-/
import DartAnalysis.Proofs.Parse.Regions
import DartAnalysis.Proofs.Parse.Places
import DartAnalysis.Proofs.Tree.Bodies
import DartAnalysis.Tree.Locate
import Mathlib

namespace DartAnalysis

namespace Tree

variable {t : Tree} {r : Region}

theorem covers_bounds {n : NodeId} (h : t.covers r n = true) :
    t.offset n ≤ r.start ∧ r.stop ≤ t.finish n := by
  simp only [covers, Bool.and_eq_true, decide_eq_true_eq] at h
  exact ⟨h.1.2, h.2⟩

/-- A region with text in it is covered by what begins no later and ends no earlier. -/
theorem covers_iff {n : NodeId} (hr : r.start < r.stop) :
    t.covers r n = true ↔ t.offset n ≤ r.start ∧ r.stop ≤ t.finish n := by
  refine ⟨covers_bounds, fun ⟨hstart, hstop⟩ => ?_⟩
  have htext : t.offset n ≠ t.finish n := by omega
  simp [covers, htext, hstart, hstop]

theorem coveringChild?_eq_none {n : NodeId} (h : t.coveringChild? r n = none) :
    ∀ c ∈ t.pieces n, t.covers r c = false := by
  intro c hc
  obtain ⟨hchild, hkind⟩ := List.mem_filter.1 hc
  have hnot := List.find?_eq_none.1 h c hchild
  simpa [hkind] using hnot

theorem mem_pieces_of_coveringChild? {n c : NodeId} (h : t.coveringChild? r n = some c) :
    c ∈ t.pieces n ∧ t.covers r c = true := by
  have hfound := List.find?_some h
  simp only [Bool.and_eq_true] at hfound
  exact ⟨List.mem_filter.2 ⟨List.mem_of_find?_eq_some h, hfound.1⟩, hfound.2⟩

/-- A node is an ancestor of all that is below it, and of nothing else. -/
theorem isAncestor_iff (howned : t.nodes.Owned) {a n : NodeId} :
    t.isAncestor a n = true ↔ n ∈ t.below a := by
  refine ⟨mem_below_of_isAncestor howned, fun h => ?_⟩
  obtain ⟨way, hway⟩ := exists_path_of_mem_below howned h
  refine List.contains_iff_mem.2 ?_
  induction hway with
  | here =>
    unfold ancestors ancestorsTo
    split
    · exact List.mem_cons_self
    · exact List.mem_singleton_self a
  | down hpath hc ih =>
    rw [ancestors_of_child howned hc]
    exact List.mem_cons_of_mem _ (ih ((mem_below_iff howned).2 ⟨_, hpath⟩))

/-- Where the way down ends: at a node below that covers what the first one covered, with no child that
    does. -/
theorem descend_spec (howned : t.nodes.Owned) {depth : Nat} {n : NodeId} (hdepth : n < depth) :
    t.descend r depth n ∈ t.below n ∧
    (t.covers r n = true → t.covers r (t.descend r depth n) = true) ∧
    ((t.kind n).isComment = false → (t.kind (t.descend r depth n)).isComment = false) ∧
    t.coveringChild? r (t.descend r depth n) = none := by
  induction depth generalizing n with
  | zero => exact absurd hdepth (Nat.not_lt_zero n)
  | succ depth ih =>
    unfold descend
    cases hchild : t.coveringChild? r n with
    | none => exact ⟨mem_below_self howned n, id, id, hchild⟩
    | some c =>
      obtain ⟨hpiece, hcovers⟩ := mem_pieces_of_coveringChild? hchild
      have hc : c ∈ t.children n := (List.mem_filter.1 hpiece).1
      have hdepth' : c < depth :=
        Nat.lt_of_lt_of_le (howned.child_lt n c hc) (Nat.le_of_lt_succ hdepth)
      obtain ⟨hbelow, hcovers', hkind, hnone⟩ := ih hdepth'
      exact ⟨mem_below_child howned hc hbelow, fun _ => hcovers' hcovers,
        fun _ => hkind (isComment_of_mem_pieces hpiece).2, hnone⟩

/-- The innermost node around a region. If the region has text in it, the nodes that cover it are the
    node itself and those around it, so that it is the smallest of them. -/
structure Innermost (t : Tree) (r : Region) (n : NodeId) : Prop where
  mem : n ∈ t.preorder
  isComment : (t.kind n).isComment = false
  covers : t.covers r n = true
  pieces : ∀ c ∈ t.pieces n, t.covers r c = false
  ancestors : r.start < r.stop → ∀ m ∈ t.preorder, (t.kind m).isComment = false →
    (t.covers r m = true ↔ t.isAncestor m n = true)
  smallest : r.start < r.stop → ∀ m ∈ t.preorder, (t.kind m).isComment = false →
    t.covers r m = true → t.offset m ≤ t.offset n ∧ t.finish n ≤ t.finish m

end Tree

namespace Parsed

namespace Formed

variable {p : Parsed} {e : Grammar.Entry} {source? : Option Source} {text : String}
  (h : p.Formed e source? text)
include h

theorem isComment_root : (p.tree.kind p.tree.root).isComment = false := by
  obtain ⟨shape, hshape, hadmits, -⟩ := h.root
  obtain ⟨-, rfl⟩ := shape_of_node? hshape
  revert hadmits
  cases e <;> cases p.tree.kind p.tree.root <;> first | exact fun _ => rfl | exact nofun

theorem preorder_eq : p.tree.preorder = p.tree.below p.tree.root :=
  Tree.preorderTo_eq_below h.owned h.root_lt

/-- What is below a node stands in the region of the node. -/
theorem region_below {c n : NodeId} (hc : c < p.tree.nodes.size) (hn : n ∈ p.tree.below c)
    (hcc : (p.tree.kind c).isComment = false) (hcn : (p.tree.kind n).isComment = false) :
    p.tree.offset c ≤ p.tree.offset n ∧ p.tree.finish n ≤ p.tree.finish c := by
  obtain ⟨hfirst, hspan, hlast⟩ := h.spans_below hc hn hcn
  have hinside := h.inside c hc
  have hbefore := (h.token_mono hfirst (Nat.lt_of_le_of_lt (Nat.le_trans hspan hlast) hinside)).1
  have hafter := (h.token_mono hlast hinside).2
  have hown := (h.token_mono hspan (Nat.lt_of_le_of_lt hlast hinside)).1
  have htoken : (p.tree.token (p.tree.lastToken n)).offset ≤
      (p.tree.token (p.tree.lastToken n)).finish := Nat.le_add_right _ _
  rw [Tree.finish_eq hcc, Tree.finish_eq hcn, Tree.offset_eq hcc, Tree.offset_eq hcn]
  omega

/-- Who has only earlier tokens ends where the other begins, or before. -/
theorem finish_le_offset {c d : NodeId} (hd : d < p.tree.nodes.size)
    (hlt : p.tree.lastToken c < p.tree.firstToken d)
    (hcc : (p.tree.kind c).isComment = false) (hcd : (p.tree.kind d).isComment = false) :
    p.tree.finish c ≤ p.tree.offset d := by
  have hd' : p.tree.firstToken d < p.tree.tokens.size :=
    Nat.lt_of_le_of_lt (h.tokens_inside d).1 (h.inside d hd)
  have hc' : p.tree.lastToken c < p.tree.tokens.size := Nat.lt_trans hlt hd'
  have hapart : (p.tree.token (p.tree.lastToken c)).finish ≤
      (p.tree.token (p.tree.firstToken d)).offset := by
    simpa [Tree.token, hc', hd'] using
      List.pairwise_iff_getElem.1 h.ordered _ _ hc' hd' hlt
  have hspan := (h.token_mono (h.tokens_inside c).1 hc').1
  have htoken : (p.tree.token (p.tree.lastToken c)).offset ≤
      (p.tree.token (p.tree.lastToken c)).finish := Nat.le_add_right _ _
  rw [Tree.finish_eq hcc, Tree.offset_eq hcd]
  omega

/-- Of the children of a node at most one covers a region with text in it. -/
theorem piece_unique {r : Region} (hr : r.start < r.stop) {n c d : NodeId}
    (hc : c ∈ p.tree.pieces n) (hd : d ∈ p.tree.pieces n) (hcr : p.tree.covers r c = true)
    (hdr : p.tree.covers r d = true) : c = d := by
  by_contra hne
  obtain ⟨hcstart, hcstop⟩ := Tree.covers_bounds hcr
  obtain ⟨hdstart, hdstop⟩ := Tree.covers_bounds hdr
  have hcc := (Tree.isComment_of_mem_pieces hc).2
  have hcd := (Tree.isComment_of_mem_pieces hd).2
  rcases h.apart hc hd hne with hlt | hlt
  · have hle := h.finish_le_offset (h.bounds hd).2.1 hlt hcc hcd
    omega
  · have hle := h.finish_le_offset (h.bounds hc).2.1 hlt hcd hcc
    omega

/-- What covers a region with text in it is passed on the way down, and all that is passed covers it. -/
theorem covers_iff_below {r : Region} (hr : r.start < r.stop) {depth : Nat} {n m : NodeId}
    (hdepth : n < depth) (hn : n < p.tree.nodes.size) (hcn : (p.tree.kind n).isComment = false)
    (hcovers : p.tree.covers r n = true) (hm : m ∈ p.tree.below n)
    (hcm : (p.tree.kind m).isComment = false) :
    p.tree.covers r m = true ↔ p.tree.descend r depth n ∈ p.tree.below m := by
  induction depth generalizing n with
  | zero => exact absurd hdepth (Nat.not_lt_zero n)
  | succ depth ih =>
    rcases Tree.below_cases h.owned hm with rfl | ⟨d, hd, hmd⟩
    · have hspec := Tree.descend_spec (t := p.tree) (r := r) h.owned hdepth
      exact ⟨fun _ => hspec.1, fun _ => hcovers⟩
    · have hpiece : d ∈ p.tree.pieces n := Tree.mem_pieces_of_below h.owned hd hmd hcm
      have hcd := (Tree.isComment_of_mem_pieces hpiece).2
      have hdlt := Nat.lt_trans (h.owned.child_lt n d hd) hn
      -- A child with such a node below it covers the region too.
      have hup (hcr : p.tree.covers r m = true) : p.tree.covers r d = true := by
        obtain ⟨hstart, hstop⟩ := Tree.covers_bounds hcr
        obtain ⟨hoffset, hfinish⟩ := h.region_below hdlt hmd hcd hcm
        exact (Tree.covers_iff hr).2 ⟨by omega, by omega⟩
      unfold Tree.descend
      cases hchild : p.tree.coveringChild? r n with
      | none =>
        have hnot := Tree.coveringChild?_eq_none hchild d hpiece
        refine ⟨fun hcr => ?_, fun hback => ?_⟩
        · rw [hup hcr] at hnot
          cases hnot
        · obtain ⟨way, hway⟩ := Tree.exists_path_of_mem_below h.owned
            (Tree.mem_below_trans h.owned hmd hback)
          exact absurd (h.owned.path_le hway) (Nat.not_le.2 (h.owned.child_lt n d hd))
      | some c =>
        obtain ⟨hc, hcc⟩ := Tree.mem_pieces_of_coveringChild? hchild
        have hchildren : c ∈ p.tree.children n := (List.mem_filter.1 hc).1
        have hlt := h.owned.child_lt n c hchildren
        have hclt := Nat.lt_trans hlt hn
        have hdepth' : c < depth := Nat.lt_of_lt_of_le hlt (Nat.le_of_lt_succ hdepth)
        have hkind := (Tree.isComment_of_mem_pieces hc).2
        by_cases heq : c = d
        · subst heq
          exact ih hdepth' hclt hkind hcc hmd
        · refine ⟨fun hcr => absurd (h.piece_unique hr hc hpiece hcc (hup hcr)) heq, fun hback => ?_⟩
          -- The way down leads into another child, and two children share nothing below.
          have hend := (Tree.descend_spec (t := p.tree) (r := r) h.owned hdepth').1
          have hshared := Tree.mem_below_trans h.owned hmd hback
          exact absurd hshared (Tree.below_disjoint h.owned hchildren hd heq hend)

end Formed

/-- Whatever a text is read as and whichever region is asked for, the search finds nothing just if the
    root does not cover the region, and otherwise the innermost node around it. -/
theorem ofText_innermost (e : Grammar.Entry) (source? : Option Source) (text : String) (a b : Nat) :
    ((ofText e source? text).tree.locate? (.between a b) = none ↔
      (ofText e source? text).tree.covers (.between a b) (ofText e source? text).tree.root = false) ∧
    ∀ n, (ofText e source? text).tree.locate? (.between a b) = some n →
      (ofText e source? text).tree.Innermost (.between a b) n := by
  obtain ⟨p, -, htree, h⟩ := ofText_formed e source? text
  rw [htree]
  generalize Region.between a b = r
  refine ⟨?_, fun n hn => ?_⟩
  · unfold Tree.locate?
    split <;> simp_all
  · unfold Tree.locate? at hn
    split at hn
    · rename_i hcovers
      obtain rfl := Option.some.inj hn
      obtain ⟨hbelow, hcovers', hkind, hnone⟩ :=
        Tree.descend_spec (t := p.tree) (r := r) h.owned h.root_lt
      have hkind := hkind h.isComment_root
      have hiff (hr : r.start < r.stop) (m : NodeId) (hm : m ∈ p.tree.preorder)
          (hcm : (p.tree.kind m).isComment = false) :=
        h.covers_iff_below hr h.root_lt h.root_lt h.isComment_root hcovers (h.preorder_eq ▸ hm) hcm
      refine ⟨h.preorder_eq ▸ hbelow, hkind, hcovers' hcovers, Tree.coveringChild?_eq_none hnone,
        fun hr m hm hcm => ?_, fun hr m hm hcm hcr => ?_⟩
      · exact (hiff hr m hm hcm).trans (Tree.isAncestor_iff h.owned).symm
      · have hmlt := h.lt_of_mem_below_root (h.preorder_eq ▸ hm)
        exact h.region_below hmlt ((hiff hr m hm hcm).1 hcr) hcm hkind
    · cases hn

set_option maxRecDepth 4000 in
/-- Around `+ ` and the parenthesis after it, with an operand missing between them, there is nothing
    smaller than the parentheses. -/
theorem ofText_innermost_parentheses :
    (ofText .unit none " f() { x = (a + ) * b; }").tree.locate? (.between 17 14) = some 6 ∧
      (ofText .unit none " f() { x = (a + ) * b; }").tree.Innermost (.between 17 14) 6 := by
  have hfound : (ofText .unit none " f() { x = (a + ) * b; }").tree.locate? (.between 17 14) =
      some 6 := by
    cbv
  exact ⟨hfound, (ofText_innermost .unit none " f() { x = (a + ) * b; }" 17 14).2 6 hfound⟩

end Parsed

end DartAnalysis
