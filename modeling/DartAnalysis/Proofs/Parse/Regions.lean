/-
  The regions of nodes. A node ends no earlier than it begins and not behind the end of its text, a run
  of comments no less than a node that is made of tokens (`Formed.region`); and the statements of a
  block or of a switch member stand one behind the other, whatever was reported of the text
  (`Formed.statements`). So the length of a node is a difference of two places in order, and so is the
  length of the region that several statements cover together. Main statement: `Parsed.ofText_inside`.
-/
import DartAnalysis.Flow.Exit
import DartAnalysis.Proofs.Parse.Spans

namespace DartAnalysis

theorem Category.isComment_of_statement {kind : Node.Kind}
    (h : Category.statement.admits kind = true) : kind.isComment = false := by
  cases kind <;> first | rfl | cases h

namespace Tree

variable (t : Tree)

/-- The statements of a block or of a switch member. -/
def statements (n : NodeId) : List NodeId :=
  match t.kind n with
  | .statement (.block _ statements _) => statements
  | _ => (t.switchStatements? n).getD []

variable {t}

/-- Every node ends behind its beginning and no later than the text, and of the statements of a node an
    earlier one begins no later than a later one ends. -/
structure Inside (t : Tree) (text : String) : Prop where
  span : ∀ n, t.offset n ≤ t.finish n
  finish_le : ∀ n, t.finish n ≤ text.utf8ByteSize
  statements : ∀ n, (t.statements n).Pairwise fun c d => t.offset c ≤ t.finish d

/-- The length of a node reaches from its beginning to its end. -/
theorem Inside.offset_add_length {text : String} (h : t.Inside text) (n : NodeId) :
    t.offset n + t.length n = t.finish n :=
  Nat.add_sub_cancel' (h.span n)

/-- The region of a node that holds no comments is that of its tokens. -/
theorem region_of_no_comment {n : NodeId} (h : ∀ c run, t.kind n ≠ .comment (c :: run)) :
    t.offset n = (t.token (t.firstToken n)).offset ∧
      t.finish n = max (t.token (t.lastToken n)).finish (t.token (t.firstToken n)).offset := by
  have hoffset : t.offset n = (t.token (t.firstToken n)).offset := by
    unfold offset
    split
    · exact absurd ‹_› (h _ _)
    · rfl
  refine ⟨hoffset, ?_⟩
  rw [← hoffset]
  unfold finish
  split
  · rename_i cs hkind
    cases cs with
    | nil => rfl
    | cons c run => exact absurd hkind (h c run)
  · rfl

/-- The region of a run of comments reaches from the first to the last of them. -/
theorem region_of_comment {n : NodeId} {c : CommentId} {run : List CommentId}
    (h : t.kind n = .comment (c :: run)) :
    t.offset n = (t.comment c).offset ∧
      t.finish n = (t.comment ((c :: run).getLast (List.cons_ne_nil c run))).finish := by
  unfold offset finish
  simp only [h]
  rw [List.getLast?_eq_some_getLast (List.cons_ne_nil c run)]
  exact ⟨trivial, rfl⟩

/-- What a node with statements is: nothing in it stands in mixed order, and each of its statements is
    one of its parts and a statement. -/
structure Listing (kind : Node.Kind) (statements : List NodeId) : Prop where
  sublist : statements.Sublist (kind.placed.map Prod.snd)
  ordered : ∀ row orders, .scattered row orders ∉ kind.makings
  sorted : ∀ {T : Layout}, kind.WellSorted T → ∀ c ∈ statements, T.Is .statement c

theorem Listing.of_children {kind : Node.Kind} {statements : List NodeId} (before : List NodeId)
    (hcomment : kind.comment? = none) (hchildren : kind.children = before ++ statements)
    (hmakings : kind.makings = laid kind.slots kind.fields)
    (hsorted : ∀ {T : Layout}, kind.WellSorted T → ∀ c ∈ statements, T.Is .statement c) :
    Listing kind statements where
  sublist := by
    rw [Node.Kind.children_eq, hcomment, Option.toList_none, List.nil_append] at hchildren
    rw [hchildren]
    exact List.sublist_append_right before statements
  ordered row orders hmem := by
    rw [hmakings] at hmem
    exact Bool.false_ne_true (Node.Kind.isSingle_of_mem_laid hmem)
  sorted := hsorted

theorem listing {n : NodeId} (h : t.statements n ≠ []) : Listing (t.kind n) (t.statements n) := by
  unfold statements switchStatements? at h ⊢
  cases hkind : t.kind n with
  | statement s =>
    rw [hkind] at h
    cases s with
    | block openCurly statements closeCurly =>
      refine .of_children [] rfl ?_ rfl fun hsorted => ?_
      · simp [Node.Kind.children, Node.Kind.fields, Statement.fields, Field.children]
      · obtain ⟨-, hsorted⟩ := List.forall₂_cons.1 hsorted
        exact (List.forall₂_cons.1 hsorted).1
    | _ => exact absurd rfl h
  | switchMember m =>
    cases m with
    | case labels caseKw expression colon statements =>
      refine .of_children (labels ++ [expression]) rfl ?_ rfl fun hsorted => ?_
      · simp [Node.Kind.children, Node.Kind.fields, SwitchMember.fields, Field.children]
      · obtain ⟨-, hsorted⟩ := List.forall₂_cons.1 hsorted
        obtain ⟨-, hsorted⟩ := List.forall₂_cons.1 hsorted
        obtain ⟨-, hsorted⟩ := List.forall₂_cons.1 hsorted
        obtain ⟨-, hsorted⟩ := List.forall₂_cons.1 hsorted
        exact (List.forall₂_cons.1 hsorted).1
    | default labels defaultKw colon statements =>
      refine .of_children labels rfl ?_ rfl fun hsorted => ?_
      · simp [Node.Kind.children, Node.Kind.fields, SwitchMember.fields, Field.children]
      · obtain ⟨-, hsorted⟩ := List.forall₂_cons.1 hsorted
        obtain ⟨-, hsorted⟩ := List.forall₂_cons.1 hsorted
        obtain ⟨-, hsorted⟩ := List.forall₂_cons.1 hsorted
        exact (List.forall₂_cons.1 hsorted).1
  | _ =>
    rw [hkind] at h
    exact absurd rfl h

end Tree

namespace Parsed.Formed

variable {p : Parsed} {e : Grammar.Entry} {source? : Option Source} {text : String}
  (h : p.Formed e source? text)
include h

/-- A comment of the table stands in the text, and a later one stands behind it. -/
theorem comment_region {c d : CommentId} (hcd : c ≤ d) (hd : d < p.tree.comments.size) :
    (p.tree.comment c).offset ≤ (p.tree.comment d).finish ∧
      (p.tree.comment d).finish ≤ text.utf8ByteSize := by
  obtain ⟨ps, hspelled, hcuts⟩ := Scan.ofText_cuts source? text
  have hc := Nat.lt_of_le_of_lt hcd hd
  have hbehind : (p.tree.comment c).offset ≤ (p.tree.comment d).offset := by
    rcases Nat.lt_or_eq_of_le hcd with hlt | rfl
    · have hincrease := hcuts.comments_increase
      rw [← h.comments] at hincrease
      have hoffset := List.pairwise_iff_getElem.1 hincrease c d hc hd hlt
      simpa [Tree.comment, hc, hd] using Nat.le_of_lt hoffset
    · exact Nat.le_refl _
  have hmem : p.tree.comment d ∈ (Scan.ofText source? text).comments := by
    rw [← h.comments]
    simp [Tree.comment, hd]
  have hplaced := (Lexer.le_of_mem_placed (hcuts.mem_comment hmem).1).2
  rw [hspelled, Text.byteSize_toList, Nat.zero_add] at hplaced
  have hplaced := Lexer.Piece.finish_comment ▸ hplaced
  exact ⟨Nat.le_trans hbehind (Nat.le_add_right _ _), hplaced⟩

/-- The tokens of a node are there, its first no later than its last; so are those of no node. -/
theorem tokens_inside (n : NodeId) :
    p.tree.firstToken n ≤ p.tree.lastToken n ∧ p.tree.lastToken n < p.tree.tokens.size := by
  by_cases hn : n < p.tree.nodes.size
  · exact ⟨(h.formed (node?_layout hn)).span, h.inside n hn⟩
  · have hnone : p.tree.nodes.node n = default := Arena.node_of_size_le (Nat.le_of_not_lt hn)
    have hpos : 0 < p.tree.tokens.size := by
      have hlast := List.mem_of_getLast? h.eof
      exact Array.size_pos_of_mem (Array.mem_toList_iff.1 hlast)
    unfold Tree.firstToken Tree.lastToken
    rw [hnone]
    exact ⟨Nat.le_refl _, hpos⟩

/-- A node ends no earlier than it begins, and not behind the end of the text. -/
theorem region (n : NodeId) :
    p.tree.offset n ≤ p.tree.finish n ∧ p.tree.finish n ≤ text.utf8ByteSize := by
  by_cases hcomment : ∃ c run, p.tree.kind n = .comment (c :: run)
  · obtain ⟨c, run, hkind⟩ := hcomment
    obtain ⟨hincreasing, hlt⟩ := h.runs n _ hkind
    obtain ⟨hoffset, hfinish⟩ := Tree.region_of_comment hkind
    have hlast := List.getLast_mem (List.cons_ne_nil c run)
    have hle : c ≤ (c :: run).getLast (List.cons_ne_nil c run) := by
      rcases List.mem_cons.1 hlast with heq | hmem
      · exact Nat.le_of_eq heq.symm
      · exact Nat.le_of_lt ((List.pairwise_cons.1 hincreasing).1 _ hmem)
    rw [hoffset, hfinish]
    exact h.comment_region hle (hlt _ hlast)
  · obtain ⟨hoffset, hfinish⟩ :=
      Tree.region_of_no_comment fun c run hkind => hcomment ⟨c, run, hkind⟩
    obtain ⟨hspan, hinside⟩ := h.tokens_inside n
    have hmono := h.token_mono hspan hinside
    have hend := h.finish_le hinside
    have htoken : (p.tree.token (p.tree.lastToken n)).offset ≤
        (p.tree.token (p.tree.lastToken n)).finish := Nat.le_add_right _ _
    rw [hoffset, hfinish]
    omega

/-- Of the statements of a node an earlier one begins no later than a later one ends. -/
theorem statements (n : NodeId) :
    (p.tree.statements n).Pairwise fun c d => p.tree.offset c ≤ p.tree.finish d := by
  by_cases hnone : p.tree.statements n = []
  · rw [hnone]
    exact List.Pairwise.nil
  have hlisting := Tree.listing hnone
  have hn : n < p.tree.nodes.size := by
    by_contra hn
    have hdefault : p.tree.kind n = .unit [] [] := by
      rw [Tree.kind, Arena.kind, Arena.node_of_size_le (Nat.le_of_not_lt hn)]
      rfl
    rw [Tree.statements, Tree.switchStatements?, hdefault] at hnone
    exact hnone rfl
  have hcontent := (h.formed (node?_layout hn)).content
  have hplain (c : NodeId) (hc : c ∈ p.tree.statements n) : (p.tree.kind c).isComment = false := by
    obtain ⟨shape, hshape, hadmits, -⟩ := hlisting.sorted (Node.Kind.wellSorted hcontent) c hc
    obtain ⟨-, rfl⟩ := shape_of_node? hshape
    exact Category.isComment_of_statement hadmits
  obtain ⟨mid, -, hmakings⟩ := Lie.append_iff.1 hcontent
  have hrow := hmakings.row_of_scattered fun row orders hmem =>
    absurd hmem (hlisting.ordered row orders)
  have hapart : ((p.tree.kind n).placed.map Prod.snd).Pairwise fun c d =>
      p.tree.lastToken c < p.tree.firstToken d :=
    List.pairwise_map.2 ((node_apart hrow).imp And.right)
  refine (hapart.sublist hlisting.sublist).imp_of_mem fun {c d} hc hd hlt => ?_
  obtain ⟨hcspan, -⟩ := h.tokens_inside c
  obtain ⟨hdspan, hdinside⟩ := h.tokens_inside d
  have hbefore := (h.token_mono (Nat.le_trans hcspan (Nat.le_of_lt hlt))
    (Nat.lt_of_le_of_lt hdspan hdinside)).1
  have hown := (h.region d).1
  rw [Tree.offset_eq (hplain d hd)] at hown
  rw [Tree.offset_eq (hplain c hc)]
  exact Nat.le_trans hbefore hown

theorem tree_inside : p.tree.Inside text where
  span n := (h.region n).1
  finish_le n := (h.region n).2
  statements := h.statements

end Parsed.Formed

/-- The regions of a parsed text are in order and lie inside it, whatever is wrong with it. -/
theorem Parsed.ofText_inside (e : Grammar.Entry) (source? : Option Source) (text : String) :
    (ofText e source? text).tree.Inside text := by
  obtain ⟨parsed, -, htree, h⟩ := ofText_formed e source? text
  rw [htree]
  exact h.tree_inside

end DartAnalysis
