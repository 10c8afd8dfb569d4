/-
  Documentation comments. The nodes that may have documentation begin at tokens of their own
  (`Formed.firstToken_ne_of_documentable`), so the gaps before them have no comment in common. Main
  statement: in a text that is parsed without problems every directive, top-level declaration and class
  member has the documentation that stands before it, and none of it belongs to another one
  (`Parsed.ofText_documentation`).
-/
import DartAnalysis.Proofs.Parse.Attaching
import DartAnalysis.Proofs.Parse.Places
import DartAnalysis.Proofs.Parse.Regions

namespace DartAnalysis

open Grammar

namespace Tree

variable (t : Tree)

/-- A comment between a token and the one before it. -/
def InGap (id : TokenId) (c : CommentId) : Prop :=
  c < t.comments.size ∧ gapStart t.tokens id ≤ (t.comment c).offset ∧
    (t.comment c).finish ≤ (t.token id).offset

/-- The directives and top-level declarations of a unit, and the members of its classes. -/
def documentable : List NodeId :=
  t.directives ++ t.declarations ++ t.declarations.flatMap fun d => (t.kind d).members

/-- The comments that the comment of a node lists. -/
def listed (d : NodeId) : List CommentId :=
  match (t.kind d).comment?.map t.kind with
  | some (.comment run) => run
  | _ => []

/-- A node has the documentation that stands before it: a comment just if the last comment of the gap
    before its first token is documentation. The comment lists entries of the table in a row up to that
    one, only this if it is no line comment, and otherwise the longest run of line comments. -/
structure Documented (d : NodeId) : Prop where
  comment_iff : (t.kind d).comment?.isSome = true ↔
    ∃ c, LastOf (t.InGap (t.firstToken d)) c ∧ (t.comment c).isDocumentation = true
  lists : ∀ n ∈ (t.kind d).comment?, ∃ first last, first ≤ last ∧
    t.kind n = .comment (List.range' first (last + 1 - first)) ∧
    LastOf (t.InGap (t.firstToken d)) last ∧
    (isLineDoc (t.comment last) = false → first = last) ∧
    (isLineDoc (t.comment last) = true → Lines t.comments (t.InGap (t.firstToken d)) first last ∧
      ∀ first', Lines t.comments (t.InGap (t.firstToken d)) first' last → first ≤ first')

/-- What begins within nodes that have no token in common does not begin at the same token. -/
theorem Apart.firstToken_ne {t : Tree} {c d x y : NodeId} (h : t.Apart c d)
    (hx : t.firstToken c ≤ t.firstToken x ∧ t.firstToken x ≤ t.lastToken c)
    (hy : t.firstToken d ≤ t.firstToken y ∧ t.firstToken y ≤ t.lastToken d) :
    t.firstToken x ≠ t.firstToken y := by
  rcases h with h | h
  · exact Nat.ne_of_lt (Nat.lt_of_le_of_lt hx.2 (Nat.lt_of_lt_of_le h hy.1))
  · exact Nat.ne_of_gt (Nat.lt_of_le_of_lt hy.2 (Nat.lt_of_lt_of_le h hx.1))

end Tree

namespace Parsed

section Formed

variable {p : Parsed} {source? : Option Source} {text : String} (h : p.Formed .unit source? text)
include h

/-- Comments take up some of the text. -/
theorem Formed.comment_offset_lt {c : CommentId} (hc : c < p.tree.comments.size) :
    (p.tree.comment c).offset < (p.tree.comment c).finish := by
  obtain ⟨ps, -, hcuts⟩ := Scan.ofText_cuts source? text
  have hmem : p.tree.comment c ∈ (Scan.ofText source? text).comments := by
    rw [← h.comments]
    simp [Tree.comment, hc]
  have hpos := Text.byteSize_pos (hcuts.mem_comment hmem).2
  rw [← Lexer.Piece.finish_comment]
  omega

/-- A comment that begins before a token ends before it, if nothing was reported. -/
theorem Formed.inGap_iff
    (hrespelled : Respelled (Scan.ofText source? text).tokens.toList p.tree.tokens.toList) {i : TokenId}
    (hi : i < p.tree.tokens.size) (c : CommentId) :
    p.tree.InGap i c ↔ c < p.tree.comments.size ∧
      gapStart p.tree.tokens i ≤ (p.tree.comment c).offset ∧
      (p.tree.comment c).offset < (p.tree.token i).offset := by
  obtain ⟨ps, -, hcuts⟩ := Scan.ofText_cuts source? text
  have hmem : p.tree.token i ∈ p.tree.tokens.toList := by simp [Tree.token, hi]
  have hclear := hrespelled.clear (clear_of_cuts hcuts) _ hmem
  rw [← h.comments] at hclear
  refine ⟨fun hin => ⟨hin.1, hin.2.1, Nat.lt_of_lt_of_le (h.comment_offset_lt hin.1) hin.2.2⟩,
    fun hin => ⟨hin.1, hin.2.1, hclear.before _ ?_ hin.2.2⟩⟩
  simp [Tree.comment, hin.1]

/-- No comment stands in two gaps. -/
theorem Formed.eq_of_inGap {i j : TokenId} {c : CommentId} (hi : p.tree.InGap i c)
    (hj : p.tree.InGap j c) (hin : i < p.tree.tokens.size) (hjn : j < p.tree.tokens.size) : i = j := by
  -- The later gap begins behind the token that ends the earlier one.
  have happart {i j : TokenId} (hi : p.tree.InGap i c) (hj : p.tree.InGap j c)
      (hjn : j < p.tree.tokens.size) : ¬ i < j := by
    intro hlt
    obtain ⟨k, rfl⟩ := Nat.exists_eq_succ_of_ne_zero (Nat.ne_of_gt (Nat.zero_lt_of_lt hlt))
    have hmono := (h.token_mono (Nat.le_of_lt_succ hlt) (Nat.lt_of_succ_lt hjn)).2
    have hspan : (p.tree.token i).offset ≤ (p.tree.token i).finish := Nat.le_add_right _ _
    have hlower : (p.tree.token k).finish ≤ (p.tree.comment c).offset := hj.2.1
    have hupper := hi.2.2
    have hpos := h.comment_offset_lt hi.1
    omega
  rcases Nat.lt_trichotomy i j with hlt | heq | hlt
  · exact absurd hlt (happart hi hj hjn)
  · exact heq
  · exact absurd hlt (happart hj hi hin)

/-! ## Where documented nodes begin -/

/-- A directive or declaration is a child of the root that is no comment. -/
theorem Formed.piece_of_part {d : NodeId} (hd : d ∈ p.tree.directives ++ p.tree.declarations) :
    d ∈ p.tree.pieces p.tree.root := by
  have hsorted := Node.Kind.wellSorted (h.formed (node?_layout h.root_lt)).content
  cases hkind : p.tree.kind p.tree.root with
  | unit directives declarations =>
    rw [hkind] at hsorted
    obtain ⟨hdirectives, hrest⟩ := List.forall₂_cons.1 hsorted
    obtain ⟨hdeclarations, -⟩ := List.forall₂_cons.1 hrest
    have hd : d ∈ directives ++ declarations := by
      simpa [Tree.directives, Tree.declarations, hkind] using hd
    have hchild : d ∈ p.tree.children p.tree.root := by
      show d ∈ (p.tree.kind p.tree.root).children
      rw [hkind]
      simpa [Node.Kind.children, Node.Kind.fields, Field.children] using hd
    refine List.mem_filter.2 ⟨hchild, ?_⟩
    have hplain {c : Category} (his : p.layout.Is c d)
        (hc : ∀ kind : Node.Kind, c.admits kind = true → kind.isComment = false) :
        (!(p.tree.kind d).isComment) = true := by
      obtain ⟨shape, hshape, hadmits, -⟩ := his
      obtain ⟨-, rfl⟩ := shape_of_node? hshape
      simp [hc _ hadmits]
    rcases List.mem_append.1 hd with hd | hd
    · exact hplain (hdirectives d hd) fun kind => by
        cases kind <;> first | exact fun _ => rfl | exact fun h => absurd h Bool.false_ne_true
    · exact hplain (hdeclarations d hd) fun kind => by
        cases kind <;> first | exact fun _ => rfl | exact fun h => absurd h Bool.false_ne_true
  | _ => simp [Tree.directives, Tree.declarations, hkind] at hd

/-- A member is a child of its class that begins later. -/
theorem Formed.piece_of_member {k m : NodeId} (hk : k < p.tree.nodes.size)
    (hm : m ∈ (p.tree.kind k).members) :
    m ∈ p.tree.pieces k ∧ p.tree.firstToken k < p.tree.firstToken m := by
  have hcontent := (h.formed (node?_layout hk)).content
  cases hkind : p.tree.kind k with
  | declaration x =>
    cases x with
    | classDecl comment? abstract? keyword name typeParameters? extends? with? implements? leftBrace
        members rightBrace =>
      rw [hkind] at hm
      have hm : m ∈ members := hm
      simp only [hkind] at hcontent
      obtain ⟨lo, hcomment, hmakings⟩ := Lie.append_iff.1 hcontent
      obtain ⟨mid, hheading, mid', hclauses, hbody⟩ := Lie.append_iff.1 hmakings
      have hlt : p.tree.firstToken k < mid' :=
        Nat.lt_of_le_of_lt hcomment.le (Nat.lt_of_lt_of_le
          (hheading.lt (by simp [laid, Slot.laid, Held.isSolid])) hclauses.le)
      have hmember : Held.node .member m ∈ laid [.punctuation .openCurly, .nodes .member,
          .punctuation .closeCurly] [.token leftBrace, .nodes members, .token rightBrace] := by
        simp [laid, Slot.laid, tagged, hm]
      obtain ⟨⟨_, hadmitted, hadmits, -⟩, shape, hshape, hfirst, -⟩ := hbody.lies hmember
      obtain ⟨-, rfl⟩ := shape_of_node? hadmitted
      obtain ⟨-, rfl⟩ := shape_of_node? hshape
      refine ⟨List.mem_filter.2 ⟨?_, ?_⟩, Nat.lt_of_lt_of_le hlt hfirst⟩
      · show m ∈ (p.tree.kind k).children
        rw [hkind]
        simp [Node.Kind.children, Node.Kind.fields, Declaration.fields, Field.children, hm]
      · revert hadmits
        dsimp only
        cases p.tree.kind m <;> first | exact fun _ => rfl | exact fun h => absurd h Bool.false_ne_true
    | _ =>
      rw [hkind] at hm
      cases hm
  | _ =>
    rw [hkind] at hm
    cases hm

/-- A documented node stands in a directive or declaration, as this itself or as a member of it. -/
theorem Formed.part_of_documentable {d : NodeId} (hd : d ∈ p.tree.documentable) :
    ∃ k ∈ p.tree.pieces p.tree.root, d = k ∨ d ∈ p.tree.pieces k ∧
      p.tree.firstToken k < p.tree.firstToken d := by
  rcases List.mem_append.1 hd with hd | hd
  · exact ⟨d, h.piece_of_part hd, .inl rfl⟩
  · obtain ⟨k, hk, hd⟩ := List.mem_flatMap.1 hd
    have hpiece := h.piece_of_part (List.mem_append_right _ hk)
    exact ⟨k, hpiece, .inr (h.piece_of_member (h.bounds hpiece).2.1 hd)⟩

/-- Documented nodes begin at tokens of their own. -/
theorem Formed.eq_of_documentable {d d' : NodeId} (hd : d ∈ p.tree.documentable)
    (hd' : d' ∈ p.tree.documentable) (heq : p.tree.firstToken d = p.tree.firstToken d') : d = d' := by
  obtain ⟨k, hk, hd⟩ := h.part_of_documentable hd
  obtain ⟨k', hk', hd'⟩ := h.part_of_documentable hd'
  have hown {q d : NodeId} (hd : d ∈ p.tree.pieces q) :
      p.tree.firstToken d ≤ p.tree.firstToken d ∧ p.tree.firstToken d ≤ p.tree.lastToken d :=
    ⟨Nat.le_refl _, (h.bounds hd).2.2.2.1⟩
  have hwithin {k d : NodeId} (hk : k ∈ p.tree.pieces p.tree.root)
      (hd : d = k ∨ d ∈ p.tree.pieces k ∧ p.tree.firstToken k < p.tree.firstToken d) :
      p.tree.firstToken k ≤ p.tree.firstToken d ∧ p.tree.firstToken d ≤ p.tree.lastToken k := by
    rcases hd with rfl | ⟨hd, -⟩
    · exact hown hk
    · obtain ⟨-, -, hfirst, hspan, hlast⟩ := h.bounds hd
      exact ⟨hfirst, Nat.le_trans hspan hlast⟩
  by_cases hkk : k = k'
  · subst hkk
    rcases hd with rfl | ⟨hd, hlt⟩
    · rcases hd' with rfl | ⟨-, hlt'⟩
      · rfl
      · exact absurd heq (Nat.ne_of_lt hlt')
    · rcases hd' with rfl | ⟨hd', -⟩
      · exact absurd heq (Nat.ne_of_gt hlt)
      · by_contra hne
        exact (h.apart hd hd' hne).firstToken_ne (hown hd) (hown hd') heq
  · exact absurd heq ((h.apart hk hk' hkk).firstToken_ne (hwithin hk hd) (hwithin hk' hd'))

end Formed

/-! ## Whole texts -/

/-- The tables of a tree are those that its parse ended with. -/
structure LeftBy (p : Parsed) (s : State) : Prop where
  nodes_eq : p.tree.nodes = s.nodes
  tokens_eq : p.tree.tokens = s.tokens
  comments_eq : p.tree.comments = s.comments
  errors_eq : p.errors = s.errors.toList

theorem LeftBy.shape_eq {p : Parsed} {s : State} (h : p.LeftBy s) {n : NodeId} {shape : Shape}
    (hn : s.layout.node? n = some shape) :
    shape = ⟨p.tree.kind n, p.tree.firstToken n, p.tree.lastToken n⟩ := by
  have hn : p.layout.node? n = some shape := by
    show p.tree.nodes[n]?.map _ = _
    rw [h.nodes_eq]
    exact hn
  exact (shape_of_node? hn).2

/-- Parsing a unit leaves it complete. -/
theorem ofScan?_complete {scan : Scan} {ps : List Lexer.Piece} (h : Lexer.Cuts scan ps) :
    ∃ p final, ofScan? .unit scan = some p ∧ p.LeftBy final ∧
      ∀ n ∈ p.tree.children p.tree.root, final.Complete n := by
  obtain ⟨root, final, hparse, -, hleads, -⟩ :=
    entry_makes .unit _ [] (.ofScan scan) (Nat.le_refl _) trivial (State.good_ofScan h)
  obtain ⟨shape, hshape, hcomplete⟩ :=
    compilationUnit_ensures (inner_makes maxNesting) outermost_readsTypes (State.good_ofScan h) hparse
  let parsed : Parsed :=
    { tree := { source? := scan.source?, nodes := final.nodes, tokens := final.tokens,
                comments := scan.comments, lines := scan.lines, root }
      errors := final.errors.toList }
  have hleft : parsed.LeftBy final := ⟨rfl, rfl, hleads.comments_eq.symm, rfl⟩
  have hparsed : ofScan? .unit scan = some parsed := by
    unfold ofScan?
    rw [hparse]
    rfl
  obtain rfl := hleft.shape_eq hshape
  exact ⟨parsed, final, hparsed, hleft, hcomplete⟩

section Documented

variable {p : Parsed} {source? : Option Source} {text : String} (h : p.Formed .unit source? text)
include h

/-- The documentation before a documented node is found whichever way it is reached. -/
theorem Formed.attached {s : State} (hleft : p.LeftBy s)
    (hcomplete : ∀ n ∈ p.tree.children p.tree.root, s.Complete n) {d : NodeId}
    (hd : d ∈ p.tree.documentable) : s.Attached d := by
  rcases List.mem_append.1 hd with hd | hd
  · exact (hcomplete d (List.mem_of_mem_filter (h.piece_of_part hd))).attached
  · obtain ⟨k, hk, hd⟩ := List.mem_flatMap.1 hd
    have hpiece := h.piece_of_part (List.mem_append_right _ hk)
    obtain ⟨shape, hshape, -, hmembers⟩ := hcomplete k (List.mem_of_mem_filter hpiece)
    exact hmembers d (hleft.shape_eq hshape ▸ hd)

/-- What a documented node of a text without problems has before it. -/
theorem Formed.documents {s : State} (hleft : p.LeftBy s) (hclean : p.errors = [])
    (hrespelled : Respelled (Scan.ofText source? text).tokens.toList p.tree.tokens.toList) {d : NodeId}
    (hd : s.Attached d) :
    ∃ run, Documents p.tree.comments (p.tree.InGap (p.tree.firstToken d)) run ∧
      (run ≠ [] ↔ (p.tree.kind d).comment?.isSome = true) ∧
      ∀ n ∈ (p.tree.kind d).comment?, p.tree.kind n = .comment run := by
  have hempty : s.errors = #[] := Array.toList_eq_nil_iff.1 (hleft.errors_eq ▸ hclean)
  obtain ⟨ps, -, hcuts⟩ := Scan.ofText_cuts source? text
  have hsorted := hcuts.comments_increase
  rw [← h.comments] at hsorted
  obtain ⟨shape, hshape, -, hdocumented⟩ := hd
  obtain ⟨upper, hupper, hle, hsome, hlists⟩ := hdocumented hempty
  obtain rfl := hleft.shape_eq hshape
  rw [← hleft.tokens_eq] at hupper hle hsome hlists
  rw [← hleft.comments_eq] at hsome hlists
  obtain ⟨token, htoken, rfl⟩ := Option.map_eq_some_iff.1 hupper
  obtain ⟨hlt, rfl⟩ := Array.getElem?_eq_some_iff.1 htoken
  refine ⟨_, ?_, hsome, fun n hn => ?_⟩
  · have hgap := funext fun c => propext (h.inGap_iff hrespelled hlt c)
    have htoken : p.tree.token (p.tree.firstToken d) = p.tree.tokens[p.tree.firstToken d] := by
      simp [Tree.token, hlt]
    rw [hgap, htoken]
    exact documents_documentation hsorted hle
  · obtain ⟨shape, hshape, hkind⟩ := hlists n hn
    obtain rfl := hleft.shape_eq hshape
    exact hkind

end Documented

/-- If a unit parses without problems, each of its directives, top-level declarations and class members
    has the documentation that stands before it, and no comment is listed by two of them. -/
theorem ofText_documentation (source? : Option Source) (text : String)
    (hclean : (ofScan .unit (Scan.ofText source? text)).errors = []) :
    (∀ d ∈ (ofText .unit source? text).tree.documentable,
      (ofText .unit source? text).tree.Documented d) ∧
    ∀ d ∈ (ofText .unit source? text).tree.documentable,
      ∀ d' ∈ (ofText .unit source? text).tree.documentable,
      ∀ c ∈ (ofText .unit source? text).tree.listed d,
      c ∈ (ofText .unit source? text).tree.listed d' → d = d' := by
  obtain ⟨p, hparsed, htree, h⟩ := ofText_formed .unit source? text
  have hclean : p.errors = [] := by simpa [ofScan, hparsed] using hclean
  obtain ⟨ps, -, hcuts⟩ := Scan.ofText_cuts source? text
  obtain ⟨q, s, hq, hleft, hcomplete⟩ := ofScan?_complete hcuts
  obtain rfl := Option.some.inj (hparsed.symm.trans hq)
  obtain ⟨q, hq, -, -, hrespelled⟩ := ofText_silent .unit source? text
  obtain rfl := Option.some.inj (hparsed.symm.trans hq)
  rw [htree]
  have hdocuments {d : NodeId} (hd : d ∈ p.tree.documentable) :=
    h.documents hleft hclean (hrespelled hclean) (h.attached hleft hcomplete hd)
  refine ⟨fun d hd => ?_, fun d hd d' hd' c hc hc' => ?_⟩
  · obtain ⟨run, hrun, hsome, hlists⟩ := hdocuments hd
    refine ⟨hsome.symm.trans hrun.some_iff, fun n hn => ?_⟩
    obtain ⟨first, last, hle, hrange, hends⟩ :=
      hrun.ends (hsome.2 (Option.isSome_iff_exists.2 ⟨n, hn⟩))
    exact ⟨first, last, hle, hrange ▸ hlists n hn, hends⟩
  · have hgap {d : NodeId} (hd : d ∈ p.tree.documentable) (hc : c ∈ p.tree.listed d) :
        p.tree.InGap (p.tree.firstToken d) c := by
      obtain ⟨run, hrun, -, hlists⟩ := hdocuments hd
      refine hrun.gap_of_mem ?_
      unfold Tree.listed at hc
      cases hcomment : (p.tree.kind d).comment? with
      | none =>
        rw [hcomment] at hc
        cases hc
      | some n =>
        rw [hcomment, Option.map_some, hlists n hcomment] at hc
        exact hc
    have hinside (d : NodeId) : p.tree.firstToken d < p.tree.tokens.size :=
      Nat.lt_of_le_of_lt (h.tokens_inside d).1 (h.tokens_inside d).2
    exact h.eq_of_documentable hd hd' (h.eq_of_inGap (hgap hd hc) (hgap hd' hc') (hinside d) (hinside d'))

set_option maxRecDepth 8000 in
/-- Before this class stand a plain comment and two line comments, of which the latter document it, and
    before its member a line comment and a block, which documents it by itself. -/
theorem ofText_documentation_class :
    (ofScan .unit (Scan.ofText none "//\n///\n///\nclass A\x7b///\n/***/var a;\x7d")).errors = [] ∧
      (ofText .unit none "//\n///\n///\nclass A\x7b///\n/***/var a;\x7d").tree.documentable.map
        (ofText .unit none "//\n///\n///\nclass A\x7b///\n/***/var a;\x7d").tree.listed = [[1, 2], [4]] ∧
      ∀ d ∈ (ofText .unit none "//\n///\n///\nclass A\x7b///\n/***/var a;\x7d").tree.documentable,
        (ofText .unit none "//\n///\n///\nclass A\x7b///\n/***/var a;\x7d").tree.Documented d := by
  have hclean : (ofScan .unit (Scan.ofText none "//\n///\n///\nclass A\x7b///\n/***/var a;\x7d")).errors =
      [] := by
    cbv
  refine ⟨hclean, ?_, (ofText_documentation none _ hclean).1⟩
  cbv

end Parsed

end DartAnalysis
