/-
  Where the children of a node stand. The content of a node lies between its first and its last token,
  one part after the other, so its children span tokens of their own among those of the node; if
  nothing was reported they stand in the order of the fields. Only a class declaration may take its
  children in another order then, as its with clause may stand behind its implements clause. Main
  statement: `Parsed.ofText_spans`.
-/
import DartAnalysis.Proofs.Parse.Formed
import Mathlib

namespace DartAnalysis

/-! ## Content in order -/

/-- The nodes of scattered parts stand in a row where those of the scattered parts do. -/
theorem Lie.row_of_scattered {T : Ground} {lo hi : Nat} {held : List Held} (h : Lie T lo hi held)
    (hscattered : ∀ row orders, .scattered row orders ∈ held → ∀ lo hi,
      Held.Lies T lo hi (.scattered row orders) → T.Row lo hi row) :
    T.Row lo hi (held.flatMap Held.located) := by
  induction held generalizing lo with
  | nil => exact h
  | cons x held ih =>
    obtain ⟨mid, hx, hrest⟩ := h
    have hrest := ih hrest fun row orders hmem => hscattered row orders (List.mem_cons_of_mem x hmem)
    refine Tables.row_append.2 ⟨mid, ?_, hrest⟩
    cases x with
    | node c n => exact hx
    | uri n => exact hx.1
    | scattered row orders => exact hscattered row orders (List.mem_cons_self ..) _ _ hx
    | _ => exact hx.le

/-- The clauses of a heading stand in the order of the fields if nothing was reported and none is
    mixed in behind the implements clause. -/
theorem Held.Lies.heading {T : Ground} {lo hi : Nat} {extends? with? implements? : Option NodeId}
    (h : Held.Lies T lo hi (.scattered (headingRow extends? with? implements?)
      (headingOrders extends? with? implements?))) (hclean : T.clean)
    (hbefore : ∀ w ∈ with?, ∀ i ∈ implements?, ∀ s s', T.node? w = some s → T.node? i = some s' →
      s.first < s'.first) :
    T.Row lo hi (headingRow extends? with? implements?) := by
  obtain ⟨order, horder, hrow⟩ := h.2 hclean
  simp only [headingOrders, List.mem_cons, List.not_mem_nil, or_false] at horder
  rcases horder with rfl | rfl
  · exact hrow
  · cases with? with
    | none => simpa [headingRow] using hrow
    | some w =>
      cases implements? with
      | none => simpa [headingRow] using hrow
      | some i =>
        obtain ⟨-, s, hs, -, hspan, -⟩ := hrow.bounds (.implementsClause, i) (by simp)
        obtain ⟨-, s', hs', -⟩ := hrow.bounds (.withClause, w) (by simp)
        have hlast := (List.pairwise_append.1 hrow.pairwise).2.2 (.implementsClause, i) (by simp)
          (.withClause, w) (by simp) s s' hs hs'
        have hfirst := hbefore w rfl i rfl s' s hs' hs
        omega

namespace Node.Kind

/-- The nodes that a kind is made of, with the categories of their fields. -/
def placed (kind : Node.Kind) : List Sorted := kind.makings.flatMap Held.located

/-- A token or a node by itself. -/
def isSingle : Held → Bool
  | .loose .. | .scattered .. => false
  | _ => true

theorem isSingle_of_mem_laid {slots : List Slot} {fields : List Field} {x : Held}
    (hx : x ∈ laid slots fields) : isSingle x = true := by
  induction slots generalizing fields with
  | nil => simp [laid] at hx
  | cons slot slots ih =>
    cases fields with
    | nil => simp [laid] at hx
    | cons field fields =>
      simp only [laid, List.zipWith_cons_cons, List.flatten_cons, List.mem_append] at hx
      rcases hx with hx | hx
      · cases slot <;> cases field <;> simp [Slot.laid, marked, tagged, scanned] at hx <;> grind [isSingle]
      · exact ih hx

theorem loose_notMem_makings (c : Category) (n : NodeId) (kind : Node.Kind) :
    .loose c n ∉ kind.makings := by
  have hlaid : ∀ {slots fields}, .loose c n ∉ laid slots fields := fun hmem =>
    Bool.false_ne_true (isSingle_of_mem_laid hmem)
  cases kind with
  | unit directives declarations => simp [makings]
  | declaration x =>
    cases x with
    | classDecl =>
      rw [makings]
      simp [hlaid]
    | _ => exact hlaid
  | _ => exact hlaid

theorem children_eq (kind : Node.Kind) :
    kind.children = kind.comment?.toList ++ kind.placed.map Prod.snd := by
  rw [← nodesOf_content, content, nodesOf_append, nodesOf_commented, placed, List.map_flatMap]
  congr 1
  refine List.flatMap_congr fun x hx => ?_
  cases x with
  | loose c n => exact absurd hx (loose_notMem_makings c n kind)
  | _ => rfl

end Node.Kind

namespace Tree

/-- The children of a node apart from its comment. -/
def pieces (t : Tree) (p : NodeId) : List NodeId := (t.children p).filter fun c => !(t.kind c).isComment

theorem isComment_of_mem_pieces {t : Tree} {p c : NodeId} (hc : c ∈ t.pieces p) :
    (t.kind p).isComment = false ∧ (t.kind c).isComment = false := by
  obtain ⟨hchild, hkind⟩ := List.mem_filter.1 hc
  refine ⟨?_, by simpa using hkind⟩
  have hchild : c ∈ (t.kind p).children := hchild
  cases hp : t.kind p with
  | comment run =>
    rw [hp] at hchild
    cases hchild
  | _ => rfl

/-- Two nodes with no token in common. -/
def Apart (t : Tree) (c d : NodeId) : Prop :=
  t.lastToken c < t.firstToken d ∨ t.lastToken d < t.firstToken c

theorem apart_symm (t : Tree) : Std.Symm fun x y : Sorted => t.Apart x.2 y.2 := ⟨fun _ _ => Or.symm⟩

/-- The with clause of a class stands before its implements clause, if it has both of them. -/
def MixesFirst (t : Tree) (p : NodeId) : Prop :=
  match t.kind p with
  | .declaration (.classDecl _ _ _ _ _ _ with? implements? _ _ _) =>
    ∀ w ∈ with?, ∀ i ∈ implements?, t.firstToken w < t.firstToken i
  | _ => True

end Tree

namespace Parsed

theorem shape_of_node? {p : Parsed} {n : NodeId} {shape : Shape} (h : p.layout.node? n = some shape) :
    n < p.tree.nodes.size ∧
      shape = ⟨p.tree.kind n, p.tree.firstToken n, p.tree.lastToken n⟩ := by
  obtain ⟨node, hnode, -⟩ := Option.map_eq_some_iff.1 h
  have hlt := (Array.getElem?_eq_some_iff.1 hnode).1
  exact ⟨hlt, Option.some.inj (h.symm.trans (node?_layout hlt))⟩

/-- Of two nodes of a row the first one ends before the second one begins. -/
theorem node_apart {p : Parsed} {lo hi : Nat} {row : List Sorted} (hrow : p.layout.Row lo hi row) :
    row.Pairwise fun x y => p.tree.firstToken x.2 ≤ p.tree.lastToken x.2 ∧
      p.tree.lastToken x.2 < p.tree.firstToken y.2 := by
  refine hrow.pairwise.imp_of_mem fun {x y} hx hy hlt => ?_
  obtain ⟨-, s, hs, -, hspan, -⟩ := hrow.bounds x hx
  obtain ⟨-, s', hs', -⟩ := hrow.bounds y hy
  obtain ⟨-, rfl⟩ := shape_of_node? hs
  obtain ⟨-, rfl⟩ := shape_of_node? hs'
  exact ⟨hspan, hlt _ _ hs hs'⟩

section Formed

variable {p : Parsed} {e : Grammar.Entry} {source? : Option Source} {text : String}
  (h : p.Formed e source? text)
include h

theorem Formed.pieces_sublist {n : NodeId} (hn : n < p.tree.nodes.size) :
    (p.tree.pieces n).Sublist ((p.tree.kind n).placed.map Prod.snd) := by
  obtain ⟨mid, hcomment, -⟩ := Lie.append_iff.1 (h.formed (node?_layout hn)).content
  have hnone : (p.tree.kind n).comment?.toList.filter (fun c => !(p.tree.kind c).isComment) = [] := by
    refine List.filter_eq_nil_iff.2 fun c hc => ?_
    obtain ⟨shape, hshape, hadmits, -⟩ := hcomment.is_of_commented c hc
    obtain ⟨-, rfl⟩ := shape_of_node? hshape
    have hkind : (p.tree.kind c).isComment = true := by
      revert hadmits
      cases p.tree.kind c <;> first | exact fun _ => rfl | exact nofun
    simp [hkind]
  have hpieces : p.tree.pieces n = ((p.tree.kind n).placed.map Prod.snd).filter
      fun c => !(p.tree.kind c).isComment := by
    show ((p.tree.kind n).children).filter _ = _
    rw [Node.Kind.children_eq, List.filter_append, hnone, List.nil_append]
  rw [hpieces]
  exact List.filter_sublist

/-- The children of a node stand in a row, in some order. -/
theorem Formed.row {n : NodeId} (hn : n < p.tree.nodes.size) :
    ∃ row, row.Perm (p.tree.kind n).placed ∧
      p.layout.Row (p.tree.firstToken n) (p.tree.lastToken n + 1) row := by
  obtain ⟨mid, hcomment, hmakings⟩ := Lie.append_iff.1 (h.formed (node?_layout hn)).content
  obtain ⟨row, hperm, hrow⟩ := hmakings.row
  exact ⟨row, hperm, hrow.widen hcomment.le (Nat.le_refl _)⟩

/-- If nothing was reported the children of a node stand in the order of its fields. -/
theorem Formed.row_in_order (hclean : p.errors = []) {n : NodeId} (hn : n < p.tree.nodes.size)
    (hmixes : p.tree.MixesFirst n) :
    p.layout.Row (p.tree.firstToken n) (p.tree.lastToken n + 1) (p.tree.kind n).placed := by
  obtain ⟨mid, hcomment, hmakings⟩ := Lie.append_iff.1 (h.formed (node?_layout hn)).content
  refine Tables.Row.widen hcomment.le (Nat.le_refl _) (hmakings.row_of_scattered ?_)
  intro row orders hmem lo hi hlies
  have hlaid : ∀ {slots fields}, .scattered row orders ∉ laid slots fields := fun hmem =>
    Bool.false_ne_true (Node.Kind.isSingle_of_mem_laid hmem)
  unfold Tree.MixesFirst at hmixes
  cases hkind : p.tree.kind n with
  | unit directives declarations =>
    rw [hkind, Node.Kind.makings, List.mem_singleton] at hmem
    obtain ⟨rfl, rfl⟩ := Held.scattered.inj hmem
    obtain ⟨order, horder, hrow⟩ := hlies.2 hclean
    rwa [List.mem_singleton.1 horder] at hrow
  | declaration x =>
    rw [hkind] at hmem
    cases x with
    | classDecl comment? abstract? keyword name typeParameters? extends? with? implements? =>
      rw [hkind] at hmixes
      have hmem : row = headingRow extends? with? implements? ∧
          orders = headingOrders extends? with? implements? := by
        simpa [Node.Kind.makings, hlaid] using hmem
      obtain ⟨rfl, rfl⟩ := hmem
      refine hlies.heading hclean fun w hw i hi s s' hs hs' => ?_
      obtain ⟨-, rfl⟩ := shape_of_node? hs
      obtain ⟨-, rfl⟩ := shape_of_node? hs'
      exact hmixes w hw i hi
    | _ => exact absurd hmem hlaid
  | _ =>
    rw [hkind] at hmem
    exact absurd hmem hlaid

/-- Tokens stand in the order of their indices. -/
theorem Formed.token_mono {i j : Nat} (hij : i ≤ j) (hj : j < p.tree.tokens.size) :
    (p.tree.token i).offset ≤ (p.tree.token j).offset ∧
      (p.tree.token i).finish ≤ (p.tree.token j).finish := by
  rcases Nat.lt_or_eq_of_le hij with hlt | rfl
  · have hle : (p.tree.token i).finish ≤ (p.tree.token j).offset := by
      have hi := Nat.lt_trans hlt hj
      simpa [Tree.token, hi, hj] using List.pairwise_iff_getElem.1 h.ordered i j hi hj hlt
    have hspan : (p.tree.token i).offset ≤ (p.tree.token i).finish := Nat.le_add_right _ _
    have hspan' : (p.tree.token j).offset ≤ (p.tree.token j).finish := Nat.le_add_right _ _
    omega
  · exact ⟨Nat.le_refl _, Nat.le_refl _⟩

/-- No token ends behind the end of file. -/
theorem Formed.finish_le {i : Nat} (hi : i < p.tree.tokens.size) :
    (p.tree.token i).finish ≤ text.utf8ByteSize := by
  have hlast : p.tree.token (p.tree.tokens.size - 1) = ⟨.eof, "", text.utf8ByteSize⟩ := by
    have heof := h.eof
    rw [List.getLast?_eq_getElem?, Array.length_toList, Array.getElem?_toList] at heof
    simp [Tree.token, heof]
  have hmono := (h.token_mono (Nat.le_sub_one_of_lt hi) (by omega)).2
  rw [hlast] at hmono
  exact hmono

/-- A child that is not a comment stands among the tokens of its node. -/
theorem Formed.bounds {n c : NodeId} (hc : c ∈ p.tree.pieces n) :
    n < p.tree.nodes.size ∧ c < p.tree.nodes.size ∧ p.tree.firstToken n ≤ p.tree.firstToken c ∧
      p.tree.firstToken c ≤ p.tree.lastToken c ∧ p.tree.lastToken c ≤ p.tree.lastToken n := by
  have hn : n < p.tree.nodes.size := by
    by_contra hn
    have hnone := Arena.children_of_size_le (Nat.le_of_not_lt hn)
    simp [Tree.pieces, Tree.children, hnone] at hc
  obtain ⟨row, hperm, hrow⟩ := h.row hn
  obtain ⟨⟨cat, d⟩, hd, rfl⟩ := List.mem_map.1 ((h.pieces_sublist hn).subset hc)
  obtain ⟨-, shape, hshape, hlo, hspan, hhi⟩ := hrow.bounds _ (hperm.mem_iff.2 hd)
  obtain ⟨hd, rfl⟩ := shape_of_node? hshape
  exact ⟨hn, hd, hlo, hspan, Nat.le_of_lt_succ hhi⟩

/-- Two children that are no comments have no token in common. -/
theorem Formed.apart {n c d : NodeId} (hc : c ∈ p.tree.pieces n) (hd : d ∈ p.tree.pieces n)
    (hne : c ≠ d) : p.tree.Apart c d := by
  obtain ⟨hn, -⟩ := h.bounds hc
  obtain ⟨row, hperm, hrow⟩ := h.row hn
  obtain ⟨⟨cat, c⟩, hmem, rfl⟩ := List.mem_map.1 ((h.pieces_sublist hn).subset hc)
  obtain ⟨⟨cat', d⟩, hmem', rfl⟩ := List.mem_map.1 ((h.pieces_sublist hn).subset hd)
  have hapart : row.Pairwise fun x y => p.tree.Apart x.2 y.2 :=
    (node_apart hrow).imp fun hxy => .inl hxy.2
  have hsymm := p.tree.apart_symm
  exact hapart.forall (hperm.mem_iff.2 hmem) (hperm.mem_iff.2 hmem') fun heq =>
    hne (congrArg Prod.snd heq)

end Formed

/-- Whatever a text is read as, a child that is not a comment spans tokens and characters among those
    of its parent, and two such children have no token in common. If the parse reported nothing they
    stand in the order of the fields, unless the parent is a class with an implements clause before its
    with clause. -/
theorem ofText_spans (e : Grammar.Entry) (source? : Option Source) (text : String) :
    ∃ parsed, ofScan? e (Scan.ofText source? text) = some parsed ∧
      (ofText e source? text).tree = parsed.tree ∧
      ∀ p,
        (∀ c ∈ parsed.tree.pieces p,
          parsed.tree.firstToken p ≤ parsed.tree.firstToken c ∧
          parsed.tree.firstToken c ≤ parsed.tree.lastToken c ∧
          parsed.tree.lastToken c ≤ parsed.tree.lastToken p ∧
          parsed.tree.offset p ≤ parsed.tree.offset c ∧
          parsed.tree.offset c ≤ parsed.tree.finish c ∧
          parsed.tree.finish c ≤ parsed.tree.finish p ∧
          parsed.tree.finish p ≤ text.utf8ByteSize) ∧
        (∀ c ∈ parsed.tree.pieces p, ∀ d ∈ parsed.tree.pieces p, c ≠ d → parsed.tree.Apart c d) ∧
        (parsed.errors = [] → parsed.tree.MixesFirst p →
          (parsed.tree.pieces p).Pairwise
            fun c d => parsed.tree.firstToken c < parsed.tree.firstToken d) := by
  obtain ⟨parsed, hparsed, htree, h⟩ := ofText_formed e source? text
  refine ⟨parsed, hparsed, htree, fun p => ⟨fun c hc => ?_, fun c hc d hd hne => ?_, fun hclean hmixes => ?_⟩⟩
  · obtain ⟨hp, hlt, hlo, hspan, hhi⟩ := h.bounds hc
    have hinside := h.inside p hp
    have hlast := Nat.lt_of_le_of_lt hhi hinside
    have hbefore := (h.token_mono hlo (Nat.lt_of_le_of_lt hspan hlast)).1
    have hafter := (h.token_mono hhi hinside).2
    have hown := (h.token_mono hspan hlast).1
    have hbound := h.finish_le hinside
    have htoken : (parsed.tree.token (parsed.tree.lastToken c)).offset ≤
        (parsed.tree.token (parsed.tree.lastToken c)).finish := Nat.le_add_right _ _
    obtain ⟨hpkind, hckind⟩ := Tree.isComment_of_mem_pieces hc
    rw [Tree.finish_eq hpkind, Tree.finish_eq hckind, Tree.offset_eq hpkind, Tree.offset_eq hckind]
    exact ⟨hlo, hspan, hhi, by omega⟩
  · exact h.apart hc hd hne
  · by_cases hp : p < parsed.tree.nodes.size
    · have hrow := h.row_in_order hclean hp hmixes
      have hplaced : ((parsed.tree.kind p).placed.map Prod.snd).Pairwise fun c d =>
          parsed.tree.firstToken c < parsed.tree.firstToken d :=
        List.pairwise_map.2 ((node_apart hrow).imp fun hxy => Nat.lt_of_le_of_lt hxy.1 hxy.2)
      exact hplaced.sublist (h.pieces_sublist hp)
    · have hnone := Arena.children_of_size_le (Nat.le_of_not_lt hp)
      simp [Tree.pieces, Tree.children, hnone]

/-- The clauses of a class in the usual order. -/
theorem ofText_spans_mixed_first :
    ∃ parsed, ofScan? .unit (Scan.ofText none "class A with B implements C {}") = some parsed ∧
      parsed.errors = [] ∧ parsed.tree.MixesFirst 7 ∧
      (parsed.tree.pieces 7).Pairwise
        fun c d => parsed.tree.firstToken c < parsed.tree.firstToken d := by
  have hsample : (ofScan? .unit (Scan.ofText none "class A with B implements C {}")).map
      (fun p => (p.errors.length, p.tree.kind 7, p.tree.firstToken 3, p.tree.firstToken 6)) =
      some (0, .declaration (.classDecl none none 0 0 none none (some 3) (some 6) 6 [] 7), 2, 4) := by
    cbv
  obtain ⟨parsed, hparsed, -, h⟩ := ofText_spans .unit none "class A with B implements C {}"
  rw [hparsed] at hsample
  obtain ⟨herrors, hkind, hwith, himplements⟩ : parsed.errors.length = 0 ∧ _ ∧ _ ∧ _ := by
    simpa using hsample
  have hclean : parsed.errors = [] := List.length_eq_zero_iff.1 herrors
  have hmixes : parsed.tree.MixesFirst 7 := by
    simp [Tree.MixesFirst, hkind, hwith, himplements]
  exact ⟨parsed, hparsed, hclean, hmixes, (h 7).2.2 hclean hmixes⟩

/-- A class may mix in behind what it implements; nothing is reported then, but its children do not
    come in the order in which they stand. -/
theorem mixed_last :
    ∃ parsed, ofScan? .unit (Scan.ofText none "class A implements B with C {}") = some parsed ∧
      parsed.errors = [] ∧
      ¬ (parsed.tree.pieces 7).Pairwise
        fun c d => parsed.tree.firstToken c < parsed.tree.firstToken d := by
  have hsample : (ofScan? .unit (Scan.ofText none "class A implements B with C {}")).map
      (fun p => (p.errors.length, (p.tree.pieces 7).map p.tree.firstToken)) =
      some (0, [1, 4, 2]) := by
    cbv
  obtain ⟨parsed, hparsed, hfacts⟩ := Option.map_eq_some_iff.1 hsample
  obtain ⟨herrors, hfirst⟩ := Prod.mk.inj hfacts
  refine ⟨parsed, hparsed, List.length_eq_zero_iff.1 herrors, fun hsorted => ?_⟩
  have hsorted : ((parsed.tree.pieces 7).map parsed.tree.firstToken).Pairwise (· < ·) :=
    List.pairwise_map.2 hsorted
  rw [hfirst] at hsorted
  exact absurd hsorted (by decide)

end Parsed

end DartAnalysis
