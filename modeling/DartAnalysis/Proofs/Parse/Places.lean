/-
  Where identifiers and closures stand. They are the nodes that can declare something. No two of them
  begin at the same token: an identifier is a token of its own, and whatever a closure holds lies behind
  a parenthesis, a brace or an arrow. If nothing was reported no token is empty, so that no two of them
  begin at the same offset either (`Formed.eq_of_offset_eq`).
-/
import DartAnalysis.Proofs.Parse.Spans
import DartAnalysis.Proofs.Tree.Below

namespace DartAnalysis

namespace Node.Kind

/-- An identifier or a closure. -/
def mayDeclare : Node.Kind → Bool
  | .expression (.identifier _) | .expression (.closure ..) => true
  | _ => false

/-- Begins with a token of its own, whatever it holds; not all such kinds are listed. -/
def opens : Node.Kind → Bool
  | .parameterList .. | .statement (.block ..) | .functionBody (.expressionBody ..)
  | .functionBody (.emptyBody _) => true
  | _ => false

theorem isComment_of_mayDeclare {kind : Node.Kind} (h : kind.mayDeclare = true) :
    kind.isComment = false := by
  cases kind <;> first | rfl | cases h

theorem mayDeclare_of_opens {kind : Node.Kind} (h : kind.opens = true) : kind.mayDeclare = false := by
  cases kind <;> first | rfl | cases h

theorem makings_of_opens {kind : Node.Kind} (h : kind.opens = true) :
    ∃ q token rest, kind.makings = .token q token :: rest := by
  cases kind with
  | parameterList => exact ⟨_, _, _, rfl⟩
  | statement s =>
    cases s with
    | block => exact ⟨_, _, _, rfl⟩
    | _ => cases h
  | functionBody b =>
    cases b with
    | expressionBody => exact ⟨_, _, _, rfl⟩
    | emptyBody => exact ⟨_, _, _, rfl⟩
    | blockBody => cases h
  | _ => cases h

end Node.Kind

namespace Tree

variable (t : Tree)

/-- The kinds of the tokens and the nodes of a tree that nothing is wrong with. -/
def layout : Layout where
  token? id := t.tokens[id]?.map Token.kind
  node? id := t.nodes[id]?.map fun n => ⟨n.kind, n.first, n.last⟩
  clean := True

/-- Every field of every node holds what the grammar asks of it. -/
def Grammatical : Prop := ∀ n < t.nodes.size, (t.kind n).WellSorted t.layout

variable {t}

theorem admits_of_is {c : Category} {n : NodeId} (h : t.layout.Is c n) :
    n < t.nodes.size ∧ c.admits (t.kind n) = true := by
  obtain ⟨shape, hshape, hadmits, -⟩ := h
  obtain ⟨node, hnode, rfl⟩ := Option.map_eq_some_iff.1 hshape
  have hlt := (Array.getElem?_eq_some_iff.1 hnode).1
  rw [Arena.getElem?_eq_node hlt] at hnode
  obtain rfl := Option.some.inj hnode
  exact ⟨hlt, hadmits⟩

theorem lt_of_mem_below (howned : t.nodes.Owned) {p n : NodeId} (hp : p < t.nodes.size)
    (hn : n ∈ t.below p) : n < t.nodes.size := by
  obtain ⟨way, hway⟩ := exists_path_of_mem_below howned hn
  exact Nat.lt_of_le_of_lt (howned.path_le hway) hp

theorem children_of_isComment {n : NodeId} (h : (t.kind n).isComment = true) : t.children n = [] := by
  show (t.kind n).children = []
  revert h
  cases t.kind n <;> first | exact fun _ => rfl | exact nofun

/-- On the way down to a node that is no comment there is none. -/
theorem mem_pieces_of_below (howned : t.nodes.Owned) {p c n : NodeId} (hc : c ∈ t.children p)
    (hn : n ∈ t.below c) (hkind : (t.kind n).isComment = false) : c ∈ t.pieces p := by
  refine List.mem_filter.2 ⟨hc, ?_⟩
  cases hcomment : (t.kind c).isComment with
  | false => rfl
  | true =>
    rw [below_of_leaf howned (children_of_isComment hcomment)] at hn
    rw [List.mem_singleton.1 hn, hcomment] at hkind
    cases hkind

end Tree

namespace Parsed.Formed

variable {p : Parsed} {e : Grammar.Entry} {source? : Option Source} {text : String}
  (h : p.Formed e source? text)
include h

omit h in
theorem layout_eq (hclean : p.errors = []) : p.tree.layout = p.layout := by
  unfold Tree.layout Parsed.layout
  rw [eq_true hclean]

theorem grammatical (hclean : p.errors = []) : p.tree.Grammatical := by
  intro n hn
  rw [layout_eq hclean]
  exact Node.Kind.wellSorted (h.formed (node?_layout hn)).content

theorem root_lt : p.tree.root < p.tree.nodes.size := by
  obtain ⟨shape, hshape, -⟩ := h.root
  exact (shape_of_node? hshape).1

theorem lt_of_mem_below_root {n : NodeId} (hn : n ∈ p.tree.below p.tree.root) : n < p.tree.nodes.size :=
  Tree.lt_of_mem_below h.owned h.root_lt hn

/-! ## Tokens -/

/-- Whatever is below a node spans tokens among its own. -/
theorem spans_below {c n : NodeId} (hc : c < p.tree.nodes.size) (hn : n ∈ p.tree.below c)
    (hkind : (p.tree.kind n).isComment = false) :
    p.tree.firstToken c ≤ p.tree.firstToken n ∧ p.tree.firstToken n ≤ p.tree.lastToken n ∧
      p.tree.lastToken n ≤ p.tree.lastToken c := by
  induction c using Nat.strongRecOn with
  | ind c ih =>
    rcases Tree.below_cases h.owned hn with rfl | ⟨d, hd, hnd⟩
    · exact ⟨Nat.le_refl _, (h.formed (node?_layout hc)).span, Nat.le_refl _⟩
    · have hlt := h.owned.child_lt c d hd
      obtain ⟨-, hdlt, hlo, -, hhi⟩ := h.bounds (Tree.mem_pieces_of_below h.owned hd hnd hkind)
      obtain ⟨hlo', hspan, hhi'⟩ := ih d hlt hdlt hnd
      exact ⟨Nat.le_trans hlo hlo', hspan, Nat.le_trans hhi' hhi⟩

/-- A token of a node stands behind the parts before it and before those behind it. -/
theorem token_between {n : NodeId} (hn : n < p.tree.nodes.size) (before : List Held)
    (token : TokenId) (after : List Held) {q : Token.Kind → Bool}
    (hmakings : (p.tree.kind n).makings = before ++ .token q token :: after) :
    p.tree.firstToken n ≤ token ∧ token ≤ p.tree.lastToken n ∧
      (∀ x ∈ before.flatMap Held.located, p.tree.lastToken x.2 < token) ∧
      ∀ x ∈ after.flatMap Held.located, token < p.tree.firstToken x.2 := by
  obtain ⟨_, hcomment, hlie⟩ := Lie.append_iff.1 (h.formed (node?_layout hn)).content
  rw [hmakings] at hlie
  obtain ⟨_, hbefore, _, ⟨-, hlo, hhi⟩, hafter⟩ := Lie.append_iff.1 hlie
  refine ⟨Nat.le_trans hcomment.le (Nat.le_trans hbefore.le hlo),
    Nat.le_of_lt_succ (Nat.lt_of_lt_of_le hhi hafter.le), fun x hx => ?_, fun x hx => ?_⟩
  · obtain ⟨row, hperm, hrow⟩ := hbefore.row
    obtain ⟨-, shape, hshape, -, -, hlast⟩ := hrow.bounds x (hperm.mem_iff.2 hx)
    obtain ⟨-, rfl⟩ := shape_of_node? hshape
    exact Nat.lt_of_lt_of_le hlast hlo
  · obtain ⟨row, hperm, hrow⟩ := hafter.row
    obtain ⟨-, shape, hshape, hfirst, -⟩ := hrow.bounds x (hperm.mem_iff.2 hx)
    obtain ⟨-, rfl⟩ := shape_of_node? hshape
    exact Nat.lt_of_lt_of_le hhi hfirst

/-- What is below a node that begins with a token stands behind that token. -/
theorem token_lt_below {y n : NodeId} (hy : y < p.tree.nodes.size) {q : Token.Kind → Bool}
    {token : TokenId} {rest : List Held} (hmakings : (p.tree.kind y).makings = .token q token :: rest)
    (hn : n ∈ p.tree.below y) (hne : n ≠ y) (hcomment : (p.tree.kind n).isComment = false) :
    p.tree.firstToken y ≤ token ∧ token < p.tree.firstToken n := by
  rcases Tree.below_cases h.owned hn with rfl | ⟨c, hc, hnc⟩
  · exact absurd rfl hne
  have hpiece := Tree.mem_pieces_of_below h.owned hc hnc hcomment
  obtain ⟨hle, -, -, hafter⟩ := h.token_between hy [] token rest hmakings
  obtain ⟨⟨cat, d⟩, hd, rfl⟩ := List.mem_map.1 ((h.pieces_sublist hy).subset hpiece)
  rw [Node.Kind.placed, hmakings] at hd
  exact ⟨hle, Nat.lt_of_lt_of_le (hafter _ hd) (h.spans_below (h.bounds hpiece).2.1 hnc hcomment).1⟩

/-- What is below a node that begins with a token of its own begins later. -/
theorem first_lt_of_opens {y n : NodeId} (hy : y < p.tree.nodes.size)
    (hopens : (p.tree.kind y).opens = true) (hn : n ∈ p.tree.below y)
    (hkind : (p.tree.kind n).mayDeclare = true) : p.tree.firstToken y < p.tree.firstToken n := by
  obtain ⟨q, token, rest, hmakings⟩ := Node.Kind.makings_of_opens hopens
  have hne : n ≠ y := by
    rintro rfl
    rw [Node.Kind.mayDeclare_of_opens hopens] at hkind
    cases hkind
  obtain ⟨hle, hlt⟩ := h.token_lt_below hy hmakings hn hne (Node.Kind.isComment_of_mayDeclare hkind)
  exact Nat.lt_of_le_of_lt hle hlt

/-- What the body of a function holds begins later. -/
theorem first_lt_of_body (hclean : p.errors = []) {y n : NodeId} (hy : p.tree.layout.Is .functionBody y)
    (hn : n ∈ p.tree.below y) (hkind : (p.tree.kind n).mayDeclare = true) :
    p.tree.firstToken y < p.tree.firstToken n := by
  obtain ⟨hylt, hadmits⟩ := Tree.admits_of_is hy
  have hsorted := h.grammatical hclean y hylt
  cases hbody : p.tree.kind y with
  | functionBody b =>
    cases b with
    | blockBody block =>
      rw [hbody] at hsorted
      obtain ⟨hblock, -⟩ := List.forall₂_cons.1 hsorted
      obtain ⟨hlt, hblock⟩ := Tree.admits_of_is hblock
      have hchild : block ∈ p.tree.children y := by
        show block ∈ (p.tree.kind y).children
        rw [hbody]
        exact List.mem_singleton_self block
      have hopens : (p.tree.kind block).opens = true := by
        revert hblock
        cases p.tree.kind block with
        | statement s => cases s <;> first | exact fun _ => rfl | exact nofun
        | _ => exact nofun
      have hcomment : (p.tree.kind block).isComment = false := by
        revert hopens
        cases p.tree.kind block <;> first | exact fun _ => rfl | exact nofun
      have hle := (h.spans_below hylt (Tree.mem_below_child h.owned hchild
        (Tree.mem_below_self h.owned block)) hcomment).1
      have hbelow : n ∈ p.tree.below block := by
        rcases Tree.below_cases h.owned hn with rfl | ⟨c, hc, hnc⟩
        · rw [hbody] at hkind
          cases hkind
        · have hc : c ∈ (p.tree.kind y).children := hc
          rw [hbody] at hc
          rwa [List.mem_singleton.1 hc] at hnc
      exact Nat.lt_of_le_of_lt hle (h.first_lt_of_opens hlt hopens hbelow hkind)
    | _ => exact h.first_lt_of_opens hylt (by rw [hbody]; rfl) hn hkind
  | _ =>
    rw [hbody] at hadmits
    cases hadmits

/-- What a closure holds begins later. -/
theorem first_lt_of_closure (hclean : p.errors = []) {x n : NodeId} {parameters? : Option NodeId}
    {body : NodeId} (hx : x < p.tree.nodes.size)
    (hclosure : p.tree.kind x = .expression (.closure parameters? body)) (hn : n ∈ p.tree.below x)
    (hne : n ≠ x) (hkind : (p.tree.kind n).mayDeclare = true) :
    p.tree.firstToken x < p.tree.firstToken n := by
  have hsorted := h.grammatical hclean x hx
  rw [hclosure] at hsorted
  obtain ⟨hparameters, hrest⟩ := List.forall₂_cons.1 hsorted
  obtain ⟨hbody, -⟩ := List.forall₂_cons.1 hrest
  have hchildren : p.tree.children x = parameters?.toList ++ [body] := by
    show (p.tree.kind x).children = _
    rw [hclosure]
    simp [Node.Kind.children, Node.Kind.fields, Expression.fields, Field.children]
  obtain rfl | ⟨c, hc, hnc⟩ := Tree.below_cases h.owned hn
  · exact absurd rfl hne
  · have hle : p.tree.firstToken x ≤ p.tree.firstToken c :=
      (h.bounds (Tree.mem_pieces_of_below h.owned hc hnc
        (Node.Kind.isComment_of_mayDeclare hkind))).2.2.1
    refine Nat.lt_of_le_of_lt hle ?_
    rw [hchildren, List.mem_append, Option.mem_toList, List.mem_singleton] at hc
    rcases hc with hc | rfl
    · obtain ⟨hclt, hadmits⟩ := Tree.admits_of_is (hparameters c hc)
      have hopens : (p.tree.kind c).opens = true := by
        revert hadmits
        cases p.tree.kind c <;> first | exact fun _ => rfl | exact nofun
      exact h.first_lt_of_opens hclt hopens hnc hkind
    · exact h.first_lt_of_body hclean hbody hnc hkind

/-- Identifiers and closures begin at tokens of their own. -/
theorem firstToken_ne (hclean : p.errors = []) {x n m : NodeId} (hx : x < p.tree.nodes.size)
    (hn : n ∈ p.tree.below x) (hm : m ∈ p.tree.below x)
    (hkn : (p.tree.kind n).mayDeclare = true) (hkm : (p.tree.kind m).mayDeclare = true)
    (hne : n ≠ m) : p.tree.firstToken n ≠ p.tree.firstToken m := by
  induction x using Nat.strongRecOn with
  | ind x ih =>
    -- A node that can declare something begins before whatever is below it.
    have htop {k : NodeId} (hkx : (p.tree.kind x).mayDeclare = true) (hk : k ∈ p.tree.below x)
        (hkk : (p.tree.kind k).mayDeclare = true) (hkne : k ≠ x) :
        p.tree.firstToken x < p.tree.firstToken k := by
      cases hkind : p.tree.kind x with
      | expression expr =>
        cases expr with
        | identifier token =>
          have hleaf : p.tree.children x = [] := by
            show (p.tree.kind x).children = []
            rw [hkind]
            rfl
          rw [Tree.below_of_leaf h.owned hleaf] at hk
          exact absurd (List.mem_singleton.1 hk) hkne
        | closure parameters? body => exact h.first_lt_of_closure hclean hx hkind hk hkne hkk
        | _ =>
          rw [hkind] at hkx
          cases hkx
      | _ =>
        rw [hkind] at hkx
        cases hkx
    rcases Tree.below_cases h.owned hn with rfl | ⟨c, hc, hnc⟩
    · exact Nat.ne_of_lt (htop hkn hm hkm (Ne.symm hne))
    · rcases Tree.below_cases h.owned hm with rfl | ⟨d, hd, hmd⟩
      · exact Nat.ne_of_gt (htop hkm hn hkn hne)
      · have hclt := h.owned.child_lt x c hc
        by_cases hcd : c = d
        · subst hcd
          exact ih c hclt (Nat.lt_trans hclt hx) hnc hmd
        · have hcn := Node.Kind.isComment_of_mayDeclare hkn
          have hcm := Node.Kind.isComment_of_mayDeclare hkm
          have hpc := Tree.mem_pieces_of_below h.owned hc hnc hcn
          have hpd := Tree.mem_pieces_of_below h.owned hd hmd hcm
          have hn' := h.spans_below (Nat.lt_trans hclt hx) hnc hcn
          have hm' := h.spans_below (Nat.lt_trans (h.owned.child_lt x d hd) hx) hmd hcm
          rcases h.apart hpc hpd hcd with hapart | hapart
          · exact Nat.ne_of_lt (Nat.lt_of_le_of_lt (Nat.le_trans hn'.2.1 hn'.2.2)
              (Nat.lt_of_lt_of_le hapart hm'.1))
          · exact Nat.ne_of_gt (Nat.lt_of_le_of_lt (Nat.le_trans hm'.2.1 hm'.2.2)
              (Nat.lt_of_lt_of_le hapart hn'.1))

/-! ## Offsets -/

/-- A token that is not the end of file is one of the text. -/
theorem real_token (hclean : p.errors = []) {i : TokenId} (hi : i + 1 < p.tree.tokens.size) :
    (p.tree.token i).Real := by
  refine h.real hclean _ ?_
  have hlt : i < p.tree.tokens.toList.dropLast.length := by
    rw [List.length_dropLast, Array.length_toList]
    exact Nat.lt_sub_of_add_lt hi
  refine List.mem_iff_getElem.2 ⟨i, hlt, ?_⟩
  have hi' : i < p.tree.tokens.size := Nat.lt_of_succ_lt hi
  simp [Tree.token, hi']

theorem token_offset_lt (hclean : p.errors = []) {i j : TokenId} (hij : i < j)
    (hj : j < p.tree.tokens.size) : (p.tree.token i).offset < (p.tree.token j).offset := by
  have hpos : 0 < (p.tree.token i).length :=
    (h.real_token hclean (Nat.lt_of_le_of_lt hij hj)).length_pos
  have hi := Nat.lt_trans hij hj
  have hle : (p.tree.token i).finish ≤ (p.tree.token j).offset := by
    simpa [Tree.token, hi, hj] using List.pairwise_iff_getElem.1 h.ordered i j hi hj hij
  exact Nat.lt_of_lt_of_le (Nat.lt_add_of_pos_right hpos) hle

/-- If nothing was reported identifiers and closures begin at offsets of their own. -/
theorem eq_of_offset_eq (hclean : p.errors = []) {n m : NodeId}
    (hn : n ∈ p.tree.below p.tree.root) (hm : m ∈ p.tree.below p.tree.root)
    (hkn : (p.tree.kind n).mayDeclare = true) (hkm : (p.tree.kind m).mayDeclare = true)
    (heq : p.tree.offset n = p.tree.offset m) : n = m := by
  by_contra hne
  have hcn := Node.Kind.isComment_of_mayDeclare hkn
  have hcm := Node.Kind.isComment_of_mayDeclare hkm
  have hin {k : NodeId} (hk : k ∈ p.tree.below p.tree.root)
      (hkk : (p.tree.kind k).isComment = false) : p.tree.firstToken k < p.tree.tokens.size :=
    Nat.lt_of_le_of_lt (h.spans_below h.root_lt hk hkk).2.1 (h.inside k (h.lt_of_mem_below_root hk))
  rw [Tree.offset_eq hcn, Tree.offset_eq hcm] at heq
  rcases Nat.lt_or_gt_of_ne (h.firstToken_ne hclean h.root_lt hn hm hkn hkm hne) with hlt | hlt
  · exact Nat.ne_of_lt (h.token_offset_lt hclean hlt (hin hm hcm)) heq
  · exact Nat.ne_of_gt (h.token_offset_lt hclean hlt (hin hn hcn)) heq

end Parsed.Formed

end DartAnalysis
