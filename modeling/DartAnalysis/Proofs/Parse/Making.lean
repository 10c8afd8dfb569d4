/-
  The rules for making nodes and for loops. A node is finished from things in hand that stand after a
  mark (`finish_makes`); what was made may be looked at again as long as it is in hand. Loops over
  items and over tokens keep what they found in hand (`repeating_makes`, `collect_yields`).
-/
import DartAnalysis.Proofs.Parse.Logic

namespace DartAnalysis

namespace Grammar

/-! ## Making nodes -/

/-- A state with one more node. -/
structure MakesNode (s s' : State) (shape : Shape) : Prop where
  leads : Leads s s'
  read_eq : s'.read = s.read
  unread_eq : s'.unread = s.unread
  node : s'.layout.node? s.nodes.size = some shape

/-- The state with a node made of nodes of it. -/
def State.withNode (s : State) (kind : Node.Kind) (first last : Nat) : State :=
  { s with nodes := (s.nodes.alloc kind first last).2 }

section WithNode

variable {s : State} {kind : Node.Kind} {first last : Nat} (hnodup : kind.children.Nodup)
  (hfree : ∀ c ∈ kind.children, c < s.nodes.size ∧ s.nodes.parent? c = none)
include hnodup hfree

theorem size_withNode : (s.withNode kind first last).nodes.size = s.nodes.size + 1 :=
  (Arena.alloc_spec hnodup hfree first last).1

theorem node_withNode (i : NodeId) : (s.withNode kind first last).nodes.node i =
    if i = s.nodes.size then { kind, parent? := none, first, last }
    else if i ∈ kind.children then { s.nodes.node i with parent? := some s.nodes.size }
    else s.nodes.node i :=
  (Arena.alloc_spec hnodup hfree first last).2 i

theorem node?_withNode_of_lt {n : NodeId} (hn : n < s.nodes.size) :
    (s.withNode kind first last).layout.node? n = s.layout.node? n := by
  have hlt : n < (s.withNode kind first last).nodes.size := by
    rw [size_withNode hnodup hfree]
    exact Nat.lt_succ_of_lt hn
  rw [State.node?_layout hn, State.node?_layout hlt, node_withNode hnodup hfree, if_neg (Nat.ne_of_lt hn)]
  split <;> rfl

theorem node?_withNode_new :
    (s.withNode kind first last).layout.node? s.nodes.size = some ⟨kind, first, last⟩ := by
  have hlt : s.nodes.size < (s.withNode kind first last).nodes.size := by
    rw [size_withNode hnodup hfree]
    exact Nat.lt_succ_self _
  rw [State.node?_layout hlt, node_withNode hnodup hfree, if_pos rfl]

theorem extends_withNode : s.layout.Extends (s.withNode kind first last).layout := by
  refine State.extends_of_tables ⟨⟨id, fun {n shape} hn => ?_⟩, id⟩ Array.append_empty.symm rfl
  exact (node?_withNode_of_lt hnodup hfree (State.lt_of_node?_layout hn)).trans hn

theorem makesNode_withNode : MakesNode s (s.withNode kind first last) ⟨kind, first, last⟩ where
  leads := .of_left_eq ⟨rfl, rfl, rfl, .refl, extends_withNode hnodup hfree, List.prefix_refl _,
    fun _ => s.token_front⟩ rfl
  read_eq := rfl
  unread_eq := rfl
  node := node?_withNode_new hnodup hfree

/-- What is formed is so with the new node, which is formed as well. -/
theorem formed_withNode (hformed : (Shape.mk kind first last).Formed s.layout)
    (hold : ∀ {n shape}, s.layout.node? n = some shape → shape.Formed s.layout) {n : NodeId}
    {shape : Shape} (hn : (s.withNode kind first last).layout.node? n = some shape) :
    shape.Formed (s.withNode kind first last).layout := by
  have hextends := @extends_withNode _ _ first last hnodup hfree
  have hlt : n < s.nodes.size + 1 :=
    Nat.lt_of_lt_of_eq (State.lt_of_node?_layout hn) (size_withNode hnodup hfree)
  rcases Nat.lt_succ_iff_lt_or_eq.1 hlt with hlt | rfl
  · rw [node?_withNode_of_lt hnodup hfree hlt] at hn
    exact (hold hn).mono hextends
  · rw [node?_withNode_new hnodup hfree] at hn
    obtain rfl := Option.some.inj hn
    exact hformed.mono hextends

/-- A node is free if it was free before and is no child of the new one, and the new one is. -/
theorem free_withNode {n : NodeId} (hn : n ∉ kind.children)
    (hold : (n < s.nodes.size ∧ s.nodes.parent? n = none) ∨ n = s.nodes.size) :
    n < (s.withNode kind first last).nodes.size ∧
      (s.withNode kind first last).nodes.parent? n = none := by
  rw [size_withNode hnodup hfree]
  show _ ∧ (s.nodes.alloc kind first last).2.parent? n = none
  rw [Arena.parent?_alloc hnodup hfree, if_neg hn]
  rcases hold with ⟨hlt, hnone⟩ | rfl
  · exact ⟨Nat.lt_succ_of_lt hlt, hnone⟩
  · exact ⟨Nat.lt_succ_self _, Arena.parent?_of_size_le (Nat.le_refl _)⟩

end WithNode

/-- A node that is made of nodes in hand is in hand instead of them, as `x`, if it is formed. -/
theorem alloc_spec {s : State} {F held : List Held} {kind : Node.Kind} {first last : Nat}
    (h : Good s (F ++ held)) (hchildren : kind.children.Subperm (nodesOf held)) :
    ∃ s', alloc kind first last s = some (s.nodes.size, s') ∧
      MakesNode s s' ⟨kind, first, last⟩ ∧ (last ≤ s.read.size →
        (Shape.mk kind first last).Formed s.layout → (∀ run, kind = .comment run → s.Run run) →
        ∀ x : Held, x.nodes = [s.nodes.size] → Lie s'.layout 0 s'.read.size (F ++ [x]) →
          Good s' (F ++ [x])) := by
  have hnodup := h.nodup
  rw [nodesOf_append, List.nodup_append'] at hnodup
  obtain ⟨hF, hheld, hdisjoint⟩ := hnodup
  obtain ⟨ids, hperm, hsub⟩ := hchildren
  have hnodup : kind.children.Nodup := hperm.nodup_iff.1 (hheld.sublist hsub)
  have hmem : ∀ c ∈ kind.children, c ∈ nodesOf held := fun c hc => hsub.subset (hperm.symm.subset hc)
  have hfree : ∀ c ∈ kind.children, c < s.nodes.size ∧ s.nodes.parent? c = none := fun c hc =>
    h.free c (by rw [nodesOf_append]; exact List.mem_append_right _ (hmem c hc))
  have hguard : (kind.children.all (· < s.nodes.size)) = true :=
    List.all_eq_true.2 fun c hc => decide_eq_true (hfree c hc).1
  refine ⟨s.withNode kind first last, ?_, makesNode_withNode hnodup hfree,
    fun hlast hformed hrun x hx hlie => ?_⟩
  · unfold alloc
    rw [bind_eq_of_eq_some (show (get : Parse State) s = some (s, s) from rfl), guard, if_pos hguard]
    rfl
  have hnodes : nodesOf (F ++ [x]) = nodesOf F ++ [s.nodes.size] := by
    rw [nodesOf_append, nodesOf_cons, hx, nodesOf_nil]
    rfl
  refine ⟨⟨h.table.real, h.table.read_kind, h.table.eof_kind, h.table.ordered,
      h.table.comments_ordered, h.table.read_real, h.table.reports⟩,
    h.owned.alloc hnodup hfree first last, fun i => ?_, formed_withNode hnodup hfree hformed h.formed,
    fun n run hkind => ?_, h.unwinding, ?_, fun n hn => ?_, hlie⟩
  · rw [node_withNode hnodup hfree]
    split
    · exact ⟨Nat.le_trans hformed.span hlast, hlast⟩
    · split <;> exact h.spans i
  · have hkind : ((s.withNode kind first last).nodes.node n).kind = .comment run := hkind
    rw [node_withNode hnodup hfree] at hkind
    split at hkind
    · exact hrun run hkind
    · refine h.runs n run ?_
      split at hkind <;> exact hkind
  · rw [hnodes, List.nodup_append']
    refine ⟨hF, by simp, fun i hi hi' => ?_⟩
    have hlt := (h.free i (by rw [nodesOf_append]; exact List.mem_append_left _ hi)).1
    exact absurd hlt (Nat.not_lt.2 (Nat.le_of_eq (List.mem_singleton.1 hi').symm))
  · rw [hnodes] at hn
    rcases List.mem_append.1 hn with hn | hn
    · refine free_withNode hnodup hfree (fun hc => hdisjoint hn (hmem n hc)) (.inl ?_)
      exact h.free n (by rw [nodesOf_append]; exact List.mem_append_left _ hn)
    · obtain rfl := List.mem_singleton.1 hn
      exact free_withNode hnodup hfree (fun hc => Nat.lt_irrefl _ (hfree _ hc).1) (.inr rfl)

section Making

variable {β : Type} {ceil : Nat} {sees : List Token → Prop} {held : List Held}
  {out : β → List Held} {ends : β → Nat → Prop}

/-- A node around what it is made of. -/
theorem alloc_around {s : State} {F : List Held} {kind : Node.Kind} {first last : Nat}
    (h : Good s (F ++ held)) (hchildren : kind.children.Subperm (nodesOf held))
    (hbounds : ∀ lo, Lie s.layout lo s.read.size held →
      lo ≤ first ∧ first ≤ last ∧ last < s.read.size ∧ Lie s.layout first (last + 1) kind.content)
    (hnamed : ∀ t, kind = .expression (.identifier t) → first = t ∧ last = t)
    (hfacts : ∀ f ∈ kind.facts first, f.Holds s.layout) (hcomment : kind.isComment = false)
    {c : Category} (his : ∀ T : Tables, s.layout.toTables.Extends T →
      T.node? s.nodes.size = some ⟨kind, first, last⟩ → T.Is c s.nodes.size) :
    ∃ s', alloc kind first last s = some (s.nodes.size, s') ∧
      MakesNode s s' ⟨kind, first, last⟩ ∧ Good s' (F ++ [.node c s.nodes.size]) := by
  obtain ⟨lo, hF, hheld⟩ := Lie.append_iff.1 h.lie
  obtain ⟨hlo, hspan, hlast, hcontent⟩ := hbounds lo hheld
  obtain ⟨s', halloc, hmade, hgood⟩ := @alloc_spec _ _ _ _ first last h hchildren
  refine ⟨s', halloc, hmade, hgood (Nat.le_of_lt hlast) ⟨hspan, hcontent, hnamed, hfacts⟩
    (fun run hrun => by rw [hrun] at hcomment; cases hcomment) _ rfl
    (Lie.append_iff.2 ⟨lo, hF.mono hmade.leads.grows, ?_⟩)⟩
  rw [hmade.read_eq]
  exact Lie.singleton_iff.2
    ⟨his _ hmade.leads.grows.toExtends hmade.node, _, hmade.node, hlo, hspan, hlast⟩

theorem isComment_of_isSolid {kind : Node.Kind} (hsolid : kind.makings.any Held.isSolid = true) :
    kind.isComment = false := by
  cases kind with
  | comment run => cases hsolid
  | _ => rfl

/-- What finishing a node does, together with where it stands. -/
theorem finish_spec {kind : Node.Kind} {first : Nat} {c : Category} {s : State} {F : List Held}
    (htakes : c.takes kind = true) (hsolid : kind.makings.any Held.isSolid = true)
    (hgood : Good s (F ++ (knowing (kind.facts first) ++ (commented kind.comment?.toList ++
      .mark first :: kind.makings)))) :
    ∃ last s', finish kind first s = some (s.nodes.size, s') ∧ MakesNode s s' ⟨kind, first, last⟩ ∧
      Good s' (F ++ [.node c s.nodes.size]) := by
  have hnodes : nodesOf (knowing (kind.facts first) ++ (commented kind.comment?.toList ++
      .mark first :: kind.makings)) = kind.children := by
    rw [← kind.nodesOf_content, Node.Kind.content, nodesOf_append, nodesOf_append, nodesOf_append,
      nodesOf_knowing]
    rfl
  have hbounds : ∀ lo, Lie s.layout lo s.read.size
      (knowing (kind.facts first) ++ (commented kind.comment?.toList ++ .mark first :: kind.makings)) →
      lo ≤ first ∧ first ≤ max (s.read.size - 1) first ∧
      max (s.read.size - 1) first < s.read.size ∧
      Lie s.layout first (max (s.read.size - 1) first + 1) kind.content := by
    intro lo hlie
    obtain ⟨start, hfacts, hlie⟩ := Lie.append_iff.1 hlie
    obtain ⟨mid, hcomment, mid', ⟨hmid, hmid'⟩, hmakings⟩ := Lie.append_iff.1 hlie
    have hmakings := hmakings.widen hmid' (Nat.le_refl _)
    have hlt := hmakings.lt hsolid
    have hlast : max (s.read.size - 1) first = s.read.size - 1 := by omega
    have hsize : s.read.size - 1 + 1 = s.read.size := by omega
    rw [hlast, hsize]
    refine ⟨Nat.le_trans hfacts.le (Nat.le_trans hcomment.le hmid), by omega, by omega,
      Lie.append_iff.2 ⟨first, ?_, hmakings⟩⟩
    exact hcomment.anywhere (all_isLoose_commented _) (Nat.le_refl _)
  have hfacts : ∀ f ∈ kind.facts first, f.Holds s.layout := fun f hf =>
    (hgood.lie.lies (List.mem_append_right F (List.mem_append_left _ (List.mem_map_of_mem hf)))).1
  obtain ⟨s', halloc, hmade, hgood'⟩ :=
    alloc_around (c := c) hgood (by rw [hnodes]) hbounds
      (fun t ht => absurd ht (Category.ne_identifier_of_takes htakes t)) hfacts
      (isComment_of_isSolid hsolid) fun T _ hnode => .of_takes hnode htakes
  exact ⟨_, s', halloc, hmade, hgood'⟩

/-- A node from a place up to the token read last, made of all that is in hand behind the place. -/
theorem finish_makes {kind : Node.Kind} {first : Nat} {c : Category}
    (hheld : held = knowing (kind.facts first) ++ (commented kind.comment?.toList ++
      .mark first :: kind.makings))
    (htakes : c.takes kind = true) (hsolid : kind.makings.any Held.isSolid = true) :
    Makes held (finish kind first) fun n => [.node c n] := by
  intro ceil F s hceil _ hgood
  subst hheld
  obtain ⟨last, s', hfinish, hmade, hgood'⟩ := finish_spec (c := c) htakes hsolid hgood
  exact ⟨_, s', hfinish, hgood', hmade.leads, trivial⟩

/-- What follows from where a node stands is known of it from then on. -/
theorem finish_learns {kind : Node.Kind} {first : Nat} {c : Category} {given : Fact}
    {made : NodeId → Fact} (hheld : held = .known given :: (knowing (kind.facts first) ++
      (commented kind.comment?.toList ++ .mark first :: kind.makings)))
    (htakes : c.takes kind = true) (hsolid : kind.makings.any Held.isSolid = true)
    (hlearns : ∀ (T : Ground) n last, T.node? n = some ⟨kind, first, last⟩ → given.Holds T →
      (made n).Holds T) :
    Makes held (finish kind first) fun n => [.known (made n), .node c n] := by
  intro ceil F s hceil _ hgood
  subst hheld
  have hgiven : given.Holds s.layout :=
    (hgood.lie.lies (List.mem_append_right F (List.mem_cons_self ..))).1
  obtain ⟨last, s', hfinish, hmade, hgood'⟩ := finish_spec (c := c) htakes hsolid
    (hgood.offer (.of_sublist (List.sublist_cons_self ..)))
  exact ⟨_, s', hfinish, hgood'.learn (hlearns _ _ last hmade.node (given.mono hmade.leads.grows hgiven)),
    hmade.leads, trivial⟩

/-- The place where a node begins may begin another one. -/
theorem finish_again {kind : Node.Kind} {first : Nat} {c : Category}
    (hheld : held = knowing (kind.facts first) ++ (commented kind.comment?.toList ++
      .mark first :: kind.makings))
    (hcomment : kind.comment? = none) (hfacts : kind.facts first = []) (htakes : c.takes kind = true)
    (hsolid : kind.makings.any Held.isSolid = true) :
    Makes held (finish kind first) fun n => [.mark first, .node c n] := by
  refine ((finish_makes hheld htakes hsolid).frame [.mark first]).offer ?_
  rw [hheld, hcomment, hfacts]
  exact .append_right (.mark_again first) _

/-- The node that ends a production. -/
theorem Yields.finish {kind : Node.Kind} {first : Nat} {c : Category}
    (hheld : held = knowing (kind.facts first) ++ (commented kind.comment?.toList ++
      .mark first :: kind.makings))
    (htakes : c.takes kind = true) (hsolid : kind.makings.any Held.isSolid = true) :
    Yields ceil sees held (finish kind first) (fun n => [.node c n]) always :=
  (finish_makes hheld htakes hsolid).close

/-- The node that ends a production which might have made none. -/
theorem Yields.finish_some {kind : Node.Kind} {first : Nat} {c : Category}
    {ends : Option NodeId → Nat → Prop}
    (hheld : held = knowing (kind.facts first) ++ (commented kind.comment?.toList ++
      .mark first :: kind.makings))
    (htakes : c.takes kind = true) (hsolid : kind.makings.any Held.isSolid = true)
    (hends : ∀ n left, left ≤ ceil → ends (some n) left) :
    Yields ceil sees held (do return some (← Grammar.finish kind first))
      (fun n? => tagged c n?.toList) ends :=
  (finish_makes hheld htakes hsolid).pass fun n => .pure (.refl _) fun left hleft => hends n left hleft

/-! ### Nodes on one token -/

/-- A node on a token that is in hand by itself. -/
theorem alloc_on_token {p : Token.Kind → Bool} {token : Nat} {kind : Node.Kind} {c : Category}
    (hchildren : kind.children = []) (hcontent : kind.content = [.token p token])
    (hfacts : kind.facts token = []) (htakes : c.takes kind = true) :
    Makes [.token p token] (alloc kind token token) fun n => [.node c n] := by
  intro ceil F s hceil _ hgood
  have hbounds : ∀ lo, Lie s.layout lo s.read.size [.token p token] →
      lo ≤ token ∧ token ≤ token ∧ token < s.read.size ∧
      Lie s.layout token (token + 1) kind.content := by
    intro lo hlie
    obtain ⟨hhas, hlo, hlt⟩ := Lie.singleton_iff.1 hlie
    rw [hcontent]
    exact ⟨hlo, Nat.le_refl _, hlt, Lie.singleton_iff.2 ⟨hhas, Nat.le_refl _, Nat.lt_succ_self _⟩⟩
  have hcomment : kind.isComment = false := by
    cases kind with
    | comment run => cases hcontent
    | _ => rfl
  obtain ⟨s', halloc, hmade, hgood'⟩ :=
    alloc_around (c := c) hgood (by rw [hchildren]; exact List.nil_subperm) hbounds
      (fun t ht => absurd ht (Category.ne_identifier_of_takes htakes t))
      (fun f hf => absurd (hfacts ▸ hf) List.not_mem_nil) hcomment
      fun T _ hnode => .of_takes hnode htakes
  exact ⟨_, s', halloc, hgood', hmade.leads, trivial⟩

theorem isIdentifierWord_of_spells {c : Category} {k : Token.Kind} (h : c.spells k = true) :
    k.isIdentifierWord = true := by
  unfold Token.Kind.isIdentifierWord
  cases c <;> simp_all [Category.spells, Token.Kind.isTypeWord]

/-- What an identifier on a token does, together with where it stands. -/
theorem identifierOn_spec {c : Category} (hadmits : ∀ t, c.admits (.expression (.identifier t)) = true)
    {s : State} {F : List Held} {token : Nat} (h : Good s (F ++ [.token c.spells token])) :
    ∃ s', identifierOn token s = some (s.nodes.size, s') ∧
      MakesNode s s' ⟨.expression (.identifier token), token, token⟩ ∧
      Good s' (F ++ [.node c s.nodes.size]) := by
  have hchildren : (Node.Kind.expression (.identifier token)).children.Subperm
      (nodesOf [.token c.spells token]) := .refl []
  refine alloc_around h hchildren (fun lo hlie => ?_) (fun t ht => ?_)
    (fun _ hf => absurd hf List.not_mem_nil) rfl fun T hextends hnode => ?_
  · obtain ⟨hhas, hlo, hlt⟩ := Lie.singleton_iff.1 hlie
    refine ⟨hlo, Nat.le_refl _, hlt, Lie.singleton_iff.2 ⟨?_, Nat.le_refl _, Nat.lt_succ_self _⟩⟩
    exact hhas.weaken fun _ => isIdentifierWord_of_spells
  · obtain rfl : token = t := by simpa using ht
    exact ⟨rfl, rfl⟩
  · refine ⟨_, hnode, hadmits token, fun t ht => ?_⟩
    obtain rfl : token = t := by simpa using ht
    exact (h.lie.lies (List.mem_append_right _ (List.mem_singleton_self _))).1.mono hextends

/-- An identifier on a token is of any category that its token spells. -/
theorem identifierOn_makes (c : Category)
    (hadmits : ∀ t, c.admits (.expression (.identifier t)) = true) (token : Nat) :
    Makes [.token c.spells token] (identifierOn token) fun n => [.node c n] := by
  intro ceil F s hceil _ hgood
  obtain ⟨s', hidentifier, hmade, hgood'⟩ := identifierOn_spec hadmits hgood
  exact ⟨_, s', hidentifier, hgood', hmade.leads, trivial⟩

/-- An identifier behind something that is written. -/
theorem identifierOn_introduced (c : Category)
    (hadmits : ∀ t, c.admits (.expression (.identifier t)) = true) (place token : Nat) :
    Makes [.known (.preceded place token), .token c.spells token] (identifierOn token)
      fun n => [.known (.introduced place n), .node c n] := by
  intro ceil F s hceil _ hgood
  have hpreceded : (Fact.preceded place token).Holds s.layout :=
    (hgood.lie.lies (List.mem_append_right F (List.mem_cons_self ..))).1
  obtain ⟨s', hidentifier, hmade, hgood'⟩ := identifierOn_spec hadmits
    (hgood.offer (.of_sublist (List.sublist_cons_self ..)))
  exact ⟨_, s', hidentifier, hgood'.learn (.inl ⟨_, hmade.node, (Fact.preceded place token).mono
    hmade.leads.grows hpreceded⟩), hmade.leads, trivial⟩

/-- A type that is named by an identifier stands where the identifier does. -/
theorem typeOn_spec {s s' : State} {F : List Held} {token : Nat} (c : Category)
    (hc : c.Within .typeIdentifier)
    (hmade : MakesNode s s' ⟨.expression (.identifier token), token, token⟩)
    (h : Good s' (F ++ [.node c s.nodes.size])) :
    ∃ s'', alloc (.type s.nodes.size none) token token s' = some (s'.nodes.size, s'') ∧
      MakesNode s' s'' ⟨.type s.nodes.size none, token, token⟩ ∧
      Good s'' (F ++ [.node .type s'.nodes.size]) := by
  refine alloc_around h (List.Subperm.refl _) (fun lo hlie => ?_)
    (fun t ht => absurd ht (Category.ne_identifier_of_takes (c := .type) rfl t))
    (fun _ hf => absurd hf List.not_mem_nil) rfl fun T _ hnode => .of_takes hnode rfl
  obtain ⟨his, shape, hshape, hlo, hspan, hhi⟩ := Lie.singleton_iff.1 hlie
  obtain rfl := Option.some.inj (hmade.node.symm.trans hshape)
  refine ⟨hlo, hspan, hhi, Lie.singleton_iff.2 ⟨his.weaken hc, _, hshape, Nat.le_refl _, hspan, ?_⟩⟩
  exact Nat.le_refl _

/-! ### Nodes at the current token -/

/-- A node that ends with the current token, which is not read yet. -/
theorem alloc_loose {s : State} {F : List Held} {kind : Node.Kind} {first : Nat} (c : Category)
    (h : Good s (F ++ held)) (hrun : ∀ run, kind = .comment run → s.Run run)
    (hchildren : kind.children.Subperm (nodesOf held)) (hfirst : first ≤ s.read.size)
    (hcontent : Lie s.layout first (s.read.size + 1) kind.content) (hfacts : kind.facts first = [])
    (htakes : c.takes kind = true) : ∃ s', alloc kind first s.read.size s = some (s.nodes.size, s') ∧
      MakesNode s s' ⟨kind, first, s.read.size⟩ ∧ Good s' (F ++ [.loose c s.nodes.size]) := by
  obtain ⟨lo, hF, hheld⟩ := Lie.append_iff.1 h.lie
  have hformed : (Shape.mk kind first s.read.size).Formed s.layout :=
    ⟨hfirst, hcontent, fun t ht => absurd ht (Category.ne_identifier_of_takes htakes t),
      fun f hf => absurd (hfacts ▸ hf) List.not_mem_nil⟩
  obtain ⟨s', halloc, hmade, hgood⟩ := @alloc_spec _ _ _ _ first s.read.size h hchildren
  refine ⟨s', halloc, hmade, hgood (Nat.le_refl _) hformed hrun _ rfl (Lie.append_iff.2 ⟨s'.read.size, ?_, ?_⟩)⟩
  · rw [hmade.read_eq]
    exact (hF.mono hmade.leads.grows).widen (Nat.le_refl _) hheld.le
  · exact Lie.singleton_iff.2 ⟨.of_takes hmade.node htakes, Nat.le_refl _⟩

/-- The comments before a token are a stretch of all comments. -/
theorem docRun_le (cs : List Comment) : docRun cs ≤ cs.length := by
  unfold docRun
  split
  · exact Nat.le_refl _
  · rename_i c cs
    have hle := (List.takeWhile_sublist isLineDoc (l := cs)).length_le
    split
    · rw [List.length_cons]
      omega
    · split <;> simp

/-- Comments that come right before others are a run. -/
theorem State.run_range {s : State} {run stop : Nat} (hrun : run ≤ stop)
    (hstop : stop ≤ s.comments.size) : s.Run ((List.range run).map (stop - run + ·)) := by
  refine ⟨?_, fun c hc => ?_⟩
  · exact List.pairwise_map.2 (List.pairwise_lt_range.imp fun hlt => Nat.add_lt_add_left hlt _)
  · obtain ⟨i, hi, rfl⟩ := List.mem_map.1 hc
    have hi := List.mem_range.1 hi
    show stop - run + i < s.comments.size
    omega

theorem docComment_makes : Makes [] docComment fun n? => commented n?.toList := by
  intro ceil F s hceil _ hgood
  have hlower : (s.read.back?.map Token.finish).getD 0 ≤ s.current.offset := by
    cases hback : s.read.back? with
    | none => exact Nat.zero_le _
    | some t => exact hgood.table.finish_le_current hback
  have hguard := firstCommentFrom_mono hgood.table.comments_ordered hlower
  unfold docComment
  rw [bind_eq_of_eq_some (show (get : Parse State) s = some (s, s) from rfl)]
  dsimp only
  rw [guard, if_pos hguard, pure_bind]
  split
  · exact ⟨none, s, rfl, hgood, .refl s, trivial⟩
  · rw [bind_eq_of_eq_some (show here s = some (s.read.size, s) from rfl)]
    have hchildren : ∀ run, (Node.Kind.comment run).children.Subperm (nodesOf []) :=
      fun _ => .refl []
    have hrun (start : Nat) {stop : Nat} (hstop : stop ≤ s.comments.size) (run : List CommentId)
        (heq : Node.Kind.comment
          ((List.range (docRun (s.comments.extract start stop).toList.reverse)).map
            (stop - docRun (s.comments.extract start stop).toList.reverse + ·)) = .comment run) :
        s.Run run := by
      obtain rfl := Node.Kind.comment.inj heq
      refine State.run_range (Nat.le_trans (docRun_le _) ?_) hstop
      rw [List.length_reverse, Array.length_toList, Array.size_extract]
      omega
    obtain ⟨s', halloc, hmade, hgood'⟩ :=
      alloc_loose .comment hgood (hrun _ (firstCommentFrom_le (Nat.zero_le _))) (hchildren _)
        (Nat.le_refl _) (Nat.le_succ _) rfl rfl
    exact Leads.step halloc hmade.leads ⟨_, s', rfl, hgood', .refl s', trivial⟩

/-! ### Parts that may be left out -/

/-- A token that is read or left out. -/
theorem Yields.optionalToken {b : Prop} [Decidable b] {c : Parse TokenId}
    {p : Token.Kind → Bool} {f : Option TokenId → Parse β}
    (hc : b → Yields ceil sees [] c (fun id => [.token p id]) always)
    (hf : ∀ id?, Yields ceil unseen (held ++ marked p id?.toList) (f id?) out ends) :
    Yields ceil sees held (if b then some <$> c >>= f else Pure.pure none >>= f) out ends := by
  split
  · rename_i hb
    rw [map_eq_pure_bind, bind_assoc]
    refine (hc hb).bind fun id left hleft _ => ?_
    exact (hf (some id)).weaken hleft fun _ h => h
  · rw [pure_bind]
    simpa using (hf none).blind

/-- A part that is made or left out. -/
theorem Yields.optional {b : Prop} [Decidable b] {c : Parse NodeId} {d : Category}
    {f : Option NodeId → Parse β} (hc : Makes [] c fun n => [.node d n])
    (hf : ∀ n?, Yields ceil unseen (held ++ tagged d n?.toList) (f n?) out ends) :
    Yields ceil sees held (if b then some <$> c >>= f else Pure.pure none >>= f) out ends := by
  split
  · rw [map_eq_pure_bind, bind_assoc]
    exact hc.bind fun n => hf (some n)
  · rw [pure_bind]
    simpa using (hf none).blind

/-- A part that is left out or made. -/
theorem Yields.omitted {b : Prop} [Decidable b] {c : Parse NodeId} {d : Category}
    {f : Option NodeId → Parse β} (hc : Makes [] c fun n => [.node d n])
    (hf : ∀ n?, Yields ceil unseen (held ++ tagged d n?.toList) (f n?) out ends) :
    Yields ceil sees held (if b then Pure.pure none >>= f else some <$> c >>= f) out ends := by
  rw [← ite_not]
  exact .optional hc hf

/-! ## Looking at nodes and at tokens that were read -/

/-- The node at an index is looked up. -/
theorem nodeAt_eq {s : State} {n : NodeId} (h : n < s.nodes.size) :
    nodeAt n s = some (s.nodes.node n, s) := by
  unfold nodeAt
  rw [bind_eq_of_eq_some (show (get : Parse State) s = some (s, s) from rfl),
    Arena.getElem?_eq_node h]
  rfl

/-- The place of its first token stands before a node in hand. -/
theorem Yields.firstTokenOf {node : NodeId} {c : Category} {f : TokenId → Parse β}
    (hf : ∀ first : Nat, Yields ceil sees [.mark first, .node c node] (f first) out ends) :
    Yields ceil sees [.node c node] (firstTokenOf node >>= f) out ends := by
  intro F s hceil hsees hgood
  obtain ⟨lo, hF, hnode⟩ := Lie.append_iff.1 hgood.lie
  obtain ⟨his, shape, hshape, hlo, hspan, hhi⟩ := Lie.singleton_iff.1 hnode
  have hlt := State.lt_of_node?_layout hshape
  obtain rfl := Option.some.inj ((State.node?_layout hlt).symm.trans hshape)
  have hlook : Grammar.firstTokenOf node s = some ((s.nodes.node node).first, s) := by
    unfold Grammar.firstTokenOf
    rw [bind_eq_of_eq_some (nodeAt_eq hlt)]
    rfl
  rw [bind_eq_of_eq_some hlook]
  refine hf _ F s hceil hsees { hgood with
    nodup := by simpa [Held.nodes, Held.located] using hgood.nodup
    free := by simpa [Held.nodes, Held.located] using hgood.free
    lie := Lie.append_iff.2 ⟨lo, hF, _, ⟨hlo, Nat.le_refl _⟩, Lie.singleton_iff.2 ?_⟩ }
  exact ⟨his, _, hshape, Nat.le_refl _, hspan, hhi⟩

/-- A node in hand that turns out to be an identifier is a name. -/
theorem Yields.kindOf {node : NodeId} {c : Category} (before after : List Held)
    (hname : ∀ k, c.spells k = true → k.isName = true) {b₁ b₂ : Parse β}
    (hidentifier : Yields ceil sees (before ++ .node .name node :: after) b₁ out ends)
    (hother : Yields ceil sees (before ++ .node c node :: after) b₂ out ends) :
    Yields ceil sees (before ++ .node c node :: after)
      (kindOf node >>= fun kind => if isIdentifierKind kind then b₁ else b₂) out ends := by
  intro F s hceil hsees hgood
  obtain ⟨lo, hF, hheld⟩ := Lie.append_iff.1 hgood.lie
  obtain ⟨mid, hbefore, mid', ⟨his, hspot⟩, hafter⟩ := Lie.append_iff.1 hheld
  obtain ⟨shape, hshape, hadmits, hspells⟩ := his
  have hlt := State.lt_of_node?_layout hshape
  have hlook : Grammar.kindOf node s = some (shape.kind, s) := by
    unfold Grammar.kindOf
    rw [bind_eq_of_eq_some (nodeAt_eq hlt)]
    obtain rfl := Option.some.inj ((State.node?_layout hlt).symm.trans hshape)
    rfl
  rw [bind_eq_of_eq_some hlook]
  split
  · rename_i hkind
    have his : s.layout.Is .name node := by
      refine ⟨shape, hshape, ?_, fun t ht => (hspells t ht).weaken hname⟩
      unfold isIdentifierKind at hkind
      split at hkind
      · rename_i heq
        rw [heq]
        rfl
      · exact absurd hkind nofun
    refine hidentifier F s hceil hsees { hgood with
      nodup := by simpa [Held.nodes, Held.located] using hgood.nodup
      free := by simpa [Held.nodes, Held.located] using hgood.free
      lie := ?_ }
    exact Lie.append_iff.2 ⟨lo, hF, Lie.append_iff.2 ⟨mid, hbefore, mid', ⟨his, hspot⟩, hafter⟩⟩
  · exact hother F s hceil hsees hgood

/-- There is a token wherever one has been reached. -/
theorem token?_of_le {s : State} {id : Nat} (h : id ≤ s.read.size) :
    ∃ t, s.token? id = some t ∧ t ∈ s.read.toList ++ (s.unread ++ [s.eof]) := by
  unfold State.token?
  split
  · rename_i hlt
    exact ⟨_, Array.getElem?_eq_getElem hlt,
      List.mem_append_left _ (Array.getElem_mem_toList hlt)⟩
  · have hzero : id - s.read.size = 0 := by omega
    rw [hzero]
    cases s.unread with
    | nil => exact ⟨_, rfl, by simp⟩
    | cons t rest => exact ⟨_, rfl, by simp⟩

theorem tokenAt_eq {s : State} {id : Nat} {t : Token} (h : s.token? id = some t) :
    tokenAt id s = some (t, s) := by
  unfold tokenAt
  rw [bind_eq_of_eq_some (show (get : Parse State) s = some (s, s) from rfl), h]
  rfl

/-- Something is reported at a token that stands somewhere. -/
theorem Yields.reportAt {code : Diagnostic.Code} {id : Nat} {p : Token.Kind → Bool}
    (hmem : .noted p id ∈ held) {f : Unit → Parse β}
    (hf : Yields ceil sees (held ++ [.reported]) (f ()) out ends) :
    Yields ceil sees held (reportAt code id >>= f) out ends := by
  intro F s hceil hsees hgood
  have hlt := State.lt_of_has (hgood.lie.lies (List.mem_append_right F hmem)).1
  obtain ⟨t, ht, htable⟩ := token?_of_le (Nat.le_of_lt hlt)
  have hreport : (Grammar.reportAt code id >>= f) s =
      (Grammar.reportSpan code t.offset t.length [] >>= f) s := by
    unfold Grammar.reportAt
    rw [bind_assoc, bind_eq_of_eq_some (tokenAt_eq ht)]
  rw [hreport]
  exact Yields.reported (reportSpan_spec code [] fun h => h.finish_le htable) hf hceil hsees hgood

/-- A node in hand has a region, at which something may be reported. -/
theorem Yields.reportRegion {code : Diagnostic.Code} {node : NodeId} {c : Category}
    (hmem : .node c node ∈ held) {f : Unit → Parse β}
    (hf : Yields ceil sees (held ++ [.reported]) (f ()) out ends) :
    Yields ceil sees held
      (regionOf node >>= fun region => reportSpan code region.1 region.2 [] >>= f) out ends := by
  intro F s hceil hsees hgood
  obtain ⟨-, shape, hshape, -⟩ := hgood.lie.lies (List.mem_append_right F hmem)
  obtain ⟨hfirst, hlast⟩ := hgood.spans node
  obtain ⟨first, hfirst, hfirstTable⟩ := token?_of_le hfirst
  obtain ⟨last, hlast, hlastTable⟩ := token?_of_le hlast
  have hregion : Grammar.regionOf node s =
      some ((first.offset, max last.finish first.offset - first.offset), s) := by
    unfold Grammar.regionOf
    rw [bind_eq_of_eq_some (nodeAt_eq (State.lt_of_node?_layout hshape)),
      bind_eq_of_eq_some (tokenAt_eq hfirst), bind_eq_of_eq_some (tokenAt_eq hlast)]
    rfl
  rw [bind_eq_of_eq_some hregion]
  refine Yields.reported (reportSpan_spec code [] fun h => ?_) hf hceil hsees hgood
  have hle := h.finish_le hfirstTable
  have hle' := h.finish_le hlastTable
  have hspan : first.offset ≤ first.finish := Nat.le_add_right _ _
  omega

/-- Something that is reported at a token in hand under a condition. -/
theorem Yields.reportAtToken {code : Diagnostic.Code} {id : Nat} {p : Token.Kind → Bool} {b : Prop}
    [Decidable b] {f : Unit → Parse β} (hmem : .token p id ∈ held)
    (hf : Yields ceil sees held (f ()) out ends) :
    Yields ceil sees held (if b then Grammar.reportAt code id >>= f else f ()) out ends := by
  refine .branch ?_ hf
  refine .offer (.reportAt (p := p) (List.mem_cons_self ..) ?_) (.remember hmem)
  exact hf.offer (.of_sublist (by simp))

end Making

/-! ## Loops -/

section Loops

variable {α : Type} {c : Category}

/-- A loop ends if every round that asks for another one leaves fewer tokens. What holds of the value
    before every round holds at the end. -/
theorem repeating_yields {step : α → Parse (α × Bool)} {inv : α → List Held} {valid : α → Prop}
    (hstep : ∀ a, valid a → ∀ ceil, Yields ceil unseen (inv a) (step a) (fun r => inv r.1)
      fun r left => valid r.1 ∧ (r.2 = true → left < ceil)) (a : α) (ha : valid a) (ceil : Nat) :
    Yields ceil unseen (inv a) (repeating step a) inv fun b _ => valid b := by
  intro F s hceil _ hgood
  -- By induction on the number of tokens left before a round.
  induction hn : s.left using Nat.strongRecOn generalizing s a with
  | ind n ih =>
    obtain ⟨⟨next, goesOn⟩, s', hround, hgood', hleads, hvalid, hends⟩ :=
      hstep a ha s.left F s (Nat.le_refl _) trivial hgood
    rw [repeating_eq]
    refine @Leads.step _ _ inv (fun b _ => valid b) _ _ _ _ _ _ hround hleads ?_
    cases goesOn with
    | true =>
      exact ih s'.left (hn ▸ hends rfl) next hvalid s' (Nat.le_trans hleads.left_le hceil) trivial
        hgood' rfl
    | false => exact ⟨next, s', rfl, hgood', .refl s', hvalid⟩

theorem repeating_makes {step : α → Parse (α × Bool)} {inv : α → List Held}
    (hstep : ∀ a, Advances (inv a) (step a) (fun r => inv r.1) (·.2 = true)) (a : α) :
    Makes (inv a) (repeating step a) inv := by
  intro ceil
  refine (@repeating_yields α step inv (fun _ => True) (fun a _ ceil => ?_) a trivial ceil).ending
    fun _ _ _ => trivial
  exact (hstep a ceil).ending fun _ _ hends => ⟨trivial, hends⟩

/-- Where a loop stops is known what its last round saw. -/
theorem repeating_shows {step : α → Parse (α × Bool)} {inv : α → List Held}
    {shown : List Token → Prop}
    (hstep : ∀ a, Advances (inv a) (step a) (fun r => inv r.1) (·.2 = true))
    (hstops : ∀ a s r s', s.Table → step a s = some (r, s') → r.2 = false → shown s'.unread)
    (a : α) : Shows (inv a) (repeating step a) inv shown := by
  intro F s hgood
  -- By induction on the number of tokens left before a round.
  induction hn : s.left using Nat.strongRecOn generalizing s a with
  | ind n ih =>
    obtain ⟨⟨next, goesOn⟩, s', hround, hgood', hleads, hends⟩ :=
      hstep a s.left F s (Nat.le_refl _) trivial hgood
    rw [repeating_eq, bind_eq_of_eq_some hround]
    cases goesOn with
    | true =>
      obtain ⟨b, s'', hrest, hgood'', hleads', hshown⟩ := ih s'.left (hn ▸ hends rfl) next s' hgood' rfl
      exact ⟨b, s'', hrest, hgood'', hleads.trans hleads', hshown⟩
    | false => exact ⟨next, s', rfl, hgood', hleads, hstops a s _ s' hgood.table hround rfl⟩

/-- Where a round has read nothing, something is skipped. -/
theorem Yields.pressOn {β γ : Type} {before after : Nat} {sees : List Token → Prop}
    {held : List Held} {out : β → List Held} {ends : β → Nat → Prop} {report : Parse Unit}
    {skip : Parse γ} {f : Parse β} (hreport : Quiet report) (hbefore : 0 < before)
    (hafter : after ≤ before)
    (hskip : (∀ n, n < before → Yields n unseen held f out ends) →
      Yields before (· ≠ []) held (do let _ ← skip; f) out ends)
    (hf : ∀ n, n < before → Yields n unseen held f out ends) :
    Yields after (fun ts => sees ts ∧ ts.length = after) held
      (if after = before then do report; let _ ← skip; f else f) out ends := by
  split
  · refine hreport.bind fun _ => ?_
    refine (hskip hf).weaken hafter fun ts hts => ?_
    rintro rfl
    have hlength := hts.2
    simp only [List.length_nil] at hlength
    omega
  · exact (hf after (by omega)).blind

/-- One more node behind those found, whatever separates it from the next. -/
theorem tagged_snoc (c : Category) (node : NodeId) (found : List NodeId) (rest : List Held) :
    Offers (tagged c found.reverse ++ .node c node :: rest) (tagged c (node :: found).reverse) := by
  refine .of_sublist ?_
  rw [List.reverse_cons, tagged_append]
  exact ((List.nil_sublist rest).cons_cons _).append_left _

/-- A round of collecting keeps what was found. -/
theorem collect_yields {item : Parse (Option NodeId)}
    (hitem : Advances [] item (fun n? => tagged c n?.toList) (·.isSome = true))
    (found : List NodeId) (ceil : Nat) :
    Yields ceil unseen (tagged c found.reverse) (collect item found) (fun r => tagged c r.1.reverse)
      fun r left => (found ≠ [] → r.1 ≠ []) ∧ (r.2 = true → left < ceil) := by
  refine (hitem ceil).bind fun node? left hleft hends => ?_
  cases node? with
  | some node =>
    exact .pure (tagged_snoc c node found []) fun n hn =>
      ⟨fun _ => List.cons_ne_nil _ _, fun _ => Nat.lt_of_le_of_lt hn (hends rfl)⟩
  | none => exact .pure (.of_sublist (List.sublist_append_left _ _)) fun n hn => ⟨id, nofun⟩

theorem many_makes {item : Parse (Option NodeId)}
    (hitem : Advances [] item (fun n? => tagged c n?.toList) (·.isSome = true)) :
    Makes [] (many item) fun ns => tagged c ns := by
  intro ceil
  unfold many
  have hround : ∀ found : List NodeId, Advances (tagged c found.reverse) (collect item found)
      (fun r => tagged c r.1.reverse) (·.2 = true) := fun found ceil =>
    (collect_yields hitem found ceil).ending fun _ _ hends => hends.2
  refine (@repeating_makes _ _ (fun found => tagged c found.reverse) hround []).pass fun found => ?_
  exact .pure (.refl _) fun _ _ => trivial

/-- A list of items with commas between them; there is one at least. -/
theorem commaSeparated_yields {item : Parse NodeId} (hitem : Makes [] item fun n => [.node c n])
    (ceil : Nat) :
    Yields ceil unseen [] (commaSeparated item) (fun ns => tagged c ns) fun ns _ => ns ≠ [] := by
  unfold commaSeparated
  refine hitem.bind fun first => ?_
  refine Makes.bind (@many_makes c _ fun ceil => ?_) fun more => ?_
  · refine .accept nofun (fun comma n hn => ?_) (.pure (.refl _) nofun)
    refine hitem.bind fun node => ?_
    exact .pure (.of_sublist (List.sublist_cons_self _ _)) fun left hleft _ =>
      Nat.lt_of_le_of_lt hleft hn
  · exact .pure (.refl _) fun _ _ => List.cons_ne_nil _ _

/-- Where the first item stands there is one at least. -/
theorem many_reads {item : Parse (Option NodeId)} {p : Token.Kind → Bool}
    (hfirst : ∀ ceil, Yields ceil (fun ts => p (kindAt ts) = true) [] item
      (fun n? => tagged c n?.toList) fun n? left => n?.isSome = true ∧ left < ceil)
    (hitem : Advances [] item (fun n? => tagged c n?.toList) (·.isSome = true)) (ceil : Nat) :
    Yields ceil (fun ts => p (kindAt ts) = true) [] (many item) (fun ns => tagged c ns)
      fun ns left => ns ≠ [] ∧ left < ceil := by
  have hround : Yields ceil (fun ts => p (kindAt ts) = true) [] (collect item [])
      (fun r => tagged c r.1.reverse) fun r left => r.1 ≠ [] ∧ left < ceil := by
    refine (hfirst ceil).bind fun node? left hleft hends => ?_
    obtain ⟨node, rfl⟩ := Option.isSome_iff_exists.1 hends.1
    exact .pure (.refl _) fun n hn => ⟨List.cons_ne_nil _ _, Nat.lt_of_le_of_lt hn hends.2⟩
  have hrounds := fun found hne => @repeating_yields _ _ (fun found => tagged c found.reverse) (· ≠ [])
    (fun found hne ceil => (collect_yields hitem found ceil).ending fun _ _ hends =>
      ⟨hends.1 hne, hends.2⟩) found hne
  unfold many
  rw [repeating_eq, bind_assoc]
  refine hround.pass fun ⟨found, goesOn⟩ left hleft ⟨hne, hlt⟩ => ?_
  cases goesOn with
  | true =>
    refine (hrounds found hne left).pass fun found n hn hne => ?_
    exact .pure (.refl _) fun m hm => ⟨by simpa using hne, by omega⟩
  | false => exact .pure (.refl _) fun m hm => ⟨by simpa using hne, by omega⟩

theorem commaSeparated_makes {item : Parse NodeId} (hitem : Makes [] item fun n => [.node c n]) :
    Makes [] (commaSeparated item) fun ns => tagged c ns :=
  fun ceil => (commaSeparated_yields hitem ceil).ending fun _ _ _ => trivial

/-- A list of items up to a closing token. -/
theorem closedList_makes {close : Punctuation} {item : Parse NodeId}
    (hitem : Makes [] item fun n => [.node c n]) :
    Makes [] (closedList close item) fun ns => tagged c ns := by
  intro ceil
  unfold closedList
  refine (@repeating_makes (List NodeId) _ (fun found => tagged c found.reverse) ?_ []).pass
    fun found => .pure (.refl _) fun _ _ => trivial
  intro found ceil
  refine (quiet_isAt _).bind fun closed => ?_
  refine quiet_isAtEnd.bind fun ended => ?_
  split
  · exact .pure (.refl _) nofun
  · refine hitem.bind fun node => ?_
    refine .accept nofun (fun comma n hn => ?_) (.pure (tagged_snoc c node found []) nofun)
    rw [List.append_assoc]
    exact .pure (tagged_snoc c node found _) fun left hleft _ => Nat.lt_of_le_of_lt hleft hn

/-- A node that is replaced again and again, behind things that stay in hand. -/
theorem chained_makes {step : NodeId → Parse (Option NodeId)} (before : List Held)
    (hstep : ∀ node, Advances (before ++ [.node c node]) (step node)
      (fun n? => before ++ [.node c (n?.getD node)]) (·.isSome = true)) (node : NodeId) :
    Makes (before ++ [.node c node]) (chained step node) fun n => before ++ [.node c n] := by
  unfold chained
  refine @repeating_makes NodeId _ (fun n => before ++ [.node c n]) (fun node ceil => ?_) node
  refine (hstep node ceil).pass fun node? left hleft hends => ?_
  cases node? with
  | some next => exact .pure (.refl _) fun n hn _ => Nat.lt_of_le_of_lt hn (hends rfl)
  | none => exact .pure (.refl _) nofun

end Loops

end Grammar

end DartAnalysis
