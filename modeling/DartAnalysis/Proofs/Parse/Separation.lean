/-
  Names that stand apart. Two tokens have different offsets if something that is written stands between
  them (`Formed.offset_lt`), and a parse puts in tokens only where it finds others, so that much is written
  between a declaration and what it holds: a body begins with a brace or an arrow, an initializer with an
  equals sign, and a missing name of a class is followed by no other name. Main statements: no name outside
  of bodies shares its offset with a variable in them that has an initializer
  (`Formed.offset_ne_of_isInBody`), and no class shares its offset with a function that declares something
  in its body (`Formed.offset_ne_of_class`), whatever is wrong with the text.
-/
import DartAnalysis.Proofs.Parse.Places
import DartAnalysis.Proofs.Parse.Regions
import DartAnalysis.Proofs.Tree.Sorted

namespace DartAnalysis

/-! ## Functions and their children -/

namespace Node.Kind

attribute [local simp] children fields Declaration.fields Member.fields Expression.fields Field.children

theorem children_method (comment? type? parameters? : Option NodeId)
    (external? modifier? property? operator? : Option TokenId) (name body : NodeId) :
    (member (.method comment? external? modifier? type? property? operator? name parameters? body)).children =
      comment?.toList ++ ((type?.toList ++ [name]) ++ (parameters?.toList ++ [body])) := by
  simp

theorem children_constructor (comment? name? : Option NodeId)
    (external? const? factory? period? separator? : Option TokenId) (className parameters body : NodeId)
    (initializers : List NodeId) :
    (member (.constructor comment? external? const? factory? className period? name? parameters separator?
      initializers body)).children =
      comment?.toList ++ ([className] ++ (name?.toList ++ (parameters :: (initializers ++ [body])))) := by
  simp

theorem children_functionDecl (comment? type? : Option NodeId) (external? property? : Option TokenId)
    (name function : NodeId) :
    (declaration (.functionDecl comment? external? type? property? name function)).children =
      comment?.toList ++ ((type?.toList ++ [name]) ++ [function]) := by
  simp

theorem children_closure (parameters? : Option NodeId) (body : NodeId) :
    (expression (.closure parameters? body)).children = parameters?.toList ++ [body] := by
  simp

end Node.Kind

namespace Parsed.Formed

variable {p : Parsed} {e : Grammar.Entry} {source? : Option Source} {text : String}
  (h : p.Formed e source? text)
include h

/-! ## Written tokens -/

omit h in
theorem written_iff {i : TokenId} : p.ground.Written i ↔ i < p.tree.tokens.size - 1 ∧
    ∃ token, p.tree.tokens.toList.dropLast[i]? = some token ∧ token.isEmpty = false := Iff.rfl

omit h in
/-- What comes next at a place comes next behind empty tokens. -/
theorem next?_eq {i j : TokenId} (hij : i ≤ j) (hnone : ∀ k, i ≤ k → k < j → ¬ p.ground.Written k) :
    p.ground.next? i = p.ground.next? j := by
  obtain ⟨n, rfl⟩ := Nat.exists_eq_add_of_le hij
  clear hij
  induction n with
  | zero => rfl
  | succ n ih =>
    rw [ih fun k hk hlt => hnone k hk (Nat.lt_succ_of_lt hlt)]
    have hempty := hnone (i + n) (Nat.le_add_right i n) (Nat.lt_succ_self _)
    show Token.next? (p.tree.tokens.toList.dropLast.drop (i + n)) =
      Token.next? (p.tree.tokens.toList.dropLast.drop (i + n + 1))
    by_cases hlt : i + n < p.tree.tokens.toList.dropLast.length
    · rw [List.drop_eq_getElem_cons hlt]
      refine Token.next?_cons_of_isEmpty (Bool.not_eq_false _ ▸ fun hwritten => hempty ?_)
      refine written_iff.2 ⟨?_, _, List.getElem?_eq_getElem hlt, hwritten⟩
      simpa using hlt
    · rw [List.drop_eq_nil_of_le (Nat.le_of_not_lt hlt),
        List.drop_eq_nil_of_le (Nat.le_succ_of_le (Nat.le_of_not_lt hlt))]

omit h in
/-- Where nothing comes next nothing is written any more. -/
theorem not_written_of_next? {i j : TokenId} (hnone : p.ground.next? i = none) (hij : i ≤ j) :
    ¬ p.ground.Written j := fun hwritten => by
  obtain ⟨-, token, htoken, hempty⟩ := written_iff.1 hwritten
  have hmem : token ∈ p.tree.tokens.toList.dropLast.drop i := by
    refine List.mem_iff_getElem?.2 ⟨j - i, ?_⟩
    rw [List.getElem?_drop, Nat.add_sub_cancel' hij, htoken]
  rw [Token.next?_eq_none.1 hnone token hmem] at hempty
  cases hempty

/-- A token that is written stands between the offsets of what is before it and behind it. -/
theorem offset_lt {i q j : TokenId} (hiq : i ≤ q) (hqj : q < j) (hq : p.ground.Written q)
    (hj : j < p.tree.tokens.size) : (p.tree.token i).offset < (p.tree.token j).offset := by
  obtain ⟨-, token, htoken, hempty⟩ := written_iff.1 hq
  have hqlt : q < p.tree.tokens.size := Nat.lt_trans hqj hj
  have htoken : p.tree.token q = token := by
    obtain ⟨hlt, hget⟩ := List.getElem?_eq_some_iff.1 htoken
    rw [List.getElem_dropLast] at hget
    simpa [Tree.token, hqlt] using hget
  have hlength : 0 < (p.tree.token q).length := by
    rw [htoken]
    refine Nat.pos_of_ne_zero fun hzero => ?_
    rw [Token.isEmpty, String.utf8ByteSize_eq_zero_iff.1 hzero] at hempty
    cases hempty
  have hle : (p.tree.token q).finish ≤ (p.tree.token j).offset := by
    simpa [Tree.token, hqlt, hj] using List.pairwise_iff_getElem.1 h.ordered q j hqlt hj hqj
  have hbefore := (h.token_mono hiq hqlt).1
  have hfinish : (p.tree.token q).finish = (p.tree.token q).offset + (p.tree.token q).length := rfl
  omega

/-! ## The parts of a node -/

theorem facts {n : NodeId} (hn : n < p.tree.nodes.size) :
    ∀ f ∈ (p.tree.kind n).facts (p.tree.firstToken n), f.Holds p.ground :=
  (h.formed (node?_layout hn)).facts

theorem sorted : p.tree.Sorted :=
  .of_nodes (T := p.ground.toLayout) (fun hc => (Tree.admits_of_is (t := p.tree) hc).2) fun _ hn =>
    Node.Kind.wellSorted (h.formed (node?_layout hn)).content

/-- Two nodes, neither of which is below the other, have no token in common. -/
theorem apart_of_not_below {x n m : NodeId} (hn : n ∈ p.tree.below x) (hm : m ∈ p.tree.below x)
    (hnm : n ∉ p.tree.below m) (hmn : m ∉ p.tree.below n) (hkn : (p.tree.kind n).isComment = false)
    (hkm : (p.tree.kind m).isComment = false) : p.tree.Apart n m := by
  induction x using Nat.strongRecOn with
  | ind x ih =>
    rcases Tree.below_cases h.owned hn with rfl | ⟨c, hc, hnc⟩
    · exact absurd hm hmn
    rcases Tree.below_cases h.owned hm with rfl | ⟨d, hd, hmd⟩
    · exact absurd hn hnm
    by_cases hcd : c = d
    · subst hcd
      exact ih c (h.owned.child_lt x c hc) hnc hmd
    · have hpc := Tree.mem_pieces_of_below h.owned hc hnc hkn
      have hpd := Tree.mem_pieces_of_below h.owned hd hmd hkm
      have hspan := h.spans_below (h.bounds hpc).2.1 hnc hkn
      have hspan' := h.spans_below (h.bounds hpd).2.1 hmd hkm
      rcases h.apart hpc hpd hcd with hapart | hapart
      · exact .inl (Nat.lt_of_le_of_lt hspan.2.2 (Nat.lt_of_lt_of_le hapart hspan'.1))
      · exact .inr (Nat.lt_of_le_of_lt hspan'.2.2 (Nat.lt_of_lt_of_le hapart hspan.1))

/-! ## Bodies -/

/-- Between the beginning of a body and what is declared in it something is written. -/
theorem exists_written {body y : NodeId} (hbody : Category.functionBody.admits (p.tree.kind body) = true)
    (hlt : body < p.tree.nodes.size) (hy : y ∈ p.tree.below body)
    (hmay : (p.tree.kind y).mayDeclare = true) :
    ∃ q, p.ground.Written q ∧ p.tree.firstToken body ≤ q ∧ q < p.tree.firstToken y := by
  have hcomment := Node.Kind.isComment_of_mayDeclare hmay
  have hne {n : NodeId} (hn : (p.tree.kind n).mayDeclare = false) : y ≠ n := by
    rintro rfl
    rw [hmay] at hn
    cases hn
  have hfacts := h.facts hlt
  cases hkind : p.tree.kind body with
  | functionBody b =>
    rw [hkind] at hfacts
    have hybody : y ≠ body := hne (by rw [hkind]; rfl)
    obtain rfl | ⟨c, hc, hyc⟩ := Tree.below_cases h.owned hy
    · exact absurd rfl hybody
    cases b with
    | blockBody block =>
      have hchild := hc
      rw [Tree.children_of_kind hkind] at hchild
      obtain rfl : c = block := List.mem_singleton.1 hchild
      obtain ⟨leftBrace, statements, rightBrace, first, last, hshape, hwritten⟩ :=
        hfacts _ (List.mem_singleton_self _)
      obtain ⟨hblock, hshape⟩ := shape_of_node? hshape
      have hblockKind : p.tree.kind c = .statement (.block leftBrace statements rightBrace) :=
        (Shape.mk.inj hshape).1.symm
      have hopen := h.token_lt_below hblock (by rw [hblockKind]; rfl) hyc
        (hne (by rw [hblockKind]; rfl)) hcomment
      have hfirst := h.bounds (Tree.mem_pieces_of_below h.owned hc hyc hcomment)
      exact ⟨leftBrace, hwritten, Nat.le_trans hfirst.2.2.1 hopen.1, hopen.2⟩
    | expressionBody arrow expression semicolon? =>
      obtain ⟨hfirst, hbehind⟩ := h.token_lt_below hlt (by rw [hkind]; rfl) hy hybody hcomment
      exact ⟨arrow, hfacts _ (List.mem_singleton_self _), hfirst, hbehind⟩
    | emptyBody =>
      rw [Tree.children_of_kind hkind] at hc
      cases hc
  | _ =>
    rw [hkind] at hbody
    cases hbody

/-- A variable with an initializer has its equals sign behind its name. -/
theorem equals_written {v name : NodeId} {equals? : Option TokenId} {initializer : NodeId}
    (hv : v < p.tree.nodes.size) (hkind : p.tree.kind v = .variable name equals? (some initializer)) :
    ∃ q, p.ground.Written q ∧ p.tree.lastToken name < q ∧ q < p.tree.firstToken initializer ∧
      q ≤ p.tree.lastToken v := by
  have hfacts := h.facts hv
  rw [hkind] at hfacts
  cases equals? with
  | none => exact absurd (hfacts _ (List.mem_singleton_self _)) id
  | some equals =>
    obtain ⟨-, hlast, hbefore, hafter⟩ := h.token_between hv [.node .name name] equals
      [.node .expression initializer] (by rw [hkind]; rfl)
    exact ⟨equals, hfacts _ (List.mem_singleton_self _), hbefore _ (List.mem_singleton_self _),
      hafter _ (List.mem_singleton_self _), hlast⟩

theorem parent?_root (hroot : (p.tree.kind p.tree.root).isUnit = true) :
    p.tree.parent? p.tree.root = none := by
  by_contra hsome
  obtain ⟨q, hq⟩ := Option.ne_none_iff_exists'.1 hsome
  rw [h.sorted.isUnit_of_child (h.owned.child_of_parent _ q hq)] at hroot
  cases hroot

theorem isInBody_root (hroot : (p.tree.kind p.tree.root).isUnit = true) :
    p.tree.isInBody p.tree.root = false := by
  unfold Tree.isInBody Tree.ancestors Tree.ancestorsTo
  simp [h.parent?_root hroot]

theorem offset_lt_of_written {n m : NodeId} (hn : (p.tree.kind n).isComment = false)
    (hm : (p.tree.kind m).isComment = false) {q : TokenId} (hq : p.ground.Written q)
    (hnq : p.tree.firstToken n ≤ q) (hqm : q < p.tree.firstToken m) :
    p.tree.offset n < p.tree.offset m := by
  obtain ⟨hspan, hinside⟩ := h.tokens_inside m
  rw [Tree.offset_eq hn, Tree.offset_eq hm]
  exact h.offset_lt hnq hqm hq (Nat.lt_of_le_of_lt hspan hinside)

/-- A name outside of bodies does not stand where a variable in a body stands that has an
    initializer. -/
theorem offset_ne_of_isInBody (hroot : (p.tree.kind p.tree.root).isUnit = true) {n v name : NodeId}
    {token : TokenId} {equals? : Option TokenId} {initializer : NodeId}
    (hn : n ∈ p.tree.below p.tree.root) (houter : p.tree.isInBody n = false)
    (hidentifier : p.tree.kind n = .expression (.identifier token))
    (hv : v ∈ p.tree.below p.tree.root) (hinner : p.tree.isInBody v = true)
    (hvariable : p.tree.kind v = .variable name equals? (some initializer)) :
    p.tree.offset n ≠ p.tree.offset name := by
  have hcn : (p.tree.kind n).isComment = false := by rw [hidentifier]; rfl
  -- The body around the variable that nothing outside of bodies is below of.
  obtain ⟨f, hf, b, hb, hbody, hvb⟩ :=
    Tree.exists_body_of_isInBody h.owned (h.isInBody_root hroot) hinner hv
  have hbroot := Tree.mem_below_snoc h.owned hf hb
  have hbin : p.tree.isInBody b = true := by
    rw [Tree.isInBody_of_child h.owned hb, hbody, Bool.true_or]
  have hnb : n ∉ p.tree.below b := fun hmem => by
    rw [Tree.isInBody_of_below h.owned hbin hmem] at houter
    cases houter
  have hbn : b ∉ p.tree.below n := fun hmem => by
    rw [Tree.below_of_leaf h.owned (Tree.children_of_kind hidentifier)] at hmem
    exact hnb (List.mem_singleton.1 hmem ▸ Tree.mem_below_self h.owned b)
  -- The name stands in the body of a function there.
  obtain ⟨nameToken, hname⟩ := h.sorted.identifier_of_declared
    (show name ∈ (p.tree.kind v).declared by rw [hvariable]; exact List.mem_singleton_self _)
  have hcname : (p.tree.kind name).isComment = false := by rw [hname]; rfl
  have hchild : name ∈ p.tree.children v := by
    rw [Tree.children_of_kind hvariable]
    exact List.mem_cons_self
  obtain ⟨body, hbodyMem, hbodyKind, hvbody⟩ : ∃ body ∈ p.tree.below b,
      Category.functionBody.admits (p.tree.kind body) = true ∧ v ∈ p.tree.below body := by
    rcases h.sorted.kind_of_hasBody hbody with hkind | hkind
    · exact ⟨b, Tree.mem_below_self h.owned b, hkind, hvb⟩
    · exact h.sorted.exists_body h.owned hkind hvb (by rw [hvariable]; rfl)
  have hblt := h.lt_of_mem_below_root hbroot
  have hbodyLt : body < p.tree.nodes.size := Tree.lt_of_mem_below h.owned hblt hbodyMem
  have hcb : (p.tree.kind b).isComment = false := by
    cases hkind : p.tree.kind b with
    | comment =>
      rw [Tree.below_of_leaf h.owned (Tree.children_of_isComment (by rw [hkind]; rfl))] at hvb
      rw [List.mem_singleton.1 hvb, hkind] at hvariable
      cases hvariable
    | _ => rfl
  rcases h.apart_of_not_below hn hbroot hnb hbn hcn hcb with hapart | hapart
  · obtain ⟨q, hwritten, hq, hqname⟩ := h.exists_written hbodyKind hbodyLt
      (Tree.mem_below_snoc h.owned hvbody hchild) (by rw [hname]; rfl)
    have hspan := (h.tokens_inside n).1
    have hfirst := (h.spans_below hblt hbodyMem (Node.Kind.isComment_of_functionBody hbodyKind)).1
    refine Nat.ne_of_lt (h.offset_lt_of_written hcn hcname hwritten ?_ hqname)
    exact Nat.le_trans hspan (Nat.le_trans (Nat.le_of_lt hapart) (Nat.le_trans hfirst hq))
  · obtain ⟨q, hwritten, hname, -, hq⟩ := h.equals_written (h.lt_of_mem_below_root hv) hvariable
    have hspan := (h.tokens_inside name).1
    have hlast := (h.spans_below hblt hvb (by rw [hvariable]; rfl)).2.2
    exact Nat.ne_of_gt (h.offset_lt_of_written hcname hcn hwritten
      (Nat.le_trans hspan (Nat.le_of_lt hname)) (Nat.lt_of_le_of_lt (Nat.le_trans hq hlast) hapart))

/-! ## Functions -/

/-- Earlier children of a node that keeps them in order end before later ones begin. -/
theorem children_apart {n : NodeId} (hn : n < p.tree.nodes.size)
    (hmakings : (p.tree.kind n).makings = laid (p.tree.kind n).slots (p.tree.kind n).fields)
    (before after : List NodeId)
    (hchildren : p.tree.children n = (p.tree.kind n).comment?.toList ++ (before ++ after)) :
    ∀ c ∈ before, ∀ d ∈ after, p.tree.lastToken c < p.tree.firstToken d := by
  have hplaced : (p.tree.kind n).placed.map Prod.snd = before ++ after := by
    have heq : p.tree.children n = _ := Node.Kind.children_eq (p.tree.kind n)
    exact List.append_cancel_left (heq.symm.trans hchildren)
  obtain ⟨_, -, hlie⟩ := Lie.append_iff.1 (h.formed (node?_layout hn)).content
  have hrow : p.layout.Row _ _ (p.tree.kind n).placed := hlie.row_of_scattered fun row orders hmem => by
    have hmem : .scattered row orders ∈ (p.tree.kind n).makings := hmem
    rw [hmakings] at hmem
    exact absurd (Node.Kind.isSingle_of_mem_laid hmem) Bool.false_ne_true
  have hapart : (before ++ after).Pairwise fun c d => p.tree.lastToken c < p.tree.firstToken d :=
    hplaced ▸ List.pairwise_map.2 ((node_apart hrow).imp And.right)
  exact fun c hc d hd => (List.pairwise_append.1 hapart).2.2 c hc d hd

theorem child_span {n c : NodeId} (hc : c ∈ p.tree.children n)
    (hcomment : (p.tree.kind c).isComment = false) : p.tree.firstToken n ≤ p.tree.firstToken c :=
  (h.bounds (List.mem_filter.2 ⟨hc, by rw [hcomment]; rfl⟩)).2.2.1

/-- What declares a name begins before it. -/
theorem declared_span {n d : NodeId} (hd : d ∈ (p.tree.kind n).declared) :
    (p.tree.kind d).isComment = false ∧ p.tree.firstToken n ≤ p.tree.firstToken d := by
  obtain ⟨token, htoken⟩ := h.sorted.identifier_of_declared hd
  have hcomment : (p.tree.kind d).isComment = false := by rw [htoken]; rfl
  exact ⟨hcomment, h.child_span (Node.Kind.mem_children_of_declared hd) hcomment⟩

/-- A function begins before the node that declares it, and that one before the body. -/
theorem host_spans {n d body : NodeId} (hn : n < p.tree.nodes.size) (hhost : p.tree.Hosts n d body) :
    body ∈ p.tree.below n ∧ Category.functionBody.admits (p.tree.kind body) = true ∧
      (p.tree.kind d).isComment = false ∧ p.tree.firstToken n ≤ p.tree.firstToken d ∧
      p.tree.firstToken d ≤ p.tree.firstToken body := by
  have hapart {m k : NodeId} (hmk : p.tree.lastToken m < p.tree.firstToken k) :
      p.tree.firstToken m ≤ p.tree.firstToken k :=
    Nat.le_trans (h.tokens_inside m).1 (Nat.le_of_lt hmk)
  have hbelow {m : NodeId} (hm : m ∈ p.tree.children n) : m ∈ p.tree.below n :=
    Tree.mem_below_child h.owned hm (Tree.mem_below_self h.owned m)
  cases hhost with
  | method hkind =>
    have hchildren : p.tree.children n = _ :=
      (congrArg Node.Kind.children hkind).trans (Node.Kind.children_method ..)
    obtain ⟨hcomment, hfirst⟩ := h.declared_span (d := d) (by rw [hkind]; exact List.mem_singleton_self d)
    refine ⟨hbelow (by simp [hchildren]), h.sorted.node hkind 8 rfl rfl, hcomment, hfirst, hapart ?_⟩
    exact h.children_apart hn (by rw [hkind]; rfl) _ _ (by rw [hchildren, hkind]; rfl) d (by simp) body
      (by simp)
  | constructor hkind =>
    rename_i className _ _ name? _ _ _ _ _ _
    have hchildren : p.tree.children n = _ :=
      (congrArg Node.Kind.children hkind).trans (Node.Kind.children_constructor ..)
    obtain ⟨hcomment, hfirst⟩ := h.declared_span (by rw [hkind]; exact List.mem_singleton_self _)
    refine ⟨hbelow (by simp [hchildren]), h.sorted.node hkind 10 rfl rfl, hcomment, hfirst, hapart ?_⟩
    refine h.children_apart hn (by rw [hkind]; rfl) (className :: name?.toList) _
      (by rw [hchildren, hkind]; simp [Node.Kind.comment?]; rfl) _ ?_ body (by simp)
    cases name? <;> simp
  | function hkind hfunction =>
    rename_i function _ _ _ _ _
    have hchildren : p.tree.children n = _ :=
      (congrArg Node.Kind.children hkind).trans (Node.Kind.children_functionDecl ..)
    have hchildren' : p.tree.children _ = _ :=
      (congrArg Node.Kind.children hfunction).trans (Node.Kind.children_closure ..)
    obtain ⟨hcomment, hfirst⟩ := h.declared_span (d := d) (by rw [hkind]; exact List.mem_singleton_self d)
    have hadmits := h.sorted.node hfunction 1 rfl rfl
    refine ⟨Tree.mem_below_snoc h.owned (hbelow (show function ∈ _ by simp [hchildren]))
      (by rw [hchildren']; simp), hadmits, hcomment, hfirst,
      Nat.le_trans (hapart ?_) (h.child_span (by rw [hchildren']; simp)
        (Node.Kind.isComment_of_functionBody hadmits))⟩
    exact h.children_apart hn (by rw [hkind]; rfl) _ _ (by rw [hchildren, hkind]; rfl) d (by simp) _
      (by simp)
  | closure hkind =>
    have hchild : body ∈ p.tree.children n := by
      rw [show p.tree.children n = _ from (congrArg Node.Kind.children hkind).trans
        (Node.Kind.children_closure ..)]
      simp
    have hadmits := h.sorted.node hkind 1 rfl rfl
    exact ⟨hbelow hchild, hadmits, by rw [hkind]; rfl, Nat.le_refl _,
      h.child_span hchild (Node.Kind.isComment_of_functionBody hadmits)⟩

/-! ## Members -/

omit h in
/-- Before what a member declares stands something that is written, unless its own name comes next. -/
theorem written_of_introduced {m x d : NodeId} {place : TokenId} (hplace : place < p.tree.firstToken m)
    (hmx : p.tree.firstToken m ≤ p.tree.firstToken x)
    (hfact : (Fact.introduced (p.tree.firstToken m) x).Holds p.ground)
    (hd : d = x ∨ p.tree.firstToken x < p.tree.firstToken d) :
    (∃ q, p.ground.Written q ∧ place ≤ q ∧ q < p.tree.firstToken d) ∨
      p.ground.next? (p.tree.firstToken d) = some true := by
  rcases hfact with ⟨shape, hshape, q, hq, hlt, hwritten⟩ | ⟨shape, hshape, -, hwritten, hnext⟩
  · obtain ⟨-, rfl⟩ := shape_of_node? hshape
    refine .inl ⟨q, hwritten, Nat.le_trans (Nat.le_of_lt hplace) hq, ?_⟩
    rcases hd with rfl | hd
    · exact hlt
    · exact Nat.lt_trans hlt hd
  · obtain ⟨-, rfl⟩ := shape_of_node? hshape
    rcases hd with rfl | hd
    · exact .inr hnext
    · exact .inl ⟨_, hwritten, Nat.le_trans (Nat.le_of_lt hplace) hmx, hd⟩

section Member

variable {m n d body : NodeId} (hhost : p.tree.Hosts n d body)
include hhost

theorem not_mem_below_of_heading {c : NodeId} {cat : Category} (hadmits : cat.admits (p.tree.kind c) = true)
    (hcat : cat.isHeading = true) : n ∉ p.tree.below c := fun hmem =>
  h.sorted.no_host h.owned (Category.isHeading_of_admits hcat hadmits) hmem hhost

theorem exists_child_of_host {k : NodeId} (hk : (p.tree.kind k).isHost = false) (hn : n ∈ p.tree.below k) :
    ∃ c ∈ p.tree.children k, n ∈ p.tree.below c := by
  refine (Tree.below_cases h.owned hn).resolve_left ?_
  rintro rfl
  rw [hhost.isHost] at hk
  cases hk

/-- Nodes begin before the functions that are declared in their children. -/
theorem firstToken_le_of_child {k c : NodeId} (hc : c ∈ p.tree.children k) (hn : n ∈ p.tree.below c) :
    p.tree.firstToken k ≤ p.tree.firstToken c ∧ p.tree.firstToken c ≤ p.tree.firstToken d := by
  have hcomment := Node.Kind.isComment_of_isHost hhost.isHost
  obtain ⟨-, hlt, hfirst, -⟩ := h.bounds (Tree.mem_pieces_of_below h.owned hc hn hcomment)
  obtain ⟨-, -, -, hdeclared, -⟩ := h.host_spans (Tree.lt_of_mem_below h.owned hlt hn) hhost
  exact ⟨hfirst, Nat.le_trans (h.spans_below hlt hn hcomment).1 hdeclared⟩

/-- What is declared in a member is declared behind the name in its heading, if not by that name. -/
theorem declared_behind {x : NodeId} {before after : List NodeId} (hm : m < p.tree.nodes.size)
    (hmakings : (p.tree.kind m).makings = laid (p.tree.kind m).slots (p.tree.kind m).fields)
    (hchildren : p.tree.children m = (p.tree.kind m).comment?.toList ++ (before ++ after))
    (hheadings : ∀ c ∈ (p.tree.kind m).comment?.toList ++ before,
      ∃ cat : Category, cat.admits (p.tree.kind c) = true ∧ cat.isHeading = true)
    (hself : n = m → d = x ∨ p.tree.firstToken x < p.tree.firstToken d) (hx : x ∈ before)
    (hn : n ∈ p.tree.below m) : d = x ∨ p.tree.firstToken x < p.tree.firstToken d := by
  rcases Tree.below_cases h.owned hn with hnm | ⟨c, hc, hnc⟩
  · exact hself hnm
  have hc' := hc
  rw [hchildren, ← List.append_assoc, List.mem_append] at hc'
  rcases hc' with hc' | hc'
  · obtain ⟨cat, hadmits, hcat⟩ := hheadings c hc'
    exact absurd hnc (h.not_mem_below_of_heading hhost hadmits hcat)
  · have hapart := h.children_apart hm hmakings before after hchildren x hx c hc'
    exact .inr (Nat.lt_of_le_of_lt (h.tokens_inside x).1
      (Nat.lt_of_lt_of_le hapart (h.firstToken_le_of_child hhost hc hnc).2))

/-- Fields declare functions only in initializers, behind an equals sign. -/
theorem written_in_field {comment? : Option NodeId} {static? : Option TokenId} {list : NodeId}
    {semicolon : TokenId} {place : TokenId}
    (hkind : p.tree.kind m = .member (.field comment? static? list semicolon)) (hn : n ∈ p.tree.below m)
    (hplace : place < p.tree.firstToken m) :
    ∃ q, p.ground.Written q ∧ place ≤ q ∧ q < p.tree.firstToken d := by
  obtain ⟨c, hc, hnc⟩ := h.exists_child_of_host hhost (by rw [hkind]; rfl) hn
  have hc' : c ∈ comment? ∨ c = list := by
    simpa [Tree.children_of_kind hkind, Node.Kind.fields, Member.fields, Field.children] using hc
  rcases hc' with hc' | rfl
  · exact absurd hnc (h.not_mem_below_of_heading hhost (h.sorted.comment hkind 0 rfl rfl c hc') rfl)
  obtain ⟨keyword?, type?, vars, hlist⟩ := Tree.exists_variableList_of_admits (h.sorted.node hkind 2 rfl rfl)
  obtain ⟨v, hv, hnv⟩ := h.exists_child_of_host hhost (by rw [hlist]; rfl) hnc
  have hv' : v ∈ type? ∨ v ∈ vars := by
    simpa [Tree.children_of_kind hlist, Node.Kind.fields, Field.children] using hv
  rcases hv' with hv' | hv'
  · exact absurd hnv (h.not_mem_below_of_heading hhost (h.sorted.node? hlist 1 rfl rfl v hv') rfl)
  obtain ⟨name, equals?, initializer?, hvariable⟩ :=
    Tree.exists_variable_of_admits (h.sorted.nodes hlist 2 rfl rfl v hv')
  obtain ⟨i, hi, hni⟩ := h.exists_child_of_host hhost (by rw [hvariable]; rfl) hnv
  have hi' : i = name ∨ i ∈ initializer? := by
    simpa [Tree.children_of_kind hvariable, Node.Kind.fields, Field.children] using hi
  rcases hi' with rfl | rfl
  · exact absurd hni (h.not_mem_below_of_heading hhost (h.sorted.node hvariable 0 rfl rfl) rfl)
  obtain ⟨q, hwritten, hname, hbehind, -⟩ := h.equals_written (Tree.parent_lt hi) hvariable
  refine ⟨q, hwritten, Nat.le_of_lt ?_, Nat.lt_of_lt_of_le hbehind (h.firstToken_le_of_child hhost hi hni).2⟩
  calc place
    _ < p.tree.firstToken m := hplace
    _ ≤ p.tree.firstToken c := (h.firstToken_le_of_child hhost hc hnc).1
    _ ≤ p.tree.firstToken v := (h.firstToken_le_of_child hhost hv hnv).1
    _ ≤ p.tree.firstToken name := (h.declared_span (by rw [hvariable]; exact List.mem_singleton_self _)).2
    _ ≤ p.tree.lastToken name := (h.tokens_inside name).1
    _ < q := hname

/-- A method is introduced by its name, if not by what stands before it. -/
theorem written_in_method {comment? type? parameters? : Option NodeId}
    {external? modifier? property? operator? : Option TokenId} {name body' : NodeId} {place : TokenId}
    (hkind : p.tree.kind m = .member (.method comment? external? modifier? type? property? operator? name
      parameters? body')) (hm : m < p.tree.nodes.size) (hn : n ∈ p.tree.below m)
    (hplace : place < p.tree.firstToken m) :
    (∃ q, p.ground.Written q ∧ place ≤ q ∧ q < p.tree.firstToken d) ∨
      p.ground.next? (p.tree.firstToken d) = some true := by
  have hchildren : p.tree.children m = _ :=
    (congrArg Node.Kind.children hkind).trans (Node.Kind.children_method ..)
  have hdeclared : name ∈ (p.tree.kind m).declared := by
    rw [hkind]
    exact List.mem_singleton_self _
  have hfacts := h.facts hm
  refine written_of_introduced hplace (h.declared_span hdeclared).2
    (hfacts _ (by rw [hkind]; exact List.mem_singleton_self _)) ?_
  refine h.declared_behind hhost hm (by rw [hkind]; rfl) (by rw [hchildren, hkind]; rfl) ?_ ?_ (by simp) hn
  · intro c hc
    rw [hkind, List.mem_append, List.mem_append] at hc
    rcases hc with hc | hc | hc
    · exact ⟨_, h.sorted.comment hkind 0 rfl rfl c (Option.mem_toList.1 hc), rfl⟩
    · exact ⟨_, h.sorted.node? hkind 3 rfl rfl c (Option.mem_toList.1 hc), rfl⟩
    · obtain ⟨token, htoken⟩ := h.sorted.identifier_of_declared hdeclared
      exact ⟨.name, by rw [List.mem_singleton.1 hc, htoken]; rfl, rfl⟩
  · rintro rfl
    cases hhost with
    | method hkind' =>
      rw [hkind'] at hkind
      cases hkind
      exact .inl rfl
    | constructor hkind' | function hkind' | closure hkind' =>
      rw [hkind'] at hkind
      cases hkind

/-- A constructor is introduced by the name of its class, if not by what stands before that. -/
theorem written_in_constructor {comment? name? : Option NodeId}
    {external? const? factory? period? separator? : Option TokenId} {className parameters body' : NodeId}
    {initializers : List NodeId} {place : TokenId}
    (hkind : p.tree.kind m = .member (.constructor comment? external? const? factory? className period?
      name? parameters separator? initializers body')) (hm : m < p.tree.nodes.size)
    (hn : n ∈ p.tree.below m) (hplace : place < p.tree.firstToken m) :
    (∃ q, p.ground.Written q ∧ place ≤ q ∧ q < p.tree.firstToken d) ∨
      p.ground.next? (p.tree.firstToken d) = some true := by
  have hchildren : p.tree.children m = _ :=
    (congrArg Node.Kind.children hkind).trans (Node.Kind.children_constructor ..)
  have hname := h.sorted.node hkind 4 rfl rfl
  have hfirst : p.tree.firstToken m ≤ p.tree.firstToken className := by
    obtain ⟨token, htoken⟩ := Tree.exists_identifier_of_admits hname
    exact h.child_span (hchildren ▸ by simp) (by rw [htoken]; rfl)
  have hfacts := h.facts hm
  refine written_of_introduced hplace hfirst
    (hfacts _ (by rw [hkind]; exact List.mem_singleton_self _)) ?_
  refine h.declared_behind hhost hm (by rw [hkind]; rfl) (by rw [hchildren, hkind]; rfl) ?_ ?_ (by simp) hn
  · intro c hc
    rw [hkind, List.mem_append] at hc
    rcases hc with hc | hc
    · exact ⟨_, h.sorted.comment hkind 0 rfl rfl c (Option.mem_toList.1 hc), rfl⟩
    · exact ⟨_, List.mem_singleton.1 hc ▸ hname, rfl⟩
  · rintro rfl
    cases hhost with
    | constructor hkind' =>
      rw [hkind'] at hkind
      cases hkind
      cases name? with
      | none => exact .inl rfl
      | some nm =>
        refine .inr (Nat.lt_of_le_of_lt (h.tokens_inside className).1 ?_)
        exact h.children_apart hm (by rw [hkind']; rfl) _ _ (by rw [hchildren, hkind']; rfl) className
          (by simp) nm (by simp)
    | method hkind' | function hkind' | closure hkind' =>
      rw [hkind'] at hkind
      cases hkind

/-- Between a place before a member and a function in it something is written, unless the name of the
    function comes next. -/
theorem written_in_member {place : TokenId} (hm : m < p.tree.nodes.size)
    (hmember : Category.member.admits (p.tree.kind m) = true) (hn : n ∈ p.tree.below m)
    (hplace : place < p.tree.firstToken m) :
    (∃ q, p.ground.Written q ∧ place ≤ q ∧ q < p.tree.firstToken d) ∨
      p.ground.next? (p.tree.firstToken d) = some true := by
  cases hkind : p.tree.kind m with
  | member x =>
    cases x with
    | field => exact .inl (h.written_in_field hhost hkind hn hplace)
    | method => exact h.written_in_method hhost hkind hm hn hplace
    | constructor => exact h.written_in_constructor hhost hkind hm hn hplace
  | _ =>
    rw [hkind] at hmember
    cases hmember

end Member

/-! ## Classes -/

section Class

variable {c name : NodeId} {comment? typeParameters? extends? with? implements? : Option NodeId}
  {abstract? : Option TokenId} {keyword leftBrace rightBrace : TokenId} {members : List NodeId}
  (hkind : p.tree.kind c = .declaration (.classDecl comment? abstract? keyword name typeParameters? extends?
    with? implements? leftBrace members rightBrace))
include hkind

/-- The members of a class stand behind its name and before its closing brace. -/
theorem class_spans (hc : c < p.tree.nodes.size) :
    (∀ m ∈ members, p.tree.lastToken name < p.tree.firstToken m) ∧
      p.tree.lastToken name < rightBrace ∧ rightBrace ≤ p.tree.lastToken c := by
  obtain ⟨-, -, hname, hmembers⟩ := h.token_between hc
    (laid [.keyword? .abstractKw, .keyword .classKw, .node .name, .node? .typeParameterList]
        [.token? abstract?, .token keyword, .node name, .node? typeParameters?] ++
      [.scattered (headingRow extends? with? implements?) (headingOrders extends? with? implements?)])
    leftBrace
    (tagged .member members ++ [.token (Token.Kind.exactly (.punctuation .closeCurly)) rightBrace])
    (q := Token.Kind.exactly (.punctuation .openCurly))
    (by rw [hkind]; simp [Node.Kind.makings, laid, Slot.laid])
  obtain ⟨-, hlast, hbefore, -⟩ := h.token_between hc
    (laid [.keyword? .abstractKw, .keyword .classKw, .node .name, .node? .typeParameterList]
        [.token? abstract?, .token keyword, .node name, .node? typeParameters?] ++
      .scattered (headingRow extends? with? implements?) (headingOrders extends? with? implements?) ::
      .token (Token.Kind.exactly (.punctuation .openCurly)) leftBrace :: tagged .member members)
    rightBrace [] (q := Token.Kind.exactly (.punctuation .closeCurly))
    (by rw [hkind]; simp [Node.Kind.makings, laid, Slot.laid])
  have hname := hname (.name, name) (by simp [laid, Slot.laid, Held.located])
  refine ⟨fun m hm => Nat.lt_trans hname (hmembers (.member, m) ?_), ?_, hlast⟩
  · exact List.mem_flatMap.2 ⟨.node .member m,
      List.mem_append_left _ (List.mem_map_of_mem hm), List.mem_singleton_self _⟩
  · exact hbefore (.name, name) (by simp [laid, Slot.laid, Held.located])

/-- What stands in a class stands in one of its members, if it is no heading. -/
theorem member_of_below {n d body : NodeId} (hn : n ∈ p.tree.below c) (hhost : p.tree.Hosts n d body) :
    ∃ m ∈ members, Category.member.admits (p.tree.kind m) = true ∧ n ∈ p.tree.below m := by
  obtain ⟨m, hm, hnm⟩ := h.exists_child_of_host hhost (by rw [hkind]; rfl) hn
  rw [Tree.children_of_kind hkind] at hm
  have hm : m ∈ comment? ∨ m = name ∨ m ∈ typeParameters? ∨ m ∈ extends? ∨ m ∈ with? ∨ m ∈ implements? ∨
      m ∈ members := by
    simpa [Node.Kind.fields, Declaration.fields, Field.children] using hm
  have hheading {cat : Category} (hadmits : cat.admits (p.tree.kind m) = true)
      (hcat : cat.isHeading = true) : False :=
    h.not_mem_below_of_heading hhost hadmits hcat hnm
  rcases hm with hm | rfl | hm | hm | hm | hm | hm
  · exact (hheading (h.sorted.comment hkind 0 rfl rfl m hm) rfl).elim
  · exact (hheading (h.sorted.node hkind 3 rfl rfl) rfl).elim
  · exact (hheading (h.sorted.node? hkind 4 rfl rfl m hm) rfl).elim
  · exact (hheading (h.sorted.node? hkind 5 rfl rfl m hm) rfl).elim
  · exact (hheading (h.sorted.node? hkind 6 rfl rfl m hm) rfl).elim
  · exact (hheading (h.sorted.node? hkind 7 rfl rfl m hm) rfl).elim
  · exact ⟨m, hm, h.sorted.nodes hkind 9 rfl rfl m hm, hnm⟩

theorem name_span : (p.tree.kind name).isComment = false ∧ p.tree.firstToken c ≤ p.tree.firstToken name :=
  h.declared_span (by rw [hkind]; exact List.mem_singleton_self _)

/-- A function in a class stands behind the name of the class, even if that name is missing. -/
theorem offset_lt_of_inside (hc : c < p.tree.nodes.size) {n d body : NodeId} (hn : n ∈ p.tree.below c)
    (hhost : p.tree.Hosts n d body) : p.tree.offset name < p.tree.offset d := by
  obtain ⟨m, hm, hmember, hnm⟩ := h.member_of_below hkind hn hhost
  have hchild : m ∈ p.tree.children c := by
    rw [Tree.children_of_kind hkind]
    simp [Node.Kind.fields, Declaration.fields, Field.children, hm]
  have hmlt := Nat.lt_trans (h.owned.child_lt c m hchild) hc
  obtain ⟨-, -, hcd, -, -⟩ := h.host_spans (Tree.lt_of_mem_below h.owned hmlt hnm) hhost
  have hplace : p.tree.firstToken name < p.tree.firstToken m :=
    Nat.lt_of_le_of_lt (h.tokens_inside name).1 ((h.class_spans hkind hc).1 m hm)
  have hplaced := Nat.lt_of_lt_of_le hplace (h.firstToken_le_of_child hhost hchild hnm).2
  have hcname := (h.name_span hkind).1
  by_cases hwritten : ∃ q, p.ground.Written q ∧ p.tree.firstToken name ≤ q ∧ q < p.tree.firstToken d
  · obtain ⟨q, hq, hqname, hqd⟩ := hwritten
    exact h.offset_lt_of_written hcname hcd hq hqname hqd
  -- With nothing written in between, a name comes next: not if the name of the class is missing.
  have hnext := (h.written_in_member hhost hmlt hmember hnm hplace).resolve_left hwritten
  have hfacts := h.facts hc
  rw [hkind] at hfacts
  obtain ⟨shape, hshape, hgapped⟩ := hfacts _ (List.mem_cons_of_mem _ (List.mem_singleton_self _))
  obtain ⟨-, rfl⟩ := shape_of_node? hshape
  rcases hgapped with hwritten' | ⟨-, hgapped⟩
  · exact absurd ⟨_, hwritten', Nat.le_refl _, hplaced⟩ hwritten
  · refine absurd ((next?_eq (Nat.le_of_lt hplaced) fun k hk hkd hw => ?_).trans hnext) hgapped
    exact hwritten ⟨k, hw, hk, hkd⟩

/-- Behind a class that is not closed nothing is written. -/
theorem offset_lt_of_behind (hc : c < p.tree.nodes.size) {d : NodeId} {q : TokenId}
    (hd : (p.tree.kind d).isComment = false) (hbehind : p.tree.lastToken c < p.tree.firstToken d)
    (hq : p.ground.Written q) (hdq : p.tree.firstToken d ≤ q) : p.tree.offset name < p.tree.offset d := by
  obtain ⟨-, hbrace, hlast⟩ := h.class_spans hkind hc
  have hclosed := h.facts hc
  rw [hkind] at hclosed
  have hbehind := Nat.lt_of_le_of_lt hlast hbehind
  rcases hclosed _ List.mem_cons_self with hwritten | ⟨-, hnone⟩
  · exact h.offset_lt_of_written (h.name_span hkind).1 hd hwritten
      (Nat.le_trans (h.tokens_inside name).1 (Nat.le_of_lt hbrace)) hbehind
  · exact absurd hq (not_written_of_next? hnone (Nat.le_trans (Nat.le_of_lt hbehind) hdq))

/-- A class does not stand where a function stands that declares something in its body. -/
theorem offset_ne_of_class (hroot : (p.tree.kind p.tree.root).isUnit = true)
    (hc : c ∈ p.tree.below p.tree.root) {n d body y : NodeId} (hn : n ∈ p.tree.below p.tree.root)
    (hhost : p.tree.Hosts n d body) (hy : y ∈ p.tree.below body)
    (hmay : (p.tree.kind y).mayDeclare = true) : p.tree.offset d ≠ p.tree.offset name := by
  have hclt := h.lt_of_mem_below_root hc
  have hnlt := h.lt_of_mem_below_root hn
  obtain ⟨hbody, hadmits, hcd, -, hdbody⟩ := h.host_spans hnlt hhost
  obtain ⟨q, hq, hbodyq, hqy⟩ := h.exists_written hadmits
    (Tree.lt_of_mem_below h.owned hnlt hbody) hy hmay
  have hdq := Nat.le_trans hdbody hbodyq
  obtain ⟨x, hx, hnx⟩ := h.exists_child_of_host hhost (Node.Kind.isHost_of_isUnit hroot) hn
  have hcroot := h.sorted.class_of_below h.owned hroot hc (by rw [hkind]; rfl)
  have hpx := Tree.mem_pieces_of_below h.owned hx hnx (Node.Kind.isComment_of_isHost hhost.isHost)
  have hpc := Tree.mem_pieces_of_below h.owned hcroot (Tree.mem_below_self h.owned c) (by rw [hkind]; rfl)
  by_cases hxc : x = c
  · exact Nat.ne_of_gt (h.offset_lt_of_inside hkind hclt (hxc ▸ hnx) hhost)
  rcases h.apart hpx hpc hxc with hapart | hapart
  · obtain ⟨hcname, hfirst⟩ := h.name_span hkind
    refine Nat.ne_of_lt (h.offset_lt_of_written hcd hcname hq hdq ?_)
    have hyx := Tree.mem_below_trans h.owned hnx (Tree.mem_below_trans h.owned hbody hy)
    have hend := h.spans_below (h.bounds hpx).2.1 hyx (Node.Kind.isComment_of_mayDeclare hmay)
    calc q
      _ < p.tree.firstToken y := hqy
      _ ≤ p.tree.lastToken y := hend.2.1
      _ ≤ p.tree.lastToken x := hend.2.2
      _ ≤ p.tree.firstToken c := Nat.le_of_lt hapart
      _ ≤ p.tree.firstToken name := hfirst
  · refine Nat.ne_of_gt (h.offset_lt_of_behind hkind hclt hcd ?_ hq hdq)
    exact Nat.lt_of_lt_of_le hapart (h.firstToken_le_of_child hhost hx hnx).2

end Class

end Parsed.Formed

end DartAnalysis
