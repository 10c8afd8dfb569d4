/-
  What documentation is attached to. What documents a directive, a declaration or a class member is
  looked for right before its first token is read (`docComment_documents`), and what comes later leaves
  the gap before that token as it is (`State.Documented.follow`). A production makes its node from there
  on and with the comment that it was given (`Carries`); the loops over a unit and over the members of a
  class keep what was found before (`repeating_ensures`). So all parts of a unit are complete
  (`compilationUnit_ensures`).
-/
import DartAnalysis.Proofs.Parse.Gaps
import DartAnalysis.Proofs.Parse.Units

namespace DartAnalysis

/-! ## New nodes -/

namespace Arena

/-- What a node is, whoever owns it. -/
def shape? (a : Arena) (i : NodeId) : Option Shape := a[i]?.map fun n => ⟨n.kind, n.first, n.last⟩

variable {a : Arena} {i : NodeId} {shape : Shape}

theorem shape?_setParent (c p : NodeId) (h : a.shape? i = some shape) :
    (a.setParent c p).shape? i = some shape := by
  unfold shape? setParent at *
  rw [Array.getElem?_modify]
  split <;> simpa using h

theorem shape?_setKind {owner : NodeId} (hne : i ≠ owner) (kind : Node.Kind)
    (h : a.shape? i = some shape) : (a.setKind owner kind).shape? i = some shape := by
  unfold shape? setKind at *
  rwa [Array.getElem?_modify, if_neg hne.symm]

theorem shape?_push (n : Node) (h : a.shape? i = some shape) :
    shape? (a.push n) i = some shape := by
  obtain ⟨node, hnode, -⟩ := Option.map_eq_some_iff.1 h
  have hlt := (Array.getElem?_eq_some_iff.1 hnode).1
  rw [shape?, Array.getElem?_push_lt hlt]
  rwa [shape?, Array.getElem?_eq_getElem hlt] at h

theorem shape?_sever {owner : NodeId} (hne : i ≠ owner) (child : NodeId)
    (h : a.shape? i = some shape) : (a.sever owner child).shape? i = some shape := by
  unfold sever
  split
  · exact shape?_setKind hne _ h
  · dsimp only
    split
    · exact shape?_setKind hne _ (shape?_push _ h)
    · exact shape?_push _ h

/-- Who adopts a child stays what it is. -/
theorem shape?_adopt (child : NodeId) (h : a.shape? i = some shape) :
    (a.adopt i child).shape? i = some shape := by
  unfold adopt
  refine shape?_setParent _ _ ?_
  split
  · split
    · rename_i hne
      exact shape?_sever (Ne.symm hne) child h
    · exact h
  · exact h

theorem shape?_alloc (a : Arena) (kind : Node.Kind) (first last : TokenId) :
    (a.alloc kind first last).2.shape? a.size = some ⟨kind, first, last⟩ := by
  have hfold : ∀ (children : List NodeId) (b : Arena), b.shape? a.size = some ⟨kind, first, last⟩ →
      (children.foldl (fun b child => adopt b a.size child) b).shape? a.size =
        some ⟨kind, first, last⟩ := by
    intro children
    induction children with
    | nil => exact fun _ => id
    | cons child children ih => exact fun b hb => ih _ (shape?_adopt child hb)
  exact hfold kind.children _ (by simp [shape?])

end Arena

namespace Node.Kind

/-- The members of a class. -/
def members : Node.Kind → List NodeId
  | .declaration (.classDecl _ _ _ _ _ _ _ _ _ members _) => members
  | _ => []

end Node.Kind

namespace Grammar

/-- A node that was made is what it was made as. -/
theorem alloc_shape {kind : Node.Kind} {first last : TokenId} {s s' : State} {n : NodeId}
    (h : alloc kind first last s = some (n, s')) :
    s'.layout.node? n = some ⟨kind, first, last⟩ ∧ s'.tokens = s.tokens ∧ s'.read = s.read ∧
      s'.comments = s.comments ∧ s'.errors = s.errors := by
  unfold alloc at h
  rw [bind_eq_of_eq_some (show (get : Parse State) s = some (s, s) from rfl)] at h
  obtain ⟨_, _, hguard, h⟩ := exists_of_bind_eq_some h
  have hguard : (guard (kind.children.all (· < s.nodes.size)) : Parse Unit) s = _ := hguard
  unfold guard at hguard
  split at hguard
  · obtain ⟨-, rfl⟩ := Prod.mk.inj (Option.some.inj hguard)
    obtain ⟨rfl, rfl⟩ := Prod.mk.inj (Option.some.inj h)
    exact ⟨s.nodes.shape?_alloc kind first last, rfl, rfl, rfl, rfl⟩
  · cases hguard

/-! ## The gap before a token -/

/-- Where the gap before a token begins: where the token before it ends, or at the front of the text. -/
def gapStart (tokens : Array Token) : TokenId → Nat
  | 0 => 0
  | t + 1 => (tokens.getD t default).finish

namespace State

variable {s s' : State} {first : TokenId} {comment? : Option NodeId} {n : NodeId}

/-- A comment node lists a run of comments; there is none if the run is empty. -/
def Lists (s : State) (comment? : Option NodeId) (run : List CommentId) : Prop :=
  (run ≠ [] ↔ comment?.isSome = true) ∧
    ∀ n ∈ comment?, ∃ shape, s.layout.node? n = some shape ∧ shape.kind = .comment run

/-- A comment node is the documentation before a token, unless something was reported. -/
def Documented (s : State) (first : TokenId) (comment? : Option NodeId) : Prop :=
  first ≤ s.read.size ∧ (s.errors = #[] → ∃ upper, s.tokens[first]?.map Token.offset = some upper ∧
    gapStart s.tokens first ≤ upper ∧
    s.Lists comment? (documentation s.comments (gapStart s.tokens first) upper))

theorem gapStart_of_kept (hkept : s.read.toList <+: s'.read.toList) (hfirst : first ≤ s.read.size) :
    gapStart s'.tokens first = gapStart s.tokens first := by
  cases first with
  | zero => rfl
  | succ t =>
    rw [gapStart, gapStart, Array.getD_eq_getD_getElem?, Array.getD_eq_getD_getElem?,
      token_of_kept hkept hfirst]

/-- What is documentation before a token stays so. -/
theorem Documented.follow (h : s.Documented first comment?) (hfollows : Follows s s') :
    s'.Documented first comment? := by
  obtain ⟨hfirst, h⟩ := h
  refine ⟨Nat.le_trans hfirst hfollows.kept.length_le, fun hclean => ?_⟩
  obtain ⟨upper, hupper, hle, hsome, hlists⟩ := h (hfollows.grows.clean hclean)
  rw [gapStart_of_kept hfollows.kept hfirst, hfollows.comments_eq]
  refine ⟨upper, ?_, hle, hsome, fun n hn => ?_⟩
  · rcases Nat.lt_or_eq_of_le hfirst with hlt | rfl
    · rwa [token_of_kept hfollows.kept hlt]
    · rwa [hfollows.front hclean, ← s.token_front]
  · obtain ⟨shape, hshape, hkind⟩ := hlists n hn
    exact ⟨shape, hfollows.grows.node hshape, hkind⟩

/-- A node has the documentation before its first token. -/
def Attached (s : State) (n : NodeId) : Prop :=
  ∃ shape, s.layout.node? n = some shape ∧ s.Documented shape.first shape.kind.comment?

theorem Attached.follow (h : s.Attached n) (hfollows : Follows s s') : s'.Attached n := by
  obtain ⟨shape, hshape, hdocumented⟩ := h
  exact ⟨shape, hfollows.grows.node hshape, hdocumented.follow hfollows⟩

/-- So has a node, and if it is a class, each of its members. -/
def Complete (s : State) (n : NodeId) : Prop :=
  ∃ shape, s.layout.node? n = some shape ∧ s.Documented shape.first shape.kind.comment? ∧
    ∀ m ∈ shape.kind.members, s.Attached m

theorem Complete.follow (h : s.Complete n) (hfollows : Follows s s') : s'.Complete n := by
  obtain ⟨shape, hshape, hdocumented, hmembers⟩ := h
  exact ⟨shape, hfollows.grows.node hshape, hdocumented.follow hfollows,
    fun m hm => (hmembers m hm).follow hfollows⟩

/-- A node that begins at a token with documentation, and is no class. -/
def Begins (s : State) (first : TokenId) (comment? : Option NodeId) (n : NodeId) : Prop :=
  ∃ shape, s.layout.node? n = some shape ∧ shape.first = first ∧ shape.kind.comment? = comment? ∧
    shape.kind.members = []

theorem Begins.complete (h : s.Begins first comment? n) (hdocumented : s.Documented first comment?) :
    s.Complete n := by
  obtain ⟨shape, hshape, rfl, rfl, hmembers⟩ := h
  exact ⟨shape, hshape, hdocumented, fun m hm => by rw [hmembers] at hm; cases hm⟩

theorem Complete.attached (h : s.Complete n) : s.Attached n := by
  obtain ⟨shape, hshape, hdocumented, -⟩ := h
  exact ⟨shape, hshape, hdocumented⟩

theorem gapStart_read (s : State) :
    gapStart s.tokens s.read.size = (s.read.back?.map Token.finish).getD 0 := by
  rw [Array.back?_eq_getElem?]
  cases hsize : s.read.size with
  | zero =>
    have hempty : s.read = #[] := Array.size_eq_zero_iff.1 hsize
    simp [gapStart, hempty]
  | succ t =>
    have hlt : t < s.read.size := by omega
    simp [gapStart, tokens, hlt, Array.getElem?_append_left]

end State

/-- The documentation that is found before the current token. -/
theorem docComment_documents {s s' : State} {held : List Held} {comment? : Option NodeId}
    (hgood : Good s held) (h : docComment s = some (comment?, s')) :
    s'.Documented s'.read.size comment? := by
  have hlower : (s.read.back?.map Token.finish).getD 0 ≤ s.current.offset := by
    cases hback : s.read.back? with
    | none => exact Nat.zero_le _
    | some t => exact hgood.table.finish_le_current hback
  have hguard := firstCommentFrom_mono hgood.table.comments_ordered hlower
  unfold docComment at h
  rw [bind_eq_of_eq_some (show (get : Parse State) s = some (s, s) from rfl)] at h
  dsimp only at h
  rw [guard, if_pos hguard, pure_bind] at h
  split at h
  · rename_i hrun
    obtain ⟨rfl, rfl⟩ := Prod.mk.inj (Option.some.inj h)
    refine ⟨Nat.le_refl _, fun _ => ⟨_, s.token_front, s.gapStart_read ▸ hlower, ?_, nofun⟩⟩
    rw [s.gapStart_read, documentation, hrun]
    simp
  · rename_i hrun
    rw [bind_eq_of_eq_some (show here s = some (s.read.size, s) from rfl)] at h
    obtain ⟨n, s₁, halloc, h⟩ := exists_of_bind_eq_some h
    obtain ⟨rfl, rfl⟩ := Prod.mk.inj (Option.some.inj h)
    obtain ⟨hnode, htokens, hread, hcomments, -⟩ := alloc_shape halloc
    refine ⟨Nat.le_refl _, fun _ => ⟨s.current.offset, ?_, ?_, ?_⟩⟩
    · rw [hread, htokens, s.token_front]
    · rwa [hread, htokens, s.gapStart_read]
    · rw [hread, htokens, hcomments, s.gapStart_read]
      refine ⟨⟨fun _ => rfl, fun _ => ?_⟩, fun m hm => ?_⟩
      · simpa [documentation] using hrun
      · obtain rfl := Option.some.inj hm
        exact ⟨_, hnode, rfl⟩

/-! ## What productions make -/

section Carries

variable {α β : Type} {comment? : Option NodeId} {first : TokenId}

/-- The nodes that a production makes begin at a token, with documentation. -/
def Carries (comment? : Option NodeId) (first : TokenId) (c : Parse α) (nodes : α → List NodeId) :
    Prop :=
  ∀ s a s', c s = some (a, s') → ∀ n ∈ nodes a, s'.Begins first comment? n

/-- A production that does so if it starts at that token. -/
def Opens (comment? : Option NodeId) (first : TokenId) (c : Parse α) (nodes : α → List NodeId) :
    Prop :=
  ∀ s a s', s.read.size = first → c s = some (a, s') → ∀ n ∈ nodes a, s'.Begins first comment? n

/-- A production that only looks. -/
def Looks (c : Parse α) : Prop := ∀ s, ∃ a, c s = some (a, s)

variable {nodes : β → List NodeId} {c : Parse α} {f : α → Parse β}

theorem Carries.bind (hf : ∀ a, Carries comment? first (f a) nodes) :
    Carries comment? first (c >>= f) nodes := by
  intro s b s' h
  obtain ⟨a, s₁, -, hf'⟩ := exists_of_bind_eq_some h
  exact hf a s₁ b s' hf'

theorem Carries.finish {kind : Node.Kind} (hcomment : kind.comment? = comment?)
    (hmembers : kind.members = []) :
    Carries comment? first (finish kind first) fun n => [n] := by
  intro s n s' h m hm
  obtain ⟨hnode, -⟩ := alloc_shape (show alloc kind first (max (s.read.size - 1) first) s = _ from h)
  obtain rfl := List.mem_singleton.1 hm
  exact ⟨_, hnode, rfl, hcomment, hmembers⟩

theorem Carries.some {c : Parse NodeId} (hc : Carries comment? first c fun n => [n]) :
    Carries comment? first (do return some (← c)) Option.toList := by
  intro s n? s' h m hm
  obtain ⟨n, s₁, hrun, h⟩ := exists_of_bind_eq_some h
  obtain ⟨rfl, rfl⟩ := Prod.mk.inj (Option.some.inj h)
  exact hc s n s₁ hrun m hm

theorem Opens.some {c : Parse NodeId} (hc : Opens comment? first c fun n => [n]) :
    Opens comment? first (do return some (← c)) Option.toList := by
  intro s n? s' hfirst h m hm
  obtain ⟨n, s₁, hrun, h⟩ := exists_of_bind_eq_some h
  obtain ⟨rfl, rfl⟩ := Prod.mk.inj (Option.some.inj h)
  exact hc s n s₁ hfirst hrun m hm

theorem Carries.none : Carries comment? first (pure none) Option.toList := by
  intro s n? s' h m hm
  obtain ⟨rfl, rfl⟩ := Prod.mk.inj (Option.some.inj h)
  cases hm

theorem Carries.branch {b : Prop} [Decidable b] {c₁ c₂ : Parse β}
    (hthen : Carries comment? first c₁ nodes) (helse : Carries comment? first c₂ nodes) :
    Carries comment? first (if b then c₁ else c₂) nodes := by
  split
  · exact hthen
  · exact helse

theorem Carries.opens {c : Parse β} (hc : Carries comment? first c nodes) :
    Opens comment? first c nodes :=
  fun s a s' _ h => hc s a s' h

theorem Opens.here {f : TokenId → Parse β} (hf : Opens comment? first (f first) nodes) :
    Opens comment? first (here >>= f) nodes := by
  intro s b s' hfirst h
  rw [bind_eq_of_eq_some (show Grammar.here s = Option.some (s.read.size, s) from rfl), hfirst] at h
  exact hf s b s' hfirst h

theorem Opens.look (hc : Looks c) (hf : ∀ a, Opens comment? first (f a) nodes) :
    Opens comment? first (c >>= f) nodes := by
  intro s b s' hfirst h
  obtain ⟨a, hlook⟩ := hc s
  rw [bind_eq_of_eq_some hlook] at h
  exact hf a s b s' hfirst h

end Carries

section Productions

variable (g : Inner) (comment? : Option NodeId) (first : TokenId)

theorem importDirective_opens :
    Opens comment? first (importDirective g comment?) fun n => [n] := by
  refine .here (Carries.opens (.bind fun keyword => .bind fun uri => .bind fun as? => ?_))
  dsimp only
  split <;> exact .bind fun qualifier? => .bind fun combinators => .bind fun semicolon => .finish rfl rfl

theorem exportDirective_opens :
    Opens comment? first (exportDirective g comment?) fun n => [n] := by
  refine .here (Carries.opens (.bind fun keyword => .bind fun uri => ?_))
  exact .bind fun combinators => .bind fun semicolon => .finish rfl rfl

theorem partDirective_opens :
    Opens comment? first (partDirective g comment?) fun n => [n] := by
  refine .here (Carries.opens (.bind fun keyword => .bind fun ofKeyword? => ?_))
  split
  · exact .bind fun name => .bind fun semicolon => .finish rfl rfl
  · exact .bind fun uri => .bind fun semicolon => .finish rfl rfl

theorem libraryDirective_opens :
    Opens comment? first (libraryDirective comment?) fun n => [n] := by
  refine .here (Carries.opens (.bind fun keyword => .bind fun name => ?_))
  exact .bind fun semicolon => .finish rfl rfl

theorem directive_opens : Opens comment? first (directive g comment?) fun n => [n] := by
  refine .look (fun _ => ⟨_, rfl⟩) fun kind => ?_
  split
  · exact libraryDirective_opens comment? first
  · exact importDirective_opens g comment? first
  · exact exportDirective_opens g comment? first
  · exact partDirective_opens g comment? first

theorem typeAlias_opens : Opens comment? first (typeAlias g comment?) fun n => [n] := by
  refine .here (Carries.opens (.bind fun keyword => .bind fun type? => .bind fun name => ?_))
  refine .bind fun typeParameters? => .bind fun isOpen => ?_
  dsimp only
  split
  · exact .bind fun parameters => .bind fun semicolon => .finish rfl rfl
  · exact .bind fun _ => .bind fun parameters => .bind fun semicolon => .finish rfl rfl

theorem topLevelVariables_carries :
    Carries comment? first (topLevelVariables g comment? first) fun n => [n] := by
  exact .bind fun varList => .bind fun semicolon => .finish rfl rfl

theorem functionDeclaration_carries (external? : Option TokenId) (returnType? : Option NodeId) :
    Carries comment? first (functionDeclaration g comment? external? returnType? first)
      fun n => [n] := by
  have hname (property? : Option TokenId) (isGetter : Bool) : Carries comment? first (do
      let name ← identifier
      let closureFirst ← here
      let parameters? ← functionParameters? g isGetter
      let body ← functionBody g external?.isSome false
      let closure ← finish (.expression (.closure parameters? body)) closureFirst
      finish (.declaration (.functionDecl comment? external? returnType? property? name closure))
        first) fun n => [n] := by
    refine .bind fun name => .bind fun closureFirst => .bind fun parameters? => ?_
    exact .bind fun body => .bind fun closure => .finish rfl rfl
  refine .bind fun isProperty => .bind fun isGetter => ?_
  exact .branch (.bind fun property? => hname _ _) (.bind fun property? => hname _ _)

theorem unmarkedDeclaration?_carries (external? : Option TokenId) :
    Carries comment? first (unmarkedDeclaration? g comment? external? first) Option.toList := by
  have hvariables := (topLevelVariables_carries g comment? first).some
  refine .bind fun kind => .branch hvariables (.bind fun ts => .branch ?_ (.branch hvariables ?_))
  · have hfunction (type? : Option NodeId) :=
      (functionDeclaration_carries g comment? first external? type?).some
    exact .branch (.bind hfunction) (.bind hfunction)
  · exact .branch (.bind fun _ => .none) .none

/-! ### Members -/

theorem constructorDeclaration_carries (external? : Option TokenId) :
    Carries comment? first (constructorDeclaration g comment? external? first) fun n => [n] := by
  refine .bind fun const? => .bind fun factory? => .bind fun className => .bind fun named => ?_
  refine .bind fun parameters => .bind fun separator? => ?_
  have hbody (initializers : List NodeId) : Carries comment? first (do
      let body ← functionBody g true false
      finish (.member (.constructor comment? external? const? factory? className named.1 named.2
        parameters separator? initializers body)) first) fun n => [n] :=
    .bind fun body => .finish rfl rfl
  exact .branch (.bind hbody) (.bind hbody)

theorem fieldDeclaration_carries (static? : Option TokenId) :
    Carries comment? first (fieldDeclaration g comment? static? first) fun n => [n] := by
  exact .bind fun fields => .bind fun semicolon => .finish rfl rfl

theorem methodDeclaration_carries (external? modifier? : Option TokenId)
    (returnType? : Option NodeId) :
    Carries comment? first (methodDeclaration g comment? external? modifier? returnType? first)
      fun n => [n] := by
  exact .bind fun name => .bind fun parameters? => .bind fun body => .finish rfl rfl

theorem memberDeclaration?_carries (external? modifier? : Option TokenId) (isStatic : Bool) :
    Carries comment? first (memberDeclaration? g comment? external? modifier? isStatic first)
      Option.toList := by
  have hfield (static? : Option TokenId) := (fieldDeclaration_carries g comment? first static?).some
  refine .bind fun kind => .branch (hfield _) (.bind fun ts => .branch ?_ (.branch (hfield _) ?_))
  · have hmethod (type? : Option NodeId) :=
      (methodDeclaration_carries g comment? first external? modifier? type?).some
    exact .branch (.bind hmethod) (.bind hmethod)
  · exact .branch (.bind fun _ => .none) .none

theorem memberAfter?_opens (className : String) :
    Opens comment? first (memberAfter? g className comment?) Option.toList := by
  refine .here (Carries.opens (.bind fun external? => .bind fun ts => ?_))
  refine .branch (constructorDeclaration_carries g comment? first external?).some ?_
  refine .bind fun isStatic => .bind fun isAbstract => ?_
  have hmember (modifier? : Option TokenId) :=
    memberDeclaration?_carries g comment? first external? modifier? isStatic
  exact .branch (.bind hmember) (.bind hmember)

end Productions

/-! ## Loops and classes -/

/-- A production that makes something and came to an end. -/
theorem Makes.run {α : Type} {held F : List Held} {c : Parse α} {out : α → List Held} {s s' : State}
    {a : α} (hc : Makes held c out) (hgood : Good s (F ++ held)) (hrun : c s = some (a, s')) :
    Good s' (F ++ out a) ∧ Leads s s' := by
  obtain ⟨b, s'', hrun', hgood', hleads, -⟩ := hc s.left F s (Nat.le_refl _) trivial hgood
  obtain ⟨rfl, rfl⟩ := Prod.mk.inj (Option.some.inj (hrun.symm.trans hrun'))
  exact ⟨hgood', hleads⟩

section Ensures

variable {α β : Type} {P : State → Prop} {held : List Held}

/-- Whatever holds of a state holds of those that follow it. -/
def Stable (P : State → Prop) : Prop := ∀ s s', Follows s s' → P s → P s'

/-- From a good state in which `P` holds, with `held` in hand, a production that comes to an end does so
    where `Q` holds of its result. -/
def Ensures (P : State → Prop) (held : List Held) (c : Parse α) (Q : α → State → Prop) : Prop :=
  ∀ F s a s', Good s (F ++ held) → P s → c s = some (a, s') → Q a s'

theorem here_makes : Makes [] here fun first => [.mark first] := by
  intro ceil
  rw [← bind_pure here]
  exact .here fun first => .pure (.refl _) fun _ _ => trivial

/-- A first step that is known of, and what follows it. -/
theorem Ensures.on {c : Parse α} {f : α → Parse β} {R : α → State → Prop} {Q : β → State → Prop}
    {mid : α → List Held} {others taken : List Held} (hmakes : Makes taken c mid)
    (hc : Ensures P taken c R) (hheld : held = others ++ taken)
    (hf : ∀ a, Ensures (R a) (others ++ mid a) (f a) Q) : Ensures P held (c >>= f) Q := by
  intro F s b s' hgood hP h
  obtain ⟨a, s₁, hrun, hrest⟩ := exists_of_bind_eq_some h
  rw [hheld, ← List.append_assoc] at hgood
  obtain ⟨hgood₁, -⟩ := hmakes.run hgood hrun
  rw [List.append_assoc] at hgood₁
  exact hf a F s₁ b s' hgood₁ (hc _ s a s₁ hgood hP hrun) hrest

theorem Ensures.bind {c : Parse α} {f : α → Parse β} {R : α → State → Prop} {Q : β → State → Prop}
    {mid : α → List Held} (hmakes : Makes [] c mid) (hc : Ensures P [] c R)
    (hf : ∀ a, Ensures (R a) (held ++ mid a) (f a) Q) : Ensures P held (c >>= f) Q :=
  .on hmakes hc (List.append_nil held).symm hf

/-- A first step that changes nothing of what is known. -/
theorem Ensures.next {c : Parse α} {f : α → Parse β} {Q : β → State → Prop} {mid : α → List Held}
    (hmakes : Makes [] c mid) (hstable : Stable P)
    (hf : ∀ a, Ensures P (held ++ mid a) (f a) Q) : Ensures P held (c >>= f) Q :=
  .bind hmakes (fun _ s _ s' hgood hP hrun => hstable s s' (hmakes.run hgood hrun).2.toFollows hP) hf

theorem Ensures.quiet {c : Parse α} {f : α → Parse β} {Q : β → State → Prop} (hc : Quiet c)
    (hstable : Stable P) (hf : ∀ a, Ensures P held (f a) Q) : Ensures P held (c >>= f) Q := by
  intro F s b s' hgood hP h
  obtain ⟨a, s₁, hrun, hsame⟩ := hc s
  rw [bind_eq_of_eq_some hrun] at h
  exact hf a F s₁ b s' (hsame.good hgood) (hstable s s₁ hsame.leads.toFollows hP) h

theorem Ensures.pure {a : α} {Q : α → State → Prop} (h : ∀ s, P s → Q a s) :
    Ensures P held (pure a) Q := by
  intro F s b s' _ hP hrun
  obtain ⟨rfl, rfl⟩ := Prod.mk.inj (Option.some.inj hrun)
  exact h s hP

theorem Ensures.branch {b : Prop} [Decidable b] {c₁ c₂ : Parse α} {Q : α → State → Prop}
    (hthen : Ensures P held c₁ Q) (helse : Ensures P held c₂ Q) :
    Ensures P held (if b then c₁ else c₂) Q := by
  split
  · exact hthen
  · exact helse

/-- What is known of the result, and what was known before. -/
theorem Ensures.keep {c : Parse α} {Q : α → State → Prop} {out : α → List Held}
    (hmakes : Makes held c out) (hstable : Stable P) (hc : Ensures P held c Q) :
    Ensures P held c fun a s => P s ∧ Q a s :=
  fun F s a s' hgood hP hrun =>
    ⟨hstable s s' (hmakes.run hgood hrun).2.toFollows hP, hc F s a s' hgood hP hrun⟩

/-- The node that ends a production. -/
theorem Ensures.finish {kind : Node.Kind} {first : Nat} {Q : NodeId → State → Prop}
    (hheld : held = commented kind.comment?.toList ++ .mark first :: kind.makings)
    (hstable : Stable P)
    (hQ : ∀ n s, P s → ∀ last, s.layout.node? n = some ⟨kind, first, last⟩ → Q n s) :
    Ensures P held (finish kind first) Q := by
  intro F s n s' hgood hP hrun
  have hnodes : nodesOf held = kind.children := by
    rw [hheld, ← kind.nodesOf_content, Node.Kind.content, nodesOf_append, nodesOf_append]
    rfl
  obtain ⟨s₁, halloc, hmade, -⟩ := @alloc_spec _ _ _ kind first (max (s.read.size - 1) first) hgood
    (by rw [hnodes])
  obtain ⟨rfl, rfl⟩ := Prod.mk.inj (Option.some.inj (halloc.symm.trans hrun))
  exact hQ _ _ (hstable _ _ hmade.leads.toFollows hP) _ hmade.node

theorem skips_makes {c : Parse α} (n : State → Nat) (hc : ∀ s, ∃ a, c s = some (a, s.take (n s))) :
    Makes [] c fun _ => [] := by
  intro ceil F s _ _ hgood
  obtain ⟨a, hc⟩ := hc s
  exact ⟨a, _, hc, (State.readsOn_take hgood.table _).good hgood, State.leads_take hgood.table _, trivial⟩

/-- Where a round has read nothing, something is skipped. -/
theorem Ensures.pressOn {γ : Type} {b : Prop} [Decidable b] {report : Parse Unit} {skip : Parse γ}
    {f : Parse β} {Q : β → State → Prop} (hreport : Quiet report)
    (hskip : Makes [] skip fun _ => []) (hstable : Stable P) (hf : Ensures P held f Q) :
    Ensures P held (if b then do report; let _ ← skip; f else f) Q :=
  .branch (.quiet hreport hstable fun _ => .next hskip hstable fun _ => by rwa [List.append_nil]) hf

/-- What every round of a loop keeps holds at its end. -/
theorem repeating_ensures {step : α → Parse (α × Bool)} {inv : α → List Held} {P : α → State → Prop}
    (hmakes : ∀ a, Advances (inv a) (step a) (fun r => inv r.1) (·.2 = true))
    (hstep : ∀ a, Ensures (P a) (inv a) (step a) fun r => P r.1) (a : α) :
    Ensures (P a) (inv a) (repeating step a) P := by
  intro F s b s' hgood hP h
  -- By induction on the number of tokens left before a round.
  induction hn : s.left using Nat.strongRecOn generalizing s a with
  | ind n ih =>
    rw [repeating_eq] at h
    obtain ⟨⟨next, goesOn⟩, s₁, hrun, hrest⟩ := exists_of_bind_eq_some h
    obtain ⟨r, s₂, hrun', hgood', -, hends⟩ := hmakes a s.left F s (Nat.le_refl _) trivial hgood
    obtain ⟨rfl, rfl⟩ := Prod.mk.inj (Option.some.inj (hrun.symm.trans hrun'))
    have hnext : P next s₁ := hstep a F s _ s₁ hgood hP hrun
    cases goesOn with
    | true => exact ih s₁.left (hn ▸ hends rfl) next s₁ hgood' hnext hrest rfl
    | false =>
      obtain ⟨rfl, rfl⟩ := Prod.mk.inj (Option.some.inj hrest)
      exact hnext

end Ensures

theorem stable_documented (first : TokenId) (comment? : Option NodeId) :
    Stable fun s => s.Documented first comment? :=
  fun _ _ hfollows h => h.follow hfollows

/-- Nodes of a list that are complete stay so. -/
theorem stable_complete (ns : List NodeId) : Stable fun s => ∀ n ∈ ns, s.Complete n :=
  fun _ _ hfollows h n hn => (h n hn).follow hfollows

attribute [local simp] Node.Kind.makings Node.Kind.comment? laid Slot.laid Held.isSolid

section Containers

variable {g : Inner} (hg : g.Makes) (hread : g.ReadsTypes)
include hg hread

theorem classMember?_ensures (className : String) (P : State → Prop) :
    Ensures P [] (classMember? g className) fun n? s => ∀ n ∈ n?, s.Complete n := by
  intro F s n? s' hgood _ h
  obtain ⟨comment?, s₁, hcomment, hrest⟩ := exists_of_bind_eq_some h
  obtain ⟨hgood₁, -⟩ := docComment_makes.run hgood hcomment
  obtain ⟨-, hleads⟩ := (memberAfter?_makes hg hread className comment?).run hgood₁ hrest
  intro n hn
  have hbegins := memberAfter?_opens g comment? s₁.read.size className s₁ n? s' rfl hrest n
    (Option.mem_toList.2 hn)
  exact hbegins.complete ((docComment_documents hgood hcomment).follow hleads.toFollows)

theorem memberStep_ensures (className : String) (found : List NodeId) :
    Ensures (fun s => ∀ n ∈ found, s.Complete n) (tagged .member found.reverse)
      (memberStep g className found) fun r s => ∀ n ∈ r.1, s.Complete n := by
  have hstable := stable_complete found
  refine .quiet (quiet_isAt _) hstable fun closed => .quiet quiet_isAtEnd hstable fun ended => ?_
  refine .branch (.pure fun s hs => hs) (.quiet (.of_get _) hstable fun before => ?_)
  have hmember := classMember?_makes hg hread className
  refine .bind hmember (.keep hmember hstable (classMember?_ensures hg hread className _)) fun member? => ?_
  have hstable' : Stable fun s => (∀ n ∈ found, s.Complete n) ∧ ∀ n ∈ member?, s.Complete n :=
    fun s s' hfollows hs => ⟨hstable s s' hfollows hs.1, fun n hn => (hs.2 n hn).follow hfollows⟩
  refine .quiet (.of_get _) hstable' fun after => ?_
  refine .pressOn (quiet_reportHere _ _) (skips_makes (fun _ => 1) fun s => ⟨_, advance_eq s⟩)
    hstable' (.pure fun s hs n hn => ?_)
  rcases List.mem_append.1 hn with hn | hn
  · exact hs.2 n (Option.mem_toList.1 hn)
  · exact hs.1 n hn

theorem classMembers_ensures (className : String) (P : State → Prop) :
    Ensures P [] (classMembers g className) fun ns s => ∀ n ∈ ns, s.Complete n := by
  have hloop := @repeating_ensures _ _ (fun found => tagged .member found.reverse)
    (fun found s => ∀ n ∈ found, s.Complete n) (memberStep_advances hg hread className)
    (memberStep_ensures hg hread className) []
  intro F s ns s' hgood _ h
  obtain ⟨found, s₁, hrun, hrest⟩ := exists_of_bind_eq_some h
  obtain ⟨rfl, rfl⟩ := Prod.mk.inj (Option.some.inj hrest)
  exact fun n hn => hloop F s found s₁ hgood nofun hrun n (List.mem_reverse.1 hn)

/-- A class has the documentation before its first token, and so has each of its members. -/
theorem classDeclaration_ensures (comment? : Option NodeId) :
    Ensures (fun s => s.Documented s.read.size comment?) (commented comment?.toList)
      (classDeclaration g comment?) fun n s => s.Complete n := by
  have hhere : Ensures (fun s => s.Documented s.read.size comment?) [] here
      fun first s => s.Documented first comment? := by
    intro F s first s' _ hP hrun
    obtain ⟨rfl, rfl⟩ := Prod.mk.inj (Option.some.inj hrun)
    exact hP
  refine .bind here_makes hhere fun first => ?_
  have hstable := stable_documented first comment?
  refine .next (acceptKeyword_makes .abstractKw) hstable fun abstract? => ?_
  refine .next (expect_makes nofun) hstable fun keyword => ?_
  refine .quiet quiet_current hstable fun next => ?_
  refine .next identifier_makes hstable fun name => ?_
  refine .next (typeParameters?_makes hg) hstable fun typeParameters? => ?_
  refine .next (heading_makes hg) hstable fun heading => ?_
  refine .next (expect_makes nofun) hstable fun leftBrace => ?_
  have hmembers := classMembers_makes hg hread (if next.isName then next.lexeme else "")
  refine .bind hmembers (.keep hmembers hstable (classMembers_ensures hg hread _ _)) fun members => ?_
  have hstable' : Stable fun s => s.Documented first comment? ∧ ∀ n ∈ members, s.Complete n :=
    fun s s' hfollows hs => ⟨hs.1.follow hfollows, fun n hn => (hs.2 n hn).follow hfollows⟩
  refine .next (expect_makes nofun) hstable' fun rightBrace => ?_
  refine .finish (by simp [Heading.held]) hstable'
    fun n s hs last hnode => ⟨_, hnode, hs.1, fun m hm => (hs.2 m hm).attached⟩

omit hg hread in
/-- A declaration is a class, or begins with its documentation. -/
theorem declaration?_cases {comment? : Option NodeId} {s s' : State} {n? : Option NodeId}
    (h : declaration? g comment? s = some (n?, s')) :
    (∃ n, n? = some n ∧ classDeclaration g comment? s = some (n, s')) ∨
      ∀ n ∈ n?, s'.Begins s.read.size comment? n := by
  have hclass (h : (do return some (← classDeclaration g comment?)) s = some (n?, s')) :
      ∃ n, n? = some n ∧ classDeclaration g comment? s = some (n, s') := by
    obtain ⟨n, s₁, hrun, hrest⟩ := exists_of_bind_eq_some h
    obtain ⟨rfl, rfl⟩ := Prod.mk.inj (Option.some.inj hrest)
    exact ⟨n, rfl, hrun⟩
  have hunmarked (h : unmarkedDeclaration? g comment? none s.read.size s = some (n?, s')) :
      ∀ n ∈ n?, s'.Begins s.read.size comment? n := fun n hn =>
    unmarkedDeclaration?_carries g comment? s.read.size none s n? s' h n (Option.mem_toList.2 hn)
  unfold declaration? at h
  rw [bind_eq_of_eq_some (show here s = some (s.read.size, s) from rfl),
    bind_eq_of_eq_some (show peek 1 s = some (_, s) from rfl),
    bind_eq_of_eq_some (show currentKind s = some (s.current.kind, s) from rfl)] at h
  generalize s.current.kind = kind at h
  split at h
  · exact .inl (hclass h)
  · split at h
    · exact .inl (hclass h)
    · exact .inr (hunmarked h)
  · split at h
    · exact .inr (hunmarked h)
    · exact .inr fun n hn =>
        (typeAlias_opens g comment? s.read.size).some s n? s' rfl h n (Option.mem_toList.2 hn)
  · split at h
    · obtain ⟨external, s₁, -, hrest⟩ := exists_of_bind_eq_some h
      exact .inr fun n hn => unmarkedDeclaration?_carries g comment? s.read.size (some external) s₁ n?
        s' hrest n (Option.mem_toList.2 hn)
    · exact .inr (hunmarked h)
  · exact .inr (hunmarked h)

/-- The directives and declarations of a unit that were found. -/
def UnitParts.all (found : UnitParts) : List NodeId := found.directives ++ found.declarations

omit hg hread in
theorem checkDirectivePlace_makes (found : UnitParts) (directive : NodeId) :
    Makes (found.held ++ [.node .directive directive]) (checkDirectivePlace found directive)
      fun _ => ({ found with directives := directive :: found.directives } : UnitParts).held := by
  intro ceil
  rw [← bind_pure (checkDirectivePlace found directive)]
  exact .directivePlace (.pure (.refl _) fun _ _ => trivial)

theorem unitPart_ensures (found : UnitParts) (comment? : Option NodeId) :
    Ensures (fun s => s.Documented s.read.size comment? ∧ ∀ n ∈ found.all, s.Complete n)
      (found.held ++ commented comment?.toList) (unitPart g found comment?)
      fun next s => ∀ n ∈ next.all, s.Complete n := by
  intro F s next s' hgood hP h
  obtain ⟨hdocumented, hfound⟩ := hP
  unfold unitPart at h
  rw [bind_eq_of_eq_some (show looking isDirectiveAt s = some (_, s) from rfl)] at h
  rw [← List.append_assoc] at hgood
  split at h
  · obtain ⟨d, s₁, hrun, h⟩ := exists_of_bind_eq_some h
    obtain ⟨hgood₁, hleads₁⟩ := (directive_makes hg comment?).run hgood hrun
    obtain ⟨_, s₂, hcheck, h⟩ := exists_of_bind_eq_some h
    rw [List.append_assoc] at hgood₁
    obtain ⟨-, hleads₂⟩ := (checkDirectivePlace_makes found d).run hgood₁ hcheck
    obtain ⟨rfl, rfl⟩ := Prod.mk.inj (Option.some.inj h)
    intro n hn
    rcases List.mem_cons.1 hn with rfl | hn
    · have hbegins := directive_opens g comment? s.read.size s n s₁ rfl hrun n
        (List.mem_singleton_self n)
      exact (hbegins.complete (hdocumented.follow hleads₁.toFollows)).follow hleads₂.toFollows
    · exact ((hfound n hn).follow hleads₁.toFollows).follow hleads₂.toFollows
  · obtain ⟨d?, s₁, hrun, h⟩ := exists_of_bind_eq_some h
    obtain ⟨-, hleads⟩ := (declaration?_makes hg hread comment?).run hgood hrun
    obtain ⟨rfl, rfl⟩ := Prod.mk.inj (Option.some.inj h)
    have hnew : ∀ n ∈ d?, s₁.Complete n := by
      intro n hn
      rcases declaration?_cases hrun with ⟨m, hm, hclass⟩ | hbegins
      · obtain rfl : m = n := Option.some.inj (hm.symm.trans hn)
        exact classDeclaration_ensures hg hread comment? _ s m s₁ hgood hdocumented hclass
      · exact (hbegins n hn).complete (hdocumented.follow hleads.toFollows)
    intro n hn
    simp only [UnitParts.all, List.mem_append] at hn hfound
    rcases hn with hn | hn | hn
    · exact (hfound n (.inl hn)).follow hleads.toFollows
    · exact hnew n (Option.mem_toList.1 hn)
    · exact (hfound n (.inr hn)).follow hleads.toFollows

omit hg hread in
theorem docComment_ensures {P : State → Prop} :
    Ensures P [] docComment fun comment? s => s.Documented s.read.size comment? :=
  fun _ _ _ _ hgood _ hrun => docComment_documents hgood hrun

theorem unitStep_ensures (found : UnitParts) :
    Ensures (fun s => ∀ n ∈ found.all, s.Complete n) found.held (unitStep g found)
      fun r s => ∀ n ∈ r.1.all, s.Complete n := by
  have hstable := stable_complete found.all
  refine .quiet quiet_isAtEnd hstable fun ended => ?_
  refine .branch (.pure fun s hs => hs) (.quiet (.of_get _) hstable fun before => ?_)
  refine .bind docComment_makes (.keep docComment_makes hstable docComment_ensures) fun comment? => ?_
  have hpart : Ensures (fun s => (∀ n ∈ found.all, s.Complete n) ∧
      s.Documented s.read.size comment?) (found.held ++ commented comment?.toList)
      (unitPart g found comment?) fun next s => ∀ n ∈ next.all, s.Complete n :=
    fun F s next s' hgood hP => unitPart_ensures hg hread found comment? F s next s' hgood hP.symm
  refine .on (unitPart_makes hg hread found comment?) hpart (List.nil_append _).symm fun next => ?_
  refine .quiet (.of_get _) (stable_complete next.all) fun after => ?_
  exact .pressOn (quiet_reportHere _ _) (skips_makes (fun s => boundary s.unread) fun _ => ⟨_, rfl⟩)
    (stable_complete next.all) (.pure fun s hs => hs)

/-- All parts of a unit are complete, unless something was reported. -/
theorem compilationUnit_ensures {s s' : State} {root : NodeId} (hgood : Good s [])
    (h : compilationUnit g s = some (root, s')) :
    ∃ shape, s'.layout.node? root = some shape ∧ ∀ n ∈ shape.kind.children, s'.Complete n := by
  have hloop := @repeating_ensures _ _ UnitParts.held (fun found s => ∀ n ∈ found.all, s.Complete n)
    (unitStep_advances hg hread) (unitStep_ensures hg hread) ⟨[], []⟩
  obtain ⟨first, s₁, hhere, h⟩ := exists_of_bind_eq_some h
  obtain ⟨hgood₁, -⟩ := @Makes.run _ _ [] _ _ _ _ _ here_makes hgood hhere
  obtain ⟨found, s₂, hrun, h⟩ := exists_of_bind_eq_some h
  have hmark : Good s₁ ([.mark first] ++ []) := hgood₁
  obtain ⟨hgood₂, -⟩ := (unitParts_makes hg hread).run hmark hrun
  have hstart : Good s₁ ([.mark first] ++ UnitParts.held ⟨[], []⟩) :=
    hmark.offer (.scattered_nil (List.mem_cons_self ..))
  have hfound := hloop _ s₁ found s₂ hstart nofun hrun
  rw [bind_eq_of_eq_some (show here s₂ = some (s₂.read.size, s₂) from rfl)] at h
  obtain ⟨s₃, halloc, hmade, -⟩ := @alloc_unit s₂ [] first found hgood₂
  obtain ⟨rfl, rfl⟩ := Prod.mk.inj (Option.some.inj (halloc.symm.trans h))
  refine ⟨_, hmade.node, fun n hn => (hfound n ?_).follow hmade.leads.toFollows⟩
  simpa [UnitParts.all, Node.Kind.children, Node.Kind.fields, Field.children] using hn

end Containers

end Grammar

end DartAnalysis
