/-
  The nodes that lie in bodies. A node lies in a body if it or a node around it is the body of a method,
  constructor or function expression, or an initializer of a constructor (`Tree.isInBody`). Bodies are
  the last children of their function, so that all others can be walked over without them
  (`Node.Kind.bodies_last`).
-/
import DartAnalysis.Proofs.Tree.Ownership

namespace DartAnalysis

/-! ## Bodies of functions -/

/-- Whether a child is the body of the function, or one of its initializers. -/
def Node.Kind.hasBody (kind : Node.Kind) (c : NodeId) : Bool :=
  match kind with
  | .member (.method _ _ _ _ _ _ _ _ body) => c == body
  | .member (.constructor _ _ _ _ _ _ _ _ _ initializers body) =>
    c == body || initializers.contains c
  | .expression (.closure _ body) => c == body
  | _ => false

/-- Only methods, constructors and closures have a body. -/
theorem Node.Kind.exists_of_hasBody {kind : Node.Kind} {c : NodeId} (h : kind.hasBody c = true) :
    (∃ comment? external? modifier? returnType? property? operator? name parameters? body,
      kind = .member (.method comment? external? modifier? returnType? property? operator? name
        parameters? body)) ∨
    (∃ comment? external? const? factory? returnType period? name? parameters separator? initializers
      body, kind = .member (.constructor comment? external? const? factory? returnType period? name?
        parameters separator? initializers body)) ∨
    ∃ parameters? body, kind = .expression (.closure parameters? body) := by
  unfold hasBody at h
  split at h
  · exact .inl ⟨_, _, _, _, _, _, _, _, _, rfl⟩
  · exact .inr (.inl ⟨_, _, _, _, _, _, _, _, _, _, _, rfl⟩)
  · exact .inr (.inr ⟨_, _, rfl⟩)
  · cases h

theorem filter_append_filter {l l' : List NodeId} {p : NodeId → Bool} (hnodup : (l ++ l').Nodup)
    (hp : ∀ c, p c = true ↔ c ∈ l') :
    (l ++ l').filter (fun c => !p c) = l ∧ (l ++ l').filter p = l' := by
  obtain ⟨-, -, hdisjoint⟩ := List.nodup_append'.1 hnodup
  have hl : ∀ c ∈ l, p c = false := fun c hc =>
    Bool.eq_false_iff.2 fun h => hdisjoint hc ((hp c).1 h)
  have hl' : ∀ c ∈ l', p c = true := fun c hc => (hp c).2 hc
  rw [List.filter_append, List.filter_append]
  constructor
  · rw [List.filter_eq_self.2 fun c hc => by simp [hl c hc],
      List.filter_eq_nil_iff.2 fun c hc => by simp [hl' c hc], List.append_nil]
  · rw [List.filter_eq_nil_iff.2 fun c hc => by simp [hl c hc], List.filter_eq_self.2 hl',
      List.nil_append]

namespace Node.Kind

attribute [local simp] children fields Member.fields Expression.fields Field.children

/-- A function's other children come before its body. -/
theorem bodies_last {kind : Node.Kind} (h : kind.children.Nodup) :
    kind.children =
      kind.children.filter (fun c => !kind.hasBody c) ++ kind.children.filter kind.hasBody := by
  have hsplit {l l' : List NodeId} (heq : kind.children = l ++ l')
      (hp : ∀ c, kind.hasBody c = true ↔ c ∈ l') : kind.children =
        kind.children.filter (fun c => !kind.hasBody c) ++ kind.children.filter kind.hasBody := by
    rw [heq] at h ⊢
    obtain ⟨hfront, hback⟩ := filter_append_filter h hp
    rw [hfront, hback]
  have hnone (hp : ∀ c, kind.hasBody c = false) : kind.children =
      kind.children.filter (fun c => !kind.hasBody c) ++ kind.children.filter kind.hasBody :=
    hsplit (List.append_nil _).symm fun c => by simp [hp c]
  cases kind with
  | member m =>
    cases m with
    | method comment? external? modifier? returnType? property? operator? name parameters? body =>
      refine @hsplit (comment?.toList ++ returnType?.toList ++ [name] ++ parameters?.toList) [body]
        (by simp) fun c => ?_
      simp [hasBody]
    | constructor comment? external? const? factory? returnType period? name? parameters separator?
        initializers body =>
      refine @hsplit (comment?.toList ++ [returnType] ++ name?.toList ++ [parameters])
        (initializers ++ [body]) (by simp) fun c => ?_
      simp [hasBody, or_comm]
    | _ => exact hnone fun _ => rfl
  | expression e =>
    cases e with
    | closure parameters? body =>
      exact @hsplit parameters?.toList [body] (by simp) fun c => by simp [hasBody]
    | _ => exact hnone fun _ => rfl
  | _ => exact hnone fun _ => rfl

end Node.Kind

/-! ## Nodes in bodies -/

namespace Tree

variable {t : Tree}

/-- Whether a node lies in the body of a method, constructor or function expression, or in an
    initializer of a constructor. -/
def isInBody (t : Tree) (n : NodeId) : Bool :=
  (t.ancestors n).any fun c => (t.parent? c).any fun p => (t.kind p).hasBody c

theorem parent_lt {p c : NodeId} (hc : c ∈ t.children p) : p < t.nodes.size := by
  refine Nat.lt_of_not_le fun hle => ?_
  have hc : c ∈ t.nodes.children p := hc
  rw [Arena.children_of_size_le hle] at hc
  exact absurd hc List.not_mem_nil

section Owned

variable (howned : t.nodes.Owned)
include howned

/-- Parents are made after their children, so that no more steps are needed than there are nodes. -/
theorem ancestorsTo_eq_ancestors {steps : Nat} {n : NodeId} (h : t.nodes.size < steps + n)
    (hsteps : 0 < steps) : t.ancestorsTo steps n = t.ancestors n := by
  have hgo (steps steps' : Nat) (n : NodeId) (h : t.nodes.size < steps + n)
      (h' : t.nodes.size < steps' + n) (hpos : 0 < steps) (hpos' : 0 < steps') :
      t.ancestorsTo steps n = t.ancestorsTo steps' n := by
    induction steps generalizing steps' n with
    | zero => exact absurd hpos (Nat.lt_irrefl 0)
    | succ steps ih =>
      obtain ⟨steps', rfl⟩ := Nat.exists_eq_succ_of_ne_zero (Nat.pos_iff_ne_zero.1 hpos')
      unfold ancestorsTo
      cases hparent : t.parent? n with
      | none => rfl
      | some p =>
        have hchild := howned.child_of_parent n p hparent
        have hlt : Nat.lt n p := howned.child_lt p n hchild
        have hsize : Nat.lt p t.nodes.size := parent_lt hchild
        simp only [Nat.lt_eq] at hlt hsize
        exact congrArg (n :: ·) (ih steps' p (by omega) (by omega) (by omega) (by omega))
  exact hgo steps _ n h (by omega) hsteps (Nat.succ_pos _)

theorem ancestors_of_child {p c : NodeId} (hc : c ∈ t.children p) :
    t.ancestors c = c :: t.ancestors p := by
  have hparent : t.parent? c = some p := howned.parent_of_child p c hc
  have hsize : p < t.nodes.size := parent_lt hc
  have hstep : t.ancestors c = c :: t.ancestorsTo t.nodes.size p := by
    unfold ancestors
    rw [ancestorsTo, hparent]
  rw [hstep, ancestorsTo_eq_ancestors howned (Nat.lt_add_of_pos_right (Nat.pos_of_ne_zero ?_))
    (Nat.lt_of_le_of_lt (Nat.zero_le p) hsize)]
  rintro rfl
  exact absurd (howned.child_lt 0 c hc) (Nat.not_lt_zero c)

/-- A child lies in a body if it is one or its parent lies in one. -/
theorem isInBody_of_child {p c : NodeId} (hc : c ∈ t.children p) :
    t.isInBody c = ((t.kind p).hasBody c || t.isInBody p) := by
  have hparent : t.parent? c = some p := howned.parent_of_child p c hc
  rw [isInBody, ancestors_of_child howned hc, List.any_cons, hparent]
  rfl

/-- All that is around a node outside of bodies is outside of them. -/
theorem not_isInBody_of_ancestor {n a : NodeId} (hn : t.isInBody n = false)
    (ha : a ∈ t.ancestors n) : t.isInBody a = false := by
  have hgo (steps : Nat) (n : NodeId) (hn : t.isInBody n = false) (ha : a ∈ t.ancestorsTo steps n) :
      t.isInBody a = false := by
    induction steps generalizing n with
    | zero => cases ha
    | succ steps ih =>
      unfold ancestorsTo at ha
      cases hparent : t.parent? n with
      | none =>
        rw [hparent] at ha
        rwa [List.mem_singleton.1 ha]
      | some p =>
        rw [hparent] at ha
        rcases List.mem_cons.1 ha with rfl | ha
        · exact hn
        · rw [isInBody_of_child howned (howned.child_of_parent n p hparent), Bool.or_eq_false_iff] at hn
          exact ih p hn.2 ha
  exact hgo _ n hn ha

end Owned

end Tree

/-! ## Properties that spread downwards -/

/-- A property of nodes that every child takes over. -/
def Tree.Spreads (t : Tree) (W : NodeId → Prop) : Prop := ∀ n, W n → ∀ c ∈ t.children n, W c

/-- A property of nodes that every child takes over, except for bodies. -/
def Tree.SpreadsOutside (t : Tree) (W : NodeId → Prop) : Prop :=
  ∀ n, W n → ∀ c ∈ t.children n, (t.kind n).hasBody c = false → W c

theorem Tree.Spreads.outside {t : Tree} {W : NodeId → Prop} (hW : t.Spreads W) :
    t.SpreadsOutside W := fun n hn c hc _ => hW n hn c hc

theorem Tree.SpreadsOutside.child {t : Tree} {W : NodeId → Prop} (hW : t.SpreadsOutside W)
    {n c : NodeId} {kind : Node.Kind} (hn : W n) (hkind : t.kind n = kind) (hc : c ∈ kind.children)
    (hbody : kind.hasBody c = false) : W c := by
  subst hkind
  exact hW n hn c hc hbody

theorem Tree.Spreads.child {t : Tree} {W : NodeId → Prop} (hW : t.Spreads W) {n c : NodeId}
    {kind : Node.Kind} (hn : W n) (hkind : t.kind n = kind) (hc : c ∈ kind.children) : W c :=
  hW n hn c (by subst hkind; exact hc)

end DartAnalysis
