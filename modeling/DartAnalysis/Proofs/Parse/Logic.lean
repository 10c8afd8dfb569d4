/-
  A logic for productions. What a production does is described by the things it has in hand: it uses
  up those it is given and leaves those it makes, whatever else is in hand meanwhile (`Yields`). The
  state around it is `Good`: the token table is in order, the arena well-owned, and every node lies
  around its content. What is in hand lies one thing after the other within the tokens that were
  read, so a node that is finished spans all that it was made of.

  A production that yields something has a result, so it looked at nothing outside the tables. The
  bound of the judgement is on the tokens that are left; a loop yields something if every round that
  asks for another leaves fewer of them (`repeating_yields`).
-/
import DartAnalysis.Proofs.Parse.Edits
import DartAnalysis.Proofs.Parse.Held
import DartAnalysis.Proofs.Tree.Ownership

namespace DartAnalysis

namespace Grammar

/-! ## Good states -/

/-- The tokens read so far and the nodes, and whether anything was reported. -/
def State.tables (s : State) : Layout where
  token? id := s.read[id]?.map Token.kind
  node? id := s.nodes[id]?.map fun n => ⟨n.kind, n.first, n.last⟩
  clean := s.errors = #[]

/-- The same over the tokens that were read and those that were not. -/
def State.layout (s : State) : Ground := s.tables.over (s.read.toList ++ s.unread) s.read.size

/-- Comments of the table, in order. -/
def State.Run (s : State) (run : List CommentId) : Prop :=
  run.Pairwise (· < ·) ∧ ∀ c ∈ run, c < s.comments.size

/-- A state whose tables are in order, with things in hand. Nodes in hand have no parent. -/
structure Good (s : State) (held : List Held) : Prop where
  table : s.Table
  owned : s.nodes.Owned
  spans : ∀ i, (s.nodes.node i).first ≤ s.read.size ∧ (s.nodes.node i).last ≤ s.read.size
  formed : ∀ {n shape}, s.layout.node? n = some shape → shape.Formed s.layout
  runs : ∀ n run, s.nodes.kind n = .comment run → s.Run run
  unwinding : s.unwinding = true → s.errors ≠ #[]
  nodup : (nodesOf held).Nodup
  free : ∀ n ∈ nodesOf held, n < s.nodes.size ∧ s.nodes.parent? n = none
  lie : Lie s.layout 0 s.read.size held

theorem State.node?_layout {s : State} {n : NodeId} (h : n < s.nodes.size) :
    s.layout.node? n =
      some ⟨(s.nodes.node n).kind, (s.nodes.node n).first, (s.nodes.node n).last⟩ := by
  simp [layout, tables, Layout.over, Arena.getElem?_eq_node h]

theorem State.lt_of_node?_layout {s : State} {n : NodeId} {shape : Shape}
    (h : s.layout.node? n = some shape) : n < s.nodes.size := by
  obtain ⟨node, hnode, -⟩ := Option.map_eq_some_iff.1 h
  exact (Array.getElem?_eq_some_iff.1 hnode).1

theorem State.lt_of_has {s : State} {p : Token.Kind → Bool} {t : TokenId}
    (h : s.layout.Has p t) : t < s.read.size := by
  obtain ⟨k, hk, -⟩ := h
  obtain ⟨token, htoken, -⟩ := Option.map_eq_some_iff.1 hk
  exact (Array.getElem?_eq_some_iff.1 htoken).1

/-- What comes next is what is unread. -/
theorem State.next?_layout (s : State) : s.layout.next? s.read.size = Token.next? s.unread := by
  show Token.next? ((s.read.toList ++ s.unread).drop s.read.toList.length) = _
  rw [List.drop_left]

theorem Good.offer {s : State} {F held wanted : List Held} (h : Good s (F ++ held))
    (ho : Offers held wanted) : Good s (F ++ wanted) where
  table := h.table
  owned := h.owned
  spans := h.spans
  formed := h.formed
  runs := h.runs
  unwinding := h.unwinding
  nodup := by
    have hnodup := h.nodup
    rw [nodesOf_append, List.nodup_append'] at hnodup ⊢
    obtain ⟨hF, hheld, hdisjoint⟩ := hnodup
    obtain ⟨ids, hperm, hsub⟩ := ho.subperm
    refine ⟨hF, hperm.nodup_iff.1 (hheld.sublist hsub), fun i hi hi' => ?_⟩
    exact hdisjoint hi (hsub.subset (hperm.symm.subset hi'))
  free n hn := by
    rw [nodesOf_append] at hn
    refine h.free n ?_
    rw [nodesOf_append]
    rcases List.mem_append.1 hn with hn | hn
    · exact List.mem_append_left _ hn
    · exact List.mem_append_right _ (ho.subperm.subset hn)
  lie := (Offers.append_left F ho).lie h.lie

/-- What holds of the state may be kept in hand. -/
theorem Good.learn {s : State} {F held : List Held} (h : Good s (F ++ held)) {f : Fact}
    (hf : f.Holds s.layout) : Good s (F ++ .known f :: held) where
  table := h.table
  owned := h.owned
  spans := h.spans
  formed := h.formed
  runs := h.runs
  unwinding := h.unwinding
  nodup := by
    have hnodup := h.nodup
    rwa [nodesOf_append] at hnodup ⊢
  free := by
    have hfree := h.free
    rwa [nodesOf_append] at hfree ⊢
  lie := by
    obtain ⟨lo, hF, hheld⟩ := Lie.append_iff.1 h.lie
    exact Lie.append_iff.2 ⟨lo, hF, lo, ⟨hf, Nat.le_refl _⟩, hheld⟩

/-! ## The judgement -/

/-- A token that was read stays where it is. -/
theorem State.token_of_kept {s s' : State} (h : s.read.toList <+: s'.read.toList) {id : TokenId}
    (hid : id < s.read.size) : s'.tokens[id]? = s.tokens[id]? := by
  have hid' : id < s'.read.size := Nat.lt_of_lt_of_le hid h.length_le
  have hread : s.read.toList[id] = s'.read.toList[id] := h.getElem hid
  rw [Array.getElem_toList, Array.getElem_toList] at hread
  simp [tokens, Array.getElem?_append_left, hid, hid', hread]

/-- With more nodes, and more tokens read, what comes next is what came next. -/
theorem State.extends_of_tables {s s' : State} {more : Array Token}
    (htables : s.tables.Extends s'.tables) (hread : s'.read = s.read ++ more)
    (hnext : Token.next? (more.toList ++ s'.unread) = Token.next? s.unread) :
    s.layout.Extends s'.layout := by
  refine Layout.over_extends htables ?_ hnext (by rw [hread, Array.toList_append, List.append_assoc])
  show s.read.size ≤ s'.read.size
  rw [hread, Array.size_append]
  exact Nat.le_add_right _ _

/-- Reading on leaves the tokens that were read before, and what comes next is what came next. -/
theorem State.extends_of_kept {s s' : State} {more : Array Token} (hread : s'.read = s.read ++ more)
    (hnext : Token.next? (more.toList ++ s'.unread) = Token.next? s.unread)
    (hnodes : s'.nodes = s.nodes) (herrors : s'.errors = #[] → s.errors = #[]) :
    s.layout.Extends s'.layout := by
  refine State.extends_of_tables ⟨⟨fun {t k} hk => ?_, fun {n shape} hn => ?_⟩, herrors⟩ hread hnext
  · obtain ⟨token, htoken, hkind⟩ := Option.map_eq_some_iff.1 hk
    show s'.read[t]?.map _ = _
    rw [hread, Array.getElem?_append_left (Array.getElem?_eq_some_iff.1 htoken).1, htoken]
    exact congrArg some hkind
  · show s'.nodes[n]?.map _ = _
    rw [hnodes]
    exact hn

/-- Nothing is read and nothing put in place of what comes next. -/
theorem State.extends_of_same {s s' : State} (hread : s'.read = s.read)
    (hnext : Token.next? s'.unread = Token.next? s.unread) (hnodes : s'.nodes = s.nodes)
    (herrors : s'.errors = #[] → s.errors = #[]) : s.layout.Extends s'.layout :=
  State.extends_of_kept (hread.trans Array.append_empty.symm) hnext hnodes herrors

/-- The current token of the table. -/
theorem State.token_front (s : State) :
    s.tokens[s.read.size]?.map Token.offset = some s.current.offset := by
  unfold tokens current
  cases s.unread <;> simp

/-- From one state to a later one the table is edited behind what was read. -/
structure Follows (s s' : State) : Prop where
  source_eq : s'.source? = s.source?
  comments_eq : s'.comments = s.comments
  eof_eq : s'.eof = s.eof
  edited : Edited s.tokens.toList s'.tokens.toList
  grows : s.layout.Extends s'.layout
  kept : s.read.toList <+: s'.read.toList
  /-- Unless something was reported, a token stands where the current one began. -/
  front : s'.errors = #[] → s'.tokens[s.read.size]?.map Token.offset = some s.current.offset

theorem Follows.trans {s s' s'' : State} (h : Follows s s') (h' : Follows s' s'') :
    Follows s s'' where
  source_eq := h'.source_eq.trans h.source_eq
  comments_eq := h'.comments_eq.trans h.comments_eq
  eof_eq := h'.eof_eq.trans h.eof_eq
  edited := h.edited.trans h'.edited
  grows := h.grows.trans h'.grows
  kept := h.kept.trans h'.kept
  front hclean := by
    have hfront := h.front (h'.grows.clean hclean)
    have hle : s.read.size ≤ s'.read.size := h.kept.length_le
    rcases Nat.lt_or_eq_of_le hle with hlt | heq
    · rwa [State.token_of_kept h'.kept hlt]
    · rw [heq, s'.token_front] at hfront
      rw [heq, h'.front hclean, hfront]

/-- No tokens are gained either that are left to read; where fewer are left, a written one was
    read. -/
structure Leads (s s' : State) : Prop extends Follows s s' where
  left_le : s'.left ≤ s.left
  stirs : s'.left < s.left → (Fact.stirred s.read.size).Holds s'.layout

theorem Leads.of_left_eq {s s' : State} (h : Follows s s') (hleft : s'.left = s.left) :
    Leads s s' :=
  ⟨h, Nat.le_of_eq hleft, fun hlt => absurd hleft (Nat.ne_of_lt hlt)⟩

theorem Leads.refl (s : State) : Leads s s :=
  .of_left_eq ⟨rfl, rfl, rfl, .refl, State.extends_of_same rfl rfl rfl id, List.prefix_refl _,
    fun _ => s.token_front⟩ rfl

/-- What was read later was read behind what was read before. -/
theorem Follows.stirs {s s' s'' : State} (h : Follows s s') (h' : Leads s' s'')
    (hlt : s''.left < s'.left) : (Fact.stirred s.read.size).Holds s''.layout := by
  obtain ⟨t, hplace, ht⟩ := h'.stirs hlt
  exact ⟨t, Nat.le_trans h.kept.length_le hplace, ht⟩

theorem Leads.trans {s s' s'' : State} (h : Leads s s') (h' : Leads s' s'') : Leads s s'' where
  toFollows := h.toFollows.trans h'.toFollows
  left_le := Nat.le_trans h'.left_le h.left_le
  stirs hlt := by
    rcases Nat.lt_or_ge s'.left s.left with hfirst | hfirst
    · exact (Fact.stirred _).mono h'.grows (h.stirs hfirst)
    · exact h.toFollows.stirs h' (Nat.lt_of_lt_of_le hlt hfirst)

theorem Leads.text_eq {s s' : State} (h : Leads s s') : s'.text = s.text :=
  State.text_eq_of_edited h.edited h.eof_eq

/-- From a good state with `held` in hand, in which at most `ceil` tokens are left and `sees` holds of
    these, the production ends in a good state with `out` in hand, and its result and the number of
    tokens left satisfy `ends`. -/
def Yields {α : Type} (ceil : Nat) (sees : List Token → Prop) (held : List Held) (c : Parse α)
    (out : α → List Held) (ends : α → Nat → Prop) : Prop :=
  ∀ F s, s.left ≤ ceil → sees s.unread → Good s (F ++ held) →
    ∃ a s', c s = some (a, s') ∧ Good s' (F ++ out a) ∧ Leads s s' ∧ ends a s'.left

/-- Nothing is known of the tokens ahead. -/
def unseen : List Token → Prop := fun _ => True

/-- The tokens that come after the first of those that `sees` holds of. -/
def behind (sees : List Token → Prop) : List Token → Prop := fun ts => ∃ t, sees (t :: ts)

/-- Nothing is asked of the end. -/
def always {α : Type} : α → Nat → Prop := fun _ _ => True

/-- What a production makes of the things it is given. -/
def Makes {α : Type} (held : List Held) (c : Parse α) (out : α → List Held) : Prop :=
  ∀ ceil, Yields ceil unseen held c out always

/-- A production that starts at a token of certain kinds, which it reads. -/
def Reads {α : Type} (p : Token.Kind → Bool) (held : List Held) (c : Parse α)
    (out : α → List Held) : Prop :=
  ∀ ceil, Yields ceil (fun ts => p (kindAt ts) = true) held c out fun _ left => left < ceil

/-- A production that leaves fewer tokens if its result satisfies `goesOn`. -/
def Advances {α : Type} (held : List Held) (c : Parse α) (out : α → List Held)
    (goesOn : α → Prop) : Prop :=
  ∀ ceil, Yields ceil unseen held c out fun a left => goesOn a → left < ceil

section Rules

variable {α β : Type} {ceil : Nat} {sees : List Token → Prop} {held : List Held}
  {out : β → List Held} {ends : β → Nat → Prop}

theorem bind_eq_of_eq_some {c : Parse α} {f : α → Parse β} {s s' : State} {a : α}
    (h : c s = some (a, s')) : (c >>= f) s = f a s' := by
  show (c s).bind _ = _
  rw [h]
  rfl

theorem exists_of_bind_eq_some {α β : Type} {c : Parse α} {f : α → Parse β} {s : State}
    {r : β × State} (h : (c >>= f) s = some r) : ∃ a s', c s = some (a, s') ∧ f a s' = some r := by
  obtain ⟨⟨a, s'⟩, hc, hf⟩ := Option.bind_eq_some_iff.1 h
  exact ⟨a, s', hc, hf⟩

/-- A first step that led somewhere, and what follows it. -/
theorem Leads.step {c : Parse α} {f : α → Parse β} {s s' : State} {a : α} {F : List Held}
    (hc : c s = some (a, s')) (hleads : Leads s s')
    (hf : ∃ b s'', f a s' = some (b, s'') ∧ Good s'' (F ++ out b) ∧ Leads s' s'' ∧
      ends b s''.left) :
    ∃ b s'', (c >>= f) s = some (b, s'') ∧ Good s'' (F ++ out b) ∧ Leads s s'' ∧
      ends b s''.left := by
  obtain ⟨b, s'', hf, hgood, hleads', hends⟩ := hf
  exact ⟨b, s'', (bind_eq_of_eq_some hc).trans hf, hgood, hleads.trans hleads', hends⟩

theorem Yields.blind {c : Parse β} (h : Yields ceil unseen held c out ends) :
    Yields ceil sees held c out ends :=
  fun F s hceil _ hgood => h F s hceil trivial hgood

theorem Yields.weaken {c : Parse β} {ceil' : Nat} {sees' : List Token → Prop}
    (h : Yields ceil sees held c out ends) (hceil : ceil' ≤ ceil)
    (himp : ∀ ts, sees' ts → sees ts) : Yields ceil' sees' held c out ends :=
  fun F s hceil' hsees hgood => h F s (Nat.le_trans hceil' hceil) (himp _ hsees) hgood

theorem Yields.ending {c : Parse β} {ends' : β → Nat → Prop}
    (h : Yields ceil sees held c out ends') (himp : ∀ b n, ends' b n → ends b n) :
    Yields ceil sees held c out ends := by
  intro F s hceil hsees hgood
  obtain ⟨b, s', hc, hgood', hleads, hends⟩ := h F s hceil hsees hgood
  exact ⟨b, s', hc, hgood', hleads, himp b _ hends⟩

/-- No more tokens are left than there were. -/
theorem Yields.bounded {c : Parse β} (h : Yields ceil sees held c out ends) :
    Yields ceil sees held c out fun b left => ends b left ∧ left ≤ ceil := by
  intro F s hceil hsees hgood
  obtain ⟨b, s', hc, hgood', hleads, hends⟩ := h F s hceil hsees hgood
  exact ⟨b, s', hc, hgood', hleads, hends, Nat.le_trans hleads.left_le hceil⟩

theorem Yields.impossible {c : Parse β} (h : ∀ ts, ¬ sees ts) :
    Yields ceil sees held c out ends :=
  fun _ s _ hsees _ => (h s.unread hsees).elim

theorem Yields.offer {c : Parse β} {wanted : List Held}
    (h : Yields ceil sees wanted c out ends) (ho : Offers held wanted) :
    Yields ceil sees held c out ends :=
  fun F s hceil hsees hgood => h F s hceil hsees (hgood.offer ho)

/-- What is in hand may be let go of. -/
theorem Yields.drop {c : Parse β} (h : Yields ceil sees [] c out ends) :
    Yields ceil sees held c out ends :=
  h.offer (.of_sublist (List.nil_sublist held))

/-- What is in hand is set aside for a while. -/
theorem Yields.aside {c : Parse β} (h : ∀ others, others = held → Yields ceil sees others c out ends) :
    Yields ceil sees held c out ends :=
  h held rfl

/-- What was made may be known less of. -/
theorem Yields.made {c : Parse β} {out' : β → List Held} (ho : ∀ b, Offers (out' b) (out b))
    (h : Yields ceil sees held c out' ends) : Yields ceil sees held c out ends := by
  intro F s hceil hsees hgood
  obtain ⟨b, s', hc, hgood', hrest⟩ := h F s hceil hsees hgood
  exact ⟨b, s', hc, hgood'.offer (ho b), hrest⟩

theorem Yields.pure {b : β} (ho : Offers held (out b)) (hends : ∀ n, n ≤ ceil → ends b n) :
    Yields ceil sees held (pure b) out ends :=
  fun _ s hceil _ hgood => ⟨b, s, rfl, hgood.offer ho, .refl s, hends s.left hceil⟩

/-- One production after another; the first one takes the last of the things in hand. -/
theorem Yields.on {c : Parse α} {f : α → Parse β} {mid : α → List Held}
    {ends' : α → Nat → Prop} {others taken : List Held}
    (hc : Yields ceil sees taken c mid ends') (hheld : held = others ++ taken)
    (hf : ∀ a left, left ≤ ceil → ends' a left →
      Yields left unseen (others ++ mid a) (f a) out ends) :
    Yields ceil sees held (c >>= f) out ends := by
  intro F s hceil hsees hgood
  rw [hheld, ← List.append_assoc] at hgood
  obtain ⟨a, s', hc, hgood', hleads, hends⟩ := hc _ s hceil hsees hgood
  rw [List.append_assoc] at hgood'
  exact Leads.step hc hleads (hf a s'.left (Nat.le_trans hleads.left_le hceil) hends F s'
    (Nat.le_refl _) trivial hgood')

theorem Yields.bind {c : Parse α} {f : α → Parse β} {mid : α → List Held} {ends' : α → Nat → Prop}
    (hc : Yields ceil sees [] c mid ends')
    (hf : ∀ a left, left ≤ ceil → ends' a left →
      Yields left unseen (held ++ mid a) (f a) out ends) :
    Yields ceil sees held (c >>= f) out ends :=
  hc.on (List.append_nil held).symm hf

theorem Yields.pass {c : Parse α} {f : α → Parse β} {mid : α → List Held}
    {ends' : α → Nat → Prop} (hc : Yields ceil sees held c mid ends')
    (hf : ∀ a left, left ≤ ceil → ends' a left → Yields left unseen (mid a) (f a) out ends) :
    Yields ceil sees held (c >>= f) out ends :=
  hc.on (List.nil_append held).symm hf

theorem Makes.on {c : Parse α} {f : α → Parse β} {mid : α → List Held} {taken : List Held}
    (others : List Held) (hc : Makes taken c mid) (hheld : held = others ++ taken)
    (hf : ∀ a, Yields ceil unseen (others ++ mid a) (f a) out ends) :
    Yields ceil sees held (c >>= f) out ends :=
  (hc ceil).blind.on hheld fun a _ hleft _ => (hf a).weaken hleft fun _ => id

theorem Makes.behind {c : Parse α} {f : α → Parse β} {mid : α → List Held} {taken : List Held}
    (others : List Held) (hc : Makes taken c mid)
    (hf : ∀ a, Yields ceil unseen (others ++ mid a) (f a) out ends) :
    Yields ceil sees (others ++ taken) (c >>= f) out ends :=
  hc.on others rfl hf

theorem Makes.bind {c : Parse α} {f : α → Parse β} {mid : α → List Held} (hc : Makes [] c mid)
    (hf : ∀ a, Yields ceil unseen (held ++ mid a) (f a) out ends) :
    Yields ceil sees held (c >>= f) out ends :=
  hc.on held (List.append_nil held).symm hf

theorem Makes.pass {c : Parse α} {f : α → Parse β} {mid : α → List Held} (hc : Makes held c mid)
    (hf : ∀ a, Yields ceil unseen (mid a) (f a) out ends) :
    Yields ceil sees held (c >>= f) out ends :=
  hc.on [] rfl hf

/-- The last of several productions. -/
theorem Makes.last {c : Parse β} (hc : Makes held c out) (hends : ∀ b n, n ≤ ceil → ends b n) :
    Yields ceil sees held c out ends := by
  intro F s hceil hsees hgood
  obtain ⟨b, s', hc, hgood', hleads, -⟩ := hc ceil F s hceil trivial hgood
  exact ⟨b, s', hc, hgood', hleads, hends b _ (Nat.le_trans hleads.left_le hceil)⟩

theorem Makes.close {c : Parse β} (hc : Makes held c out) : Yields ceil sees held c out always :=
  hc.last fun _ _ _ => trivial

theorem Makes.made {c : Parse β} {out' : β → List Held} (hc : Makes held c out')
    (ho : ∀ b, Offers (out' b) (out b)) : Makes held c out :=
  fun ceil => (hc ceil).made ho

/-- Things that are in hand meanwhile stay there. -/
theorem Makes.frame {c : Parse β} (others : List Held) (hc : Makes held c out) :
    Makes (others ++ held) c fun b => others ++ out b := by
  intro ceil F s hceil hsees hgood
  rw [← List.append_assoc] at hgood
  obtain ⟨b, s', hc, hgood', hrest⟩ := hc ceil (F ++ others) s hceil hsees hgood
  rw [List.append_assoc] at hgood'
  exact ⟨b, s', hc, hgood', hrest⟩

theorem Makes.offer {c : Parse β} {wanted : List Held} (hc : Makes wanted c out)
    (ho : Offers held wanted) : Makes held c out :=
  fun ceil => (hc ceil).offer ho

section Reads

variable {p : Token.Kind → Bool}

theorem Reads.on {c : Parse α} {f : α → Parse β} {mid : α → List Held}
    {others taken : List Held} (hc : Reads p taken c mid)
    (hat : ∀ ts, sees ts → p (kindAt ts) = true) (hheld : held = others ++ taken)
    (hf : ∀ a n, n < ceil → Yields n unseen (others ++ mid a) (f a) out ends) :
    Yields ceil sees held (c >>= f) out ends :=
  ((hc ceil).weaken (Nat.le_refl _) hat).on hheld fun a left _ hlt => hf a left hlt

theorem Reads.bind {c : Parse α} {f : α → Parse β} {mid : α → List Held} (hc : Reads p [] c mid)
    (hat : ∀ ts, sees ts → p (kindAt ts) = true)
    (hf : ∀ a n, n < ceil → Yields n unseen (held ++ mid a) (f a) out ends) :
    Yields ceil sees held (c >>= f) out ends :=
  hc.on hat (List.append_nil held).symm hf

theorem Reads.pass {c : Parse α} {f : α → Parse β} {mid : α → List Held} (hc : Reads p held c mid)
    (hat : ∀ ts, sees ts → p (kindAt ts) = true)
    (hf : ∀ a n, n < ceil → Yields n unseen (mid a) (f a) out ends) :
    Yields ceil sees held (c >>= f) out ends :=
  hc.on hat (List.nil_append held).symm hf

theorem Reads.last {c : Parse β} (hc : Reads p held c out)
    (hat : ∀ ts, sees ts → p (kindAt ts) = true) (hends : ∀ b n, n < ceil → ends b n) :
    Yields ceil sees held c out ends :=
  ((hc ceil).weaken (Nat.le_refl _) hat).ending hends

theorem Reads.close {c : Parse β} (hc : Reads p held c out)
    (hat : ∀ ts, sees ts → p (kindAt ts) = true) : Yields ceil sees held c out always :=
  hc.last hat fun _ _ _ => trivial

theorem Reads.made {c : Parse β} {out' : β → List Held} (hc : Reads p held c out')
    (ho : ∀ b, Offers (out' b) (out b)) : Reads p held c out :=
  fun ceil => (hc ceil).made ho

end Reads

/-- A production that reads a token has read a written one, behind a place that was marked before. -/
theorem Reads.stirring {p : Token.Kind → Bool} {c : Parse α} {f : α → Parse β} {mid : α → List Held}
    {others taken : List Held} (hc : Reads p taken c mid)
    (hat : ∀ ts, sees ts → p (kindAt ts) = true) {first : Nat} (hmark : .mark first ∈ held)
    (hheld : held = others ++ taken)
    (hf : ∀ a n, n < ceil →
      Yields n unseen (.known (.stirred first) :: (others ++ mid a)) (f a) out ends) :
    Yields ceil sees held (c >>= f) out ends := by
  intro F s hceil hsees hgood
  obtain ⟨-, hfirst⟩ := hgood.lie.lies (List.mem_append_right F hmark)
  rw [hheld, ← List.append_assoc] at hgood
  obtain ⟨a, s', hc, hgood', hleads, hlt⟩ := hc s.left _ s (Nat.le_refl _) (hat _ hsees) hgood
  rw [List.append_assoc] at hgood'
  obtain ⟨t, ht, hwritten⟩ := hleads.stirs hlt
  exact Leads.step hc hleads (hf a s'.left (Nat.lt_of_lt_of_le hlt hceil) F s' (Nat.le_refl _) trivial
    (hgood'.learn ⟨t, Nat.le_trans hfirst ht, hwritten⟩))

/-- A production behind which something is known of the tokens ahead. -/
def Shows {α : Type} (held : List Held) (c : Parse α) (out : α → List Held)
    (shown : List Token → Prop) : Prop :=
  ∀ F s, Good s (F ++ held) →
    ∃ a s', c s = some (a, s') ∧ Good s' (F ++ out a) ∧ Leads s s' ∧ shown s'.unread

theorem Shows.makes {c : Parse β} {shown : List Token → Prop} (hc : Shows held c out shown) :
    Makes held c out := by
  intro ceil F s _ _ hgood
  obtain ⟨b, s', hc, hgood', hleads, -⟩ := hc F s hgood
  exact ⟨b, s', hc, hgood', hleads, trivial⟩

theorem Shows.bind {c : Parse α} {f : α → Parse β} {mid : α → List Held} {shown : List Token → Prop}
    (hc : Shows [] c mid shown) (hf : ∀ a, Yields ceil shown (held ++ mid a) (f a) out ends) :
    Yields ceil sees held (c >>= f) out ends := by
  intro F s hceil _ hgood
  obtain ⟨a, s', hc, hgood', hleads, hshown⟩ := hc (F ++ held) s (by rwa [List.append_nil])
  rw [List.append_assoc] at hgood'
  exact Leads.step hc hleads (hf a F s' (Nat.le_trans hleads.left_le hceil) hshown hgood')

/-- Two ways on, by what is known of them. -/
theorem Yields.branchOn {b : Prop} [Decidable b] {c₁ c₂ : Parse β}
    (hthen : b → Yields ceil sees held c₁ out ends)
    (helse : ¬ b → Yields ceil sees held c₂ out ends) :
    Yields ceil sees held (if b then c₁ else c₂) out ends := by
  split
  · exact hthen ‹_›
  · exact helse ‹_›

/-- Two ways on. -/
theorem Yields.branch {b : Prop} [Decidable b] {c₁ c₂ : Parse β}
    (hthen : Yields ceil sees held c₁ out ends) (helse : Yields ceil sees held c₂ out ends) :
    Yields ceil sees held (if b then c₁ else c₂) out ends :=
  .branchOn (fun _ => hthen) fun _ => helse

/-- Two ways on that come together again. -/
theorem Yields.join {b : Prop} [Decidable b] {c₁ c₂ : Parse α} {f : α → Parse β}
    (h : Yields ceil sees held ((if b then c₁ else c₂) >>= f) out ends) :
    Yields ceil sees held (if b then c₁ >>= f else c₂ >>= f) out ends := by
  split
  · rwa [if_pos ‹_›] at h
  · rwa [if_neg ‹_›] at h

end Rules

/-! ## Looking and reporting -/

/-- Two states with the same tokens, comments and nodes; more may be reported in the second. -/
structure SameTables (s s' : State) : Prop where
  nodes_eq : s'.nodes = s.nodes
  read_eq : s'.read = s.read
  unread_eq : s'.unread = s.unread
  eof_eq : s'.eof = s.eof
  comments_eq : s'.comments = s.comments
  source_eq : s'.source? = s.source?
  clean : s'.errors = #[] → s.errors = #[]
  unwinding : (s.unwinding = true → s.errors ≠ #[]) → s'.unwinding = true → s'.errors ≠ #[]
  reports : s.Table → s'.Reports

theorem SameTables.rfl {s : State} : SameTables s s :=
  ⟨.refl _, .refl _, .refl _, .refl _, .refl _, .refl _, id, id, State.Table.reports⟩

theorem SameTables.left_eq {s s' : State} (h : SameTables s s') : s'.left = s.left := by
  rw [s'.left_eq, s.left_eq, h.unread_eq]

theorem SameTables.tokens_eq {s s' : State} (h : SameTables s s') : s'.tokens = s.tokens := by
  rw [State.tokens, h.read_eq, h.unread_eq, h.eof_eq]
  rfl

theorem SameTables.kept {s s' : State} (h : SameTables s s') : s.read.toList <+: s'.read.toList :=
  h.read_eq ▸ List.prefix_refl _

theorem SameTables.extends {s s' : State} (h : SameTables s s') : s.layout.Extends s'.layout :=
  State.extends_of_same h.read_eq (by rw [h.unread_eq]) h.nodes_eq h.clean

theorem SameTables.leads {s s' : State} (h : SameTables s s') : Leads s s' :=
  .of_left_eq
    { source_eq := h.source_eq
      comments_eq := h.comments_eq
      eof_eq := h.eof_eq
      edited := by rw [h.tokens_eq]
      grows := h.extends
      kept := h.kept
      front := fun _ => by rw [h.tokens_eq, s.token_front] } h.left_eq

/-- A state with more tokens read, or more reported. -/
theorem Good.grow {s s' : State} {held : List Held} (h : Good s held) (htable : s'.Table)
    (hnodes : s'.nodes = s.nodes) (hcomments : s'.comments = s.comments)
    (hread : s.read.size ≤ s'.read.size)
    (hextends : s.layout.Extends s'.layout)
    (hunwinding : s'.unwinding = true → s'.errors ≠ #[]) : Good s' held where
  table := htable
  owned := hnodes ▸ h.owned
  spans i := by
    obtain ⟨hfirst, hlast⟩ := h.spans i
    rw [hnodes]
    exact ⟨Nat.le_trans hfirst hread, Nat.le_trans hlast hread⟩
  formed {n shape} hn := by
    have hn : s.layout.node? n = some shape := by
      rw [← hn]
      show s.nodes[n]?.map _ = s'.nodes[n]?.map _
      rw [hnodes]
    exact (h.formed hn).mono hextends
  runs n run hkind := by
    rw [hnodes] at hkind
    obtain ⟨hincreasing, hlt⟩ := h.runs n run hkind
    exact ⟨hincreasing, hcomments ▸ hlt⟩
  unwinding := hunwinding
  nodup := h.nodup
  free := hnodes ▸ h.free
  lie := (h.lie.mono hextends).widen (Nat.le_refl _) hread

theorem SameTables.table {s s' : State} (h : SameTables s s') (htable : s.Table) : s'.Table := by
  have hreports := h.reports htable
  obtain ⟨hreal, hread, heof, hordered, hcomments, hreadReal, -⟩ := htable
  obtain ⟨-, hr, hu, he, hc, -, hclean, -⟩ := h
  rw [← hu] at hreal
  rw [← hr] at hread
  rw [← he] at heof
  rw [← hr, ← hu, ← he] at hordered
  rw [← hc] at hcomments
  rw [← hr] at hreadReal
  exact ⟨hreal, hread, heof, hordered, hcomments, fun h => hreadReal (hclean h), hreports⟩

theorem SameTables.good {s s' : State} (h : SameTables s s') {held : List Held}
    (hgood : Good s held) : Good s' held :=
  hgood.grow (h.table hgood.table) h.nodes_eq h.comments_eq (Nat.le_of_eq (by rw [h.read_eq]))
    h.extends (h.unwinding hgood.unwinding)

/-- A production that leaves the tables alone. -/
def Quiet {α : Type} (c : Parse α) : Prop := ∀ s, ∃ a s', c s = some (a, s') ∧ SameTables s s'

section Quiet

variable {α β : Type} {ceil : Nat} {sees : List Token → Prop} {held : List Held}
  {out : β → List Held} {ends : β → Nat → Prop} {f : α → Parse β}

theorem Quiet.bind {c : Parse α} (hc : Quiet c) (hf : ∀ a, Yields ceil sees held (f a) out ends) :
    Yields ceil sees held (c >>= f) out ends := by
  intro F s hceil hsees hgood
  obtain ⟨a, s', hc, hsame⟩ := hc s
  refine Leads.step hc hsame.leads (hf a F s' ?_ ?_ (hsame.good hgood))
  · rwa [hsame.left_eq]
  · rwa [hsame.unread_eq]

/-- Something that is reported under a condition. -/
theorem Quiet.when {b : Prop} [Decidable b] {c : Parse Unit} {f : Unit → Parse β} (hc : Quiet c)
    (hf : Yields ceil sees held (f ()) out ends) :
    Yields ceil sees held (if b then c >>= f else f ()) out ends := by
  split
  · exact hc.bind fun _ => hf
  · exact hf

theorem Quiet.of_get (g : State → α) : Quiet (do return g (← get)) :=
  fun s => ⟨g s, s, rfl, .rfl⟩

theorem quiet_current : Quiet current := .of_get _

theorem quiet_currentKind : Quiet currentKind := .of_get (·.current.kind)

theorem quiet_ahead : Quiet ahead := .of_get _

theorem quiet_peek (n : Nat) : Quiet (peek n) := fun s => ⟨_, s, rfl, .rfl⟩

theorem quiet_isAtEnd : Quiet isAtEnd := fun s => ⟨_, s, rfl, .rfl⟩

theorem quiet_isAt (kind : Token.Kind) : Quiet (isAt kind) := fun s => ⟨_, s, rfl, .rfl⟩

theorem quiet_isAtName : Quiet isAtName := fun s => ⟨_, s, rfl, .rfl⟩

theorem quiet_looking (test : List Token → Bool) : Quiet (looking test) :=
  fun s => ⟨_, s, rfl, .rfl⟩

/-- After a report within the text something was reported, if not now then before. -/
theorem reportSpan_spec (code : Diagnostic.Code) {offset length : Nat} (args : List String)
    {s : State} (hinside : s.Table → offset + length ≤ s.eof.finish) :
    ∃ s', reportSpan code offset length args s = some ((), s') ∧ SameTables s s' ∧
      ((s.unwinding = true → s.errors ≠ #[]) → s'.errors ≠ #[]) := by
  refine ⟨_, rfl, ?_⟩
  dsimp only
  split
  · rename_i hunwinding
    exact ⟨.rfl, fun h => h hunwinding⟩
  · have hpush : s.errors.push (.make s.source? offset length code args) ≠ #[] := by simp
    refine ⟨⟨rfl, rfl, rfl, rfl, rfl, rfl, fun h => absurd h hpush, fun _ _ => hpush, ?_⟩,
      fun _ => hpush⟩
    intro htable d hd
    rcases Array.mem_push.1 hd with hd | rfl
    · exact htable.reports d hd
    · exact ⟨rfl, hinside htable⟩

theorem reportHere_spec (code : Diagnostic.Code) (args : List String) (s : State) :
    ∃ s', reportHere code args s = some ((), s') ∧ SameTables s s' ∧
      ((s.unwinding = true → s.errors ≠ #[]) → s'.errors ≠ #[]) :=
  reportSpan_spec code args State.Table.current_finish_le

/-- That something was reported may be kept in hand. -/
theorem Good.reported {s : State} {held : List Held} (h : Good s held) (herrors : s.errors ≠ #[]) :
    Good s (held ++ [.reported]) :=
  { h with
    nodup := by simpa [Held.nodes, Held.located] using h.nodup
    free := by simpa [Held.nodes, Held.located] using h.free
    lie := Lie.append_iff.2 ⟨_, h.lie, Lie.singleton_iff.2 ⟨herrors, Nat.le_refl _⟩⟩ }

/-- That something was reported is in hand afterwards. -/
theorem Yields.reported {report : Parse Unit} {f : Unit → Parse β} {F : List Held} {s : State}
    (hreport : ∃ s', report s = some ((), s') ∧ SameTables s s' ∧
      ((s.unwinding = true → s.errors ≠ #[]) → s'.errors ≠ #[]))
    (hf : Yields ceil sees (held ++ [.reported]) (f ()) out ends) (hceil : s.left ≤ ceil)
    (hsees : sees s.unread) (hgood : Good s (F ++ held)) :
    ∃ a s', (report >>= f) s = some (a, s') ∧ Good s' (F ++ out a) ∧ Leads s s' ∧
      ends a s'.left := by
  obtain ⟨s', hreport, hsame, hreported⟩ := hreport
  have hgood' := (hsame.good hgood).reported (hreported hgood.unwinding)
  rw [List.append_assoc] at hgood'
  refine Leads.step hreport hsame.leads (hf F s' ?_ ?_ hgood')
  · rwa [hsame.left_eq]
  · rwa [hsame.unread_eq]

theorem Quiet.comp {γ : Type} {c : Parse α} {g : α → Parse γ} (hc : Quiet c)
    (hg : ∀ a, Quiet (g a)) : Quiet (c >>= g) := by
  intro s
  obtain ⟨a, s', hc, hsame⟩ := hc s
  obtain ⟨b, s'', hg, hsame'⟩ := hg a s'
  refine ⟨b, s'', (bind_eq_of_eq_some hc).trans hg, ?_⟩
  exact ⟨hsame'.nodes_eq.trans hsame.nodes_eq, hsame'.read_eq.trans hsame.read_eq,
    hsame'.unread_eq.trans hsame.unread_eq, hsame'.eof_eq.trans hsame.eof_eq,
    hsame'.comments_eq.trans hsame.comments_eq, hsame'.source_eq.trans hsame.source_eq,
    fun h => hsame.clean (hsame'.clean h), fun h => hsame'.unwinding (hsame.unwinding h),
    fun h => hsame'.reports (hsame.table h)⟩

theorem Yields.reportHere {code : Diagnostic.Code} {args : List String} {f : Unit → Parse β}
    (hf : Yields ceil sees (held ++ [.reported]) (f ()) out ends) :
    Yields ceil sees held (reportHere code args >>= f) out ends :=
  fun _ s => Yields.reported (reportHere_spec code args s) hf

theorem quiet_reportHere (code : Diagnostic.Code) (args : List String) :
    Quiet (reportHere code args) := by
  intro s
  obtain ⟨s', hreport, hsame, -⟩ := reportHere_spec code args s
  exact ⟨(), s', hreport, hsame⟩

theorem quiet_reportUnexpected : Quiet reportUnexpected :=
  quiet_current.comp fun t => quiet_reportHere .unexpectedToken [t.lexeme]

theorem ne_nil_of_kindAt {ts : List Token} {kind : Token.Kind} (h : kindAt ts = kind)
    (hkind : kind ≠ .eof) : ts ≠ [] := by
  rintro rfl
  exact hkind h.symm

/-- The kind of the current token is known once it was asked for. -/
theorem Yields.currentKind {f : Token.Kind → Parse β}
    (hf : ∀ kind, Yields ceil (fun ts => sees ts ∧ kindAt ts = kind) held (f kind) out ends) :
    Yields ceil sees held (currentKind >>= f) out ends := by
  intro F s hceil hsees hgood
  rw [bind_eq_of_eq_some (show Grammar.currentKind s = some (s.current.kind, s) from rfl)]
  exact hf _ F s hceil ⟨hsees, hgood.table.current_kind.symm⟩ hgood

/-- The unread tokens are known once they were asked for. -/
theorem Yields.ahead {f : List Token → Parse β}
    (hf : ∀ ts, Yields ceil (fun us => sees us ∧ us = ts) held (f ts) out ends) :
    Yields ceil sees held (ahead >>= f) out ends :=
  fun F s hceil hsees hgood => hf s.unread F s hceil ⟨hsees, rfl⟩ hgood

theorem Yields.isAt {kind : Token.Kind} {f : Bool → Parse β}
    (htrue : Yields ceil (fun ts => sees ts ∧ kindAt ts = kind) held (f true) out ends)
    (hfalse : Yields ceil (fun ts => sees ts ∧ kindAt ts ≠ kind) held (f false) out ends) :
    Yields ceil sees held (isAt kind >>= f) out ends := by
  intro F s hceil hsees hgood
  rw [bind_eq_of_eq_some (show Grammar.isAt kind s = some (s.current.kind == kind, s) from rfl),
    hgood.table.current_kind]
  cases hat : kindAt s.unread == kind with
  | true => exact htrue F s hceil ⟨hsees, eq_of_beq hat⟩ hgood
  | false => exact hfalse F s hceil ⟨hsees, ne_of_beq_false hat⟩ hgood

/-- Whether a kind is the current one is known after it was asked for. -/
theorem Yields.isAt_iff {kind : Token.Kind} {f : Bool → Parse β}
    (hf : ∀ b, Yields ceil (fun ts => sees ts ∧ (b = true ↔ kindAt ts = kind)) held (f b) out ends) :
    Yields ceil sees held (Grammar.isAt kind >>= f) out ends :=
  .isAt ((hf true).weaken (Nat.le_refl _) fun _ hts => ⟨hts.1, fun _ => hts.2, fun _ => rfl⟩)
    ((hf false).weaken (Nat.le_refl _) fun _ hts => ⟨hts.1, nofun, fun h => absurd h hts.2⟩)

theorem Yields.isAtName {f : Bool → Parse β}
    (htrue : Yields ceil (fun ts => sees ts ∧ isNameAt ts = true) held (f true) out ends)
    (hfalse : Yields ceil (fun ts => sees ts ∧ isNameAt ts = false) held (f false) out ends) :
    Yields ceil sees held (isAtName >>= f) out ends := by
  intro F s hceil hsees hgood
  have hname : s.current.isName = isNameAt s.unread := by
    rw [Token.isName, hgood.table.current_kind, isNameAt]
  rw [bind_eq_of_eq_some (show Grammar.isAtName s = some (s.current.isName, s) from rfl), hname]
  cases hat : isNameAt s.unread with
  | true => exact htrue F s hceil ⟨hsees, hat⟩ hgood
  | false => exact hfalse F s hceil ⟨hsees, hat⟩ hgood

/-- The kind of the token after the current one. -/
theorem Yields.peek {f : Token → Parse β}
    (hf : ∀ t, Yields ceil (fun ts => sees ts ∧ kindAt (ts.drop 1) = t.kind) held (f t) out ends) :
    Yields ceil sees held (peek 1 >>= f) out ends := by
  intro F s hceil hsees hgood
  have hkind : kindAt (s.unread.drop 1) = ((s.unread[1]?).getD s.eof).kind := by
    rcases s.unread with _ | ⟨t, _ | ⟨u, ts⟩⟩
    · exact hgood.table.eof_kind.symm
    · exact hgood.table.eof_kind.symm
    · rfl
  rw [bind_eq_of_eq_some
    (show Grammar.peek 1 s = some ((s.unread[1]?).getD s.eof, s) from rfl)]
  exact hf _ F s hceil ⟨hsees, hkind⟩ hgood

theorem Yields.looking {test : List Token → Bool} {f : Bool → Parse β}
    (hf : ∀ b, Yields ceil (fun ts => sees ts ∧ test ts = b) held (f b) out ends) :
    Yields ceil sees held (looking test >>= f) out ends :=
  fun F s hceil hsees hgood => hf (test s.unread) F s hceil ⟨hsees, rfl⟩ hgood

/-- The number of tokens left becomes the bound on it. -/
theorem Yields.unreadCount {f : Nat → Parse β}
    (hf : ∀ n, n ≤ ceil → (∃ ts, sees ts ∧ ts.length = n) →
      Yields n (fun ts => sees ts ∧ ts.length = n) held (f n) out ends) :
    Yields ceil sees held (unreadCount >>= f) out ends := by
  intro F s hceil hsees hgood
  rw [bind_eq_of_eq_some (show Grammar.unreadCount s = some (s.left, s) from rfl)]
  exact hf s.left hceil ⟨_, hsees, s.left_eq.symm⟩ F s (Nat.le_refl _) ⟨hsees, s.left_eq.symm⟩ hgood

end Quiet

/-! ## Reading -/

section Reading

variable {β : Type} {ceil : Nat} {sees : List Token → Prop} {held : List Held}
  {out : β → List Held} {ends : β → Nat → Prop}

theorem Yields.here {f : TokenId → Parse β}
    (hf : ∀ first : Nat, Yields ceil sees (held ++ [.mark first]) (f first) out ends) :
    Yields ceil sees held (here >>= f) out ends := by
  intro F s hceil hsees hgood
  rw [bind_eq_of_eq_some (show Grammar.here s = some (s.read.size, s) from rfl)]
  refine hf s.read.size F s hceil hsees { hgood with
    nodup := by simpa [Held.nodes, Held.located] using hgood.nodup
    free := by simpa [Held.nodes, Held.located] using hgood.free
    lie := ?_ }
  rw [← List.append_assoc]
  exact Lie.append_iff.2 ⟨_, hgood.lie, Lie.singleton_iff.2 ⟨Nat.le_refl _, Nat.le_refl _⟩⟩

/-- A state in which more tokens are read. -/
structure ReadsOn (s s' : State) (more : Array Token) : Prop where
  table : s'.Table
  nodes_eq : s'.nodes = s.nodes
  read_eq : s'.read = s.read ++ more
  comments_eq : s'.comments = s.comments
  errors_eq : s'.errors = s.errors
  unwinding_eq : s'.unwinding = s.unwinding
  next : Token.next? (more.toList ++ s'.unread) = Token.next? s.unread

section ReadsOn

variable {s s' : State} {more : Array Token} (h : ReadsOn s s' more)
include h

theorem ReadsOn.kept : s.read.toList <+: s'.read.toList := by
  rw [h.read_eq, Array.toList_append]
  exact List.prefix_append _ _

theorem ReadsOn.extends : s.layout.Extends s'.layout :=
  State.extends_of_kept h.read_eq h.next h.nodes_eq fun hclean => h.errors_eq ▸ hclean

theorem ReadsOn.good {held : List Held} (hgood : Good s held) : Good s' held := by
  refine hgood.grow h.table h.nodes_eq h.comments_eq ?_ h.extends ?_
  · rw [h.read_eq, Array.size_append]
    exact Nat.le_add_right _ _
  · rw [h.unwinding_eq, h.errors_eq]
    exact hgood.unwinding

end ReadsOn

/-- A token that was read is in hand. -/
theorem ReadsOn.hold {s s' : State} {t : Token} (h : ReadsOn s s' #[t]) {held : List Held}
    (hgood : Good s held) {p : Token.Kind → Bool} (hp : p t.kind = true) :
    Good s' (held ++ [.token p s.read.size]) := by
  have hgood' := h.good hgood
  refine { hgood' with
    nodup := by simpa [Held.nodes, Held.located] using hgood'.nodup
    free := by simpa [Held.nodes, Held.located] using hgood'.free
    lie := Lie.append_iff.2 ⟨s.read.size, hgood.lie.mono h.extends, Lie.singleton_iff.2 ?_⟩ }
  refine ⟨⟨t.kind, ?_, hp⟩, Nat.le_refl _, ?_⟩
  · show s'.read[s.read.size]?.map _ = _
    rw [h.read_eq, Array.getElem?_append_right (Nat.le_refl _), Nat.sub_self]
    rfl
  · rw [h.read_eq, Array.size_append]
    exact Nat.lt_succ_self _

theorem State.readsOn_take {s : State} (h : s.Table) (n : Nat) :
    ReadsOn s (s.take n) (s.unread.take n).toArray :=
  ⟨h.take n, rfl, rfl, rfl, rfl, rfl, congrArg Token.next? (List.take_append_drop n s.unread)⟩

theorem State.toList_take (s : State) (n : Nat) :
    (s.take n).read.toList ++ (s.take n).unread = s.read.toList ++ s.unread := by
  simp [State.take]

/-- What is read off the tokens ahead is written. -/
theorem State.written_take {s : State} (h : s.Table) {n : Nat} (hlt : (s.take n).left < s.left) :
    (s.take n).layout.Written s.read.size := by
  have hleft : s.left - n < s.left := hlt
  obtain ⟨t, rest, hunread⟩ := List.exists_cons_of_ne_nil
    (s.unread_ne_nil_iff.2 (Nat.lt_of_le_of_lt (Nat.zero_le _) hlt))
  refine ⟨?_, t, ?_, (h.real t (by rw [hunread]; exact List.mem_cons_self ..)).isEmpty_eq⟩
  · show s.read.size < (s.read ++ (s.unread.take n).toArray).size
    have hlength := s.left_eq
    simp only [hunread, List.length_cons] at hlength
    simp only [hunread, Array.size_append, List.size_toArray, List.length_take, List.length_cons]
    omega
  · rw [s.toList_take, List.getElem?_append_right (Nat.le_of_eq Array.length_toList),
      Array.length_toList, Nat.sub_self, hunread]
    rfl

theorem State.leads_take {s : State} (h : s.Table) (n : Nat) : Leads s (s.take n) := by
  have hkept : s.read.toList <+: (s.take n).read.toList := by simp [State.take]
  have htokens : (s.take n).tokens = s.tokens := Array.toList_inj.1 (s.toList_tokens_take n)
  have hgrows : s.layout.Extends (s.take n).layout :=
    State.extends_of_kept rfl (congrArg Token.next? (List.take_append_drop n s.unread)) rfl id
  exact ⟨⟨rfl, rfl, rfl, by rw [htokens], hgrows, hkept, fun _ => by rw [htokens, s.token_front]⟩,
    Nat.sub_le _ _, fun hlt => ⟨_, Nat.le_refl _, State.written_take h hlt⟩⟩

theorem advance_eq (s : State) : advance s = some (s.read.size, s.take 1) := by
  obtain ⟨_, _, _, unread, left, hleft, _, _, _, _⟩ := s
  subst hleft
  cases unread <;> simp [advance, here, State.take, modify, modifyGet, MonadStateOf.modifyGet] <;>
    rfl

/-- A token that is there is read, and is written. -/
theorem Yields.advanceWritten {p : Token.Kind → Bool} {f : TokenId → Parse β}
    (hat : ∀ ts, sees ts → p (kindAt ts) = true) (heof : p .eof = false)
    (hf : ∀ id n : Nat, n < ceil →
      Yields n (behind sees) (.known (.written id) :: held ++ [.token p id]) (f id) out ends) :
    Yields ceil sees held (Grammar.advance >>= f) out ends := by
  intro F s hceil hsees hgood
  have hkind := hat _ hsees
  cases hunread : s.unread with
  | nil =>
    rw [hunread, kindAt, heof] at hkind
    exact absurd hkind nofun
  | cons t rest =>
    rw [hunread] at hsees hkind
    have hread : ReadsOn s (s.take 1) #[t] := by
      have hread := State.readsOn_take hgood.table 1
      rwa [hunread] at hread
    have hgood' := hread.hold hgood hkind
    rw [List.append_assoc] at hgood'
    have hrest : (s.take 1).unread = rest := by simp [State.take, hunread]
    have hlt : (s.take 1).left < s.left := by simp [State.take, s.left_eq, hunread]
    exact Leads.step (advance_eq s) (State.leads_take hgood.table 1) (hf s.read.size _
      (Nat.lt_of_lt_of_le hlt hceil) F _ (Nat.le_refl _) ⟨t, hrest ▸ hsees⟩
      (hgood'.learn (State.written_take hgood.table hlt)))

/-- A token that is there is read. -/
theorem Yields.advance {p : Token.Kind → Bool} {f : TokenId → Parse β}
    (hat : ∀ ts, sees ts → p (kindAt ts) = true) (heof : p .eof = false)
    (hf : ∀ id n : Nat, n < ceil →
      Yields n (behind sees) (held ++ [.token p id]) (f id) out ends) :
    Yields ceil sees held (Grammar.advance >>= f) out ends :=
  .advanceWritten hat heof fun id n hn => (hf id n hn).offer (.of_sublist (List.sublist_cons_self ..))

/-- A token may be read without being kept. -/
theorem Yields.skip {f : TokenId → Parse β}
    (hf : ∀ id : Nat, Yields ceil unseen held (f id) out ends) :
    Yields ceil sees held (Grammar.advance >>= f) out ends := by
  intro F s hceil hsees hgood
  have hleads := State.leads_take hgood.table 1
  exact Leads.step (advance_eq s) hleads (hf s.read.size F _ (Nat.le_trans hleads.left_le hceil)
    trivial ((State.readsOn_take hgood.table 1).good hgood))

theorem Yields.skip_on {f : Parse β} (hf : ∀ n, n < ceil → Yields n unseen held f out ends) :
    Yields ceil (· ≠ []) held (do let _ ← Grammar.advance; f) out ends := by
  intro F s hceil hsees hgood
  have hlt : (s.take 1).left < s.left := Nat.sub_lt (s.unread_ne_nil_iff.1 hsees) Nat.one_pos
  exact Leads.step (advance_eq s) (State.leads_take hgood.table 1) (hf _ (Nat.lt_of_lt_of_le hlt hceil) F _
    (Nat.le_refl _) trivial ((State.readsOn_take hgood.table 1).good hgood))

theorem Yields.skipUntil {stop : Token.Kind → Bool} {f : Unit → Parse β}
    (hf : Yields ceil unseen held (f ()) out ends) :
    Yields ceil sees held (skipUntil stop >>= f) out ends := by
  intro F s hceil hsees hgood
  have hleads := State.leads_take hgood.table (s.unread.takeWhile (!stop ·.kind)).length
  exact Leads.step rfl hleads (hf F _ (Nat.le_trans hleads.left_le hceil) trivial
    ((State.readsOn_take hgood.table _).good hgood))

/-- At a token that does not stop it, skipping reads at least that one. -/
theorem Yields.skipUntil_past {stop : Token.Kind → Bool} {f : Unit → Parse β}
    (hgo : ∀ ts, sees ts → ts ≠ [] ∧ stop (kindAt ts) = false)
    (hf : ∀ n, n < ceil → Yields n unseen held (f ()) out ends) :
    Yields ceil sees held (Grammar.skipUntil stop >>= f) out ends := by
  intro F s hceil hsees hgood
  obtain ⟨hne, hstop⟩ := hgo _ hsees
  have hlt : (s.take (s.unread.takeWhile (!stop ·.kind)).length).left < s.left := by
    have hleft := s.left_eq
    cases hunread : s.unread with
    | nil => exact absurd hunread hne
    | cons t ts =>
      rw [hunread] at hstop hleft
      have hstop : stop t.kind = false := hstop
      simp only [State.take, List.takeWhile_cons, hstop, Bool.not_false, if_true,
        List.length_cons] at hleft ⊢
      omega
  exact Leads.step rfl (State.leads_take hgood.table _) (hf _ (Nat.lt_of_lt_of_le hlt hceil) F _ (Nat.le_refl _)
    trivial ((State.readsOn_take hgood.table _).good hgood))

/-- A missing token is read right away; that it is missing was reported. -/
theorem insertMissing_spec {kind : Token.Kind} (hkind : kind ≠ .eof) {s : State} {F : List Held}
    (hreported : .reported ∈ F) (h : Good s F) :
    ∃ s', insertMissing kind s = some (s.read.size, s') ∧ s'.read.size = s.read.size + 1 ∧
      Good s' (F ++ [.token (Token.Kind.exactly kind) s.read.size]) ∧ Leads s s' := by
  have hread : ReadsOn s _ #[.missing kind _] :=
    ⟨h.table.insert hkind (h.lie.lies hreported).1, rfl, Array.push_eq_append, rfl, rfl, rfl,
      Token.next?_cons_of_isEmpty rfl⟩
  exact ⟨_, rfl, Array.size_push _, hread.hold h (beq_self_eq_true kind),
    .of_left_eq ⟨rfl, rfl, rfl, s.edited_insert kind, hread.extends, hread.kept,
      fun hclean => absurd hclean (h.lie.lies hreported).1⟩ rfl⟩

theorem Yields.insertMissing {kind : Token.Kind} {f : TokenId → Parse β} (hkind : kind ≠ .eof)
    (hreported : .reported ∈ held)
    (hf : ∀ id : Nat,
      Yields ceil unseen (held ++ [.token (Token.Kind.exactly kind) id]) (f id) out ends) :
    Yields ceil sees held (insertMissing kind >>= f) out ends := by
  intro F s hceil hsees hgood
  obtain ⟨s', hinsert, -, hgood', hleads⟩ :=
    insertMissing_spec hkind (List.mem_append_right F hreported) hgood
  rw [List.append_assoc] at hgood'
  exact Leads.step hinsert hleads (hf s.read.size F s' (Nat.le_trans hleads.left_le hceil) trivial
    hgood')

/-- A missing token takes the place of the report that it is missing. -/
theorem Yields.reportMissing {code : Diagnostic.Code} {args : List String} {kind : Token.Kind}
    {f : TokenId → Parse β} (hkind : kind ≠ .eof)
    (hf : ∀ id : Nat,
      Yields ceil unseen (held ++ [.token (Token.Kind.exactly kind) id]) (f id) out ends) :
    Yields ceil sees held (Grammar.reportHere code args >>= fun _ =>
      Grammar.insertMissing kind >>= f) out ends :=
  .reportHere (.insertMissing hkind (by simp) fun id => (hf id).offer (.of_sublist (by simp)))

theorem exactly_of_eq {ts : List Token} {kind : Token.Kind} (h : kindAt ts = kind) :
    Token.Kind.exactly kind (kindAt ts) = true := by
  rw [h]
  exact beq_self_eq_true kind

theorem of_exactly {kind : Token.Kind} {p : Token.Kind → Bool} (hp : p kind = true)
    (k : Token.Kind) (h : Token.Kind.exactly kind k = true) : p k = true := by
  rw [eq_of_beq h]
  exact hp

theorem exactly_eof {kind : Token.Kind} (h : kind ≠ .eof) :
    Token.Kind.exactly kind .eof = false :=
  beq_false_of_ne h.symm

/-- A token that is read if it is the current one is written. -/
theorem Yields.acceptWritten {kind : Token.Kind} {f : Option TokenId → Parse β} (hkind : kind ≠ .eof)
    (hsome : ∀ id n : Nat, n < ceil → Yields n unseen
      (.known (.written id) :: held ++ [.token (Token.Kind.exactly kind) id]) (f (some id)) out ends)
    (hnone : Yields ceil (fun ts => sees ts ∧ kindAt ts ≠ kind) held (f none) out ends) :
    Yields ceil sees held (accept kind >>= f) out ends := by
  have hassoc : Grammar.accept kind >>= f = Grammar.isAt kind >>= fun b =>
      if b then Grammar.advance >>= fun id => f (some id) else f none := by
    unfold Grammar.accept
    rw [bind_assoc]
    congr
    funext b
    cases b <;> simp
  rw [hassoc]
  exact .isAt (.advanceWritten (fun ts hts => exactly_of_eq hts.2) (exactly_eof hkind)
    fun id n hn => (hsome id n hn).blind) hnone

theorem Yields.accept {kind : Token.Kind} {f : Option TokenId → Parse β} (hkind : kind ≠ .eof)
    (hsome : ∀ id n : Nat, n < ceil →
      Yields n unseen (held ++ [.token (Token.Kind.exactly kind) id]) (f (some id)) out ends)
    (hnone : Yields ceil (fun ts => sees ts ∧ kindAt ts ≠ kind) held (f none) out ends) :
    Yields ceil sees held (accept kind >>= f) out ends :=
  .acceptWritten hkind
    (fun id n hn => (hsome id n hn).offer (.of_sublist (List.sublist_cons_self ..))) hnone

theorem Yields.expect {kind : Token.Kind} {f : TokenId → Parse β} (hkind : kind ≠ .eof)
    (hf : ∀ id : Nat,
      Yields ceil unseen (held ++ [.token (Token.Kind.exactly kind) id]) (f id) out ends) :
    Yields ceil sees held (expect kind >>= f) out ends := by
  unfold Grammar.expect
  rw [bind_assoc]
  refine .isAt ?_ ?_
  · refine .advance (fun ts hts => exactly_of_eq hts.2) (exactly_eof hkind) fun id n hn => ?_
    exact ((hf id).weaken (Nat.le_of_lt hn) fun _ h => h).blind
  · rw [if_neg Bool.false_ne_true, bind_assoc]
    exact .reportMissing hkind hf

/-- A token that is expected where it stands is read, and is written. -/
theorem Yields.expectWritten {kind : Token.Kind} {f : TokenId → Parse β} (hkind : kind ≠ .eof)
    (hat : ∀ ts, sees ts → kindAt ts = kind)
    (hf : ∀ id n : Nat, n < ceil → Yields n unseen
      (.known (.written id) :: held ++ [.token (Token.Kind.exactly kind) id]) (f id) out ends) :
    Yields ceil sees held (Grammar.expect kind >>= f) out ends := by
  unfold Grammar.expect
  rw [bind_assoc]
  refine .isAt ?_ (.impossible fun ts hts => hts.2 (hat ts hts.1))
  exact .advanceWritten (fun ts hts => exactly_of_eq hts.2) (exactly_eof hkind)
    fun id n hn => (hf id n hn).blind

/-- A token that is expected where it stands is read. -/
theorem Yields.expect_past {kind : Token.Kind} {f : TokenId → Parse β} (hkind : kind ≠ .eof)
    (hat : ∀ ts, sees ts → kindAt ts = kind)
    (hf : ∀ id n : Nat, n < ceil →
      Yields n unseen (held ++ [.token (Token.Kind.exactly kind) id]) (f id) out ends) :
    Yields ceil sees held (Grammar.expect kind >>= f) out ends :=
  .expectWritten hkind hat fun id n hn =>
    (hf id n hn).offer (.of_sublist (List.sublist_cons_self ..))

/-- A closing token that is expected where it stands or where the text ends. -/
theorem Yields.expectClosed {kind : Token.Kind} {f : TokenId → Parse β} (hkind : kind ≠ .eof)
    (hat : ∀ ts, sees ts → kindAt ts = kind ∨ ts = [])
    (hf : ∀ id : Nat, Yields ceil unseen
      (.known (.closed id) :: held ++ [.token (Token.Kind.exactly kind) id]) (f id) out ends) :
    Yields ceil sees held (Grammar.expect kind >>= f) out ends := by
  unfold Grammar.expect
  rw [bind_assoc]
  refine .isAt ?_ ?_
  · refine .advanceWritten (fun ts hts => exactly_of_eq hts.2) (exactly_eof hkind) fun id n hn => ?_
    refine (((hf id).weaken (Nat.le_of_lt hn) fun _ h => h).offer ?_).blind
    exact Offers.infer (g := .closed id) (fun T h => .inl h) _
  · rw [if_neg Bool.false_ne_true, bind_assoc]
    refine .reportHere fun F s hceil hsees hgood => ?_
    obtain ⟨s', hinsert, hsize, hgood', hleads⟩ :=
      insertMissing_spec hkind (List.mem_append_right F (List.mem_append_right _
        (List.mem_singleton_self _))) hgood
    have hdrop : Offers ((held ++ [.reported]) ++ [.token (Token.Kind.exactly kind) s.read.size])
        (held ++ [.token (Token.Kind.exactly kind) s.read.size]) := .of_sublist (by simp)
    rw [List.append_assoc] at hgood'
    have hend : s.unread = [] := (hat _ hsees.1).resolve_left hsees.2
    refine Leads.step hinsert hleads (hf s.read.size F s' (Nat.le_trans hleads.left_le hceil) trivial
      ((hgood'.offer hdrop).learn (.inr ⟨hleads.grows.size_le, ?_⟩)))
    exact (hleads.grows.next (Nat.le_refl _)).trans (s.next?_layout.trans (by rw [hend]; rfl))

/-- What is put in place of the first tokens begins where they do. -/
theorem Follows.of_replace {s : State} {n : Nat} {tokens : List Token}
    (hedited : Edited s.tokens.toList (s.replace n tokens).tokens.toList)
    (hnext : Token.next? (tokens ++ s.unread.drop n) = Token.next? s.unread)
    (hhead : ∃ t ∈ tokens.head?, t.offset = s.current.offset) : Follows s (s.replace n tokens) where
  source_eq := rfl
  comments_eq := rfl
  eof_eq := rfl
  edited := hedited
  grows := State.extends_of_same rfl hnext rfl id
  kept := List.prefix_refl _
  front _ := by
    obtain ⟨t, ht, hoffset⟩ := hhead
    obtain ⟨rest, rfl⟩ := List.head?_eq_some_iff.1 ht
    rw [← hoffset]
    exact (s.replace n (t :: rest)).token_front

/-- A split operator is read as far as its angle bracket, so no token is gained. -/
theorem splitAngle_spec {s : State} {held : List Held} (h : Good s held) :
    ∃ s', expectAngle s = expectOperator .gt s' ∧ Good s' held ∧ Follows s s' ∧
      (s'.left = s.left ∨ s'.left = s.left + 1 ∧ s'.current.kind = .operator .gt) := by
  refine ⟨_, rfl, ?_⟩
  dsimp only
  split
  · rename_i t rest hunread
    have hleft : s.left = rest.length + 1 := by rw [s.left_eq, hunread]; rfl
    have hnext : Token.next? (splitAngle t ++ s.unread.drop 1) = Token.next? s.unread := by
      rw [hunread]
      exact next?_splitAngle (h.table.real t (by rw [hunread]; exact List.mem_cons_self ..)) rest
    have hsame : ReadsOn s (s.replace 1 (splitAngle t)) #[] :=
      ⟨h.table.splitAngle hunread, rfl, Array.append_empty.symm, rfl, rfl, rfl, hnext⟩
    refine ⟨hsame.good h, .of_replace (h.table.edited_splitAngle hunread) hnext ?_, ?_⟩
    · rw [State.current, hunread]
      unfold splitAngle
      split
      · split <;> exact ⟨_, rfl, rfl⟩
      · exact ⟨_, rfl, rfl⟩
    · unfold splitAngle
      split
      · split
        · right
          refine ⟨?_, rfl⟩
          simp [State.replace, hleft]
          omega
        · left
          rw [State.replace_self hunread]
      · left
        rw [State.replace_self hunread]
  · exact ⟨h, (Leads.refl s).toFollows, .inl rfl⟩

theorem Yields.expectAngle {f : TokenId → Parse β}
    (hf : ∀ id : Nat, Yields ceil unseen
      (held ++ [.token (Token.Kind.exactly (.operator .gt)) id]) (f id) out ends) :
    Yields ceil sees held (expectAngle >>= f) out ends := by
  intro F s hceil hsees hgood
  obtain ⟨s', hangle, hgood', hfollows, hleft⟩ := splitAngle_spec hgood
  have hbind : (Grammar.expectAngle >>= f) s = (Grammar.expectOperator .gt >>= f) s' := by
    show (Grammar.expectAngle s).bind _ = (Grammar.expectOperator .gt s').bind _
    rw [hangle]
  rw [hbind]
  -- Either nothing was split, or the first part is read at once.
  rcases hleft with hleft | ⟨hleft, hkind⟩
  · have hexpect : Yields ceil unseen held (Grammar.expectOperator .gt >>= f) out ends :=
      .expect nofun hf
    obtain ⟨b, s'', hf, hgood'', hleads, hends⟩ := hexpect F s' (hleft ▸ hceil) trivial hgood'
    exact ⟨b, s'', hf, hgood'',
      (Leads.of_left_eq hfollows hleft).trans hleads, hends⟩
  · have hexpect : Yields (s.left + 1) (fun ts => kindAt ts = .operator .gt) held
        (Grammar.expectOperator .gt >>= f) out fun b left => ends b left ∧ left ≤ s.left := by
      refine .expect_past nofun (fun _ h => h) fun id n hn => ?_
      have hle := Nat.le_of_lt_succ hn
      refine ((hf id).weaken (Nat.le_trans hle hceil) fun _ h => h).bounded.ending ?_
      exact fun b left hends => ⟨hends.1, Nat.le_trans hends.2 hle⟩
    rw [hgood'.table.current_kind] at hkind
    obtain ⟨b, s'', hf, hgood'', hleads, hends, hle⟩ :=
      hexpect F s' (Nat.le_of_eq hleft) hkind hgood'
    refine ⟨b, s'', hf, hgood'', ⟨hfollows.trans hleads.toFollows, hle, fun hlt => ?_⟩, hends⟩
    exact hfollows.stirs hleads (by omega)

/-- A token of given kinds, if one stands there. -/
theorem advance_reads {p : Token.Kind → Bool} (heof : p .eof = false) :
    Reads p [] Grammar.advance fun id => [.token p id] := by
  intro ceil
  rw [← bind_pure Grammar.advance]
  exact .advance (fun _ h => h) heof fun id n hn =>
    .pure (.refl _) fun left hle => Nat.lt_of_le_of_lt hle hn

theorem expect_makes {kind : Token.Kind} (hkind : kind ≠ .eof) :
    Makes [] (expect kind) fun id => [.token (Token.Kind.exactly kind) id] := by
  intro ceil
  rw [← bind_pure (expect kind)]
  exact .expect hkind fun id => .pure (.refl _) fun _ _ => trivial

theorem accept_makes {kind : Token.Kind} (hkind : kind ≠ .eof) :
    Makes [] (accept kind) fun id? => marked (Token.Kind.exactly kind) id?.toList := by
  intro ceil
  rw [← bind_pure (accept kind)]
  exact .accept hkind (fun id n _ => .pure (.refl _) fun _ _ => trivial)
    (.pure (.refl _) fun _ _ => trivial)

theorem expectPunctuation_makes (p : Punctuation) :
    Makes [] (expectPunctuation p) fun id => [.token (Token.Kind.exactly (.punctuation p)) id] :=
  expect_makes nofun

theorem acceptKeyword_makes (k : Keyword) :
    Makes [] (acceptKeyword k) fun id? => marked (Token.Kind.exactly (.keyword k)) id?.toList :=
  accept_makes nofun

theorem acceptPunctuation_makes (p : Punctuation) :
    Makes [] (acceptPunctuation p)
      fun id? => marked (Token.Kind.exactly (.punctuation p)) id?.toList :=
  accept_makes nofun

theorem acceptOperator_makes (o : Operator) :
    Makes [] (acceptOperator o) fun id? => marked (Token.Kind.exactly (.operator o)) id?.toList :=
  accept_makes nofun

end Reading

end Grammar

end DartAnalysis
