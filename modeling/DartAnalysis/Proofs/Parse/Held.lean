/-
  What a production has in hand, in the order in which it stands in the text: the tokens it has read
  and the nodes it has made, with what is known of each (`Held`). A hand lies between two places of
  the token table if each thing in it ends before the next one begins (`Lie`). A node is made of what
  is in hand: its slots and fields say what that has to be (`Node.Kind.parts`), and a node whose parts
  lie between its first and its last token is well-sorted (`Node.Kind.wellSorted`), its children lie
  apart (`Lie.row`).

  Two kinds of node do not take their children in the order of their fields: a unit, whose directives
  and declarations may alternate, and a class, whose clauses may come in any order. Of these is known
  in which orders they stand if nothing was reported (`Held.scattered`).
-/
import DartAnalysis.Proofs.Parse.Ground
import Mathlib.Data.List.Flatten
import Mathlib.Data.List.Perm.Subperm

namespace DartAnalysis

/-! ## Rows of nodes -/

/-- A node with its category. -/
abbrev Sorted := Category × NodeId

namespace Tables

/-- Nodes that stand one after the other between two tokens, each of its category. -/
def Row (T : Tables) : Nat → Nat → List Sorted → Prop
  | lo, hi, [] => lo ≤ hi
  | lo, hi, (c, n) :: row => T.Is c n ∧ ∃ shape, T.node? n = some shape ∧ lo ≤ shape.first ∧
      shape.first ≤ shape.last ∧ T.Row (shape.last + 1) hi row

variable {S T : Tables}

theorem Row.le {lo hi : Nat} {row : List Sorted} (h : T.Row lo hi row) : lo ≤ hi := by
  induction row generalizing lo with
  | nil => exact h
  | cons x row ih =>
    obtain ⟨-, shape, -, hlo, hspan, hrow⟩ := h
    have hstop := ih hrow
    omega

theorem Row.mono (hle : S.Extends T) {lo hi : Nat} {row : List Sorted} (h : S.Row lo hi row) :
    T.Row lo hi row := by
  induction row generalizing lo with
  | nil => exact h
  | cons x row ih =>
    obtain ⟨his, shape, hshape, hlo, hspan, hrow⟩ := h
    exact ⟨his.mono hle, shape, hle.node hshape, hlo, hspan, ih hrow⟩

theorem Row.widen {lo hi lo' hi' : Nat} (hlo : lo' ≤ lo) (hhi : hi ≤ hi') {row : List Sorted}
    (h : T.Row lo hi row) : T.Row lo' hi' row := by
  induction row generalizing lo lo' with
  | nil => exact Nat.le_trans hlo (Nat.le_trans h hhi)
  | cons x row ih =>
    obtain ⟨his, shape, hshape, hfirst, hspan, hrow⟩ := h
    exact ⟨his, shape, hshape, Nat.le_trans hlo hfirst, hspan, ih (Nat.le_refl _) hrow⟩

theorem row_append {lo hi : Nat} {row row' : List Sorted} :
    T.Row lo hi (row ++ row') ↔ ∃ mid, T.Row lo mid row ∧ T.Row mid hi row' := by
  induction row generalizing lo with
  | nil =>
    refine ⟨fun h => ⟨lo, Nat.le_refl _, h⟩, ?_⟩
    rintro ⟨mid, hmid, h⟩
    exact h.widen hmid (Nat.le_refl _)
  | cons x row ih =>
    constructor
    · rintro ⟨his, shape, hshape, hlo, hspan, hrow⟩
      obtain ⟨mid, hrow, hrow'⟩ := ih.1 hrow
      exact ⟨mid, ⟨his, shape, hshape, hlo, hspan, hrow⟩, hrow'⟩
    · rintro ⟨mid, ⟨his, shape, hshape, hlo, hspan, hrow⟩, hrow'⟩
      exact ⟨his, shape, hshape, hlo, hspan, ih.2 ⟨mid, hrow, hrow'⟩⟩

/-- Each node of a row is of its category and lies between the two tokens. -/
theorem Row.bounds {lo hi : Nat} {row : List Sorted} (h : T.Row lo hi row) :
    ∀ x ∈ row, T.Is x.1 x.2 ∧ ∃ shape, T.node? x.2 = some shape ∧ lo ≤ shape.first ∧
      shape.first ≤ shape.last ∧ shape.last < hi := by
  induction row generalizing lo with
  | nil => exact nofun
  | cons y row ih =>
    obtain ⟨his, shape, hshape, hlo, hspan, hrow⟩ := h
    intro x hx
    rcases List.mem_cons.1 hx with rfl | hx
    · exact ⟨his, shape, hshape, hlo, hspan, hrow.le⟩
    · obtain ⟨his, shape', hshape', hlo', hspan', hhi'⟩ := ih hrow x hx
      exact ⟨his, shape', hshape', by omega, hspan', hhi'⟩

/-- Of two nodes of a row the first one ends before the second one begins. -/
theorem Row.pairwise {lo hi : Nat} {row : List Sorted} (h : T.Row lo hi row) :
    row.Pairwise fun x y => ∀ s s', T.node? x.2 = some s → T.node? y.2 = some s' →
      s.last < s'.first := by
  induction row generalizing lo with
  | nil => exact .nil
  | cons x row ih =>
    obtain ⟨his, shape, hshape, hlo, hspan, hrow⟩ := h
    refine .cons (fun y hy s s' hs hs' => ?_) (ih hrow)
    obtain ⟨-, shape', hshape', hlo', -⟩ := hrow.bounds y hy
    obtain rfl := Option.some.inj (hshape.symm.trans hs)
    obtain rfl := Option.some.inj (hshape'.symm.trans hs')
    exact hlo'

end Tables

/-! ## Things in hand -/

/-- A thing in hand, with what is known of it. -/
inductive Held where
  /-- A token of certain kinds. -/
  | token (p : Token.Kind → Bool) (t : TokenId)
  | node (c : Category) (n : NodeId)
  /-- The URI of a directive, which is a string if nothing was reported. -/
  | uri (n : NodeId)
  /-- A place between two tokens. -/
  | mark (place : TokenId)
  /-- A token that stands somewhere. -/
  | noted (p : Token.Kind → Bool) (t : TokenId)
  /-- A node that stands somewhere. -/
  | loose (c : Category) (n : NodeId)
  /-- Something was reported. -/
  | reported
  /-- Something was learned. -/
  | known (f : Fact)
  /-- Nodes that stand in some order, and in one of the given ones if nothing was reported. -/
  | scattered (row : List Sorted) (orders : List (List Sorted))

namespace Held

/-- Where a thing may lie: after the tokens below the one place and before the other place. -/
def Lies (T : Ground) (lo hi : Nat) : Held → Prop
  | token p t => T.Has p t ∧ lo ≤ t ∧ t < hi
  | node c n => T.Row lo hi [(c, n)]
  | uri n => T.Row lo hi [(.uri, n)] ∧ (T.clean → T.Is .string n)
  | mark place => lo ≤ place ∧ place ≤ hi
  | noted p t => T.Has p t ∧ lo ≤ hi
  | loose c n => T.Is c n ∧ lo ≤ hi
  | reported => ¬ T.clean ∧ lo ≤ hi
  | known f => f.Holds T ∧ lo ≤ hi
  | scattered row orders => (∃ row', row'.Perm row ∧ T.Row lo hi row') ∧
      (T.clean → ∃ order ∈ orders, T.Row lo hi order)

/-- The nodes that have a place, with their categories. -/
def located : Held → List Sorted
  | node c n => [(c, n)]
  | uri n => [(.uri, n)]
  | scattered row _ => row
  | _ => []

def nodes : Held → List NodeId
  | loose _ n => [n]
  | h => h.located.map Prod.snd

/-- May stand anywhere. -/
def isLoose : Held → Bool
  | noted .. | loose .. | reported | known .. => true
  | _ => false

/-- Takes up at least one token. -/
def isSolid : Held → Bool
  | token .. | node .. | uri .. => true
  | _ => false

variable {S T : Ground} {lo hi : Nat}

theorem Lies.le {x : Held} (h : x.Lies T lo hi) : lo ≤ hi := by
  cases x with
  | token p t => exact Nat.le_trans h.2.1 (Nat.le_of_lt h.2.2)
  | node c n => exact Tables.Row.le h
  | uri n => exact h.1.le
  | mark place => exact Nat.le_trans h.1 h.2
  | noted p t => exact h.2
  | loose c n => exact h.2
  | reported => exact h.2
  | known f => exact h.2
  | scattered row orders =>
    obtain ⟨⟨row', -, hrow⟩, -⟩ := h
    exact hrow.le

theorem Lies.mono (hle : S.Extends T) {x : Held} (h : x.Lies S lo hi) : x.Lies T lo hi := by
  have htables := hle.toExtends
  cases x with
  | token p t => exact ⟨h.1.mono htables, h.2⟩
  | node c n => exact Tables.Row.mono htables h
  | uri n => exact ⟨h.1.mono htables, fun hclean => (h.2 (hle.clean hclean)).mono htables⟩
  | mark place => exact h
  | noted p t => exact ⟨h.1.mono htables, h.2⟩
  | loose c n => exact ⟨h.1.mono htables, h.2⟩
  | reported => exact ⟨fun hclean => h.1 (hle.clean hclean), h.2⟩
  | known f => exact ⟨f.mono hle h.1, h.2⟩
  | scattered row orders =>
    obtain ⟨⟨row', hperm, hrow⟩, horder⟩ := h
    refine ⟨⟨row', hperm, hrow.mono htables⟩, fun hclean => ?_⟩
    obtain ⟨order, hmem, hrow⟩ := horder (hle.clean hclean)
    exact ⟨order, hmem, hrow.mono htables⟩

theorem Lies.widen {lo' hi' : Nat} (hlo : lo' ≤ lo) (hhi : hi ≤ hi') {x : Held}
    (h : x.Lies T lo hi) : x.Lies T lo' hi' := by
  have hle := Nat.le_trans hlo (Nat.le_trans h.le hhi)
  cases x with
  | token p t => exact ⟨h.1, Nat.le_trans hlo h.2.1, Nat.lt_of_lt_of_le h.2.2 hhi⟩
  | node c n => exact Tables.Row.widen hlo hhi h
  | uri n => exact ⟨h.1.widen hlo hhi, h.2⟩
  | mark place => exact ⟨Nat.le_trans hlo h.1, Nat.le_trans h.2 hhi⟩
  | noted p t => exact ⟨h.1, hle⟩
  | loose c n => exact ⟨h.1, hle⟩
  | reported => exact ⟨h.1, hle⟩
  | known f => exact ⟨h.1, hle⟩
  | scattered row orders =>
    obtain ⟨⟨row', hperm, hrow⟩, horder⟩ := h
    refine ⟨⟨row', hperm, hrow.widen hlo hhi⟩, fun hclean => ?_⟩
    obtain ⟨order, hmem, hrow⟩ := horder hclean
    exact ⟨order, hmem, hrow.widen hlo hhi⟩

theorem Lies.lt {x : Held} (h : x.Lies T lo hi) (hsolid : x.isSolid = true) : lo < hi := by
  cases x with
  | token p t => exact Nat.lt_of_le_of_lt h.2.1 h.2.2
  | node c n =>
    obtain ⟨-, shape, -, hlo, hspan, hhi⟩ := h
    exact Nat.lt_of_le_of_lt (Nat.le_trans hlo hspan) hhi
  | uri n =>
    obtain ⟨⟨-, shape, -, hlo, hspan, hhi⟩, -⟩ := h
    exact Nat.lt_of_le_of_lt (Nat.le_trans hlo hspan) hhi
  | _ => cases hsolid

end Held

/-- Things that lie one after the other. -/
def Lie (T : Ground) : Nat → Nat → List Held → Prop
  | lo, hi, [] => lo ≤ hi
  | lo, hi, x :: held => ∃ mid, x.Lies T lo mid ∧ Lie T mid hi held

namespace Lie

variable {S T : Ground} {lo hi : Nat} {held held' : List Held}

theorem le (h : Lie T lo hi held) : lo ≤ hi := by
  induction held generalizing lo with
  | nil => exact h
  | cons x held ih =>
    obtain ⟨mid, hx, hrest⟩ := h
    exact Nat.le_trans hx.le (ih hrest)

theorem mono (hle : S.Extends T) (h : Lie S lo hi held) : Lie T lo hi held := by
  induction held generalizing lo with
  | nil => exact h
  | cons x held ih =>
    obtain ⟨mid, hx, hrest⟩ := h
    exact ⟨mid, hx.mono hle, ih hrest⟩

theorem widen {lo' hi' : Nat} (hlo : lo' ≤ lo) (hhi : hi ≤ hi') (h : Lie T lo hi held) :
    Lie T lo' hi' held := by
  induction held generalizing lo lo' with
  | nil => exact Nat.le_trans hlo (Nat.le_trans h hhi)
  | cons x held ih =>
    obtain ⟨mid, hx, hrest⟩ := h
    exact ⟨mid, hx.widen hlo (Nat.le_refl _), ih (Nat.le_refl _) hrest⟩

theorem append_iff : Lie T lo hi (held ++ held') ↔
    ∃ mid, Lie T lo mid held ∧ Lie T mid hi held' := by
  induction held generalizing lo with
  | nil =>
    refine ⟨fun h => ⟨lo, Nat.le_refl _, h⟩, ?_⟩
    rintro ⟨mid, hmid, h⟩
    exact h.widen hmid (Nat.le_refl _)
  | cons x held ih =>
    constructor
    · rintro ⟨mid, hx, hrest⟩
      obtain ⟨mid', hrest, hrest'⟩ := ih.1 hrest
      exact ⟨mid', ⟨mid, hx, hrest⟩, hrest'⟩
    · rintro ⟨mid', ⟨mid, hx, hrest⟩, hrest'⟩
      exact ⟨mid, hx, ih.2 ⟨mid', hrest, hrest'⟩⟩

theorem singleton_iff {x : Held} : Lie T lo hi [x] ↔ x.Lies T lo hi := by
  constructor
  · rintro ⟨mid, hx, hmid⟩
    exact hx.widen (Nat.le_refl _) hmid
  · exact fun hx => ⟨hi, hx, Nat.le_refl _⟩

theorem sublist (hsub : held'.Sublist held) (h : Lie T lo hi held) : Lie T lo hi held' := by
  induction hsub generalizing lo with
  | slnil => exact h
  | cons x _ ih =>
    obtain ⟨mid, hx, hrest⟩ := h
    exact (ih hrest).widen hx.le (Nat.le_refl _)
  | cons_cons x _ ih =>
    obtain ⟨mid, hx, hrest⟩ := h
    exact ⟨mid, hx, ih hrest⟩

theorem lies (h : Lie T lo hi held) {x : Held} (hx : x ∈ held) : x.Lies T lo hi :=
  singleton_iff.1 (h.sublist (List.singleton_sublist.2 hx))

theorem lt (h : Lie T lo hi held) (hsolid : held.any Held.isSolid = true) : lo < hi := by
  obtain ⟨x, hx, hsolid⟩ := List.any_eq_true.1 hsolid
  exact (h.lies hx).lt hsolid

/-- The nodes that have a place stand in a row, in some order. -/
theorem row (h : Lie T lo hi held) :
    ∃ row, row.Perm (held.flatMap Held.located) ∧ T.Row lo hi row := by
  induction held generalizing lo with
  | nil => exact ⟨[], .refl _, h⟩
  | cons x held ih =>
    obtain ⟨mid, hx, hrest⟩ := h
    obtain ⟨row, hperm, hrow⟩ := ih hrest
    obtain ⟨first, hfirst, hx⟩ : ∃ first, first.Perm x.located ∧ T.Row lo mid first := by
      cases x with
      | node c n => exact ⟨_, .refl _, hx⟩
      | uri n => exact ⟨_, .refl _, hx.1⟩
      | scattered row orders => exact hx.1
      | _ => exact ⟨[], .refl _, hx.le⟩
    exact ⟨first ++ row, hfirst.append hperm, Tables.row_append.2 ⟨mid, hx, hrow⟩⟩

end Lie

/-! ## Hands -/

/-- Tokens in hand, all of which are of certain kinds. -/
def marked (p : Token.Kind → Bool) (ts : List TokenId) : List Held := ts.map (.token p)

/-- Nodes in hand, all of which are of a category. -/
def tagged (c : Category) (ns : List NodeId) : List Held := ns.map (.node c)

/-- Comments in hand. -/
def commented (ns : List NodeId) : List Held := ns.map (.loose .comment)

/-- Facts in hand. -/
def knowing (fs : List Fact) : List Held := fs.map .known

/-- Tokens that stand somewhere. -/
def scanned (p : Token.Kind → Bool) (ts : List TokenId) : List Held := ts.map (.noted p)

/-- Nodes of one category. -/
def sorted (c : Category) (ns : List NodeId) : List Sorted := ns.map (c, ·)

/-- The nodes among what is in hand. -/
def nodesOf (held : List Held) : List NodeId := held.flatMap Held.nodes

section Simp

variable (p : Token.Kind → Bool) (c : Category)

@[simp] theorem marked_nil : marked p [] = [] := rfl

@[simp] theorem marked_cons (t : TokenId) (ts : List TokenId) :
    marked p (t :: ts) = .token p t :: marked p ts := rfl

@[simp] theorem tagged_nil : tagged c [] = [] := rfl

@[simp] theorem tagged_cons (n : NodeId) (ns : List NodeId) :
    tagged c (n :: ns) = .node c n :: tagged c ns := rfl

@[simp] theorem tagged_append (ms ns : List NodeId) :
    tagged c (ms ++ ns) = tagged c ms ++ tagged c ns := by
  simp [tagged]

@[simp] theorem commented_nil : commented [] = [] := rfl

@[simp] theorem commented_cons (n : NodeId) (ns : List NodeId) :
    commented (n :: ns) = .loose .comment n :: commented ns := rfl

@[simp] theorem knowing_nil : knowing [] = [] := rfl

@[simp] theorem knowing_cons (f : Fact) (fs : List Fact) :
    knowing (f :: fs) = .known f :: knowing fs := rfl

@[simp] theorem scanned_nil : scanned p [] = [] := rfl

@[simp] theorem scanned_cons (t : TokenId) (ts : List TokenId) :
    scanned p (t :: ts) = .noted p t :: scanned p ts := rfl

@[simp] theorem sorted_nil : sorted c [] = [] := rfl

@[simp] theorem sorted_cons (n : NodeId) (ns : List NodeId) :
    sorted c (n :: ns) = (c, n) :: sorted c ns := rfl

@[simp] theorem sorted_append (ms ns : List NodeId) :
    sorted c (ms ++ ns) = sorted c ms ++ sorted c ns := by
  simp [sorted]

@[simp] theorem map_snd_sorted (ns : List NodeId) : (sorted c ns).map Prod.snd = ns := by
  simp [sorted, Function.comp_def]

@[simp] theorem nodesOf_nil : nodesOf [] = [] := rfl

@[simp] theorem nodesOf_append (xs ys : List Held) :
    nodesOf (xs ++ ys) = nodesOf xs ++ nodesOf ys := by
  simp [nodesOf]

@[simp] theorem nodesOf_cons (x : Held) (xs : List Held) : nodesOf (x :: xs) = x.nodes ++ nodesOf xs :=
  List.flatMap_cons

@[simp] theorem nodesOf_marked (ts : List TokenId) : nodesOf (marked p ts) = [] := by
  simp [nodesOf, marked, Held.nodes, Held.located]

@[simp] theorem nodesOf_scanned (ts : List TokenId) : nodesOf (scanned p ts) = [] := by
  simp [nodesOf, scanned, Held.nodes, Held.located]

@[simp] theorem nodesOf_tagged (ns : List NodeId) : nodesOf (tagged c ns) = ns := by
  simp [nodesOf, tagged, Held.nodes, Held.located, List.flatMap_map]

@[simp] theorem nodesOf_commented (ns : List NodeId) : nodesOf (commented ns) = ns := by
  simp [nodesOf, commented, Held.nodes, List.flatMap_map]

@[simp] theorem nodesOf_knowing (fs : List Fact) : nodesOf (knowing fs) = [] := by
  simp [nodesOf, knowing, Held.nodes, Held.located]

@[simp] theorem any_isSolid_tagged (ns : List NodeId) :
    (tagged c ns).any Held.isSolid = !ns.isEmpty := by
  cases ns <;> rfl

@[simp] theorem all_isLoose_commented (ns : List NodeId) :
    (commented ns).all Held.isLoose = true := by
  simp [commented, Held.isLoose]

@[simp] theorem all_isLoose_scanned (ts : List TokenId) :
    (scanned p ts).all Held.isLoose = true := by
  simp [scanned, Held.isLoose]

end Simp

/-! ## What stands anywhere -/

namespace Held

theorem Lies.anywhere {T : Ground} {lo hi lo' hi' : Nat} {x : Held} (h : x.Lies T lo hi)
    (hloose : x.isLoose = true) (hle : lo' ≤ hi') : x.Lies T lo' hi' := by
  cases x with
  | noted p t => exact ⟨h.1, hle⟩
  | loose c n => exact ⟨h.1, hle⟩
  | reported => exact ⟨h.1, hle⟩
  | known f => exact ⟨h.1, hle⟩
  | _ => cases hloose

end Held

namespace Lie

variable {T : Ground} {lo hi lo' hi' : Nat} {held loose : List Held}

theorem anywhere (h : Lie T lo hi loose) (hloose : loose.all Held.isLoose = true)
    (hle : lo' ≤ hi') : Lie T lo' hi' loose := by
  induction loose generalizing lo with
  | nil => exact hle
  | cons x loose ih =>
    obtain ⟨mid, hx, hrest⟩ := h
    rw [List.all_cons, Bool.and_eq_true] at hloose
    exact ⟨lo', hx.anywhere hloose.1 (Nat.le_refl _), ih hrest hloose.2⟩

theorem swap (hloose : loose.all Held.isLoose = true) (h : Lie T lo hi (loose ++ held)) :
    Lie T lo hi (held ++ loose) := by
  obtain ⟨mid, hfirst, hrest⟩ := append_iff.1 h
  exact append_iff.2 ⟨hi, hrest.widen hfirst.le (Nat.le_refl _), hfirst.anywhere hloose (Nat.le_refl _)⟩

theorem swap_back (hloose : loose.all Held.isLoose = true) (h : Lie T lo hi (held ++ loose)) :
    Lie T lo hi (loose ++ held) := by
  obtain ⟨mid, hfirst, hrest⟩ := append_iff.1 h
  exact append_iff.2 ⟨lo, hrest.anywhere hloose (Nat.le_refl _), hfirst.widen (Nat.le_refl _) hrest.le⟩

end Lie

/-! ## Offers -/

/-- What is in hand may be let go of, and known less of. -/
structure Offers (held wanted : List Held) : Prop where
  subperm : (nodesOf wanted).Subperm (nodesOf held)
  lie : ∀ {T : Ground} {lo hi : Nat}, Lie T lo hi held → Lie T lo hi wanted

namespace Offers

theorem refl (held : List Held) : Offers held held := ⟨.refl _, id⟩

theorem of_eq {held wanted : List Held} (h : held = wanted) : Offers held wanted := h ▸ refl held

theorem of_sublist {held wanted : List Held} (h : wanted.Sublist held) : Offers held wanted :=
  ⟨(h.flatMap Held.nodes).subperm, Lie.sublist h⟩

theorem trans {x y z : List Held} (hxy : Offers x y) (hyz : Offers y z) : Offers x z :=
  ⟨hyz.subperm.trans hxy.subperm, fun h => hyz.lie (hxy.lie h)⟩

theorem append {x y x' y' : List Held} (h : Offers x y) (h' : Offers x' y') :
    Offers (x ++ x') (y ++ y') where
  subperm := by
    rw [nodesOf_append, nodesOf_append]
    exact h.subperm.append h'.subperm
  lie hlie := by
    obtain ⟨mid, hfirst, hrest⟩ := Lie.append_iff.1 hlie
    exact Lie.append_iff.2 ⟨mid, h.lie hfirst, h'.lie hrest⟩

theorem append_left (held : List Held) {x y : List Held} (h : Offers x y) :
    Offers (held ++ x) (held ++ y) :=
  (refl held).append h

theorem append_right {x y : List Held} (h : Offers x y) (held : List Held) :
    Offers (x ++ held) (y ++ held) :=
  h.append (refl held)

theorem cons (x : Held) {held wanted : List Held} (h : Offers held wanted) :
    Offers (x :: held) (x :: wanted) :=
  append_left [x] h

/-- The last of what is in hand is offered without the rest. -/
theorem suffix {taken wanted : List Held} (others : List Held) (h : Offers taken wanted) :
    Offers (others ++ taken) wanted :=
  trans (of_sublist (List.sublist_append_right _ _)) h

theorem widen {c d : Category} (h : c.Within d) (ns : List NodeId) :
    Offers (tagged c ns) (tagged d ns) where
  subperm := by
    rw [nodesOf_tagged, nodesOf_tagged]
  lie {T lo hi} hlie := by
    induction ns generalizing lo with
    | nil => exact hlie
    | cons n ns ih =>
      obtain ⟨mid, ⟨his, hshape⟩, hrest⟩ := hlie
      exact ⟨mid, ⟨his.weaken h, hshape⟩, ih hrest⟩

theorem weaken {p q : Token.Kind → Bool} (h : ∀ k, p k = true → q k = true) (ts : List TokenId) :
    Offers (marked p ts) (marked q ts) where
  subperm := by
    rw [nodesOf_marked, nodesOf_marked]
  lie {T lo hi} hlie := by
    induction ts generalizing lo with
    | nil => exact hlie
    | cons t ts ih =>
      obtain ⟨mid, ⟨hhas, hspan⟩, hrest⟩ := hlie
      exact ⟨mid, ⟨hhas.weaken h, hspan⟩, ih hrest⟩

theorem swap {loose : List Held} (hloose : loose.all Held.isLoose = true) (held : List Held) :
    Offers (loose ++ held) (held ++ loose) where
  subperm := by
    rw [nodesOf_append, nodesOf_append]
    exact List.perm_append_comm.subperm
  lie := Lie.swap hloose

theorem swap_back {loose : List Held} (hloose : loose.all Held.isLoose = true)
    (held : List Held) : Offers (held ++ loose) (loose ++ held) where
  subperm := by
    rw [nodesOf_append, nodesOf_append]
    exact List.perm_append_comm.subperm
  lie := Lie.swap_back hloose

/-- What follows from something known is known. -/
theorem infer {f g : Fact} (h : ∀ T : Ground, f.Holds T → g.Holds T) (held : List Held) :
    Offers (.known f :: held) (.known g :: held) where
  subperm := .refl _
  lie hlie := by
    obtain ⟨mid, hf, hrest⟩ := hlie
    exact ⟨mid, ⟨h _ hf.1, hf.2⟩, hrest⟩

/-- A written token stands behind the places that were marked before it. -/
theorem stirred {place token : Nat} {p : Token.Kind → Bool} {before : List Held}
    (hmark : .mark place ∈ before) :
    Offers (.known (.written token) :: before ++ [.token p token])
      (.known (.stirred place) :: before ++ [.token p token]) where
  subperm := .refl _
  lie hlie := by
    obtain ⟨mid, hwritten, hrest⟩ := hlie
    obtain ⟨mid', hbefore, htoken⟩ := Lie.append_iff.1 hrest
    have hplace := (hbefore.lies hmark).2
    have htoken := (Lie.singleton_iff.1 htoken).2.1
    exact ⟨mid, ⟨⟨token, Nat.le_trans hplace htoken, hwritten.1⟩, hwritten.2⟩, hrest⟩

/-- What was learned meanwhile is known from the start. -/
theorem float (f : Fact) (before after : List Held) :
    Offers (before ++ .known f :: after) (.known f :: (before ++ after)) := by
  have hfront : Offers (before ++ [.known f]) ([.known f] ++ before) := .swap_back rfl before
  simpa using hfront.append_right after

/-- What is known may be asked for later. -/
theorem sink (f : Fact) (before after : List Held) :
    Offers (.known f :: (before ++ after)) (before ++ .known f :: after) := by
  have hback : Offers ([.known f] ++ before) (before ++ [.known f]) := .swap rfl before
  simpa using hback.append_right after

/-- Where a token stands need not be known. -/
theorem scanned (p : Token.Kind → Bool) (ts : List TokenId) :
    Offers (marked p ts) (DartAnalysis.scanned p ts) where
  subperm := by
    rw [nodesOf_marked, nodesOf_scanned]
  lie {T lo hi} hlie := by
    induction ts generalizing lo with
    | nil => exact hlie
    | cons t ts ih =>
      obtain ⟨mid, ⟨hhas, hlo, hlt⟩, hrest⟩ := hlie
      exact ⟨mid, ⟨hhas, Nat.le_trans hlo (Nat.le_of_lt hlt)⟩, ih hrest⟩

/-- Where a node stands need not be known. -/
theorem loosen (c : Category) (n : NodeId) : Offers [.node c n] [.loose c n] where
  subperm := .refl _
  lie hlie := Lie.singleton_iff.2 ⟨(Lie.singleton_iff.1 hlie).1, hlie.le⟩

/-- A string is a URI. -/
theorem uri_of_string (n : NodeId) : Offers [.node .string n] [.uri n] where
  subperm := .refl _
  lie hlie := by
    obtain ⟨his, hshape⟩ := Lie.singleton_iff.1 hlie
    exact Lie.singleton_iff.2 ⟨⟨his.weaken Category.string_within_uri, hshape⟩, fun _ => his⟩

/-- A name that was reported may stand for a URI. -/
theorem uri_of_reported (n : NodeId) : Offers [.reported, .node .uri n] [.uri n] where
  subperm := .refl _
  lie hlie := by
    obtain ⟨mid, hreported, hnode⟩ := hlie
    have hnode := (Lie.singleton_iff.1 hnode).widen hreported.2 (Nat.le_refl _)
    exact Lie.singleton_iff.2 ⟨hnode, fun hclean => absurd hclean hreported.1⟩

/-- A token in hand may also be remembered without its place. -/
theorem remember {p : Token.Kind → Bool} {t : TokenId} {held : List Held}
    (hmem : .token p t ∈ held) : Offers held (.noted p t :: held) where
  subperm := .refl _
  lie hlie := ⟨_, ⟨(hlie.lies hmem).1, Nat.le_refl _⟩, hlie⟩

/-- A token may be remembered without its place behind what follows it. -/
theorem note_after (p : Token.Kind → Bool) (t : TokenId) (held : List Held) :
    Offers (.token p t :: held) (held ++ [.noted p t]) :=
  (append_right (scanned p [t]) held).trans (swap (all_isLoose_scanned p [t]) held)

/-- A place stands before itself. -/
theorem mark_again (place : TokenId) : Offers [.mark place] [.mark place, .mark place] where
  subperm := .refl _
  lie {T lo hi} hlie := by
    obtain ⟨hlo, hhi⟩ := Lie.singleton_iff.1 hlie
    exact ⟨place, ⟨hlo, Nat.le_refl _⟩, Lie.singleton_iff.2 ⟨Nat.le_refl _, hhi⟩⟩

/-- The place of a token stands before it. -/
theorem mark_token (p : Token.Kind → Bool) (t : TokenId) :
    Offers [.token p t] [.mark t, .token p t] where
  subperm := .refl _
  lie {T lo hi} hlie := by
    obtain ⟨hhas, hlo, hhi⟩ := Lie.singleton_iff.1 hlie
    exact ⟨t, ⟨hlo, Nat.le_refl _⟩, Lie.singleton_iff.2 ⟨hhas, Nat.le_refl _, hhi⟩⟩

/-! ### Scattered nodes -/

theorem scattered_nil {orders : List (List Sorted)} (hmem : [] ∈ orders) :
    Offers [] [.scattered [] orders] where
  subperm := .refl _
  lie hlie :=
    Lie.singleton_iff.2 ⟨⟨[], .refl _, hlie⟩, fun _ => ⟨[], hmem, hlie⟩⟩

/-- One more node behind scattered ones. -/
theorem scattered_snoc (row : List Sorted) (orders : List (List Sorted)) (c : Category)
    (n : NodeId) :
    Offers [.scattered row orders, .node c n]
      [.scattered (row ++ [(c, n)]) (orders.map (· ++ [(c, n)]))] where
  subperm := by simpa [Held.nodes, Held.located] using List.Subperm.refl _
  lie {T lo hi} hlie := by
    obtain ⟨mid, ⟨⟨row', hperm, hrow⟩, hclean⟩, hnode⟩ := hlie
    have hnode : T.Row mid hi [(c, n)] := Lie.singleton_iff.1 hnode
    refine Lie.singleton_iff.2 ⟨⟨row' ++ [(c, n)], hperm.append_right _, ?_⟩, fun h => ?_⟩
    · exact Tables.row_append.2 ⟨mid, hrow, hnode⟩
    · obtain ⟨order, hmem, horder⟩ := hclean h
      exact ⟨_, List.mem_map_of_mem hmem, Tables.row_append.2 ⟨mid, horder, hnode⟩⟩

/-- Scattered nodes may be listed differently, and with more orders. -/
theorem rescatter {row row' : List Sorted} {orders orders' : List (List Sorted)}
    (hperm : row.Perm row') (horders : ∀ order ∈ orders, order ∈ orders') :
    Offers [.scattered row orders] [.scattered row' orders'] where
  subperm := by
    simpa [Held.nodes, Held.located] using (hperm.symm.map Prod.snd).subperm
  lie {T lo hi} hlie := by
    obtain ⟨⟨row'', hperm', hrow⟩, hclean⟩ := Lie.singleton_iff.1 hlie
    refine Lie.singleton_iff.2 ⟨⟨row'', hperm'.trans hperm, hrow⟩, fun h => ?_⟩
    obtain ⟨order, hmem, horder⟩ := hclean h
    exact ⟨order, horders order hmem, horder⟩

/-- Where something was reported any orders may be claimed. -/
theorem disorder {row row' : List Sorted} (orders orders' : List (List Sorted))
    (hperm : row.Perm row') :
    Offers [.reported, .scattered row orders] [.scattered row' orders'] where
  subperm := by
    simpa [Held.nodes, Held.located] using (hperm.symm.map Prod.snd).subperm
  lie {T lo hi} hlie := by
    obtain ⟨mid, hreported, hscattered⟩ := hlie
    obtain ⟨⟨row'', hperm', hrow⟩, -⟩ := Lie.singleton_iff.1 hscattered
    refine Lie.singleton_iff.2 ⟨⟨row'', hperm'.trans hperm, hrow.widen hreported.2 (Nat.le_refl _)⟩, ?_⟩
    exact fun h => absurd h hreported.1

section Snoc

variable {row row' : List Sorted} {orders orders' : List (List Sorted)} {c : Category} {n : NodeId}

/-- One more node, in one of the orders that may be claimed then. -/
theorem scattered_then (hperm : (row ++ [(c, n)]).Perm row')
    (horders : ∀ order ∈ orders, order ++ [(c, n)] ∈ orders') :
    Offers [.scattered row orders, .node c n] [.scattered row' orders'] := by
  refine (scattered_snoc row orders c n).trans (rescatter hperm fun order horder => ?_)
  obtain ⟨before, hbefore, rfl⟩ := List.mem_map.1 horder
  exact horders before hbefore

/-- One more node that was reported to stand out of order. -/
theorem scattered_reported (hperm : (row ++ [(c, n)]).Perm row') :
    Offers [.scattered row orders, .node c n, .reported] [.scattered row' orders'] :=
  (append_right (scattered_snoc row orders c n) [.reported]).trans
    ((swap_back rfl _).trans (disorder _ _ hperm))

end Snoc

end Offers

/-! ## What a node is made of -/

/-- What a field holds, as it is in hand before the node is made; comments are in hand earlier. -/
def Slot.laid : Slot → Field → List Held
  | .token p, .token t => [.token p t]
  | .token? p, .token? t? => marked p t?.toList
  | .delimiter? p, .token? t? => scanned p t?.toList
  | .node c, .node n => [.node c n]
  | .node? c, .node? n? => tagged c n?.toList
  | .nodes c, .nodes ns => tagged c ns
  | .uri, .node n => [.uri n]
  | _, _ => []

def laid (slots : List Slot) (fields : List Field) : List Held :=
  (List.zipWith Slot.laid slots fields).flatten

/-- The clauses of a class heading, in the order of their fields. -/
def headingRow (extends? with? implements? : Option NodeId) : List Sorted :=
  sorted .extendsClause extends?.toList ++ sorted .withClause with?.toList ++
    sorted .implementsClause implements?.toList

/-- The orders in which the clauses of a class heading may stand without a report. -/
def headingOrders (extends? with? implements? : Option NodeId) : List (List Sorted) :=
  [headingRow extends? with? implements?,
   sorted .extendsClause extends?.toList ++ sorted .implementsClause implements?.toList ++
    sorted .withClause with?.toList]

/-- What a node is made of besides its comment. -/
def Node.Kind.makings : Node.Kind → List Held
  | .unit directives declarations =>
    [.scattered (sorted .directive directives ++ sorted .declaration declarations)
      [sorted .directive directives ++ sorted .declaration declarations]]
  | .declaration (.classDecl _ abstract? keyword name typeParameters? extends? with? implements?
      leftBrace members rightBrace) =>
    laid [.keyword? .abstractKw, .keyword .classKw, .node .name, .node? .typeParameterList]
        [.token? abstract?, .token keyword, .node name, .node? typeParameters?] ++
      .scattered (headingRow extends? with? implements?)
        (headingOrders extends? with? implements?) ::
      laid [.punctuation .openCurly, .nodes .member, .punctuation .closeCurly]
        [.token leftBrace, .nodes members, .token rightBrace]
  | kind => laid kind.slots kind.fields

/-- What a node is made of. -/
def Node.Kind.content (kind : Node.Kind) : List Held :=
  commented kind.comment?.toList ++ kind.makings

/-! ### The fields that content makes up -/

/-- A field has the shape that a slot asks for. -/
def Slot.suits : Slot → Field → Bool
  | .token _, .token _ | .token? _, .token? _ | .delimiter? _, .token? _ | .node _, .node _
  | .node? _, .node? _ | .nodes _, .nodes _ | .uri, .node _ => true
  | _, _ => false

namespace Lie

variable {T : Ground} {lo hi : Nat}

theorem has_of_marked {p : Token.Kind → Bool} {ts : List TokenId}
    (h : Lie T lo hi (marked p ts)) : ∀ t ∈ ts, T.Has p t :=
  fun _ ht => (h.lies (List.mem_map_of_mem ht)).1

theorem has_of_scanned {p : Token.Kind → Bool} {ts : List TokenId}
    (h : Lie T lo hi (scanned p ts)) : ∀ t ∈ ts, T.Has p t :=
  fun _ ht => (h.lies (List.mem_map_of_mem ht)).1

theorem is_of_tagged {c : Category} {ns : List NodeId} (h : Lie T lo hi (tagged c ns)) :
    ∀ n ∈ ns, T.Is c n :=
  fun _ hn => (h.lies (List.mem_map_of_mem hn)).1

theorem is_of_commented {ns : List NodeId} (h : Lie T lo hi (commented ns)) :
    ∀ n ∈ ns, T.Is .comment n :=
  fun _ hn => (h.lies (List.mem_map_of_mem hn)).1

theorem holds_laid {slot : Slot} {field : Field} (hsuits : slot.suits field = true)
    (h : Lie T lo hi (slot.laid field)) : slot.Holds T.toLayout field := by
  cases slot <;> cases field <;> try cases hsuits
  case token.token p t => exact (h.lies (List.mem_singleton_self _)).1
  case token?.token? p t? => exact fun t ht => h.has_of_marked t (Option.mem_toList.2 ht)
  case delimiter?.token? p t? => exact fun t ht => h.has_of_scanned t (Option.mem_toList.2 ht)
  case node.node c n => exact (h.lies (List.mem_singleton_self _)).1
  case node?.node? c n? => exact fun n hn => h.is_of_tagged n (Option.mem_toList.2 hn)
  case nodes.nodes c ns => exact h.is_of_tagged
  case uri.node n =>
    obtain ⟨⟨his, -⟩, hstring⟩ := h.lies (List.mem_singleton_self _)
    exact ⟨his, hstring⟩

theorem forall_holds {slots : List Slot} {fields : List Field}
    (hsuits : List.Forall₂ (fun slot field => slot.suits field = true) slots fields)
    (h : Lie T lo hi (laid slots fields)) :
    List.Forall₂ (Slot.Holds T.toLayout) slots fields := by
  induction hsuits generalizing lo with
  | nil => exact .nil
  | cons hslot _ ih =>
    obtain ⟨mid, hfirst, hrest⟩ := append_iff.1 h
    exact .cons (holds_laid hslot hfirst) (ih hrest)

/-- Scattered nodes are of their categories. -/
theorem is_of_scattered {row : List Sorted} {orders : List (List Sorted)}
    (h : Held.Lies T lo hi (.scattered row orders)) : ∀ x ∈ row, T.Is x.1 x.2 := by
  obtain ⟨⟨row', hperm, hrow⟩, -⟩ := h
  exact fun x hx => (hrow.bounds x (hperm.mem_iff.2 hx)).1

end Lie

namespace Node.Kind

attribute [local simp] comment? makings laid Slot.laid slots fields Directive.slots
  Directive.fields Combinator.slots Combinator.fields Declaration.slots Declaration.fields
  Member.slots Member.fields Clause.slots Clause.fields Initializer.slots Initializer.fields
  Parameter.slots Parameter.fields Body.slots Body.fields Statement.slots Statement.fields
  SwitchMember.slots SwitchMember.fields Expression.slots Expression.fields StringElement.slots
  StringElement.fields

/-- The nodes among the content are the children. -/
theorem nodesOf_content (kind : Node.Kind) : nodesOf kind.content = kind.children := by
  rw [content, children, nodesOf_append, nodesOf_commented]
  cases kind with
  | directive x => cases x <;> simp [Field.children, Held.nodes, Held.located]
  | combinator x => cases x <;> simp [Field.children, Held.nodes, Held.located]
  | declaration x =>
    cases x <;> simp [Field.children, Held.nodes, Held.located, headingRow]
  | member x => cases x <;> simp [Field.children, Held.nodes, Held.located]
  | clause x => cases x <;> simp [Field.children, Held.nodes, Held.located]
  | constructorInitializer x => cases x <;> simp [Field.children, Held.nodes, Held.located]
  | parameter x => cases x <;> simp [Field.children, Held.nodes, Held.located]
  | functionBody x => cases x <;> simp [Field.children, Held.nodes, Held.located]
  | statement x => cases x <;> simp [Field.children, Held.nodes, Held.located]
  | switchMember x => cases x <;> simp [Field.children, Held.nodes, Held.located]
  | expression x => cases x <;> simp [Field.children, Held.nodes, Held.located]
  | stringElement x => rcases x with _ | ⟨_, _, _ | _⟩ <;> simp [Field.children, Held.nodes, Held.located]
  | _ => simp [Field.children, Held.nodes, Held.located]

section WellSorted

variable {kind : Node.Kind} {T : Ground} {lo hi : Nat}

theorem wellSorted_plain (h : Lie T lo hi kind.content) (hcomment : kind.comment? = none)
    (hmakings : kind.makings = laid kind.slots kind.fields)
    (hsuits : List.Forall₂ (fun slot field => slot.suits field = true) kind.slots kind.fields) :
    kind.WellSorted T.toLayout := by
  rw [content, hcomment, hmakings] at h
  exact Lie.forall_holds hsuits h

theorem wellSorted_commented {slots : List Slot} {fields : List Field}
    (h : Lie T lo hi kind.content) (hslots : kind.slots = .comment :: slots)
    (hfields : kind.fields = .node? kind.comment? :: fields)
    (hmakings : kind.makings = laid slots fields)
    (hsuits : List.Forall₂ (fun slot field => slot.suits field = true) slots fields) :
    kind.WellSorted T.toLayout := by
  obtain ⟨mid, hcomment, hrest⟩ := Lie.append_iff.1 h
  rw [hmakings] at hrest
  rw [WellSorted, hslots, hfields]
  exact .cons (fun n hn => hcomment.is_of_commented n (Option.mem_toList.2 hn))
    (Lie.forall_holds hsuits hrest)

/-- A node whose content lies somewhere is well-sorted. -/
theorem wellSorted (h : Lie T lo hi kind.content) : kind.WellSorted T.toLayout := by
  cases kind with
  | directive x => cases x <;> exact wellSorted_commented h rfl rfl rfl (by simp [Slot.suits])
  | member x => cases x <;> exact wellSorted_commented h rfl rfl rfl (by simp [Slot.suits])
  | combinator x => cases x <;> exact wellSorted_plain h rfl rfl (by simp [Slot.suits])
  | clause x => cases x <;> exact wellSorted_plain h rfl rfl (by simp [Slot.suits])
  | constructorInitializer x => cases x <;> exact wellSorted_plain h rfl rfl (by simp [Slot.suits])
  | parameter x => cases x <;> exact wellSorted_plain h rfl rfl (by simp [Slot.suits])
  | functionBody x => cases x <;> exact wellSorted_plain h rfl rfl (by simp [Slot.suits])
  | statement x => cases x <;> exact wellSorted_plain h rfl rfl (by simp [Slot.suits])
  | switchMember x => cases x <;> exact wellSorted_plain h rfl rfl (by simp [Slot.suits])
  | expression x => cases x <;> exact wellSorted_plain h rfl rfl (by simp [Slot.suits])
  | stringElement x =>
    rcases x with _ | ⟨_, _, _ | _⟩ <;> exact wellSorted_plain h rfl rfl (by simp [Slot.suits])
  | unit directives declarations =>
    have hrow := Lie.is_of_scattered (h.lies (List.mem_singleton_self _))
    exact .cons (fun n hn => hrow (.directive, n) (by simp [sorted, hn]))
      (.cons (fun n hn => hrow (.declaration, n) (by simp [sorted, hn])) .nil)
  | declaration x =>
    cases x with
    | classDecl comment? abstract? keyword name typeParameters? extends? with? implements?
        leftBrace members rightBrace =>
      -- The clauses stand between the fields before and after them.
      obtain ⟨_, hcomment, hmakings⟩ := Lie.append_iff.1 h
      obtain ⟨_, hfront, _, hclauses, hback⟩ := Lie.append_iff.1 hmakings
      have hrow := Lie.is_of_scattered hclauses
      refine .cons (fun n hn => hcomment.is_of_commented n (Option.mem_toList.2 hn)) ?_
      refine List.rel_append (Lie.forall_holds (by simp [Slot.suits]) hfront) (.cons ?_ (.cons ?_
        (.cons ?_ (Lie.forall_holds (by simp [Slot.suits]) hback))))
      · exact fun n hn => hrow (.extendsClause, n) (by simp [headingRow, sorted, Option.mem_def.1 hn])
      · exact fun n hn => hrow (.withClause, n) (by simp [headingRow, sorted, Option.mem_def.1 hn])
      · exact fun n hn =>
          hrow (.implementsClause, n) (by simp [headingRow, sorted, Option.mem_def.1 hn])
    | _ => exact wellSorted_commented h rfl rfl rfl (by simp [Slot.suits])
  | _ => exact wellSorted_plain h rfl rfl (by simp [Slot.suits])

end WellSorted

end Node.Kind

/-- A node that lies around its content; an identifier stands on its token. -/
structure Shape.Formed (T : Ground) (shape : Shape) : Prop where
  span : shape.first ≤ shape.last
  content : Lie T shape.first (shape.last + 1) shape.kind.content
  named : ∀ t, shape.kind = .expression (.identifier t) → shape.first = t ∧ shape.last = t
  facts : ∀ f ∈ shape.kind.facts shape.first, f.Holds T

theorem Shape.Formed.mono {S T : Ground} (hle : S.Extends T) {shape : Shape} (h : shape.Formed S) :
    shape.Formed T :=
  ⟨h.span, h.content.mono hle, h.named, fun f hf => f.mono hle (h.facts f hf)⟩

end DartAnalysis
