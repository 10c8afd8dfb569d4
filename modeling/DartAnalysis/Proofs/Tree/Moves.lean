/-
  Moving nodes about. A call that moves a child to a new parent changes the fields of two nodes and may
  leave an identifier in a third place; a field that held something else before loses it, so that a
  node can keep a parent which does not list it any more. What stays true is the following
  (`Arena.Kept`): whoever is listed as a child has the node that lists it as its parent, no node is
  listed twice, and the way from parent to parent ends (`Arena.Climbs`). One call keeps it
  (`Kept.reparent`), and so does any number of them after a parse (`ofText_moved`).
-/
import DartAnalysis.Proofs.Parse.Total
import DartAnalysis.Tree.Edit
import Mathlib

namespace DartAnalysis

/-! ## Fields -/

namespace Field

/-- Fields that hold things of one sort. -/
inductive Alike : Field → Field → Prop
  | token (t t' : TokenId) : Alike (.token t) (.token t')
  | token? (t? t'? : Option TokenId) : Alike (.token? t?) (.token? t'?)
  | node (n n' : NodeId) : Alike (.node n) (.node n')
  | node? (n? n'? : Option NodeId) : Alike (.node? n?) (.node? n'?)
  | nodes (ns ns' : List NodeId) : Alike (.nodes ns) (.nodes ns')

theorem Alike.refl (f : Field) : f.Alike f := by
  cases f <;> constructor

/-- The field is set to the child, whatever it held, or has the child somewhere in its list. -/
inductive Takes (child : NodeId) : Field → Field → Prop
  | node (n : NodeId) : Takes child (.node n) (.node child)
  | node? (n? : Option NodeId) : Takes child (.node? n?) (.node? (some child))
  | nodes (ns ns' : List NodeId) : Takes child (.nodes (ns ++ ns')) (.nodes (ns ++ child :: ns'))

theorem Takes.append {child : NodeId} (ns : List NodeId) :
    (Field.nodes ns).Takes child (.nodes (ns ++ [child])) := by
  have h := @Takes.nodes child ns []
  rwa [List.append_nil] at h

theorem Takes.children {child : NodeId} {f f' : Field} (h : f.Takes child f') :
    ∃ front back, f'.children = front ++ child :: back ∧ (front ++ back).Sublist f.children := by
  cases h with
  | node n => exact ⟨[], [], rfl, List.nil_sublist _⟩
  | node? n? => exact ⟨[], [], rfl, List.nil_sublist _⟩
  | nodes ns ns' => exact ⟨ns, ns', rfl, List.Sublist.refl _⟩

/-- A field that gives a child up holds the node that stands in for it, if any. -/
theorem detach?_children {child : NodeId} {standIn? : Option NodeId} {f f' : Field}
    (h : f.detach? child standIn? = some f') :
    f.Alike f' ∧ ∃ front back new, f.children = front ++ child :: back ∧
      f'.children = front ++ new ++ back ∧ (new = [] ∨ ∃ s ∈ standIn?, new = [s]) := by
  cases f with
  | node n =>
    simp only [detach?] at h
    split at h
    · rename_i heq
      obtain ⟨s, hs, rfl⟩ := Option.map_eq_some_iff.1 h
      exact ⟨.node _ _, [], [], [s], by rw [heq]; rfl, rfl, .inr ⟨s, hs, rfl⟩⟩
    · cases h
  | node? n? =>
    simp only [detach?] at h
    split at h
    · rename_i heq
      obtain rfl := Option.some.inj h
      exact ⟨.node? _ _, [], [], [], by rw [heq]; rfl, rfl, .inl rfl⟩
    · cases h
  | nodes ns =>
    simp only [detach?] at h
    split at h
    · rename_i hmem
      obtain rfl := Option.some.inj h
      obtain ⟨front, back, -, hns, herase⟩ := List.exists_erase_eq hmem
      exact ⟨.nodes _ _, front, back, [], hns, by rw [List.append_nil]; exact herase, .inl rfl⟩
    · cases h
  | _ => cases h

theorem notMem_children_of_detach? {child standIn : NodeId} {f : Field}
    (h : f.detach? child (some standIn) = none) : child ∉ f.children := by
  intro hmem
  cases f with
  | node n =>
    obtain rfl := List.mem_singleton.1 hmem
    simp [detach?] at h
  | node? n? =>
    obtain rfl := Option.mem_toList.1 hmem
    simp [detach?] at h
  | nodes ns =>
    have hmem : child ∈ ns := hmem
    simp [detach?, hmem] at h
  | _ => cases hmem

end Field

theorem detachField?_children {child : NodeId} {standIn? : Option NodeId} {fs fs' : List Field}
    (h : detachField? child standIn? fs = some fs') :
    List.Forall₂ Field.Alike fs fs' ∧ ∃ front back new,
      fs.flatMap Field.children = front ++ child :: back ∧
      fs'.flatMap Field.children = front ++ new ++ back ∧
      (new = [] ∨ ∃ s ∈ standIn?, new = [s]) := by
  induction fs generalizing fs' with
  | nil => cases h
  | cons f fs ih =>
    unfold detachField? at h
    split at h
    · rename_i f' hf
      obtain rfl := Option.some.inj h
      obtain ⟨halike, front, back, new, hbefore, hafter, hnew⟩ := Field.detach?_children hf
      refine ⟨.cons halike (List.forall₂_same.2 fun f _ => .refl f), front,
        back ++ fs.flatMap Field.children, new, ?_, ?_, hnew⟩
      · rw [List.flatMap_cons, hbefore, List.append_assoc, List.cons_append]
      · rw [List.flatMap_cons, hafter, List.append_assoc]
    · obtain ⟨rest, hrest, rfl⟩ := Option.map_eq_some_iff.1 h
      obtain ⟨halike, front, back, new, hbefore, hafter, hnew⟩ := ih hrest
      refine ⟨.cons (.refl f) halike, f.children ++ front, back, new, ?_, ?_, hnew⟩
      · rw [List.flatMap_cons, hbefore, List.append_assoc]
      · rw [List.flatMap_cons, hafter]
        simp only [List.append_assoc]

theorem notMem_of_detachField? {child standIn : NodeId} {fs : List Field}
    (h : detachField? child (some standIn) fs = none) : child ∉ fs.flatMap Field.children := by
  induction fs with
  | nil => exact List.not_mem_nil
  | cons f fs ih =>
    unfold detachField? at h
    split at h
    · cases h
    · rename_i hf
      rw [List.flatMap_cons, List.mem_append, not_or]
      exact ⟨Field.notMem_children_of_detach? hf, ih (Option.map_eq_none_iff.1 h)⟩

/-! ## Kinds -/

namespace Node.Kind

/-- Fields of the same shape are put in place. -/
theorem fields_withFields (k : Kind) {fs : List Field}
    (h : List.Forall₂ Field.Alike k.fields fs) : (k.withFields fs).fields = fs := by
  cases k with
  | directive x | combinator x | declaration x | member x | clause x | constructorInitializer x
  | parameter x | functionBody x | statement x | switchMember x | expression x | stringElement x =>
    cases x <;> simp only [fields, Directive.fields, Combinator.fields, Declaration.fields,
      Member.fields, Clause.fields, Initializer.fields, Parameter.fields, Body.fields,
      Statement.fields, SwitchMember.fields, Expression.fields, StringElement.fields] at h
      <;> repeat (obtain _ | ⟨⟨⟩, h⟩ := h)
    all_goals rfl
  | _ =>
    simp only [fields] at h
    repeat (obtain _ | ⟨⟨⟩, h⟩ := h)
    rfl

/-- One field takes the child, the others stay. -/
def Takes (child : NodeId) (k k' : Kind) : Prop :=
  ∃ front f f' back, k.fields = front ++ f :: back ∧ f.Takes child f' ∧
    k'.fields = front ++ f' :: back

theorem Takes.children {child : NodeId} {k k' : Kind} (h : k.Takes child k') :
    ∃ front back, k'.children = front ++ child :: back ∧ (front ++ back).Sublist k.children := by
  obtain ⟨fs, f, f', fs', hbefore, htakes, hafter⟩ := h
  obtain ⟨front, back, hchildren, hsub⟩ := htakes.children
  refine ⟨fs.flatMap Field.children ++ front, back ++ fs'.flatMap Field.children, ?_, ?_⟩
  · simp only [Kind.children, hafter, List.flatMap_append, List.flatMap_cons, hchildren,
      List.append_assoc, List.cons_append]
  · simp only [Kind.children, hbefore, List.flatMap_append, List.flatMap_cons, List.append_assoc]
    rw [← List.append_assoc front]
    exact (List.Sublist.refl _).append (hsub.append (List.Sublist.refl _))

theorem detach?_children {k k' : Kind} {child : NodeId} {standIn? : Option NodeId}
    (h : k.detach? child standIn? = some k') : ∃ front back new,
      k.children = front ++ child :: back ∧ k'.children = front ++ new ++ back ∧
      (new = [] ∨ ∃ s ∈ standIn?, new = [s]) := by
  obtain ⟨fs, hfs, rfl⟩ := Option.map_eq_some_iff.1 h
  obtain ⟨halike, hchildren⟩ := detachField?_children hfs
  unfold children
  rw [fields_withFields k halike]
  exact hchildren

theorem notMem_of_detach? {k : Kind} {child standIn : NodeId}
    (h : k.detach? child (some standIn) = none) : child ∉ k.children :=
  notMem_of_detachField? (Option.map_eq_none_iff.1 h)

/-- A kind that has a place for children takes them there. -/
theorem takes_of_place? {k k' : Kind} {child : NodeId} (h : k.place? child = some k') :
    k.Takes child k' := by
  unfold place? at h
  split at h
  case h_11 => cases h
  all_goals obtain rfl := Option.some.inj h
  case h_1 directives declarations => exact ⟨[_], _, _, [], rfl, .append declarations, rfl⟩
  case h_2 left body right => exact ⟨[_], _, _, [_], rfl, .append body, rfl⟩
  case h_3 doc abstract? keyword name parameters extends? with? implements? left members right =>
    exact ⟨[_, _, _, _, _, _, _, _, _], _, _, [_], rfl, .append members, rfl⟩
  case h_4 left arguments right => exact ⟨[_], _, _, [_], rfl, .append arguments, rfl⟩
  case h_5 const? types left elements right =>
    exact ⟨[_, _, _], _, _, [_], rfl, .append elements, rfl⟩
  case h_6 keyword type? vars => exact ⟨[_, _], _, _, [], rfl, .append vars, rfl⟩
  case h_7 keyword value? semicolon => exact ⟨[_], _, _, [_], rfl, .node? value?, rfl⟩
  case h_8 keyword left condition right then' else' otherwise? =>
    exact ⟨[_, _, _, _, _, _], _, _, [], rfl, .node? otherwise?, rfl⟩
  case h_9 name equals initializer? => exact ⟨[_, _], _, _, [], rfl, .node? initializer?, rfl⟩
  case h_10 left inner right => exact ⟨[_], _, _, [_], rfl, .node inner, rfl⟩

end Node.Kind

namespace Arena

/-! ## The way up -/

/-- The node, its parent, and so on up to a node without parent. -/
inductive Climbs (a : Arena) : NodeId → List NodeId → Prop
  | top {n : NodeId} (h : a.parent? n = none) : Climbs a n [n]
  | up {n p : NodeId} {way : List NodeId} (h : a.parent? n = some p) (hway : Climbs a p way) :
      Climbs a n (n :: way)

namespace Climbs

variable {a : Arena} {n : NodeId} {way way' : List NodeId}

theorem unique (h : a.Climbs n way) (h' : a.Climbs n way') : way = way' := by
  induction h generalizing way' with
  | top hnone =>
    cases h' with
    | top => rfl
    | up hsome _ => rw [hnone] at hsome; cases hsome
  | up hsome _ ih =>
    cases h' with
    | top hnone => rw [hnone] at hsome; cases hsome
    | up hsome' hway' =>
      obtain rfl := Option.some.inj (hsome.symm.trans hsome')
      rw [ih hway']

/-- From a node on the way the rest of it is climbed. -/
theorem suffix (h : a.Climbs n way) {m : NodeId} (hm : m ∈ way) :
    ∃ rest, a.Climbs m rest ∧ rest.length ≤ way.length := by
  induction h with
  | top hnone =>
    obtain rfl := List.mem_singleton.1 hm
    exact ⟨_, .top hnone, Nat.le_refl _⟩
  | up hsome hway ih =>
    rcases List.mem_cons.1 hm with rfl | hm
    · exact ⟨_, .up hsome hway, Nat.le_refl _⟩
    · obtain ⟨rest, hrest, hle⟩ := ih hm
      exact ⟨rest, hrest, Nat.le_succ_of_le hle⟩

/-- Who came by a node again would climb for ever. -/
theorem nodup (h : a.Climbs n way) : way.Nodup := by
  induction h with
  | top => exact List.nodup_singleton _
  | up hsome hway ih =>
    refine List.nodup_cons.2 ⟨fun hmem => ?_, ih⟩
    obtain ⟨rest, hrest, hle⟩ := hway.suffix hmem
    rw [hrest.unique (.up hsome hway)] at hle
    exact Nat.not_succ_le_self _ hle

theorem lt_of_mem_tail (hlt : ∀ c p, a.parent? c = some p → p < a.size) (h : a.Climbs n way)
    {m : NodeId} (hm : m ∈ way.tail) : m < a.size := by
  induction h with
  | top => exact absurd hm List.not_mem_nil
  | up hsome hway ih =>
    cases hway with
    | top => exact List.mem_singleton.1 hm ▸ hlt _ _ hsome
    | up hsome' hway' =>
      rcases List.mem_cons.1 hm with rfl | hm
      · exact hlt _ _ hsome
      · exact ih hm

theorem lt_of_mem (hlt : ∀ c p, a.parent? c = some p → p < a.size) (h : a.Climbs n way)
    (hn : n < a.size) {m : NodeId} (hm : m ∈ way) : m < a.size := by
  have htail : m ∈ way.tail → m < a.size := h.lt_of_mem_tail hlt
  cases h with
  | top => exact List.mem_singleton.1 hm ▸ hn
  | up =>
    rcases List.mem_cons.1 hm with rfl | hm
    · exact hn
    · exact htail hm

theorem length_le (hlt : ∀ c p, a.parent? c = some p → p < a.size) (h : a.Climbs n way) :
    way.length ≤ a.size + 1 := by
  have hsub : way.tail ⊆ List.range a.size :=
    fun m hm => List.mem_range.2 (h.lt_of_mem_tail hlt hm)
  have hle := (h.nodup.tail.subperm hsub).length_le
  rw [List.length_tail, List.length_range] at hle
  omega

/-- Nobody on the way gets another parent. -/
theorem of_parent?_eq {b : Arena} (h : a.Climbs n way)
    (heq : ∀ m ∈ way, b.parent? m = a.parent? m) : b.Climbs n way := by
  induction h with
  | top hnone => exact .top ((heq _ (List.mem_singleton_self _)).trans hnone)
  | up hsome _ ih =>
    exact .up ((heq _ (List.mem_cons_self ..)).trans hsome)
      (ih fun m hm => heq m (List.mem_cons_of_mem _ hm))

end Climbs

/-! ## What moves keep -/

/-- Children know who lists them, no list names one twice, and every way up ends. -/
structure Kept (a : Arena) : Prop where
  parent_of_child : ∀ p, ∀ c ∈ a.children p, a.parent? c = some p
  children_nodup : ∀ p, (a.children p).Nodup
  parent_lt : ∀ c p, a.parent? c = some p → p < a.size
  climbs : ∀ n, ∃ way, a.Climbs n way

theorem Owned.parent_lt {a : Arena} (h : a.Owned) (c p : NodeId) (hp : a.parent? c = some p) :
    p < a.size := by
  refine Nat.lt_of_not_le fun hle => ?_
  have hmem := h.child_of_parent c p hp
  rw [children_of_size_le hle] at hmem
  exact absurd hmem List.not_mem_nil

theorem Owned.climbs {a : Arena} (h : a.Owned) (n : NodeId) : ∃ way, a.Climbs n way := by
  -- Parents are made after their children, so fewer and fewer nodes come after those on the way.
  induction hk : a.size - n using Nat.strong_induction_on generalizing n with
  | _ k ih =>
    cases hp : a.parent? n with
    | none => exact ⟨_, .top hp⟩
    | some p =>
      have hlt := h.child_lt p n (h.child_of_parent n p hp)
      have hsize := h.parent_lt n p hp
      have hfewer : a.size - p < a.size - n := Nat.sub_lt_sub_left (Nat.lt_trans hlt hsize) hlt
      obtain ⟨way, hway⟩ := ih _ (hk ▸ hfewer) p rfl
      exact ⟨_, .up hp hway⟩

theorem Owned.kept {a : Arena} (h : a.Owned) : a.Kept :=
  ⟨h.parent_of_child, h.children_nodup, h.parent_lt, h.climbs⟩

/-! ## Writing -/

theorem parent?_setKind {a : Arena} {i : NodeId} (h : i < a.size) (k : Node.Kind) (j : NodeId) :
    (a.setKind i k).parent? j = a.parent? j := by
  rw [parent?, node_setKind h]
  split <;> rfl

theorem kind_setKind {a : Arena} {i : NodeId} (h : i < a.size) (k : Node.Kind) (j : NodeId) :
    (a.setKind i k).kind j = if j = i then k else a.kind j := by
  rw [kind, node_setKind h]
  split <;> rfl

theorem parent?_setParent {a : Arena} {c : NodeId} (h : c < a.size) (p j : NodeId) :
    (a.setParent c p).parent? j = if j = c then some p else a.parent? j := by
  rw [parent?, node_setParent h]
  split <;> rfl

theorem kind_setParent {a : Arena} {c : NodeId} (h : c < a.size) (p j : NodeId) :
    (a.setParent c p).kind j = a.kind j := by
  rw [kind, node_setParent h]
  split <;> rfl

/-- Two arenas are the same if they are as long and have the same nodes. -/
theorem ext_node {a b : Arena} (hsize : a.size = b.size) (hnode : ∀ i, a.node i = b.node i) :
    a = b := by
  refine Array.ext hsize fun i ha hb => ?_
  have h := hnode i
  rw [node, node, Array.getD, Array.getD, dif_pos ha, dif_pos hb] at h
  exact h

theorem setParent_setKind {a : Arena} {i c : NodeId} (hi : i < a.size) (hc : c < a.size)
    (k : Node.Kind) (p : NodeId) : (a.setKind i k).setParent c p = (a.setParent c p).setKind i k := by
  have hi' : i < (a.setParent c p).size := (size_setParent a c p).symm ▸ hi
  have hc' : c < (a.setKind i k).size := (size_setKind a i k).symm ▸ hc
  refine ext_node (by simp only [size_setKind, size_setParent]) fun m => ?_
  rw [node_setParent hc', node_setKind hi, node_setKind hi', node_setParent hc]
  split <;> split <;> rfl

theorem setKind_comm {a : Arena} {i j : NodeId} (hi : i < a.size) (hj : j < a.size) (h : i ≠ j)
    (k k' : Node.Kind) : (a.setKind i k).setKind j k' = (a.setKind j k').setKind i k := by
  have hi' : i < (a.setKind j k').size := (size_setKind a j k').symm ▸ hi
  have hj' : j < (a.setKind i k).size := (size_setKind a i k).symm ▸ hj
  refine ext_node (by simp only [size_setKind]) fun m => ?_
  rw [node_setKind hj', node_setKind hi, node_setKind hi', node_setKind hj]
  by_cases hm : m = i
  · simp [hm, h]
  · simp [hm]

theorem push_setKind {a : Arena} {i : NodeId} (h : i < a.size) (k : Node.Kind) (n : Node) :
    (a.setKind i k).push n = setKind (a.push n) i k := by
  have h' : i < (a.push n).size := Array.size_push n ▸ Nat.lt_succ_of_lt h
  refine ext_node (by simp only [size_setKind, Array.size_push]) fun m => ?_
  rw [node_push, node_setKind h, node_setKind h', node_push, size_setKind]
  by_cases hm : m = i
  · simp [hm, Nat.ne_of_lt h]
  · simp [hm]

namespace Kept

variable {a : Arena} (h : a.Kept)
include h

theorem lt_of_mem {p c : NodeId} (hc : c ∈ a.children p) : c < a.size := by
  refine Nat.lt_of_not_le fun hle => ?_
  have hp := h.parent_of_child p c hc
  rw [parent?_of_size_le hle] at hp
  cases hp

/-- A node may get any children that have it as their parent. -/
theorem setKind {i : NodeId} (hi : i < a.size) {k : Node.Kind}
    (hparent : ∀ c ∈ k.children, a.parent? c = some i) (hnodup : k.children.Nodup) :
    (a.setKind i k).Kept where
  parent_of_child p c hc := by
    rw [parent?_setKind hi]
    rw [children, kind_setKind hi] at hc
    split at hc
    · rename_i hp
      exact hp ▸ hparent c hc
    · exact h.parent_of_child p c hc
  children_nodup p := by
    rw [children, kind_setKind hi]
    split
    · exact hnodup
    · exact h.children_nodup p
  parent_lt c p hp := by
    rw [parent?_setKind hi] at hp
    rw [size_setKind]
    exact h.parent_lt c p hp
  climbs n := by
    obtain ⟨way, hway⟩ := h.climbs n
    exact ⟨way, hway.of_parent?_eq fun m _ => parent?_setKind hi k m⟩

/-- A childless node may be added below another. -/
theorem push {n : Node} {owner : NodeId} (howner : owner < a.size)
    (hchildren : n.kind.children = []) (hparent : n.parent? = some owner) :
    Kept (a.push n) := by
  have hparent? : ∀ m, m ≠ a.size → parent? (a.push n) m = a.parent? m := by
    intro m hm
    rw [parent?, node_push, if_neg hm]
    rfl
  have hnew : parent? (a.push n) a.size = some owner := by
    rw [parent?, node_push, if_pos rfl, hparent]
  have hold : ∀ p, p ≠ a.size → children (a.push n) p = a.children p := by
    intro p hp
    rw [children, kind, node_push, if_neg hp]
    rfl
  have hempty : children (a.push n) a.size = [] := by
    rw [children, kind, node_push, if_pos rfl, hchildren]
  -- The new node is nobody's parent, so the ways up from the others are as before.
  have hclimbs : ∀ m, m ≠ a.size → ∃ way, Climbs (a.push n) m way := by
    intro m hm
    obtain ⟨way, hway⟩ := h.climbs m
    refine ⟨way, hway.of_parent?_eq fun m' hm' => hparent? m' ?_⟩
    cases hway with
    | top => exact List.mem_singleton.1 hm' ▸ hm
    | up hp hway =>
      rcases List.mem_cons.1 hm' with rfl | hm'
      · exact hm
      · exact Nat.ne_of_lt ((Climbs.up hp hway).lt_of_mem_tail h.parent_lt hm')
  refine ⟨fun p c hc => ?_, fun p => ?_, fun c p hp => ?_, fun m => ?_⟩
  · by_cases hp : p = a.size
    · rw [hp, hempty] at hc
      exact absurd hc List.not_mem_nil
    · rw [hold p hp] at hc
      rw [hparent? c (Nat.ne_of_lt (h.lt_of_mem hc))]
      exact h.parent_of_child p c hc
  · by_cases hp : p = a.size
    · rw [hp, hempty]
      exact List.nodup_nil
    · rw [hold p hp]
      exact h.children_nodup p
  · rw [Array.size_push]
    by_cases hc : c = a.size
    · rw [hc, hnew] at hp
      exact Option.some.inj hp ▸ Nat.lt_succ_of_lt howner
    · rw [hparent? c hc] at hp
      exact Nat.lt_succ_of_lt (h.parent_lt c p hp)
  · by_cases hm : m = a.size
    · obtain ⟨way, hway⟩ := hclimbs owner (Nat.ne_of_lt howner)
      exact ⟨_, .up (hm ▸ hnew) hway⟩
    · exact hclimbs m hm

/-- A node that nobody lists may get any parent that is not below it. -/
theorem setParent {child parent : NodeId} (hchild : child < a.size) (hparent : parent < a.size)
    (hfree : ∀ p, child ∉ a.children p) {way : List NodeId} (hway : a.Climbs parent way)
    (hout : child ∉ way) : (a.setParent child parent).Kept where
  parent_of_child p c hc := by
    rw [children, kind_setParent hchild] at hc
    have hne : c ≠ child := fun heq => hfree p (heq ▸ hc)
    rw [parent?_setParent hchild, if_neg hne]
    exact h.parent_of_child p c hc
  children_nodup p := by
    rw [children, kind_setParent hchild]
    exact h.children_nodup p
  parent_lt c p hp := by
    rw [parent?_setParent hchild] at hp
    rw [size_setParent]
    split at hp
    · exact Option.some.inj hp ▸ hparent
    · exact h.parent_lt c p hp
  climbs n := by
    have hnew : (a.setParent child parent).parent? child = some parent := by
      rw [parent?_setParent hchild, if_pos rfl]
    have hold : ∀ m, m ≠ child → (a.setParent child parent).parent? m = a.parent? m :=
      fun m hm => by rw [parent?_setParent hchild, if_neg hm]
    have hway' : (a.setParent child parent).Climbs parent way :=
      hway.of_parent?_eq fun m hm => hold m fun heq => hout (heq ▸ hm)
    obtain ⟨way₀, hway₀⟩ := h.climbs n
    -- The way up is the old one, unless it comes by the child: from there it goes on at the parent.
    induction hway₀ with
    | @top m hnone =>
      by_cases hm : m = child
      · exact ⟨_, .up (hm ▸ hnew) hway'⟩
      · exact ⟨_, .top ((hold m hm).trans hnone)⟩
    | @up m p _ hsome _ ih =>
      by_cases hm : m = child
      · exact ⟨_, .up (hm ▸ hnew) hway'⟩
      · obtain ⟨rest, hrest⟩ := ih
        exact ⟨_, .up ((hold m hm).trans hsome) hrest⟩

end Kept

/-! ## Taking away -/

/-- The identifier that is left where `child` was. -/
def standIn (a : Arena) (owner child : NodeId) : Node :=
  ⟨.expression (.identifier (a.node child).first), some owner, (a.node child).first,
    (a.node child).first⟩

theorem sever_eq (a : Arena) {owner : NodeId} (child : NodeId) (howner : owner < a.size) :
    a.sever owner child = ((a.kind owner).detach? child none).elim
      (((a.kind owner).detach? child (some a.size)).elim (a.push (a.standIn owner child))
        (setKind (a.push (a.standIn owner child)) owner))
      (a.setKind owner) := by
  have hkind : kind (a.push (a.standIn owner child)) owner = a.kind owner := by
    rw [kind, node_push, if_neg (Nat.ne_of_lt howner)]
    rfl
  unfold sever
  cases (a.kind owner).detach? child none with
  | some kind => rfl
  | none =>
    dsimp only [Option.elim_none]
    rw [← standIn, hkind]
    cases (a.kind owner).detach? child (some a.size) <;> rfl

/-- The owner gives the child up, for nothing or for a new identifier; or does not list it. -/
theorem sever_cases (a : Arena) {owner : NodeId} (child : NodeId) (howner : owner < a.size) :
    (∃ kind front back, a.children owner = front ++ child :: back ∧
      kind.children = front ++ back ∧ a.sever owner child = a.setKind owner kind) ∨
    (∃ kind front back, a.children owner = front ++ child :: back ∧
      (kind.children = front ++ back ∨ kind.children = front ++ a.size :: back) ∧
      a.sever owner child = setKind (a.push (a.standIn owner child)) owner kind) ∨
    (child ∉ a.children owner ∧ a.sever owner child = a.push (a.standIn owner child)) := by
  rw [a.sever_eq child howner]
  cases hdetach : (a.kind owner).detach? child none with
  | some kind =>
    obtain ⟨front, back, new, hold, hnew, rfl | ⟨_, ⟨⟩, -⟩⟩ := Node.Kind.detach?_children hdetach
    rw [List.append_nil] at hnew
    exact .inl ⟨kind, front, back, hold, hnew, rfl⟩
  | none =>
    cases hdetach : (a.kind owner).detach? child (some a.size) with
    | some kind =>
      refine .inr (.inl ⟨kind, ?_⟩)
      obtain ⟨front, back, new, hold, hnew, rfl | ⟨_, ⟨⟩, rfl⟩⟩ :=
        Node.Kind.detach?_children hdetach
      · rw [List.append_nil] at hnew
        exact ⟨front, back, hold, .inl hnew, rfl⟩
      · rw [List.append_assoc, List.singleton_append] at hnew
        exact ⟨front, back, hold, .inr hnew, rfl⟩
    | none => exact .inr (.inr ⟨Node.Kind.notMem_of_detach? hdetach, rfl⟩)

/-- Who takes a child away from its parent leaves an arena in which nobody lists it. -/
theorem Kept.sever {a : Arena} (h : a.Kept) {owner child : NodeId}
    (hparent : a.parent? child = some owner) :
    (a.sever owner child).Kept ∧ ∀ p, child ∉ (a.sever owner child).children p := by
  have howner : owner < a.size := h.parent_lt child owner hparent
  have hchild : child < a.size := by
    refine Nat.lt_of_not_le fun hle => ?_
    rw [parent?_of_size_le hle] at hparent
    cases hparent
  have hpush : Kept (a.push (a.standIn owner child)) := h.push howner rfl rfl
  have howner' : owner < (a.push (a.standIn owner child)).size :=
    Array.size_push _ ▸ Nat.lt_succ_of_lt howner
  have hold : ∀ c, c < a.size → parent? (a.push (a.standIn owner child)) c = a.parent? c := by
    intro c hc
    rw [parent?, node_push, if_neg (Nat.ne_of_lt hc)]
    rfl
  have hnew : parent? (a.push (a.standIn owner child)) a.size = some owner := by
    rw [parent?, node_push, if_pos rfl]
    rfl
  have hrest : ∀ {front back : List NodeId}, a.children owner = front ++ child :: back →
      child ∉ front ++ back ∧ (front ++ back).Nodup ∧
        ∀ c ∈ front ++ back, c < a.size ∧ a.parent? c = some owner := by
    intro front back hchildren
    have hnodup := h.children_nodup owner
    rw [hchildren] at hnodup
    obtain ⟨hout, hnodup⟩ := List.nodup_cons.1 (List.nodup_middle.1 hnodup)
    refine ⟨hout, hnodup, fun c hc => ?_⟩
    have hmem : c ∈ a.children owner :=
      hchildren ▸ ((List.sublist_cons_self ..).append_left front).subset hc
    exact ⟨h.lt_of_mem hmem, h.parent_of_child owner c hmem⟩
  suffices hsevered : (a.sever owner child).Kept ∧
      (a.sever owner child).parent? child = some owner ∧
      child ∉ (a.sever owner child).children owner by
    obtain ⟨hkept, hstill, hout⟩ := hsevered
    refine ⟨hkept, fun p hmem => hout ?_⟩
    have hp := hkept.parent_of_child p child hmem
    rw [hstill] at hp
    exact Option.some.inj hp ▸ hmem
  obtain ⟨kind, front, back, hbefore, hafter, heq⟩ | ⟨kind, front, back, hbefore, hafter, heq⟩ |
    ⟨hout, heq⟩ := a.sever_cases child howner
  · obtain ⟨hout, hnodup, hothers⟩ := hrest hbefore
    rw [heq, parent?_setKind howner, children, kind_setKind howner, if_pos rfl, hafter]
    refine ⟨h.setKind howner (fun c hc => ?_) (hafter ▸ hnodup), hparent, hout⟩
    exact (hothers c (hafter ▸ hc)).2
  · obtain ⟨hout, hnodup, hothers⟩ := hrest hbefore
    have hfresh : a.size ∉ front ++ back := fun hmem => Nat.lt_irrefl _ (hothers _ hmem).1
    have hmembers : ∀ c ∈ kind.children, c ∈ front ++ back ∨ c = a.size := by
      intro c hc
      rcases hafter with hafter | hafter
      · exact .inl (hafter ▸ hc)
      · rw [hafter, List.mem_append, List.mem_cons] at hc
        rw [List.mem_append]
        tauto
    have hnodup : kind.children.Nodup := by
      rcases hafter with hafter | hafter
      · exact hafter ▸ hnodup
      · exact hafter ▸ List.nodup_middle.2 (List.nodup_cons.2 ⟨hfresh, hnodup⟩)
    rw [heq, parent?_setKind howner', children, kind_setKind howner', if_pos rfl]
    refine ⟨hpush.setKind howner' (fun c hc => ?_) hnodup, (hold child hchild).trans hparent, ?_⟩
    · obtain hc | rfl := hmembers c hc
      · exact (hold c (hothers c hc).1).trans (hothers c hc).2
      · exact hnew
    · intro hmem
      obtain hmem | rfl := hmembers child hmem
      · exact hout hmem
      · exact Nat.lt_irrefl _ hchild
  · rw [heq, children, kind, node_push, if_neg (Nat.ne_of_lt howner)]
    exact ⟨hpush, (hold child hchild).trans hparent, hout⟩

/-- What is owned by others stays as it is. -/
theorem sever_other (a : Arena) {owner child i : NodeId} (howner : owner < a.size) (hi : i < a.size) :
    a.size ≤ (a.sever owner child).size ∧ (a.sever owner child).parent? i = a.parent? i ∧
      (i ≠ owner → (a.sever owner child).kind i = a.kind i) := by
  have hnode : node (a.push (a.standIn owner child)) i = a.node i := by
    rw [node_push, if_neg (Nat.ne_of_lt hi)]
  have howner' : owner < (a.push (a.standIn owner child)).size :=
    Array.size_push _ ▸ Nat.lt_succ_of_lt howner
  obtain ⟨kind, -, -, -, -, heq⟩ | ⟨kind, -, -, -, -, heq⟩ | ⟨-, heq⟩ :=
    a.sever_cases child howner
  · rw [heq, size_setKind, parent?_setKind howner, kind_setKind howner]
    exact ⟨Nat.le_refl _, rfl, fun hne => if_neg hne⟩
  · rw [heq, size_setKind, parent?_setKind howner', kind_setKind howner', parent?, hnode,
      Array.size_push]
    refine ⟨Nat.le_succ _, rfl, fun hne => ?_⟩
    rw [if_neg hne, Arena.kind, hnode]
    rfl
  · rw [heq, parent?, kind, hnode, Array.size_push]
    exact ⟨Nat.le_succ _, rfl, fun _ => rfl⟩

/-- It does not matter what else is written meanwhile. -/
theorem sever_setKind {a : Arena} {i owner : NodeId} (hi : i < a.size) (howner : owner < a.size)
    (hne : i ≠ owner) (k : Node.Kind) (child : NodeId) :
    (a.setKind i k).sever owner child = (a.sever owner child).setKind i k := by
  have hkind : (a.setKind i k).kind owner = a.kind owner := by
    rw [kind_setKind hi, if_neg (Ne.symm hne)]
  have hstand : (a.setKind i k).standIn owner child = a.standIn owner child := by
    unfold standIn
    rw [node_setKind hi]
    split <;> rfl
  have hi' : i < (a.push (a.standIn owner child)).size :=
    Array.size_push _ ▸ Nat.lt_succ_of_lt hi
  have howner' : owner < (a.push (a.standIn owner child)).size :=
    Array.size_push _ ▸ Nat.lt_succ_of_lt howner
  rw [sever_eq _ child ((size_setKind a i k).symm ▸ howner), sever_eq _ child howner, hkind, hstand,
    size_setKind, push_setKind hi]
  cases (a.kind owner).detach? child none with
  | some kind => exact setKind_comm hi howner hne k kind
  | none =>
    cases (a.kind owner).detach? child (some a.size) with
    | some kind => exact setKind_comm hi' howner' hne k kind
    | none => rfl

/-! ## Moving -/

section Reparent

variable {a : Arena} (h : a.Kept) {child parent : NodeId} (hchild : child < a.size)
  (hparent : parent < a.size)
include h hchild hparent

/-- A child that nobody lists is put into a node that it is not above. -/
theorem Kept.place (hfree : ∀ p, child ∉ a.children p) {way : List NodeId}
    (hway : a.Climbs parent way) (hout : child ∉ way) {kind : Node.Kind}
    (htakes : (a.kind parent).Takes child kind) :
    ((a.setKind parent kind).setParent child parent).Kept := by
  have hkept : (a.setParent child parent).Kept := h.setParent hchild hparent hfree hway hout
  have hparent' : parent < (a.setParent child parent).size :=
    (size_setParent a child parent).symm ▸ hparent
  obtain ⟨front, back, hchildren, hsub⟩ := htakes.children
  have hfree' : child ∉ front ++ back := fun hmem => hfree parent (hsub.subset hmem)
  have hnodup : (front ++ back).Nodup := (h.children_nodup parent).sublist hsub
  rw [setParent_setKind hparent hchild]
  refine hkept.setKind hparent' (fun c hc => ?_) ?_
  · rw [parent?_setParent hchild]
    split
    · rfl
    · rename_i hne
      rw [hchildren] at hc
      have hmem : c ∈ front ++ back := by
        rw [List.mem_append, List.mem_cons] at hc
        rw [List.mem_append]
        tauto
      exact h.parent_of_child parent c (hsub.subset hmem)
  · rw [hchildren]
    exact List.nodup_middle.2 (List.nodup_cons.2 ⟨hfree', hnodup⟩)

/-- A move keeps what holds of every arena, and writes to no more than two nodes that are there. -/
theorem Kept.reparent {way : List NodeId} (hway : a.Climbs parent way) (hout : child ∉ way)
    {kind : Node.Kind} (htakes : (a.kind parent).Takes child kind) :
    (a.reparent child parent kind).Kept ∧
    ∀ i < a.size, i ≠ parent → a.parent? child ≠ some i →
      (a.reparent child parent kind).kind i = a.kind i := by
  unfold Arena.reparent
  split
  · exact ⟨h, fun _ _ _ _ => rfl⟩
  · rename_i hother
    unfold adopt
    rw [parent?_setKind hparent]
    cases hprevious : a.parent? child with
    | none =>
      have hfree : ∀ p, child ∉ a.children p := by
        intro p hmem
        rw [h.parent_of_child p child hmem] at hprevious
        cases hprevious
      refine ⟨h.place hchild hparent hfree hway hout htakes, fun i _ hne _ => ?_⟩
      have hchild' : child < (a.setKind parent kind).size := (size_setKind a parent kind).symm ▸ hchild
      rw [kind_setParent hchild', kind_setKind hparent, if_neg hne]
    | some previous =>
      have hne : parent ≠ previous := fun heq => hother (heq ▸ hprevious)
      have hlt : previous < a.size := h.parent_lt child previous hprevious
      obtain ⟨hkept, hfree⟩ := h.sever hprevious
      have hsize : a.size ≤ (a.sever previous child).size := (a.sever_other hlt hchild).1
      have hchild' : child < (a.sever previous child).size := Nat.lt_of_lt_of_le hchild hsize
      have hparent' : parent < (a.sever previous child).size := Nat.lt_of_lt_of_le hparent hsize
      have hsize' := size_setKind (a.sever previous child) parent kind
      have hway' : (a.sever previous child).Climbs parent way := by
        refine hway.of_parent?_eq fun m hm => ?_
        exact (a.sever_other hlt (hway.lt_of_mem h.parent_lt hparent hm)).2.1
      have htakes' : ((a.sever previous child).kind parent).Takes child kind := by
        rwa [(a.sever_other hlt hparent).2.2 hne]
      dsimp only
      rw [if_pos (Ne.symm hne), sever_setKind hparent hlt hne]
      refine ⟨hkept.place hchild' hparent' hfree hway' hout htakes', fun i hi hne' hnot => ?_⟩
      rw [kind_setParent (hsize'.symm ▸ hchild'), kind_setKind hparent', if_neg hne']
      exact (a.sever_other hlt hi).2.2 fun heq => hnot (heq ▸ rfl)

end Reparent

end Arena

/-! ## Calls on a tree -/

namespace Tree

/-- A call that moves `child` to `parent`, which takes it in some place: neither is missing, and the
    child is not the parent or above it. -/
structure Moves (t : Tree) (child parent : NodeId) (t' : Tree) : Prop where
  child_lt : child < t.nodes.size
  parent_lt : parent < t.nodes.size
  not_above : t.isAncestor child parent = false
  placed : ∃ kind, (t.kind parent).Takes child kind ∧
    t' = { t with nodes := t.nodes.reparent child parent kind }

theorem moves_of_move? {t t' : Tree} {child parent : NodeId} (h : t.move? child parent = some t') :
    t.Moves child parent t' := by
  unfold move? at h
  split at h
  · cases h
  · rename_i hguard
    simp only [Bool.or_eq_true, decide_eq_true_eq, not_or, Nat.not_le, Bool.not_eq_true] at hguard
    obtain ⟨⟨hchild, hparent⟩, habove⟩ := hguard
    obtain ⟨kind, hkind, rfl⟩ := Option.map_eq_some_iff.1 h
    exact ⟨hchild, hparent, habove, kind, Node.Kind.takes_of_place? hkind, rfl⟩

/-- The ancestors are all nodes on the way up. -/
theorem climbs_ancestors {t : Tree} (h : t.nodes.Kept) (n : NodeId) :
    t.nodes.Climbs n (t.ancestors n) := by
  obtain ⟨way, hway⟩ := h.climbs n
  have hsteps : ∀ {n way}, t.nodes.Climbs n way → ∀ steps, way.length ≤ steps →
      t.ancestorsTo steps n = way := by
    intro n way hway
    induction hway with
    | top hnone =>
      intro steps hle
      cases steps with
      | zero => cases hle
      | succ steps =>
        rw [ancestorsTo, parent?, hnone]
    | up hsome _ ih =>
      intro steps hle
      cases steps with
      | zero => cases hle
      | succ steps =>
        rw [ancestorsTo, parent?, hsome, ← ih steps (Nat.le_of_succ_le_succ hle)]
  rw [ancestors, hsteps hway _ (hway.length_le h.parent_lt)]
  exact hway

theorem Moves.kept {t t' : Tree} {child parent : NodeId} (h : t.Moves child parent t')
    (hkept : t.nodes.Kept) : t'.nodes.Kept ∧
      ∀ i < t.nodes.size, i ≠ parent → t.parent? child ≠ some i → t'.kind i = t.kind i := by
  obtain ⟨kind, htakes, rfl⟩ := h.placed
  have hout : child ∉ t.ancestors parent := by
    have habove := h.not_above
    rwa [isAncestor, List.contains_eq_mem, decide_eq_false_iff_not] at habove
  exact hkept.reparent h.child_lt h.parent_lt (climbs_ancestors hkept parent) hout htakes

end Tree

namespace Parsed

/-- The tree of a parse, and every tree that calls make of it, is kept well. -/
theorem kept_of_moves {e : Grammar.Entry} {source? : Option Source} {text : String} {t : Tree}
    (h : Relation.ReflTransGen (fun t t' : Tree => ∃ child parent, t.Moves child parent t')
      (ofText e source? text).tree t) : t.nodes.Kept := by
  induction h with
  | refl =>
    obtain ⟨ps, -, hcuts⟩ := Scan.ofText_cuts source? text
    obtain ⟨parsed, hparsed, howned, -⟩ := ofScan?_makes e hcuts
    rw [show (ofText e source? text).tree = parsed.tree by
      simp only [ofText, ofScan, hparsed, Option.getD_some]]
    exact howned.kept
  | tail _ hmove ih =>
    obtain ⟨child, parent, hmove⟩ := hmove
    exact (hmove.kept ih).1

/-- However many calls have moved nodes about since a parse, children know the one node that lists
    them, no node is listed twice, the way up from any node ends, and another call writes to no node
    but the new parent and the previous one. -/
theorem ofText_moved (e : Grammar.Entry) (source? : Option Source) (text : String) (t : Tree)
    (h : Relation.ReflTransGen (fun t t' : Tree => ∃ child parent, t.Moves child parent t')
      (ofText e source? text).tree t) :
    (∀ p, ∀ c ∈ t.children p, t.parent? c = some p) ∧
    ((List.range t.nodes.size).flatMap t.children).Nodup ∧
    (∀ n, t.nodes.Climbs n (t.ancestors n)) ∧
    ∀ child parent t', t.Moves child parent t' →
      ∀ i < t.nodes.size, i ≠ parent → t.parent? child ≠ some i → t'.kind i = t.kind i := by
  have hkept : t.nodes.Kept := kept_of_moves h
  exact ⟨hkept.parent_of_child,
    Arena.flatMap_children_nodup hkept.parent_of_child hkept.children_nodup,
    Tree.climbs_ancestors hkept, fun _ _ _ hmove => (hmove.kept hkept).2⟩

/-- The nodes of `[a, (b)]`. -/
def crossing : Arena :=
  #[⟨.expression (.identifier 1), some 3, 1, 1⟩, ⟨.expression (.identifier 4), some 2, 4, 4⟩,
    ⟨.expression (.paren 3 1 5), some 3, 3, 5⟩,
    ⟨.expression (.list none none 0 [0, 2] 6), none, 0, 6⟩]

/-- The first element stands in the parentheses. -/
def halfCrossed : Arena :=
  #[⟨.expression (.identifier 1), some 2, 1, 1⟩, ⟨.expression (.identifier 4), some 2, 4, 4⟩,
    ⟨.expression (.paren 3 0 5), some 3, 3, 5⟩,
    ⟨.expression (.list none none 0 [2] 6), none, 0, 6⟩]

/-- What stood in the parentheses is in the list. -/
def crossed : Arena :=
  #[⟨.expression (.identifier 1), some 2, 1, 1⟩, ⟨.expression (.identifier 4), some 3, 4, 4⟩,
    ⟨.expression (.paren 3 0 5), some 3, 3, 5⟩,
    ⟨.expression (.list none none 0 [2, 1] 6), none, 0, 6⟩,
    ⟨.expression (.identifier 4), some 2, 4, 4⟩]

set_option maxRecDepth 4000 in
theorem nodes_crossing : (ofText .expression none "[a, (b)]").tree.nodes = crossing := by
  cbv

theorem tree_crossing :
    ∃ u : Tree, (ofText .expression none "[a, (b)]").tree = { u with nodes := crossing } :=
  ⟨_, by rw [← nodes_crossing]⟩

theorem move?_crossing (t : Tree) :
    { t with nodes := crossing }.move? 0 2 = some { t with nodes := halfCrossed } :=
  rfl

theorem move?_halfCrossed (t : Tree) :
    { t with nodes := halfCrossed }.move? 1 3 = some { t with nodes := crossed } :=
  rfl

/-- The first element goes into the parentheses and what stood there into the list. It was overwritten
    before, so the identifier left in its place has a parent that does not list it. -/
theorem ofText_moved_crosswise :
    ∃ t t', (ofText .expression none "[a, (b)]").tree.move? 0 2 = some t ∧
      t.move? 1 3 = some t' ∧ t'.children 3 = [2, 1] ∧ t'.children 2 = [0] ∧
      t'.parent? 4 = some 2 ∧
      (∀ p, ∀ c ∈ t'.children p, t'.parent? c = some p) ∧
      ((List.range t'.nodes.size).flatMap t'.children).Nodup ∧
      (∀ n, t'.nodes.Climbs n (t'.ancestors n)) ∧
      ∀ child parent t'', t'.Moves child parent t'' →
        ∀ i < t'.nodes.size, i ≠ parent → t'.parent? child ≠ some i → t''.kind i = t'.kind i := by
  obtain ⟨u, hu⟩ := tree_crossing
  have hfirst := move?_crossing u
  have hsecond := move?_halfCrossed u
  rw [hu]
  refine ⟨_, _, hfirst, hsecond, rfl, rfl, rfl, ofText_moved .expression none "[a, (b)]" _ ?_⟩
  rw [hu]
  exact .tail (.tail .refl ⟨0, 2, Tree.moves_of_move? hfirst⟩)
    ⟨1, 3, Tree.moves_of_move? hsecond⟩

end Parsed

end DartAnalysis
