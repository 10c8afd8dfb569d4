/-
  Statements that always exit never complete. Wherever a node is said to exit, no run of it completes
  (`Tree.exits_sound`), as long as nothing is left out or left early on the way: there are no jumps, no
  assertions, no logical operators, no updaters of loops and no catch clauses (`Tree.Plain`). The proof is
  by induction on runs; what a run of each kind of task tells is `Task.Passes`. So what stands behind a
  statement that exits makes no difference (`Tree.runs_all_append_iff`). Main statement:
  `Parsed.ofText_exits`.
-/
import DartAnalysis.Proofs.Element.Proper
import DartAnalysis.Proofs.Flow.Execution

namespace DartAnalysis

open Execution

/-- What is inside is not run where it stands. -/
def Node.Kind.isDeferred : Node.Kind → Bool
  | .expression (.closure ..) | .statement (.functionDecl _) => true
  | _ => false

theorem Expression.mem_fields_of_operand {e : Expression} {c : NodeId} (hc : c ∈ e.operands) :
    c ∈ e.fields.flatMap Field.children := by
  cases e <;> simp [operands, fields, Field.children] at hc ⊢ <;> tauto

/-- Operands are children of what is not deferred. -/
theorem Node.Kind.mem_fields_of_operand {kind : Node.Kind} {c : NodeId} (hc : c ∈ kind.operands) :
    c ∈ kind.fields.flatMap Field.children ∧ kind.isDeferred = false := by
  cases kind with
  | expression e =>
    refine ⟨Expression.mem_fields_of_operand hc, ?_⟩
    cases e <;> first | rfl | cases hc
  | statement s =>
    cases s with
    | variablesDecl | evaluate | returns =>
      exact ⟨by simpa [operands, fields, Statement.fields, Field.children] using hc, rfl⟩
    | _ => cases hc
  | variableList | «variable» | mapEntry | argumentList =>
    simp only [operands, List.mem_cons, List.not_mem_nil, or_false] at hc
    exact ⟨by simp [fields, Field.children, hc], rfl⟩
  | stringElement e =>
    cases e with
    | text => cases hc
    | spliced => exact ⟨by simpa [operands, fields, StringElement.fields, Field.children] using hc, rfl⟩
  | _ => cases hc

namespace Tree

variable {t : Tree}

/-! ## Nodes by sorts -/

section Sorted

variable (ht : t.Sorted)
include ht

/-- In types and their pieces nothing is run. -/
theorem exitsTo_typePart (depth : Nat) {n : NodeId} (hn : (t.kind n).isTypePart = true) :
    t.exitsTo depth n = false := by
  obtain ⟨T, hT, hsorted⟩ := id ht
  induction depth generalizing n with
  | zero => rfl
  | succ depth ih =>
    have hchildren : ∀ c ∈ t.children n, t.exitsTo depth c = false := fun c hc =>
      ih (kind_of_slots hT Category.isTypePart_of_admits (hsorted n)
        (Node.Kind.slots_asks_typePart hn) c hc)
    have hdefault : t.exitsTo (depth + 1) n = (t.children n).any (t.exitsTo depth) := by
      unfold exitsTo
      cases hkind : t.kind n with
      | expression e =>
        rw [hkind] at hn
        cases e <;> first | rfl | cases hn
      | _ => first | rfl | (rw [hkind] at hn; cases hn)
    rw [hdefault]
    exact List.any_eq_false.2 fun c hc => Bool.eq_false_iff.1 (hchildren c hc)

theorem exitsTo_name (depth : Nat) {n : NodeId} (hn : Category.name.admits (t.kind n) = true) :
    t.exitsTo depth n = false :=
  exitsTo_typePart ht depth (Category.isTypePart_of_admits rfl hn)

theorem exitsTo_type (depth : Nat) {n : NodeId} (hn : Category.type.admits (t.kind n) = true) :
    t.exitsTo depth n = false :=
  exitsTo_typePart ht depth (Category.isTypePart_of_admits rfl hn)

omit ht in
/-- Most nodes exit if one of their children does. -/
theorem exitsTo_of_children {n : NodeId} {kind : Node.Kind} (hkind : t.kind n = kind) {depth : Nat}
    (hdefault : t.exitsTo (depth + 1) n = (t.children n).any (t.exitsTo depth))
    (h : ∀ c ∈ kind.fields.flatMap Field.children, t.exitsTo depth c = false) :
    t.exitsTo (depth + 1) n = false := by
  rw [hdefault, children_of_kind hkind]
  exact List.any_eq_false.2 fun c hc => Bool.eq_false_iff.1 (h c hc)

attribute [local simp] Node.Kind.fields Statement.fields Expression.fields Field.children
  Node.Kind.operands Expression.operands

theorem exitsTo_label (depth : Nat) {n : NodeId} (hn : Category.label.admits (t.kind n) = true) :
    t.exitsTo depth n = false := by
  cases depth with
  | zero => rfl
  | succ depth =>
    cases hkind : t.kind n with
    | label name colon =>
      refine exitsTo_of_children hkind (by unfold exitsTo; rw [hkind]) fun c hc => ?_
      obtain rfl : c = name := by simpa using hc
      exact exitsTo_name ht depth (ht.node hkind 0 rfl rfl)
    | _ =>
      rw [hkind] at hn
      cases hn

theorem exitsTo_constructorName (depth : Nat) {n : NodeId}
    (hn : Category.constructorName.admits (t.kind n) = true) : t.exitsTo depth n = false := by
  cases depth with
  | zero => rfl
  | succ depth =>
    cases hkind : t.kind n with
    | constructorName typeName period name? =>
      refine exitsTo_of_children hkind (by unfold exitsTo; rw [hkind]) fun c hc => ?_
      obtain rfl | hc : c = typeName ∨ name? = some c := by simpa using hc
      · exact exitsTo_type ht depth (ht.node hkind 0 rfl rfl)
      · exact exitsTo_name ht depth (ht.node? hkind 2 rfl rfl c hc)
    | _ =>
      rw [hkind] at hn
      cases hn

/-- What is no operand of an expression is never run. -/
theorem exitsTo_expression {n : NodeId} {e : Expression} (hkind : t.kind n = .expression e)
    (hends : .completes ∈ t.ends n) {depth : Nat}
    (h : ∀ c ∈ e.operands, t.exitsTo depth c = false) : t.exitsTo (depth + 1) n = false := by
  unfold ends branches? at hends
  rw [hkind] at hends
  cases e with
  | throws | rethrows | conditional => simp at hends
  | list | map | interpolation | closure =>
    unfold exitsTo
    rw [hkind]
  | qualified qualifier period name =>
    refine exitsTo_of_children hkind (by unfold exitsTo; rw [hkind]) fun c hc => ?_
    obtain rfl | rfl : c = qualifier ∨ c = name := by simpa using hc
    · exact h c (by simp)
    · exact exitsTo_name ht depth (ht.node hkind 2 rfl rfl)
  | isTest operand is not typeName =>
    refine exitsTo_of_children hkind (by unfold exitsTo; rw [hkind]) fun c hc => ?_
    obtain rfl | rfl : c = operand ∨ c = typeName := by simpa using hc
    · exact h c (by simp)
    · exact exitsTo_type ht depth (ht.node hkind 3 rfl rfl)
  | cast operand as typeName =>
    refine exitsTo_of_children hkind (by unfold exitsTo; rw [hkind]) fun c hc => ?_
    obtain rfl | rfl : c = operand ∨ c = typeName := by simpa using hc
    · exact h c (by simp)
    · exact exitsTo_type ht depth (ht.node hkind 2 rfl rfl)
  | property target? operator name =>
    refine exitsTo_of_children hkind (by unfold exitsTo; rw [hkind]) fun c hc => ?_
    obtain hc | rfl : target? = some c ∨ c = name := by simpa using hc
    · exact h c (by simp [hc])
    · exact exitsTo_name ht depth (ht.node hkind 2 rfl rfl)
  | call target? period? name arguments =>
    refine exitsTo_of_children hkind (by unfold exitsTo; rw [hkind]) fun c hc => ?_
    obtain hc | rfl | rfl : target? = some c ∨ c = name ∨ c = arguments := by simpa using hc
    · exact h c (by simp [hc])
    · exact exitsTo_name ht depth (ht.node hkind 2 rfl rfl)
    · exact h c (by simp)
  | create keyword constructorName arguments =>
    refine exitsTo_of_children hkind (by unfold exitsTo; rw [hkind]) fun c hc => ?_
    obtain rfl | rfl : c = constructorName ∨ c = arguments := by simpa using hc
    · exact exitsTo_constructorName ht depth (ht.node hkind 1 rfl rfl)
    · exact h c (by simp)
  | named label operand =>
    refine exitsTo_of_children hkind (by unfold exitsTo; rw [hkind]) fun c hc => ?_
    obtain rfl | rfl : c = label ∨ c = operand := by simpa using hc
    · exact exitsTo_label ht depth (ht.node hkind 0 rfl rfl)
    · exact h c (by simp)
  | identifier | integer | double | boolean | null | string | this | super =>
    exact exitsTo_of_children hkind (by unfold exitsTo; rw [hkind]) fun c hc =>
      absurd hc List.not_mem_nil
  | _ =>
    refine exitsTo_of_children hkind (by unfold exitsTo; rw [hkind]) fun c hc => ?_
    exact h c (by simpa using hc)

/-- A node with operands does not exit if none of them does. -/
theorem exitsTo_operation {n : NodeId} (hends : .completes ∈ t.ends n) {depth : Nat}
    (h : ∀ c ∈ (t.kind n).operands, t.exitsTo depth c = false) : t.exitsTo (depth + 1) n = false := by
  have hends' := hends
  unfold ends at hends'
  cases hkind : t.kind n with
  | expression e =>
    rw [hkind] at h
    exact exitsTo_expression ht hkind hends h
  | variableList keyword type? vars =>
    rw [hkind] at h
    refine exitsTo_of_children hkind (by unfold exitsTo; rw [hkind]) fun c hc => ?_
    obtain hc | hc : type? = some c ∨ c ∈ vars := by simpa using hc
    · exact exitsTo_type ht depth (ht.node? hkind 1 rfl rfl c hc)
    · exact h c hc
  | «variable» name equals? initializer? =>
    rw [hkind] at h
    refine exitsTo_of_children hkind (by unfold exitsTo; rw [hkind]) fun c hc => ?_
    obtain rfl | hc : c = name ∨ initializer? = some c := by simpa using hc
    · exact exitsTo_name ht depth (ht.node hkind 0 rfl rfl)
    · exact h c (by simp [hc])
  | stringElement e =>
    rw [hkind] at h
    refine exitsTo_of_children hkind (by unfold exitsTo; rw [hkind]) fun c hc => ?_
    cases e with
    | text => exact absurd hc List.not_mem_nil
    | spliced l operand r => exact h c (by simpa [StringElement.fields] using hc)
  | mapEntry | argumentList =>
    rw [hkind] at h
    refine exitsTo_of_children hkind (by unfold exitsTo; rw [hkind]) fun c hc => ?_
    exact h c (by simpa using hc)
  | statement s =>
    rw [hkind] at h hends'
    cases s with
    | variablesDecl | evaluate =>
      refine exitsTo_of_children hkind (by unfold exitsTo; rw [hkind]) fun c hc => ?_
      exact h c (by simpa using hc)
    | functionDecl | empty =>
      unfold exitsTo
      rw [hkind]
    | _ => simp at hends'
  | _ =>
    rw [hkind] at hends'
    simp at hends'

end Sorted

/-! ## Plain nodes -/

/-- Whether a node neither jumps nor leaves out something that is written in it. -/
def isPlain (t : Tree) (n : NodeId) : Bool :=
  match t.kind n with
  | .statement (.breaks ..) | .statement (.continues ..) | .statement (.assertion ..) => false
  | .statement (.forLoop _ _ _ _ _ _ _ updaters _ _) => updaters.isEmpty
  | .statement (.tryCatch _ _ catchClauses _ _) => catchClauses.isEmpty
  | .expression (.binary _ operator _) =>
    t.operator? operator != some .ampAmp && t.operator? operator != some .barBar
  | _ => true

/-- A node is part of another one, and not of a function in it. -/
inductive PartOf (t : Tree) : NodeId → NodeId → Prop where
  | self (n : NodeId) : PartOf t n n
  | under {p c n : NodeId} (hp : (t.kind p).isDeferred = false) (hc : c ∈ t.children p) (h : PartOf t c n) :
      PartOf t p n

/-- All parts of a node are plain. -/
def Plain (t : Tree) (n : NodeId) : Prop := ∀ m, t.PartOf n m → t.isPlain m = true

section Plain

variable {n : NodeId} (hplain : t.Plain n)
include hplain

theorem Plain.self : t.isPlain n = true := hplain n (.self n)

theorem Plain.child {kind : Node.Kind} (hkind : t.kind n = kind) {c : NodeId}
    (hc : c ∈ kind.fields.flatMap Field.children) (hdeferred : kind.isDeferred = false) : t.Plain c :=
  fun m hm => hplain m (.under (hkind ▸ hdeferred) (by rwa [children_of_kind hkind]) hm)

end Plain

theorem Plain.operand {n : NodeId} (hplain : t.Plain n) : ∀ c ∈ (t.kind n).operands, t.Plain c :=
  fun _ hc => hplain.child rfl (Node.Kind.mem_fields_of_operand hc).1
    (Node.Kind.mem_fields_of_operand hc).2

end Tree

/-! ## Tasks -/

/-- Before its turns end a loop has asked for its condition, and not always has it got the literal
    `true`. -/
structure Execution.Loop.Asked (t : Tree) (l : Loop) : Prop where
  condition : ∀ depth, ∀ c ∈ l.condition?, t.exitsTo depth c = false
  conditional : l.isEach = true ∨ ∃ c ∈ l.condition?, t.isTrueLiteral c = false

namespace Execution.Task

variable (t : Tree)

/-- All that a task runs is plain. -/
def Plain : Task → Prop
  | .one n | .turns n | .turn n | .guarded n => t.Plain n
  | .all ns => ∀ n ∈ ns, t.Plain n
  | .cases _ members => (∀ m ∈ members, (t.switchStatements? m).isSome) ∧
    ∀ n ∈ t.statementsOf members, t.Plain n

/-- Nothing that is run exits. -/
def Passes : Task → Prop
  | .one n => ∀ depth, t.exitsTo depth n = false
  | .all ns => ∀ n ∈ ns, ∀ depth, t.exitsTo depth n = false
  | .turns n => ∀ l ∈ t.loop? n, l.Asked t
  | .turn n => ∀ l ∈ t.loop? n, (∀ depth, t.exitsTo depth l.body = false) ∧ l.Asked t
  | .cases _ members => members ≠ [] → ∀ depth, t.membersExit (t.exitsTo depth) members = false
  | .guarded n => ∀ k body cs f finally?, t.kind n = .statement (.tryCatch k body cs f finally?) →
    ∀ depth, t.exitsTo depth body = false

/-- A run of a task ends without a jump, and completes only if nothing exits. -/
def Tells (task : Task) : Outcome → Prop
  | .completes => task.Passes t
  | .returns | .throws => True
  | .breaks _ | .continues _ => False

variable {t} {task task' : Task} {o : Outcome}

theorem Tells.other (h : task.Tells t o) (ho : o ≠ .completes) : task'.Tells t o := by
  cases o with
  | completes => exact absurd rfl ho
  | _ => exact h

theorem Tells.imp (h : task.Tells t o) (himp : task.Passes t → task'.Passes t) : task'.Tells t o := by
  cases o with
  | completes => exact himp h
  | _ => exact h

end Execution.Task

/-! ## Statements -/

namespace Tree

variable {t : Tree} {n : NodeId}

section Passing

attribute [local simp] Node.Kind.fields Statement.fields Expression.fields Field.children

theorem any_exitsTo {depth : Nat} {ns : List NodeId} (h : ∀ n ∈ ns, t.exitsTo depth n = false) :
    ns.any (t.exitsTo depth) = false :=
  List.any_eq_false.2 fun n hn => Bool.eq_false_iff.1 (h n hn)

theorem option_any_exitsTo {depth : Nat} {n? : Option NodeId}
    (h : ∀ n ∈ n?, t.exitsTo depth n = false) : n?.any (t.exitsTo depth) = false := by
  cases n? with
  | none => rfl
  | some n => exact h n rfl

/-- Operations that are plain do not jump. -/
theorem ends_of_plain (hplain : t.isPlain n = true) {o : Outcome} (ho : o ∈ t.ends n) :
    o = .completes ∨ o = .returns ∨ o = .throws := by
  unfold isPlain at hplain
  unfold ends at ho
  split at ho
  case h_6 | h_7 =>
    rename_i hkind
    rw [hkind] at hplain
    cases hplain
  case h_4 =>
    split at ho
    · cases ho
    · rcases List.mem_pair.1 ho with rfl | rfl
      · exact .inl rfl
      · exact .inr (.inr rfl)
  case h_17 => cases ho
  all_goals
    obtain rfl := List.mem_singleton.1 ho
    simp

theorem passes_branches (hplain : t.Plain n) {b : Branches} (hb : t.branches? n = some b)
    (hcondition : (Task.one b.condition).Passes t)
    (h : (Task.all b.yes).Passes t ∨ (Task.all b.no).Passes t) : (Task.one n).Passes t := by
  intro depth
  cases depth with
  | zero => rfl
  | succ depth =>
    unfold branches? at hb
    split at hb
    · rename_i then' _ else? hkind
      obtain rfl := Option.some.inj hb
      unfold exitsTo
      rw [hkind]
      refine Bool.or_eq_false_iff.2 ⟨hcondition depth, ?_⟩
      cases else? with
      | none => rfl
      | some otherwise =>
        refine Bool.and_eq_false_iff.2 (h.imp (fun h => ?_) fun h => ?_)
        · exact h then' List.mem_cons_self depth
        · exact h otherwise List.mem_cons_self depth
    · rename_i then' _ otherwise hkind
      obtain rfl := Option.some.inj hb
      unfold exitsTo
      rw [hkind]
      refine Bool.or_eq_false_iff.2 ⟨hcondition depth, ?_⟩
      refine Bool.and_eq_false_iff.2 (h.imp (fun h => ?_) fun h => ?_)
      · exact h then' List.mem_cons_self depth
      · exact h otherwise List.mem_cons_self depth
    · -- A logical operator is not plain.
      rename_i hkind
      have hself := hplain.self
      unfold isPlain at hself
      rw [hkind] at hself
      split at hb
      · simp_all
      · split at hb
        · simp_all
        · cases hb
    · cases hb

theorem passes_loop (hplain : t.Plain n) {l : Loop} (hl : t.loop? n = some l)
    (hbefore : (Task.all l.before).Passes t) (hasked : l.Asked t)
    (hlate : l.isLate = true → ∀ depth, t.exitsTo depth l.body = false) : (Task.one n).Passes t := by
  have hall (heach : l.isEach = false) : l.condition?.all t.isTrueLiteral = false := by
    obtain hconditional | ⟨c, hc, hliteral⟩ := hasked.conditional
    · rw [heach] at hconditional
      cases hconditional
    · rw [Option.mem_def.1 hc]
      exact hliteral
  intro depth
  cases depth with
  | zero => rfl
  | succ depth =>
    have hcondition : l.condition?.any (t.exitsTo depth) = false :=
      option_any_exitsTo (hasked.condition depth)
    unfold loop? at hl
    split at hl
    · rename_i hkind
      obtain rfl := Option.some.inj hl
      unfold exitsTo
      rw [hkind]
      exact Bool.or_eq_false_iff.2 ⟨hcondition, Bool.and_eq_false_iff.2 (.inl (hall rfl))⟩
    · rename_i hkind
      obtain rfl := Option.some.inj hl
      unfold exitsTo
      rw [hkind]
      exact Bool.or_eq_false_iff.2 ⟨hlate rfl depth, hcondition⟩
    · rename_i varList? initialization? _ condition? _ updaters _ body hkind
      obtain rfl := Option.some.inj hl
      have hupdaters : updaters = [] := by
        have hself := hplain.self
        unfold isPlain at hself
        rw [hkind] at hself
        exact List.isEmpty_iff.1 hself
      have hlist : varList?.any (t.exitsTo depth) = false := option_any_exitsTo fun n hn =>
        hbefore n (List.mem_append_left _ (Option.mem_toList.2 hn)) depth
      have hinitialization : initialization?.any (t.exitsTo depth) = false :=
        option_any_exitsTo fun n hn =>
          hbefore n (List.mem_append_right _ (Option.mem_toList.2 hn)) depth
      unfold exitsTo
      rw [hkind]
      dsimp only
      rw [hlist, hinitialization, hcondition, hall rfl, hupdaters]
      rfl
    · rename_i iterator _ _ hkind
      obtain rfl := Option.some.inj hl
      unfold exitsTo
      rw [hkind]
      exact hbefore iterator List.mem_cons_self depth
    · cases hl

theorem isTrueLiteral_of_mayBe {c : NodeId} (h : t.MayBe c false) : t.isTrueLiteral c = false := by
  unfold isTrueLiteral
  split
  · exact h _ ‹_›
  · rfl

/-- The last of some members of a switch has to exit. -/
theorem passes_cases {members : List NodeId} (hsome : ∀ m ∈ members, (t.switchStatements? m).isSome)
    (h : (Task.all (t.statementsOf members)).Passes t) : (Task.cases n members).Passes t := by
  intro hne depth
  induction members with
  | nil => exact absurd rfl hne
  | cons m ms ih =>
    have hm := hsome m List.mem_cons_self
    obtain ⟨statements, hstatements⟩ := Option.isSome_iff_exists.1 hm
    have hmem : ∀ n ∈ statements, t.exitsTo depth n = false := fun n hn =>
      h n (List.mem_flatMap.2 ⟨m, List.mem_cons_self, by simpa [hstatements] using hn⟩) depth
    unfold membersExit
    rw [hstatements]
    dsimp only
    rw [any_exitsTo hmem, Bool.or_false]
    cases ms with
    | nil => simp
    | cons m' ms =>
      refine Bool.and_eq_false_iff.2 (.inr (ih (fun m hm => hsome m (List.mem_cons_of_mem _ hm))
        (fun n hn => h n ?_) (List.cons_ne_nil _ _)))
      rw [statementsOf, List.flatMap_cons]
      exact List.mem_append_right _ hn

/-- If members of a switch do not all exit, neither do those with others before them. -/
theorem membersExit_append {exits : NodeId → Bool} {front back : List NodeId}
    (h : t.membersExit exits back = false) : t.membersExit exits (front ++ back) = false := by
  induction front with
  | nil => exact h
  | cons m front ih =>
    rw [List.cons_append, membersExit, ih, Bool.and_false]

end Passing

section Parts

attribute [local simp] Node.Kind.fields Statement.fields Expression.fields SwitchMember.fields
  Field.children

theorem Plain.branches (hplain : t.Plain n) {b : Branches} (hb : t.branches? n = some b) :
    t.Plain b.condition ∧ (Task.all b.yes).Plain t ∧ (Task.all b.no).Plain t := by
  unfold branches? at hb
  split at hb
  · rename_i hkind
    obtain rfl := Option.some.inj hb
    exact ⟨hplain.child hkind (by simp) rfl, fun c hc => hplain.child hkind (by simp_all) rfl,
      fun c hc => hplain.child hkind (by simp_all) rfl⟩
  · rename_i hkind
    obtain rfl := Option.some.inj hb
    exact ⟨hplain.child hkind (by simp) rfl, fun c hc => hplain.child hkind (by simp_all) rfl,
      fun c hc => hplain.child hkind (by simp_all) rfl⟩
  · rename_i hkind
    split at hb
    · obtain rfl := Option.some.inj hb
      exact ⟨hplain.child hkind (by simp) rfl, fun c hc => hplain.child hkind (by simp_all) rfl,
        fun c hc => absurd hc List.not_mem_nil⟩
    · split at hb
      · obtain rfl := Option.some.inj hb
        exact ⟨hplain.child hkind (by simp) rfl, fun c hc => absurd hc List.not_mem_nil,
          fun c hc => hplain.child hkind (by simp_all) rfl⟩
      · cases hb
  · cases hb

theorem Plain.loop (hplain : t.Plain n) {l : Loop} (hl : t.loop? n = some l) :
    (Task.all l.before).Plain t ∧ (Task.all l.condition?.toList).Plain t ∧ t.Plain l.body ∧
      (Task.all l.updaters).Plain t := by
  unfold loop? at hl
  split at hl
  · rename_i hkind
    obtain rfl := Option.some.inj hl
    exact ⟨fun c hc => absurd hc List.not_mem_nil, fun c hc => hplain.child hkind (by simp_all) rfl,
      hplain.child hkind (by simp) rfl, fun c hc => absurd hc List.not_mem_nil⟩
  · rename_i hkind
    obtain rfl := Option.some.inj hl
    exact ⟨fun c hc => absurd hc List.not_mem_nil, fun c hc => hplain.child hkind (by simp_all) rfl,
      hplain.child hkind (by simp) rfl, fun c hc => absurd hc List.not_mem_nil⟩
  · rename_i hkind
    obtain rfl := Option.some.inj hl
    exact ⟨fun c hc => hplain.child hkind (by simp at hc ⊢; tauto) rfl,
      fun c hc => hplain.child hkind (by simp_all) rfl,
      hplain.child hkind (by simp) rfl, fun c hc => hplain.child hkind (by simp_all) rfl⟩
  · rename_i hkind
    obtain rfl := Option.some.inj hl
    exact ⟨fun c hc => hplain.child hkind (by simp_all) rfl, fun c hc => absurd hc List.not_mem_nil,
      hplain.child hkind (by simp) rfl, fun c hc => absurd hc List.not_mem_nil⟩
  · cases hl

theorem Plain.cases (ht : t.Sorted) (hplain : t.Plain n) {k l r lb rb : TokenId} {e : NodeId}
    {ms members : List NodeId} (hkind : t.kind n = .statement (.switch k l e r lb ms rb))
    (hmembers : ∀ m ∈ members, m ∈ ms) : (Task.cases n members).Plain t := by
  have hmember {m : NodeId} (hm : m ∈ members) : t.Plain m :=
    hplain.child hkind (by simp [hmembers m hm]) rfl
  have hsort {m : NodeId} (hm : m ∈ members) : ∃ s, t.kind m = .switchMember s := by
    have hadmits := ht.nodes hkind 5 rfl rfl m (hmembers m hm)
    revert hadmits
    cases t.kind m <;> first | exact fun _ => ⟨_, rfl⟩ | exact nofun
  refine ⟨fun m hm => ?_, fun s hs => ?_⟩
  · obtain ⟨s, hs⟩ := hsort hm
    unfold switchStatements?
    rw [hs]
    cases s <;> rfl
  · obtain ⟨m, hm, hs⟩ := List.mem_flatMap.1 hs
    obtain ⟨s', hs'⟩ := hsort hm
    unfold switchStatements? at hs
    rw [hs'] at hs
    cases s' with
    | case | default => exact (hmember hm).child hs' (by simp_all) rfl

end Parts

/-! ## Soundness -/

section Soundness

attribute [local simp] Node.Kind.fields Statement.fields Field.children

/-- What is true of a node one level deeper is true of it at every depth. -/
theorem passes_of_succ (h : ∀ depth, t.exitsTo (depth + 1) n = false) : (Task.one n).Passes t := by
  intro depth
  cases depth with
  | zero => rfl
  | succ depth => exact h depth

/-- A run of something plain completes only if nothing in it exits. -/
theorem Runs.tells (ht : t.Sorted) {task : Task} {o : Outcome} (h : t.Runs task o) :
    task.Plain t → task.Tells t o := by
  induction h with
  | done => exact fun _ n hn => absurd hn List.not_mem_nil
  | stop _ ho ih => exact fun hplain => (ih (hplain _ List.mem_cons_self)).other ho
  | next _ _ ih ihrest =>
    intro hplain
    have hn := ih (hplain _ List.mem_cons_self)
    refine (ihrest fun m hm => hplain m (List.mem_cons_of_mem _ hm)).imp fun hrest m hm => ?_
    rcases List.mem_cons.1 hm with rfl | hm
    · exact hn
    · exact hrest m hm
  | operand _ _ ho ih => exact fun hplain => (ih (Plain.operand hplain)).other ho
  | operation _ ho ih =>
    intro hplain
    have hoperands := ih (Plain.operand hplain)
    rcases ends_of_plain (Plain.self hplain) ho with rfl | rfl | rfl
    · exact passes_of_succ fun depth =>
        exitsTo_operation ht ho fun c hc => hoperands c hc depth
    · trivial
    · trivial
  | block hkind _ ih =>
    intro hplain
    refine (ih fun m hm => Plain.child hplain hkind (by simp [hm]) rfl).imp fun h =>
      passes_of_succ fun depth => ?_
    unfold exitsTo
    rw [hkind]
    exact any_exitsTo fun m hm => h m hm depth
  | labeled hkind _ _ ih =>
    intro hplain
    refine (ih (Plain.child hplain hkind (by simp) rfl)).imp fun h => passes_of_succ fun depth => ?_
    unfold exitsTo
    rw [hkind]
    exact h depth
  | labeledBreak hkind _ _ ih => exact fun hplain => (ih (Plain.child hplain hkind (by simp) rfl)).elim
  | condition hb _ ho ih => exact fun hplain => (ih (Plain.branches hplain hb).1).other ho
  | yes hb _ _ _ ih ihbranch =>
    intro hplain
    obtain ⟨hcondition, hyes, -⟩ := Plain.branches hplain hb
    exact (ihbranch hyes).imp fun h => passes_branches hplain hb (ih hcondition) (.inl h)
  | no hb _ _ _ ih ihbranch =>
    intro hplain
    obtain ⟨hcondition, -, hno⟩ := Plain.branches hplain hb
    exact (ihbranch hno).imp fun h => passes_branches hplain hb (ih hcondition) (.inr h)
  | ignored hkind | asserted hkind | failed hkind =>
    intro hplain
    have hself := Plain.self hplain
    unfold isPlain at hself
    rw [hkind] at hself
    cases hself
  | before hl _ ho ih => exact fun hplain => (ih (Plain.loop hplain hl).1).other ho
  | enter hl hlate _ _ ih ihrest =>
    intro hplain
    refine (ihrest hplain).imp fun hturns =>
      passes_loop hplain hl (ih (Plain.loop hplain hl).1) (hturns _ hl) fun h => ?_
    rw [hlate] at h
    cases h
  | enterLate hl _ _ _ ih ihrest =>
    intro hplain
    exact (ihrest hplain).imp fun hturn => passes_loop hplain hl (ih (Plain.loop hplain hl).1)
      (hturn _ hl).2 fun _ => (hturn _ hl).1
  | asks hl _ ho ih => exact fun hplain => (ih (Plain.loop hplain hl).2.1).other ho
  | noElement => exact fun _ => trivial
  | leave hl _ hend ih =>
    intro hplain l' hl'
    obtain rfl := Option.some.inj (hl.symm.trans hl')
    have hcondition := ih (Plain.loop hplain hl).2.1
    refine ⟨fun depth c hc => hcondition c (Option.mem_toList.2 hc) depth, hend.imp_right ?_⟩
    exact fun ⟨c, hc, hmay⟩ => ⟨c, hc, isTrueLiteral_of_mayBe hmay⟩
  | again _ _ _ _ _ ihrest =>
    exact fun hplain => (ihrest hplain).imp fun h l hl => (h l hl).2
  | bodyBreaks hl _ ih => exact fun hplain => (ih (Plain.loop hplain hl).2.2.1).elim
  | bodyLeaves hl _ hon _ ih =>
    exact fun hplain => (ih (Plain.loop hplain hl).2.2.1).other fun ho => hon (.inl ho)
  | updaters hl _ _ _ ho _ ihupdaters =>
    exact fun hplain => (ihupdaters (Plain.loop hplain hl).2.2.2).other ho
  | turned hl _ hon _ _ ih _ ihrest =>
    intro hplain
    have hbody := ih (Plain.loop hplain hl).2.2.1
    rcases hon with rfl | rfl | ⟨label, -, rfl⟩
    · refine (ihrest hplain).imp fun hturns l' hl' => ?_
      obtain rfl := Option.some.inj (hl.symm.trans hl')
      exact ⟨hbody, hturns _ hl⟩
    · exact hbody.elim
    · exact hbody.elim
  | selects hkind _ ho ih => exact fun hplain => (ih (Plain.child hplain hkind (by simp) rfl)).other ho
  | passes hkind _ hms ih =>
    intro hplain
    have hexpression := ih (Plain.child hplain hkind (by simp) rfl)
    refine passes_of_succ fun depth => ?_
    unfold exitsTo
    rw [hkind]
    have hdefault := List.any_eq_false.2 fun m hm => Bool.eq_false_iff.1 (hms m hm)
    exact Bool.or_eq_false_iff.2 ⟨hexpression depth, Bool.and_eq_false_iff.2 (.inr hdefault)⟩
  | selected hkind _ hms _ ih ihrest =>
    intro hplain
    have hexpression := ih (Plain.child hplain hkind (by simp) rfl)
    refine (ihrest (Plain.cases ht hplain hkind fun m hm => by simp [hms, hm])).imp fun h =>
      passes_of_succ fun depth => ?_
    unfold exitsTo
    rw [hkind]
    refine Bool.or_eq_false_iff.2 ⟨hexpression depth, Bool.and_eq_false_iff.2 (.inl ?_)⟩
    rw [hms]
    exact membersExit_append (h (List.cons_ne_nil _ _) depth)
  | casesBreak _ ih => exact fun hplain => (ih hplain.2).elim
  | casesContinue _ _ _ _ ih => exact fun hplain => (ih hplain.2).elim
  | casesEnd _ _ _ ih => exact fun hplain => (ih hplain.2).imp (passes_cases hplain.1)
  | tried hkind _ ih =>
    intro hplain
    refine (ih (Plain.child hplain hkind (by simp) rfl)).imp fun h k body cs f finally? hkind' => ?_
    rw [hkind] at hkind'
    cases hkind'
    exact h
  | caught hkind _ hc =>
    intro hplain
    have hself := Plain.self hplain
    unfold isPlain at hself
    rw [hkind] at hself
    rw [List.isEmpty_iff.1 hself] at hc
    cases hc
  | finished hkind _ _ ih ihfinally =>
    intro hplain
    have hfinally := ihfinally fun m hm => Plain.child hplain hkind (by simp_all) rfl
    refine (ih hplain).imp fun hguarded => passes_of_succ fun depth => ?_
    unfold exitsTo
    rw [hkind]
    refine Bool.or_eq_false_iff.2 ⟨hguarded _ _ _ _ _ hkind depth, option_any_exitsTo fun m hm => ?_⟩
    exact hfinally m (Option.mem_toList.2 hm) depth
  | finishes hkind _ _ ho _ ihfinally =>
    intro hplain
    exact (ihfinally fun m hm => Plain.child hplain hkind (by simp_all) rfl).other ho

end Soundness

/-- Whatever always exits and is plain ends by a return or a throw, if it ends. -/
theorem Runs.of_alwaysExits (ht : t.Sorted) (hplain : t.Plain n) (hexits : t.alwaysExits n = true)
    {o : Outcome} (h : t.Runs (.one n) o) : o = .returns ∨ o = .throws := by
  have htells := h.tells ht hplain
  cases o with
  | completes =>
    rw [alwaysExits, show t.exitsTo (t.nodes.size + 1) n = false from htells _] at hexits
    cases hexits
  | returns => exact .inl rfl
  | throws => exact .inr rfl
  | breaks | continues => exact htells.elim

/-- What stands behind a statement that always exits makes no difference. -/
theorem runs_all_append_iff (ht : t.Sorted) (hplain : t.Plain n) (hexits : t.alwaysExits n = true)
    (front back : List NodeId) {o : Outcome} :
    t.Runs (.all (front ++ n :: back)) o ↔ t.Runs (.all (front ++ [n])) o := by
  have hne {o : Outcome} (h : t.Runs (.one n) o) : o ≠ .completes := by
    rcases h.of_alwaysExits ht hplain hexits with rfl | rfl
    · exact nofun
    · exact nofun
  induction front with
  | nil =>
    constructor
    · intro h
      cases h with
      | stop h ho => exact .stop h ho
      | next h _ => exact absurd rfl (hne h)
    · intro h
      cases h with
      | stop h ho => exact .stop h ho
      | next h _ => exact absurd rfl (hne h)
  | cons m front ih =>
    constructor
    · intro h
      cases h with
      | stop h ho => exact .stop h ho
      | next h hrest => exact .next h (ih.1 hrest)
    · intro h
      cases h with
      | stop h ho => exact .stop h ho
      | next h hrest => exact .next h (ih.2 hrest)

theorem plain_of_all (h : (List.range t.nodes.size).all t.isPlain = true) (n : NodeId) : t.Plain n := by
  intro m _
  by_cases hm : m < t.nodes.size
  · exact List.all_eq_true.1 h m (List.mem_range.2 hm)
  · rw [isPlain, kind_of_size_le (Nat.le_of_not_lt hm)]

end Tree

namespace Parsed

/-- The trees of texts are sorted, whatever is wrong with them. -/
theorem sorted_ofText (e : Grammar.Entry) (source? : Option Source) (text : String) :
    (ofText e source? text).tree.Sorted := by
  obtain ⟨parsed, -, htree, -, hsorted⟩ := ofText_wellSorted e source? text
  rw [htree]
  exact .of_nodes (T := parsed.layout) (fun h => (Tree.admits_of_is (t := parsed.tree) h).2) hsorted

/-- In the tree of any text, runs of a plain statement that always exits return or throw; none of them
    completes. -/
theorem ofText_exits (e : Grammar.Entry) (source? : Option Source) (text : String) {s : NodeId}
    (hplain : (ofText e source? text).tree.Plain s)
    (hexits : (ofText e source? text).tree.alwaysExits s = true) :
    ∀ o, (ofText e source? text).tree.Runs (.one s) o → o = .returns ∨ o = .throws :=
  fun _ h => h.of_alwaysExits (sorted_ofText e source? text) hplain hexits

section Sample

def exitSample : Tree := (ofText .statement none "while (true) if (c) return; else throw c;").tree

theorem kinds_exitSample : (exitSample.kind 0, exitSample.kind 1, exitSample.kind 2,
      exitSample.kind 6, exitSample.kind 7) =
    (.expression (.boolean 2), .expression (.identifier 6), .statement (.returns 8 none 9),
      .statement (.ifElse 4 5 1 7 2 (some 10) (some 5)), .statement (.whileLoop 0 1 0 3 6)) := by
  cbv

theorem facts_exitSample : ((exitSample.token 2).kind, exitSample.alwaysExits 7,
    (List.range exitSample.nodes.size).all exitSample.isPlain) = (.keyword .trueKw, true, true) := by
  cbv

/-- The loop may be left by the return, and no run of it completes. -/
theorem ofText_exits_loop : exitSample.Runs (.one 7) .returns ∧
    ∀ o, exitSample.Runs (.one 7) o → o = .returns ∨ o = .throws := by
  obtain ⟨htrue, hfacts⟩ := Prod.mk.inj facts_exitSample
  obtain ⟨hexits, hplain⟩ := Prod.mk.inj hfacts
  refine ⟨?_, ofText_exits .statement none _ (Tree.plain_of_all hplain 7) hexits⟩
  obtain ⟨hliteral, hcondition, hreturn, hif, hwhile⟩ : _ ∧ _ ∧ _ ∧ _ ∧ _ := by
    simpa using kinds_exitSample
  have hloop : exitSample.loop? 7 = some { condition? := some 0, body := 6 } := by
    rw [Tree.loop?, hwhile]
  have hbranches : exitSample.branches? 6 = some ⟨1, [2], [5]⟩ := by
    rw [Tree.branches?, hif]
    rfl
  have hcompletes : exitSample.Runs (.one 0) .completes ∧ exitSample.Runs (.one 1) .completes := by
    refine ⟨.operation (by rw [hliteral]; exact .done) ?_, .operation (by rw [hcondition]; exact .done) ?_⟩
    · simp [Tree.ends, Tree.branches?, hliteral]
    · simp [Tree.ends, Tree.branches?, hcondition]
  have hbody : exitSample.Runs (.one 6) .returns := by
    refine .yes hbranches hcompletes.2 (fun literal h => ?_) (.stop (.operation ?_ ?_) nofun)
    · rw [hcondition] at h
      cases h
    · rw [hreturn]
      exact .done
    · simp [Tree.ends, hreturn]
  refine .enter hloop rfl .done (.again hloop (.next hcompletes.1 .done) ?_
    (.bodyLeaves hloop hbody ?_ nofun))
  · rintro c hc literal h
    obtain rfl := Option.some.inj hc
    rw [hliteral] at h
    cases h
    rw [htrue]
    rfl
  · simp [Execution.Outcome.GoesOn]

end Sample

end Parsed

end DartAnalysis
