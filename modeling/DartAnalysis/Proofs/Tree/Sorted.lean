/-
  What may stand below what. The slots of a node say of which categories its children are, so that some
  kinds of nodes have below them only nodes of some kinds (`Sorted.child`). Two such families matter to
  declarations: the heading of a class holds no functions (`Sorted.no_host`), and expressions and what is
  around them in a body hold variables only in bodies of closures (`Sorted.exists_body`).
-/
import DartAnalysis.Proofs.Tree.Below
import DartAnalysis.Proofs.Tree.Bodies
import DartAnalysis.Proofs.Tree.Sorts

namespace DartAnalysis

/-! ## Slots -/

/-- Asks only for nodes of certain categories. -/
def Slot.asks (p : Category → Bool) : Slot → Bool
  | .node c | .node? c | .nodes c => p c
  | .uri => p .uri
  | .comment => p .comment
  | _ => true

/-- A field holds what its slot asks for. -/
theorem Node.Kind.WellSorted.holds {T : Layout} {kind : Node.Kind} (h : kind.WellSorted T) (i : Nat)
    {slot : Slot} {field : Field} (hslot : kind.slots[i]? = some slot)
    (hfield : kind.fields[i]? = some field) : slot.Holds T field := by
  obtain ⟨hi, rfl⟩ := List.getElem?_eq_some_iff.1 hslot
  obtain ⟨hi', rfl⟩ := List.getElem?_eq_some_iff.1 hfield
  exact h.get hi hi'

namespace Tree

variable {t : Tree}

/-- The nodes in the slots of a node are what their categories admit. -/
theorem kind_of_slots {T : Layout} (hT : ∀ {c n}, T.Is c n → c.admits (t.kind n) = true)
    {p : Category → Bool} {q : Node.Kind → Bool}
    (hpq : ∀ {c kind}, p c = true → c.admits kind = true → q kind = true) {slots : List Slot}
    {fields : List Field} (h : List.Forall₂ (Slot.Holds T) slots fields)
    (hslots : slots.all (Slot.asks p) = true) :
    ∀ c ∈ fields.flatMap Field.children, q (t.kind c) = true := by
  induction h with
  | nil => exact nofun
  | @cons slot field slots fields hslot _ ih =>
    rw [List.all_cons, Bool.and_eq_true] at hslots
    intro c hc
    rw [List.flatMap_cons, List.mem_append] at hc
    rcases hc with hc | hc
    · have hkind {cat : Category} (hcat : p cat = true) (his : T.Is cat c) :
          q (t.kind c) = true := hpq hcat (hT his)
      cases slot <;> cases field <;> try exact False.elim hslot
      case token.token => cases hc
      case token?.token? => cases hc
      case delimiter?.token? => cases hc
      case node.node => exact hkind hslots.1 (List.mem_singleton.1 hc ▸ hslot)
      case node?.node? => exact hkind hslots.1 (hslot c (Option.mem_toList.1 hc))
      case nodes.nodes => exact hkind hslots.1 (hslot c hc)
      case uri.node => exact hkind hslots.1 (List.mem_singleton.1 hc ▸ hslot.1)
      case comment.node? => exact hkind hslots.1 (hslot c (Option.mem_toList.1 hc))
    · exact ih hslots.2 c hc

/-! ## Sorted trees -/

/-- The children of nodes are of the categories that their fields name. -/
def Sorted (t : Tree) : Prop :=
  ∃ T : Layout, (∀ {c n}, T.Is c n → c.admits (t.kind n) = true) ∧ ∀ n, (t.kind n).WellSorted T

theorem kind_of_size_le {n : NodeId} (h : t.nodes.size ≤ n) : t.kind n = .unit [] [] := by
  rw [kind, Arena.kind, Arena.node_of_size_le h]
  rfl

/-- Nothing is asked of the nodes that are not there. -/
theorem Sorted.of_nodes {T : Layout} (hT : ∀ {c n}, T.Is c n → c.admits (t.kind n) = true)
    (h : ∀ n < t.nodes.size, (t.kind n).WellSorted T) : t.Sorted := by
  refine ⟨T, hT, fun n => ?_⟩
  by_cases hn : n < t.nodes.size
  · exact h n hn
  · rw [kind_of_size_le (Nat.le_of_not_lt hn)]
    exact .cons (fun _ hn => absurd hn List.not_mem_nil)
      (.cons (fun _ hn => absurd hn List.not_mem_nil) .nil)

section Sorted

variable (ht : t.Sorted)
include ht

theorem Sorted.node {n m : NodeId} {kind : Node.Kind} (hkind : t.kind n = kind) (i : Nat)
    {c : Category} (hslot : kind.slots[i]? = some (.node c)) (hfield : kind.fields[i]? = some (.node m)) :
    c.admits (t.kind m) = true := by
  obtain ⟨T, hT, hsorted⟩ := ht
  exact hT ((hkind ▸ hsorted n : kind.WellSorted T).holds i hslot hfield)

theorem Sorted.node? {n : NodeId} {kind : Node.Kind} (hkind : t.kind n = kind) (i : Nat)
    {c : Category} {m? : Option NodeId} (hslot : kind.slots[i]? = some (.node? c))
    (hfield : kind.fields[i]? = some (.node? m?)) : ∀ m ∈ m?, c.admits (t.kind m) = true := by
  obtain ⟨T, hT, hsorted⟩ := ht
  exact fun m hm => hT ((hkind ▸ hsorted n : kind.WellSorted T).holds i hslot hfield m hm)

theorem Sorted.nodes {n : NodeId} {kind : Node.Kind} (hkind : t.kind n = kind) (i : Nat)
    {c : Category} {ms : List NodeId} (hslot : kind.slots[i]? = some (.nodes c))
    (hfield : kind.fields[i]? = some (.nodes ms)) : ∀ m ∈ ms, c.admits (t.kind m) = true := by
  obtain ⟨T, hT, hsorted⟩ := ht
  exact fun m hm => hT ((hkind ▸ hsorted n : kind.WellSorted T).holds i hslot hfield m hm)

theorem Sorted.comment {n : NodeId} {kind : Node.Kind} (hkind : t.kind n = kind) (i : Nat)
    {m? : Option NodeId} (hslot : kind.slots[i]? = some .comment)
    (hfield : kind.fields[i]? = some (.node? m?)) :
    ∀ m ∈ m?, Category.comment.admits (t.kind m) = true := by
  obtain ⟨T, hT, hsorted⟩ := ht
  exact fun m hm => hT ((hkind ▸ hsorted n : kind.WellSorted T).holds i hslot hfield m hm)

/-- The children of a node are of kinds that its slots admit. -/
theorem Sorted.child {p : Category → Bool} {q : Node.Kind → Bool}
    (hpq : ∀ {c kind}, p c = true → c.admits kind = true → q kind = true) {n c : NodeId}
    (hslots : (t.kind n).slots.all (Slot.asks p) = true) (hc : c ∈ t.children n) :
    q (t.kind c) = true := by
  obtain ⟨T, hT, hsorted⟩ := ht
  exact kind_of_slots hT hpq (hsorted n) hslots c hc

end Sorted

theorem exists_identifier_of_admits {kind : Node.Kind} (h : Category.name.admits kind = true) :
    ∃ token, kind = .expression (.identifier token) := by
  cases kind with
  | expression x => cases x <;> first | exact ⟨_, rfl⟩ | cases h
  | _ => cases h

theorem exists_variableList_of_admits {kind : Node.Kind} (h : Category.variableList.admits kind = true) :
    ∃ keyword? type? vars, kind = .variableList keyword? type? vars := by
  cases kind <;> first | exact ⟨_, _, _, rfl⟩ | cases h

theorem exists_variable_of_admits {kind : Node.Kind}
    (h : Category.variableDeclaration.admits kind = true) :
    ∃ name equals? initializer?, kind = .variable name equals? initializer? := by
  cases kind <;> first | exact ⟨_, _, _, rfl⟩ | cases h

end Tree

/-! ## Nodes that declare -/

namespace Node.Kind

/-- The names of what a node declares. -/
def declared : Node.Kind → List NodeId
  | .variable name _ _ | .declaredIdentifier _ _ name | .typeParameter name _ _ | .label name _ => [name]
  | .parameter (.simple _ _ name) | .parameter (.field _ _ _ _ name) => [name]
  | .catchClause _ _ _ _ exception? _ trace? _ _ => exception?.toList ++ trace?.toList
  | .member (.method _ _ _ _ _ _ name _ _) => [name]
  | .member (.constructor _ _ _ _ returnType _ name? _ _ _ _) => [name?.getD returnType]
  | .declaration (.classDecl _ _ _ name _ _ _ _ _ _ _) => [name]
  | .declaration (.typeAlias _ _ _ name _ _ _) => [name]
  | .declaration (.functionDecl _ _ _ _ name _) => [name]
  | .directive (.importing _ _ _ _ qualifier? _ _) => qualifier?.toList
  | _ => []

/-- The names of what a node declares are children of it. -/
theorem mem_children_of_declared {kind : Node.Kind} {n : NodeId} (h : n ∈ kind.declared) :
    n ∈ kind.children := by
  unfold declared at h
  split at h
  case h_7 =>
    rcases List.mem_append.1 h with h | h
    · simp [children, fields, Field.children, Option.mem_toList.1 h]
    · simp [children, fields, Field.children, Option.mem_toList.1 h]
  case h_9 =>
    obtain rfl := List.mem_singleton.1 h
    rename_i name? _ _ _ _
    cases name? with
    | none => simp [children, fields, Member.fields, Field.children]
    | some name => simp [children, fields, Member.fields, Field.children]
  case h_13 => simp [children, fields, Directive.fields, Field.children, Option.mem_toList.1 h]
  case h_14 => cases h
  all_goals
    obtain rfl := List.mem_singleton.1 h
    simp [children, fields, Field.children, Parameter.fields, Member.fields, Declaration.fields]

end Node.Kind

/-! ## Families of kinds -/

namespace Node.Kind

def isUnit : Node.Kind → Bool
  | .unit .. => true
  | _ => false

def isClass : Node.Kind → Bool
  | .declaration (.classDecl ..) => true
  | _ => false

/-- What the heading of a class is made of, and what stands in it. -/
def isHeading : Node.Kind → Bool
  | .comment _ | .expression (.identifier _) | .expression (.qualified ..) | .type ..
  | .typeArgumentList .. | .typeParameterList .. | .typeParameter .. | .clause _ => true
  | _ => false

/-- What holds variables only in bodies of closures: expressions with all that they are made of, and
    what may hold expressions beside statements. -/
def isInline : Node.Kind → Bool
  | .expression _ | .argumentList .. | .mapEntry .. | .stringElement _ | .constructorName .. | .label ..
  | .type .. | .typeArgumentList .. | .parameterList .. | .parameter _ | .constructorInitializer _
  | .comment _ => true
  | _ => false

end Node.Kind

namespace Category

def isUnit : Category → Bool
  | .unit => true
  | _ => false

/-- Admits classes. -/
def isDeclaration : Category → Bool
  | .declaration => true
  | _ => false

/-- Admits only what a heading is made of. -/
def isHeading : Category → Bool
  | .comment | .name | .typeIdentifier | .type | .typeArgumentList | .typeParameterList | .typeParameter
  | .extendsClause | .withClause | .implementsClause => true
  | _ => false

/-- Admits only what holds no variables but in bodies of closures. -/
def isInline : Category → Bool
  | .expression | .argument | .name | .typeIdentifier | .operatorName | .singleString | .string | .uri
  | .interpolatedName | .closure | .argumentList | .mapEntry | .stringElement | .constructorName
  | .label | .type | .typeArgumentList | .parameterList | .parameter | .normalParameter
  | .constructorInitializer | .comment => true
  | _ => false

theorem isHeading_of_admits {c : Category} {kind : Node.Kind} (hc : c.isHeading = true)
    (h : c.admits kind = true) : kind.isHeading = true := by
  cases c <;> cases hc <;> cases kind <;> first
    | rfl
    | cases h
    | (rename_i x; cases x <;> first | rfl | cases h)

theorem isInline_of_admits {c : Category} {kind : Node.Kind} (hc : c.isInline = true)
    (h : c.admits kind = true) : kind.isInline = true := by
  cases c <;> cases hc <;> cases kind <;> first | rfl | cases h

end Category

namespace Node.Kind

theorem slots_asks_heading {kind : Node.Kind} (h : kind.isHeading = true) :
    kind.slots.all (Slot.asks Category.isHeading) = true := by
  cases kind with
  | expression x => cases x <;> first | rfl | cases h
  | clause x => cases x <;> rfl
  | _ => first | rfl | cases h

/-- Only closures have a body among their children. -/
theorem slots_asks_inline {kind : Node.Kind} (h : kind.isInline = true)
    (hclosure : ∀ parameters? body, kind ≠ .expression (.closure parameters? body)) :
    kind.slots.all (Slot.asks Category.isInline) = true := by
  cases kind with
  | expression x =>
    cases x with
    | closure parameters? body => exact absurd rfl (hclosure parameters? body)
    | _ => rfl
  | parameter x => cases x <;> rfl
  | constructorInitializer x => cases x <;> rfl
  | stringElement x => rcases x with _ | ⟨_, _, _ | _⟩ <;> rfl
  | _ => first | rfl | cases h

end Node.Kind

/-! ## Functions -/

namespace Node.Kind

/-- Has a body of its own. -/
def isHost : Node.Kind → Bool
  | .member (.method ..) | .member (.constructor ..) | .declaration (.functionDecl ..)
  | .expression (.closure ..) => true
  | _ => false

theorem isHeading_of_isHost {kind : Node.Kind} (h : kind.isHost = true) : kind.isHeading = false := by
  cases kind with
  | member | declaration => rfl
  | expression e => cases e <;> first | rfl | cases h
  | _ => cases h

theorem isComment_of_functionBody {kind : Node.Kind} (h : Category.functionBody.admits kind = true) :
    kind.isComment = false := by
  cases kind <;> first | rfl | cases h

theorem isHost_of_isUnit {kind : Node.Kind} (h : kind.isUnit = true) : kind.isHost = false := by
  cases kind <;> first | rfl | cases h

theorem isComment_of_isHost {kind : Node.Kind} (h : kind.isHost = true) : kind.isComment = false := by
  cases kind <;> first | rfl | cases h

end Node.Kind

/-- A function of the tree, by the node that declares it and its body. -/
inductive Tree.Hosts (t : Tree) : (n d body : NodeId) → Prop
  | method {n name body : NodeId} {comment? type? parameters? : Option NodeId}
      {external? modifier? property? operator? : Option TokenId}
      (hkind : t.kind n = .member (.method comment? external? modifier? type? property? operator? name
        parameters? body)) : t.Hosts n name body
  | constructor {n className parameters body : NodeId} {comment? name? : Option NodeId}
      {external? const? factory? period? separator? : Option TokenId} {initializers : List NodeId}
      (hkind : t.kind n = .member (.constructor comment? external? const? factory? className period? name?
        parameters separator? initializers body)) : t.Hosts n (name?.getD className) body
  | function {n name function body : NodeId} {comment? type? parameters? : Option NodeId}
      {external? property? : Option TokenId}
      (hkind : t.kind n = .declaration (.functionDecl comment? external? type? property? name function))
      (hfunction : t.kind function = .expression (.closure parameters? body)) : t.Hosts n name body
  | closure {n body : NodeId} {parameters? : Option NodeId}
      (hkind : t.kind n = .expression (.closure parameters? body)) : t.Hosts n n body

namespace Tree

variable {t : Tree}

theorem Hosts.isHost {n d body : NodeId} (h : t.Hosts n d body) : (t.kind n).isHost = true := by
  cases h with
  | method hkind | constructor hkind | function hkind | closure hkind => rw [hkind]; rfl

theorem children_of_kind {n : NodeId} {kind : Node.Kind} (h : t.kind n = kind) :
    t.children n = kind.fields.flatMap Field.children := by
  subst h
  rfl

namespace Sorted

variable (ht : t.Sorted)
include ht

/-- The names of what a node declares are identifiers. -/
theorem identifier_of_declared {p n : NodeId} (hn : n ∈ (t.kind p).declared) :
    ∃ token, t.kind n = .expression (.identifier token) := by
  unfold Node.Kind.declared at hn
  split at hn
  case h_7 =>
    rename_i hkind
    rcases List.mem_append.1 hn with hn | hn
    · exact exists_identifier_of_admits (ht.node? hkind 4 rfl rfl n (Option.mem_toList.1 hn))
    · exact exists_identifier_of_admits (ht.node? hkind 6 rfl rfl n (Option.mem_toList.1 hn))
  case h_13 =>
    rename_i hkind
    exact exists_identifier_of_admits (ht.node? hkind 4 rfl rfl n (Option.mem_toList.1 hn))
  case h_14 => cases hn
  all_goals
    rename_i hkind
    obtain rfl := List.mem_singleton.1 hn
  case h_1 => exact exists_identifier_of_admits (ht.node hkind 0 rfl rfl)
  case h_2 => exact exists_identifier_of_admits (ht.node hkind 2 rfl rfl)
  case h_3 => exact exists_identifier_of_admits (ht.node hkind 0 rfl rfl)
  case h_4 => exact exists_identifier_of_admits (ht.node hkind 0 rfl rfl)
  case h_5 => exact exists_identifier_of_admits (ht.node hkind 2 rfl rfl)
  case h_6 => exact exists_identifier_of_admits (ht.node hkind 4 rfl rfl)
  case h_8 =>
    -- An operator is an identifier too, if not a name.
    have hadmits := ht.node hkind 6 rfl rfl
    refine exists_identifier_of_admits ?_
    split at hadmits
    · exact hadmits
    · exact hadmits
  case h_9 =>
    rename_i returnType _ name? _ _ _ _
    cases name? with
    | none => exact exists_identifier_of_admits (ht.node hkind 4 rfl rfl)
    | some name => exact exists_identifier_of_admits (ht.node? hkind 6 rfl rfl name rfl)
  case h_10 => exact exists_identifier_of_admits (ht.node hkind 3 rfl rfl)
  case h_11 => exact exists_identifier_of_admits (ht.node hkind 3 rfl rfl)
  case h_12 => exact exists_identifier_of_admits (ht.node hkind 4 rfl rfl)

/-- The parameters of a closure are inline, and its body is a body. -/
theorem closure_children {n body : NodeId} {parameters? : Option NodeId}
    (hkind : t.kind n = .expression (.closure parameters? body)) :
    (∀ p ∈ parameters?, (t.kind p).isInline = true) ∧
      Category.functionBody.admits (t.kind body) = true :=
  ⟨fun p hp => Category.isInline_of_admits (c := .parameterList) rfl (ht.node? hkind 0 rfl rfl p hp),
    ht.node hkind 1 rfl rfl⟩

theorem inline_of_child {n c : NodeId} (hn : (t.kind n).isInline = true)
    (hclosure : ∀ parameters? body, t.kind n ≠ .expression (.closure parameters? body))
    (hc : c ∈ t.children n) : (t.kind c).isInline = true :=
  ht.child Category.isInline_of_admits (Node.Kind.slots_asks_inline hn hclosure) hc

variable (howned : t.nodes.Owned)
include howned

/-- What stands in a heading is what headings are made of. -/
theorem heading_below {n m : NodeId} (hn : (t.kind n).isHeading = true) (hm : m ∈ t.below n) :
    (t.kind m).isHeading = true := by
  induction n using Nat.strongRecOn with
  | ind n ih =>
    rcases below_cases howned hm with rfl | ⟨c, hc, hm⟩
    · exact hn
    · exact ih c (howned.child_lt n c hc)
        (ht.child Category.isHeading_of_admits (Node.Kind.slots_asks_heading hn) hc) hm

/-- No function stands in a heading. -/
theorem no_host {n m d body : NodeId} (hn : (t.kind n).isHeading = true) (hm : m ∈ t.below n) :
    ¬ t.Hosts m d body := fun h => by
  have hheading := ht.heading_below howned hn hm
  rw [Node.Kind.isHeading_of_isHost h.isHost] at hheading
  cases hheading

/-- What is below an inline node and no such node is in the body of a closure below it. -/
theorem exists_body {n m : NodeId} (hn : (t.kind n).isInline = true) (hm : m ∈ t.below n)
    (hkind : (t.kind m).isInline = false) :
    ∃ body ∈ t.below n, Category.functionBody.admits (t.kind body) = true ∧ m ∈ t.below body := by
  induction n using Nat.strongRecOn with
  | ind n ih =>
    rcases below_cases howned hm with rfl | ⟨c, hc, hm⟩
    · rw [hn] at hkind
      cases hkind
    · have hinline (h : (t.kind c).isInline = true) : ∃ body ∈ t.below n,
          Category.functionBody.admits (t.kind body) = true ∧ m ∈ t.below body := by
        obtain ⟨body, hbody, hadmits, hm⟩ := ih c (howned.child_lt n c hc) h hm
        exact ⟨body, mem_below_child howned hc hbody, hadmits, hm⟩
      by_cases hclosure : ∃ parameters? body, t.kind n = .expression (.closure parameters? body)
      · obtain ⟨parameters?, body, hclosure⟩ := hclosure
        obtain ⟨hparameters, hbody⟩ := ht.closure_children hclosure
        have hmem := hc
        rw [children_of_kind hclosure] at hmem
        simp only [Node.Kind.fields, Expression.fields, Field.children, List.flatMap_cons,
          List.flatMap_nil, List.append_nil, List.mem_append, Option.mem_toList, List.mem_singleton] at hmem
        rcases hmem with hmem | rfl
        · exact hinline (hparameters c hmem)
        · exact ⟨c, mem_below_child howned hc (mem_below_self howned c), hbody, hm⟩
      · exact hinline (ht.inline_of_child hn (fun parameters? body h => hclosure ⟨_, _, h⟩) hc)

end Sorted

/-! ## Bodies -/

section Owned

variable (howned : t.nodes.Owned)
include howned

/-- What is below a node in a body is in it too. -/
theorem isInBody_of_below {n m : NodeId} (hn : t.isInBody n = true) (hm : m ∈ t.below n) :
    t.isInBody m = true := by
  induction n using Nat.strongRecOn with
  | ind n ih =>
    rcases below_cases howned hm with rfl | ⟨c, hc, hm⟩
    · exact hn
    · refine ih c (howned.child_lt n c hc) ?_ hm
      rw [isInBody_of_child howned hc, hn, Bool.or_true]

/-- A node in a body below one outside of bodies lies below the body of a function outside. -/
theorem exists_body_of_isInBody {x v : NodeId} (hx : t.isInBody x = false) (hv : t.isInBody v = true)
    (hmem : v ∈ t.below x) :
    ∃ f ∈ t.below x, ∃ b ∈ t.children f, (t.kind f).hasBody b = true ∧ v ∈ t.below b := by
  induction x using Nat.strongRecOn with
  | ind x ih =>
    rcases below_cases howned hmem with rfl | ⟨c, hc, hmem⟩
    · rw [hx] at hv
      cases hv
    · cases hbody : (t.kind x).hasBody c with
      | true => exact ⟨x, mem_below_self howned x, c, hc, hbody, hmem⟩
      | false =>
        have houter : t.isInBody c = false := by rw [isInBody_of_child howned hc, hbody, hx]; rfl
        obtain ⟨f, hf, rest⟩ := ih c (howned.child_lt x c hc) houter hmem
        exact ⟨f, mem_below_child howned hc hf, rest⟩

end Owned

namespace Sorted

variable (ht : t.Sorted)
include ht

/-- A body is made of statements or an expression, or is the initializer of a field. -/
theorem kind_of_hasBody {f b : NodeId} (h : (t.kind f).hasBody b = true) :
    Category.functionBody.admits (t.kind b) = true ∨ (t.kind b).isInline = true := by
  cases hkind : t.kind f with
  | member m =>
    rw [hkind] at h
    cases m with
    | field => cases h
    | method =>
      obtain rfl := beq_iff_eq.1 h
      exact .inl (ht.node hkind 8 rfl rfl)
    | constructor =>
      rcases Bool.or_eq_true_iff.1 h with h | h
      · obtain rfl := beq_iff_eq.1 h
        exact .inl (ht.node hkind 10 rfl rfl)
      · exact .inr (Category.isInline_of_admits (c := .constructorInitializer) rfl
          (ht.nodes hkind 9 rfl rfl b (List.contains_iff_mem.1 h)))
  | expression e =>
    rw [hkind] at h
    cases e with
    | closure =>
      obtain rfl := beq_iff_eq.1 h
      exact .inl (ht.node hkind 1 rfl rfl)
    | _ => cases h
  | _ =>
    rw [hkind] at h
    cases h

/-- No node holds a unit. -/
theorem isUnit_of_child {n c : NodeId} (hc : c ∈ t.children n) : (t.kind c).isUnit = false := by
  have hslots : (t.kind n).slots.all (Slot.asks (!·.isUnit)) = true := by
    cases t.kind n with
    | directive x | combinator x | clause x | constructorInitializer x | parameter x | functionBody x
    | statement x | switchMember x | declaration x | expression x => cases x <;> rfl
    | member x =>
      cases x with
      | method _ _ _ _ _ operator? => cases operator? <;> rfl
      | _ => rfl
    | stringElement x => rcases x with _ | ⟨_, _, _ | _⟩ <;> rfl
    | _ => rfl
  have hkind := ht.child (q := fun kind => !kind.isUnit)
    (fun {c kind} hc h => by cases c <;> cases hc <;> cases kind <;> first | rfl | cases h) hslots hc
  simpa using hkind

/-- Only units hold classes. -/
theorem isUnit_of_class {n c : NodeId} (hc : c ∈ t.children n) (hclass : (t.kind c).isClass = true) :
    (t.kind n).isUnit = true := by
  by_contra hunit
  have hslots : (t.kind n).slots.all (Slot.asks (!·.isDeclaration)) = true := by
    cases hkind : t.kind n with
    | unit =>
      rw [hkind] at hunit
      exact absurd rfl hunit
    | directive x | combinator x | clause x | constructorInitializer x | parameter x | functionBody x
    | statement x | switchMember x | declaration x | expression x => cases x <;> rfl
    | member x =>
      cases x with
      | method _ _ _ _ _ operator? => cases operator? <;> rfl
      | _ => rfl
    | stringElement x => rcases x with _ | ⟨_, _, _ | _⟩ <;> rfl
    | _ => rfl
  have hkind := ht.child (q := fun kind => !kind.isClass)
    (fun {c kind} hc h => by
      cases c <;> cases hc <;> cases kind <;> first
        | rfl
        | cases h
        | (rename_i x; cases x <;> first | rfl | cases h)) hslots hc
  rw [hclass] at hkind
  cases hkind

/-- The classes of a unit are its declarations. -/
theorem class_of_below (howned : t.nodes.Owned) (hroot : (t.kind t.root).isUnit = true) {c : NodeId}
    (hc : c ∈ t.below t.root) (hclass : (t.kind c).isClass = true) : c ∈ t.children t.root := by
  have hne {n : NodeId} (hunit : (t.kind n).isUnit = true) (hn : n ∈ t.below t.root) : n = t.root := by
    rcases below_last howned hn with rfl | ⟨q, -, hn⟩
    · rfl
    · rw [ht.isUnit_of_child hn] at hunit
      cases hunit
  rcases below_last howned hc with rfl | ⟨q, hq, hc⟩
  · cases hkind : t.kind t.root with
    | unit =>
      rw [hkind] at hclass
      cases hclass
    | _ =>
      rw [hkind] at hroot
      cases hroot
  · exact hne (ht.isUnit_of_class hc hclass) hq ▸ hc

end Sorted

end Tree

end DartAnalysis
