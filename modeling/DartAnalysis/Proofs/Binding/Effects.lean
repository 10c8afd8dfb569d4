/-
  What resolving a node can do. All that happens while a node is resolved are effects at the node or
  below it: such a node gets an element or a type, something is reported at it, or it declares a local
  variable whose type is inferred; and the frames that were open before are open again afterwards. So
  a property of states that these effects keep (`Allows`) is kept while a whole node is resolved. Main
  statements: `visitTo_does`, `resolve_does`.
-/
import DartAnalysis.Binding.Walk
import DartAnalysis.Proofs.Program.TypeNames

namespace DartAnalysis

namespace Frames

@[simp] theorem tail_define (name : String) (id : ElementId) (fs : Frames) :
    (fs.define name id).tail = fs.tail := by
  cases fs <;> rfl

@[simp] theorem tail_defineLabel (name : String) (id : ElementId) (fs : Frames) :
    (fs.defineLabel name id).tail = fs.tail := by
  cases fs <;> rfl

end Frames

namespace Binding

/-- The name at a node declares a class that inherits from itself. -/
def Env.Cyclic (env : Env) (n : NodeId) : Prop :=
  ∃ c, env.library.declaredAt? env.unit.source (env.unit.tree.offset n) = some c ∧
    isCyclic env.graph c = true

/-- What may be reported at a node: a cycle of inheritance only where there is one. -/
structure Env.Reports (env : Env) (n : NodeId) (d : Diagnostic) : Prop where
  at_node : d.At env.unit n
  cyclic : d.code = .recursiveInterfaceInheritance → env.Cyclic n

/-- Types can be compared here without end. -/
def Env.Endless (env : Env) : Prop :=
  ∃ a b, env.graph.assignable? env.core a b = none ∨ env.graph.leastUpperBound? env.core a b = none

/-- A property of states that effects at the given nodes keep. -/
structure Allows (env : Env) (W : NodeId → Prop) (I : State → Prop) : Prop where
  frames : ∀ s frames, I s → I { s with frames }
  endless : ∀ s, env.Endless → I s → I { s with endless := true }
  element : ∀ s n id, W n → I s → I { s with annotations := s.annotations.setElement n id }
  type : ∀ s n type, W n → I s → I { s with annotations := s.annotations.setType n type }
  errors : ∀ s more, (∀ d ∈ more, ∃ n, W n ∧ env.Reports n d) → I s →
    I { s with errors := s.errors ++ more }
  inferred : ∀ s n name equals? initializer id type, W n →
    env.unit.tree.kind n = .variable name equals? (some initializer) →
    env.library.declaredAt? env.unit.source (env.unit.tree.offset name) = some id →
    env.graph.kind id = .localVariable → I s → I { s with inferred := (id, type) :: s.inferred }

/-- The property, with the frames around the innermost one. -/
def Framed (I : State → Prop) (outer : Frames) (s : State) : Prop := I s ∧ s.frames.tail = outer

/-- An action that keeps the property and the outer frames. -/
abbrev Does {α : Type} (env : Env) (I : State → Prop) (outer : Frames) (x : Resolving α) : Prop :=
  KeepsIn env (Framed I outer) x

/-! ## Reading -/

section Reading

variable {env : Env} {J : State → Prop} {α : Type}

theorem tree_bind {f : Tree → Resolving α} (h : KeepsIn env J (f env.unit.tree)) :
    KeepsIn env J (tree >>= f) := h

theorem tree_gives {Q : α → Prop} {f : Tree → Resolving α}
    (h : GivesIn env J Q (f env.unit.tree)) : GivesIn env J Q (tree >>= f) := h

theorem declared?_bind {node : NodeId} {f : Option ElementId → Resolving α}
    (h : KeepsIn env J (f (env.library.declaredAt? env.unit.source (env.unit.tree.offset node)))) :
    KeepsIn env J (declared? node >>= f) := h

theorem graph_bind {f : Graph → Resolving α} (h : KeepsIn env J (f env.graph)) :
    KeepsIn env J (graph >>= f) := h

theorem referenceType_keeps (id : ElementId) : KeepsIn env J (referenceType id) := by
  unfold referenceType
  split
  · exact .pure _
  refine .bind (fun _ h => h) fun inferred? => ?_
  split
  · exact .pure _
  refine .bind (fun _ h => h) fun e => ?_
  split
  · exact .pure _
  · exact .pure _
  · exact fun _ h => h
  · exact fun _ h => h
  · exact fun _ h => h
  · split
    · exact .pure _
    · exact .pure _

theorem assignedType_keeps (id : ElementId) : KeepsIn env J (assignedType id) := by
  unfold assignedType
  refine .bind (fun _ h => h) fun e => ?_
  split
  · exact referenceType_keeps id
  · exact .pure _

theorem receiverType_keeps (node : NodeId) (target? : Option NodeId) :
    KeepsIn env J (receiverType node target?) := by
  unfold receiverType
  split
  · exact fun _ h => h
  refine tree_bind ?_
  dsimp only
  split
  · exact fun _ h => h
  · exact .pure _

theorem functionElement?_keeps (node : NodeId) : KeepsIn env J (functionElement? node) := by
  unfold functionElement?
  refine tree_bind ?_
  split
  · exact fun _ h => h
  · exact fun _ h => h

theorem mapM_typeOf_keeps (nodes : List NodeId) : KeepsIn env J (nodes.mapM typeOf) := by
  induction nodes with
  | nil => exact .pure _
  | cons n nodes ih =>
    rw [List.mapM_cons]
    exact .bind (fun _ h => h) fun _ => .bind ih fun _ => .pure _

theorem typeArguments_keeps (list? : Option NodeId) : KeepsIn env J (typeArguments list?) := by
  unfold typeArguments
  refine tree_bind ?_
  split
  · exact mapM_typeOf_keeps _
  · exact .pure _

theorem operatorResult_keeps (node operand : NodeId) :
    KeepsIn env J (operatorResult node operand) := by
  unfold operatorResult
  refine graph_bind (.bind (fun _ h => h) fun id? => .bind (fun _ h => h) fun type => ?_)
  refine .bind (fun _ h => h) fun receiver? => ?_
  split
  · exact .pure _
  · exact .pure _

theorem targetType_keeps (target : NodeId) : KeepsIn env J (targetType target) := by
  unfold targetType
  refine .bind (fun _ h => h) fun id? => ?_
  split
  · refine .bind (fun _ h => h) fun inferred? => ?_
    split
    · exact fun _ h => h
    · exact fun _ h => h
  · exact fun _ h => h

theorem identifierType?_keeps (node : NodeId) : KeepsIn env J (identifierType? node) := by
  unfold identifierType?
  refine .bind (fun _ h => h) fun type? => .bind (fun _ h => h) fun id? => ?_
  split
  · refine .bind (fun _ h => h) fun kind => ?_
    split
    · exact .pure _
    · exact .pure _
    · exact .pure _
    · exact .pure _
    · exact .bind (referenceType_keeps _) fun _ => .pure _
  · exact .pure _

theorem receiverOf_keeps (place : Place) (type : Element → StaticType) :
    KeepsIn env J (receiverOf place type) := by
  unfold receiverOf
  split
  · split
    · exact .pure _
    · exact fun _ h => h
  · exact .pure _

theorem isUntypedLocal_gives (node : NodeId) (id : ElementId) :
    GivesIn env J (fun isLocal => isLocal = true → env.graph.kind id = .localVariable)
      (isUntypedLocal node id) := by
  unfold isUntypedLocal
  refine tree_gives ?_
  split
  · exact fun _ h => ⟨fun hlocal => beq_iff_eq.1 hlocal, h⟩
  · exact .pure fun h => absurd h Bool.false_ne_true

section Below

variable {W : NodeId → Prop} (hW : env.unit.tree.Spreads W)
include hW

/-- The name of a constructor is the one that is written for it or part of the name of its class. -/
theorem constructorParts_gives {typeName : NodeId} {name? : Option NodeId} (htype : W typeName)
    (hname : ∀ n ∈ name?, W n) :
    GivesIn env J (fun parts => ∀ n ∈ parts.2, W n) (constructorParts typeName name?) := by
  have hwritten : GivesIn env J (fun parts : Option ElementId × Option NodeId => ∀ n ∈ parts.2, W n)
      (return ((← typeOf typeName).class?, name?)) := .bind (fun _ h => h) fun _ => .pure hname
  unfold constructorParts
  refine tree_gives ?_
  split
  · rename_i written arguments? hkind
    have hbelow := hW.child htype hkind List.mem_cons_self
    dsimp only
    split
    · rename_i qualifier period name hkind
      refine .bind (fun _ h => h) fun id? => ?_
      split
      · refine .bind (fun _ h => h) fun kind => ?_
        split
        · refine .pure fun n hn => ?_
          obtain rfl := Option.some.inj hn
          exact hW.child hbelow hkind (List.mem_cons_of_mem _ List.mem_cons_self)
        · exact hwritten
      · exact hwritten
    · exact hwritten
  · exact .pure hname

/-- The class that a constructor belongs to is named below its type. -/
theorem constructorClass?_gives {node : NodeId} (hn : W node) :
    GivesIn env J (fun found? => ∀ found ∈ found?, W found.1) (constructorClass? node) := by
  have hnone : GivesIn env J (fun found? : Option (NodeId × ElementId) => ∀ found ∈ found?, W found.1)
      (return none) := .pure fun _ hfound => absurd hfound (Option.not_mem_none _)
  unfold constructorClass?
  refine tree_gives ?_
  split
  · rename_i hkind
    have hbelow := hW.child hn hkind List.mem_cons_self
    split
    · rename_i hkind
      refine .bind (fun _ h => h) fun env => ?_
      split
      · exact hnone
      · refine .bind (fun _ h => h) fun id? => ?_
        split
        · refine .bind (fun _ h => h) fun kind => ?_
          split
          · refine .pure fun found hfound => ?_
            obtain rfl := Option.some.inj hfound
            exact hW.child hbelow hkind List.mem_cons_self
          · exact hnone
        · exact hnone
    · exact hnone
  · exact hnone

end Below

end Reading

/-! ## Effects -/

section Effects

attribute [local simp] Node.Kind.children Node.Kind.fields Directive.fields Declaration.fields
  Clause.fields Initializer.fields Statement.fields Expression.fields Body.fields Field.children

variable {env : Env} {W : NodeId → Prop} {I : State → Prop} {outer : Frames}
  (hI : Allows env W I) (hW : env.unit.tree.Spreads W)
include hI

theorem report_does {node : NodeId} (hn : W node) {code : Diagnostic.Code} (args : List String)
    (hcode : code = .recursiveInterfaceInheritance → env.Cyclic node) :
    Does env I outer (report node code args) := by
  intro s hs
  refine ⟨?_, hs.2⟩
  have hreport : ∀ d ∈ #[Diagnostic.make (some env.unit.source) (env.unit.tree.offset node)
      (env.unit.tree.length node) code args], ∃ n, W n ∧ env.Reports n d := fun d hd => by
    rw [Array.mem_singleton.1 hd]
    exact ⟨node, hn, Diagnostic.at_make env.unit node code args, hcode⟩
  have hkept := hI.errors s _ hreport hs.1
  rwa [← Array.push_eq_append] at hkept

theorem setElement_does {node : NodeId} (hn : W node) (id : ElementId) :
    Does env I outer (setElement node id) := .modify fun s hs => ⟨hI.element s node id hn hs.1, hs.2⟩

theorem setType_does {node : NodeId} (hn : W node) (type : StaticType) :
    Does env I outer (setType node type) := .modify fun s hs => ⟨hI.type s node type hn hs.1, hs.2⟩

theorem define_does (name : String) (id : ElementId) : Does env I outer (define name id) :=
  .modify fun s hs => ⟨hI.frames s _ hs.1, (Frames.tail_define name id s.frames).trans hs.2⟩

theorem defineLabel_does (name : String) (id : ElementId) :
    Does env I outer (defineLabel name id) :=
  .modify fun s hs => ⟨hI.frames s _ hs.1, (Frames.tail_defineLabel name id s.frames).trans hs.2⟩

/-- Within a frame of its own an action may do what it likes to the innermost frame. -/
theorem inFrame_does {frame : Frame} {action : Resolving Unit}
    (h : ∀ outer, Does env I outer action) : Does env I outer (inFrame frame action) := by
  intro s hs
  obtain ⟨hkept, hframes⟩ := h s.frames { s with frames := frame :: s.frames }
    ⟨hI.frames s _ hs.1, rfl⟩
  refine ⟨hI.frames _ _ hkept, ?_⟩
  show (action env { s with frames := frame :: s.frames }).2.frames.tail.tail = outer
  rw [hframes, hs.2]

/-! ## References and members -/

theorem callType_does {name : NodeId} (hn : W name) (callee : StaticType) :
    Does env I outer (callType callee name) := by
  have hreport : Does env I outer (callType.notAFunction name) :=
    tree_bind (report_does hI hn _ nofun)
  unfold callType
  split
  · exact .pure _
  · exact .pure _
  · refine graph_bind ?_
    dsimp only
    split
    · exact .bind hreport fun _ => .pure _
    · exact .pure _
  · exact .bind hreport fun _ => .pure _
  · exact .pure _

theorem accessType_does {name : NodeId} (hn : W name) (access : Access) (id : ElementId)
    (read : StaticType) : Does env I outer (accessType access id read name) := by
  unfold accessType
  split
  · exact .pure _
  · exact assignedType_keeps id
  · exact callType_does hI hn read

theorem undefined_does {node : NodeId} (hn : W node) {code : Diagnostic.Code} (name : String)
    (hcode : code ≠ .recursiveInterfaceInheritance) : Does env I outer (undefined node code name) :=
  .bind (report_does hI hn _ fun h => absurd h hcode) fun _ => setElement_does hI hn _

theorem declaration_does {node : NodeId} (hn : W node) : Does env I outer (declaration node) := by
  unfold declaration
  refine .bind (fun _ h => h) fun id? => ?_
  split
  · refine .bind (setElement_does hI hn _) fun _ => tree_bind (.bind (fun _ h => h) fun e => ?_)
    refine graph_bind ?_
    dsimp only
    split
    · exact defineLabel_does hI _ _
    · exact .ite (define_does hI _ _) (.pure _)
    · exact .ite (define_does hI _ _) (.pure _)
    · exact .ite (define_does hI _ _) (.pure _)
    · exact .pure _
  · exact .pure _

theorem reference_does {node : NodeId} (hn : W node) : Does env I outer (reference node) := by
  unfold reference
  refine tree_bind (.bind (fun _ h => h) fun found? => ?_)
  dsimp only
  split
  · refine .bind (fun _ h => h) fun kind => .bind (.pure _) fun readOnly => .ite
      (.bind (fun _ h => h) fun setter? => .bind (.pure _) fun found? => .ask ?_)
      (.bind (.pure _) fun found? => .ask ?_)
    all_goals
      split
      · exact setElement_does hI hn _
      · exact undefined_does hI hn _ nofun
  · refine .bind (.pure _) fun readOnly => .ite
      (.bind (fun _ h => h) fun setter? => .bind (.pure _) fun found? => .ask ?_)
      (.bind (.pure _) fun found? => .ask ?_)
    all_goals
      split
      · exact setElement_does hI hn _
      · exact undefined_does hI hn _ nofun

theorem identifier_does (place : Place) {node : NodeId} (hn : W node) :
    Does env I outer (identifier place node) := by
  unfold identifier
  refine tree_bind ?_
  split
  · exact declaration_does hI hn
  · exact .option_forM fun owner _ => setElement_does hI hn owner
  · exact .ask (.option_forM fun id _ => setElement_does hI hn id)
  · unfold combinatorName
    refine .ask ?_
    dsimp only
    split
    · exact setElement_does hI hn _
    · exact .pure _
  · refine .bind (fun _ h => h) fun s => ?_
    split
    · exact setElement_does hI hn _
    · exact undefined_does hI hn _ nofun
  · exact .pure _
  · exact reference_does hI hn

theorem bindMember_does {node name : NodeId} (hn : W node) (hname : W name) (id : ElementId)
    (type nameType : StaticType) : Does env I outer (bindMember node name id type nameType) :=
  .bind (setElement_does hI hn id) fun _ => .bind (setElement_does hI hname id) fun _ =>
    .bind (setType_does hI hn type) fun _ => setType_does hI hname nameType

theorem undefinedMember_does {node name : NodeId} (hn : W node) (hname : W name)
    {code : Diagnostic.Code} (args : List String) (hcode : code ≠ .recursiveInterfaceInheritance) :
    Does env I outer (undefinedMember node name code args) :=
  .bind (report_does hI hname args fun h => absurd h hcode) fun _ =>
    bindMember_does hI hn hname _ _ _

omit hI in
theorem undefinedCode_ne (access : Access) :
    undefinedCode access ≠ .recursiveInterfaceInheritance := by
  cases access <;> exact nofun

omit hI in
theorem missingCode_ne (isSuper : Bool) (access : Access) :
    (if isSuper then .undefinedSuperMethod else undefinedCode access : Diagnostic.Code) ≠
      .recursiveInterfaceInheritance := by
  cases isSuper
  · exact undefinedCode_ne access
  · exact nofun

theorem bindElement_does {node name : NodeId} (hn : W node) (hname : W name) (access : Access)
    (id : ElementId) : Does env I outer (bindElement node name access id) :=
  .bind (referenceType_keeps id) fun read =>
    .bind (accessType_does hI hname access id read) fun _ => bindMember_does hI hn hname id _ _

theorem qualifiedMember_does {node name : NodeId} (hn : W node) (hname : W name) (qualifier : NodeId)
    (access : Access) : Does env I outer (qualifiedMember node qualifier name access) := by
  unfold qualifiedMember
  refine tree_bind (.ask ?_)
  dsimp only
  split
  · exact bindElement_does hI hn hname access _
  · exact undefinedMember_does hI hn hname _ (by decide)

theorem staticMember_does {node name : NodeId} (hn : W node) (hname : W name) (owner : ElementId)
    (access : Access) : Does env I outer (staticMember node owner name access) := by
  unfold staticMember
  refine graph_bind (tree_bind ?_)
  dsimp only
  split
  · exact bindElement_does hI hn hname access _
  · exact undefinedMember_does hI hn hname _ (undefinedCode_ne access)

/-- What is not found is reported if something is known of the receiver. -/
theorem missingMember_does {node name : NodeId} (hn : W node) (hname : W name) (receiver : StaticType)
    {code : Diagnostic.Code} (hcode : code ≠ .recursiveInterfaceInheritance) (written : String)
    (type : StaticType) :
    Does env I outer (do
      if (← receiver? receiver).isSome then
        undefinedMember node name code [written, ← display receiver]
      else
        setType node type
        setType name type) :=
  .bind (fun _ h => h) fun _ => .ite
    (.bind (fun _ h => h) fun _ => undefinedMember_does hI hn hname _ hcode)
    (.bind (setType_does hI hn _) fun _ => setType_does hI hname _)

theorem instanceMember_does {node name : NodeId} (hn : W node) (hname : W name)
    (target? : Option NodeId) (access : Access) :
    Does env I outer (instanceMember node target? name access) := by
  unfold instanceMember
  refine tree_bind (graph_bind (.bind (receiverType_keeps node target?) fun receiver => ?_))
  dsimp only
  split
  · refine .bind (fun _ h => h) fun member? => ?_
    split
    · exact .bind (.pure _) fun type => bindMember_does hI hn hname _ _ _
    · exact missingMember_does hI hn hname receiver (missingCode_ne _ _) _ _
  · refine .bind (fun _ h => h) fun member? => ?_
    split
    · split
      · exact .bind (.pure _) fun type => bindMember_does hI hn hname _ _ _
      · exact .bind (.pure _) fun type => bindMember_does hI hn hname _ _ _
      · exact .bind (callType_does hI hname _) fun type => bindMember_does hI hn hname _ _ _
    · exact missingMember_does hI hn hname receiver (missingCode_ne _ _) _ _

theorem member_does {node name : NodeId} (hn : W node) (hname : W name) (target? : Option NodeId)
    (access : Access) : Does env I outer (member node target? name access) := by
  unfold member
  split
  · refine .bind (fun _ h => h) fun id? => ?_
    dsimp only
    split
    · refine .bind (fun _ h => h) fun kind => ?_
      split
      · exact qualifiedMember_does hI hn hname _ access
      · exact staticMember_does hI hn hname _ access
      · exact instanceMember_does hI hn hname _ access
    · exact instanceMember_does hI hn hname _ access
  · exact .bind (.pure _) fun id? => instanceMember_does hI hn hname none access

theorem plainCall_does {node name : NodeId} (hn : W node) (hname : W name) :
    Does env I outer (plainCall node name) := by
  unfold plainCall
  refine .bind (fun _ h => h) fun id? => ?_
  split
  · exact setType_does hI hn _
  · refine .ite (setType_does hI hn _) (.bind (fun _ h => h) fun callee => ?_)
    exact .bind (callType_does hI hname callee) fun type =>
      .bind (setElement_does hI hn _) fun _ => setType_does hI hn type

/-! ## Operators -/

theorem operatorMethod_does {node : NodeId} (hn : W node) (operand : NodeId) (name : String) :
    Does env I outer (operatorMethod node operand name) := by
  unfold operatorMethod
  refine .bind (fun _ h => h) fun receiver => .bind (fun _ h => h) fun member? => ?_
  split
  · exact setElement_does hI hn _
  · exact .bind (fun _ h => h) fun receiver? =>
      .ite (.bind (fun _ h => h) fun shown => report_does hI hn _ nofun) (.pure _)

theorem indexed_does {node : NodeId} (hn : W node) (target? : Option NodeId) :
    Does env I outer (indexed node target?) := by
  unfold indexed
  refine .bind (receiverType_keeps node target?) fun receiver => tree_bind ?_
  dsimp only
  refine .bind (fun _ h => h) fun member? => ?_
  split
  · exact graph_bind (.bind (setElement_does hI hn _) fun _ => setType_does hI hn _)
  · refine .bind (fun _ h => h) fun receiver? => .ite ?_ (setType_does hI hn _)
    exact .bind (fun _ h => h) fun shown => .bind (report_does hI hn _ nofun) fun _ =>
      setType_does hI hn _

theorem binaryOperator_does {node : NodeId} (hn : W node) (left : NodeId) (operator : TokenId) :
    Does env I outer (binaryOperator node left operator) := by
  unfold binaryOperator
  refine tree_bind ?_
  split
  · exact .pure _
  · exact .pure _
  · exact .pure _
  · exact operatorMethod_does hI hn left _
  · exact operatorMethod_does hI hn left _

theorem unaryOperator_does {node : NodeId} (hn : W node) (operand : NodeId) (operator : TokenId) :
    Does env I outer (unaryOperator node operand operator) := by
  unfold unaryOperator
  refine tree_bind ?_
  split
  · exact operatorMethod_does hI hn operand _
  · exact operatorMethod_does hI hn operand _
  · exact operatorMethod_does hI hn operand _
  · exact operatorMethod_does hI hn operand _
  · exact .pure _

theorem postfixed_does {node : NodeId} (hn : W node) (operand : NodeId) (operator : TokenId) :
    Does env I outer (postfixed node operand operator) := by
  unfold postfixed
  refine tree_bind ?_
  split
  · exact operatorMethod_does hI hn operand _
  · exact operatorMethod_does hI hn operand _
  · exact .pure _

/-! ## Constructors, directives and classes -/

theorem bindConstructor_does {node blamed : NodeId} {name? : Option NodeId} (hn : W node)
    (hblamed : W blamed) (hname : ∀ name ∈ name?, W name) (owner : ElementId) :
    Does env I outer (bindConstructor node owner name? blamed) := by
  unfold bindConstructor
  refine graph_bind (tree_bind ?_)
  dsimp only
  split
  · exact .bind (setElement_does hI hn _) fun _ =>
      .option_forM fun name hmem => setElement_does hI (hname name hmem) _
  · exact report_does hI hblamed _ nofun

theorem superCall_does (place : Place) {node : NodeId} {name? : Option NodeId} (hn : W node)
    (hname : ∀ name ∈ name?, W name) : Does env I outer (superCall place node name?) := by
  unfold superCall
  refine graph_bind ?_
  split
  · refine bindConstructor_does hI hn ?_ hname _
    cases name? with
    | none => exact hn
    | some name => exact hname name rfl
  · exact .pure _

theorem initializedField_does (place : Place) {name : NodeId} (hname : W name) :
    Does env I outer (initializedField place name) := by
  unfold initializedField
  refine graph_bind (tree_bind ?_)
  dsimp only
  split
  · exact .bind (setElement_does hI hname _) fun _ => setType_does hI hname _
  · exact undefined_does hI hname _ nofun

theorem libraryUri_does {node : NodeId} (hn : W node) : Does env I outer (libraryUri node) := by
  unfold libraryUri
  refine .ask ?_
  split
  · exact .pure _
  · dsimp only
    split
    · exact setElement_does hI hn _
    · exact .ite (report_does hI hn _ nofun) (report_does hI hn _ nofun)

theorem partUri_does {node : NodeId} (hn : W node) : Does env I outer (partUri node) := by
  unfold partUri
  refine .ask ?_
  split
  · exact .pure _
  · split
    · exact setElement_does hI hn _
    · exact report_does hI hn _ nofun

theorem hierarchyCheck_does {name : NodeId} (hname : W name) :
    Does env I outer (hierarchyCheck name) := by
  unfold hierarchyCheck
  refine declared?_bind ?_
  split
  · rename_i owner howner
    refine graph_bind ?_
    split
    · rename_i hcyclic
      exact report_does hI hname _ fun _ => ⟨owner, howner, hcyclic⟩
    · exact .pure _
  · exact .pure _

theorem extendsCheck_does {typeName : NodeId} (htype : W typeName) :
    Does env I outer (extendsCheck typeName) := by
  unfold extendsCheck
  refine tree_bind ?_
  split
  · refine .bind (fun _ h => h) fun id? => ?_
    split
    · exact .bind (fun _ h => h) fun kind => .ite (report_does hI htype _ nofun) (.pure _)
    · exact .pure _
  · exact .pure _

/-! ## Checks and types -/

/-- All that comparing types does is to note that it does not end. -/
theorem compared_does {α : Type} {answer? : Option α} (h : answer? = none → env.Endless) (unending : α) :
    Does env I outer (compared answer? unending) := by
  unfold compared
  cases answer? with
  | some answer => exact .pure _
  | none =>
    exact .bind (.modify fun s hs => ⟨hI.endless s (h rfl) hs.1, hs.2⟩) fun _ => .pure _

theorem isAssignable_does (a b : StaticType) : Does env I outer (isAssignable a b) :=
  .ask (compared_does hI (fun h => ⟨a, b, .inl h⟩) _)

theorem leastUpperBound_does (a b : StaticType) : Does env I outer (leastUpperBound a b) :=
  .ask (compared_does hI (fun h => ⟨a, b, .inr h⟩) _)

theorem isCondition_does (node : NodeId) : Does env I outer (isCondition node) :=
  .bind (fun _ h => h) fun type => .ask (isAssignable_does hI type _)

theorem assignableCheck_does {node : NodeId} (hn : W node) (source target : StaticType) :
    Does env I outer (assignableCheck node source target) :=
  .bind (isAssignable_does hI source target) fun _ => .ite
    (.bind (fun _ h => h) fun _ => .bind (fun _ h => h) fun _ => report_does hI hn _ nofun) (.pure _)

theorem conditionCheck_does {node : NodeId} (hn : W node) :
    Does env I outer (conditionCheck node) :=
  .bind (isCondition_does hI node) fun _ => .ite (report_does hI hn _ nofun) (.pure _)

theorem operandCheck_does {node : NodeId} (hn : W node) (operator : Operator) :
    Does env I outer (operandCheck node operator) :=
  .bind (isCondition_does hI node) fun _ => .ite (report_does hI hn _ nofun) (.pure _)

theorem returnCheck_does (place : Place) {node : NodeId} (hn : W node) :
    Does env I outer (returnCheck place node) := by
  unfold returnCheck
  split
  · refine .bind (fun _ h => h) fun e => ?_
    split
    · refine .ite (.pure _) (.bind (fun _ h => h) fun actual => ?_)
      exact .bind (isAssignable_does hI actual _) fun isAssignable => .ite
        (.bind (fun _ h => h) fun _ => .bind (fun _ h => h) fun _ => report_does hI hn _ nofun) (.pure _)
    · exact .pure _
  · exact .pure _

theorem binaryType_does {left right : NodeId} (hleft : W left) (hright : W right) (node : NodeId)
    (operator : TokenId) : Does env I outer (binaryType node left operator right) := by
  unfold binaryType
  refine .ask (tree_bind ?_)
  dsimp only
  split
  · refine .bind (fun _ h => h) fun l => .bind (fun _ h => h) fun r => ?_
    split
    · exact .bind (operandCheck_does hI hleft _) fun _ =>
        .bind (operandCheck_does hI hright _) fun _ => .pure _
    · exact .bind (operandCheck_does hI hleft _) fun _ =>
        .bind (operandCheck_does hI hright _) fun _ => .pure _
    iterate 12 exact .pure _
    exact operatorResult_keeps node left
  · exact .pure _

theorem unaryType_does {operand : NodeId} (hoperand : W operand) (node : NodeId)
    (operator : TokenId) : Does env I outer (unaryType node operator operand) := by
  unfold unaryType
  refine .ask (.bind (fun _ h => h) fun type => tree_bind ?_)
  split
  · exact .bind (operandCheck_does hI hoperand _) fun _ => .pure _
  · exact .ite (.pure _) (operatorResult_keeps node operand)
  · exact .pure _
  · exact .pure _
  · exact operatorResult_keeps node operand

theorem assignmentType_does {value : NodeId} (hvalue : W value) (node target : NodeId)
    (operator : TokenId) : Does env I outer (assignmentType node target operator value) := by
  unfold assignmentType
  refine tree_bind (.ite (.bind (fun _ h => h) fun type => ?_) (operatorResult_keeps node target))
  exact .bind (targetType_keeps target) fun _ =>
    .bind (assignableCheck_does hI hvalue type _) fun _ => .pure _

theorem applyType_does {function : NodeId} (hfunction : W function) :
    Does env I outer (applyType function) := by
  unfold applyType
  refine .bind (fun _ h => h) fun type => ?_
  split
  · exact .pure _
  · exact .bind (report_does hI hfunction _ nofun) fun _ => .pure _
  · exact .pure _
  · exact .pure _

theorem initialized_does {node name initializer : NodeId} {equals? : Option TokenId} (hn : W node)
    (hinitializer : W initializer)
    (hkind : env.unit.tree.kind node = .variable name equals? (some initializer)) :
    Does env I outer (initialized node name initializer) := by
  unfold initialized
  refine declared?_bind ?_
  split
  · rename_i id hid
    refine .bind (fun _ h => h) fun value => .bind (fun _ h => h) fun e => ?_
    refine .bind (assignableCheck_does hI hinitializer value _) fun _ => ?_
    refine .bind_of (isUntypedLocal_gives node id) fun isLocal hlocal => ?_
    split
    · rename_i hinferred
      have hlocal : env.graph.kind id = .localVariable := by
        simp only [Bool.and_eq_true] at hinferred
        exact hlocal hinferred.1.1.1
      exact .modify fun s hs =>
        ⟨hI.inferred s node name equals? initializer id value hn hkind hid hlocal hs.1, hs.2⟩
    · exact .pure _
  · exact .pure _

include hW

theorem expressionType?_does (place : Place) {node : NodeId} {e : Expression} (hn : W node)
    (hkind : env.unit.tree.kind node = .expression e) :
    Does env I outer (expressionType? place node e) := by
  have hchild {c : NodeId} (hc : c ∈ (Node.Kind.expression e).children) : W c :=
    hW.child hn hkind hc
  unfold expressionType?
  refine .ask ?_
  cases e with
  | list | map => exact .bind (typeArguments_keeps _) fun _ => .pure _
  | identifier => exact identifierType?_keeps node
  | paren | named | postUnary | cast | cascade => exact .bind (fun _ h => h) fun _ => .pure _
  | this | super => exact .bind (receiverOf_keeps place _) fun _ => .pure _
  | assign target operator value =>
    have hvalue : W value := hchild (by simp)
    exact .bind (assignmentType_does hI hvalue node target operator) fun _ => .pure _
  | conditional condition question then' colon else' =>
    have hcondition : W condition := hchild (by simp)
    exact .bind (conditionCheck_does hI hcondition) fun _ => .bind (fun _ h => h) fun type =>
      .bind (fun _ h => h) fun type' => .bind (leastUpperBound_does hI type type') fun _ => .pure _
  | binary left operator right =>
    have hleft : W left := hchild (by simp)
    have hright : W right := hchild (by simp)
    exact .bind (binaryType_does hI hleft hright node operator) fun _ => .pure _
  | unary operator operand =>
    have hoperand : W operand := hchild (by simp)
    exact .bind (unaryType_does hI hoperand node operator) fun _ => .pure _
  | apply function arguments =>
    have hfunction : W function := hchild (by simp)
    exact .bind (applyType_does hI hfunction) fun _ => .pure _
  | create keyword constructorName arguments =>
    dsimp only
    split
    · exact .bind (fun _ h => h) fun _ => .pure _
    · exact .pure _
  | closure =>
    refine .bind (functionElement?_keeps node) fun id? => ?_
    split
    · exact .bind (fun _ h => h) fun _ => .pure _
    · exact .pure _
  | _ => exact .pure _

/-! ## Nodes -/

theorem infer_does (place : Place) {node : NodeId} (hn : W node) :
    Does env I outer (infer place node) := by
  have hchild {kind : Node.Kind} {c : NodeId} (hkind : env.unit.tree.kind node = kind)
      (hc : c ∈ kind.children) : W c := hW.child hn hkind hc
  unfold infer
  refine tree_bind ?_
  split
  · rename_i hkind
    exact .bind (expressionType?_does hI hW place hn hkind) fun type? =>
      .option_forM fun type _ => setType_does hI hn type
  · exact conditionCheck_does hI (hchild ‹_› (by simp))
  · exact conditionCheck_does hI (hchild ‹_› (by simp))
  · exact conditionCheck_does hI (hchild ‹_› (by simp))
  · exact conditionCheck_does hI (hchild ‹_› (by simp))
  · refine .option_forM fun condition hcondition => ?_
    exact conditionCheck_does hI (hchild ‹_› (by simp [Option.mem_def.1 hcondition]))
  · refine .option_forM fun expression hexpression => ?_
    exact returnCheck_does hI place (hchild ‹_› (by simp [Option.mem_def.1 hexpression]))
  · exact returnCheck_does hI place (hchild ‹_› (by simp))
  · exact initialized_does hI hn (hchild ‹_› (by simp)) ‹_›
  · refine .bind (fun _ h => h) fun value => .bind (fun _ h => h) fun field => ?_
    exact assignableCheck_does hI (hchild ‹_› (by simp)) value field
  · exact .pure _

theorem constructorName_does {node typeName : NodeId} {name? : Option NodeId} (hn : W node)
    (htype : W typeName) (hname : ∀ name ∈ name?, W name) :
    Does env I outer (constructorName node typeName name?) := by
  unfold constructorName
  refine .bind_of (constructorParts_gives hW htype hname) fun parts hparts => ?_
  dsimp only
  split
  · refine .bind (fun _ h => h) fun kind => .ite (bindConstructor_does hI hn ?_ hparts _) (.pure _)
    cases hname? : parts.2 with
    | none => exact htype
    | some name => exact hparts name hname?
  · exact .pure _

theorem bindExpression_does (place : Place) {node : NodeId} {e : Expression} (hn : W node)
    (hkind : env.unit.tree.kind node = .expression e) :
    Does env I outer (bindExpression place node e) := by
  have hchild {c : NodeId} (hc : c ∈ (Node.Kind.expression e).children) : W c :=
    hW.child hn hkind hc
  unfold bindExpression
  refine tree_bind ?_
  cases e with
  | identifier => exact identifier_does hI place hn
  | qualified qualifier period name => exact member_does hI hn (hchild (by simp)) _ _
  | property target? operator name => exact member_does hI hn (hchild (by simp)) _ _
  | call target? period? name arguments =>
    have hname : W name := hchild (by simp)
    exact .ite (member_does hI hn hname target? .call) (plainCall_does hI hn hname)
  | indexed => exact indexed_does hI hn _
  | binary left operator right => exact binaryOperator_does hI hn left operator
  | unary operator operand => exact unaryOperator_does hI hn operand operator
  | postUnary operand operator => exact postfixed_does hI hn operand operator
  | assign target operator value =>
    dsimp only
    split
    · exact operatorMethod_does hI hn target _
    · exact .pure _
  | create keyword constructorName arguments =>
    exact .bind (fun _ h => h) fun id? => .option_forM fun id _ => setElement_does hI hn id
  | this | super => exact .ite (report_does hI hn _ nofun) (.pure _)
  | _ => exact .pure _

theorem bind_does (place : Place) {node : NodeId} (hn : W node) :
    Does env I outer (bind place node) := by
  have hchild {kind : Node.Kind} {c : NodeId} (hkind : env.unit.tree.kind node = kind)
      (hc : c ∈ kind.children) : W c := hW.child hn hkind hc
  unfold bind
  refine tree_bind ?_
  split
  · exact bindExpression_does hI hW place hn ‹_›
  · refine constructorName_does hI hW hn (hchild ‹_› (by simp)) fun name hname => ?_
    exact hchild ‹_› (by simp [Option.mem_def.1 hname])
  · refine superCall_does hI place hn fun name hname => ?_
    exact hchild ‹_› (by simp [Option.mem_def.1 hname])
  · exact initializedField_does hI place (hchild ‹_› (by simp))
  · exact libraryUri_does hI (hchild ‹_› (by simp))
  · exact libraryUri_does hI (hchild ‹_› (by simp))
  · exact partUri_does hI (hchild ‹_› (by simp))
  · exact .ite (report_does hI hn _ nofun) (.pure _)
  · exact .ite (report_does hI hn _ nofun) (.pure _)
  · refine .bind (fun _ h => h) fun id? => ?_
    split
    · exact .bind (fun _ h => h) fun kind => .ite (define_does hI _ _) (.pure _)
    · exact .pure _
  · exact hierarchyCheck_does hI (hchild ‹_› (by simp))
  · exact extendsCheck_does hI (hchild ‹_› (by simp))
  · exact .pure _

/-! ## The walk -/

theorem typeName_does {node : NodeId} (hn : W node) : Does env I outer (typeName node) := by
  unfold typeName
  refine .bind_of (constructorClass?_gives hW hn) fun found? hfound => ?_
  split
  · exact .bind (fun _ h => h) fun e => .bind (setElement_does hI (hfound _ rfl) _) fun _ =>
      setType_does hI hn _
  · refine .ask (.bind (fun _ h => h) fun s => ?_)
    have hbelow := @TypeNames.read_below ⟨env.graph, env.scope, env.unit⟩ W hW.outside
      (fun name => s.frames.local? name) node hn
    refine .bind (.array_forM fun x hx => setElement_does hI (hbelow.elements x hx) _) fun _ => ?_
    refine .bind (.array_forM fun x hx => setType_does hI (hbelow.types x hx) _) fun _ => ?_
    have herrors : ∀ d ∈ _, ∃ n, W n ∧ env.Reports n d := fun d hd => by
      obtain ⟨n, hn, hat, hcode⟩ := hbelow.errors d hd
      exact ⟨n, hn, hat, fun h => absurd h hcode⟩
    exact .modify fun s hs => ⟨hI.errors s _ herrors hs.1, hs.2⟩

/-- Something that is visited does what is allowed below it. -/
def Behaves (env : Env) (W : NodeId → Prop) (I : State → Prop) (visit : Visit) : Prop :=
  ∀ place n outer, W n → Does env I outer (visit place n)

omit hI hW in
theorem visitAll_does {visit : Visit} (hvisit : Behaves env W I visit) (place : Place)
    {nodes : List NodeId} (hnodes : ∀ n ∈ nodes, W n) :
    Does env I outer (visitAll visit place nodes) :=
  .forM fun n hn => hvisit place n outer (hnodes n hn)

omit hI in
theorem loop_does {visit : Visit} (hvisit : Behaves env W I visit) (place : Place) {node : NodeId}
    (hn : W node) (body : NodeId) : Does env I outer (loop visit place node body) :=
  tree_bind (.forM fun c hc => hvisit _ c outer (hW node hn c hc))

theorem classBody_does {visit : Visit} (hvisit : Behaves env W I visit) {node : NodeId} (hn : W node)
    (name : NodeId) : Does env I outer (classBody visit node name) := by
  unfold classBody
  refine .bind (fun _ h => h) fun owner? => graph_bind ?_
  exact inFrame_does hI fun outer => tree_bind (visitAll_does hvisit _ (hW node hn))

theorem executable_does {visit : Visit} (hvisit : Behaves env W I visit) (place : Place)
    {node : NodeId} (hn : W node) (isBody : NodeId → Bool) :
    Does env I outer (executable visit place node isBody) := by
  unfold executable
  refine .ask (inFrame_does hI fun outer => tree_bind (visitAll_does hvisit _ fun c hc => ?_))
  exact hW node hn c (List.mem_of_mem_filter hc)

omit hW in
theorem switchBody_does {visit : Visit} (hvisit : Behaves env W I visit) (place : Place)
    {members : List NodeId} (hmembers : ∀ m ∈ members, W m) :
    Does env I outer (switchBody visit place members) := by
  unfold switchBody
  refine tree_bind (inFrame_does hI fun outer => .bind (.forM fun label _ => ?_) fun _ =>
    visitAll_does hvisit _ hmembers)
  split
  · exact .bind (fun _ h => h) fun id? => .option_forM fun id _ => defineLabel_does hI _ id
  · exact .pure _

theorem switchMember_does {visit : Visit} (hvisit : Behaves env W I visit) (place : Place)
    {node : NodeId} (hn : W node) (statements : List NodeId) :
    Does env I outer (switchMember visit place node statements) := by
  have hchildren {p : NodeId → Bool} (c : NodeId) (hc : c ∈ (env.unit.tree.children node).filter p) :
      W c := hW node hn c (List.mem_of_mem_filter hc)
  unfold switchMember
  refine tree_bind (.bind (visitAll_does hvisit place hchildren) fun _ => ?_)
  exact inFrame_does hI fun outer => visitAll_does hvisit place hchildren

theorem inside_does {visit : Visit} (hvisit : Behaves env W I visit) (place : Place) {node : NodeId}
    (hn : W node) : Does env I outer (inside visit place node) := by
  have hchild {kind : Node.Kind} {c : NodeId} (hkind : env.unit.tree.kind node = kind)
      (hc : c ∈ kind.children) : W c := hW.child hn hkind hc
  have hall (outer : Frames) :
      Does env I outer (visitAll visit place (env.unit.tree.children node)) :=
    visitAll_does hvisit place (hW node hn)
  unfold inside
  refine tree_bind ?_
  split
  · exact classBody_does hI hW hvisit hn _
  · exact .bind (fun _ h => h) fun function? => executable_does hI hW hvisit _ hn _
  · exact .bind (fun _ h => h) fun function? => executable_does hI hW hvisit _ hn _
  · exact .bind (functionElement?_keeps node) fun function? => executable_does hI hW hvisit _ hn _
  · exact inFrame_does hI hall
  · exact inFrame_does hI hall
  · exact inFrame_does hI hall
  · exact inFrame_does hI fun outer => loop_does hW hvisit place hn _
  · exact loop_does hW hvisit place hn _
  · exact loop_does hW hvisit place hn _
  · rename_i hkind
    refine .bind (hvisit place _ outer (hchild hkind (by simp))) fun _ => inFrame_does hI fun outer => ?_
    exact .bind (hvisit place _ outer (hchild hkind (by simp))) fun _ =>
      hvisit _ _ outer (hchild hkind (by simp))
  · rename_i hkind
    refine .bind (hvisit place _ outer (hchild hkind (by simp))) fun _ => ?_
    exact switchBody_does hI hvisit place fun m hm => hchild hkind (by simp [hm])
  · exact switchMember_does hI hW hvisit place hn _
  · exact switchMember_does hI hW hvisit place hn _
  · exact hall outer

/-- Resolving a node and all below it has no effects but allowed ones, at nodes there. -/
theorem visitTo_does (depth : Nat) : Behaves env W I (visitTo depth) := by
  induction depth with
  | zero => exact fun _ _ _ _ => .pure _
  | succ depth ih =>
    intro place node outer hn
    rw [visitTo]
    refine tree_bind ?_
    split
    · exact .pure _
    · exact .pure _
    · exact typeName_does hI hW hn
    · exact .bind (inside_does hI hW ih place hn) fun _ =>
        .bind (bind_does hI hW place hn) fun _ => infer_does hI hW place hn

/-- Resolving a unit has no effects but allowed ones. -/
theorem resolve_does (hroot : W env.unit.tree.root) : Does env I outer resolve := by
  unfold resolve
  exact tree_bind (visitTo_does hI hW _ {} _ outer hroot)

end Effects

end Binding

end DartAnalysis
