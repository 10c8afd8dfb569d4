/-
  Resolving a node outside of bodies. What is read there are the meanings of nodes outside of bodies,
  the frames, and the inferred types of elements that are not hidden in bodies, and none of these depends
  on what was done inside bodies. So each action on such a node agrees with itself, with bodies and
  without, if nothing that the surroundings show is hidden in a body (`Env.Sealed`). Main statements:
  `bind_follows`, `infer_follows`.
-/
import DartAnalysis.Proofs.Binding.Agreement

namespace DartAnalysis

namespace Binding

/-- What can be seen from outside of bodies is not hidden in them: names, members of classes, and what
    declaring names outside of bodies declare. -/
structure Env.Sealed (env : Env) : Prop where
  owned : env.unit.tree.nodes.Owned
  root : env.unit.tree.isInBody env.unit.tree.root = false
  parentless : env.unit.tree.parent? env.unit.tree.root = none
  types : env.graph.Over env.Open
  core : env.core.Over env.Open
  classes : ∀ id, env.graph.kind id = .classElement → env.Open id
  parameters : ∀ id, ∀ p ∈ (env.graph.element id).typeParameters, env.Shown p
  scope : env.scope.All env.Shown
  qualifiers : ∀ name, ∀ id ∈ env.scope.qualifier? name, env.Shown id
  exported : ∀ source l, env.graph.libraryOf? source = some l →
    ∀ x ∈ env.graph.exportedNames l, env.Shown x.2
  libraries : ∀ source l, env.graph.libraryOf? source = some l → env.Shown l.self
  units : ∀ source, ∀ id ∈ env.library.unit? source, env.Shown id
  identifierNames : ∀ n token, env.Outer n → env.unit.tree.kind n = .expression (.identifier token) →
    ∀ id ∈ env.library.declaredAt? env.unit.source (env.unit.tree.offset n), env.Shown id
  variableNames : ∀ n name equals? initializer?, env.Outer n →
    env.unit.tree.kind n = .variable name equals? initializer? →
    ∀ id ∈ env.library.declaredAt? env.unit.source (env.unit.tree.offset name), env.Shown id
  labelNames : ∀ n name colon, env.Outer n → env.unit.tree.kind n = .label name colon →
    ∀ id ∈ env.library.declaredAt? env.unit.source (env.unit.tree.offset name), env.Shown id
  classNames : ∀ n comment? abstract? keyword name typeParameters? extends? with? implements? leftBrace
      members rightBrace, env.Outer n → env.unit.tree.kind n = .declaration (.classDecl comment?
      abstract? keyword name typeParameters? extends? with? implements? leftBrace members rightBrace) →
    ∀ id ∈ env.library.declaredAt? env.unit.source (env.unit.tree.offset name),
      env.Shown id ∧ env.Open id

section Elements

variable {env : Env}

theorem shown_error : env.Shown .error := Env.shown_of_kind nofun

theorem open_error : env.Open .error := fun _ h => absurd h List.not_mem_nil

theorem shown_of_declaredMember? {c : ElementId} (hc : env.Open c) {name : String} :
    ∀ id ∈ env.graph.declaredMember? c name, env.Shown id :=
  fun id hid => hc id (List.mem_of_find?_eq_some hid)

theorem shown_of_declaredSetter? {c : ElementId} (hc : env.Open c) {name : String} :
    ∀ id ∈ env.graph.declaredSetter? c name, env.Shown id := by
  intro id hid
  rcases mem_of_mem_orElse hid with hid | hid
  · exact shown_of_declaredMember? hc id hid
  · exact shown_of_declaredMember? hc id ((Option.mem_filter_iff.1 hid).1)

theorem shown_of_constructor? {c : ElementId} {name : String} :
    ∀ id ∈ env.graph.constructor? c name, env.Shown id := by
  intro id hid
  have hkind := List.find?_some hid
  refine Env.shown_of_kind fun hlocal => ?_
  rw [Bool.and_eq_true, beq_iff_eq] at hkind
  exact absurd (hkind.1.symm.trans hlocal) nofun

end Elements

namespace Env.Sealed

variable {env : Env} (h : env.Sealed)
include h

theorem shown_of_member? {c : ElementId} (hc : env.Open c) {name : String} :
    ∀ id ∈ env.graph.member? c name, env.Shown id := by
  intro id hid
  obtain ⟨owner, howner, hid⟩ := List.exists_of_findSome?_eq_some hid
  refine shown_of_declaredMember? ?_ id hid
  rcases List.mem_cons.1 howner with rfl | howner
  · exact hc
  · exact h.types.allSuperclasses c owner howner

/-- A child of a node outside of bodies is outside of them unless it is a body itself. -/
theorem child {n c : NodeId} {kind : Node.Kind} (hn : env.Outer n)
    (hkind : env.unit.tree.kind n = kind) (hc : c ∈ kind.children) (hbody : kind.hasBody c = false) :
    env.Outer c := by
  subst hkind
  refine ⟨Tree.mem_below_snoc h.owned hn.1 hc, ?_⟩
  rw [Tree.isInBody_of_child h.owned hc, hbody, Bool.false_or]
  exact hn.2

/-- What is below a node in a body is in it. -/
theorem spreads : env.unit.tree.Spreads env.Inner := fun n hn c hc => by
  refine ⟨Tree.mem_below_snoc h.owned hn.1 hc, ?_⟩
  rw [Tree.isInBody_of_child h.owned hc, hn.2, Bool.or_true]

/-- All that is around a node outside of bodies is outside of them. -/
theorem around {n a : NodeId} (hn : env.Outer n) (ha : a ∈ env.unit.tree.ancestors n) : env.Outer a :=
  ⟨Tree.mem_below_of_mem_ancestors h.owned h.parentless hn.1 ha,
    Tree.not_isInBody_of_ancestor h.owned hn.2 ha⟩

theorem fits : TypeNames.Fits ⟨env.graph, env.scope, env.unit⟩ env.Shown env.Open where
  error := shown_error
  lookup _ _ hid := h.scope.lookup? hid
  qualified _ _ _ hid := h.scope.lookupQualified? hid
  qualifier := h.qualifiers
  classes := h.classes
  aliases id _ := h.types.type id

end Env.Sealed

/-! ## References -/

section References

attribute [local simp] Node.Kind.children Node.Kind.fields Directive.fields Declaration.fields
  Clause.fields Initializer.fields Statement.fields Expression.fields Body.fields Field.children

variable {env : Env} (henv : env.Sealed)
include henv

theorem lookup?_agrees (name : String) : Agrees env env.ShownEach (lookup? name) := by
  refine .ask (fun _ => rfl) (.fetch fun s s' h => ⟨by rw [h.frames], .pure fun id hid => ?_⟩)
  rcases mem_of_mem_orElse hid with hid | hid
  · exact shown_of_lookup? (fun c hc => henv.shown_of_member? hc) h.clear id hid
  · exact henv.scope.lookup? hid

theorem lookupType?_agrees (name : String) : Agrees env env.ShownEach (lookupType? name) := by
  refine .fetch fun s s' h => ⟨by rw [h.frames], .ask (fun _ => rfl) (.pure fun id hid => ?_)⟩
  rcases mem_of_mem_orElse hid with hid | hid
  · exact shown_of_local? h.clear id hid
  · exact henv.scope.lookup? hid

theorem referenceType_agrees {id : ElementId} (hid : env.Shown id) :
    Agrees env env.OpenType (referenceType id) := by
  have htype := henv.types.type id
  unfold referenceType
  refine .ite (.pure trivial) ((inferred?_agrees hid).bind fun t? ht => ?_)
  split
  · exact .pure (ht _ rfl)
  · refine (elementOf_agrees id).after ?_
    split
    · exact .pure (StaticType.over_getD htype.result?)
    · exact .pure (StaticType.over_getD htype.firstParameter?)
    all_goals try exact .ask (fun _ => rfl) (.pure ⟨henv.core.typeClass, trivial⟩)
    exact .ite (.pure htype) (.pure trivial)

theorem assignedType_agrees {id : ElementId} (hid : env.Shown id) :
    Agrees env env.OpenType (assignedType id) := by
  unfold assignedType
  refine (elementOf_agrees id).after ?_
  split
  · exact referenceType_agrees henv hid
  · exact .pure (henv.types.type id)

omit henv in
theorem callType_agrees {callee : StaticType} (hcallee : env.OpenType callee) (name : NodeId) :
    Agrees env env.OpenType (callType callee name) := by
  have hreport : Follows env (callType.notAFunction name) :=
    tree_agrees.after (report_follows name _ _)
  unfold callType
  split
  · exact .pure (StaticType.over_function.1 hcallee).1
  · exact .pure trivial
  · refine graph_agrees.after ?_
    dsimp only
    split
    · exact hreport.bind fun _ _ => .pure trivial
    · exact .pure trivial
  · exact hreport.bind fun _ _ => .pure trivial
  · exact .pure trivial

theorem accessType_agrees (access : Access) {id : ElementId} (hid : env.Shown id) {read : StaticType}
    (hread : env.OpenType read) (name : NodeId) :
    Agrees env env.OpenType (accessType access id read name) := by
  unfold accessType
  split
  · exact .pure hread
  · exact assignedType_agrees henv hid
  · exact callType_agrees hread name

/-! ## Identifiers -/

omit henv in
theorem undefined_follows {node : NodeId} (hn : env.Outer node) (code : Diagnostic.Code)
    (name : String) : Follows env (undefined node code name) :=
  (report_follows node code _).bind fun _ _ => setElement_follows hn shown_error

theorem declaration_follows {node : NodeId} {token : TokenId} (hn : env.Outer node)
    (hkind : env.unit.tree.kind node = .expression (.identifier token)) :
    Follows env (declaration node) := by
  have hdeclared := henv.identifierNames node token hn hkind
  unfold declaration
  refine (declared?_agrees node).after ?_
  split
  · rename_i id hid
    have hid : env.Shown id := hdeclared id hid
    refine (setElement_follows hn hid).bind fun _ _ => tree_agrees.after ?_
    refine (elementOf_agrees id).after (graph_agrees.after ?_)
    dsimp only
    split
    · exact defineLabel_follows _ hid
    · exact .ite (define_follows _ hid) .done
    · exact .ite (define_follows _ hid) .done
    · exact .ite (define_follows _ hid) .done
    · exact .done
  · exact .done

theorem reference_follows {node : NodeId} (hn : env.Outer node) :
    Follows env (reference node) := by
  have hset (name : String) {meant : Option ElementId} (hmeant : env.ShownEach meant) (id : ElementId)
      (hid : id ∈ (meant <|> env.scope.qualifier? name)) : Follows env (setElement node id) :=
    setElement_follows hn ((mem_of_mem_orElse hid).elim (hmeant id) (henv.qualifiers name id))
  unfold reference
  refine tree_agrees.after ((lookup?_agrees henv _).bind fun found hfound => ?_)
  have heither (setter? : Option ElementId) (hsetter : env.ShownEach setter?) :
      env.ShownEach (setter? <|> found) := fun id hid =>
    (mem_of_mem_orElse hid).elim (hsetter id) (hfound id)
  dsimp only
  split
  · refine (kindOf_agrees _).after (Agrees.done.bind fun readOnly _ => .ite
      ((lookup?_agrees henv _).bind fun setter? hsetter => Agrees.bind (.pure (heither setter? hsetter))
        fun meant hmeant => .ask (fun _ => rfl) ?_)
      (Agrees.bind (.pure hfound) fun meant hmeant => .ask (fun _ => rfl) ?_))
    all_goals
      split
      · exact hset _ hmeant _ ‹_›
      · exact undefined_follows hn _ _
  · refine Agrees.done.bind fun readOnly _ => .ite
      ((lookup?_agrees henv _).bind fun setter? hsetter => Agrees.bind (.pure (heither setter? hsetter))
        fun meant hmeant => .ask (fun _ => rfl) ?_)
      (Agrees.bind (.pure hfound) fun meant hmeant => .ask (fun _ => rfl) ?_)
    all_goals
      split
      · exact hset _ hmeant _ ‹_›
      · exact undefined_follows hn _ _

theorem combinatorName_follows {node : NodeId} (hn : env.Outer node) :
    Follows env (combinatorName node) := by
  unfold combinatorName
  refine .ask (fun _ => rfl) ?_
  dsimp only
  split
  · rename_i id hid
    refine setElement_follows hn ?_
    obtain ⟨l, hl, hid⟩ := Option.bind_eq_some_iff.1 hid
    obtain ⟨source, -, hsource⟩ := Option.bind_eq_some_iff.1 hl
    exact henv.exported source l hsource _ (mem_of_lookup_eq_some hid)
  · exact .done

/-- The class around a place is shown. -/
abbrev Env.ShownPlace (env : Env) (place : Place) : Prop := env.ShownEach place.owner?

theorem identifier_follows {place : Place} (hplace : env.ShownPlace place) {node : NodeId}
    {token : TokenId} (hn : env.Outer node)
    (hkind : env.unit.tree.kind node = .expression (.identifier token)) :
    Follows env (identifier place node) := by
  unfold identifier
  refine tree_agrees.after ?_
  split
  · exact declaration_follows henv hn hkind
  · exact .option_forM fun owner howner => setElement_follows hn (hplace owner howner)
  · exact .ask (fun _ => rfl) (.option_forM fun id hid =>
      setElement_follows hn (henv.qualifiers _ id hid))
  · exact combinatorName_follows henv hn
  · refine .fetch fun s s' h => ⟨by rw [h.frames], ?_⟩
    split
    · exact setElement_follows hn (shown_of_label? h.clear _ ‹_›)
    · exact undefined_follows hn _ _
  · exact .done
  · exact reference_follows henv hn

/-! ## Members -/

omit henv in
theorem bindMember_follows {node name : NodeId} (hn : env.Outer node) (hname : env.Outer name)
    {id : ElementId} (hid : env.Shown id) {type nameType : StaticType} (htype : env.OpenType type)
    (hnameType : env.OpenType nameType) : Follows env (bindMember node name id type nameType) :=
  (setElement_follows hn hid).bind fun _ _ => (setElement_follows hname hid).bind fun _ _ =>
    (setType_follows hn htype).bind fun _ _ => setType_follows hname hnameType

omit henv in
theorem undefinedMember_follows {node name : NodeId} (hn : env.Outer node)
    (hname : env.Outer name) (code : Diagnostic.Code) (args : List String) :
    Follows env (undefinedMember node name code args) :=
  (report_follows name code args).bind fun _ _ =>
    bindMember_follows hn hname shown_error trivial trivial

theorem bindElement_follows {node name : NodeId} (hn : env.Outer node) (hname : env.Outer name)
    (access : Access) {id : ElementId} (hid : env.Shown id) :
    Follows env (bindElement node name access id) :=
  (referenceType_agrees henv hid).bind fun _ hread =>
    (accessType_agrees henv access hid hread name).bind fun _ htype =>
      bindMember_follows hn hname hid htype hread

theorem qualifiedMember_follows {node name : NodeId} (hn : env.Outer node)
    (hname : env.Outer name) (qualifier : NodeId) (access : Access) :
    Follows env (qualifiedMember node qualifier name access) := by
  unfold qualifiedMember
  refine tree_agrees.after (.ask (fun _ => rfl) ?_)
  dsimp only
  split
  · rename_i id hid
    refine bindElement_follows henv hn hname access ?_
    split at hid
    · rcases mem_of_mem_orElse hid with hid | hid
      · exact henv.scope.lookupQualified? hid
      · exact henv.scope.lookupQualified? hid
    · exact henv.scope.lookupQualified? hid
  · exact undefinedMember_follows hn hname _ _

theorem staticMember_follows {node name : NodeId} (hn : env.Outer node) (hname : env.Outer name)
    {owner : ElementId} (howner : env.Open owner) (access : Access) :
    Follows env (staticMember node owner name access) := by
  unfold staticMember
  refine graph_agrees.after (tree_agrees.after ?_)
  dsimp only
  split
  · rename_i id hid
    refine bindElement_follows henv hn hname access ?_
    split at hid
    · rcases mem_of_mem_orElse hid with hid | hid
      · exact shown_of_declaredMember? howner id hid
      · exact shown_of_declaredMember? howner id hid
    · exact shown_of_declaredMember? howner id hid
  · exact undefinedMember_follows hn hname _ _

/-- The target of the cascade around a node is outside of bodies if the node is. -/
theorem receiverType_agrees {node : NodeId} (hn : env.Outer node) {target? : Option NodeId}
    (htarget : ∀ target ∈ target?, env.Outer target) :
    Agrees env env.OpenType (receiverType node target?) := by
  unfold receiverType
  split
  · exact typeOf_agrees (htarget _ rfl)
  refine tree_agrees.after ?_
  dsimp only
  split
  · rename_i target hcascade
    obtain ⟨a, ha, hcascade⟩ := List.exists_of_findSome?_eq_some hcascade
    have haround : env.Outer a := henv.around hn ha
    split at hcascade
    · rename_i hkind
      obtain rfl := Option.some.inj hcascade
      exact typeOf_agrees (henv.child haround hkind List.mem_cons_self rfl)
    · cases hcascade
  · exact .pure trivial

omit henv in
theorem missingMember_follows {node name : NodeId} (hn : env.Outer node)
    (hname : env.Outer name) (receiver : StaticType) (code : Diagnostic.Code) (written : String) :
    Follows env (do
      if (← receiver? receiver).isSome then
        undefinedMember node name code [written, ← display receiver]
      else
        setType node (if receiver = .error then .error else .dynamic)
        setType name (if receiver = .error then .error else .dynamic)) := by
  have htype : env.OpenType (if receiver = .error then .error else .dynamic) := by
    split <;> trivial
  refine (receiver?_agrees receiver).after (.ite ?_ ?_)
  · exact (display_agrees receiver).after (undefinedMember_follows hn hname _ _)
  · exact (setType_follows hn htype).bind fun _ _ => setType_follows hname htype

theorem instanceMember_follows {node name : NodeId} (hn : env.Outer node) (hname : env.Outer name)
    {target? : Option NodeId} (htarget : ∀ target ∈ target?, env.Outer target) (access : Access) :
    Follows env (instanceMember node target? name access) := by
  unfold instanceMember
  refine tree_agrees.after (graph_agrees.after
    ((receiverType_agrees henv hn htarget).bind fun receiver hreceiver => ?_))
  have hfound {m : TypedMember} (howner : m.owner.Over env.Open) (hshown : env.Shown m.element)
      {type : StaticType} (htype : env.OpenType type) :
      Follows env (bindMember node name m.element type (env.graph.readType m)) :=
    bindMember_follows hn hname hshown htype (henv.types.readType howner)
  dsimp only
  split
  · refine (setter?_agrees receiver _).after ?_
    split
    · rename_i m hm
      obtain ⟨howner, hmember⟩ := henv.types.typedSetter? henv.core hreceiver m hm
      have hshown := shown_of_declaredSetter? (StaticType.over_interface.1 howner).1 _ hmember
      exact .bind (.pure (henv.types.writeType howner)) fun type htype => hfound howner hshown htype
    · exact missingMember_follows hn hname receiver _ _
  · refine (member?_agrees receiver _).after ?_
    split
    · rename_i m hm
      obtain ⟨howner, hmember⟩ := henv.types.typedMember? henv.core hreceiver m hm
      have hshown := shown_of_declaredMember? (StaticType.over_interface.1 howner).1 _ hmember
      have hread := henv.types.readType howner
      split
      · exact .bind (.pure hread) fun type htype => hfound howner hshown htype
      · exact .bind (.pure (henv.types.writeType howner)) fun type htype =>
          hfound howner hshown htype
      · exact (callType_agrees hread name).bind fun type htype => hfound howner hshown htype
    · exact missingMember_follows hn hname receiver _ _

theorem member_follows {node name : NodeId} (hn : env.Outer node) (hname : env.Outer name)
    {target? : Option NodeId} (htarget : ∀ target ∈ target?, env.Outer target) (access : Access) :
    Follows env (member node target? name access) := by
  have hinstance := instanceMember_follows henv hn hname htarget access
  unfold member
  split
  · rename_i target
    refine (element?_agrees (htarget target rfl)).bind fun id? _ => ?_
    dsimp only
    split
    · refine (kindOf_agrees _).after ?_
      split
      · exact qualifiedMember_follows henv hn hname _ access
      · exact staticMember_follows henv hn hname (henv.classes _ ‹_›) access
      · exact hinstance
    · exact hinstance
  · exact Agrees.done.bind fun id? _ => hinstance

omit henv in
theorem plainCall_follows {node name : NodeId} (hn : env.Outer node) (hname : env.Outer name) :
    Follows env (plainCall node name) := by
  unfold plainCall
  refine (element?_agrees hname).bind fun id? hid => ?_
  split
  · exact setType_follows hn trivial
  · refine .ite (setType_follows hn trivial) ((typeOf_agrees hname).bind fun callee hcallee => ?_)
    exact (callType_agrees hcallee name).bind fun type htype =>
      (setElement_follows hn (hid _ rfl)).bind fun _ _ => setType_follows hn htype

/-! ## Operators -/

theorem operatorMethod_follows {node operand : NodeId} (hn : env.Outer node)
    (hoperand : env.Outer operand) (name : String) :
    Follows env (operatorMethod node operand name) := by
  unfold operatorMethod
  refine (typeOf_agrees hoperand).bind fun receiver hreceiver => (member?_agrees receiver name).after ?_
  split
  · rename_i m hm
    obtain ⟨howner, hmember⟩ := henv.types.typedMember? henv.core hreceiver m hm
    exact setElement_follows hn
      (shown_of_declaredMember? (StaticType.over_interface.1 howner).1 _ hmember)
  · exact (receiver?_agrees receiver).after (.ite
      ((display_agrees receiver).after (report_follows node _ _)) .done)

omit henv in
theorem openType_storedType {t : StaticType} (ht : env.OpenType t) :
    ∀ u ∈ storedType t, env.OpenType u := by
  intro u hu
  cases t with
  | function result required positional named =>
    exact (StaticType.over_function.1 ht).2.1 u (List.mem_of_getElem? hu)
  | _ => cases hu

theorem indexed_follows {node : NodeId} (hn : env.Outer node) {target? : Option NodeId}
    (htarget : ∀ target ∈ target?, env.Outer target) : Follows env (indexed node target?) := by
  unfold indexed
  refine (receiverType_agrees henv hn htarget).bind fun receiver hreceiver => tree_agrees.after ?_
  dsimp only
  refine (member?_agrees receiver _).after ?_
  split
  · rename_i m hm
    obtain ⟨howner, hmember⟩ := henv.types.typedMember? henv.core hreceiver m hm
    have hsignature := henv.types.memberType howner
    refine graph_agrees.after ((setElement_follows hn
      (shown_of_declaredMember? (StaticType.over_interface.1 howner).1 _ hmember)).bind fun _ _ => ?_)
    refine setType_follows hn (StaticType.over_getD ?_)
    split
    · exact openType_storedType hsignature
    · exact hsignature.result?
  · refine (receiver?_agrees receiver).after (.ite ?_ (setType_follows hn trivial))
    exact (display_agrees receiver).after ((report_follows node _ _).bind fun _ _ =>
      setType_follows hn trivial)

theorem binaryOperator_follows {node left : NodeId} (hn : env.Outer node)
    (hleft : env.Outer left) (operator : TokenId) :
    Follows env (binaryOperator node left operator) := by
  unfold binaryOperator
  refine tree_agrees.after ?_
  split
  · exact .done
  · exact .done
  · exact .done
  · exact operatorMethod_follows henv hn hleft _
  · exact operatorMethod_follows henv hn hleft _

theorem unaryOperator_follows {node operand : NodeId} (hn : env.Outer node)
    (hoperand : env.Outer operand) (operator : TokenId) :
    Follows env (unaryOperator node operand operator) := by
  unfold unaryOperator
  refine tree_agrees.after ?_
  split
  · exact operatorMethod_follows henv hn hoperand _
  · exact operatorMethod_follows henv hn hoperand _
  · exact operatorMethod_follows henv hn hoperand _
  · exact operatorMethod_follows henv hn hoperand _
  · exact .done

theorem postfixed_follows {node operand : NodeId} (hn : env.Outer node)
    (hoperand : env.Outer operand) (operator : TokenId) :
    Follows env (postfixed node operand operator) := by
  unfold postfixed
  refine tree_agrees.after ?_
  split
  · exact operatorMethod_follows henv hn hoperand _
  · exact operatorMethod_follows henv hn hoperand _
  · exact .done

/-! ## Constructors, directives and classes -/

omit henv in
theorem bindConstructor_follows {node : NodeId} {name? : Option NodeId} (hn : env.Outer node)
    (hname : ∀ name ∈ name?, env.Outer name) (owner : ElementId) (blamed : NodeId) :
    Follows env (bindConstructor node owner name? blamed) := by
  unfold bindConstructor
  refine graph_agrees.after (tree_agrees.after ?_)
  dsimp only
  split
  · rename_i id hid
    have hid := shown_of_constructor? id hid
    exact (setElement_follows hn hid).bind fun _ _ =>
      .option_forM fun name hmem => setElement_follows (hname name hmem) hid
  · exact report_follows blamed _ _

theorem constructorParts_agrees {typeName : NodeId} {name? : Option NodeId}
    (htype : env.Outer typeName) (hname : ∀ n ∈ name?, env.Outer n) :
    Agrees env (fun parts => ∀ n ∈ parts.2, env.Outer n) (constructorParts typeName name?) := by
  have hwritten : Agrees env (fun parts : Option ElementId × Option NodeId =>
      ∀ n ∈ parts.2, env.Outer n) (return ((← typeOf typeName).class?, name?)) :=
    (typeOf_agrees htype).bind fun _ _ => .pure hname
  unfold constructorParts
  refine tree_agrees.after ?_
  split
  · rename_i written arguments? hkind
    have hbelow := henv.child htype hkind List.mem_cons_self rfl
    dsimp only
    split
    · rename_i qualifier period name hkind
      refine (element?_agrees (henv.child hbelow hkind List.mem_cons_self rfl)).bind fun id? _ => ?_
      split
      · refine (kindOf_agrees _).after (.ite (.pure fun n hn => ?_) hwritten)
        obtain rfl := Option.some.inj hn
        exact henv.child hbelow hkind (List.mem_cons_of_mem _ List.mem_cons_self) rfl
      · exact hwritten
    · exact hwritten
  · exact .pure hname

theorem constructorName_follows {node typeName : NodeId} {name? : Option NodeId}
    (hn : env.Outer node) (htype : env.Outer typeName) (hname : ∀ name ∈ name?, env.Outer name) :
    Follows env (constructorName node typeName name?) := by
  unfold constructorName
  refine (constructorParts_agrees henv htype hname).bind fun parts hparts => ?_
  dsimp only
  split
  · exact (kindOf_agrees _).after (.ite (bindConstructor_follows hn hparts _ _) .done)
  · exact .done

omit henv in
theorem superCall_follows (place : Place) {node : NodeId} {name? : Option NodeId}
    (hn : env.Outer node) (hname : ∀ name ∈ name?, env.Outer name) :
    Follows env (superCall place node name?) := by
  unfold superCall
  refine graph_agrees.after ?_
  split
  · exact bindConstructor_follows hn hname _ _
  · exact .done

theorem initializedField_follows (place : Place) {name : NodeId} (hname : env.Outer name) :
    Follows env (initializedField place name) := by
  unfold initializedField
  refine graph_agrees.after (tree_agrees.after ?_)
  dsimp only
  split
  · rename_i field hfield
    have hkind := beq_iff_eq.1 (Option.mem_filter_iff.1 hfield).2
    refine (setElement_follows hname (Env.shown_of_kind ?_)).bind fun _ _ =>
      setType_follows hname (henv.types.type field)
    rw [hkind]
    exact nofun
  · exact undefined_follows hname _ _

theorem libraryUri_follows {node : NodeId} (hn : env.Outer node) :
    Follows env (libraryUri node) := by
  unfold libraryUri
  refine .ask (fun _ => rfl) ?_
  split
  · exact .done
  · dsimp only
    split
    · rename_i l hl
      obtain ⟨source, -, hsource⟩ := Option.bind_eq_some_iff.1 hl
      exact setElement_follows hn (henv.libraries source l hsource)
    · exact .ite (report_follows node _ _) (report_follows node _ _)

theorem partUri_follows {node : NodeId} (hn : env.Outer node) : Follows env (partUri node) := by
  unfold partUri
  refine .ask (fun _ => rfl) ?_
  split
  · exact .done
  · split
    · rename_i id hid
      obtain ⟨source, -, hid⟩ := Option.bind_eq_some_iff.1 hid
      exact setElement_follows hn (henv.units source id hid)
    · exact report_follows node _ _

omit henv in
theorem hierarchyCheck_follows (name : NodeId) : Follows env (hierarchyCheck name) := by
  unfold hierarchyCheck
  refine (declared?_agrees name).after ?_
  split
  · exact graph_agrees.after (.ite (report_follows name _ _) .done)
  · exact .done

theorem extendsCheck_follows {typeName : NodeId} (htype : env.Outer typeName) :
    Follows env (extendsCheck typeName) := by
  unfold extendsCheck
  refine tree_agrees.after ?_
  split
  · refine (element?_agrees (henv.child htype ‹_› List.mem_cons_self rfl)).bind fun id? _ => ?_
    split
    · exact (kindOf_agrees _).after (.ite (report_follows typeName _ _) .done)
    · exact .done
  · exact .done

/-! ## Checks -/

omit henv in
theorem functionElement?_agrees (node : NodeId) :
    Agrees env (fun _ => True) (functionElement? node) := by
  unfold functionElement?
  refine tree_agrees.after ?_
  split
  · exact (declared?_agrees _).weaken fun _ _ => trivial
  · exact (declared?_agrees node).weaken fun _ _ => trivial

omit henv in
theorem assignableCheck_follows (node : NodeId) (source target : StaticType) :
    Follows env (assignableCheck node source target) :=
  (isAssignable_agrees source target).after (.ite
    ((display_agrees source).after ((display_agrees target).after (report_follows node _ _))) .done)

omit henv in
theorem isCondition_agrees {node : NodeId} (hn : env.Outer node) :
    Agrees env (fun _ => True) (isCondition node) :=
  (typeOf_agrees hn).bind fun type _ => .ask (fun _ => rfl)
    ((isAssignable_agrees type env.core.bool).weaken fun _ _ => trivial)

omit henv in
theorem conditionCheck_follows {node : NodeId} (hn : env.Outer node) :
    Follows env (conditionCheck node) :=
  (isCondition_agrees hn).bind fun _ _ => .ite (report_follows node _ _) .done

omit henv in
theorem operandCheck_follows {node : NodeId} (hn : env.Outer node) (operator : Operator) :
    Follows env (operandCheck node operator) :=
  (isCondition_agrees hn).bind fun _ _ => .ite (report_follows node _ _) .done

omit henv in
theorem returnCheck_follows (place : Place) {node : NodeId} (hn : env.Outer node) :
    Follows env (returnCheck place node) := by
  unfold returnCheck
  split
  · refine (elementOf_agrees _).after ?_
    split
    · refine .ite .done ((typeOf_agrees hn).bind fun actual _ => ?_)
      exact (isAssignable_agrees actual _).after (.ite ((display_agrees _).after
        ((display_agrees _).after (report_follows node _ _))) .done)
    · exact .done
  · exact .done

/-! ## Types of expressions -/

theorem typeArguments_agrees {list? : Option NodeId} (hlist : ∀ list ∈ list?, env.Outer list) :
    Agrees env (fun types => ∀ t ∈ types, env.OpenType t) (typeArguments list?) := by
  unfold typeArguments
  refine tree_agrees.after ?_
  split
  · rename_i left nodes right hlist?
    obtain ⟨list, rfl, hkind⟩ := Option.map_eq_some_iff.1 hlist?
    exact .mapM fun n hn => typeOf_agrees (henv.child (hlist list rfl) hkind
      (by simpa [Node.Kind.children, Node.Kind.fields, Field.children] using hn) rfl)
  · exact .pure fun _ ht => absurd ht List.not_mem_nil

theorem operatorResult_agrees {node operand : NodeId} (hn : env.Outer node)
    (hoperand : env.Outer operand) : Agrees env env.OpenType (operatorResult node operand) := by
  unfold operatorResult
  refine graph_agrees.after ((element?_agrees hn).bind fun id? _ =>
    (typeOf_agrees hoperand).bind fun type htype => (receiver?_agrees type).after ?_)
  split
  · have howner := henv.types.receiver? henv.core htype _ ‹_›
    refine .pure (StaticType.over_getD fun result hresult => ?_)
    obtain ⟨owner, howner', hresult⟩ := Option.bind_eq_some_iff.1 hresult
    obtain ⟨around, -, howner'⟩ := Option.bind_eq_some_iff.1 howner'
    exact (henv.types.memberType (henv.types.asInstanceOf? howner around owner howner')).result?
      result hresult
  · exact .pure trivial

omit henv in
theorem openType_arithmeticType (hcore : env.core.Over env.Open) (left right : StaticType) :
    env.OpenType (arithmeticType env.core left right) := by
  unfold arithmeticType
  split
  · exact ⟨hcore.intClass, trivial⟩
  · split
    · exact ⟨hcore.doubleClass, trivial⟩
    · exact ⟨hcore.numClass, trivial⟩

theorem binaryType_agrees {node left right : NodeId} (hn : env.Outer node)
    (hleft : env.Outer left) (hright : env.Outer right) (operator : TokenId) :
    Agrees env env.OpenType (binaryType node left operator right) := by
  have hbool : env.OpenType env.core.bool := ⟨henv.core.boolClass, trivial⟩
  have hcheck (o : Operator) : Agrees env env.OpenType (do
      operandCheck left o
      operandCheck right o
      return env.core.bool) :=
    (operandCheck_follows hleft o).bind fun _ _ => (operandCheck_follows hright o).bind fun _ _ =>
      .pure hbool
  unfold binaryType
  refine .ask (fun _ => rfl) (tree_agrees.after ?_)
  dsimp only
  split
  · refine (typeOf_agrees hleft).bind fun l _ => (typeOf_agrees hright).bind fun r _ => ?_
    split
    · exact hcheck _
    · exact hcheck _
    iterate 6 exact .pure hbool
    · exact .pure ⟨henv.core.doubleClass, trivial⟩
    · exact .pure ⟨henv.core.intClass, trivial⟩
    iterate 4 exact .pure (openType_arithmeticType henv.core l r)
    · exact operatorResult_agrees henv hn hleft
  · exact .pure trivial

theorem unaryType_agrees {node operand : NodeId} (hn : env.Outer node)
    (hoperand : env.Outer operand) (operator : TokenId) :
    Agrees env env.OpenType (unaryType node operator operand) := by
  have hresult := operatorResult_agrees henv hn hoperand
  unfold unaryType
  refine .ask (fun _ => rfl) ((typeOf_agrees hoperand).bind fun type htype => tree_agrees.after ?_)
  split
  · exact (operandCheck_follows hoperand _).bind fun _ _ => .pure ⟨henv.core.boolClass, trivial⟩
  · exact .ite (.pure htype) hresult
  · exact .pure htype
  · exact .pure htype
  · exact hresult

/-- Whether a type was inferred for an element outside of bodies is known in both runs. -/
theorem targetType_agrees {target : NodeId} (htarget : env.Outer target) :
    Agrees env env.OpenType (targetType target) := by
  unfold targetType
  refine (element?_agrees htarget).bind fun id? hid => ?_
  split
  · rename_i id
    refine (inferred?_agrees (hid id rfl)).bind fun t? _ => .ite ?_ (typeOf_agrees htarget)
    exact (elementOf_agrees id).after (.pure (henv.types.type id))
  · exact typeOf_agrees htarget

theorem assignmentType_agrees {node target value : NodeId} (hn : env.Outer node)
    (htarget : env.Outer target) (hvalue : env.Outer value) (operator : TokenId) :
    Agrees env env.OpenType (assignmentType node target operator value) := by
  unfold assignmentType
  refine tree_agrees.after (.ite ((typeOf_agrees hvalue).bind fun type htype => ?_)
    (operatorResult_agrees henv hn htarget))
  exact (targetType_agrees henv htarget).bind fun target _ =>
    (assignableCheck_follows value type target).bind fun _ _ => .pure htype

/-- Of a type that may be missing is known that it is open. -/
abbrev Env.OpenEach (env : Env) (t? : Option StaticType) : Prop := ∀ t ∈ t?, env.OpenType t

theorem identifierType?_agrees {node : NodeId} (hn : env.Outer node) :
    Agrees env env.OpenEach (identifierType? node) := by
  unfold identifierType?
  refine (type?_agrees hn).bind fun known hknown => (element?_agrees hn).bind fun id? hid => ?_
  split
  · rename_i id
    refine (kindOf_agrees id).after ?_
    split
    iterate 4 exact .pure fun _ ht => absurd ht (Option.not_mem_none _)
    refine (referenceType_agrees henv (hid id rfl)).bind fun type htype => .pure fun t ht => ?_
    exact Option.some.inj ht ▸ htype
  · exact .pure hknown

omit henv in
theorem receiverOf_agrees (place : Place) {type : Element → StaticType}
    (htype : ∀ id, env.OpenType (type (env.graph.element id))) :
    Agrees env env.OpenType (receiverOf place type) := by
  unfold receiverOf
  split
  · exact .ite (.pure trivial) ((elementOf_agrees _).after (.pure (htype _)))
  · exact .pure trivial

omit henv in
theorem applyType_agrees {function : NodeId} (hfunction : env.Outer function) :
    Agrees env env.OpenType (applyType function) := by
  unfold applyType
  refine (typeOf_agrees hfunction).bind fun type htype => ?_
  split
  · exact .pure (StaticType.over_function.1 htype).1
  · exact (report_follows function _ _).bind fun _ _ => .pure trivial
  · exact .pure trivial
  · exact .pure trivial

theorem expressionType?_agrees (place : Place) {node : NodeId} {e : Expression}
    (hn : env.Outer node) (hkind : env.unit.tree.kind node = .expression e) :
    Agrees env env.OpenEach (expressionType? place node e) := by
  have hchild {c : NodeId} (hc : c ∈ (Node.Kind.expression e).children)
      (hbody : (Node.Kind.expression e).hasBody c = false) : env.Outer c :=
    henv.child hn hkind hc hbody
  have hsome {type : StaticType} (htype : env.OpenType type) : env.OpenEach (some type) := by
    intro t ht
    exact Option.some.inj ht ▸ htype
  have hgiven {x : Resolving StaticType} (hx : Agrees env env.OpenType x) :
      Agrees env env.OpenEach (do return some (← x)) := hx.bind fun _ htype => .pure (hsome htype)
  unfold expressionType?
  refine .ask (fun _ => rfl) ?_
  cases e with
  | integer => exact .pure (hsome ⟨henv.core.intClass, trivial⟩)
  | double => exact .pure (hsome ⟨henv.core.doubleClass, trivial⟩)
  | boolean | isTest => exact .pure (hsome ⟨henv.core.boolClass, trivial⟩)
  | null | throws | rethrows => exact .pure (hsome trivial)
  | string | interpolation | adjacent => exact .pure (hsome ⟨henv.core.stringClass, trivial⟩)
  | list const? arguments? left elements right =>
    refine (typeArguments_agrees henv fun list hlist =>
      hchild (by simp [Option.mem_def.1 hlist]) rfl).bind fun types htypes => ?_
    refine .pure (hsome ⟨henv.core.listClass, StaticType.over_getD fun t ht => ?_, trivial⟩)
    exact htypes t (List.mem_of_getLast? ht)
  | map const? arguments? left entries right =>
    refine (typeArguments_agrees henv fun list hlist =>
      hchild (by simp [Option.mem_def.1 hlist]) rfl).bind fun types htypes => ?_
    have hat (i : Nat) : env.OpenType (types.getD i .dynamic) := by
      rw [List.getD_eq_getElem?_getD]
      exact StaticType.over_getD fun t ht => htypes t (List.mem_of_getElem? ht)
    exact .pure (hsome ⟨henv.core.mapClass, hat 0, hat 1, trivial⟩)
  | identifier => exact identifierType?_agrees henv hn
  | paren left inner right => exact hgiven (typeOf_agrees (hchild (by simp) rfl))
  | named label inner => exact hgiven (typeOf_agrees (hchild (by simp) rfl))
  | this => exact hgiven (receiverOf_agrees place henv.types.type)
  | super =>
    refine hgiven (receiverOf_agrees place fun id => StaticType.over_getD fun t ht => ?_)
    exact henv.types.supertypes id t (by simp [Element.supertypes, Option.mem_def.1 ht])
  | assign target operator value =>
    exact hgiven (assignmentType_agrees henv hn (hchild (by simp) rfl) (hchild (by simp) rfl) operator)
  | conditional condition question then' colon else' =>
    refine (conditionCheck_follows (hchild (by simp) rfl)).bind fun _ _ => ?_
    refine (typeOf_agrees (hchild (by simp) rfl)).bind fun a ha => ?_
    refine (typeOf_agrees (hchild (by simp) rfl)).bind fun b hb => ?_
    exact (leastUpperBound_agrees a b).after (.pure (hsome (henv.types.leastUpperBound henv.core ha hb)))
  | binary left operator right =>
    exact hgiven (binaryType_agrees henv hn (hchild (by simp) rfl) (hchild (by simp) rfl) operator)
  | unary operator operand => exact hgiven (unaryType_agrees henv hn (hchild (by simp) rfl) operator)
  | postUnary operand operator => exact hgiven (typeOf_agrees (hchild (by simp) rfl))
  | cast operand operator typeName => exact hgiven (typeOf_agrees (hchild (by simp) rfl))
  | apply function arguments => exact hgiven (applyType_agrees (hchild (by simp) rfl))
  | create keyword constructorName arguments =>
    dsimp only
    split
    · rename_i hname
      have hconstructor : env.Outer constructorName := hchild (by simp) rfl
      exact hgiven (typeOf_agrees (henv.child hconstructor hname List.mem_cons_self rfl))
    · exact .pure (hsome trivial)
  | cascade target sections => exact hgiven (typeOf_agrees (hchild (by simp) rfl))
  | closure =>
    refine (functionElement?_agrees node).bind fun id? _ => ?_
    split
    · exact (elementOf_agrees _).after (.pure (hsome (henv.types.type _)))
    · exact .pure (hsome trivial)
  | qualified | indexed | property | call => exact .pure fun _ ht => absurd ht (Option.not_mem_none _)

/-! ## Nodes -/

omit henv in
theorem isUntypedLocal_agrees (node : NodeId) (id : ElementId) :
    Agrees env (fun _ => True) (isUntypedLocal node id) := by
  unfold isUntypedLocal
  refine tree_agrees.after ?_
  split
  · exact (kindOf_agrees id).after .done
  · exact .done

omit henv in
theorem initialized_follows {initializer : NodeId} (hinitializer : env.Outer initializer)
    (node name : NodeId) : Follows env (initialized node name initializer) := by
  unfold initialized
  refine (declared?_agrees name).after ?_
  split
  · refine (typeOf_agrees hinitializer).bind fun value hvalue => (elementOf_agrees _).after ?_
    refine (assignableCheck_follows initializer value _).bind fun _ _ => ?_
    refine (isUntypedLocal_agrees node _).bind fun isLocal _ => .ite ?_ .done
    exact inferred_follows _ hvalue
  · exact .done

/-- Inference at a node outside of bodies. -/
theorem infer_follows (place : Place) {node : NodeId} (hn : env.Outer node) :
    Follows env (infer place node) := by
  have hchild {kind : Node.Kind} {c : NodeId} (hkind : env.unit.tree.kind node = kind)
      (hc : c ∈ kind.children) (hbody : kind.hasBody c = false) : env.Outer c :=
    henv.child hn hkind hc hbody
  unfold infer
  refine tree_agrees.after ?_
  split
  · rename_i hkind
    exact (expressionType?_agrees henv place hn hkind).bind fun type? htype =>
      .option_forM fun type hmem => setType_follows hn (htype type hmem)
  · exact conditionCheck_follows (hchild ‹_› (by simp) rfl)
  · exact conditionCheck_follows (hchild ‹_› (by simp) rfl)
  · exact conditionCheck_follows (hchild ‹_› (by simp) rfl)
  · exact conditionCheck_follows (hchild ‹_› (by simp) rfl)
  · refine .option_forM fun condition hcondition => conditionCheck_follows ?_
    exact hchild ‹_› (by simp [Option.mem_def.1 hcondition]) rfl
  · refine .option_forM fun expression hexpression => returnCheck_follows place ?_
    exact hchild ‹_› (by simp [Option.mem_def.1 hexpression]) rfl
  · exact returnCheck_follows place (hchild ‹_› (by simp) rfl)
  · exact initialized_follows (hchild ‹_› (by simp) rfl) _ _
  · refine (typeOf_agrees (hchild ‹_› (by simp) rfl)).bind fun value _ => ?_
    refine (typeOf_agrees (hchild ‹_› (by simp) rfl)).bind fun field _ => ?_
    exact assignableCheck_follows _ value field
  · exact .done

theorem bindExpression_follows {place : Place} (hplace : env.ShownPlace place) {node : NodeId}
    {e : Expression} (hn : env.Outer node) (hkind : env.unit.tree.kind node = .expression e) :
    Follows env (bindExpression place node e) := by
  have hchild {c : NodeId} (hc : c ∈ (Node.Kind.expression e).children)
      (hbody : (Node.Kind.expression e).hasBody c = false) : env.Outer c :=
    henv.child hn hkind hc hbody
  unfold bindExpression
  refine tree_agrees.after ?_
  cases e with
  | identifier => exact identifier_follows henv hplace hn hkind
  | qualified qualifier period name =>
    refine member_follows henv hn (hchild (by simp) rfl) (fun target htarget => ?_) _
    exact Option.some.inj htarget ▸ hchild (by simp) rfl
  | property target? operator name =>
    exact member_follows henv hn (hchild (by simp) rfl)
      (fun target htarget => hchild (by simp [Option.mem_def.1 htarget]) rfl) _
  | call target? period? name arguments =>
    have hname : env.Outer name := hchild (by simp) rfl
    exact .ite (member_follows henv hn hname
      (fun target htarget => hchild (by simp [Option.mem_def.1 htarget]) rfl) .call)
      (plainCall_follows hn hname)
  | indexed target? =>
    exact indexed_follows henv hn fun target htarget =>
      hchild (by simp [Option.mem_def.1 htarget]) rfl
  | binary left operator right => exact binaryOperator_follows henv hn (hchild (by simp) rfl) operator
  | unary operator operand => exact unaryOperator_follows henv hn (hchild (by simp) rfl) operator
  | postUnary operand operator => exact postfixed_follows henv hn (hchild (by simp) rfl) operator
  | assign target operator value =>
    dsimp only
    split
    · exact operatorMethod_follows henv hn (hchild (by simp) rfl) _
    · exact .done
  | create keyword constructorName arguments =>
    exact (element?_agrees (hchild (by simp) rfl)).bind fun id? hid =>
      .option_forM fun id hmem => setElement_follows hn (hid id hmem)
  | this | super => exact .ite (report_follows node _ _) .done
  | _ => exact .done

/-- Binding of a node outside of bodies. -/
theorem bind_follows {place : Place} (hplace : env.ShownPlace place) {node : NodeId}
    (hn : env.Outer node) : Follows env (bind place node) := by
  have hchild {kind : Node.Kind} {c : NodeId} (hkind : env.unit.tree.kind node = kind)
      (hc : c ∈ kind.children) (hbody : kind.hasBody c = false) : env.Outer c :=
    henv.child hn hkind hc hbody
  unfold bind
  refine tree_agrees.after ?_
  split
  · exact bindExpression_follows henv hplace hn ‹_›
  · refine constructorName_follows henv hn (hchild ‹_› (by simp) rfl) fun name hname => ?_
    exact hchild ‹_› (by simp [Option.mem_def.1 hname]) rfl
  · refine superCall_follows place hn fun name hname => ?_
    exact hchild ‹_› (by simp [Option.mem_def.1 hname]) rfl
  · exact initializedField_follows henv place (hchild ‹_› (by simp) rfl)
  · exact libraryUri_follows henv (hchild ‹_› (by simp) rfl)
  · exact libraryUri_follows henv (hchild ‹_› (by simp) rfl)
  · exact partUri_follows henv (hchild ‹_› (by simp) rfl)
  · exact .ite (report_follows node _ _) .done
  · exact .ite (report_follows node _ _) .done
  · rename_i hkind
    refine (declared?_agrees _).after ?_
    split
    · exact (kindOf_agrees _).after (.ite
        (define_follows _ (henv.variableNames _ _ _ _ hn hkind _ ‹_›)) .done)
    · exact .done
  · exact hierarchyCheck_follows _
  · exact extendsCheck_follows henv (hchild ‹_› (by simp) rfl)
  · exact .done

end References

end Binding

end DartAnalysis
