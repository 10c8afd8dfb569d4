/-
  Resolving bodies is a conservative extension. Outside of bodies a node is visited alike with bodies
  and without; the bodies of an executable come last in it, when the run that looks into them has done
  what the other run does (`executable_follows`). What is done there concerns nodes and local variables of
  bodies alone. Main statement: if nothing is seen from outside that is hidden in a body, a unit that is
  resolved with bodies knows the same outside of them as one that is resolved without (`resolve_matches`).
-/
import DartAnalysis.Proofs.Binding.Outside

namespace DartAnalysis

namespace Binding

section Walk

attribute [local simp] Node.Kind.children Node.Kind.fields Declaration.fields Statement.fields
  SwitchMember.fields Expression.fields Field.children

variable {env : Env} (henv : env.Sealed)
include henv

/-! ## Type names -/

theorem constructorClass?_agrees {node : NodeId} (hn : env.Outer node) :
    Agrees env (fun found? => ∀ found ∈ found?, env.Outer found.1 ∧ env.Shown found.2 ∧
      env.Open found.2) (constructorClass? node) := by
  have hnone : Agrees env (fun found? : Option (NodeId × ElementId) => ∀ found ∈ found?,
      env.Outer found.1 ∧ env.Shown found.2 ∧ env.Open found.2) (return none) :=
    .pure fun _ hfound => absurd hfound (Option.not_mem_none _)
  unfold constructorClass?
  refine tree_agrees.after ?_
  split
  · rename_i hkind
    have hbelow := henv.child hn hkind List.mem_cons_self rfl
    split
    · rename_i hkind
      refine .ask (fun _ => rfl) (.ite hnone ((lookupType?_agrees henv _).bind fun id? hid => ?_))
      split
      · rename_i id
        refine (kindOf_agrees id).after ?_
        split
        · rename_i hclass
          refine .pure fun found hfound => ?_
          obtain rfl := Option.some.inj hfound
          exact ⟨henv.child hbelow hkind List.mem_cons_self rfl, hid id rfl,
            henv.classes id (beq_iff_eq.1 hclass)⟩
        · exact hnone
      · exact hnone
    · exact hnone
  · exact hnone

theorem typeName_follows {node : NodeId} (hn : env.Outer node) : Follows env (typeName node) := by
  unfold typeName
  refine (constructorClass?_agrees henv hn).bind fun found? hfound => ?_
  split
  · rename_i qualifier id
    obtain ⟨hqualifier, hshown, hopen⟩ := hfound _ rfl
    refine (elementOf_agrees id).after ((setElement_follows hqualifier hshown).bind fun _ _ => ?_)
    refine setType_follows hn (StaticType.over_interface.2 ⟨hopen, fun t ht => ?_⟩)
    obtain ⟨_, -, rfl⟩ := List.mem_map.1 ht
    trivial
  · refine .ask (fun _ => rfl) (.fetch fun s s' h => ⟨by rw [h.frames], ?_⟩)
    have hspreads : env.unit.tree.SpreadsOutside fun n => env.Outer n := fun n hn c hc hbody =>
      henv.child hn rfl hc hbody
    have hbelow := @TypeNames.read_below ⟨env.graph, env.scope, env.unit⟩ _ hspreads
      (fun name => s'.frames.local? name) node hn
    obtain ⟨-, hfit⟩ := TypeNames.read_fits henv.fits (fun _ => shown_of_local? h.clear) node
    refine (Agrees.array_forM fun x hx =>
      setElement_follows (hbelow.elements x hx) (hfit.elements x hx)).bind fun _ _ => ?_
    refine (Agrees.array_forM fun x hx =>
      setType_follows (hbelow.types x hx) (hfit.types x hx)).bind fun _ _ => ?_
    exact errors_follow _

/-! ## The walk -/

omit henv in
/-- What happens after an action in the same frame, in the run that looks into bodies alone. -/
theorem inFrame_extended {frame : Frame} (hframe : env.Clear frame) {action more x : Resolving Unit}
    (haction : Follows env action)
    (hmore : ∀ s' outer, Does (env.looking true) (fun s => Matches env s s') outer more)
    (hwith : x (env.looking true) = inFrame frame (do action; more) (env.looking true))
    (hwithout : x (env.looking false) = inFrame frame action (env.looking false)) :
    Follows env x := by
  intro s s' h
  have hframes : env.Clear frame ∧ s.frames = s'.frames := ⟨hframe, h.frames⟩
  obtain ⟨-, -, hpushed⟩ := frames_follow (f := (frame :: ·)) (fun frames hclear f hf =>
    (List.mem_cons.1 hf).elim (fun heq => heq ▸ hframe) (hclear f)) s s' h
  obtain ⟨-, -, hdone⟩ := haction _ _ hpushed
  obtain ⟨hmatches, htail⟩ := hmore _ _ _ ⟨hdone.agree, rfl⟩
  rw [hwith, hwithout]
  refine ⟨rfl, trivial, { hmatches with }, ?_, fun f hf => hdone.clear f (List.mem_of_mem_tail hf)⟩
  exact htail.trans (congrArg List.tail hdone.frames)

/-- Something that is visited agrees with itself outside of bodies, and keeps to bodies within them. -/
structure Visits (env : Env) (visit : Visit) : Prop where
  outside : ∀ place n, env.ShownPlace place → env.Outer n → Follows env (visit place n)
  within : ∀ s', Behaves (env.looking true) env.Inner (fun s => Matches env s s') visit

variable {visit : Visit} (hvisit : Visits env visit) {place : Place} (hplace : env.ShownPlace place)
include hvisit hplace

omit henv in
theorem visitAll_follows {nodes : List NodeId} (hnodes : ∀ n ∈ nodes, env.Outer n) :
    Follows env (visitAll visit place nodes) :=
  .forM fun n hn => hvisit.outside place n hplace (hnodes n hn)

omit hplace in
theorem classBody_follows {node name : NodeId} (hn : env.Outer node)
    (hbody : ∀ c, (env.unit.tree.kind node).hasBody c = false)
    (howner : ∀ id ∈ env.library.declaredAt? env.unit.source (env.unit.tree.offset name),
      env.Shown id ∧ env.Open id) : Follows env (classBody visit node name) := by
  unfold classBody
  refine (declared?_agrees name).after (graph_agrees.after ?_)
  dsimp only
  have howner : env.Shown ((env.library.declaredAt? env.unit.source
      (env.unit.tree.offset name)).getD .error) ∧ env.Open ((env.library.declaredAt? env.unit.source
      (env.unit.tree.offset name)).getD .error) := by
    cases hid : env.library.declaredAt? env.unit.source (env.unit.tree.offset name) with
    | none => exact ⟨shown_error, open_error⟩
    | some id => exact howner id hid
  refine inFrame_follows ⟨fun x hx => ?_, fun x hx => absurd hx List.not_mem_nil, fun c hc => ?_⟩
    (tree_agrees.after (visitAll_follows hvisit (fun id hid => ?_) fun c hc => ?_))
  · obtain ⟨p, hp, rfl⟩ := List.mem_map.1 (List.mem_reverse.1 hx)
    exact henv.parameters _ p hp
  · exact Option.some.inj hc ▸ howner.2
  · exact Option.some.inj hid ▸ howner.1
  · exact henv.child hn rfl hc (hbody c)

/-- The bodies come last among the children. -/
theorem executable_follows {node : NodeId} (hn : env.Outer node) {isBody : NodeId → Bool}
    (hbody : ∀ c, isBody c = (env.unit.tree.kind node).hasBody c) :
    Follows env (executable visit place node isBody) := by
  obtain rfl : isBody = (env.unit.tree.kind node).hasBody := funext hbody
  let children := env.unit.tree.children node
  let hasBody := (env.unit.tree.kind node).hasBody
  refine @inFrame_extended env { isFunction := true } .blank
    (visitAll visit place (children.filter fun c => !hasBody c))
    (visitAll visit place (children.filter hasBody)) _
    (visitAll_follows hvisit hplace fun c hc => ?_) (fun s' outer => ?_) ?_ rfl
  · obtain ⟨hc, hnot⟩ := List.mem_filter.1 hc
    exact henv.child hn rfl hc (by simpa using hnot)
  · refine visitAll_does (hvisit.within s') place fun c hc => ?_
    obtain ⟨hc, hin⟩ := List.mem_filter.1 hc
    refine ⟨Tree.mem_below_snoc henv.owned hn.1 hc, ?_⟩
    rw [Tree.isInBody_of_child henv.owned hc, show (env.unit.tree.kind node).hasBody c = true from hin,
      Bool.true_or]
  · have hsplit : children.filter (fun c => true || !hasBody c) =
        children.filter (fun c => !hasBody c) ++ children.filter hasBody := by
      refine (List.filter_eq_self.2 fun _ _ => rfl).trans ?_
      exact Node.Kind.bodies_last (henv.owned.children_nodup node)
    have hforM : visitAll visit place (children.filter fun c => true || !hasBody c) = (do
        visitAll visit place (children.filter fun c => !hasBody c)
        visitAll visit place (children.filter hasBody)) := by
      rw [hsplit]
      exact List.forM_append
    exact congrArg (fun x => inFrame { isFunction := true } x (env.looking true)) hforM

omit henv in
theorem loop_follows {node : NodeId} (body : NodeId)
    (hchildren : ∀ c ∈ env.unit.tree.children node, env.Outer c) :
    Follows env (loop visit place node body) := by
  refine tree_agrees.after (.forM fun c hc => hvisit.outside _ c ?_ (hchildren c hc))
  split
  · exact hplace
  · exact hplace

omit henv in
theorem inFrame_visitAll_follows {nodes : List NodeId} (hnodes : ∀ n ∈ nodes, env.Outer n) :
    Follows env (inFrame {} (visitAll visit place nodes)) :=
  inFrame_follows .blank (visitAll_follows hvisit hplace hnodes)

theorem switchBody_follows {members : List NodeId} (hmembers : ∀ m ∈ members, env.Outer m) :
    Follows env (switchBody visit place members) := by
  unfold switchBody
  refine tree_agrees.after (inFrame_follows .blank ((Agrees.forM fun label hlabel => ?_).bind
    fun _ _ => @visitAll_follows env visit hvisit { place with inSwitch := true } hplace _ hmembers))
  obtain ⟨m, hm, hlabel⟩ := List.mem_flatMap.1 hlabel
  have houter : env.Outer label := by
    unfold memberLabels at hlabel
    split at hlabel
    · exact henv.child (hmembers m hm) ‹_› (by simp [hlabel]) rfl
    · exact henv.child (hmembers m hm) ‹_› (by simp [hlabel]) rfl
    · cases hlabel
  split
  · rename_i hkind
    exact (declared?_agrees _).after (.option_forM fun id hid =>
      defineLabel_follows _ (henv.labelNames _ _ _ houter hkind id hid))
  · exact .done

omit henv in
theorem switchMember_follows {node : NodeId} (statements : List NodeId)
    (hchildren : ∀ c ∈ env.unit.tree.children node, env.Outer c) :
    Follows env (switchMember visit place node statements) := by
  have hsome {p : NodeId → Bool} (c : NodeId) (hc : c ∈ (env.unit.tree.children node).filter p) :
      env.Outer c := hchildren c (List.mem_of_mem_filter hc)
  unfold switchMember
  exact tree_agrees.after ((visitAll_follows hvisit hplace hsome).bind fun _ _ =>
    inFrame_visitAll_follows hvisit hplace hsome)

theorem inside_follows {node : NodeId} (hn : env.Outer node) :
    Follows env (inside visit place node) := by
  have hchild {kind : Node.Kind} {c : NodeId} (hkind : env.unit.tree.kind node = kind)
      (hc : c ∈ kind.children) (hbody : kind.hasBody c = false) : env.Outer c :=
    henv.child hn hkind hc hbody
  have hchildren {kind : Node.Kind} (hkind : env.unit.tree.kind node = kind)
      (hbody : ∀ c, kind.hasBody c = false) : ∀ c ∈ env.unit.tree.children node, env.Outer c :=
    fun c hc => henv.child hn rfl hc (hkind ▸ hbody c)
  have hexecutable (function? : Option ElementId) (inStatic : Bool) {isBody : NodeId → Bool}
      (hbody : ∀ c, isBody c = (env.unit.tree.kind node).hasBody c) :
      Follows env (executable visit (place.inFunction function? inStatic) node isBody) :=
    @executable_follows env henv visit hvisit (place.inFunction function? inStatic) hplace node hn isBody hbody
  unfold inside
  refine tree_agrees.after ?_
  split
  · rename_i hkind
    exact classBody_follows henv hvisit hn (fun c => by rw [hkind]; rfl)
      (henv.classNames _ _ _ _ _ _ _ _ _ _ _ _ hn hkind)
  · rename_i hkind
    exact (declared?_agrees _).after (hexecutable _ _ fun c => by rw [hkind]; rfl)
  · rename_i hkind
    exact (declared?_agrees _).after (hexecutable _ _ fun c => by rw [hkind]; rfl)
  · rename_i hkind
    exact (functionElement?_agrees node).bind fun _ _ =>
      hexecutable _ _ fun c => by rw [hkind]; rfl
  · rename_i hkind
    exact inFrame_visitAll_follows hvisit hplace (hchildren hkind fun _ => rfl)
  · rename_i hkind
    exact inFrame_visitAll_follows hvisit hplace (hchildren hkind fun _ => rfl)
  · rename_i hkind
    exact inFrame_visitAll_follows hvisit hplace (hchildren hkind fun _ => rfl)
  · rename_i hkind
    exact inFrame_follows .blank (loop_follows hvisit hplace _ (hchildren hkind fun _ => rfl))
  · rename_i hkind
    exact loop_follows hvisit hplace _ (hchildren hkind fun _ => rfl)
  · rename_i hkind
    exact loop_follows hvisit hplace _ (hchildren hkind fun _ => rfl)
  · rename_i hkind
    refine (hvisit.outside place _ hplace (hchild hkind (by simp) rfl)).bind fun _ _ =>
      inFrame_follows .blank ?_
    exact (hvisit.outside place _ hplace (hchild hkind (by simp) rfl)).bind fun _ _ =>
      hvisit.outside _ _ hplace (hchild hkind (by simp) rfl)
  · rename_i hkind
    refine (hvisit.outside place _ hplace (hchild hkind (by simp) rfl)).bind fun _ _ => ?_
    exact switchBody_follows henv hvisit hplace fun m hm => hchild hkind (by simp [hm]) rfl
  · rename_i hkind
    exact switchMember_follows hvisit hplace _ (hchildren hkind fun _ => rfl)
  · rename_i hkind
    exact switchMember_follows hvisit hplace _ (hchildren hkind fun _ => rfl)
  · rename_i _ hmethod hconstructor hclosure _ _ _ _ _ _ _ _ _ _
    refine visitAll_follows hvisit hplace fun c hc => henv.child hn rfl hc ?_
    refine Bool.eq_false_iff.2 fun hbody => ?_
    rcases Node.Kind.exists_of_hasBody hbody with
      ⟨_, _, _, _, _, _, _, _, _, hkind⟩ | ⟨_, _, _, _, _, _, _, _, _, _, _, hkind⟩ | ⟨_, _, hkind⟩
    · exact hmethod _ _ _ _ _ _ _ _ _ hkind
    · exact hconstructor _ _ _ _ _ _ _ _ _ _ _ hkind
    · exact hclosure _ _ hkind

omit hvisit hplace in
/-- To any depth. -/
theorem visits (depth : Nat) : Visits env (visitTo depth) where
  outside := by
    induction depth with
    | zero => exact fun _ _ _ _ => .done
    | succ depth ih =>
      intro place n hplace hn
      rw [visitTo]
      refine tree_agrees.after ?_
      split
      · exact .done
      · exact .done
      · exact typeName_follows henv hn
      · have hvisit : Visits env (visitTo depth) := ⟨ih, fun s' => visitTo_does (Matches.allows s')
          henv.spreads depth⟩
        exact (inside_follows henv hvisit hplace hn).bind fun _ _ =>
          (bind_follows henv hplace hn).bind fun _ _ => infer_follows henv place hn
  within s' := visitTo_does (Matches.allows s') henv.spreads depth

omit hvisit hplace in
/-- Outside of bodies a unit that is resolved with bodies knows what it knows without them; inside of
    them it knows nothing without them; and what is reported without bodies is reported with them. -/
theorem resolve_matches {start : State} (hframes : ∀ f ∈ start.frames, env.Clear f)
    (hstart : Matches env start start) :
    Matches env (resolve (env.looking true) start).2 (resolve (env.looking false) start).2 := by
  have hfollows : Follows env resolve := by
    unfold resolve
    exact tree_agrees.after ((visits henv _).outside {} _
      (fun _ hid => absurd hid (Option.not_mem_none _)) ⟨Tree.mem_below_self henv.owned _, henv.root⟩)
  exact (hfollows start start ⟨hstart, rfl, hframes⟩).2.2.agree

end Walk

end Binding

end DartAnalysis
