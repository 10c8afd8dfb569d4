/-
  Two runs side by side. A unit is resolved once with bodies and once without; the first state agrees
  with the second one if they differ in nothing but what was done inside bodies (`Related`): the meaning
  of nodes there, types of local variables that are declared there, and problems reported there. An
  action that takes such states to such states, with the same result, agrees with itself (`Agrees`). The
  rules follow the way actions are put together; what is known of a result is kept with them, because
  an element that may be a local variable of a body must not be asked for its inferred type.
-/
import DartAnalysis.Proofs.Binding.Effects
import DartAnalysis.Proofs.Program.Scope
import DartAnalysis.Proofs.StaticType.Classes
import DartAnalysis.Proofs.Tree.Bodies

namespace DartAnalysis

/-! ## Lists with something left out -/

/-- The second list is the first one without some of the items that satisfy `p`. -/
inductive Thinned {α : Type} (p : α → Prop) : List α → List α → Prop
  | nil : Thinned p [] []
  | keep {x : α} {xs ys : List α} (h : Thinned p xs ys) : Thinned p (x :: xs) (x :: ys)
  | drop {x : α} {xs ys : List α} (hx : p x) (h : Thinned p xs ys) : Thinned p (x :: xs) ys

namespace Thinned

variable {α : Type} {p : α → Prop} {xs ys xs' ys' : List α}

theorem refl (xs : List α) : Thinned p xs xs := by
  induction xs with
  | nil => exact .nil
  | cons x xs ih => exact .keep ih

theorem append (h : Thinned p xs ys) (h' : Thinned p xs' ys') :
    Thinned p (xs ++ xs') (ys ++ ys') := by
  induction h with
  | nil => exact h'
  | keep _ ih => exact .keep ih
  | drop hx _ ih => exact .drop hx ih

theorem of_forall (h : ∀ x ∈ xs, p x) : Thinned p xs [] := by
  induction xs with
  | nil => exact .nil
  | cons x xs ih =>
    exact .drop (h x List.mem_cons_self) (ih fun y hy => h y (List.mem_cons_of_mem x hy))

theorem mono {q : α → Prop} (h : Thinned p xs ys) (hpq : ∀ x, p x → q x) : Thinned q xs ys := by
  induction h with
  | nil => exact .nil
  | keep _ ih => exact .keep ih
  | drop hx _ ih => exact .drop (hpq _ hx) ih

theorem append_left (h : Thinned p xs ys) {more : List α} (hmore : ∀ x ∈ more, p x) :
    Thinned p (xs ++ more) ys := by
  simpa using h.append (.of_forall hmore)

end Thinned

theorem mem_of_mem_orElse {α : Type} {a? b? : Option α} {a : α} (h : a ∈ (a? <|> b?)) :
    a ∈ a? ∨ a ∈ b? := by
  cases a? with
  | none => exact .inr h
  | some _ => exact .inl h

namespace Annotations

variable (a : Annotations) (n m : NodeId)

theorem element?_setElement (id : ElementId) : (a.setElement n id).element? m =
    if n = m ∧ n < a.elements.size then some id else a.element? m := by
  unfold element? setElement
  rw [Array.getD_eq_getD_getElem?, Array.getD_eq_getD_getElem?, Array.getElem?_setIfInBounds]
  by_cases h : n = m
  · subst h
    by_cases hlt : n < a.elements.size <;> simp [hlt]
  · simp [h]

theorem type?_setType (type : StaticType) : (a.setType n type).type? m =
    if n = m ∧ n < a.types.size then some type else a.type? m := by
  unfold type? setType
  rw [Array.getD_eq_getD_getElem?, Array.getD_eq_getD_getElem?, Array.getElem?_setIfInBounds]
  by_cases h : n = m
  · subst h
    by_cases hlt : n < a.types.size <;> simp [hlt]
  · simp [h]

@[simp] theorem size_setElement (id : ElementId) :
    (a.setElement n id).elements.size = a.elements.size := by
  simp [setElement]

@[simp] theorem size_setType (type : StaticType) :
    (a.setType n type).types.size = a.types.size := by
  simp [setType]

end Annotations

namespace Binding

/-! ## What bodies hide -/

/-- Surroundings in which bodies are looked into, or are not. -/
def Env.looking (env : Env) (bodies : Bool) : Env := { env with bodies }

/-- A node inside a body. -/
def Env.Inner (env : Env) (n : NodeId) : Prop :=
  n ∈ env.unit.tree.below env.unit.tree.root ∧ env.unit.tree.isInBody n = true

/-- A node outside of bodies. -/
def Env.Outer (env : Env) (n : NodeId) : Prop :=
  n ∈ env.unit.tree.below env.unit.tree.root ∧ env.unit.tree.isInBody n = false

theorem Env.Outer.ne {env : Env} {n m : NodeId} (hn : env.Outer n) (hm : env.Inner m) : n ≠ m := by
  rintro rfl
  exact absurd (hn.2.symm.trans hm.2) Bool.false_ne_true

/-- A local variable that a body declares with an initializer; its type may be inferred there. -/
def Env.Hidden (env : Env) (id : ElementId) : Prop :=
  env.graph.kind id = .localVariable ∧ ∃ n name equals? initializer, env.Inner n ∧
    env.unit.tree.kind n = .variable name equals? (some initializer) ∧
    env.library.declaredAt? env.unit.source (env.unit.tree.offset name) = some id

def Env.Shown (env : Env) (id : ElementId) : Prop := ¬ env.Hidden id

/-- An element among whose children nothing is hidden. -/
def Env.Open (env : Env) (c : ElementId) : Prop := ∀ id ∈ (env.graph.element c).children, env.Shown id

/-- A type whose classes are open. -/
abbrev Env.OpenType (env : Env) (t : StaticType) : Prop := t.Over env.Open

theorem Env.shown_of_kind {env : Env} {id : ElementId} (h : env.graph.kind id ≠ .localVariable) :
    env.Shown id := fun hhidden => h hhidden.1

/-! ## Related states -/

/-- Nothing that is visible from the frames is hidden. -/
structure Env.Clear (env : Env) (f : Frame) : Prop where
  names : ∀ x ∈ f.names, env.Shown x.2
  labels : ∀ x ∈ f.labels, env.Shown x.2
  owner : ∀ c ∈ f.owner?, env.Open c

/-- A frame in which nothing is declared. -/
theorem Env.Clear.blank {env : Env} {isFunction : Bool} :
    env.Clear { isFunction } where
  names _ hx := absurd hx List.not_mem_nil
  labels _ hx := absurd hx List.not_mem_nil
  owner _ hc := absurd hc (Option.not_mem_none _)

/-- Outside of bodies both states know the same, inside of them the second one knows nothing. -/
structure Matches (env : Env) (s s' : State) : Prop where
  elements_size : s.annotations.elements.size = s'.annotations.elements.size
  types_size : s.annotations.types.size = s'.annotations.types.size
  element : ∀ n, env.Outer n → s.annotations.element? n = s'.annotations.element? n
  type : ∀ n, env.Outer n → s.annotations.type? n = s'.annotations.type? n
  silent : ∀ n, env.Inner n → s'.annotations.element? n = none ∧ s'.annotations.type? n = none
  shown : ∀ n, ∀ id ∈ s'.annotations.element? n, env.Shown id
  typed : ∀ n, ∀ t ∈ s'.annotations.type? n, env.OpenType t
  inferred : ∀ id, env.Shown id → s.inferred.lookup id = s'.inferred.lookup id
  inferred_typed : ∀ id, ∀ t ∈ s'.inferred.lookup id, env.OpenType t
  errors : Thinned (fun d => ∃ n, env.Inner n ∧ d.At env.unit n) s.errors.toList s'.errors.toList
  endless : s'.endless = true → s.endless = true

/-- The frames are the same too, and show nothing that is hidden. -/
structure Related (env : Env) (s s' : State) : Prop where
  agree : Matches env s s'
  frames : s.frames = s'.frames
  clear : ∀ f ∈ s'.frames, env.Clear f

/-- Run with and without bodies on related states, the action ends in related states with one result,
    of which something is known. -/
def Agrees {α : Type} (env : Env) (Q : α → Prop) (x : Resolving α) : Prop :=
  ∀ s s', Related env s s' → (x (env.looking true) s).1 = (x (env.looking false) s').1 ∧
    Q (x (env.looking false) s').1 ∧
    Related env (x (env.looking true) s).2 (x (env.looking false) s').2

/-- Nothing is known of the result. -/
abbrev Follows {α : Type} (env : Env) (x : Resolving α) : Prop := Agrees env (fun _ => True) x

/-- Of elements that were found is known that they are shown. -/
abbrev Env.ShownEach (env : Env) (id? : Option ElementId) : Prop := ∀ id ∈ id?, env.Shown id

namespace Agrees

variable {env : Env} {α β : Type} {P : α → Prop} {Q : β → Prop}

theorem pure {b : β} (hb : Q b) : Agrees env Q (Pure.pure b : Resolving β) :=
  fun _ _ h => ⟨rfl, hb, h⟩

theorem done : Follows env (Pure.pure b : Resolving β) := pure trivial

theorem bind {x : Resolving α} {f : α → Resolving β} (hx : Agrees env P x)
    (hf : ∀ a, P a → Agrees env Q (f a)) : Agrees env Q (x >>= f) := by
  intro s s' h
  obtain ⟨heq, hP, hrest⟩ := hx s s' h
  have hrun (env : Env) (s : State) : (x >>= f) env s = f (x env s).1 env (x env s).2 := rfl
  rw [hrun, hrun, heq]
  exact hf _ hP _ _ hrest

theorem weaken {Q' : β → Prop} {x : Resolving β} (hx : Agrees env Q' x) (h : ∀ b, Q' b → Q b) :
    Agrees env Q x := fun s s' hs => ⟨(hx s s' hs).1, h _ (hx s s' hs).2.1, (hx s s' hs).2.2⟩

/-- An action whose result does not depend on the state or on bodies. -/
theorem fixed {b : β} {x : Resolving β} (h : ∀ bodies s, x (env.looking bodies) s = (b, s)) :
    Agrees env (· = b) x := by
  intro s s' hs
  rw [h, h]
  exact ⟨rfl, rfl, hs⟩

/-- After such an action its result is known. -/
theorem after {a : α} {x : Resolving α} {f : α → Resolving β} (hx : Agrees env (· = a) x)
    (hf : Agrees env Q (f a)) : Agrees env Q (x >>= f) := hx.bind fun _ h => h ▸ hf

theorem ask {f : Env → Resolving β} (hf : ∀ bodies, f (env.looking bodies) = f env)
    (h : Agrees env Q (f env)) : Agrees env Q (MonadReader.read >>= f) := by
  intro s s' hs
  have hrun (bodies : Bool) (s : State) : (MonadReader.read >>= f) (env.looking bodies) s =
      f (env.looking bodies) (env.looking bodies) s := rfl
  rw [hrun, hrun, hf, hf]
  exact h s s' hs

theorem ite {c : Prop} [Decidable c] {x y : Resolving β} (hx : Agrees env Q x)
    (hy : Agrees env Q y) : Agrees env Q (if c then x else y) := by
  split
  · exact hx
  · exact hy

theorem forM {as : List α} {f : α → Resolving PUnit} (h : ∀ a ∈ as, Follows env (f a)) :
    Follows env (as.forM f) := by
  induction as with
  | nil => exact done
  | cons a as ih =>
    exact (h a List.mem_cons_self).bind fun _ _ => ih fun b hb => h b (List.mem_cons_of_mem a hb)

theorem array_forM {as : Array α} {f : α → Resolving PUnit} (h : ∀ a ∈ as, Follows env (f a)) :
    Follows env (as.forM f) := by
  obtain ⟨l⟩ := as
  rw [List.forM_toArray' l f rfl]
  exact forM fun a ha => h a (List.mem_toArray.2 ha)

theorem option_forM {a? : Option α} {f : α → Resolving PUnit} (h : ∀ a ∈ a?, Follows env (f a)) :
    Follows env (a?.forM f) := by
  cases a? with
  | none => exact done
  | some a => exact h a rfl

theorem mapM {as : List α} {f : α → Resolving β} (h : ∀ a ∈ as, Agrees env Q (f a)) :
    Agrees env (fun bs => ∀ b ∈ bs, Q b) (as.mapM f) := by
  induction as with
  | nil => exact pure fun _ hb => absurd hb List.not_mem_nil
  | cons a as ih =>
    rw [List.mapM_cons]
    refine (h a List.mem_cons_self).bind fun b hb => ?_
    refine (ih fun a' ha' => h a' (List.mem_cons_of_mem a ha')).bind fun bs hbs => pure fun b' hb' => ?_
    rcases List.mem_cons.1 hb' with rfl | hb'
    · exact hb
    · exact hbs b' hb'

/-- What is done with something of the state that is the same in both runs. -/
theorem fetch {f : State → Resolving β}
    (hf : ∀ s s', Related env s s' → f s = f s' ∧ Agrees env Q (f s')) :
    Agrees env Q (get >>= f) := by
  intro s s' h
  obtain ⟨heq, hf⟩ := hf s s' h
  have hrun (bodies : Bool) (s : State) :
      (get >>= f) (env.looking bodies) s = f s (env.looking bodies) s := rfl
  rw [hrun, hrun, heq]
  exact hf s s' h

end Agrees

/-! ## Reading -/

section Reading

variable {env : Env} {node : NodeId}

theorem tree_agrees : Agrees env (· = env.unit.tree) tree := .fixed fun _ _ => rfl

theorem graph_agrees : Agrees env (· = env.graph) graph := .fixed fun _ _ => rfl

theorem declared?_agrees (node : NodeId) : Agrees env
    (· = env.library.declaredAt? env.unit.source (env.unit.tree.offset node)) (declared? node) :=
  .fixed fun _ _ => rfl

theorem elementOf_agrees (id : ElementId) : Agrees env (· = env.graph.element id) (elementOf id) :=
  .fixed fun _ _ => rfl

theorem kindOf_agrees (id : ElementId) : Agrees env (· = env.graph.kind id) (kindOf id) :=
  .fixed fun _ _ => rfl

theorem display_agrees (t : StaticType) : Agrees env (· = env.graph.display t) (display t) :=
  .fixed fun _ _ => rfl

theorem receiver?_agrees (t : StaticType) :
    Agrees env (· = env.graph.receiver? env.core t) (receiver? t) := .fixed fun _ _ => rfl

theorem compared_agrees {α : Type} (answer? : Option α) (unending : α) :
    Agrees env (· = answer?.getD unending) (compared answer? unending) := by
  unfold compared
  cases answer? with
  | some answer => exact .pure rfl
  | none => exact fun s s' h => ⟨rfl, rfl, { h.agree with endless := fun _ => rfl }, h.frames, h.clear⟩

theorem isAssignable_agrees (a b : StaticType) :
    Agrees env (· = (env.graph.assignable? env.core a b).getD false) (isAssignable a b) :=
  .ask (fun _ => rfl) (compared_agrees _ _)

theorem leastUpperBound_agrees (a b : StaticType) :
    Agrees env (· = (env.graph.leastUpperBound? env.core a b).getD .dynamic) (leastUpperBound a b) :=
  .ask (fun _ => rfl) (compared_agrees _ _)

theorem member?_agrees (receiver : StaticType) (name : String) :
    Agrees env (· = env.graph.typedMember? env.core receiver name) (member? receiver name) :=
  .fixed fun _ _ => rfl

theorem setter?_agrees (receiver : StaticType) (name : String) :
    Agrees env (· = env.graph.typedSetter? env.core receiver name) (setter? receiver name) :=
  .fixed fun _ _ => rfl

theorem element?_agrees (hn : env.Outer node) : Agrees env env.ShownEach (element? node) :=
  fun _ _ h => ⟨h.agree.element node hn, h.agree.shown node, h⟩

theorem type?_agrees (hn : env.Outer node) :
    Agrees env (fun t? => ∀ t ∈ t?, env.OpenType t) (type? node) :=
  fun _ _ h => ⟨h.agree.type node hn, h.agree.typed node, h⟩

theorem typeOf_agrees (hn : env.Outer node) : Agrees env env.OpenType (typeOf node) :=
  (type?_agrees hn).bind fun _ ht => .pure (StaticType.over_getD ht)

theorem inferred?_agrees {id : ElementId} (hid : env.Shown id) :
    Agrees env (fun t? => ∀ t ∈ t?, env.OpenType t) (inferred? id) :=
  fun _ _ h => ⟨h.agree.inferred id hid, h.agree.inferred_typed id, h⟩

/-- What is found in the frames is shown, if members of open classes are. -/
theorem shown_of_lookup? {memberOf? : ElementId → String → Option ElementId} {name : String}
    (hmember : ∀ c, env.Open c → ∀ id ∈ memberOf? c name, env.Shown id) {frames : Frames}
    (hclear : ∀ f ∈ frames, env.Clear f) : ∀ id ∈ frames.lookup? memberOf? name, env.Shown id := by
  intro id hid
  induction frames with
  | nil => cases hid
  | cons f fs ih =>
    have hf := hclear f List.mem_cons_self
    rcases mem_of_mem_orElse hid with hid | hid
    · exact hf.names _ (mem_of_lookup_eq_some hid)
    rcases mem_of_mem_orElse hid with hid | hid
    · obtain ⟨c, hc, hid⟩ := Option.bind_eq_some_iff.1 hid
      exact hmember c (hf.owner c hc) id hid
    · exact ih (fun f hf => hclear f (List.mem_cons_of_mem _ hf)) hid

theorem shown_of_local? {frames : Frames} (hclear : ∀ f ∈ frames, env.Clear f) {name : String} :
    ∀ id ∈ frames.local? name, env.Shown id :=
  shown_of_lookup? (fun _ _ _ h => absurd h (Option.not_mem_none _)) hclear

theorem shown_of_label? {frames : Frames} (hclear : ∀ f ∈ frames, env.Clear f) {name : String} :
    ∀ id ∈ frames.label? name, env.Shown id := by
  intro id hid
  induction frames with
  | nil => cases hid
  | cons f fs ih =>
    rcases mem_of_mem_orElse hid with hid | hid
    · exact (hclear f List.mem_cons_self).labels _ (mem_of_lookup_eq_some hid)
    · split at hid
      · cases hid
      · exact ih (fun f hf => hclear f (List.mem_cons_of_mem _ hf)) hid

end Reading

/-! ## Effects -/

section Effects

variable {env : Env} {node : NodeId}

theorem Matches.setElement {s s' : State} (h : Matches env s s') (hn : env.Outer node)
    {id : ElementId} (hid : env.Shown id) :
    Matches env { s with annotations := s.annotations.setElement node id }
      { s' with annotations := s'.annotations.setElement node id } :=
  { h with
    elements_size := by simpa using h.elements_size
    element := fun n hinner => by
      rw [Annotations.element?_setElement, Annotations.element?_setElement, h.elements_size,
        h.element n hinner]
    silent := fun n hinner => by
      rw [Annotations.element?_setElement, if_neg fun heq => hn.ne hinner heq.1]
      exact h.silent n hinner
    shown := fun n e he => by
      rw [Annotations.element?_setElement] at he
      split at he
      · exact Option.some.inj he ▸ hid
      · exact h.shown n e he }

theorem Matches.setType {s s' : State} (h : Matches env s s') (hn : env.Outer node)
    {type : StaticType} (htype : env.OpenType type) :
    Matches env { s with annotations := s.annotations.setType node type }
      { s' with annotations := s'.annotations.setType node type } :=
  { h with
    types_size := by simpa using h.types_size
    type := fun n hinner => by
      rw [Annotations.type?_setType, Annotations.type?_setType, h.types_size, h.type n hinner]
    silent := fun n hinner => by
      rw [Annotations.type?_setType, if_neg fun heq => hn.ne hinner heq.1]
      exact h.silent n hinner
    typed := fun n t ht => by
      rw [Annotations.type?_setType] at ht
      split at ht
      · exact Option.some.inj ht ▸ htype
      · exact h.typed n t ht }

theorem setElement_follows (hn : env.Outer node) {id : ElementId} (hid : env.Shown id) :
    Follows env (setElement node id) :=
  fun _ _ h => ⟨rfl, trivial, h.agree.setElement hn hid, h.frames, h.clear⟩

theorem setType_follows (hn : env.Outer node) {type : StaticType} (htype : env.OpenType type) :
    Follows env (setType node type) :=
  fun _ _ h => ⟨rfl, trivial, h.agree.setType hn htype, h.frames, h.clear⟩

/-- What is reported in one run is reported in the other. -/
theorem errors_follow (more : Array Diagnostic) :
    Follows env (modify fun s => { s with errors := s.errors ++ more } : Resolving PUnit) := by
  intro s s' h
  refine ⟨rfl, trivial, { h.agree with errors := ?_ }, h.frames, h.clear⟩
  show Thinned _ (s.errors ++ more).toList (s'.errors ++ more).toList
  rw [Array.toList_append, Array.toList_append]
  exact h.agree.errors.append (.refl _)

theorem report_follows (node : NodeId) (code : Diagnostic.Code) (args : List String) :
    Follows env (report node code args) := by
  intro s s' h
  refine ⟨rfl, trivial, { h.agree with errors := ?_ }, h.frames, h.clear⟩
  show Thinned _ (s.errors.push _).toList (s'.errors.push _).toList
  rw [Array.toList_push, Array.toList_push]
  exact h.agree.errors.append (.refl _)

/-- A type is inferred in both runs. -/
theorem inferred_follows (id : ElementId) {type : StaticType} (htype : env.OpenType type) :
    Follows env (modify fun s => { s with inferred := (id, type) :: s.inferred } :
      Resolving PUnit) := by
  intro s s' h
  refine ⟨rfl, trivial, { h.agree with inferred := ?_, inferred_typed := ?_ }, h.frames, h.clear⟩
  · intro e he
    show List.lookup e ((id, type) :: s.inferred) = List.lookup e ((id, type) :: s'.inferred)
    rw [List.lookup_cons, List.lookup_cons, h.agree.inferred e he]
  · intro e t ht
    have ht : List.lookup e ((id, type) :: s'.inferred) = some t := ht
    rw [List.lookup_cons] at ht
    split at ht
    · exact Option.some.inj ht ▸ htype
    · exact h.agree.inferred_typed e t ht

theorem Env.Clear.define {f : Frame} (hf : env.Clear f) (name : String) {id : ElementId}
    (hid : env.Shown id) : env.Clear { f with names := (name, id) :: f.names } where
  names x hx := by
    rcases List.mem_cons.1 hx with rfl | hx
    · exact hid
    · exact hf.names x hx
  labels := hf.labels
  owner := hf.owner

theorem Env.Clear.defineLabel {f : Frame} (hf : env.Clear f) (name : String) {id : ElementId}
    (hid : env.Shown id) : env.Clear { f with labels := (name, id) :: f.labels } where
  names := hf.names
  labels x hx := by
    rcases List.mem_cons.1 hx with rfl | hx
    · exact hid
    · exact hf.labels x hx
  owner := hf.owner

/-- The innermost frame is changed in both runs. -/
theorem frames_follow {f : Frames → Frames}
    (hf : ∀ frames : Frames, (∀ frame ∈ frames, env.Clear frame) → ∀ frame ∈ f frames, env.Clear frame) :
    Follows env (modify fun s => { s with frames := f s.frames } : Resolving PUnit) := by
  intro s s' h
  exact ⟨rfl, trivial, { h.agree with }, congrArg f h.frames, hf _ h.clear⟩

theorem define_follows (name : String) {id : ElementId} (hid : env.Shown id) :
    Follows env (define name id) := by
  refine frames_follow fun frames hclear => ?_
  cases frames with
  | nil => exact hclear
  | cons f fs =>
    intro frame hframe
    rcases List.mem_cons.1 hframe with rfl | hframe
    · exact (hclear f List.mem_cons_self).define name hid
    · exact hclear frame (List.mem_cons_of_mem f hframe)

theorem defineLabel_follows (name : String) {id : ElementId} (hid : env.Shown id) :
    Follows env (defineLabel name id) := by
  refine frames_follow fun frames hclear => ?_
  cases frames with
  | nil => exact hclear
  | cons f fs =>
    intro frame hframe
    rcases List.mem_cons.1 hframe with rfl | hframe
    · exact (hclear f List.mem_cons_self).defineLabel name hid
    · exact hclear frame (List.mem_cons_of_mem f hframe)

theorem inFrame_follows {frame : Frame} (hframe : env.Clear frame) {action : Resolving Unit}
    (h : Follows env action) : Follows env (inFrame frame action) := by
  refine (frames_follow (f := (frame :: ·)) fun frames hclear => ?_).bind fun _ _ =>
    h.bind fun _ _ => frames_follow (f := List.tail) fun frames hclear => ?_
  · intro f hf
    rcases List.mem_cons.1 hf with rfl | hf
    · exact hframe
    · exact hclear f hf
  · exact fun f hf => hclear f (List.mem_of_mem_tail hf)

/-! ### Bodies in the first run -/

/-- What happens inside bodies in the first run leaves it in agreement with the second one. -/
theorem Matches.allows (s' : State) :
    Allows (env.looking true) env.Inner fun s => Matches env s s' where
  frames s frames h := { h with }
  endless s _ h := { h with endless := fun _ => rfl }
  element s n id hn h :=
    { h with
      elements_size := by simpa using h.elements_size
      element := fun m hm => by
        rw [Annotations.element?_setElement, if_neg fun heq => hm.ne hn heq.1.symm]
        exact h.element m hm }
  type s n type hn h :=
    { h with
      types_size := by simpa using h.types_size
      type := fun m hm => by
        rw [Annotations.type?_setType, if_neg fun heq => hm.ne hn heq.1.symm]
        exact h.type m hm }
  errors s more hmore h :=
    { h with
      errors := by
        show Thinned _ (s.errors ++ more).toList _
        rw [Array.toList_append]
        refine h.errors.append_left fun d hd => ?_
        obtain ⟨n, hn, hreport⟩ := hmore d (Array.mem_toList_iff.1 hd)
        exact ⟨n, hn, hreport.at_node⟩ }
  inferred s n name equals? initializer id type hn hkind hdeclared hlocal h :=
    { h with
      inferred := fun e he => by
        have hne : e ≠ id := by
          rintro rfl
          exact he ⟨hlocal, n, name, equals?, initializer, hn, hkind, hdeclared⟩
        show List.lookup e ((id, type) :: s.inferred) = _
        rw [List.lookup_cons, beq_false_of_ne hne]
        exact h.inferred e he }

end Effects

end Binding

end DartAnalysis
