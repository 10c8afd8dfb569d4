/-
  The classes that a type is made of. If the declared types of a graph are made of classes of some sort
  alone (`Graph.Over`), so are all types that come of them: supertypes, receivers, the types of members,
  least upper bounds. What is found on such a type is declared by a class of that sort
  (`Over.typedMember?`).
-/
import DartAnalysis.Proofs.StaticType.Comparison

namespace DartAnalysis

namespace StaticType

variable (p : ElementId → Prop)

mutual
/-- Every class in the type is of a sort. -/
def Over : StaticType → Prop
  | .interface c arguments => p c ∧ OverEach arguments
  | .function result required positional named =>
    Over result ∧ OverEach required ∧ OverEach positional ∧ OverNamed named
  | .dynamic | .void | .bottom | .error | .parameter _ => True

def OverEach : List StaticType → Prop
  | [] => True
  | t :: ts => Over t ∧ OverEach ts

def OverNamed : List (String × StaticType) → Prop
  | [] => True
  | (_, t) :: ts => Over t ∧ OverNamed ts
end

variable {p}

mutual
def decideOver [DecidablePred p] : ∀ t : StaticType, Decidable (Over p t)
  | .interface c arguments =>
    have := decideOverEach arguments
    inferInstanceAs (Decidable (p c ∧ OverEach p arguments))
  | .function result required positional named =>
    have := decideOver result
    have := decideOverEach required
    have := decideOverEach positional
    have := decideOverNamed named
    inferInstanceAs (Decidable (Over p result ∧ OverEach p required ∧ OverEach p positional ∧
      OverNamed p named))
  | .dynamic | .void | .bottom | .error | .parameter _ => isTrue trivial

def decideOverEach [DecidablePred p] : ∀ ts : List StaticType, Decidable (OverEach p ts)
  | [] => isTrue trivial
  | t :: ts =>
    have := decideOver t
    have := decideOverEach ts
    inferInstanceAs (Decidable (Over p t ∧ OverEach p ts))

def decideOverNamed [DecidablePred p] : ∀ ts : List (String × StaticType), Decidable (OverNamed p ts)
  | [] => isTrue trivial
  | (_, t) :: ts =>
    have := decideOver t
    have := decideOverNamed ts
    inferInstanceAs (Decidable (Over p t ∧ OverNamed p ts))
end

instance [DecidablePred p] : DecidablePred (Over p) := decideOver

theorem overEach_iff {ts : List StaticType} : OverEach p ts ↔ ∀ t ∈ ts, t.Over p := by
  induction ts with
  | nil => simp [OverEach]
  | cons t ts ih => simp [OverEach, ih]

theorem overNamed_iff {ts : List (String × StaticType)} : OverNamed p ts ↔ ∀ t ∈ ts, t.2.Over p := by
  induction ts with
  | nil => simp [OverNamed]
  | cons t ts ih => simp [OverNamed, ih]

theorem over_interface {c : ElementId} {arguments : List StaticType} :
    (interface c arguments).Over p ↔ p c ∧ ∀ t ∈ arguments, t.Over p := by
  rw [Over, overEach_iff]

theorem over_function {result : StaticType} {required positional : List StaticType}
    {named : List (String × StaticType)} :
    (function result required positional named).Over p ↔
      result.Over p ∧ (∀ t ∈ required, t.Over p) ∧ (∀ t ∈ positional, t.Over p) ∧
        ∀ t ∈ named, t.2.Over p := by
  rw [Over, overEach_iff, overEach_iff, overNamed_iff]

theorem Over.class? {t : StaticType} (h : t.Over p) : ∀ c ∈ t.class?, p c := by
  intro c hc
  cases t with
  | interface d arguments =>
    obtain rfl := Option.some.inj hc
    exact (over_interface.1 h).1
  | _ => cases hc

theorem Over.result? {t : StaticType} (h : t.Over p) : ∀ u ∈ t.result?, u.Over p := by
  intro u hu
  cases t with
  | function result required positional named =>
    obtain rfl := Option.some.inj hu
    exact (over_function.1 h).1
  | _ => cases hu

theorem Over.firstParameter? {t : StaticType} (h : t.Over p) : ∀ u ∈ t.firstParameter?, u.Over p := by
  intro u hu
  cases t with
  | function result required positional named =>
    obtain ⟨-, hrequired, hpositional, hnamed⟩ := over_function.1 h
    cases required with
    | cons t ts =>
      obtain rfl := Option.some.inj hu
      exact hrequired _ List.mem_cons_self
    | nil =>
      cases positional with
      | cons t ts =>
        obtain rfl := Option.some.inj hu
        exact hpositional _ List.mem_cons_self
      | nil =>
        cases named with
        | cons e es =>
          obtain rfl := Option.some.inj hu
          exact hnamed _ List.mem_cons_self
        | nil => cases hu
  | _ => cases hu

theorem over_getD {t? : Option StaticType} (h : ∀ t ∈ t?, t.Over p) : (t?.getD .dynamic).Over p := by
  cases t? with
  | none => trivial
  | some t => exact h t rfl

mutual
/-- A sort may be widened. -/
theorem Over.mono {q : ElementId → Prop} (hpq : ∀ c, p c → q c) :
    ∀ {t : StaticType}, t.Over p → t.Over q
  | .interface _ _, h => ⟨hpq _ h.1, OverEach.mono hpq h.2⟩
  | .function _ _ _ _, h =>
    ⟨h.1.mono hpq, OverEach.mono hpq h.2.1, OverEach.mono hpq h.2.2.1, OverNamed.mono hpq h.2.2.2⟩
  | .dynamic, _ | .void, _ | .bottom, _ | .error, _ | .parameter _, _ => trivial

theorem OverEach.mono {q : ElementId → Prop} (hpq : ∀ c, p c → q c) :
    ∀ {ts : List StaticType}, OverEach p ts → OverEach q ts
  | [], _ => trivial
  | _ :: _, h => ⟨h.1.mono hpq, OverEach.mono hpq h.2⟩

theorem OverNamed.mono {q : ElementId → Prop} (hpq : ∀ c, p c → q c) :
    ∀ {ts : List (String × StaticType)}, OverNamed p ts → OverNamed q ts
  | [], _ => trivial
  | (_, _) :: _, h => ⟨h.1.mono hpq, OverNamed.mono hpq h.2⟩
end

mutual
theorem Over.replace {f : ElementId → StaticType} (hf : ∀ q, (f q).Over p) :
    ∀ t : StaticType, t.Over p → (t.replace f).Over p
  | .interface c arguments, h => by
    rw [StaticType.replace]
    exact ⟨h.1, Over.replaceEach hf arguments h.2⟩
  | .function result required positional named, h => by
    rw [StaticType.replace]
    exact ⟨Over.replace hf result h.1, Over.replaceEach hf required h.2.1,
      Over.replaceEach hf positional h.2.2.1, Over.replaceNamed hf named h.2.2.2⟩
  | .parameter q, _ => by
    rw [StaticType.replace]
    exact hf q
  | .dynamic, _ | .void, _ | .bottom, _ | .error, _ => by
    rw [StaticType.replace]
    trivial

theorem Over.replaceEach {f : ElementId → StaticType} (hf : ∀ q, (f q).Over p) :
    ∀ ts : List StaticType, OverEach p ts → OverEach p (replaceEach f ts)
  | [], _ => trivial
  | t :: ts, h => ⟨Over.replace hf t h.1, Over.replaceEach hf ts h.2⟩

theorem Over.replaceNamed {f : ElementId → StaticType} (hf : ∀ q, (f q).Over p) :
    ∀ ts : List (String × StaticType), OverNamed p ts → OverNamed p (replaceNamed f ts)
  | [], _ => trivial
  | (_, t) :: ts, h => ⟨Over.replace hf t h.1, Over.replaceNamed hf ts h.2⟩
end

theorem Over.substitute {t : StaticType} (h : t.Over p) (parameters : List ElementId)
    {arguments : List StaticType} (harguments : ∀ a ∈ arguments, a.Over p) :
    (t.substitute parameters arguments).Over p := by
  refine Over.replace (fun q => ?_) t h
  unfold argumentOf
  split
  · rw [List.getD_eq_getElem?_getD]
    exact over_getD fun a ha => harguments a (List.mem_of_getElem? ha)
  · trivial

end StaticType

/-- The class and the arguments are made of classes of a sort. -/
def Interface.Over (p : ElementId → Prop) (i : Interface) : Prop := i.toType.Over p

/-- The core classes are of a sort. -/
structure CoreTypes.Over (p : ElementId → Prop) (core : CoreTypes) : Prop where
  objectClass : p core.objectClass
  boolClass : p core.boolClass
  numClass : p core.numClass
  intClass : p core.intClass
  doubleClass : p core.doubleClass
  stringClass : p core.stringClass
  stackTraceClass : p core.stackTraceClass
  typeClass : p core.typeClass
  listClass : p core.listClass
  mapClass : p core.mapClass

theorem CoreTypes.Over.mono {p q : ElementId → Prop} {core : CoreTypes} (h : core.Over p)
    (hpq : ∀ c, p c → q c) : core.Over q :=
  ⟨hpq _ h.objectClass, hpq _ h.boolClass, hpq _ h.numClass, hpq _ h.intClass, hpq _ h.doubleClass,
    hpq _ h.stringClass, hpq _ h.stackTraceClass, hpq _ h.typeClass, hpq _ h.listClass, hpq _ h.mapClass⟩

namespace Element

/-- The declared types of an element are made of classes of a sort, and its supertypes are classes that
    are applied to such types. -/
structure TypesOver (p : ElementId → Prop) (e : Element) : Prop where
  type : e.type.Over p
  supertypes : ∀ t ∈ e.supertypes, t.isInterface = true ∧ t.Over p
  bound : ∀ t ∈ e.bound?, t.Over p

theorem TypesOver.mono {p q : ElementId → Prop} {e : Element} (h : e.TypesOver p)
    (hpq : ∀ c, p c → q c) : e.TypesOver q where
  type := h.type.mono hpq
  supertypes t ht := ⟨(h.supertypes t ht).1, (h.supertypes t ht).2.mono hpq⟩
  bound t ht := (h.bound t ht).mono hpq

instance decidableTypesOver (p : ElementId → Prop) [DecidablePred p] (e : Element) :
    Decidable (e.TypesOver p) :=
  decidable_of_iff (e.type.Over p ∧ (∀ t ∈ e.supertypes, t.isInterface = true ∧ t.Over p) ∧
      ∀ t ∈ e.bound?, t.Over p)
    ⟨fun h => ⟨h.1, h.2.1, h.2.2⟩, fun h => ⟨h.type, h.supertypes, h.bound⟩⟩

end Element

/-- The declared types of all elements are made of classes of a sort. -/
def Library.TypesOver (p : ElementId → Prop) (l : Library) : Prop :=
  ∀ (i : Nat) (e : Element), l.elements[i]? = some e → e.TypesOver p

theorem Library.TypesOver.of_elements {p : ElementId → Prop} {l : Library}
    (h : ∀ e ∈ l.elements.toList, e.TypesOver p) : l.TypesOver p :=
  fun _ e he => h e (Array.mem_toList_iff.2 (Array.mem_of_getElem? he))

theorem Library.TypesOver.mono {p q : ElementId → Prop} {l : Library} (h : l.TypesOver p)
    (hpq : ∀ c, p c → q c) : l.TypesOver q := fun i e he => (h i e he).mono hpq

/-- An id of another library stands for an element without a type. -/
theorem Library.TypesOver.element {p : ElementId → Prop} {l : Library} (h : l.TypesOver p)
    (id : ElementId) : (l.element id).TypesOver p := by
  have hother : Element.error.TypesOver p := ⟨trivial, nofun, nofun⟩
  cases id with
  | dynamic | error => exact hother
  | declared library index =>
    show ((if library = l.id then l.elements[index]? else none).getD .error).TypesOver p
    split
    · cases he : l.elements[index]? with
      | none => exact hother
      | some e => exact h index e he
    · exact hother

namespace Graph

/-- The declared types are made of classes of a sort. -/
structure Over (p : ElementId → Prop) (g : Graph) : Prop where
  type : ∀ id, (g.element id).type.Over p
  supertypes : ∀ id, ∀ t ∈ (g.element id).supertypes, t.Over p
  bound : ∀ id, ∀ t ∈ (g.element id).bound?, t.Over p

/-- An element of a graph is one of a library, or stands for what is not there. -/
theorem element_cases (g : Graph) (id : ElementId) :
    g.element id = .dynamic ∨ g.element id = .error ∨
      ∃ l ∈ g.libraries, ∃ i, id = l.idAt i ∧ l.elements[i]? = some (g.element id) := by
  cases id with
  | dynamic => exact .inl rfl
  | error => exact .inr (.inl rfl)
  | declared library index =>
    have helement : g.element (.declared library index) =
        ((g.library? library).bind (·.elements[index]?)).getD .error := rfl
    rw [helement]
    cases hlibrary : g.library? library with
    | none => exact .inr (.inl rfl)
    | some l =>
      obtain ⟨hl, hid⟩ := Option.mem_filter_iff.1 hlibrary
      rw [Option.bind_some]
      cases he : l.elements[index]? with
      | none => exact .inr (.inl rfl)
      | some e =>
        refine .inr (.inr ⟨l, List.mem_of_find?_eq_some hl, index, ?_, he⟩)
        rw [Library.idAt, eq_of_beq hid]

theorem typesOver_of_libraries {p : ElementId → Prop} {g : Graph}
    (h : ∀ l ∈ g.libraries, l.TypesOver p) (id : ElementId) : (g.element id).TypesOver p := by
  rcases g.element_cases id with hid | hid | ⟨l, hl, i, -, he⟩
  · rw [hid]
    exact ⟨trivial, nofun, nofun⟩
  · rw [hid]
    exact ⟨trivial, nofun, nofun⟩
  · exact h l hl i _ he

/-- What the types of the libraries are made of. -/
theorem Over.of_libraries {p : ElementId → Prop} {g : Graph} (h : ∀ l ∈ g.libraries, l.TypesOver p) :
    g.Over p :=
  ⟨fun id => (typesOver_of_libraries h id).type,
    fun id t ht => ((typesOver_of_libraries h id).supertypes t ht).2,
    fun id => (typesOver_of_libraries h id).bound⟩

namespace Over

variable {p : ElementId → Prop} {g : Graph} (h : g.Over p)
include h

theorem superclasses (c : ElementId) : ∀ d ∈ g.superclasses c, p d := by
  intro d hd
  obtain ⟨t, ht, hclass⟩ := List.mem_filterMap.1 hd
  exact (h.supertypes c t ht).class? d hclass

theorem allSuperclasses (c : ElementId) : ∀ d ∈ g.allSuperclasses c, p d := by
  -- Nothing is asked of the class itself, which the search starts from and does not find.
  intro d hd
  unfold Graph.allSuperclasses at hd
  rw [search] at hd
  have hfound : ∀ e ∈ unseen (fun c => c) [c] (g.superclasses c), p e := fun e he =>
    h.superclasses c e (mem_of_mem_unseen he)
  rcases List.mem_append.1 hd with hd | hd
  · exact hfound d hd
  · exact forall_mem_search (fun e _ => h.superclasses e) hfound d hd

omit h in
theorem specialize {i : Interface} (hi : i.Over p) {t : StaticType} (ht : t.Over p) :
    (g.specialize i t).Over p :=
  ht.substitute _ (StaticType.over_interface.1 hi).2

theorem directSupertypes {i : Interface} (hi : i.Over p) : ∀ j ∈ g.directSupertypes i, j.Over p := by
  intro j hj
  obtain ⟨t, ht, hof⟩ := List.mem_filterMap.1 hj
  have hspecial := specialize (g := g) hi (h.supertypes i.element t ht)
  cases hs : g.specialize i t with
  | interface d arguments =>
    rw [hs] at hof hspecial
    obtain rfl := Option.some.inj hof
    exact hspecial
  | _ => rw [hs] at hof; cases hof

theorem supertypes_of {i : Interface} (hi : i.Over p) : ∀ j ∈ g.supertypes i, j.Over p :=
  forall_mem_search (fun _ => h.directSupertypes) fun _ hj => List.mem_singleton.1 hj ▸ hi

theorem asInstanceOf? {i : Interface} (hi : i.Over p) (owner : ElementId) :
    ∀ j ∈ g.asInstanceOf? i owner, j.Over p := by
  intro j hj
  unfold Graph.asInstanceOf? at hj
  split at hj
  · obtain rfl := Option.some.inj hj
    exact hi
  · exact h.supertypes_of hi j (List.mem_of_find?_eq_some hj)

theorem candidates {i : Interface} (hi : i.Over p) : ∀ j ∈ g.candidates i, j.Over p := by
  intro j hj
  rcases List.mem_cons.1 hj with rfl | hj
  · exact hi
  · exact h.supertypes_of hi j hj

theorem memberType {m : TypedMember} (hm : m.owner.Over p) : (g.memberType m).Over p :=
  specialize hm (h.type m.element)

theorem readType {m : TypedMember} (hm : m.owner.Over p) : (g.readType m).Over p := by
  unfold Graph.readType
  split
  · exact StaticType.over_getD (h.memberType hm).result?
  · exact h.memberType hm

theorem writeType {m : TypedMember} (hm : m.owner.Over p) : (g.writeType m).Over p := by
  unfold Graph.writeType
  split
  · exact StaticType.over_getD (h.memberType hm).firstParameter?
  · exact h.memberType hm

variable {core : CoreTypes} (hcore : core.Over p)
include hcore

theorem receiver? {t : StaticType} (ht : t.Over p) : ∀ i ∈ g.receiver? core t, i.Over p := by
  have hobject : core.objectInterface.Over p := ⟨hcore.objectClass, trivial⟩
  have hto : ∀ steps t, t.Over p → ∀ i ∈ g.receiverTo core steps t, i.Over p := by
    intro steps
    induction steps with
    | zero =>
      intro t ht i hi
      cases t with
      | interface c arguments =>
        obtain rfl := Option.some.inj hi
        exact ht
      | function | parameter =>
        obtain rfl := Option.some.inj hi
        exact hobject
      | _ => cases hi
    | succ steps ih =>
      intro t ht i hi
      cases t with
      | interface c arguments =>
        obtain rfl := Option.some.inj hi
        exact ht
      | function =>
        obtain rfl := Option.some.inj hi
        exact hobject
      | parameter q =>
        refine ih _ ?_ i hi
        cases hbound : (g.element q).bound? with
        | none => exact hobject
        | some b => exact h.bound q b hbound
      | _ => cases hi
  exact hto _ t ht

/-- A member that is found on a type is a child of a class of the sort. -/
theorem typedMember? {t : StaticType} (ht : t.Over p) {name : String} :
    ∀ m ∈ g.typedMember? core t name,
      m.owner.Over p ∧ g.declaredMember? m.owner.element name = some m.element := by
  intro m hm
  obtain ⟨i, hi, hm⟩ := Option.bind_eq_some_iff.1 hm
  obtain ⟨owner, howner, hm⟩ := List.exists_of_findSome?_eq_some hm
  obtain ⟨id, hid, rfl⟩ := Option.map_eq_some_iff.1 hm
  exact ⟨h.candidates (h.receiver? hcore ht i hi) owner howner, hid⟩

theorem typedSetter? {t : StaticType} (ht : t.Over p) {name : String} :
    ∀ m ∈ g.typedSetter? core t name,
      m.owner.Over p ∧ g.declaredSetter? m.owner.element name = some m.element := by
  intro m hm
  obtain ⟨i, hi, hm⟩ := Option.bind_eq_some_iff.1 hm
  obtain ⟨owner, howner, hm⟩ := List.exists_of_findSome?_eq_some hm
  obtain ⟨id, hid, rfl⟩ := Option.map_eq_some_iff.1 hm
  exact ⟨h.candidates (h.receiver? hcore ht i hi) owner howner, hid⟩

theorem leastUpperBound {a b : StaticType} (ha : a.Over p) (hb : b.Over p) :
    (g.leastUpperBound core a b).Over p := by
  refine StaticType.over_getD fun t ht => ?_
  unfold Graph.leastUpperBound? at ht
  split at ht
  · obtain rfl := Option.some.inj ht
    trivial
  obtain ⟨below, -, ht⟩ := Option.bind_eq_some_iff.1 ht
  split at ht
  · obtain rfl := Option.some.inj ht
    exact hb
  obtain ⟨above, -, ht⟩ := Option.bind_eq_some_iff.1 ht
  split at ht
  · obtain rfl := Option.some.inj ht
    exact ha
  split at ht
  · rename_i i j hi _
    obtain ⟨shared?, hshared, ht⟩ := Option.bind_eq_some_iff.1 ht
    obtain rfl := Option.some.inj ht
    refine StaticType.over_getD fun t ht => ?_
    obtain rfl := Option.mem_def.1 ht
    obtain ⟨j, hj, rfl⟩ := List.mem_map.1 (of_findM? hshared).1
    exact h.supertypes_of (h.receiver? hcore ha i hi) j hj
  · obtain rfl := Option.some.inj ht
    trivial

end Over

end Graph

end DartAnalysis
