/-
  Looking up members on a class and on a type. The hierarchy of a class is searched breadth first, and
  so is that of a class applied to type arguments; a class is met once in either search. The searches
  end because they run out of classes and not of steps: what they return is exactly what the class
  inherits from (`mem_allSuperclasses`), each class once (`allSuperclasses_nodup`), also where the
  hierarchy is cyclic. Where all declared supertypes are classes, the applied search is the plain one
  with arguments (`map_search`), so that both find the same members (`member_lookups_agree`).
-/
import Mathlib
import DartAnalysis.Proofs.StaticType.Comparison

namespace DartAnalysis

/-! ## Two searches side by side -/

section Simulation

variable {α β κ : Type} [BEq κ] {key : α → κ} {key' : β → κ} {f : α → β}

theorem map_unseen (hkey : ∀ x, key' (f x) = key x) (seen : List κ) (xs : List α) :
    (unseen key seen xs).map f = unseen key' seen (xs.map f) := by
  induction xs generalizing seen with
  | nil => rfl
  | cons x xs ih =>
    rw [unseen, List.map_cons, unseen, hkey]
    split
    · exact ih seen
    · rw [List.map_cons, ih]

/-- A search whose items have images under which it becomes another search finds the images of what
    the other one finds. It is enough that this goes for items of a sort that it does not leave. -/
theorem map_search {next : α → List α} {next' : β → List β} {P : α → Prop}
    (hkey : ∀ x, key' (f x) = key x) (hkept : ∀ x, P x → ∀ y ∈ next x, P y)
    (hnext : ∀ x, P x → (next x).map f = next' (f x)) (steps : Nat) (queue : List α) (seen : List κ)
    (hqueue : ∀ x ∈ queue, P x) :
    (search key next steps queue seen).map f = search key' next' steps (queue.map f) seen := by
  induction steps generalizing queue seen with
  | zero => rfl
  | succ steps ih =>
    cases queue with
    | nil => rfl
    | cons x queue =>
      have hx : P x := hqueue x List.mem_cons_self
      have hfound : (unseen key seen (next x)).map f = unseen key' seen (next' (f x)) := by
        rw [map_unseen hkey, hnext x hx]
      have hkeys : (unseen key' seen (next' (f x))).map key' = (unseen key seen (next x)).map key := by
        rw [← hfound, List.map_map]
        exact List.map_congr_left fun y _ => hkey y
      have hrest : ∀ y ∈ queue ++ unseen key seen (next x), P y := by
        intro y hy
        rcases List.mem_append.1 hy with hy | hy
        · exact hqueue y (List.mem_cons_of_mem x hy)
        · exact hkept x hx y (Graph.mem_of_mem_unseen hy)
      rw [search, List.map_cons, search, List.map_append, ih _ _ hrest, List.map_append, hfound, hkeys]

end Simulation

/-! ## What a search finds -/

section Exactness

variable {α κ : Type} [BEq κ] [LawfulBEq κ] (key : α → κ)

theorem key_mem_or_unseen {seen : List κ} {xs : List α} {x : α} (hx : x ∈ xs) :
    key x ∈ seen ∨ key x ∈ (unseen key seen xs).map key := by
  induction xs generalizing seen with
  | nil => cases hx
  | cons y ys ih =>
    rw [unseen]
    split
    · rename_i hy
      rcases List.mem_cons.1 hx with rfl | hx
      · exact .inl (List.contains_iff_mem.1 hy)
      · exact ih hx
    · rw [List.map_cons]
      rcases List.mem_cons.1 hx with rfl | hx
      · exact .inr List.mem_cons_self
      · rcases @ih (seen ++ [key y]) hx with hseen | hfound
        · rcases List.mem_append.1 hseen with hseen | hseen
          · exact .inl hseen
          · exact .inr (List.mem_singleton.1 hseen ▸ List.mem_cons_self)
        · exact .inr (List.mem_cons_of_mem _ hfound)

/-- Each key is found once, and none that was seen before. -/
theorem nodup_unseen (seen : List κ) (xs : List α) :
    ((unseen key seen xs).map key).Nodup ∧ ∀ k ∈ (unseen key seen xs).map key, k ∉ seen := by
  induction xs generalizing seen with
  | nil => exact ⟨List.nodup_nil, fun _ h => absurd h List.not_mem_nil⟩
  | cons x xs ih =>
    rw [unseen]
    split
    · exact ih seen
    · rename_i hx
      obtain ⟨hnodup, hnew⟩ := ih (seen ++ [key x])
      rw [List.map_cons]
      refine ⟨List.nodup_cons.2 ⟨fun hmem => hnew _ hmem (by simp), hnodup⟩, fun k hk => ?_⟩
      rcases List.mem_cons.1 hk with rfl | hk
      · exact fun hseen => hx (List.contains_iff_mem.2 hseen)
      · exact fun hseen => hnew k hk (List.mem_append_left _ hseen)

theorem nodup_search (next : α → List α) (steps : Nat) (queue : List α) (seen : List κ) :
    ((search key next steps queue seen).map key).Nodup ∧
      ∀ k ∈ (search key next steps queue seen).map key, k ∉ seen := by
  induction steps generalizing queue seen with
  | zero => exact ⟨List.nodup_nil, fun _ h => absurd h List.not_mem_nil⟩
  | succ steps ih =>
    cases queue with
    | nil => exact ⟨List.nodup_nil, fun _ h => absurd h List.not_mem_nil⟩
    | cons x queue =>
      obtain ⟨hnodup, hnew⟩ := nodup_unseen key seen (next x)
      obtain ⟨hrest, hrestNew⟩ := ih (queue ++ unseen key seen (next x))
        (seen ++ (unseen key seen (next x)).map key)
      rw [search, List.map_append]
      refine ⟨List.nodup_append'.2 ⟨hnodup, hrest, fun k hk hk' => ?_⟩, fun k hk => ?_⟩
      · exact hrestNew k hk' (List.mem_append_right _ hk)
      · rcases List.mem_append.1 hk with hk | hk
        · exact hnew k hk
        · exact fun hseen => hrestNew k hk (List.mem_append_left _ hseen)

/-- How many of all keys were not seen. -/
def roomIn (all : List κ) (seen : List κ) : Nat := all.countP fun k => !seen.contains k

/-- New keys take room. -/
theorem roomIn_append {all seen more : List κ} (hmore : ∀ k ∈ more, k ∈ all)
    (hnodup : more.Nodup) (hnew : ∀ k ∈ more, k ∉ seen) :
    more.length + roomIn all (seen ++ more) ≤ roomIn all seen := by
  have hcount : more.length ≤ all.countP fun k => more.contains k := by
    rw [List.countP_eq_length_filter]
    refine (List.subperm_of_subset hnodup fun k hk => ?_).length_le
    exact List.mem_filter.2 ⟨hmore k hk, List.contains_iff_mem.2 hk⟩
  have hsplit : roomIn all (seen ++ more) + (all.countP fun k => more.contains k) ≤
      roomIn all seen := by
    unfold roomIn
    clear hmore hcount
    induction all with
    | nil => simp
    | cons u us ih =>
      have hu : u ∈ more → u ∉ seen := hnew u
      simp only [List.countP_cons, List.contains_eq_mem, List.mem_append, Bool.decide_or,
        Bool.not_or] at ih ⊢
      by_cases hmem : u ∈ more
      · simp [hmem, hu hmem]
        omega
      · by_cases hseen : u ∈ seen
        · simp [hmem, hseen]
          omega
        · simp [hmem, hseen]
          omega
  omega

/-- With a step for each item of the queue and each key that is left, nothing is missed: all that
    comes next after an item was seen or is found. -/
theorem search_complete {next : α → List α} {all : List κ}
    (hall : ∀ x, ∀ y ∈ next x, key y ∈ all) {steps : Nat} {queue : List α} {seen : List κ}
    (hsteps : queue.length + roomIn all seen ≤ steps) :
    ∀ x ∈ queue ++ search key next steps queue seen, ∀ y ∈ next x,
      key y ∈ seen ++ (search key next steps queue seen).map key := by
  induction steps generalizing queue seen with
  | zero =>
    obtain rfl := List.eq_nil_of_length_eq_zero (by omega : queue.length = 0)
    intro x hx
    cases hx
  | succ steps ih =>
    cases queue with
    | nil =>
      intro x hx
      cases hx
    | cons x queue =>
      have hfound := nodup_unseen key seen (next x)
      generalize hnew : unseen key seen (next x) = new at hfound
      have hroom : (new.map key).length + roomIn all (seen ++ new.map key) ≤
          roomIn all seen := by
        refine roomIn_append (fun k hk => ?_) hfound.1 hfound.2
        obtain ⟨y, hy, rfl⟩ := List.mem_map.1 hk
        exact hall x y (Graph.mem_of_mem_unseen (hnew ▸ hy))
      have hrest := @ih (queue ++ new) (seen ++ new.map key) (by
        simp only [List.length_append, List.length_cons, List.length_map] at hsteps hroom ⊢
        omega)
      rw [search, hnew, List.map_append]
      intro y hy z hz
      rcases List.mem_cons.1 hy with rfl | hy
      · rcases @key_mem_or_unseen _ _ _ _ key seen _ _ hz with hseen | hunseen
        · exact List.mem_append_left _ hseen
        · rw [hnew] at hunseen
          exact List.mem_append_right _ (List.mem_append_left _ hunseen)
      · rw [← List.append_assoc]
        exact hrest y (by rwa [List.append_assoc]) z hz

end Exactness

namespace Graph

variable (g : Graph)

/-! ## The classes that a class inherits from -/

/-- The classes that are superclasses of any class. -/
def inherited : List ElementId :=
  (g.libraries.flatMap fun l => l.elements.toList.flatMap Element.supertypes).filterMap
    StaticType.class?

theorem superclasses_subset (c : ElementId) : ∀ d ∈ g.superclasses c, d ∈ g.inherited := by
  refine g.forall_element (P := fun e => ∀ d ∈ e.supertypes.filterMap StaticType.class?,
    d ∈ g.inherited) (fun _ h => absurd h List.not_mem_nil)
    (fun _ h => absurd h List.not_mem_nil) (fun l hl e he d hd => ?_) c
  obtain ⟨t, ht, hclass⟩ := List.mem_filterMap.1 hd
  exact List.mem_filterMap.2
    ⟨t, List.mem_flatMap.2 ⟨l, hl, List.mem_flatMap.2 ⟨e, he, ht⟩⟩, hclass⟩

/-- One class is a declared superclass of the other. -/
def Extends (c d : ElementId) : Prop := d ∈ g.superclasses c

/-- A search for superclasses has the steps that it needs. -/
theorem room_le_steps (c : ElementId) :
    [c].length + roomIn g.inherited [c] ≤ g.supertypeCount + 1 := by
  have hroom : roomIn g.inherited [c] ≤ g.supertypeCount :=
    Nat.le_trans List.countP_le_length (List.length_filterMap_le _ _)
  rw [List.length_singleton]
  omega

/-- Nothing that a class inherits from is missed, however the hierarchy is shaped. -/
theorem mem_allSuperclasses (c d : ElementId) :
    d ∈ g.allSuperclasses c ↔ d ≠ c ∧ Relation.ReflTransGen g.Extends c d := by
  have hcomplete := search_complete (fun c => c) g.superclasses_subset (g.room_le_steps c)
  have hnew := (nodup_search (fun c => c) g.superclasses (g.supertypeCount + 1) [c] [c]).2
  rw [List.map_id'] at hcomplete hnew
  constructor
  · intro hd
    refine ⟨fun heq => hnew d hd (heq ▸ List.mem_singleton_self c), ?_⟩
    refine forall_mem_search (P := Relation.ReflTransGen g.Extends c) (fun a ha b hb => ha.tail hb)
      (fun a ha => ?_) d hd
    rw [List.mem_singleton.1 ha]
  · rintro ⟨hne, hpath⟩
    have hreached : ∀ e, Relation.ReflTransGen g.Extends c e → e ∈ [c] ++ g.allSuperclasses c := by
      intro e hpath
      induction hpath with
      | refl => exact List.mem_append_left _ (List.mem_singleton_self c)
      | tail _ hstep ih => exact hcomplete _ ih _ hstep
    exact (List.mem_append.1 (hreached d hpath)).resolve_left fun h => hne (List.mem_singleton.1 h)

theorem allSuperclasses_nodup (c : ElementId) : (g.allSuperclasses c).Nodup := by
  have hnodup := (nodup_search (fun c => c) g.superclasses (g.supertypeCount + 1) [c] [c]).1
  rwa [List.map_id'] at hnodup

/-! ## Applied classes -/

/-- All that classes extend, mix in or implement are classes. -/
def InheritsClasses : Prop :=
  ∀ l ∈ g.libraries, ∀ e ∈ l.elements.toList, ∀ t ∈ e.supertypes, t.isInterface = true

section InheritsClasses

variable {g} (h : g.InheritsClasses)
include h

theorem InheritsClasses.element (id : ElementId) :
    ∀ t ∈ (g.element id).supertypes, t.isInterface = true :=
  g.forall_element (P := fun e => ∀ t ∈ e.supertypes, t.isInterface = true)
    (fun _ h => absurd h List.not_mem_nil) (fun _ h => absurd h List.not_mem_nil) h id

/-- Arguments change nothing about which classes the direct supertypes are. -/
theorem InheritsClasses.directSupertypes (i : Interface) :
    (g.directSupertypes i).map Interface.element = g.superclasses i.element := by
  unfold Graph.directSupertypes superclasses
  rw [List.map_filterMap]
  refine List.filterMap_congr fun t ht => ?_
  cases t with
  | interface c arguments => rfl
  | _ => exact absurd (h.element i.element _ ht) Bool.false_ne_true

theorem InheritsClasses.supertypes (i : Interface) :
    (g.supertypes i).map Interface.element = g.allSuperclasses i.element :=
  @map_search _ _ _ _ _ (fun c => c) _ _ _ (fun _ => True) (fun _ => rfl) (fun _ _ _ _ => trivial)
    (fun i _ => h.directSupertypes i) _ _ _ fun _ _ => trivial

theorem InheritsClasses.candidates (i : Interface) :
    (g.candidates i).map Interface.element = i.element :: g.allSuperclasses i.element :=
  congrArg (i.element :: ·) (h.supertypes i)

end InheritsClasses

/-- The first candidate that declares a member is the first class that does. -/
theorem map_element_findSome? (find : ElementId → Option ElementId) (is : List Interface) :
    (is.findSome? fun i => (find i.element).map fun id => (⟨id, i⟩ : TypedMember)).map
        TypedMember.element = (is.map Interface.element).findSome? find := by
  induction is with
  | nil => rfl
  | cons i is ih =>
    rw [List.map_cons, List.findSome?_cons, List.findSome?_cons]
    cases find i.element with
    | none => exact ih
    | some id => rfl

/-- A class and the type that applies it to arguments inherit from the same classes in the same order,
    and have the same members and setters. -/
theorem member_lookups_agree (core : CoreTypes) (h : g.InheritsClasses) (c : ElementId)
    (arguments : List StaticType) (name : String) :
    (g.supertypes ⟨c, arguments⟩).map Interface.element = g.allSuperclasses c ∧
      (g.typedMember? core (.interface c arguments) name).map TypedMember.element =
        g.member? c name ∧
      (g.typedSetter? core (.interface c arguments) name).map TypedMember.element =
        g.setter? c name := by
  refine ⟨h.supertypes ⟨c, arguments⟩, ?_, ?_⟩
  · refine (map_element_findSome? (g.declaredMember? · name) _).trans ?_
    rw [h.candidates, member?]
  · refine (map_element_findSome? (g.declaredSetter? · name) _).trans ?_
    rw [h.candidates, setter?]

def ring : LibraryId := ⟨⟨.library, "dart:ring"⟩, 0⟩

/-- A class `A<T>` that extends `B<T>` and mixes in `M`, where `B<T>` extends `A<B<T>>`; `M` and `B`
    both have a writable field `x`. -/
def ringed : Graph :=
  let (a, t, b, u, m) : ElementId × ElementId × ElementId × ElementId × ElementId :=
    (.declared ring 1, .declared ring 2, .declared ring 3, .declared ring 4, .declared ring 6)
  { libraries := [{
      id := ring
      elements := #[
        { kind := .library, name := "ring" },
        { kind := .classElement, name := "A", typeParameters := [t], children := [t],
          supertype? := some (.interface b [.parameter t]), mixins := [.interface m []] },
        { kind := .typeParameter, name := "T" },
        { kind := .classElement, name := "B", typeParameters := [u],
          children := [u, .declared ring 5],
          supertype? := some (.interface a [.interface b [.parameter u]]) },
        { kind := .typeParameter, name := "U" },
        { kind := .field, name := "x", type := .parameter u },
        { kind := .classElement, name := "M", children := [.declared ring 7] },
        { kind := .field, name := "x" }] }] }

/-- In the cyclic hierarchy, the field that is found first is that of the mixin. -/
theorem member_lookups_agree_ringed :
    let core : CoreTypes := ⟨.error, .error, .error, .error, .error, .error, .error, .error, .error,
      .error⟩
    let a : StaticType := .interface (.declared ring 1) [.dynamic]
    ((ringed.supertypes ⟨.declared ring 1, [.dynamic]⟩).map Interface.element =
        ringed.allSuperclasses (.declared ring 1) ∧
      (ringed.typedMember? core a "x").map TypedMember.element =
        ringed.member? (.declared ring 1) "x" ∧
      (ringed.typedSetter? core a "x").map TypedMember.element =
        ringed.setter? (.declared ring 1) "x") ∧
      ringed.allSuperclasses (.declared ring 1) = [.declared ring 6, .declared ring 3] ∧
      ringed.setter? (.declared ring 1) "x" = some (.declared ring 7) :=
  ⟨member_lookups_agree ringed _ (by unfold InheritsClasses; decide) _ _ "x", by decide, by decide⟩

end Graph

end DartAnalysis
