/-
  Least upper bounds. If neither of two types is above the other, a bound is drawn from the supertypes
  of what members of the first are looked up on. Each class is met once among these, so a supertype is
  the instance for its own class (`asInstanceOf?_of_mem_supertypes`) and above the class that it is a
  supertype of, whatever the arguments are. Main statement: a least upper bound is above both types
  (`leastUpperBound_above`). A function is looked up on the root class but compared with nothing
  above it, so where the root class has supertypes itself, such a supertype may be returned that is
  not above the function (`leastUpperBound_astray`).
-/
import DartAnalysis.Proofs.StaticType.Lookup

namespace DartAnalysis

namespace Graph

variable (g : Graph) (core : CoreTypes)

/-! ## Comparisons with a known result -/

theorem subtype?_unknown (a : StaticType) {b : StaticType} (h : b.isUnknown = true) :
    g.subtype? core a b = some true := by
  unfold subtype?
  rw [if_pos (by simp [h])]

theorem subtype?_self (a : StaticType) : g.subtype? core a a = some true := by
  unfold subtype?
  rw [if_pos (by simp)]

theorem subtype?_root {a b : StaticType} (ha : a ≠ .void) (hb : core.isObject b = true) :
    g.subtype? core a b = some true := by
  have hvoid : b ≠ .void := by
    rintro rfl
    cases hb
  unfold subtype?
  split
  · rfl
  · split
    · rename_i hnone
      simp [ha, hvoid] at hnone
    · rfl

/-- Two classes other than the root class are compared argument by argument. -/
theorem subtype?_classes {i j : Interface} (hne : i.toType ≠ j.toType)
    (hroot : core.isObject j.toType = false) :
    g.subtype? core i.toType j.toType =
      match g.asInstanceOf? i j.element with
      | some k => (k.arguments.zip j.arguments).allM fun p => g.subtype? core p.1 p.2
      | none => some false := by
  have hknown : ¬ (i.toType.isUnknown || j.toType.isUnknown || decide (i.toType = .bottom) ||
      decide (i.toType = j.toType)) = true := by
    rw [decide_eq_false hne]
    exact Bool.false_ne_true
  have hvoid : ¬ (decide (i.toType = .void) || decide (j.toType = .void)) = true := by
    simp [Interface.toType]
  conv_lhs => unfold subtype?
  rw [if_neg hknown, if_neg hvoid, if_neg (by simp [hroot])]
  rfl

/-- A type parameter is compared with a class through its bound. -/
theorem subtype?_parameter {p : ElementId} {i j : Interface}
    (hi : g.receiver? core (.parameter p) = some i) :
    g.subtype? core (.parameter p) j.toType = g.subtype? core i.toType j.toType := by
  cases hroot : core.isObject j.toType with
  | true =>
    rw [g.subtype?_root core StaticType.noConfusion hroot,
      g.subtype?_root core StaticType.noConfusion hroot]
  | false =>
    have hknown : ¬ ((StaticType.parameter p).isUnknown || j.toType.isUnknown ||
        decide (StaticType.parameter p = .bottom) || decide (StaticType.parameter p = j.toType)) =
          true := by
      simp [StaticType.isUnknown, Interface.toType]
    have hvoid : ¬ (decide (StaticType.parameter p = .void) || decide (j.toType = .void)) = true := by
      simp [Interface.toType]
    conv_lhs => unfold subtype?
    rw [if_neg hknown, if_neg hvoid, if_neg (by simp [hroot])]
    dsimp only
    rw [hi]

section Supertypes

variable {g core} {i j : Interface}

/-- The instance of a class for one of its supertypes is that supertype: no other has its class. -/
theorem asInstanceOf?_of_mem_supertypes (h : j ∈ g.supertypes i) :
    g.asInstanceOf? i j.element = some j := by
  obtain ⟨hnodup, hnew⟩ := nodup_search Interface.element g.directSupertypes
    (g.supertypeCount + 1) [i] [i.element]
  have hne : i.element ≠ j.element := fun heq =>
    hnew j.element (List.mem_map_of_mem h) (heq ▸ List.mem_singleton_self _)
  obtain ⟨k, hk⟩ : ∃ k, (g.supertypes i).find? (·.element == j.element) = some k :=
    Option.isSome_iff_exists.1 (List.find?_isSome.2 ⟨j, h, BEq.rfl⟩)
  have helement : k.element = j.element := by simpa using List.find?_some hk
  rw [asInstanceOf?, if_neg hne, hk]
  exact congrArg some (List.inj_on_of_nodup_map hnodup (List.mem_of_find?_eq_some hk) h helement)

theorem subtype?_of_mem_supertypes (h : j ∈ g.supertypes i) :
    g.subtype? core i.toType j.toType = some true := by
  have harguments (ts : List StaticType) :
      (ts.zip ts).allM (fun p => g.subtype? core p.1 p.2) = some true := by
    induction ts with
    | nil => rfl
    | cons t ts ih =>
      rw [List.zip_cons_cons, List.allM_cons, subtype?_self]
      exact ih
  by_cases heq : i.toType = j.toType
  · rw [heq, subtype?_self]
  cases hroot : core.isObject j.toType with
  | true => exact g.subtype?_root core StaticType.noConfusion hroot
  | false =>
    rw [subtype?_classes g core heq hroot, asInstanceOf?_of_mem_supertypes h]
    exact harguments j.arguments

theorem supertypes_of_none (h : (g.element i.element).supertypes = []) : g.supertypes i = [] := by
  have hdirect : g.directSupertypes i = [] := by
    unfold directSupertypes
    rw [h]
    rfl
  unfold supertypes
  rw [search, hdirect]
  cases g.supertypeCount <;> rfl

/-- A root class without supertypes is below no other class. -/
theorem isObject_of_root_below (hroot : (g.element core.objectClass).supertypes = [])
    (h : g.subtype? core core.objectInterface.toType j.toType = some true) :
    core.isObject j.toType = true := by
  have hself : core.isObject core.objectInterface.toType = true := BEq.rfl
  cases hj : core.isObject j.toType with
  | true => rfl
  | false =>
    have hne : core.objectInterface.toType ≠ j.toType := by
      rintro heq
      rw [heq, hj] at hself
      cases hself
    have helement : core.objectInterface.element ≠ j.element := by
      rintro heq
      simp [CoreTypes.isObject, StaticType.class?, Interface.toType, ← heq,
        CoreTypes.objectInterface] at hj
    rw [subtype?_classes g core hne hj, asInstanceOf?, if_neg helement,
      supertypes_of_none (i := core.objectInterface) hroot] at h
    cases h

/-! ## The bound -/

/-- What members of a type are looked up on is compared with other classes as the type itself is,
    unless the type is a function. -/
theorem subtype?_of_receiver {a : StaticType} (ha : a.isFunction = false)
    (hi : g.receiver? core a = some i) :
    g.subtype? core a j.toType = g.subtype? core i.toType j.toType := by
  cases a with
  | interface c arguments =>
    obtain rfl := Option.some.inj hi
    rfl
  | parameter p => exact subtype?_parameter g core hi
  | function => cases ha
  | _ => cases hi

theorem receiver?_of_function {a : StaticType} (ha : a.isFunction = true) :
    g.receiver? core a = some core.objectInterface := by
  cases a with
  | function => rfl
  | _ => cases ha

/-- A supertype of the class behind one type that is above the class behind another one is above both
    types. -/
theorem shared_above {a b : StaticType} {k : Interface}
    (hroot : a.isFunction = true ∨ b.isFunction = true →
      (g.element core.objectClass).supertypes = [])
    (hi : g.receiver? core a = some i) (hj : g.receiver? core b = some j) (hk : k ∈ g.supertypes i)
    (hbelow : g.subtype? core j.toType k.toType = some true) :
    g.subtype? core a k.toType = some true ∧ g.subtype? core b k.toType = some true := by
  cases ha : a.isFunction with
  | true =>
    -- The root class would have to have supertypes.
    obtain rfl := Option.some.inj ((receiver?_of_function ha).symm.trans hi)
    rw [supertypes_of_none (i := core.objectInterface) (hroot (.inl ha))] at hk
    cases hk
  | false =>
    refine ⟨(subtype?_of_receiver ha hi).trans (subtype?_of_mem_supertypes hk), ?_⟩
    cases hb : b.isFunction with
    | true =>
      obtain rfl := Option.some.inj ((receiver?_of_function hb).symm.trans hj)
      refine g.subtype?_root core ?_ (isObject_of_root_below (hroot (.inr hb)) hbelow)
      rintro rfl
      cases hb
    | false => exact (subtype?_of_receiver hb hj).trans hbelow

end Supertypes

/-- How a least upper bound comes about. -/
theorem leastUpperBound?_cases {a b l : StaticType} (h : g.leastUpperBound? core a b = some l) :
    l = .dynamic ∨ (l = b ∧ g.subtype? core a b = some true) ∨
      (l = a ∧ g.subtype? core b a = some true) ∨
      ∃ i j k, g.receiver? core a = some i ∧ g.receiver? core b = some j ∧ k ∈ g.supertypes i ∧
        g.subtype? core j.toType k.toType = some true ∧ l = k.toType := by
  unfold leastUpperBound? at h
  split at h
  · exact .inl (Option.some.inj h).symm
  obtain ⟨below, hbelow, h⟩ := Option.bind_eq_some_iff.1 h
  cases below with
  | true => exact .inr (.inl ⟨(Option.some.inj h).symm, hbelow⟩)
  | false =>
  obtain ⟨above, habove, h⟩ := Option.bind_eq_some_iff.1 h
  cases above with
  | true => exact .inr (.inr (.inl ⟨(Option.some.inj h).symm, habove⟩))
  | false =>
  simp only [Bool.false_eq_true, if_false] at h
  split at h
  · rename_i i j hi hj
    obtain ⟨shared?, hshared, h⟩ := Option.bind_eq_some_iff.1 h
    cases shared? with
    | none => exact .inl (Option.some.inj h).symm
    | some t =>
      obtain ⟨hmem, hbelow⟩ := of_findM? hshared
      obtain ⟨k, hk, rfl⟩ := List.mem_map.1 hmem
      exact .inr (.inr (.inr ⟨i, j, k, hi, hj, hk, hbelow, (Option.some.inj h).symm⟩))
  · exact .inl (Option.some.inj h).symm

/-- The nearest supertype of the class behind one type is the bound if it is above the class behind
    the other one. -/
theorem leastUpperBound?_nearest {a b : StaticType} {i j k : Interface}
    (ha : a.isUnknown = false) (hb : b.isUnknown = false) (hup : g.subtype? core a b = some false)
    (hdown : g.subtype? core b a = some false) (hi : g.receiver? core a = some i)
    (hj : g.receiver? core b = some j) (hk : (g.supertypes i).head? = some k)
    (hbelow : g.subtype? core j.toType k.toType = some true) :
    g.leastUpperBound? core a b = some k.toType := by
  have hfind : ((g.supertypes i).map Interface.toType).findM? (g.subtype? core j.toType ·) =
      some (some k.toType) := by
    obtain ⟨ks, hks⟩ := List.head?_eq_some_iff.1 hk
    rw [hks, List.map_cons, List.findM?, hbelow]
    rfl
  unfold leastUpperBound?
  rw [ha, hb, hup, hdown, hi, hj]
  show (do return (← ((g.supertypes i).map Interface.toType).findM?
    (g.subtype? core j.toType ·)).getD .dynamic) = some k.toType
  rw [hfind]
  rfl

/-- The least upper bound of two types is above both; it is one of them if that is above the other. If
    one of them is a function, the root class may have no supertypes: a function is below the root class
    but below nothing that the root class is declared to be. -/
theorem leastUpperBound_above {a b l : StaticType} (h : g.leastUpperBound? core a b = some l)
    (hroot : a.isFunction = true ∨ b.isFunction = true →
      (g.element core.objectClass).supertypes = []) :
    (g.subtype? core a l = some true ∧ g.subtype? core b l = some true) ∧
      (a.isUnknown = false → b.isUnknown = false →
        (g.subtype? core a b = some true → l = b) ∧
          (g.subtype? core b a = some true → g.subtype? core a b = some false → l = a)) := by
  refine ⟨?_, fun ha hb => ⟨fun hbelow => ?_, fun habove hnot => ?_⟩⟩
  · rcases g.leastUpperBound?_cases core h with rfl | ⟨rfl, hab⟩ | ⟨rfl, hba⟩ |
      ⟨i, j, k, hi, hj, hk, hbelow, rfl⟩
    · exact ⟨g.subtype?_unknown core a rfl, g.subtype?_unknown core b rfl⟩
    · exact ⟨hab, g.subtype?_self core l⟩
    · exact ⟨g.subtype?_self core l, hba⟩
    · exact shared_above hroot hi hj hk hbelow
  · unfold leastUpperBound? at h
    rw [ha, hb, hbelow] at h
    exact (Option.some.inj h).symm
  · unfold leastUpperBound? at h
    rw [ha, hb, habove, hnot] at h
    exact (Option.some.inj h).symm

def fork : LibraryId := ⟨⟨.library, "dart:fork"⟩, 0⟩

def forkCore : CoreTypes := ⟨.declared fork 1, .error, .error, .error, .error, .error, .error, .error,
  .error, .error⟩

/-- Beside the root class, a class `C<T>`, a class `A<U>` that extends `C<U>`, a class `B` that
    implements `C<B>`, and a type parameter `P extends B`. -/
def forked : Graph :=
  let (root, c, b) : StaticType × ElementId × StaticType :=
    (forkCore.object, .declared fork 2, .interface (.declared fork 6) [])
  { libraries := [{
      id := fork
      elements := #[
        { kind := .library, name := "fork" },
        { kind := .classElement, name := "Object" },
        { kind := .classElement, name := "C", typeParameters := [.declared fork 3],
          supertype? := some root },
        { kind := .typeParameter, name := "T" },
        { kind := .classElement, name := "A", typeParameters := [.declared fork 5],
          supertype? := some (.interface c [.parameter (.declared fork 5)]) },
        { kind := .typeParameter, name := "U" },
        { kind := .classElement, name := "B", supertype? := some root,
          interfaces := [.interface c [b]] },
        { kind := .typeParameter, name := "P", bound? := some b }] }] }

/-- The bound of `A<B>` and of the type parameter is `C<B>`. -/
theorem leastUpperBound_above_forked :
    let b : StaticType := .interface (.declared fork 6) []
    let (a, p) : StaticType × StaticType :=
      (.interface (.declared fork 4) [b], .parameter (.declared fork 7))
    let l : StaticType := .interface (.declared fork 2) [b]
    forked.leastUpperBound? forkCore a p = some l ∧
      (forked.subtype? forkCore a l = some true ∧ forked.subtype? forkCore p l = some true) ∧
        (a.isUnknown = false → p.isUnknown = false →
          (forked.subtype? forkCore a p = some true → l = p) ∧
            (forked.subtype? forkCore p a = some true → forked.subtype? forkCore a p = some false →
              l = a)) := by
  let b : Interface := ⟨.declared fork 6, []⟩
  let a : Interface := ⟨.declared fork 4, [b.toType]⟩
  let c : Interface := ⟨.declared fork 2, [b.toType]⟩
  have hup : forked.subtype? forkCore a.toType (.parameter (.declared fork 7)) = some false := by
    unfold subtype?
    rfl
  have hdown : forked.subtype? forkCore (.parameter (.declared fork 7)) a.toType = some false := by
    rw [subtype?_parameter forked forkCore (i := b) rfl, subtype?_classes _ _ (by decide) rfl]
    rfl
  have hbound : forked.leastUpperBound? forkCore a.toType (.parameter (.declared fork 7)) =
      some c.toType :=
    leastUpperBound?_nearest forked forkCore (i := a) (j := b) rfl rfl hup hdown rfl
      rfl (by decide) (subtype?_of_mem_supertypes (by decide))
  exact ⟨hbound, leastUpperBound_above forked forkCore hbound (by decide)⟩

/-- A root class that implements a class `A`. -/
def topped : Graph :=
  { libraries := [{
      id := fork
      elements := #[
        { kind := .library, name := "fork" },
        { kind := .classElement, name := "Object",
          interfaces := [.interface (.declared fork 2) []] },
        { kind := .classElement, name := "A", supertype? := some forkCore.object }] }] }

/-- There the bound of a function and of `A` is `A`, which is not above the function. -/
theorem leastUpperBound_astray :
    let (f, a) : StaticType × StaticType :=
      (.function .dynamic [] [] [], .interface (.declared fork 2) [])
    topped.leastUpperBound? forkCore f a = some a ∧ topped.subtype? forkCore f a = some false := by
  have hup : topped.subtype? forkCore (.function .dynamic [] [] [])
      (.interface (.declared fork 2) []) = some false := by
    unfold subtype?
    rfl
  have hdown : topped.subtype? forkCore (.interface (.declared fork 2) [])
      (.function .dynamic [] [] []) = some false := by
    unfold subtype?
    rfl
  exact ⟨leastUpperBound?_nearest topped forkCore (i := forkCore.objectInterface)
    (j := ⟨.declared fork 2, []⟩) rfl rfl hup hdown rfl rfl (by decide)
    (subtype?_self _ _ _), hup⟩

end Graph

end DartAnalysis
