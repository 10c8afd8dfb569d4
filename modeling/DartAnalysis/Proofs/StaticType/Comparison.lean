/-
  Where comparisons of types end. A comparison takes its right side apart, so among classes and type
  parameters it ends whatever the hierarchy looks like; only a pair of function types, which may be
  compared either way, can lead back to where it began. A type is `Grounded` if no endless chain of
  function types leads down from it, each of them reached from a part of the one before through
  supertypes, bounds and type arguments. Main statement: a comparison with a grounded type has a
  result (`comparisons_end`). Where supertypes and bounds mention no functions, every type is
  grounded (`grounded_of_functionFree`). On the other hand a class may be declared a subtype of a
  function type over itself, and there a comparison has no result (`comparison_endless`).
-/
import DartAnalysis.StaticType.Subtype

namespace DartAnalysis

namespace StaticType

/-- The result and the parameters of a function type. -/
def parts : StaticType → List StaticType
  | .function result required positional named =>
    result :: (required ++ positional ++ named.map (·.2))
  | _ => []

mutual
/-- How deeply function types nest. -/
def nesting : StaticType → Nat
  | .function result required positional named =>
    max (max (nesting result) (nestingEach required))
      (max (nestingEach positional) (nestingNamed named)) + 1
  | .interface _ arguments => nestingEach arguments
  | .dynamic | .void | .bottom | .error | .parameter _ => 0

def nestingEach : List StaticType → Nat
  | [] => 0
  | t :: ts => max (nesting t) (nestingEach ts)

def nestingNamed : List (String × StaticType) → Nat
  | [] => 0
  | (_, t) :: ts => max (nesting t) (nestingNamed ts)
end

theorem nesting_le_of_mem {t : StaticType} {ts : List StaticType} (h : t ∈ ts) :
    t.nesting ≤ nestingEach ts := by
  induction ts with
  | nil => exact absurd h nofun
  | cons u ts ih =>
    rw [nestingEach]
    rcases List.mem_cons.1 h with rfl | h
    · exact Nat.le_max_left _ _
    · exact Nat.le_trans (ih h) (Nat.le_max_right _ _)

theorem nestingEach_le {ts : List StaticType} {n : Nat} (h : ∀ t ∈ ts, t.nesting ≤ n) :
    nestingEach ts ≤ n := by
  induction ts with
  | nil => exact Nat.zero_le n
  | cons t ts ih =>
    rw [nestingEach]
    exact Nat.max_le.2 ⟨h t List.mem_cons_self, ih fun u hu => h u (List.mem_cons_of_mem t hu)⟩

theorem nestingNamed_eq (named : List (String × StaticType)) :
    nestingNamed named = nestingEach (named.map (·.2)) := by
  induction named with
  | nil => rfl
  | cons e named ih => rw [nestingNamed, List.map_cons, nestingEach, ih]

theorem nesting_lt_of_mem_parts {x t : StaticType} (h : x ∈ t.parts) : x.nesting < t.nesting := by
  cases t with
  | function result required positional named =>
    rw [nesting, nestingNamed_eq, Nat.lt_succ_iff]
    simp only [parts, List.mem_cons, List.mem_append] at h
    rcases h with rfl | (h | h) | h
    · omega
    · have := nesting_le_of_mem h
      omega
    · have := nesting_le_of_mem h
      omega
    · have := nesting_le_of_mem h
      omega
  | _ => exact absurd h nofun

/-- Without functions of its own, a type nests as deeply as what is put into it. -/
theorem nesting_replace {f : ElementId → StaticType} {n : Nat} (hf : ∀ p, (f p).nesting ≤ n) :
    ∀ t : StaticType, t.nesting = 0 → (t.replace f).nesting ≤ n
  | .parameter p, _ => by rw [replace]; exact hf p
  | .interface c arguments, h => by
    rw [replace, nesting, replaceEach_eq_map]
    refine nestingEach_le fun u hu => ?_
    obtain ⟨t, ht, rfl⟩ := List.mem_map.1 hu
    have hle := nesting_le_of_mem ht
    rw [nesting] at h
    exact nesting_replace hf t (by omega)
  | .function .., h => absurd h (by simp [nesting])
  | .dynamic, _ | .void, _ | .bottom, _ | .error, _ => by simp [replace, nesting]

end StaticType

namespace Graph

section AllOf

variable {α : Type}

theorem mem_of_lookup {κ : Type} [BEq κ] [LawfulBEq κ] {k : κ} {x : α} {xs : List (κ × α)}
    (h : xs.lookup k = some x) : (k, x) ∈ xs := by
  induction xs with
  | nil => exact absurd h nofun
  | cons e xs ih =>
    rw [List.lookup_cons] at h
    split at h
    · rename_i hk
      obtain rfl := Option.some.inj h
      rw [eq_of_beq hk]
      exact List.mem_cons_self
    · exact List.mem_cons_of_mem e (ih h)

theorem isSome_bind {β : Type} {o : Option α} {f : α → Option β} (ho : o.isSome)
    (hf : ∀ a, (f a).isSome) : (o >>= f).isSome := by
  obtain ⟨a, rfl⟩ := Option.isSome_iff_exists.1 ho
  exact hf a

theorem isSome_allM {p : α → Option Bool} {xs : List α} (h : ∀ x ∈ xs, (p x).isSome) :
    (xs.allM p).isSome := by
  induction xs with
  | nil => rfl
  | cons x xs ih =>
    obtain ⟨b, hb⟩ := Option.isSome_iff_exists.1 (h x List.mem_cons_self)
    rw [List.allM_cons, hb]
    cases b with
    | true => exact ih fun y hy => h y (List.mem_cons_of_mem x hy)
    | false => rfl

theorem isSome_findM? {p : α → Option Bool} {xs : List α} (h : ∀ x ∈ xs, (p x).isSome) :
    (xs.findM? p).isSome := by
  induction xs with
  | nil => rfl
  | cons x xs ih =>
    obtain ⟨b, hb⟩ := Option.isSome_iff_exists.1 (h x List.mem_cons_self)
    rw [List.findM?, hb]
    cases b with
    | true => rfl
    | false => exact ih fun y hy => h y (List.mem_cons_of_mem x hy)

/-- What is found is there and has the property. -/
theorem of_findM? {p : α → Option Bool} {xs : List α} {x : α} (h : xs.findM? p = some (some x)) :
    x ∈ xs ∧ p x = some true := by
  induction xs with
  | nil => cases h
  | cons y ys ih =>
    rw [List.findM?] at h
    obtain ⟨b, hb, h⟩ := Option.bind_eq_some_iff.1 h
    cases b with
    | true =>
      obtain rfl := Option.some.inj (Option.some.inj h)
      exact ⟨List.mem_cons_self, hb⟩
    | false => exact ⟨List.mem_cons_of_mem y (ih h).1, (ih h).2⟩

end AllOf

section Search

variable {α κ : Type} [BEq κ] {key : α → κ}

theorem mem_of_mem_unseen {xs : List α} {seen : List κ} {x : α} (h : x ∈ unseen key seen xs) :
    x ∈ xs := by
  induction xs generalizing seen with
  | nil => exact h
  | cons y xs ih =>
    rw [unseen] at h
    split at h
    · exact List.mem_cons_of_mem y (ih h)
    · rcases List.mem_cons.1 h with rfl | h
      · exact List.mem_cons_self
      · exact List.mem_cons_of_mem y (ih h)

/-- What holds of the start of a search and is passed on holds of everything that is found. -/
theorem forall_mem_search {next : α → List α} {P : α → Prop}
    (hnext : ∀ x, P x → ∀ y ∈ next x, P y) {steps : Nat} {queue : List α} {seen : List κ}
    (hqueue : ∀ x ∈ queue, P x) : ∀ y ∈ search key next steps queue seen, P y := by
  induction steps generalizing queue seen with
  | zero => exact nofun
  | succ steps ih =>
    cases queue with
    | nil => exact nofun
    | cons x queue =>
      have hfound : ∀ y ∈ unseen key seen (next x), P y := fun y hy =>
        hnext x (hqueue x List.mem_cons_self) y (mem_of_mem_unseen hy)
      intro y hy
      rw [search] at hy
      rcases List.mem_append.1 hy with hy | hy
      · exact hfound y hy
      · refine ih (fun z hz => ?_) y hy
        rcases List.mem_append.1 hz with hz | hz
        · exact hqueue z (List.mem_cons_of_mem x hz)
        · exact hfound z hz

end Search

variable (g : Graph) (core : CoreTypes)

/-- What holds of all elements of libraries, of the type `dynamic` and of what is unknown holds of
    whatever an id stands for. -/
theorem forall_element {P : Element → Prop} (hdynamic : P .dynamic) (herror : P .error)
    (h : ∀ l ∈ g.libraries, ∀ e ∈ l.elements.toList, P e) (id : ElementId) : P (g.element id) := by
  unfold Graph.element
  cases hid : g.element? id with
  | none => exact herror
  | some e =>
    cases id with
    | dynamic => exact Option.some.inj hid ▸ hdynamic
    | error => exact Option.some.inj hid ▸ herror
    | declared library index =>
      obtain ⟨l, hl, he⟩ := Option.bind_eq_some_iff.1 hid
      refine h l (List.mem_of_find?_eq_some (Option.filter_eq_some_iff.1 hl).1) e ?_
      exact Array.mem_toList_iff.2 (Array.mem_of_getElem? he)

/-! ## Comparisons that are closed -/

/-- Two types have both comparisons decided. -/
def Settled (a b : StaticType) : Prop :=
  (g.subtype? core a b).isSome ∧ (g.subtype? core b a).isSome

/-- Pairs of types whose comparison leads to such pairs again, and to settled ones below
    functions. -/
structure Closed (R : StaticType → StaticType → Prop) : Prop where
  receiver : ∀ {a b i}, R a b → g.receiver? core a = some i → R i.toType b
  arguments : ∀ {i j k : Interface}, R i.toType j.toType → g.asInstanceOf? i j.element = some k →
    ∀ x ∈ k.arguments, ∀ y ∈ j.arguments, R x y
  parts : ∀ {a b}, R a b → ∀ x ∈ a.parts, ∀ y ∈ b.parts, g.Settled core x y

section Settled

variable {g core}

theorem Settled.assignable?_isSome {a b : StaticType} (h : g.Settled core a b) :
    (g.assignable? core a b).isSome := by
  obtain ⟨c, hc⟩ := Option.isSome_iff_exists.1 h.1
  rw [assignable?, hc]
  cases c with
  | true => rfl
  | false => exact h.2

theorem Settled.symm {a b : StaticType} (h : g.Settled core a b) : g.Settled core b a := ⟨h.2, h.1⟩

/-- Two function types are compared by their parts. -/
theorem functions_isSome {result result' : StaticType}
    {required required' positional positional' : List StaticType}
    {named named' : List (String × StaticType)}
    (h : ∀ x ∈ (StaticType.function result required positional named).parts,
      ∀ y ∈ (StaticType.function result' required' positional' named').parts,
        g.Settled core x y) :
    (g.subtype? core (.function result required positional named)
      (.function result' required' positional' named')).isSome := by
  have hpositional : ∀ p ∈ (required ++ positional).zip (required' ++ positional'),
      (g.assignable? core p.2 p.1).isSome := by
    rintro ⟨x, y⟩ hxy
    obtain ⟨hx, hy⟩ := List.of_mem_zip hxy
    refine (h x ?_ y ?_).symm.assignable?_isSome
    · exact List.mem_cons_of_mem _ (List.mem_append_left _ hx)
    · exact List.mem_cons_of_mem _ (List.mem_append_left _ hy)
  have hnamed : ∀ p ∈ named', ∀ x, named.lookup p.1 = some x →
      (g.assignable? core p.2 x).isSome := by
    rintro ⟨name, y⟩ hy x hx
    refine (h x ?_ y ?_).symm.assignable?_isSome
    · exact List.mem_cons_of_mem _
        (List.mem_append_right _ (List.mem_map_of_mem (mem_of_lookup hx)))
    · exact List.mem_cons_of_mem _ (List.mem_append_right _ (List.mem_map_of_mem hy))
  have hresult := (h result List.mem_cons_self result' List.mem_cons_self).assignable?_isSome
  unfold subtype?
  split
  · rfl
  split
  · rfl
  split
  · rfl
  dsimp only
  split
  · rfl
  refine isSome_bind (isSome_allM hpositional) fun positionals => ?_
  refine isSome_bind (isSome_allM fun p hp => ?_) fun names => ?_
  · split
    · rename_i x hx
      exact hnamed p hp x hx
    · rfl
  split
  · rfl
  split
  · rfl
  · exact hresult

end Settled

section Closed

variable {g core} {R : StaticType → StaticType → Prop} (h : g.Closed core R)
include h

/-- The arguments of applied classes lie below the right side of a comparison. -/
theorem Closed.interface_isSome {i : Interface} {b : StaticType} (hR : R i.toType b)
    (ih : ∀ x y, sizeOf y < sizeOf b → R x y → (g.subtype? core x y).isSome) :
    (g.subtype? core i.toType b).isSome := by
  unfold subtype?
  split
  · rfl
  split
  · rfl
  split
  · rfl
  cases b with
  | interface d arguments =>
    dsimp only [Interface.toType]
    split
    · rename_i k hk
      refine isSome_allM ?_
      rintro ⟨x, y⟩ hxy
      obtain ⟨hx, hy⟩ := List.of_mem_zip hxy
      refine ih x y ?_ (@Closed.arguments _ _ _ h i ⟨d, arguments⟩ k hR hk x hx y hy)
      have hsize := List.sizeOf_lt_of_mem hy
      simp only [StaticType.interface.sizeOf_spec]
      omega
    · rfl
  | _ => rfl

theorem Closed.isSome {a b : StaticType} (hR : R a b) : (g.subtype? core a b).isSome := by
  induction hn : sizeOf b using Nat.strongRecOn generalizing a b with
  | ind n ih =>
    have ih' : ∀ x y, sizeOf y < sizeOf b → R x y → (g.subtype? core x y).isSome :=
      fun x y hlt hxy => ih (sizeOf y) (hn ▸ hlt) hxy rfl
    cases a with
    | interface c arguments => exact @Closed.interface_isSome g core R h ⟨c, arguments⟩ b hR ih'
    | parameter p =>
      unfold subtype?
      split
      · rfl
      split
      · rfl
      split
      · rfl
      dsimp only
      split
      · rename_i i hi
        exact h.interface_isSome (h.receiver hR hi) ih'
      · rfl
    | function result required positional named =>
      cases b with
      | function result' required' positional' named' =>
        exact functions_isSome (h.parts hR)
      | _ =>
        unfold subtype?
        split
        · rfl
        split
        · rfl
        split <;> rfl
    | _ =>
      unfold subtype?
      split
      · rfl
      split
      · rfl
      split <;> rfl

end Closed

/-! ## Grounded types -/

/-- What a type leads to, other than through the parts of a function. -/
inductive Reaches (t : StaticType) : StaticType → Prop
  | here : Reaches t t
  | receiver {u : StaticType} {i : Interface} (h : Reaches t u)
      (hi : g.receiver? core u = some i) : Reaches t i.toType
  | supertype {i j : Interface} (h : Reaches t i.toType) (hj : j ∈ g.supertypes i) :
      Reaches t j.toType
  | argument {i : Interface} {u : StaticType} (h : Reaches t i.toType) (hu : u ∈ i.arguments) :
      Reaches t u

/-- `x` is a part of a function type that `t` leads to. -/
def Nests (x t : StaticType) : Prop := ∃ f, g.Reaches core t f ∧ x ∈ f.parts

/-- No endless chain of nested function types leads down from a type. -/
def Grounded (t : StaticType) : Prop := Acc (g.Nests core) t

section Grounded

variable {g core}

theorem Reaches.instance {t : StaticType} {i k : Interface} {d : ElementId}
    (h : g.Reaches core t i.toType) (hk : g.asInstanceOf? i d = some k) :
    g.Reaches core t k.toType := by
  unfold asInstanceOf? at hk
  split at hk
  · rwa [← Option.some.inj hk]
  · exact h.supertype (List.mem_of_find?_eq_some hk)

/-- What the left side leads to stays within reach of it. -/
theorem closed_left {t : StaticType}
    (ih : ∀ x, g.Nests core x t → ∀ y, g.Settled core x y) :
    g.Closed core fun a _ => g.Reaches core t a where
  receiver h hi := h.receiver hi
  arguments h hk _ hx _ _ := (h.instance hk).argument hx
  parts h x hx y _ := ih x ⟨_, h, hx⟩ y

/-- So does what the right side leads to, of which only the arguments are compared. -/
theorem closed_right {t : StaticType}
    (ih : ∀ x, g.Nests core x t → ∀ y, g.Settled core x y) :
    g.Closed core fun _ b => g.Reaches core t b where
  receiver h _ := h
  arguments h _ _ _ _ hy := h.argument hy
  parts h _ _ y hy := (ih y ⟨_, h, hy⟩ _).symm

/-- A grounded type can be compared with any type, both ways. -/
theorem Grounded.settled_of_reaches {t : StaticType} (h : g.Grounded core t) {a : StaticType}
    (ha : g.Reaches core t a) (b : StaticType) : g.Settled core a b := by
  induction h generalizing a b with
  | intro t _ ih =>
    have ih' : ∀ x, g.Nests core x t → ∀ y, g.Settled core x y := fun x hx y => ih x hx .here y
    exact ⟨(closed_left ih').isSome ha, (closed_right ih').isSome ha⟩

theorem Grounded.settled {t : StaticType} (h : g.Grounded core t) (b : StaticType) :
    g.Settled core t b := h.settled_of_reaches .here b

end Grounded

/-! ## Hierarchies without functions -/

/-- No declared supertype and no bound mentions a function type. -/
def FunctionFree : Prop :=
  ∀ l ∈ g.libraries, ∀ e ∈ l.elements.toList, ∀ t ∈ e.supertypes ++ e.bound?.toList, t.nesting = 0

section FunctionFree

variable {g core} (h : g.FunctionFree)
include h

theorem FunctionFree.element (id : ElementId) :
    ∀ t ∈ (g.element id).supertypes ++ (g.element id).bound?.toList, t.nesting = 0 :=
  g.forall_element (P := fun e => ∀ t ∈ e.supertypes ++ e.bound?.toList, t.nesting = 0)
    (fun _ h => absurd h List.not_mem_nil) (fun _ h => absurd h List.not_mem_nil) h id

theorem FunctionFree.receiver_nesting {t : StaticType} {i : Interface}
    (hi : g.receiver? core t = some i) : i.toType.nesting ≤ t.nesting := by
  have hto : ∀ steps t, g.receiverTo core steps t = some i → i.toType.nesting ≤ t.nesting := by
    intro steps
    induction steps with
    | zero =>
      intro t hi
      cases t with
      | interface c arguments => rw [← Option.some.inj hi]; exact Nat.le_refl _
      | function => rw [← Option.some.inj hi]; exact Nat.zero_le _
      | parameter p => rw [← Option.some.inj hi]; exact Nat.zero_le _
      | _ => exact absurd hi nofun
    | succ steps ih =>
      intro t hi
      cases t with
      | interface c arguments => rw [← Option.some.inj hi]; exact Nat.le_refl _
      | function => rw [← Option.some.inj hi]; exact Nat.zero_le _
      | parameter p =>
        have hbound : ((g.element p).bound?.getD core.object).nesting = 0 := by
          cases hp : (g.element p).bound? with
          | none => rfl
          | some b => exact h.element p b (by simp [hp])
        exact Nat.le_trans (ih _ hi) (Nat.le_of_eq hbound)
      | _ => exact absurd hi nofun
  exact hto _ t hi

theorem FunctionFree.supertype_nesting {i j : Interface} (hj : j ∈ g.supertypes i) :
    j.toType.nesting ≤ i.toType.nesting := by
  refine @forall_mem_search _ _ _ _ _ (fun k => k.toType.nesting ≤ i.toType.nesting) ?_ _ _ _ ?_ j hj
  · intro k hk j hj
    obtain ⟨t, ht, hof⟩ := List.mem_filterMap.1 hj
    have hspecial : (g.specialize k t).nesting ≤ k.toType.nesting := by
      refine StaticType.nesting_replace (fun p => ?_) t (h.element k.element t (by simp [ht]))
      unfold StaticType.argumentOf
      split
      · rename_i index _
        rw [List.getD_eq_getElem?_getD]
        cases harg : k.arguments[index]? with
        | none => exact Nat.zero_le _
        | some u => exact StaticType.nesting_le_of_mem (List.mem_of_getElem? harg)
      · exact Nat.zero_le _
    refine Nat.le_trans ?_ (Nat.le_trans hspecial hk)
    cases hs : g.specialize k t with
    | interface d arguments =>
      rw [hs] at hof
      exact Nat.le_of_eq (congrArg (fun k => k.toType.nesting) (Option.some.inj hof).symm)
    | _ => rw [hs] at hof; exact absurd hof nofun
  · intro k hk
    exact Nat.le_of_eq (congrArg (fun k => k.toType.nesting) (List.mem_singleton.1 hk))

theorem FunctionFree.reaches_nesting {t u : StaticType} (hu : g.Reaches core t u) :
    u.nesting ≤ t.nesting := by
  induction hu with
  | here => exact Nat.le_refl _
  | receiver _ hi ih => exact Nat.le_trans (h.receiver_nesting hi) ih
  | supertype _ hj ih => exact Nat.le_trans (h.supertype_nesting hj) ih
  | argument _ hu ih => exact Nat.le_trans (StaticType.nesting_le_of_mem hu) ih

/-- Where supertypes and bounds mention no functions, every type is grounded, however cyclic the
    hierarchy and the bounds are. -/
theorem grounded_of_functionFree (t : StaticType) : g.Grounded core t := by
  have hwf : WellFounded fun x t : StaticType => x.nesting < t.nesting :=
    (measure StaticType.nesting).wf
  refine Subrelation.accessible (fun {x t} hx => ?_) (hwf.apply t)
  obtain ⟨f, hf, hx⟩ := hx
  exact Nat.lt_of_lt_of_le (StaticType.nesting_lt_of_mem_parts hx) (h.reaches_nesting hf)

end FunctionFree

def knot : LibraryId := ⟨⟨.library, "dart:knot"⟩, 0⟩

/-- A class `A<T extends A<T>>` and a class `B`, which are declared supertypes of each other. -/
def knotted : Graph :=
  { libraries := [{
      id := knot
      elements := #[
        { kind := .library, name := "knot" },
        { kind := .classElement, name := "A", typeParameters := [.declared knot 2],
          supertype? := some (.interface (.declared knot 3) []) },
        { kind := .typeParameter, name := "T",
          bound? := some (.interface (.declared knot 1) [.parameter (.declared knot 2)]) },
        { kind := .classElement, name := "B",
          supertype? := some (.interface (.declared knot 1) [.interface (.declared knot 3) []]) }] }] }

theorem knotted_functionFree : knotted.FunctionFree := by
  unfold FunctionFree
  decide

/-! ## Comparisons end -/

theorem settled_of_grounded {a b : StaticType} (h : g.Grounded core a ∨ g.Grounded core b) :
    g.Settled core a b := by
  rcases h with h | h
  · exact h.settled b
  · exact (h.settled a).symm

theorem leastUpperBound?_isSome {a b : StaticType} (h : g.Grounded core a ∨ g.Grounded core b) :
    (g.leastUpperBound? core a b).isSome := by
  have hsettled := settled_of_grounded g core h
  unfold leastUpperBound?
  split
  · rfl
  refine isSome_bind hsettled.1 fun below => ?_
  split
  · rfl
  refine isSome_bind hsettled.2 fun above => ?_
  split
  · rfl
  split
  · rename_i i j hi hj
    refine isSome_bind (isSome_findM? fun t ht => ?_) fun shared? => rfl
    obtain ⟨k, hk, rfl⟩ := List.mem_map.1 ht
    rcases h with h | h
    · exact (h.settled_of_reaches ((Reaches.here.receiver hi).supertype hk) j.toType).2
    · exact (h.settled_of_reaches (Reaches.here.receiver hj) k.toType).1
  · rfl

/-- Comparisons with a grounded type have results, and so does the least upper bound. -/
theorem comparisons_end (a b : StaticType) (h : g.Grounded core a ∨ g.Grounded core b) :
    (g.subtype? core a b).isSome ∧ (g.assignable? core a b).isSome ∧
      (g.leastUpperBound? core a b).isSome := by
  have hsettled := settled_of_grounded g core h
  exact ⟨hsettled.1, hsettled.assignable?_isSome, leastUpperBound?_isSome g core h⟩

/-- Functions over the knotted classes can be compared, with any class as the root class. -/
theorem comparisons_end_knotted :
    let core : CoreTypes := ⟨.error, .error, .error, .error, .error, .error, .error, .error, .error,
      .error⟩
    let a : StaticType := .function .void [.parameter (.declared knot 2)] [] []
    let b : StaticType := .function .void [.interface (.declared knot 3) []] [] []
    (knotted.subtype? core a b).isSome ∧ (knotted.assignable? core a b).isSome ∧
      (knotted.leastUpperBound? core a b).isSome :=
  comparisons_end _ _ _ _ (.inl (grounded_of_functionFree knotted_functionFree _))

/-! ## A comparison without result -/

section Loop

variable {c n : ElementId}

/-- A function that takes one argument. -/
def taking (t : StaticType) : StaticType := .function .void [t] [] []

/-- Where a class `c` is declared an `n` of what takes an `n` of what takes a `c`, the question
    whether it is an `n` of what takes a `c` leads back to itself. -/
theorem subtype?_eq_none_of_loop (hobject : core.objectClass ≠ n) {a b f f' : StaticType}
    (ha : a = .interface c []) (hf : f = taking a) (hb : b = .interface n [f]) (hf' : f' = taking b)
    (hloop : g.asInstanceOf? ⟨c, []⟩ n = some ⟨n, [f']⟩) : g.subtype? core a b = none := by
  have hresult := (subtype?.mutual_partial_correctness g core
    (fun x y _ => ¬ (x = a ∧ y = b) ∧ ¬ (x = f' ∧ y = f)) (fun x y _ => ¬ (x = a ∧ y = b))
    ?_ ?_).1
  · refine Option.eq_none_iff_forall_ne_some.2 fun r hr => ?_
    exact (hresult a b r hr).1 ⟨rfl, rfl⟩
  · intro subtype? assignable? hsubtype hassignable x y r hr
    refine ⟨?_, ?_⟩
    · rintro ⟨rfl, rfl⟩
      cases hparts : subtype? f' f with
      | some s => exact (hsubtype f' f s hparts).2 ⟨rfl, rfl⟩
      | none =>
        simp [ha, hb, StaticType.isUnknown, CoreTypes.isObject, StaticType.class?, Ne.symm hobject,
          hloop, hparts] at hr
    · rintro ⟨rfl, rfl⟩
      cases hparts : assignable? a b with
      | some s => exact hassignable a b s hparts ⟨rfl, rfl⟩
      | none =>
        simp [hf, hf', ha, hb, StaticType.isUnknown, CoreTypes.isObject, StaticType.class?, taking]
          at hr hparts
        simp [hparts] at hr
  · intro subtype? hsubtype x y r hr
    rintro ⟨rfl, rfl⟩
    cases hparts : subtype? x y with
    | some s => exact (hsubtype x y s hparts).1 ⟨rfl, rfl⟩
    | none => simp [hparts] at hr

end Loop

def loop : LibraryId := ⟨⟨.library, "dart:loop"⟩, 0⟩

/-- A class `N<T>`, and a class `C` that extends `N` of what takes an `N` of what takes a `C`. -/
def looped : Graph :=
  let (n, t, c) : ElementId × ElementId × ElementId :=
    (.declared loop 1, .declared loop 2, .declared loop 3)
  { libraries := [{
      id := loop
      elements := #[
        { kind := .library, name := "loop" },
        { kind := .classElement, name := "N", typeParameters := [t], children := [t] },
        { kind := .typeParameter, name := "T", type := .parameter t },
        { kind := .classElement, name := "C",
          supertype? := some (.interface n [taking (.interface n [taking (.interface c [])])]) }] }] }

/-- Whether `C` is an `N` of what takes a `C` is never decided. -/
theorem comparison_endless :
    let core : CoreTypes := ⟨.error, .error, .error, .error, .error, .error, .error, .error, .error,
      .error⟩
    let c : StaticType := .interface (.declared loop 3) []
    looped.subtype? core c (.interface (.declared loop 1) [taking c]) = none ∧
      looped.assignable? core c (.interface (.declared loop 1) [taking c]) = none := by
  intro core c
  have hloop : looped.subtype? core c (.interface (.declared loop 1) [taking c]) = none :=
    subtype?_eq_none_of_loop looped core (by decide) rfl rfl rfl rfl (by decide)
  refine ⟨hloop, ?_⟩
  unfold assignable?
  rw [hloop]
  rfl

end Graph

end DartAnalysis
