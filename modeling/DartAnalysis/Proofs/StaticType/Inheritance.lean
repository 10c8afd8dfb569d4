/-
  The order in which superclasses are found, and classes that inherit from themselves. The distance of
  a class from another is the least number of steps up the hierarchy that lead to it. A search always
  has the classes of one distance in its queue and then those of the next, and has seen all that are
  nearer (`Levelled`); one step keeps that (`Levelled.step`), so that superclasses come out in order of
  distance (`allSuperclasses_sorted`). More steps than a search may take would change nothing
  (`search_settled`). A class is reported as cyclic exactly if steps up the hierarchy lead from it to
  itself (`isCyclic_iff`), although a search never finds the class that it starts from.
-/
import DartAnalysis.Binding.Node
import DartAnalysis.Proofs.StaticType.Lookup

namespace DartAnalysis

/-! ## Searches that are over -/

section Settled

variable {α κ : Type} [BEq κ] [LawfulBEq κ] (key : α → κ)

omit [LawfulBEq κ] in
theorem search_nil (next : α → List α) (steps : Nat) (seen : List κ) :
    search key next steps [] seen = [] := by
  cases steps <;> rfl

/-- With a step for each item of the queue and each key that is left, a search is over. -/
theorem search_settled {next : α → List α} {all : List κ} (hall : ∀ x, ∀ y ∈ next x, key y ∈ all)
    {steps : Nat} {queue : List α} {seen : List κ} (hsteps : queue.length + roomIn all seen ≤ steps)
    (more : Nat) : search key next (steps + more) queue seen = search key next steps queue seen := by
  induction steps generalizing queue seen with
  | zero =>
    obtain rfl := List.eq_nil_of_length_eq_zero (by omega : queue.length = 0)
    rw [search_nil, search_nil]
  | succ steps ih =>
    cases queue with
    | nil => rw [search_nil, search_nil]
    | cons x queue =>
      have hfound := nodup_unseen key seen (next x)
      have hroom : ((unseen key seen (next x)).map key).length +
          roomIn all (seen ++ (unseen key seen (next x)).map key) ≤ roomIn all seen := by
        refine roomIn_append (fun k hk => ?_) hfound.1 hfound.2
        obtain ⟨y, hy, rfl⟩ := List.mem_map.1 hk
        exact hall x y (Graph.mem_of_mem_unseen hy)
      rw [Nat.succ_add, search, search]
      refine congrArg _ (ih ?_)
      simp only [List.length_append, List.length_cons, List.length_map] at hsteps hroom ⊢
      omega

end Settled

namespace Graph

variable (g : Graph)

/-! ## Distance -/

/-- A number of steps up the hierarchy. -/
inductive Chain (g : Graph) : Nat → ElementId → ElementId → Prop where
  | nil (c : ElementId) : Chain g 0 c c
  | snoc {n : Nat} {c d e : ElementId} (h : Chain g n c d) (he : g.Extends d e) :
      Chain g (n + 1) c e

/-- The least number of steps from one class up to another. -/
noncomputable def distance (c d : ElementId) : Nat := sInf {n | g.Chain n c d}

section Distance

variable {g} {c d e : ElementId}

theorem Chain.reaches {n : Nat} (h : g.Chain n c d) : Relation.ReflTransGen g.Extends c d := by
  induction h with
  | nil => exact .refl
  | snoc _ he ih => exact ih.tail he

theorem exists_chain (h : Relation.ReflTransGen g.Extends c d) : ∃ n, g.Chain n c d := by
  induction h with
  | refl => exact ⟨0, .nil c⟩
  | tail _ hstep ih =>
    obtain ⟨n, hn⟩ := ih
    exact ⟨n + 1, hn.snoc hstep⟩

theorem distance_le {n : Nat} (h : g.Chain n c d) : g.distance c d ≤ n := Nat.sInf_le h

theorem chain_distance (h : Relation.ReflTransGen g.Extends c d) :
    g.Chain (g.distance c d) c d := Nat.sInf_mem (s := {n | g.Chain n c d}) (exists_chain h)

theorem distance_self : g.distance c c = 0 := Nat.le_zero.1 (distance_le (.nil c))

theorem distance_le_succ (h : Relation.ReflTransGen g.Extends c d) (he : g.Extends d e) :
    g.distance c e ≤ g.distance c d + 1 := distance_le ((chain_distance h).snoc he)

theorem eq_of_distance_eq_zero (h : Relation.ReflTransGen g.Extends c d) (hd : g.distance c d = 0) :
    d = c := by
  have hchain := chain_distance h
  rw [hd] at hchain
  cases hchain
  rfl

/-- Before a class that is further away there is one that is one step nearer. -/
theorem exists_nearer (h : Relation.ReflTransGen g.Extends c e) {n : Nat}
    (hn : g.distance c e = n + 1) :
    ∃ d, Relation.ReflTransGen g.Extends c d ∧ g.Extends d e ∧ g.distance c d = n := by
  have hchain := chain_distance h
  rw [hn] at hchain
  cases hchain with
  | @snoc _ _ d _ hd he =>
    refine ⟨d, hd.reaches, he, ?_⟩
    have hle := distance_le hd
    have hge := distance_le_succ hd.reaches he
    omega

end Distance

/-! ## Order of discovery -/

/-- How a search from a class stands: in the queue one distance comes before the next, all that is as
    near as the first of the queue has been seen, and whatever was taken from the queue has nothing
    left to be found. -/
structure Levelled (c : ElementId) (queue seen : List ElementId) : Prop where
  reached : ∀ d ∈ seen, Relation.ReflTransGen g.Extends c d
  queued : ∀ d ∈ queue, d ∈ seen
  expanded : ∀ d ∈ seen, d ∈ queue ∨ ∀ e, g.Extends d e → e ∈ seen
  sorted : queue.Pairwise fun d e => g.distance c d ≤ g.distance c e
  near : ∀ d ∈ queue.head?, (∀ e ∈ queue, g.distance c e ≤ g.distance c d + 1) ∧
    ∀ e, Relation.ReflTransGen g.Extends c e → g.distance c e ≤ g.distance c d → e ∈ seen

theorem levelled_start (c : ElementId) : g.Levelled c [c] [c] where
  reached d hd := by
    rw [List.mem_singleton.1 hd]
  queued _ hd := hd
  expanded _ hd := .inl hd
  sorted := List.pairwise_singleton _ _
  near d hd := by
    obtain rfl := Option.some.inj hd
    refine ⟨fun e he => ?_, fun e he hle => ?_⟩
    · rw [List.mem_singleton.1 he]
      omega
    · rw [distance_self] at hle
      exact List.mem_singleton.2 (eq_of_distance_eq_zero he (Nat.le_zero.1 hle))

variable {g} {c x : ElementId} {queue seen : List ElementId}

/-- What is found beside a class is one step further away. -/
theorem Levelled.found (h : g.Levelled c (x :: queue) seen) :
    ∀ d ∈ unseen (fun d => d) seen (g.superclasses x),
      Relation.ReflTransGen g.Extends c d ∧ g.distance c d = g.distance c x + 1 := by
  intro d hd
  have hx := h.reached x (h.queued x List.mem_cons_self)
  have hstep : g.Extends x d := mem_of_mem_unseen hd
  refine ⟨hx.tail hstep, Nat.le_antisymm (distance_le_succ hx hstep) (Nat.lt_of_not_le fun hle => ?_)⟩
  have hnew := (nodup_unseen (fun d => d) seen (g.superclasses x)).2
  rw [List.map_id'] at hnew
  exact hnew d hd ((h.near x rfl).2 d (hx.tail hstep) hle)

theorem Levelled.step (h : g.Levelled c (x :: queue) seen) {new : List ElementId}
    (hnew : unseen (fun d => d) seen (g.superclasses x) = new) :
    g.Levelled c (queue ++ new) (seen ++ new) := by
  have hfound := h.found
  rw [hnew] at hfound
  obtain ⟨hx, hsorted⟩ := List.pairwise_cons.1 h.sorted
  have hall : ∀ e, g.Extends x e → e ∈ seen ++ new := by
    intro e he
    have hmem : e ∈ seen ∨ e ∈ (unseen (fun d => d) seen (g.superclasses x)).map fun d => d :=
      key_mem_or_unseen (fun d => d) he
    rw [List.map_id', hnew] at hmem
    exact List.mem_append.2 hmem
  -- The whole queue lies between the distance of the class taken from it and the next one.
  have hlow : ∀ d ∈ queue ++ new, g.distance c x ≤ g.distance c d := by
    intro d hd
    rcases List.mem_append.1 hd with hd | hd
    · exact hx d hd
    · rw [(hfound d hd).2]
      omega
  have hhigh : ∀ d ∈ queue ++ new, g.distance c d ≤ g.distance c x + 1 := by
    intro d hd
    rcases List.mem_append.1 hd with hd | hd
    · exact (h.near x rfl).1 d (List.mem_cons_of_mem _ hd)
    · exact Nat.le_of_eq (hfound d hd).2
  have hexpanded : ∀ d ∈ seen ++ new, d ∈ queue ++ new ∨ ∀ e, g.Extends d e → e ∈ seen ++ new := by
    intro d hd
    rcases List.mem_append.1 hd with hd | hd
    · rcases h.expanded d hd with hqueue | hdone
      · rcases List.mem_cons.1 hqueue with rfl | hqueue
        · exact .inr hall
        · exact .inl (List.mem_append_left _ hqueue)
      · exact .inr fun e he => List.mem_append_left _ (hdone e he)
    · exact .inl (List.mem_append_right _ hd)
  have hpairwise : (queue ++ new).Pairwise fun d e => g.distance c d ≤ g.distance c e := by
    refine List.pairwise_append.2 ⟨hsorted, ?_, fun d hd e he => ?_⟩
    · refine List.pairwise_of_forall_mem_list fun d hd e he => ?_
      rw [(hfound d hd).2, (hfound e he).2]
    · rw [(hfound e he).2]
      exact hhigh d (List.mem_append_left _ hd)
  refine ⟨fun d hd => ?_, fun d hd => ?_, hexpanded, hpairwise, fun y hy => ?_⟩
  · rcases List.mem_append.1 hd with hd | hd
    · exact h.reached d hd
    · exact (hfound d hd).1
  · rcases List.mem_append.1 hd with hd | hd
    · exact List.mem_append_left _ (h.queued d (List.mem_cons_of_mem _ hd))
    · exact List.mem_append_right _ hd
  obtain ⟨rest, hrest⟩ := List.head?_eq_some_iff.1 hy
  have hlowy := hlow y (hrest ▸ List.mem_cons_self)
  have hhighy := hhigh y (hrest ▸ List.mem_cons_self)
  have hfirst : ∀ d ∈ queue ++ new, g.distance c y ≤ g.distance c d := by
    intro d hd
    rw [hrest] at hd hpairwise
    rcases List.mem_cons.1 hd with rfl | hd
    · exact Nat.le_refl (g.distance c d)
    · exact (List.pairwise_cons.1 hpairwise).1 d hd
  refine ⟨fun d hd => Nat.le_trans (hhigh d hd) (by omega), fun e he hle => ?_⟩
  rcases Nat.lt_or_ge (g.distance c x) (g.distance c e) with hlt | hge
  · -- What leads to the class is not in the queue any more, which starts further away.
    obtain ⟨d, hd, hde, hdx⟩ := exists_nearer he (by omega : g.distance c e = g.distance c x + 1)
    have hseen := (h.near x rfl).2 d hd (Nat.le_of_eq hdx)
    rcases hexpanded d (List.mem_append_left _ hseen) with hqueue | hdone
    · have hpast := hfirst d hqueue
      omega
    · exact hdone e hde
  · exact List.mem_append_left _ ((h.near x rfl).2 e he hge)

/-- A search finds classes in order of distance, none nearer than what was in its queue. -/
theorem Levelled.search_sorted (h : g.Levelled c queue seen) (steps : Nat) :
    (queue ++ search (fun d => d) g.superclasses steps queue seen).Pairwise
      fun d e => g.distance c d ≤ g.distance c e := by
  induction steps generalizing queue seen with
  | zero =>
    rw [search, List.append_nil]
    exact h.sorted
  | succ steps ih =>
    cases queue with
    | nil => exact List.Pairwise.nil
    | cons x queue =>
      have hfound := h.found
      generalize hnew : unseen (fun d => d) seen (g.superclasses x) = new at hfound
      have hrest := ih (h.step hnew)
      rw [search, hnew, List.map_id', List.cons_append, ← List.append_assoc]
      refine List.pairwise_cons.2 ⟨fun d hd => ?_, hrest⟩
      have hlow : ∀ d ∈ queue ++ new, g.distance c x ≤ g.distance c d := by
        intro d hd
        rcases List.mem_append.1 hd with hd | hd
        · exact (List.pairwise_cons.1 h.sorted).1 d hd
        · rw [(hfound d hd).2]
          omega
      rcases List.mem_append.1 hd with hd | hd
      · exact hlow d hd
      · cases hqueue : queue ++ new with
        | nil =>
          rw [hqueue, search_nil] at hd
          cases hd
        | cons y rest =>
          rw [hqueue] at hrest hd
          have hy := hlow y (hqueue ▸ List.mem_cons_self)
          exact Nat.le_trans hy ((List.pairwise_cons.1 hrest).1 d (List.mem_append_right _ hd))

/-- Superclasses are found in order of distance. -/
theorem allSuperclasses_sorted (g : Graph) (c : ElementId) :
    (g.allSuperclasses c).Pairwise fun d e => g.distance c d ≤ g.distance c e :=
  (List.pairwise_append.1 ((g.levelled_start c).search_sorted (g.supertypeCount + 1))).2.1

/-- More steps would find nothing else. -/
theorem allSuperclasses_settled (g : Graph) (c : ElementId) (more : Nat) :
    search (fun d => d) g.superclasses (g.supertypeCount + 1 + more) [c] [c] = g.allSuperclasses c :=
  search_settled (fun d => d) g.superclasses_subset (g.room_le_steps c) more

/-- What is found are the other classes that one step or more leads to. -/
theorem mem_allSuperclasses_iff (g : Graph) (c d : ElementId) :
    d ∈ g.allSuperclasses c ↔ d ≠ c ∧ Relation.TransGen g.Extends c d := by
  rw [mem_allSuperclasses]
  refine and_congr_right fun hne => ?_
  rw [Relation.reflTransGen_iff_eq_or_transGen]
  exact or_iff_right hne

end Graph

/-! ## Classes that inherit from themselves -/

/-- A search leaves out the class that it starts from, but the owner is looked for from each of its
    own superclasses. -/
theorem Binding.isCyclic_iff (g : Graph) (c : ElementId) :
    isCyclic g c = true ↔ Relation.TransGen g.Extends c c := by
  have hstep : isCyclic g c = true ↔ ∃ d, g.Extends c d ∧ (d = c ∨ c ∈ g.allSuperclasses d) := by
    unfold isCyclic
    simp only [List.any_eq_true, Bool.or_eq_true, beq_iff_eq, List.contains_iff_mem]
    rfl
  rw [hstep, Relation.TransGen.head'_iff]
  refine exists_congr fun d => and_congr_right fun _ => ?_
  rw [Graph.mem_allSuperclasses]
  constructor
  · rintro (rfl | ⟨-, hpath⟩)
    · exact .refl
    · exact hpath
  · intro hpath
    by_cases hdc : d = c
    · exact .inl hdc
    · exact .inr ⟨fun heq => hdc heq.symm, hpath⟩

end DartAnalysis
