/-
  What gathering collects. A run visits its queue and whatever the libraries found depend on, and
  nothing else, each source once; graph, pending libraries and parts are then the ones found at the
  visited sources, in order (`Gathered`). So a run is settled by what the sources turn out to be
  (`gather_visited_congr`), and it succeeds wherever they can be found and do not outnumber the
  budget (`gather_succeeds`).
-/
import DartAnalysis.Proofs.Program.Scope

namespace DartAnalysis

namespace Program

/-! ## Steps of a run -/

/-- Induction along a run: a library uses up budget, every other source shortens the queue. -/
theorem gather_induct {motive : Nat → List Source → Gathering → Prop}
    (nil : ∀ budget s, motive budget [] s)
    (seen : ∀ budget source rest s, source ∈ s.visited → motive budget rest s →
      motive budget (source :: rest) s)
    (new : ∀ budget source rest s, source ∉ s.visited → (∀ s', motive budget rest s') →
      (∀ less queue s', budget = less + 1 → motive less queue s') →
      motive budget (source :: rest) s)
    (budget : Nat) (queue : List Source) (s : Gathering) : motive budget queue s := by
  induction budget generalizing queue s with
  | zero =>
    induction queue generalizing s with
    | nil => exact nil 0 s
    | cons source rest ih =>
      by_cases h : source ∈ s.visited
      · exact seen 0 source rest s h (ih s)
      · exact new 0 source rest s h ih nofun
  | succ budget ihb =>
    induction queue generalizing s with
    | nil => exact nil (budget + 1) s
    | cons source rest ih =>
      by_cases h : source ∈ s.visited
      · exact seen (budget + 1) source rest s h (ih s)
      · refine new (budget + 1) source rest s h ih fun less queue s' hless => ?_
        obtain rfl := Nat.succ.inj hless
        exact ihb queue s'

section Steps

variable {m : Type → Type} [Monad m] [MonadExceptOf Failure m] (provider : Provider m)
  (root : Source) (budget : Nat) (s : Gathering)

theorem gather_nil : gather provider root budget [] s = pure s := by
  rw [gather]

theorem gather_seen {source : Source} {rest : List Source} (h : source ∈ s.visited) :
    gather provider root budget (source :: rest) s = gather provider root budget rest s := by
  rw [gather, if_pos (by simpa using h)]

/-- How a run goes on after a source that was found and taken in. -/
def proceed (rest : List Source) (found : Found) : m Gathering :=
  match found.library?, budget with
  | none, budget => gather provider root budget rest s
  | some _, 0 => throw .exhausted
  | some l, budget + 1 => gather provider root budget (rest ++ l.dependencies) s

theorem gather_new {source : Source} {rest : List Source} (h : source ∉ s.visited) :
    gather provider root budget (source :: rest) s = (do
      let found ← find provider source
      let s ← MonadExcept.ofExcept (s.enter root source found)
      proceed provider root budget s rest found) := by
  rw [gather, if_neg (by simpa using h)]
  rfl

end Steps

end Program

/-! ## What is found -/

/-- Two steps succeed if both of them do. -/
theorem exists_of_bind_eq_ok {ε α β : Type} {x : Except ε α} {f : α → Except ε β} {b : β}
    (h : x >>= f = .ok b) : ∃ a, x = .ok a ∧ f a = .ok b := by
  cases x with
  | error e => cases h
  | ok a => exact ⟨a, rfl, h⟩

/-- If not, one of them fails. -/
theorem of_bind_eq_error {ε α β : Type} {x : Except ε α} {f : α → Except ε β} {e : ε}
    (h : x >>= f = .error e) : x = .error e ∨ ∃ a, x = .ok a ∧ f a = .error e := by
  cases x with
  | error e' => exact .inl (congrArg Except.error (Except.error.inj h))
  | ok a => exact .inr ⟨a, rfl, h⟩

/-- Two runs that look alike fail alike, or both succeed. -/
theorem cases_of_map_eq {ε α β γ : Type} {x : Except ε α} {y : Except ε β} {f : α → γ} {g : β → γ}
    (h : x.map f = y.map g) :
    (∃ e, x = .error e ∧ y = .error e) ∨ ∃ a b, x = .ok a ∧ y = .ok b ∧ f a = g b := by
  cases x with
  | error e =>
    cases y with
    | error e' => exact .inl ⟨e, rfl, congrArg Except.error (Except.error.inj h).symm⟩
    | ok b => cases h
  | ok a =>
    cases y with
    | error e => cases h
    | ok b => exact .inr ⟨a, b, rfl, rfl, Except.ok.inj h⟩

open Program

namespace Provider

variable (p : Provider (Except Failure))

/-- A library that exists already stands at its own source. -/
def Sound : Prop := ∀ source l, p.library? source = .ok (some l) → l.source = source

/-- The provider has the unit as it is. -/
def Has (u : LibraryUnit) : Prop := p.unit? u.source = .ok (some u.tree)

/-- The library found at a source. -/
def libraryAt? (source : Source) : Option Library :=
  (find p source).toOption.bind Found.library?

/-- The library built at a source, with its units. -/
def pendingAt? (source : Source) : Option (LibraryId × List LibraryUnit) :=
  (find p source).toOption.bind Found.pending?

def isPartAt (source : Source) : Bool := (find p source).toOption.any Found.isPart

variable {p}

theorem libraryAt?_of_find {source : Source} {found : Found} (h : find p source = .ok found) :
    p.libraryAt? source = found.library? := by
  rw [libraryAt?, h]
  rfl

theorem pendingAt?_of_find {source : Source} {found : Found} (h : find p source = .ok found) :
    p.pendingAt? source = found.pending? := by
  rw [pendingAt?, h]
  rfl

theorem isPartAt_of_find {source : Source} {found : Found} (h : find p source = .ok found) :
    p.isPartAt source = found.isPart := by
  rw [isPartAt, h]
  rfl

theorem find_of_libraryAt? {source : Source} {l : Library} (h : p.libraryAt? source = some l) :
    ∃ found, find p source = .ok found ∧ found.library? = some l := by
  unfold libraryAt? at h
  cases hf : find p source with
  | error e =>
    rw [hf] at h
    cases h
  | ok found =>
    rw [hf] at h
    exact ⟨found, rfl, h⟩

/-- What a source can turn out to be, and why. -/
theorem find_eq_ok {source : Source} {found : Found} (h : find p source = .ok found) :
    (∃ l, p.library? source = .ok (some l) ∧ found = .known l) ∨
      p.library? source = .ok none ∧
        (p.unit? source = .ok none ∧ found = .absent ∨
          ∃ t, p.unit? source = .ok (some t) ∧
            (t.isPart = true ∧ found = .part ∨
              t.isPart = false ∧
                ∃ edition units, found = .built (.ofUnits ⟨source, edition⟩ units) units)) := by
  unfold find at h
  dsimp only [bind, Except.bind] at h
  split at h
  · cases h
  next hlibrary =>
  split at h
  · cases h
    exact .inl ⟨_, hlibrary, rfl⟩
  refine .inr ⟨hlibrary, ?_⟩
  split at h
  · cases h
  next hunit =>
  split at h
  · cases h
    exact .inl ⟨hunit, rfl⟩
  refine .inr ⟨_, hunit, ?_⟩
  split at h
  · next hpart =>
    cases h
    exact .inl ⟨hpart, rfl⟩
  next hpart =>
  refine .inr ⟨by simpa using hpart, ?_⟩
  split at h
  · cases h
  · split at h
    · cases h
    · cases h
      exact ⟨_, _, rfl⟩

/-- What is built goes by its source, and comes from a unit there that is no part. -/
theorem find_built {source : Source} {l : Library} {units : List LibraryUnit}
    (h : find p source = .ok (.built l units)) :
    p.library? source = .ok none ∧ (∃ t, p.unit? source = .ok (some t) ∧ t.isPart = false) ∧
      ∃ edition, l = .ofUnits ⟨source, edition⟩ units := by
  rcases find_eq_ok h with ⟨_, _, hl⟩ | ⟨hlibrary, ⟨_, hl⟩ | ⟨t, ht, ⟨_, hl⟩ | ⟨hpart, _, _, hl⟩⟩⟩
  · cases hl
  · cases hl
  · cases hl
  · cases hl
    exact ⟨hlibrary, ⟨t, ht, hpart⟩, _, rfl⟩

theorem find_known {source : Source} {l : Library} (h : find p source = .ok (.known l)) :
    p.library? source = .ok (some l) := by
  rcases find_eq_ok h with ⟨k, hk, hl⟩ | ⟨_, ⟨_, hl⟩ | ⟨_, _, ⟨_, hl⟩ | ⟨_, _, _, hl⟩⟩⟩
  · cases hl
    exact hk
  · cases hl
  · cases hl
  · cases hl

theorem find_of_library? {source : Source} {l : Library} (h : p.library? source = .ok (some l)) :
    find p source = .ok (.known l) := by
  unfold find
  rw [h]
  rfl

theorem Sound.source_eq (hp : p.Sound) {source : Source} {l : Library}
    (h : p.libraryAt? source = some l) : l.source = source := by
  obtain ⟨found, hfind, hl⟩ := find_of_libraryAt? h
  cases found with
  | known k =>
    obtain rfl := Option.some.inj hl
    exact hp source k (find_known hfind)
  | built k units =>
    obtain rfl := Option.some.inj hl
    obtain ⟨-, -, edition, rfl⟩ := find_built hfind
    rfl
  | part => cases hl
  | absent => cases hl

/-! ### Units -/

theorem Has.eq_of_source {u v : LibraryUnit} (hu : p.Has u) (hv : p.Has v)
    (h : u.source = v.source) : u = v := by
  obtain ⟨source, tree⟩ := u
  obtain ⟨source', tree'⟩ := v
  obtain rfl : source = source' := h
  obtain rfl := Option.some.inj (Except.ok.inj (hu.symm.trans hv))
  rfl

theorem of_mem_filterMapM {α β : Type} {f : α → Except Failure (Option β)} {xs : List α} {ys : List β}
    (h : xs.filterMapM f = .ok ys) : ∀ y ∈ ys, ∃ x ∈ xs, f x = .ok (some y) := by
  induction xs generalizing ys with
  | nil =>
    rw [List.filterMapM_nil] at h
    obtain rfl := Except.ok.inj h
    exact nofun
  | cons x xs ih =>
    rw [List.filterMapM_cons] at h
    obtain ⟨y?, hx, h⟩ := exists_of_bind_eq_ok h
    cases y? with
    | none =>
      intro y hy
      obtain ⟨x', hx', hy⟩ := ih h y hy
      exact ⟨x', List.mem_cons_of_mem x hx', hy⟩
    | some z =>
      obtain ⟨zs, hzs, h⟩ := exists_of_bind_eq_ok h
      obtain rfl := Except.ok.inj h
      intro y hy
      rcases List.mem_cons.1 hy with rfl | hy
      · exact ⟨x, List.mem_cons_self, hx⟩
      · obtain ⟨x', hx', hy⟩ := ih hzs y hy
        exact ⟨x', List.mem_cons_of_mem x hx', hy⟩

theorem has_of_mem_parts {t : Tree} {source : Source} {units : List LibraryUnit}
    (h : parts p t source = .ok units) : ∀ u ∈ units, p.Has u := by
  intro u hu
  obtain ⟨part, -, hpart⟩ := of_mem_filterMapM h u hu
  obtain ⟨t?, ht, hu⟩ := exists_of_bind_eq_ok hpart
  obtain ⟨tree, rfl, rfl⟩ := Option.map_eq_some_iff.1 (Except.ok.inj hu)
  exact ht

/-- The units of a library that is built are there. -/
theorem has_of_find_built {source : Source} {l : Library} {units : List LibraryUnit}
    (h : find p source = .ok (.built l units)) : ∀ u ∈ units, p.Has u := by
  unfold find at h
  obtain ⟨known?, -, h⟩ := exists_of_bind_eq_ok h
  split at h
  · cases h
  obtain ⟨t?, ht, h⟩ := exists_of_bind_eq_ok h
  split at h
  · cases h
  split at h
  · cases h
  obtain ⟨parts, hparts, h⟩ := exists_of_bind_eq_ok h
  obtain ⟨edition, -, h⟩ := exists_of_bind_eq_ok h
  obtain ⟨-, rfl⟩ := Program.Found.built.inj (Except.ok.inj h)
  intro u hu
  rcases List.mem_cons.1 hu with rfl | hu
  · exact ht
  · exact has_of_mem_parts hparts u hu

end Provider

namespace Program

/-! ## The state of a run -/

variable {p : Provider (Except Failure)} {root : Source}

/-- A state that holds what was found at the visited sources, in order. -/
structure Gathered (p : Provider (Except Failure)) (root : Source) (s : Gathering) : Prop where
  nodup : s.visited.Nodup
  found : ∀ source ∈ s.visited, ∃ found, find p source = .ok found ∧
    found.failure? root source = none
  libraries : s.graph.libraries = s.visited.reverse.filterMap p.libraryAt?
  pending : s.pending = s.visited.reverse.filterMap p.pendingAt?
  nonLibraries : s.nonLibraries = s.visited.reverse.filter p.isPartAt

theorem gathered_empty : Gathered p root {} := ⟨List.nodup_nil, nofun, rfl, rfl, rfl⟩

theorem enter_eq_ok {source : Source} {found : Found} {s s' : Gathering}
    (h : s.enter root source found = .ok s') :
    found.failure? root source = none ∧ s'.visited = source :: s.visited := by
  unfold Gathering.enter at h
  split at h
  · cases h
  · next hnone =>
    cases h
    exact ⟨hnone, rfl⟩

/-- A library of a new source comes after those that are there. -/
theorem Gathered.libraries_insert (hp : p.Sound) {s : Gathering} (hs : Gathered p root s)
    {source : Source} (hnew : source ∉ s.visited) {l : Library}
    (hl : p.libraryAt? source = some l) :
    (s.graph.insert l).libraries = s.graph.libraries ++ [l] := by
  unfold Graph.insert
  rw [List.filter_eq_self.2]
  intro k hk
  rw [hs.libraries] at hk
  obtain ⟨x, hx, hxk⟩ := List.mem_filterMap.1 hk
  have hne : x ≠ source := fun h => hnew (h ▸ List.mem_reverse.1 hx)
  rw [hp.source_eq hxk, hp.source_eq hl]
  simpa using hne

theorem Gathered.enter (hp : p.Sound) {s s' : Gathering} (hs : Gathered p root s) {source : Source}
    {found : Found} (hnew : source ∉ s.visited) (hfind : find p source = .ok found)
    (h : s.enter root source found = .ok s') : Gathered p root s' := by
  have hlibrary := Provider.libraryAt?_of_find hfind
  have hpending := Provider.pendingAt?_of_find hfind
  have hpart := Provider.isPartAt_of_find hfind
  unfold Gathering.enter at h
  split at h
  · cases h
  next hfailure =>
  cases h
  refine ⟨List.nodup_cons.2 ⟨hnew, hs.nodup⟩, fun x hx => ?_, ?_, ?_, ?_⟩
  · rcases List.mem_cons.1 hx with rfl | hx
    · exact ⟨found, hfind, hfailure⟩
    · exact hs.found x hx
  · rw [List.reverse_cons, List.filterMap_append, ← hs.libraries]
    cases hl : found.library? with
    | none => simp [hlibrary, hl]
    | some l => simpa [hlibrary, hl] using hs.libraries_insert hp hnew (hlibrary.trans hl)
  · rw [List.reverse_cons, List.filterMap_append, ← hs.pending]
    cases hl : found.pending? <;> simp [hpending, hl]
  · rw [List.reverse_cons, List.filter_append, ← hs.nonLibraries]
    cases hl : found.isPart <;> simp [hpart, hl]

/-! ## Runs that succeed -/

theorem gather_step {budget : Nat} {source : Source} {rest : List Source} {s : Gathering}
    (h : source ∉ s.visited) :
    gather p root budget (source :: rest) s =
      match find p source with
      | .error failure => .error failure
      | .ok found =>
        match s.enter root source found with
        | .error failure => .error failure
        | .ok s => proceed p root budget s rest found := by
  rw [gather_new _ _ _ _ h]
  cases find p source with
  | error failure => rfl
  | ok found =>
    dsimp only [bind, Except.bind]
    cases s.enter root source found <;> rfl

/-- How a run that succeeds comes to its end. -/
inductive Run (p : Provider (Except Failure)) (root : Source) :
    Nat → List Source → Gathering → Gathering → Prop where
  | nil (budget : Nat) (s : Gathering) : Run p root budget [] s s
  | seen {budget : Nat} {source : Source} {rest : List Source} {s s' : Gathering}
      (hseen : source ∈ s.visited) (hrest : Run p root budget rest s s') :
      Run p root budget (source :: rest) s s'
  | library {budget : Nat} {source : Source} {rest : List Source} {found : Found} {l : Library}
      {s s₁ s' : Gathering} (hnew : source ∉ s.visited) (hfind : find p source = .ok found)
      (hl : found.library? = some l) (henter : s.enter root source found = .ok s₁)
      (hrest : Run p root budget (rest ++ l.dependencies) s₁ s') :
      Run p root (budget + 1) (source :: rest) s s'
  | other {budget : Nat} {source : Source} {rest : List Source} {found : Found}
      {s s₁ s' : Gathering} (hnew : source ∉ s.visited) (hfind : find p source = .ok found)
      (hl : found.library? = none) (henter : s.enter root source found = .ok s₁)
      (hrest : Run p root budget rest s₁ s') :
      Run p root budget (source :: rest) s s'

theorem run_of_gather {budget : Nat} {queue : List Source} {s s' : Gathering}
    (h : gather p root budget queue s = .ok s') : Run p root budget queue s s' := by
  induction budget, queue, s using gather_induct with
  | nil =>
    rw [gather_nil] at h
    cases h
    exact .nil _ _
  | seen budget source rest s hseen ih =>
    rw [gather_seen _ _ _ _ hseen] at h
    exact .seen hseen (ih h)
  | new budget source rest s hnew ih ih' =>
    rw [gather_step hnew] at h
    split at h
    · cases h
    · next found hfind =>
      split at h
      · cases h
      · next s₁ henter =>
        unfold proceed at h
        split at h
        · next hl => exact .other hnew hfind hl henter (ih s₁ h)
        · cases h
        · next l less hl => exact .library hnew hfind hl henter (ih' less _ s₁ rfl h)

namespace Run

variable {budget : Nat} {queue : List Source} {s s' : Gathering}

theorem gathered (hp : p.Sound) (h : Run p root budget queue s s') (hs : Gathered p root s) :
    Gathered p root s' := by
  induction h with
  | nil => exact hs
  | seen _ _ ih => exact ih hs
  | library hnew hfind _ henter _ ih => exact ih (hs.enter hp hnew hfind henter)
  | other hnew hfind _ henter _ ih => exact ih (hs.enter hp hnew hfind henter)

theorem visited_subset (h : Run p root budget queue s s') : s.visited ⊆ s'.visited := by
  induction h with
  | nil => exact List.Subset.refl _
  | seen _ _ ih => exact ih
  | library _ _ _ henter _ ih | other _ _ _ henter _ ih =>
    exact fun x hx => ih ((enter_eq_ok henter).2 ▸ List.mem_cons_of_mem _ hx)

theorem queue_subset (h : Run p root budget queue s s') : queue ⊆ s'.visited := by
  induction h with
  | nil => exact List.nil_subset _
  | seen hseen hrest ih => exact List.cons_subset.2 ⟨hrest.visited_subset hseen, ih⟩
  | library _ _ _ henter hrest ih =>
    refine List.cons_subset.2 ⟨hrest.visited_subset ?_, fun x hx => ih (List.mem_append_left _ hx)⟩
    exact (enter_eq_ok henter).2 ▸ List.mem_cons_self
  | other _ _ _ henter hrest ih =>
    refine List.cons_subset.2 ⟨hrest.visited_subset ?_, ih⟩
    exact (enter_eq_ok henter).2 ▸ List.mem_cons_self

/-- What the libraries of visited sources depend on is visited or queued. -/
def Covered (p : Provider (Except Failure)) (s : Gathering) (queue : List Source) : Prop :=
  ∀ source ∈ s.visited, ∀ l, p.libraryAt? source = some l →
    ∀ d ∈ l.dependencies, d ∈ s.visited ∨ d ∈ queue

theorem covered (h : Run p root budget queue s s') (hs : Covered p s queue) : Covered p s' [] := by
  induction h with
  | nil => exact hs
  | seen hseen _ ih =>
    refine ih fun source hsource l hl d hd => ?_
    rcases hs source hsource l hl d hd with hd | hd
    · exact .inl hd
    · rcases List.mem_cons.1 hd with rfl | hd
      · exact .inl hseen
      · exact .inr hd
  | library _ hfind hl henter _ ih =>
    have hvisited := (enter_eq_ok henter).2
    refine ih fun source hsource k hk d hd => ?_
    rw [hvisited] at hsource ⊢
    rcases List.mem_cons.1 hsource with rfl | hsource
    · rw [Provider.libraryAt?_of_find hfind, hl] at hk
      cases hk
      exact .inr (List.mem_append_right _ hd)
    · rcases hs source hsource k hk d hd with hd | hd
      · exact .inl (List.mem_cons_of_mem _ hd)
      · rcases List.mem_cons.1 hd with rfl | hd
        · exact .inl List.mem_cons_self
        · exact .inr (List.mem_append_left _ hd)
  | other _ hfind hl henter _ ih =>
    have hvisited := (enter_eq_ok henter).2
    refine ih fun source hsource k hk d hd => ?_
    rw [hvisited] at hsource ⊢
    rcases List.mem_cons.1 hsource with rfl | hsource
    · rw [Provider.libraryAt?_of_find hfind, hl] at hk
      cases hk
    · rcases hs source hsource k hk d hd with hd | hd
      · exact .inl (List.mem_cons_of_mem _ hd)
      · rcases List.mem_cons.1 hd with rfl | hd
        · exact .inl List.mem_cons_self
        · exact .inr hd

/-- A run stays in any set of sources that it cannot leave. -/
theorem visited_within {V : Source → Prop} (h : Run p root budget queue s s')
    (hV : ∀ source l, V source → p.libraryAt? source = some l → ∀ d ∈ l.dependencies, V d)
    (hs : ∀ source ∈ s.visited, V source) (hqueue : ∀ source ∈ queue, V source) :
    ∀ source ∈ s'.visited, V source := by
  induction h with
  | nil => exact hs
  | seen _ _ ih => exact ih hs fun x hx => hqueue x (List.mem_cons_of_mem _ hx)
  | @library _ source rest found l s s₁ s' _ hfind hl henter _ ih =>
    have hsource := hqueue source List.mem_cons_self
    refine ih (fun x hx => ?_) fun x hx => ?_
    · rw [(enter_eq_ok henter).2] at hx
      rcases List.mem_cons.1 hx with rfl | hx
      · exact hsource
      · exact hs x hx
    · rcases List.mem_append.1 hx with hx | hx
      · exact hqueue x (List.mem_cons_of_mem _ hx)
      · exact hV source l hsource ((Provider.libraryAt?_of_find hfind).trans hl) x hx
  | @other _ source rest found s s₁ s' _ hfind hl henter _ ih =>
    refine ih (fun x hx => ?_) fun x hx => hqueue x (List.mem_cons_of_mem _ hx)
    rw [(enter_eq_ok henter).2] at hx
    rcases List.mem_cons.1 hx with rfl | hx
    · exact hqueue _ List.mem_cons_self
    · exact hs x hx

/-- A run finds no more libraries than its budget allows. -/
theorem count_le (h : Run p root budget queue s s') :
    s'.visited.countP (p.libraryAt? · |>.isSome) ≤
      s.visited.countP (p.libraryAt? · |>.isSome) + budget := by
  induction h with
  | nil => exact Nat.le_add_right _ _
  | seen _ _ ih => exact ih
  | library _ hfind hl henter _ ih =>
    refine Nat.le_trans ih ?_
    rw [(enter_eq_ok henter).2, List.countP_cons]
    split <;> omega
  | other _ hfind hl henter _ ih =>
    refine Nat.le_trans ih (Nat.le_of_eq ?_)
    rw [(enter_eq_ok henter).2,
      List.countP_cons_of_neg (by simp [Provider.libraryAt?_of_find hfind, hl])]

end Run

/-- Why a run fails at a source: the provider fails there, or the program cannot do with what is
    found there. -/
def FailsAt (p : Provider (Except Failure)) (root source : Source) (failure : Failure) : Prop :=
  find p source = .error failure ∨
    ∃ found, find p source = .ok found ∧ found.failure? root source = some failure

/-- A run comes to its end, or fails at a source it has come to, if its budget is enough for the
    libraries at such sources. -/
theorem gather_ends {P : Source → Prop} {V : List Source}
    (hP : ∀ source l, P source → p.libraryAt? source = some l → ∀ d ∈ l.dependencies, P d)
    (hV : ∀ source l, P source → p.libraryAt? source = some l → source ∈ V)
    {budget : Nat} {queue : List Source} {s : Gathering} (hqueue : ∀ source ∈ queue, P source)
    (hbudget : V.countP (fun source => (p.libraryAt? source).isSome &&
      !s.visited.contains source) ≤ budget) :
    (∃ s', gather p root budget queue s = .ok s') ∨
      ∃ source failure, P source ∧ FailsAt p root source failure ∧
        gather p root budget queue s = .error failure := by
  induction budget, queue, s using gather_induct with
  | nil => exact .inl ⟨_, gather_nil ..⟩
  | seen budget source rest s hseen ih =>
    rw [gather_seen _ _ _ _ hseen]
    exact ih (fun x hx => hqueue x (List.mem_cons_of_mem _ hx)) hbudget
  | new budget source rest s hnew ih ih' =>
    have hsource := hqueue source List.mem_cons_self
    have hrest : ∀ x ∈ rest, P x := fun x hx => hqueue x (List.mem_cons_of_mem _ hx)
    rw [gather_step hnew]
    cases hfind : find p source with
    | error failure => exact .inr ⟨source, failure, hsource, .inl hfind, rfl⟩
    | ok found =>
      have hlibrary := Provider.libraryAt?_of_find hfind
      dsimp only
      cases henter : s.enter root source found with
      | error failure =>
        refine .inr ⟨source, failure, hsource, .inr ⟨found, hfind, ?_⟩, rfl⟩
        unfold Gathering.enter at henter
        split at henter
        · next hfailure =>
          cases henter
          exact hfailure
        · cases henter
      | ok s₁ =>
        have hvisited := (enter_eq_ok henter).2
        have hmono : ∀ x, (p.libraryAt? x).isSome && !s₁.visited.contains x →
            (p.libraryAt? x).isSome && !s.visited.contains x := by
          intro x
          rw [hvisited]
          simp only [Bool.and_eq_true, Bool.not_eq_true', List.contains_eq_mem,
            decide_eq_false_iff_not, List.mem_cons, not_or]
          exact fun h => ⟨h.1, h.2.2⟩
        dsimp only
        unfold proceed
        split
        · exact ih s₁ hrest (Nat.le_trans (List.countP_mono_left fun x _ => hmono x) hbudget)
        · next l hl =>
          -- The library is one of those that the budget has to be enough for.
          have hless := countP_lt_of_mem hmono (hV source l hsource (hlibrary.trans hl))
            (by simp [hvisited]) (by simpa [hlibrary, hl] using hnew)
          exact absurd hbudget (Nat.not_le_of_lt (Nat.lt_of_le_of_lt (Nat.zero_le _) hless))
        · next l less hl =>
          have hless := countP_lt_of_mem hmono (hV source l hsource (hlibrary.trans hl))
            (by simp [hvisited]) (by simpa [hlibrary, hl] using hnew)
          refine ih' less _ s₁ rfl (fun x hx => ?_) (by omega)
          rcases List.mem_append.1 hx with hx | hx
          · exact hrest x hx
          · exact hP source l hsource (hlibrary.trans hl) x hx

/-- A run succeeds if everything it can come to is found, and if its budget is enough for the
    libraries among that. -/
theorem gather_succeeds {V : List Source}
    (hV : ∀ source l, source ∈ V → p.libraryAt? source = some l → ∀ d ∈ l.dependencies, d ∈ V)
    (hfound : ∀ source ∈ V, ∃ found, find p source = .ok found ∧ found.failure? root source = none)
    {budget : Nat} {queue : List Source} {s : Gathering} (hqueue : ∀ source ∈ queue, source ∈ V)
    (hbudget : V.countP (fun source => (p.libraryAt? source).isSome &&
      !s.visited.contains source) ≤ budget) :
    ∃ s', gather p root budget queue s = .ok s' := by
  refine (gather_ends (P := (· ∈ V)) hV (fun _ _ h _ => h) hqueue hbudget).resolve_right ?_
  rintro ⟨source, failure, hsource, hfails, -⟩
  obtain ⟨found, hfind, hnone⟩ := hfound source hsource
  rcases hfails with herror | ⟨found', hfind', hsome⟩
  · rw [hfind] at herror
    cases herror
  · rw [hfind] at hfind'
    cases hfind'
    rw [hnone] at hsome
    cases hsome

/-! ## Runs alike -/

/-- What a run cannot tell apart: libraries of one outline. -/
structure Found.Alike (found found' : Found) : Prop where
  outline : found.library?.map Library.outline = found'.library?.map Library.outline
  failure : ∀ root source, found.failure? root source = found'.failure? root source
  isPart : found.isPart = found'.isPart

theorem Found.Alike.refl (found : Found) : found.Alike found := ⟨rfl, fun _ _ => rfl, rfl⟩

/-- Two searches that fail alike or find what is alike. -/
def AlikeAt (p p' : Provider (Except Failure)) (source : Source) : Prop :=
  (∃ failure, find p source = .error failure ∧ find p' source = .error failure) ∨
    ∃ found found', find p source = .ok found ∧ find p' source = .ok found' ∧ found.Alike found'

variable {p' : Provider (Except Failure)}

theorem AlikeAt.library {source : Source} (h : AlikeAt p p' source) :
    (p.libraryAt? source).map Library.outline = (p'.libraryAt? source).map Library.outline := by
  rcases h with ⟨failure, hp, hp'⟩ | ⟨found, found', hp, hp', hlike⟩
  · rw [Provider.libraryAt?, Provider.libraryAt?, hp, hp']
  · rw [Provider.libraryAt?_of_find hp, Provider.libraryAt?_of_find hp', hlike.outline]

theorem AlikeAt.isPart {source : Source} (h : AlikeAt p p' source) :
    p.isPartAt source = p'.isPartAt source := by
  rcases h with ⟨failure, hp, hp'⟩ | ⟨found, found', hp, hp', hlike⟩
  · rw [Provider.isPartAt, Provider.isPartAt, hp, hp']
  · rw [Provider.isPartAt_of_find hp, Provider.isPartAt_of_find hp', hlike.isPart]

/-- Runs over what is alike visit the same sources, or fail for the same reason. -/
theorem gather_visited_congr (h : ∀ source, AlikeAt p p' source) {budget : Nat}
    {queue : List Source} {s s' : Gathering} (hs : s.visited = s'.visited) :
    (gather p root budget queue s).map Gathering.visited =
      (gather p' root budget queue s').map Gathering.visited := by
  induction budget, queue, s using gather_induct generalizing s' with
  | nil =>
    rw [gather_nil, gather_nil]
    exact congrArg Except.ok hs
  | seen budget source rest s hseen ih =>
    rw [gather_seen _ _ _ _ hseen, gather_seen _ _ _ _ (hs ▸ hseen)]
    exact ih hs
  | new budget source rest s hnew ih ih' =>
    rw [gather_step hnew, gather_step (hs ▸ hnew)]
    rcases h source with ⟨failure, hp, hp'⟩ | ⟨found, found', hp, hp', hlike⟩
    · rw [hp, hp']
    rw [hp, hp']
    dsimp only
    unfold Gathering.enter
    rw [hlike.failure]
    cases found'.failure? root source with
    | some failure => rfl
    | none =>
      dsimp only
      unfold proceed
      have houtline := hlike.outline
      cases hl : found.library? with
      | none =>
        rw [hl] at houtline
        rw [Option.map_eq_none_iff.1 houtline.symm]
        exact ih _ (congrArg (source :: ·) hs)
      | some l =>
        rw [hl] at houtline
        obtain ⟨l', hl', hll'⟩ := Option.map_eq_some_iff.1 houtline.symm
        rw [hl']
        cases budget with
        | zero => rfl
        | succ less =>
          dsimp only
          rw [Library.dependencies_eq_of_outline hll']
          exact ih' less _ _ rfl (congrArg (source :: ·) hs)

end Program

end DartAnalysis
