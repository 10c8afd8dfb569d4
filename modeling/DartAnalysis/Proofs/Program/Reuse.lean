/-
  Programs that reuse libraries. A program may be built from libraries that earlier programs have
  built, each of them in the place of what would be found in its source; such a store is `Warm`. It
  never changes whether a program can be built, nor what its sources are (`ofRoot_cases`). Its
  libraries are those of a program built without the store if the program is `Steady`: if no library
  that was built for it names an alias of another such library (`graph_eq_of_steady`). What has been
  built joins the store (`Warm.extend`).
-/
import DartAnalysis.Proofs.Program.Finished
import DartAnalysis.Proofs.Program.Typed

namespace DartAnalysis

/-- Feeds a program from units that can be read at once, and from known libraries. -/
def Provider.reading (unit? : Source → Except Failure (Option Tree))
    (known : Source → Option Library) (room : Nat) : Provider (Except Failure) where
  unit? := unit?
  library? source := .ok (known source)
  edition := .ok 0
  room := room

namespace Program

variable (unit? : Source → Except Failure (Option Tree)) (installed known : Source → Option Library)
  (room : Nat)

/-- The program of a root, gathered from units and installed libraries, keeps to its aliases. -/
def Steady (root : Source) : Prop :=
  ∀ s, gather (.reading unit? installed room) root room [root, .core] {} = .ok s →
    ∀ entry ∈ s.pending, ∀ l, s.graph.libraryOf? entry.1.source = some l →
      s.graph.KeepsAliases (fun source => (installed source).isSome) l entry.2

/-- Known libraries that may be used in the place of their sources: the installed ones, and others
    with the outlines that their sources give them, which have the declared types of their own
    programs if those are steady. -/
structure Warm : Prop where
  installed_source : ∀ source l, installed source = some l → l.source = source
  known_of_installed : ∀ source l, installed source = some l → known source = some l
  built : ∀ source l, installed source = none → known source = some l →
    ∃ l₀ units, find (.reading unit? installed room) source = .ok (.built l₀ units) ∧
      l.outline = l₀.outline
  typed : ∀ source l, installed source = none → known source = some l →
    Steady unit? installed room source → ∃ q, ofRoot (.reading unit? installed room) source = .ok q ∧
      q.graph.libraryOf? source = some l

variable {unit? installed known room} {root : Source}

variable (unit? room) in
theorem warm_installed (h : ∀ source l, installed source = some l → l.source = source) :
    Warm unit? installed installed room := by
  refine ⟨h, fun _ _ hl => hl, fun source l hnone hl => ?_, fun source l hnone hl => ?_⟩
  · rw [hnone] at hl
    cases hl
  · rw [hnone] at hl
    cases hl

theorem ofRoot_eq (p : Provider (Except Failure)) (root : Source) :
    ofRoot p root = (gather p root p.room [root, .core] {}).bind finish := by
  unfold ofRoot
  cases gather p root p.room [root, .core] {} with
  | error failure => rfl
  | ok s =>
    show (MonadExcept.ofExcept (finish s) : Except Failure Program) = finish s
    cases finish s <;> rfl

theorem ofRoot_reading (root : Source) : ofRoot (.reading unit? known room) root =
    (gather (.reading unit? known room) root room [root, .core] {}).bind finish := ofRoot_eq _ root

theorem gather_of_ofRoot {p : Provider (Except Failure)} {q : Program} (h : ofRoot p root = .ok q) :
    ∃ s, gather p root p.room [root, .core] {} = .ok s ∧ finish s = .ok q := by
  rw [ofRoot_eq] at h
  cases hgather : gather p root p.room [root, .core] {} with
  | error failure =>
    rw [hgather] at h
    cases h
  | ok s =>
    rw [hgather] at h
    exact ⟨s, rfl, h⟩

/-! ## What is found with a store and without -/

variable (unit? room) in
theorem find_reading_known {source : Source} {l : Library} (h : known source = some l) :
    find (.reading unit? known room) source = .ok (.known l) := by
  unfold find Provider.reading
  dsimp only [bind, Except.bind]
  rw [h]
  rfl

theorem find_reading_unknown {source : Source} (h : known source = none)
    (hinstalled : installed source = none) :
    find (.reading unit? known room) source = find (.reading unit? installed room) source := by
  unfold find Provider.reading parts
  dsimp only [bind, Except.bind]
  rw [h, hinstalled]

theorem known_of_find_built {source : Source} {l : Library} {units : List LibraryUnit}
    (h : find (.reading unit? known room) source = .ok (.built l units)) : known source = none := by
  cases hknown : known source with
  | none => rfl
  | some k =>
    rw [find_reading_known unit? room hknown] at h
    cases h

namespace Warm

variable (hw : Warm unit? installed known room)
include hw

theorem installed_eq_none {source : Source} (h : known source = none) : installed source = none := by
  cases hl : installed source with
  | none => rfl
  | some l =>
    rw [hw.known_of_installed source l hl] at h
    cases h

theorem find_eq {source : Source} (h : known source = none) :
    find (.reading unit? known room) source = find (.reading unit? installed room) source :=
  find_reading_unknown h (hw.installed_eq_none h)

theorem alike (source : Source) :
    AlikeAt (.reading unit? known room) (.reading unit? installed room) source := by
  cases hk : known source with
  | none =>
    have heq := hw.find_eq hk
    cases hfind : find (.reading unit? installed room) source with
    | error failure => exact .inl ⟨failure, heq.trans hfind, hfind⟩
    | ok found => exact .inr ⟨found, found, heq.trans hfind, hfind, .refl found⟩
  | some l =>
    refine .inr ?_
    cases hi : installed source with
    | some l' =>
      have hl : known source = some l' := hw.known_of_installed source l' hi
      exact ⟨_, _, find_reading_known _ _ hl, find_reading_known _ _ hi, .refl _⟩
    | none =>
      obtain ⟨l₀, units, hfind, houtline⟩ := hw.built source l hi hk
      exact ⟨_, _, find_reading_known _ _ hk, hfind, congrArg some houtline, fun _ _ => rfl, rfl⟩

theorem sound_installed : (Provider.reading unit? installed room).Sound := by
  intro source l h
  exact hw.installed_source source l (Except.ok.inj h)

theorem sound : (Provider.reading unit? known room).Sound := by
  intro source l h
  have hk : known source = some l := Except.ok.inj h
  cases hi : installed source with
  | some l' =>
    rw [hw.known_of_installed source l' hi] at hk
    cases hk
    exact hw.installed_source source l hi
  | none =>
    obtain ⟨l₀, units, hfind, houtline⟩ := hw.built source l hi hk
    obtain ⟨-, -, edition, rfl⟩ := Provider.find_built hfind
    exact Library.source_eq_of_outline houtline

end Warm

/-! ## Gathered programs -/

/-- A program as far as it is gathered, at the end of its run. -/
structure Complete (p : Provider (Except Failure)) (root : Source) (s : Gathering) : Prop where
  gathered : Gathered p root s
  covered : Run.Covered p s []
  root_mem : root ∈ s.visited
  core_mem : Source.core ∈ s.visited
  count_le : s.visited.countP (p.libraryAt? · |>.isSome) ≤ p.room

section Complete

variable {p : Provider (Except Failure)} {s : Gathering}

theorem complete_of_gather (hp : p.Sound)
    (h : gather p root p.room [root, .core] {} = .ok s) : Complete p root s := by
  have hrun := run_of_gather h
  have hqueue := hrun.queue_subset
  refine ⟨hrun.gathered hp gathered_empty, hrun.covered nofun, hqueue List.mem_cons_self,
    hqueue (List.mem_cons_of_mem _ List.mem_cons_self), ?_⟩
  simpa using hrun.count_le

theorem Complete.dependencies (hs : Complete p root s) {source d : Source} {l : Library}
    (hsource : source ∈ s.visited) (hl : p.libraryAt? source = some l) (hd : d ∈ l.dependencies) :
    d ∈ s.visited := by
  rcases hs.covered source hsource l hl d hd with hd | hd
  · exact hd
  · cases hd

theorem Complete.selfContained (hp : p.Sound) (hs : Complete p root s) :
    s.graph.SelfContained (· ∈ s.visited) := by
  refine ⟨hs.core_mem, fun source l hsource hl d hd => ?_⟩
  rw [hs.gathered.libraryOf? hp hsource] at hl
  exact hs.dependencies hsource hl hd

end Complete

variable {s s' : Gathering}

/-- Gathered graphs agree where both have been. -/
theorem agree_of_complete {p p' : Provider (Except Failure)} {root' : Source}
    (halike : ∀ source, AlikeAt p p' source) (hp : p.Sound) (hp' : p'.Sound)
    (hs : Complete p root s) (hs' : Complete p' root' s') (hsub : s'.visited ⊆ s.visited) :
    Graph.Agree (· ∈ s'.visited) s.graph s'.graph := by
  intro source hsource
  rw [hs.gathered.libraryOf? hp (hsub hsource), hs'.gathered.libraryOf? hp' hsource]
  exact (halike source).library

theorem outlines_eq_of_complete {p p' : Provider (Except Failure)}
    (halike : ∀ source, AlikeAt p p' source) (hs : Complete p root s) (hs' : Complete p' root s')
    (hvisited : s.visited = s'.visited) : s.graph.outlines = s'.graph.outlines := by
  unfold Graph.outlines
  rw [hs.gathered.libraries, hs'.gathered.libraries, hvisited, List.map_filterMap,
    List.map_filterMap]
  exact congrArg (List.filterMap · _) (funext fun source => (halike source).library)

theorem failure?_of_not_part {found : Found} {root root' source : Source}
    (h : found.failure? root source = none) (hpart : found = .part → source ≠ root') :
    found.failure? root' source = none := by
  cases found with
  | part => exact if_neg (hpart rfl)
  | absent => exact h
  | _ => rfl

section Store

variable (hw : Warm unit? installed known room)
include hw

/-- A library found in a program has a program of its own, without a store. -/
theorem gather_of_mem (hs : Complete (.reading unit? known room) root s) {source : Source} {l : Library}
    (hsource : source ∈ s.visited)
    (hl : (Provider.reading unit? installed room).libraryAt? source = some l) :
    ∃ s₀, gather (.reading unit? installed room) source room [source, .core] {} = .ok s₀ ∧
      Complete (.reading unit? installed room) source s₀ ∧ s₀.visited ⊆ s.visited := by
  have hdependencies (x : Source) (k : Library) (hx : x ∈ s.visited)
      (hk : (Provider.reading unit? installed room).libraryAt? x = some k) :
      ∀ d ∈ k.dependencies, d ∈ s.visited := by
    have houtline := (hw.alike x).library
    rw [hk] at houtline
    obtain ⟨k', hk', hkk'⟩ := Option.map_eq_some_iff.1 houtline
    intro d hd
    refine hs.dependencies hx hk' ?_
    rw [Library.dependencies_eq_of_outline hkk']
    exact hd
  have hqueue : ∀ x ∈ [source, Source.core], x ∈ s.visited := by
    intro x hx
    rcases List.mem_cons.1 hx with rfl | hx
    · exact hsource
    · exact List.mem_singleton.1 hx ▸ hs.core_mem
  obtain ⟨s₀, hs₀⟩ : ∃ s₀,
      gather (.reading unit? installed room) source room [source, .core] {} = .ok s₀ := by
    refine gather_succeeds hdependencies (fun x hx => ?_) hqueue ?_
    · obtain ⟨found, hfind, hfailure⟩ := hs.gathered.found x hx
      rcases hw.alike x with ⟨failure, herror, -⟩ | ⟨found', found₀, hfind', hfind₀, hlike⟩
      · rw [hfind] at herror
        cases herror
      · rw [hfind] at hfind'
        cases hfind'
        refine ⟨found₀, hfind₀, failure?_of_not_part (hlike.failure root x ▸ hfailure) ?_⟩
        rintro rfl rfl
        rw [Provider.libraryAt?_of_find hfind₀] at hl
        cases hl
    · refine Nat.le_trans (List.countP_mono_left fun x _ hx => ?_) hs.count_le
      have houtline := congrArg Option.isSome (hw.alike x).library
      simp only [Option.isSome_map] at houtline
      rw [houtline]
      exact (Bool.and_eq_true _ _ ▸ hx : _ ∧ _).1
  have hrun := run_of_gather hs₀
  exact ⟨s₀, hs₀, complete_of_gather hw.sound_installed hs₀,
    hrun.visited_within (fun x k hx hk => hdependencies x k hx hk) nofun hqueue⟩

/-- A library that is built for a program gets the declared types that it has in its own program,
    if that one is steady. -/
theorem typed_of_pending (hgather : gather (.reading unit? known room) root room [root, .core] {}
      = .ok s) {q : Program} (hq : finish s = .ok q) {entry : LibraryId × List LibraryUnit}
    (hentry : entry ∈ s.pending) (hsteady : Steady unit? installed room entry.1.source) :
    ∃ q₀, ofRoot (.reading unit? installed room) entry.1.source = .ok q₀ ∧
      q₀.graph.libraryOf? entry.1.source = q.graph.libraryOf? entry.1.source := by
  have hs := complete_of_gather hw.sound hgather
  obtain ⟨hvisited, l, hfind, hid⟩ := hs.gathered.mem_pending hentry
  have hfind₀ : find (.reading unit? installed room) entry.1.source = .ok (.built l entry.2) :=
    (hw.find_eq (known_of_find_built hfind)).symm.trans hfind
  obtain ⟨s₀, hs₀, hcomplete₀, hsub⟩ :=
    gather_of_mem hw hs hvisited (Provider.libraryAt?_of_find hfind₀)
  have hagree := agree_of_complete hw.alike hw.sound hw.sound_installed hs hcomplete₀ hsub
  -- The program of the library is finished, with the same core types.
  obtain ⟨q₀, hq₀, hcore⟩ : ∃ q₀, finish s₀ = .ok q₀ ∧ q₀.core = q.core := by
    rcases cases_of_map_eq (finish_core_congr (hagree .core hcomplete₀.core_mem)) with
      ⟨failure, hfailure, -⟩ | ⟨q', q₀, hq', hq₀, hcore⟩
    · cases hq.symm.trans hfailure
    · cases hq.symm.trans hq'
      exact ⟨q₀, hq₀, hcore.symm⟩
  refine ⟨q₀, by rw [ofRoot_reading, hs₀]; exact hq₀, ?_⟩
  have hlibrary : s.graph.libraryOf? entry.1.source = some l := by
    rw [hs.gathered.libraryOf? hw.sound hvisited]
    exact Provider.libraryAt?_of_find hfind
  have hlibrary₀ : s₀.graph.libraryOf? entry.1.source = some l := by
    rw [hcomplete₀.gathered.libraryOf? hw.sound_installed hcomplete₀.root_mem]
    exact Provider.libraryAt?_of_find hfind₀
  have hentry₀ : entry ∈ s₀.pending := by
    have := hcomplete₀.gathered.pending_of_built hcomplete₀.root_mem hfind₀
    rwa [hid] at this
  obtain ⟨-, -, -, hgraph, -, -⟩ := finish_eq_ok hq
  obtain ⟨-, -, -, hgraph₀, -, -⟩ := finish_eq_ok hq₀
  obtain ⟨g, hg, hgl, hgsame, hgtyped⟩ := @Graph.libraryOf?_declareAll _ q.core _ _ _ _
    (hs.gathered.distinct hw.sound) hs.gathered.nodup_pending (List.mem_reverse.2 hentry)
    hlibrary hid
  obtain ⟨g₀, hg₀, hgl₀, hgsame₀, hgtyped₀⟩ := @Graph.libraryOf?_declareAll _ q.core _ _ _ _
    (hcomplete₀.gathered.distinct hw.sound_installed) hcomplete₀.gathered.nodup_pending
    (List.mem_reverse.2 hentry₀) hlibrary₀ hid
  rw [hgraph, hgraph₀, hcore, hgtyped, hgtyped₀]
  -- Both graphs have the gathered outlines, and installed libraries stay as they are.
  have hlsource : l.source = entry.1.source := congrArg LibraryId.source hid
  have hagree' : Graph.Agree (· ∈ s₀.visited) g₀ g := by
    intro source hsource
    rw [Graph.agree_of_outlines hg₀ (· ∈ s₀.visited) source hsource,
      Graph.agree_of_outlines hg (· ∈ s₀.visited) source hsource]
    exact (hagree source hsource).symm
  have hclosed₀ : g₀.SelfContained (· ∈ s₀.visited) :=
    (Graph.agree_of_outlines hg₀ _).symm.selfContained (hcomplete₀.selfContained hw.sound_installed)
  have hfixed : ∀ source, source ∈ s₀.visited → (installed source).isSome →
      g₀.libraryOf? source = g.libraryOf? source := by
    intro source hsource hinstalled
    obtain ⟨k, hk⟩ := Option.isSome_iff_exists.1 hinstalled
    have hnotPending {p : Provider (Except Failure)} {r : Source} {t : Gathering}
        (ht : Gathered p r t) (hknown : find p source = .ok (.known k)) :
        ∀ e ∈ t.pending.reverse, e.1.source ≠ source := by
      intro e he heq
      obtain ⟨-, _, hbuilt, -⟩ := ht.mem_pending (List.mem_reverse.1 he)
      rw [heq, hknown] at hbuilt
      cases hbuilt
    have hknown := find_reading_known unit? room (hw.known_of_installed source k hk)
    have hknown₀ := find_reading_known unit? room hk
    rw [hgsame source (hnotPending hs.gathered hknown),
      hgsame₀ source (hnotPending hcomplete₀.gathered hknown₀),
      hs.gathered.libraryOf? hw.sound (hsub hsource),
      hcomplete₀.gathered.libraryOf? hw.sound_installed hsource,
      Provider.libraryAt?_of_find hknown, Provider.libraryAt?_of_find hknown₀]
  have halias : g₀.KeepsAliases (fun source => (installed source).isSome) l entry.2 :=
    (hsteady s₀ hs₀ entry hentry₀ l hlibrary₀).of_agree
      (Graph.agree_of_outlines hg₀.symm _) (hcomplete₀.selfContained hw.sound_installed)
      (hlsource ▸ hcomplete₀.root_mem) (hlsource ▸ hlibrary₀) (hlsource ▸ hgl₀)
  exact congrArg some (Graph.typedLibrary_eq_of_agree hagree' hclosed₀
    (hlsource ▸ hcomplete₀.root_mem) (hlsource ▸ hgl₀) (hlsource ▸ hgl) hfixed halias q.core)

/-- A program can be built with the store if and only if it can without, and then from the same
    sources and with the same core types. -/
theorem ofRoot_cases (root : Source) :
    (∃ failure, ofRoot (.reading unit? known room) root = .error failure ∧
      ofRoot (.reading unit? installed room) root = .error failure) ∨
    ∃ s s₀ q q₀, gather (.reading unit? known room) root room [root, .core] {} = .ok s ∧
      gather (.reading unit? installed room) root room [root, .core] {} = .ok s₀ ∧
      s.visited = s₀.visited ∧ finish s = .ok q ∧ finish s₀ = .ok q₀ ∧ q.core = q₀.core := by
  rw [ofRoot_reading, ofRoot_reading]
  rcases cases_of_map_eq (@gather_visited_congr _ root _ hw.alike room [root, .core] {} {} rfl) with
    ⟨failure, hs, hs₀⟩ | ⟨s, s₀, hs, hs₀, hvisited⟩
  · rw [show gather _ root room [root, .core] {} = _ from hs,
      show gather _ root room [root, .core] {} = _ from hs₀]
    exact .inl ⟨failure, rfl, rfl⟩
  have hcomplete := complete_of_gather hw.sound hs
  have hcomplete₀ := complete_of_gather hw.sound_installed hs₀
  have hagree := agree_of_complete hw.alike hw.sound hw.sound_installed hcomplete hcomplete₀
    fun x hx => hvisited ▸ hx
  rw [show gather _ root room [root, .core] {} = _ from hs,
    show gather _ root room [root, .core] {} = _ from hs₀]
  rcases cases_of_map_eq (finish_core_congr (hagree .core hcomplete₀.core_mem)) with
    ⟨failure, hq, hq₀⟩ | ⟨q, q₀, hq, hq₀, hcore⟩
  · exact .inl ⟨failure, hq, hq₀⟩
  · exact .inr ⟨s, s₀, q, q₀, rfl, rfl, hvisited, hq, hq₀, hcore⟩

end Store

/-- What is reached in a steady program has a steady program. -/
theorem Steady.of_mem (hsteady : Steady unit? installed room root)
    (hw : Warm unit? installed installed room)
    (hgather : gather (.reading unit? installed room) root room [root, .core] {} = .ok s)
    {source : Source} {l : Library} (hsource : source ∈ s.visited)
    (hl : (Provider.reading unit? installed room).libraryAt? source = some l) :
    Steady unit? installed room source := by
  intro s₀ hs₀ entry hentry k hk
  have hs := complete_of_gather hw.sound hgather
  have hcomplete₀ := complete_of_gather hw.sound hs₀
  obtain ⟨s₁, hs₁, -, hsub⟩ := gather_of_mem hw hs hsource hl
  rw [hs₀] at hs₁
  cases hs₁
  obtain ⟨hvisited, l', hfind, hid⟩ := hcomplete₀.gathered.mem_pending hentry
  have hkl : k = l' := by
    rw [hcomplete₀.gathered.libraryOf? hw.sound hvisited,
      Provider.libraryAt?_of_find hfind] at hk
    exact (Option.some.inj hk).symm
  subst hkl
  have hks : s.graph.libraryOf? entry.1.source = some k := by
    rw [hs.gathered.libraryOf? hw.sound (hsub hvisited), Provider.libraryAt?_of_find hfind]
    rfl
  have hmem : entry ∈ s.pending := by
    have := hs.gathered.pending_of_built (hsub hvisited) hfind
    rwa [hid] at this
  have hagree := agree_of_complete hw.alike hw.sound hw.sound hs hcomplete₀ hsub
  have hksource : k.source = entry.1.source := congrArg LibraryId.source hid
  exact (hsteady s hgather entry hmem k hks).of_agree hagree
    (hagree.symm.selfContained (hcomplete₀.selfContained hw.sound)) (hksource ▸ hvisited) (hksource ▸ hks)
    (hksource ▸ hk)

/-- A program that builds no other library than its root is steady. -/
theorem steady_of_alone (hinstalled : ∀ source l, installed source = some l → l.source = source)
    (halone : ∀ source t, unit? source = .ok (some t) → source = root) :
    Steady unit? installed room root := by
  intro s hgather entry hentry l hl unit _ node name arguments? _ library index _ halias
  have hsound := (warm_installed unit? room hinstalled).sound_installed
  have hs := complete_of_gather hsound hgather
  have hroot {source : Source} {k : Library} {units : List LibraryUnit}
      (hfind : find (.reading unit? installed room) source = .ok (.built k units)) : source = root := by
    obtain ⟨-, ⟨t, ht, -⟩, -⟩ := Provider.find_built hfind
    exact halone source t ht
  obtain ⟨-, _, hfind, -⟩ := hs.gathered.mem_pending hentry
  rw [hroot hfind] at hl
  -- The alias stands in some library, which is installed, or is the root again.
  obtain ⟨k, hk⟩ : ∃ k, s.graph.library? library = some k := by
    cases hk : s.graph.library? library with
    | some k => exact ⟨k, rfl⟩
    | none =>
      have herror : s.graph.kind (.declared library index) = .error := by
        show (((s.graph.library? library).bind (·.elements[index]?)).getD .error).kind = _
        rw [hk]
        rfl
      rw [herror] at halias
      cases halias
  obtain ⟨hk, hid⟩ := Option.filter_eq_some_iff.1 hk
  have hvisited := hs.gathered.mem_visited hsound hk
  rw [hs.gathered.libraryOf? hsound hvisited] at hk
  obtain ⟨found, hfound, hlibrary⟩ := Provider.find_of_libraryAt? hk
  cases found with
  | known k' =>
    right
    have hknown : installed library.source = some k' := Except.ok.inj (Provider.find_known hfound)
    exact Option.isSome_of_eq_some hknown
  | built k' units =>
    left
    have hsource := hroot hfound
    rw [← hs.gathered.libraryOf? hsound hvisited, hsource, hl] at hk
    cases hk
    exact (eq_of_beq hid).symm
  | part => cases hlibrary
  | absent => cases hlibrary

/-! ## Libraries of finished programs -/

/-- Known libraries stay as they are. -/
theorem libraryOf?_finish_of_known (hw : Warm unit? installed known room)
    (hs : Complete (.reading unit? known room) root s) {q : Program} (hq : finish s = .ok q)
    {source : Source} {l : Library} (hsource : source ∈ s.visited)
    (hknown : known source = some l) : q.graph.libraryOf? source = some l := by
  have hfind := find_reading_known unit? room hknown
  rw [libraryOf?_finish_of_not_pending hw.sound hs.gathered hq hsource,
    Provider.libraryAt?_of_find hfind]
  · rfl
  · intro entry hentry heq
    obtain ⟨-, l', hbuilt, -⟩ := hs.gathered.mem_pending (List.mem_reverse.1 hentry)
    rw [heq, hfind] at hbuilt
    cases hbuilt

section Store

variable (hw : Warm unit? installed known room)
include hw

/-- The libraries of a program that have a steady program of their own are the same there. -/
theorem libraryOf?_finish_of_steady
    (hgather : gather (.reading unit? known room) root room [root, .core] {} = .ok s)
    {q : Program} (hq : finish s = .ok q) {source : Source} {l₀ : Library} {units : List LibraryUnit}
    (hsource : source ∈ s.visited)
    (hfind : find (.reading unit? installed room) source = .ok (.built l₀ units))
    (hsteady : Steady unit? installed room source) :
    ∃ q₀, ofRoot (.reading unit? installed room) source = .ok q₀ ∧
      q₀.graph.libraryOf? source = q.graph.libraryOf? source := by
  have hs := complete_of_gather hw.sound hgather
  have hinstalled := known_of_find_built hfind
  cases hknown : known source with
  | some l =>
    obtain ⟨q₀, hq₀, hl⟩ := hw.typed source l hinstalled hknown hsteady
    exact ⟨q₀, hq₀, hl.trans (libraryOf?_finish_of_known hw hs hq hsource hknown).symm⟩
  | none =>
    have hbuilt := (hw.find_eq hknown).trans hfind
    have hmem := hs.gathered.pending_of_built hsource hbuilt
    obtain ⟨-, -, edition, rfl⟩ := Provider.find_built hfind
    exact typed_of_pending hw hgather hq hmem hsteady

/-- A steady program is the same with the store and without. -/
theorem graph_eq_of_steady (hsteady : Steady unit? installed room root) {q : Program}
    (h : ofRoot (.reading unit? known room) root = .ok q) :
    ∃ q₀, ofRoot (.reading unit? installed room) root = .ok q₀ ∧ q.graph = q₀.graph ∧
      q.core = q₀.core ∧ q.nonLibraries = q₀.nonLibraries := by
  have hw₀ := warm_installed unit? room hw.installed_source
  rcases ofRoot_cases hw root with ⟨failure, herror, -⟩ |
    ⟨s, s₀, q', q₀, hgather, hgather₀, hvisited, hq, hq₀, hcore⟩
  · rw [h] at herror
    cases herror
  obtain rfl : q' = q := by
    rw [ofRoot_reading, hgather] at h
    exact Except.ok.inj (hq.symm.trans h)
  have hs := complete_of_gather hw.sound hgather
  have hs₀ := complete_of_gather hw.sound_installed hgather₀
  refine ⟨q₀, by rw [ofRoot_reading, hgather₀]; exact hq₀, ?_, hcore, ?_⟩
  · have hgathered : s.graph.outlines = s₀.graph.outlines :=
      outlines_eq_of_complete hw.alike hs hs₀ hvisited
    have hfinished := outlines_finish hw.sound hs.gathered hq
    have hdistinct := (hs.gathered.distinct hw.sound).of_outlines hfinished.symm
    refine Graph.eq_of_libraryOf?_eq hdistinct ?_ fun source => ?_
    · rw [hfinished, hgathered, outlines_finish hw₀.sound hs₀.gathered hq₀]
    have hagree := Graph.agree_of_outlines hgathered (fun _ => True) source trivial
    cases hl : s₀.graph.libraryOf? source with
    | none =>
      rw [hl] at hagree
      rw [libraryOf?_finish_eq_none hw.sound hs.gathered hq (Option.map_eq_none_iff.1 hagree),
        libraryOf?_finish_eq_none hw₀.sound hs₀.gathered hq₀ hl]
    | some l =>
      have hsource₀ := hs₀.gathered.mem_visited hw.sound_installed hl
      have hsource : source ∈ s.visited := hvisited ▸ hsource₀
      rw [hs₀.gathered.libraryOf? hw.sound_installed hsource₀] at hl
      obtain ⟨found, hfind, hlibrary⟩ := Provider.find_of_libraryAt? hl
      cases hinstalled : installed source with
      | some k =>
        rw [libraryOf?_finish_of_known hw hs hq hsource
            (hw.known_of_installed source k hinstalled),
          libraryOf?_finish_of_known hw₀ hs₀ hq₀ hsource₀ hinstalled]
      | none =>
        cases found with
        | known k =>
          have := Provider.find_known hfind
          rw [show (Provider.reading unit? installed room).library? source = .ok (installed source) from
            rfl, hinstalled] at this
          cases this
        | built k units =>
          have hsteadyAt := hsteady.of_mem hw₀ hgather₀ hsource₀ hl
          obtain ⟨q₁, hq₁, hlibrary₁⟩ :=
            libraryOf?_finish_of_steady hw hgather hq hsource hfind hsteadyAt
          obtain ⟨q₂, hq₂, hlibrary₂⟩ :=
            libraryOf?_finish_of_steady hw₀ hgather₀ hq₀ hsource₀ hfind hsteadyAt
          rw [hq₁] at hq₂
          cases hq₂
          rw [← hlibrary₁, ← hlibrary₂]
        | part => cases hlibrary
        | absent => cases hlibrary
  · obtain ⟨-, -, -, -, -, hparts⟩ := finish_eq_ok hq
    obtain ⟨-, -, -, -, -, hparts₀⟩ := finish_eq_ok hq₀
    rw [hparts, hparts₀, hs.gathered.nonLibraries, hs₀.gathered.nonLibraries, hvisited]
    exact congrArg (List.filter · _) (funext fun source => (hw.alike source).isPart)

/-- The libraries that a program has built may be used in the place of their sources. -/
theorem Warm.extend {q : Program} (h : ofRoot (.reading unit? known room) root = .ok q)
    {known' : Source → Option Library}
    (hinstalled : ∀ source l, installed source = some l → known' source = some l)
    (hknown : ∀ source l, known' source = some l →
      known source = some l ∨ (l ∈ q.built ∧ l.source = source)) :
    Warm unit? installed known' room := by
  obtain ⟨s, hgather, hq⟩ : ∃ s,
      gather (.reading unit? known room) root room [root, .core] {} = .ok s ∧
        finish s = .ok q := by
    rw [ofRoot_reading] at h
    cases hgather : gather (.reading unit? known room) root room [root, .core] {} with
    | error failure =>
      rw [hgather] at h
      cases h
    | ok s =>
      rw [hgather] at h
      exact ⟨s, rfl, h⟩
  have hs := complete_of_gather hw.sound hgather
  have hnew (source : Source) (l : Library) (hl : l ∈ q.built) (hsource : l.source = source) :
      source ∈ s.visited ∧ q.graph.libraryOf? source = some l ∧ ∃ l₀ units,
        find (.reading unit? installed room) source = .ok (.built l₀ units) ∧
          l.outline = l₀.outline := by
    obtain ⟨-, -, -, -, hbuilt, -⟩ := finish_eq_ok hq
    rw [hbuilt] at hl
    obtain ⟨entry, hentry, hlibrary⟩ := List.mem_filterMap.1 hl
    obtain ⟨hlibrary, -⟩ := Option.filter_eq_some_iff.1 hlibrary
    obtain rfl : entry.1.source = source :=
      (q.graph.source_of_libraryOf? hlibrary).symm.trans hsource
    obtain ⟨hvisited, l₀, hfind, -⟩ := hs.gathered.mem_pending hentry
    refine ⟨hvisited, hlibrary, l₀, entry.2,
      (hw.find_eq (known_of_find_built hfind)).symm.trans hfind, ?_⟩
    have hagree := Graph.agree_of_outlines (outlines_finish hw.sound hs.gathered hq) (fun _ => True)
      entry.1.source trivial
    rw [hlibrary, hs.gathered.libraryOf? hw.sound hvisited,
      Provider.libraryAt?_of_find hfind] at hagree
    exact Option.some.inj hagree
  refine ⟨hw.installed_source, hinstalled, fun source l hnone hl => ?_,
    fun source l hnone hl hsteady => ?_⟩
  · rcases hknown source l hl with hl | ⟨hl, hsource⟩
    · exact hw.built source l hnone hl
    · exact (hnew source l hl hsource).2.2
  · rcases hknown source l hl with hl | ⟨hl, hsource⟩
    · exact hw.typed source l hnone hl hsteady
    · obtain ⟨hvisited, hlibrary, l₀, units, hfind, -⟩ := hnew source l hl hsource
      obtain ⟨q₀, hq₀, hl₀⟩ := libraryOf?_finish_of_steady hw hgather hq hvisited hfind hsteady
      exact ⟨q₀, hq₀, hl₀.trans hlibrary⟩

end Store

end Program

end DartAnalysis
