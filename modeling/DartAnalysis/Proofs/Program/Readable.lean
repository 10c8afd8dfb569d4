/-
  Which programs there are. A program comes to the sources that its root and the core library import
  and export, as their texts say or as they were installed (`ComesTo`), and reads those that were not
  installed, with their parts (`Needs`). Given a core library that is installed and sound, there is a
  program of a root that is not installed if and only if the root is no part, every source that is
  read can be read or is absent, and there is room for the libraries (`ofRoot_ok_iff`).

  Gathering follows the libraries that it finds. What it comes to is what the texts say as long as
  nothing fails (`reached_iff`), since a library depends on what its defining unit links to.
-/
import DartAnalysis.Binding.Unit
import DartAnalysis.Proofs.Element.Links
import DartAnalysis.Proofs.Program.Reachable

namespace DartAnalysis

namespace Program

section Sources

variable (unit? : Source → Except Failure (Option Tree)) (installed : Source → Option Library)

/-- There is a unit at the source, which is no part. -/
def IsLibraryUnit (source : Source) (t : Tree) : Prop :=
  installed source = none ∧ unit? source = .ok (some t) ∧ t.isPart = false

/-- Reading the source does not fail; it may be absent. -/
def Readable (source : Source) : Prop := ∃ t?, unit? source = .ok t?

/-- What a program of a root comes to, along imports and exports. -/
inductive ComesTo (root : Source) : Source → Prop where
  | root : ComesTo root root
  | core : ComesTo root .core
  | installed {source d : Source} {l : Library} (h : ComesTo root source)
      (hl : installed source = some l) (hd : d ∈ l.dependencies) : ComesTo root d
  | written {source d : Source} {t : Tree} (h : ComesTo root source)
      (ht : IsLibraryUnit unit? installed source t) (hd : d ∈ t.linkedSources source) :
      ComesTo root d

/-- What a program of a root reads: the sources it comes to that are not installed, and parts of
    these. -/
inductive Needs (root : Source) : Source → Prop where
  | library {source : Source} (h : ComesTo unit? installed root source)
      (hnew : installed source = none) : Needs root source
  | part {source d : Source} {t : Tree} (h : ComesTo unit? installed root source)
      (ht : IsLibraryUnit unit? installed source t) (hd : d ∈ t.partSources source) : Needs root d

/-- There is room for the libraries that a program of a root comes to. -/
def HasRoom (room : Nat) (root : Source) : Prop :=
  ∃ sources : List Source, sources.length ≤ room ∧
    ∀ source, ComesTo unit? installed root source →
      ((installed source).isSome ∨ ∃ t, IsLibraryUnit unit? installed source t) → source ∈ sources

end Sources

variable {unit? : Source → Except Failure (Option Tree)} {installed : Source → Option Library}
  {room : Nat} {root source : Source} {t : Tree}

/-! ## What is found -/

theorem filterMapM_ok_iff {α β : Type} (f : α → Except Failure (Option β)) (xs : List α) :
    (∃ ys, xs.filterMapM f = .ok ys) ↔ ∀ x ∈ xs, ∃ y?, f x = .ok y? := by
  induction xs with
  | nil =>
    rw [List.filterMapM_nil]
    exact iff_of_true ⟨[], rfl⟩ nofun
  | cons x xs ih =>
    rw [List.filterMapM_cons, List.forall_mem_cons, ← ih]
    cases f x with
    | error failure => exact iff_of_false (by rintro ⟨ys, ⟨⟩⟩) (by rintro ⟨⟨y?, ⟨⟩⟩, -⟩)
    | ok y? =>
      rw [and_iff_right ⟨y?, rfl⟩]
      cases y? with
      | none => exact Iff.rfl
      | some b =>
        cases xs.filterMapM f with
        | error failure => exact iff_of_false (by rintro ⟨ys, ⟨⟩⟩) (by rintro ⟨ys, ⟨⟩⟩)
        | ok ys => exact iff_of_true ⟨b :: ys, rfl⟩ ⟨ys, rfl⟩

theorem exists_of_filterMapM_eq_error {α β : Type} {f : α → Except Failure (Option β)} {xs : List α}
    {failure : Failure} (h : xs.filterMapM f = .error failure) : ∃ x ∈ xs, f x = .error failure := by
  induction xs with
  | nil => cases h
  | cons x xs ih =>
    rw [List.filterMapM_cons] at h
    rcases of_bind_eq_error h with hx | ⟨y?, -, h⟩
    · exact ⟨x, List.mem_cons_self, hx⟩
    have hrest : xs.filterMapM f = .error failure := by
      cases y? with
      | none => exact h
      | some y =>
        rcases of_bind_eq_error h with hrest | ⟨ys, -, h⟩
        · exact hrest
        · cases h
    obtain ⟨x', hx', hfailure⟩ := ih hrest
    exact ⟨x', List.mem_cons_of_mem x hx', hfailure⟩

theorem parts_ok_iff (t : Tree) (source : Source) :
    (∃ units, parts (.reading unit? installed room) t source = .ok units) ↔
      ∀ d ∈ t.partSources source, Readable unit? d := by
  unfold parts
  rw [filterMapM_ok_iff]
  refine forall₂_congr fun d _ => ?_
  unfold Readable Provider.reading
  dsimp only
  cases unit? d with
  | error failure => exact iff_of_false (by rintro ⟨y?, ⟨⟩⟩) (by rintro ⟨t?, ⟨⟩⟩)
  | ok t? => exact iff_of_true ⟨_, rfl⟩ ⟨t?, rfl⟩

/-- What is found at a source with a unit of its own. -/
theorem find_of_unit (ht : IsLibraryUnit unit? installed source t) :
    find (.reading unit? installed room) source =
      (parts (.reading unit? installed room) t source).map fun units =>
        .built (.ofUnits ⟨source, 0⟩ (⟨source, t⟩ :: units)) (⟨source, t⟩ :: units) := by
  obtain ⟨hnew, hunit, hpart⟩ := ht
  unfold find
  dsimp only [Provider.reading, bind, Except.bind]
  rw [hnew, hunit]
  dsimp only
  rw [if_neg (by simp [hpart])]
  cases (parts _ t source : Except Failure (List LibraryUnit)) <;> rfl

/-- A search fails only if a unit cannot be read. -/
theorem find_eq_error {failure : Failure}
    (h : find (.reading unit? installed room) source = .error failure) :
    ∃ x, unit? x = .error failure := by
  unfold find at h
  rcases of_bind_eq_error h with hl | ⟨l?, -, h⟩
  · cases hl
  split at h
  · cases h
  rcases of_bind_eq_error h with hunit | ⟨t?, -, h⟩
  · exact ⟨source, hunit⟩
  split at h
  · cases h
  split at h
  · cases h
  rcases of_bind_eq_error h with hparts | ⟨parts, -, h⟩
  · obtain ⟨d, -, hd⟩ := exists_of_filterMapM_eq_error hparts
    rcases of_bind_eq_error hd with hd | ⟨t?, -, hd⟩
    · exact ⟨d, hd⟩
    · cases hd
  · cases h

/-- Something is found unless the source or one of its parts cannot be read. -/
theorem find_ok_iff : (∃ found, find (.reading unit? installed room) source = .ok found) ↔
    (installed source = none → Readable unit? source) ∧
      ∀ t, IsLibraryUnit unit? installed source t →
        ∀ d ∈ t.partSources source, Readable unit? d := by
  cases hl : installed source with
  | some l =>
    refine iff_of_true ⟨_, find_reading_known unit? room hl⟩ ⟨nofun, fun t ht => ?_⟩
    exact absurd (hl.symm.trans ht.1) nofun
  | none =>
    cases hunit : unit? source with
    | error failure =>
      refine iff_of_false ?_ fun h => ?_
      · rintro ⟨found, hfind⟩
        unfold find at hfind
        dsimp only [Provider.reading, bind, Except.bind] at hfind
        rw [hl, hunit] at hfind
        cases hfind
      · obtain ⟨t?, ht⟩ := h.1 rfl
        exact absurd (hunit.symm.trans ht) nofun
    | ok t? =>
      rw [and_iff_right fun _ => ⟨t?, hunit⟩]
      by_cases hlibrary : ∃ t, IsLibraryUnit unit? installed source t
      · obtain ⟨t, ht⟩ := hlibrary
        have hsame : ∀ t', IsLibraryUnit unit? installed source t' → t' = t := fun t' ht' =>
          Option.some.inj (Except.ok.inj (ht'.2.1.symm.trans ht.2.1))
        rw [find_of_unit ht]
        trans ∃ units, parts (.reading unit? installed room) t source = .ok units
        · cases parts (.reading unit? installed room) t source with
          | error failure => exact iff_of_false (by rintro ⟨found, ⟨⟩⟩) (by rintro ⟨units, ⟨⟩⟩)
          | ok units => exact iff_of_true ⟨_, rfl⟩ ⟨units, rfl⟩
        · rw [parts_ok_iff]
          exact ⟨fun h t' ht' => hsame t' ht' ▸ h, fun h => h t ht⟩
      · refine iff_of_true ?_ fun t ht => absurd ⟨t, ht⟩ hlibrary
        unfold find
        dsimp only [Provider.reading, bind, Except.bind]
        rw [hl, hunit]
        cases t? with
        | none => exact ⟨.absent, rfl⟩
        | some t =>
          have hpart : t.isPart = true := by
            by_contra hpart
            exact hlibrary ⟨t, hl, hunit, by simpa using hpart⟩
          dsimp only
          rw [if_pos hpart]
          exact ⟨.part, rfl⟩

/-- The library that is built at a source with a unit of its own depends on what the unit links to,
    and the source has its unit in it. -/
theorem libraryAt?_of_unit (ht : IsLibraryUnit unit? installed source t)
    (hfind : ∃ found, find (.reading unit? installed room) source = .ok found) :
    ∃ l, (Provider.reading unit? installed room).libraryAt? source = some l ∧
      l.dependencies = t.linkedSources source ∧ (l.unit? source).isSome := by
  obtain ⟨found, hfind⟩ := hfind
  rw [Provider.libraryAt?_of_find hfind]
  rw [find_of_unit ht] at hfind
  cases hunits : (parts (.reading unit? installed room) t source : Except Failure (List LibraryUnit)) with
  | error failure =>
    rw [hunits] at hfind
    cases hfind
  | ok units =>
    rw [hunits] at hfind
    cases hfind
    exact ⟨_, rfl, Library.dependencies_ofUnits ⟨source, 0⟩ ⟨source, t⟩ units,
      Library.isSome_unit?_ofUnits ⟨source, 0⟩ (List.mem_cons_self (a := (⟨source, t⟩ : LibraryUnit)))⟩

/-- A library that is found was installed, or is written in a unit. -/
theorem installed_or_isLibraryUnit {l : Library}
    (hl : (Provider.reading unit? installed room).libraryAt? source = some l) :
    installed source = some l ∨ ∃ t, IsLibraryUnit unit? installed source t := by
  obtain ⟨found, hfind, hfound⟩ := Provider.find_of_libraryAt? hl
  rcases Provider.find_eq_ok hfind with
    ⟨k, hk, rfl⟩ | ⟨hnew, ⟨-, rfl⟩ | ⟨t, hunit, ⟨-, rfl⟩ | ⟨hpart, -⟩⟩⟩
  · exact .inl ((Except.ok.inj hk).trans hfound)
  · cases hfound
  · cases hfound
  · exact .inr ⟨t, Except.ok.inj hnew, hunit, hpart⟩

theorem libraryAt?_of_installed {l : Library} (hl : installed source = some l) :
    (Provider.reading unit? installed room).libraryAt? source = some l :=
  Provider.libraryAt?_of_find (find_reading_known unit? room hl)

/-! ## What is reached -/

theorem comesTo_of_reached (h : Reached (.reading unit? installed room) root source) :
    ComesTo unit? installed root source := by
  induction h with
  | self => exact .root
  | core => exact .core
  | @dependency x d l _ hl hd ih =>
    rcases installed_or_isLibraryUnit hl with hinstalled | ⟨t, ht⟩
    · exact ih.installed hinstalled hd
    · obtain ⟨found, hfind, -⟩ := Provider.find_of_libraryAt? hl
      obtain ⟨k, hk, hlinks, -⟩ := libraryAt?_of_unit ht ⟨found, hfind⟩
      obtain rfl := Option.some.inj (hl.symm.trans hk)
      exact ih.written ht (hlinks ▸ hd)

/-- Where nothing fails, gathering reaches all that the texts lead to. -/
theorem reached_iff (hfound : ∀ x, Reached (.reading unit? installed room) root x →
    ∃ found, find (.reading unit? installed room) x = .ok found) :
    Reached (.reading unit? installed room) root source ↔ ComesTo unit? installed root source := by
  refine ⟨comesTo_of_reached, fun h => ?_⟩
  induction h with
  | root => exact .self
  | core => exact .core
  | installed _ hl hd ih => exact ih.dependency (libraryAt?_of_installed hl) hd
  | written _ ht hd ih =>
    obtain ⟨l, hl, hlinks, -⟩ := libraryAt?_of_unit ht (hfound _ ih)
    exact ih.dependency hl (hlinks ▸ hd)

/-! ## Programs -/

/-- Given room, gathering ends, or fails at a source that it reaches. -/
theorem gather_of_room (hroom : HasRoom unit? installed room root) :
    (∃ s, gather (.reading unit? installed room) root room [root, .core] {} =
        (.ok s : Except Failure Gathering)) ∨
      ∃ x failure, Reached (.reading unit? installed room) root x ∧
        FailsAt (.reading unit? installed room) root x failure ∧
        gather (.reading unit? installed room) root room [root, .core] {} = .error failure := by
  obtain ⟨sources, hlength, hsources⟩ := hroom
  refine gather_ends (V := sources) (fun x l hx hl d hd => hx.dependency hl hd) (fun x l hx hl => ?_)
    (fun x hx => ?_) (Nat.le_trans List.countP_le_length hlength)
  · refine hsources x (comesTo_of_reached hx) ?_
    exact (installed_or_isLibraryUnit hl).imp_left Option.isSome_of_eq_some
  · rcases List.mem_pair.1 hx with rfl | rfl
    · exact .self
    · exact .core

/-- Given room, a program may not be there, but nothing is exhausted in building it. -/
theorem ofRoot_ne_exhausted (hroom : HasRoom unit? installed room root)
    (hunits : ∀ x, unit? x ≠ .error .exhausted) :
    (ofRoot (.reading unit? installed room) root : Except Failure Program) ≠ .error .exhausted := by
  rw [ofRoot_reading]
  rcases gather_of_room hroom with ⟨s, hgather⟩ | ⟨x, failure, -, hfails, hgather⟩
  · rw [show gather _ root _ [root, .core] {} = _ from hgather]
    show finish s ≠ _
    unfold finish
    split
    · nofun
    · split <;> nofun
  · rw [show gather _ root _ [root, .core] {} = _ from hgather]
    rintro ⟨⟩
    rcases hfails with herror | ⟨found, -, hfailure⟩
    · obtain ⟨y, hy⟩ := find_eq_error herror
      exact hunits y hy
    · unfold Found.failure? at hfailure
      split at hfailure
      · cases hfailure
      · cases hfailure
      · split at hfailure <;> cases hfailure
      · split at hfailure <;> cases hfailure

section Installed

variable (hinstalled : ∀ source l, installed source = some l → l.source = source)
include hinstalled

section Gathered

variable {s : Gathering} (hgather : gather (.reading unit? installed room) root room [root, .core] {} = .ok s)
include hgather

theorem complete_of_installed : Complete (.reading unit? installed room) root s :=
  complete_of_gather (warm_installed unit? room hinstalled).sound hgather

/-- Gathering goes on to all that it reaches. -/
theorem found_of_gather (x : Source) (hx : Reached (.reading unit? installed room) root x) :
    ∃ found, find (.reading unit? installed room) x = .ok found := by
  have hs := complete_of_installed hinstalled hgather
  obtain ⟨found, hfind, -⟩ := hs.gathered.found x (hs.mem_of_reached hs.root_mem hx)
  exact ⟨found, hfind⟩

theorem reached_of_comesTo {x : Source} (hx : ComesTo unit? installed root x) :
    Reached (.reading unit? installed room) root x :=
  (reached_iff (found_of_gather hinstalled hgather)).2 hx

theorem readable_of_gather {x : Source} (hx : Needs unit? installed root x) : Readable unit? x := by
  have hfound {y : Source} (hy : ComesTo unit? installed root y) :=
    find_ok_iff.1 (found_of_gather hinstalled hgather y (reached_of_comesTo hinstalled hgather hy))
  cases hx with
  | library hx hnew => exact (hfound hx).1 hnew
  | part hx ht hd => exact (hfound hx).2 _ ht _ hd

/-- What was gathered had room. -/
theorem hasRoom_of_gather : HasRoom unit? installed room root := by
  have hs := complete_of_installed hinstalled hgather
  refine ⟨s.visited.filter fun x => ((Provider.reading unit? installed room).libraryAt? x).isSome, ?_,
    fun x hx hlibrary => ?_⟩
  · rw [← List.countP_eq_length_filter]
    exact hs.count_le
  have hreached := reached_of_comesTo hinstalled hgather hx
  refine List.mem_filter.2 ⟨hs.mem_of_reached hs.root_mem hreached, ?_⟩
  rcases hlibrary with hsome | ⟨t, ht⟩
  · obtain ⟨l, hl⟩ := Option.isSome_iff_exists.1 hsome
    rw [libraryAt?_of_installed hl]
    rfl
  · obtain ⟨l, hl, -⟩ := libraryAt?_of_unit ht (found_of_gather hinstalled hgather x hreached)
    rw [hl]
    rfl

/-- The root of a program is no part. -/
theorem not_isPart_of_gather (hroot : installed root = none) (ht : unit? root = .ok (some t)) :
    t.isPart = false := by
  have hs := complete_of_installed hinstalled hgather
  obtain ⟨found, hfind, hfailure⟩ := hs.gathered.found root hs.root_mem
  by_contra hpart
  have hunit : (Provider.reading unit? installed room).HasUnit root true := ⟨t, ht, by simpa using hpart⟩
  have hfound := (Found.isPart_iff hfind).2
    ⟨Provider.not_hasLibrary (congrArg Except.ok hroot), hunit⟩
  cases found with
  | part => exact absurd ((if_pos rfl).symm.trans hfailure) nofun
  | _ => cases hfound

end Gathered

section Core

variable {core : Library} (hcore : installed .core = some core) (hroot : installed root = none)
include hcore

omit hinstalled in
/-- Gathering fails nowhere if the root is no part and all that is read can be read or is absent. -/
theorem not_failsAt (hpart : ∀ t, unit? root = .ok (some t) → t.isPart = false)
    (hreadable : ∀ source, Needs unit? installed root source → Readable unit? source) {x : Source}
    (hx : Reached (.reading unit? installed room) root x) {failure : Failure} :
    ¬ FailsAt (.reading unit? installed room) root x failure := by
  have hcomes := comesTo_of_reached hx
  rintro (herror | ⟨found, hfind, hfailure⟩)
  · obtain ⟨found, hfind⟩ : ∃ found, find (.reading unit? installed room) x = .ok found :=
      find_ok_iff.2 ⟨fun hnew => hreadable x (.library hcomes hnew),
        fun t ht d hd => hreadable d (.part hcomes ht hd)⟩
    exact absurd (hfind.symm.trans herror) nofun
  cases found with
  | known l => cases hfailure
  | built l units => cases hfailure
  | part =>
    -- Only the root must not be a part.
    obtain ⟨-, t, ht, htrue⟩ := (Found.isPart_iff hfind).1 rfl
    by_cases hx : x = root
    · exact absurd (htrue.symm.trans (hpart t (hx ▸ ht))) nofun
    · exact absurd ((if_neg hx).symm.trans hfailure) nofun
  | absent =>
    -- The core library is there.
    by_cases hx : x = .core
    · rw [hx, find_reading_known unit? room hcore] at hfind
      cases hfind
    · exact absurd ((if_neg hx).symm.trans hfailure) nofun

include hroot in
/-- Gathering succeeds if and only if the root is no part, all that is read can be read or is absent,
    and there is room for the libraries. -/
theorem gather_ok_iff :
    (∃ s, gather (.reading unit? installed room) root room [root, .core] {} =
        (.ok s : Except Failure Gathering)) ↔
      (∀ t, unit? root = .ok (some t) → t.isPart = false) ∧
        (∀ source, Needs unit? installed root source → Readable unit? source) ∧
        HasRoom unit? installed room root := by
  constructor
  · rintro ⟨s, hgather⟩
    exact ⟨fun t ht => not_isPart_of_gather hinstalled hgather hroot ht,
      fun x hx => readable_of_gather hinstalled hgather hx, hasRoom_of_gather hinstalled hgather⟩
  · rintro ⟨hpart, hreadable, hroom⟩
    refine (gather_of_room hroom).resolve_right ?_
    rintro ⟨x, failure, hx, hfails, -⟩
    exact not_failsAt hcore hpart hreadable hx hfails

/-- Where gathering succeeds there is a program, if the core library has all that typing relies on. -/
theorem exists_ofRoot {types : CoreTypes} (htypes : CoreTypes.ofLibrary core = .ok types) {s : Gathering}
    (hgather : gather (.reading unit? installed room) root room [root, .core] {} = .ok s) :
    ∃ q, ofRoot (.reading unit? installed room) root = (.ok q : Except Failure Program) := by
  have hs := complete_of_installed hinstalled hgather
  have hlibrary : s.graph.libraryOf? .core = some core :=
    (hs.gathered.libraryOf? (warm_installed unit? room hinstalled).sound hs.core_mem).trans
      (libraryAt?_of_installed hcore)
  rw [ofRoot_reading, hgather]
  show ∃ q, finish s = .ok q
  unfold finish
  rw [hlibrary]
  dsimp only
  rw [htypes]
  exact ⟨_, rfl⟩

include hroot in
/-- There is a program of the root under the same conditions, if the core library has all that typing
    relies on. -/
theorem ofRoot_ok_iff {types : CoreTypes} (htypes : CoreTypes.ofLibrary core = .ok types) :
    (∃ q, ofRoot (.reading unit? installed room) root = (.ok q : Except Failure Program)) ↔
      (∀ t, unit? root = .ok (some t) → t.isPart = false) ∧
        (∀ source, Needs unit? installed root source → Readable unit? source) ∧
        HasRoom unit? installed room root := by
  rw [← gather_ok_iff hinstalled hcore hroot]
  constructor
  · rintro ⟨q, hq⟩
    obtain ⟨s, hgather, -⟩ := gather_of_ofRoot hq
    exact ⟨s, hgather⟩
  · rintro ⟨s, hgather⟩
    exact exists_ofRoot hinstalled hcore htypes hgather

end Core

end Installed

/-- A root that is a part has no program. -/
theorem ofRoot_of_part (hroot : installed root = none) (ht : unit? root = .ok (some t))
    (hpart : t.isPart = true) :
    ofRoot (.reading unit? installed room) root =
      (.error (.notALibrary root) : Except Failure Program) := by
  have hfind : find (.reading unit? installed room) root = (.ok .part : Except Failure Found) := by
    unfold find
    dsimp only [Provider.reading, bind, Except.bind]
    rw [hroot, ht]
    dsimp only
    rw [if_pos hpart]
    rfl
  have henter : Gathering.enter root root .part {} = .error (.notALibrary root) := by
    unfold Gathering.enter Found.failure?
    dsimp only
    rw [if_pos rfl]
  rw [ofRoot_reading, gather_step List.not_mem_nil, hfind]
  dsimp only
  rw [henter]
  rfl

/-! ## Units of a program -/

/-- Why a request is refused. One that is answered is not, and neither is one of which nothing comes. -/
def refusal? {α : Type} : Except Failure α → Option Failure
  | .ok _ | .error .exhausted => none
  | .error failure => some failure

theorem refusal?_eq_none {α : Type} {answer : Except Failure α} :
    refusal? answer = none ↔ (∃ a, answer = .ok a) ∨ answer = .error .exhausted := by
  unfold refusal?
  split
  · exact iff_of_true rfl (.inl ⟨_, rfl⟩)
  · exact iff_of_true rfl (.inr rfl)
  · next hne =>
    refine iff_of_false nofun ?_
    rintro (⟨a, ⟨⟩⟩ | ⟨⟨⟩⟩)
    exact hne rfl

theorem eq_error_of_refusal? {α : Type} {answer : Except Failure α} {failure : Failure}
    (h : refusal? answer = some failure) : answer = .error failure := by
  unfold refusal? at h
  split at h
  · cases h
  · cases h
  · exact congrArg Except.error (Option.some.inj h)

/-- A unit is refused only if it is no unit of its library. -/
theorem refusal?_resolve {q : Program} {l : Library} (hl : q.graph.libraryOf? root = some l)
    (options : Options) (u : LibraryUnit) : refusal? (q.resolve options root u) =
      if (l.unit? u.source).isNone then some (.notAPartOf u.source root) else none := by
  unfold Program.resolve
  rw [hl]
  dsimp only
  by_cases hnone : (l.unit? u.source).isNone = true
  · rw [if_pos hnone, if_pos hnone]
    rfl
  · rw [if_neg hnone, if_neg hnone]
    split
    split <;> rfl

/-- So whether and why it is refused is settled by the outline of the library. -/
theorem resolve_congr {q q' : Program} (h : (q.graph.libraryOf? root).map Library.outline =
    (q'.graph.libraryOf? root).map Library.outline) (options : Options) (u : LibraryUnit) :
    refusal? (q.resolve options root u) = refusal? (q'.resolve options root u) := by
  cases hl : q.graph.libraryOf? root with
  | none =>
    rw [hl] at h
    unfold Program.resolve
    rw [hl, Option.map_eq_none_iff.1 h.symm]
  | some l =>
    rw [hl] at h
    obtain ⟨l', hl', houtline⟩ := Option.map_eq_some_iff.1 h.symm
    have hunit : (l'.unit? u.source).isNone = (l.unit? u.source).isNone := by
      rw [← Option.not_isSome, ← Option.not_isSome, Library.isSome_unit?_of_outline houtline]
    rw [refusal?_resolve hl, refusal?_resolve hl', hunit]

/-- The defining unit is not refused in any program of its library. -/
theorem refusal?_resolve_root (hinstalled : ∀ source l, installed source = some l → l.source = source)
    {q : Program} (hq : ofRoot (.reading unit? installed room) root = .ok q)
    (ht : IsLibraryUnit unit? installed root t) (options : Options) :
    refusal? (q.resolve options root ⟨root, t⟩) = none := by
  have hp : (Provider.reading unit? installed room).Sound := (warm_installed unit? room hinstalled).sound
  obtain ⟨s, hgather, hfinish⟩ := gather_of_ofRoot hq
  have hs := complete_of_gather hp hgather
  obtain ⟨found, hfind, -⟩ := hs.gathered.found root hs.root_mem
  obtain ⟨k, hk, -, hunit⟩ := libraryAt?_of_unit ht ⟨found, hfind⟩
  have houtline := outline_finish hp hs hfinish hs.root_mem
  rw [hk] at houtline
  obtain ⟨l, hl, hlk⟩ := Option.map_eq_some_iff.1 houtline
  rw [← Library.isSome_unit?_of_outline hlk] at hunit
  rw [refusal?_resolve hl, if_neg (by rw [← Option.not_isSome, hunit]; exact Bool.false_ne_true)]

end Program

end DartAnalysis
