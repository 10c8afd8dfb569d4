/-
  What a program consists of. Its graph has the libraries of the sources that are reached from the
  root and the core library along imports and exports, each source once. A source that is reached
  and has no library is missing, or a part: the parts are listed, the missing ones are not. What was
  built for the program are the libraries that were not there before. Main statement:
  `ofRoot_spans`, for any provider whose libraries stand at their own sources; gathering ends there
  as soon as finitely many sources exist (`gather_ends`).

  Gathering follows what the provider finds, the statement what the finished graph depends on. The
  two agree since filling in declared types keeps every outline (`Complete.reachable_iff`).
-/
import DartAnalysis.Proofs.Program.Order

namespace DartAnalysis

namespace Provider

variable (p : Provider (Except Failure))

/-- Whether there is a library at a source already. -/
def HasLibrary (source : Source) : Prop := ∃ l, p.library? source = .ok (some l)

/-- Whether there is a unit at a source that is a part, or one that is none. -/
def HasUnit (source : Source) (part : Bool) : Prop :=
  ∃ t, p.unit? source = .ok (some t) ∧ t.isPart = part

variable {p}

theorem not_hasLibrary {source : Source} (h : p.library? source = .ok none) :
    ¬ p.HasLibrary source := by
  rintro ⟨l, hl⟩
  rw [h] at hl
  cases hl

theorem not_hasUnit {source : Source} (h : p.unit? source = .ok none) (part : Bool) :
    ¬ p.HasUnit source part := by
  rintro ⟨t, ht, -⟩
  rw [h] at ht
  cases ht

theorem hasUnit_iff {source : Source} {t : Tree} (h : p.unit? source = .ok (some t))
    (part : Bool) : p.HasUnit source part ↔ t.isPart = part := by
  refine ⟨?_, fun hpart => ⟨t, h, hpart⟩⟩
  rintro ⟨t', ht', hpart⟩
  rw [h] at ht'
  cases ht'
  exact hpart

end Provider

namespace Program

variable {p : Provider (Except Failure)} {root source : Source}

/-! ## What is found, by what the provider has -/

theorem Found.library?_isSome_iff {found : Found} (h : find p source = .ok found) :
    found.library?.isSome ↔ p.HasLibrary source ∨ p.HasUnit source false := by
  rcases Provider.find_eq_ok h with
    ⟨l, hl, rfl⟩ | ⟨hlibrary, ⟨hunit, rfl⟩ | ⟨t, hunit, ⟨hpart, rfl⟩ | ⟨hpart, _, _, rfl⟩⟩⟩
  · exact iff_of_true rfl (.inl ⟨l, hl⟩)
  · exact iff_of_false Bool.false_ne_true
      (not_or.2 ⟨Provider.not_hasLibrary hlibrary, Provider.not_hasUnit hunit false⟩)
  · refine iff_of_false Bool.false_ne_true (not_or.2 ⟨Provider.not_hasLibrary hlibrary, ?_⟩)
    rw [Provider.hasUnit_iff hunit, hpart]
    exact Bool.noConfusion
  · exact iff_of_true rfl (.inr ⟨t, hunit, hpart⟩)

theorem Found.isPart_iff {found : Found} (h : find p source = .ok found) :
    found.isPart ↔ ¬ p.HasLibrary source ∧ p.HasUnit source true := by
  rcases Provider.find_eq_ok h with
    ⟨l, hl, rfl⟩ | ⟨hlibrary, ⟨hunit, rfl⟩ | ⟨t, hunit, ⟨hpart, rfl⟩ | ⟨hpart, _, _, rfl⟩⟩⟩
  · exact iff_of_false Bool.false_ne_true fun hnone => hnone.1 ⟨l, hl⟩
  · exact iff_of_false Bool.false_ne_true fun hpart => Provider.not_hasUnit hunit true hpart.2
  · exact iff_of_true rfl ⟨Provider.not_hasLibrary hlibrary, t, hunit, hpart⟩
  · refine iff_of_false Bool.false_ne_true fun htrue => ?_
    rw [Provider.hasUnit_iff hunit, hpart] at htrue
    exact Bool.false_ne_true htrue.2

theorem hasLibrary_or_hasUnit {l : Library} (h : p.libraryAt? source = some l) :
    p.HasLibrary source ∨ p.HasUnit source false := by
  obtain ⟨found, hfind, hl⟩ := Provider.find_of_libraryAt? h
  exact (Found.library?_isSome_iff hfind).1 (by rw [hl]; rfl)

/-! ## Reaching sources -/

/-- What a program comes to from its root and the core library, along the imports and exports of
    its own libraries. -/
inductive Reachable (q : Program) (root : Source) : Source → Prop where
  | root : Reachable q root root
  | core : Reachable q root .core
  | dependency {l : Library} {d : Source} (h : Reachable q root l.source)
      (hl : l ∈ q.graph.libraries) (hd : d ∈ l.dependencies) : Reachable q root d

section Complete

variable {s : Gathering} {q : Program} (hp : p.Sound)
include hp

/-- A run comes to nothing but what the libraries it finds depend on. -/
theorem visited_iff (h : gather p root p.room [root, .core] {} = .ok s) :
    source ∈ s.visited ↔ Reached p root source := by
  have hs := complete_of_gather hp h
  refine ⟨?_, hs.mem_of_reached hs.root_mem⟩
  refine (run_of_gather h).visited_within (V := Reached p root)
    (fun _ _ hx hl d hd => hx.dependency hl hd) nofun ?_ source
  intro x hx
  rcases List.mem_pair.1 hx with rfl | rfl
  · exact .self
  · exact .core

section Finish

variable (hs : Complete p root s) (hq : finish s = .ok q)
include hs hq

theorem map_source_finish :
    q.graph.libraries.map Library.source = s.graph.libraries.map Library.source := by
  rw [← Graph.map_source_outlines, outlines_finish hp hs.gathered hq, Graph.map_source_outlines]

theorem distinct_finish : q.graph.Distinct := by
  unfold Graph.Distinct
  rw [map_source_finish hp hs hq]
  exact hs.gathered.distinct hp

/-- The library of a source in the finished graph has the outline that was found there. -/
theorem outline_finish (hsource : source ∈ s.visited) :
    (q.graph.libraryOf? source).map Library.outline =
      (p.libraryAt? source).map Library.outline := by
  have hagree := Graph.agree_of_outlines (outlines_finish hp hs.gathered hq) (fun _ => True)
  rw [hagree source trivial, hs.gathered.libraryOf? hp hsource]

theorem mem_libraries_finish :
    source ∈ q.graph.libraries.map Library.source ↔
      source ∈ s.visited ∧ (p.libraryAt? source).isSome := by
  rw [map_source_finish hp hs hq, hs.gathered.libraries]
  constructor
  · intro hmem
    obtain ⟨l, hl, rfl⟩ := List.mem_map.1 hmem
    obtain ⟨x, hx, hxl⟩ := List.mem_filterMap.1 hl
    rw [hp.source_eq hxl, hxl]
    exact ⟨List.mem_reverse.1 hx, rfl⟩
  · rintro ⟨hvisited, hsome⟩
    obtain ⟨l, hl⟩ := Option.isSome_iff_exists.1 hsome
    exact List.mem_map.2 ⟨l, List.mem_filterMap.2 ⟨source, List.mem_reverse.2 hvisited, hl⟩,
      hp.source_eq hl⟩

theorem mem_visited_of_library {l : Library} (hl : l ∈ q.graph.libraries) :
    l.source ∈ s.visited :=
  ((mem_libraries_finish hp hs hq).1 (List.mem_map_of_mem hl)).1

/-- The finished graph reaches what gathering did. -/
theorem Complete.reachable_iff : q.Reachable root source ↔ Reached p root source := by
  constructor
  · intro h
    induction h with
    | root => exact .self
    | core => exact .core
    | @dependency l d _ hl hd ih =>
      have houtline := outline_finish hp hs hq (mem_visited_of_library hp hs hq hl)
      rw [(distinct_finish hp hs hq).libraryOf?_eq hl] at houtline
      obtain ⟨k, hk, hkl⟩ := Option.map_eq_some_iff.1 houtline.symm
      rw [← Library.dependencies_eq_of_outline hkl] at hd
      exact ih.dependency hk hd
  · intro h
    induction h with
    | self => exact .root
    | core => exact .core
    | @dependency x d k hx hk hd ih =>
      have houtline := outline_finish hp hs hq (hs.mem_of_reached hs.root_mem hx)
      rw [hk] at houtline
      obtain ⟨l, hl, hkl⟩ := Option.map_eq_some_iff.1 houtline
      rw [← Library.dependencies_eq_of_outline hkl] at hd
      exact .dependency ((q.graph.source_of_libraryOf? hl).symm ▸ ih)
        (q.graph.mem_of_libraryOf? hl) hd

/-- What was built for a program are its libraries that were not there before. -/
theorem mem_built_finish {l : Library} :
    l ∈ q.built ↔ l ∈ q.graph.libraries ∧ ¬ p.HasLibrary l.source := by
  obtain ⟨-, -, -, -, hbuilt, -⟩ := finish_eq_ok hq
  rw [hbuilt, List.mem_filterMap]
  constructor
  · rintro ⟨entry, hentry, hl⟩
    obtain ⟨hl, -⟩ := Option.filter_eq_some_iff.1 hl
    obtain ⟨-, k, hfind, -⟩ := hs.gathered.mem_pending hentry
    rw [q.graph.source_of_libraryOf? hl]
    exact ⟨q.graph.mem_of_libraryOf? hl, Provider.not_hasLibrary (Provider.find_built hfind).1⟩
  · rintro ⟨hl, hnone⟩
    have hvisited := mem_visited_of_library hp hs hq hl
    have hlibrary := (distinct_finish hp hs hq).libraryOf?_eq hl
    have houtline := outline_finish hp hs hq hvisited
    rw [hlibrary] at houtline
    obtain ⟨k, hk, hkl⟩ := Option.map_eq_some_iff.1 houtline.symm
    obtain ⟨found, hfind, hfound⟩ := Provider.find_of_libraryAt? hk
    rcases Provider.find_eq_ok hfind with
      ⟨m, hm, -⟩ | ⟨-, ⟨-, rfl⟩ | ⟨t, -, ⟨-, rfl⟩ | ⟨-, edition, units, rfl⟩⟩⟩
    · exact absurd ⟨m, hm⟩ hnone
    · cases hfound
    · cases hfound
    · have hid := Library.id_eq_of_outline hkl
      obtain rfl := Option.some.inj hfound
      refine ⟨_, hs.gathered.pending_of_built hvisited hfind, ?_⟩
      rw [hid]
      exact Option.filter_eq_some_iff.2 ⟨hlibrary, beq_self_eq_true _⟩

omit hp in
theorem nodup_built_finish : (q.built.map Library.source).Nodup := by
  obtain ⟨-, -, -, -, hbuilt, -⟩ := finish_eq_ok hq
  rw [hbuilt]
  have hkeys := hs.gathered.nodup_pending
  rw [List.map_reverse, List.nodup_reverse] at hkeys
  refine nodup_map_filterMap hkeys _ _ fun entry l hl => ?_
  exact q.graph.source_of_libraryOf? (Option.filter_eq_some_iff.1 hl).1

omit hp in
theorem mem_nonLibraries_finish :
    source ∈ q.nonLibraries ↔
      source ∈ s.visited ∧ ¬ p.HasLibrary source ∧ p.HasUnit source true := by
  obtain ⟨-, -, -, -, -, hnon⟩ := finish_eq_ok hq
  rw [hnon, hs.gathered.nonLibraries, List.mem_filter, List.mem_reverse]
  refine and_congr_right fun hvisited => ?_
  obtain ⟨found, hfind, -⟩ := hs.gathered.found source hvisited
  rw [Provider.isPartAt_of_find hfind]
  exact Found.isPart_iff hfind

end Finish

end Complete

/-! ## The whole program -/

/-- A program of just what its root and the core library come to. -/
structure Spans (p : Provider (Except Failure)) (root : Source) (q : Program) : Prop where
  /-- Libraries are those of the sources reached. -/
  library : ∀ source, source ∈ q.graph.libraries.map Library.source ↔
    q.Reachable root source ∧ (p.HasLibrary source ∨ p.HasUnit source false)
  distinct : (q.graph.libraries.map Library.source).Nodup
  /-- Parts that would have to be libraries are listed. -/
  part : ∀ source, source ∈ q.nonLibraries ↔
    q.Reachable root source ∧ ¬ p.HasLibrary source ∧ p.HasUnit source true
  distinct_parts : q.nonLibraries.Nodup
  /-- Libraries that were not there before are built. -/
  built : ∀ l, l ∈ q.built ↔ l ∈ q.graph.libraries ∧ ¬ p.HasLibrary l.source
  distinct_built : (q.built.map Library.source).Nodup

theorem spans_of_finish {s : Gathering} {q : Program} (hp : p.Sound)
    (h : gather p root p.room [root, .core] {} = .ok s) (hq : finish s = .ok q) :
    Spans p root q := by
  have hs := complete_of_gather hp h
  have hreach (source : Source) : q.Reachable root source ↔ source ∈ s.visited :=
    (hs.reachable_iff hp hq).trans (visited_iff hp h).symm
  refine {
    library := fun source => ?library
    distinct := distinct_finish hp hs hq
    part := fun source => ?part
    distinct_parts := ?distinct_parts
    built := fun l => mem_built_finish hp hs hq
    distinct_built := nodup_built_finish hs hq }
  case library =>
    rw [mem_libraries_finish hp hs hq, hreach]
    refine and_congr_right fun hvisited => ?_
    obtain ⟨found, hfind, -⟩ := hs.gathered.found source hvisited
    rw [Provider.libraryAt?_of_find hfind]
    exact Found.library?_isSome_iff hfind
  case part => rw [mem_nonLibraries_finish hs hq, hreach]
  case distinct_parts =>
    obtain ⟨-, -, -, -, -, hnon⟩ := finish_eq_ok hq
    rw [hnon, hs.gathered.nonLibraries]
    exact (List.nodup_reverse.2 hs.gathered.nodup).filter _

/-- Gathering ends if finitely many sources exist: no budget that is enough for these is used up,
    so a run that fails does so at a source. A program that results is just what its root and the
    core library come to. -/
theorem ofRoot_spans (hp : p.Sound) (root : Source) :
    (∀ V : List Source,
      (∀ source, p.HasLibrary source ∨ (∃ part, p.HasUnit source part) → source ∈ V) →
      ∀ budget, V.length ≤ budget →
        (∃ s, gather p root budget [root, .core] {} = .ok s) ∨
          ∃ source failure, FailsAt p root source failure ∧
            gather p root budget [root, .core] {} = .error failure) ∧
      ∀ q, ofRoot p root = .ok q → Spans p root q := by
  refine ⟨fun V hV budget hbudget => ?_, fun q hq => ?_⟩
  · refine (gather_ends (P := fun _ => True) (V := V) (fun _ _ _ _ _ _ => trivial) ?_
      (fun _ _ => trivial) (Nat.le_trans List.countP_le_length hbudget)).imp_right ?_
    · intro source l _ hl
      exact hV source ((hasLibrary_or_hasUnit hl).imp_right fun h => ⟨false, h⟩)
    · rintro ⟨source, failure, -, hfails⟩
      exact ⟨source, failure, hfails⟩
  · rw [ofRoot_eq] at hq
    cases hgather : gather p root p.room [root, .core] {} with
    | error failure =>
      rw [hgather] at hq
      cases hq
    | ok s =>
      rw [hgather] at hq
      exact spans_of_finish hp hgather hq

/-- In the sample nothing exists but four units and the core library, and there is a program of the
    unit `b`. -/
theorem ofRoot_spans_sample : providerSample.Sound ∧
    ((∃ s, gather providerSample (fileAt "b") 5 [fileAt "b", .core] {} = .ok s) ∨
      ∃ source failure, FailsAt providerSample (fileAt "b") source failure ∧
        gather providerSample (fileAt "b") 5 [fileAt "b", .core] {} = .error failure) ∧
    ∃ q, ofRoot providerSample (fileAt "b") = .ok q ∧ Spans providerSample (fileAt "b") q := by
  have h := ofRoot_spans sound_sample (fileAt "b")
  refine ⟨sound_sample, h.1 (.core :: ["a", "b", "c", "d"].map fileAt) ?_ 5 (by decide), ?_⟩
  · rintro source (⟨l, hl⟩ | ⟨part, t, ht, -⟩)
    · rw [← sound_sample source l hl]
      have hcore : (if source = .core then some coreSample else none) = some l := Except.ok.inj hl
      split at hcore
      · cases hcore
        exact List.mem_cons_self
      · cases hcore
    · have ht : unitSample? source = some t := Except.ok.inj ht
      unfold unitSample? at ht
      simp only [List.map_cons, List.map_nil, List.mem_cons]
      split at ht
      · next hc => exact .inr (.inr (.inr (.inl hc)))
      · split at ht
        · next hb => exact .inr (.inr (.inl hb))
        · split at ht
          · next ha => exact .inr (.inl ha)
          · split at ht
            · next hd => exact .inr (.inr (.inr (.inr (.inl hd))))
            · cases ht
  · have hok : (ofRoot providerSample (fileAt "b")).isOk = true := by cbv
    cases hq : ofRoot providerSample (fileAt "b") with
    | error failure =>
      rw [hq] at hok
      cases hok
    | ok q => exact ⟨q, rfl, h.2 q hq⟩

end Program

end DartAnalysis
