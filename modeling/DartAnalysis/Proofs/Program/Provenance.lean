/-
  Where libraries come from. A provider is honest if its units are the trees of texts, and if each
  library that it knows is declared in no text, as the core library, or was made of such units, and has
  declared types that are made of classes of libraries that it knows (`Provider.Honest`); a program that
  is built from it is a closure (`Program.IsClosure`). Each library of a closure is declared in no text or
  was made of parsed units (`Program.made_of_mem`), and types are made of classes
  (`Program.classesOver`). Whatever is built one after another, from texts and from libraries that are
  declared in none, is built honestly (`Program.Accrued.honest`).
-/
import DartAnalysis.Proofs.Binding.Reports
import DartAnalysis.Proofs.Element.ClassNames
import DartAnalysis.Proofs.Parse.Separation
import DartAnalysis.Proofs.Program.Readable
import DartAnalysis.Proofs.Program.TypeClasses

namespace DartAnalysis

/-! ## Units -/

/-- The unit is what a text of its source is parsed to. -/
def LibraryUnit.IsParsed (u : LibraryUnit) : Prop := ∃ text, u = .ofText u.source text

theorem LibraryUnit.IsParsed.formed {u : LibraryUnit} (hu : u.IsParsed) :
    ∃ (parsed : Parsed) (text : String), u.tree = parsed.tree ∧ parsed.Formed .unit (some u.source) text := by
  obtain ⟨text, htext⟩ := hu
  obtain ⟨parsed, -, htree, hformed⟩ := Parsed.ofText_formed .unit (some u.source) text
  refine ⟨parsed, text, ?_, hformed⟩
  rw [htext]
  exact htree

theorem LibraryUnit.IsParsed.sorted {u : LibraryUnit} (hu : u.IsParsed) : u.tree.Sorted := by
  obtain ⟨parsed, text, htree, hformed⟩ := hu.formed
  rw [htree]
  exact hformed.sorted

/-! ## Libraries -/

/-- Apart from its declared types the library is made of the units, which are parsed and differ in
    their sources. -/
structure Library.MadeUp (l : Library) (units : List LibraryUnit) : Prop where
  made : l.MadeOf units
  parsed : ∀ u ∈ units, u.IsParsed
  same : ∀ u ∈ units, ∀ v ∈ units, v.source = u.source → v = u

/-- The library is declared in no text, and all that it consists of is its own. -/
structure Library.Bare (l : Library) : Prop where
  plain : l.isPlain = true
  nowhere : ∀ spot ∈ l.spots, spot.nameOffset? = none

theorem Library.bare_core : core.Bare := ⟨core_plain.2.1, by decide +kernel⟩

/-- Apart from its declared types the library is one that is declared in no text, or is made of parsed
    units. -/
def Library.Made (l : Library) : Prop :=
  (∃ k : Library, k.Bare ∧ l.outline = k.outline) ∨ ∃ units, l.MadeUp units

theorem Library.Made.of_outline {k l : Library} (h : k.Made) (houtline : l.outline = k.outline) :
    l.Made := by
  rcases h with ⟨bare, hbare, hsame⟩ | ⟨units, hmade⟩
  · exact .inl ⟨bare, hbare, houtline.trans hsame⟩
  · exact .inr ⟨units, .of_outline (houtline.trans hmade.made), hmade.parsed, hmade.same⟩

theorem Library.MadeUp.orderly {l : Library} {units : List LibraryUnit} (h : l.MadeUp units) :
    l.Orderly (· ∈ units) :=
  (orderly_ofUnits (fun _ hu => hu) (fun u hu => (h.parsed u hu).sorted) l.id).1.of_outline h.made.symm

theorem Library.Made.orderly {l : Library} (h : l.Made) : l.Orderly LibraryUnit.IsParsed := by
  rcases h with ⟨k, hbare, hsame⟩ | ⟨units, hmade⟩
  · exact (Orderly.of_isPlain hbare.plain).of_outline hsame.symm
  · exact (orderly_ofUnits hmade.parsed (fun u hu => (hmade.parsed u hu).sorted) l.id).1.of_outline
      hmade.made.symm

/-! ## Providers -/

namespace Provider

variable (provider : Provider (Except Failure))

/-- A class of a library that exists already. -/
def KnowsClass (c : ElementId) : Prop :=
  ∃ source l, provider.library? source = .ok (some l) ∧ l.kindOf? c = some .classElement

/-- Units are parsed, and libraries were made before. -/
structure Honest : Prop where
  units : ∀ u, provider.Has u → u.IsParsed
  sound : provider.Sound
  made : ∀ source l, provider.library? source = .ok (some l) → l.Made
  types : ∀ source l, provider.library? source = .ok (some l) → l.TypesOver provider.KnowsClass

variable {provider}

namespace Honest

variable (h : provider.Honest)
include h

theorem made_of_libraryAt? {source : Source} {l : Library} (hl : provider.libraryAt? source = some l) :
    l.Made ∧ l.TypesOver fun c => provider.KnowsClass c ∨ l.kindOf? c = some .classElement := by
  obtain ⟨found, hfind, hl⟩ := find_of_libraryAt? hl
  cases found with
  | known k =>
    obtain rfl := Option.some.inj hl
    have hknown := find_known hfind
    exact ⟨h.made source k hknown, (h.types source k hknown).mono fun _ => .inl⟩
  | built k units =>
    obtain rfl := Option.some.inj hl
    have hunits (u : LibraryUnit) (hu : u ∈ units) : u.IsParsed := h.units u (has_of_find_built hfind u hu)
    obtain ⟨-, -, edition, rfl⟩ := find_built hfind
    have hhas := has_of_find_built hfind
    have hsame (u : LibraryUnit) (hu : u ∈ units) (v : LibraryUnit) (hv : v ∈ units) :
        v.source = u.source → v = u := (hhas v hv).eq_of_source (hhas u hu)
    refine ⟨.inr ⟨units, .of_outline rfl, hunits, hsame⟩, ?_⟩
    exact (Library.orderly_ofUnits hunits (fun u hu => (hunits u hu).sorted) _).2.mono fun _ => .inr
  | part | absent => cases hl

end Honest

end Provider

/-! ## Programs -/

namespace Program

open Provider

variable {provider : Provider (Except Failure)} {root : Source} {p : Program}

section Honest

variable (h : provider.Honest) (hp : ofRoot provider root = .ok p)
include h hp

/-- Every library of a program was made of parsed units, or is declared in no text. -/
theorem made_of_mem {l : Library} (hl : l ∈ p.graph.libraries) : l.Made := by
  obtain ⟨s, hgather, hfinish⟩ := gather_of_ofRoot hp
  have hs := complete_of_gather h.sound hgather
  have houtline := outline_finish h.sound hs hfinish (mem_visited_of_library h.sound hs hfinish hl)
  rw [(distinct_finish h.sound hs hfinish).libraryOf?_eq hl] at houtline
  obtain ⟨k, hk, houtline⟩ := Option.map_eq_some_iff.1 houtline.symm
  exact (h.made_of_libraryAt? hk).1.of_outline houtline.symm

/-- The types of a program are made of its classes, and of classes that were known before. -/
theorem classesOver : p.graph.ClassesOver (fun c => provider.KnowsClass c ∨ p.graph.kind c = .classElement) ∧
    p.core.Over fun c => provider.KnowsClass c ∨ p.graph.kind c = .classElement := by
  obtain ⟨s, hgather, hfinish⟩ := gather_of_ofRoot hp
  have hs := (complete_of_gather h.sound hgather).gathered
  have hkind (c : ElementId) : s.graph.kind c = p.graph.kind c :=
    Graph.kind_eq_of_outlines (outlines_finish h.sound hs hfinish).symm c
  refine finish_types h.sound hs hfinish ⟨fun c hc => .inr (hkind c ▸ hc), fun l hl => ?_⟩
  have hlibraries := hl
  rw [hs.libraries] at hlibraries
  obtain ⟨source, -, hsource⟩ := List.mem_filterMap.1 hlibraries
  refine (h.made_of_libraryAt? hsource).2.mono fun c hc => hc.imp_right fun hc => ?_
  rw [← hkind]
  exact Graph.kind_of_kindOf? ((hs.distinct h.sound).libraryOf?_eq hl) hc

/-- What was known of a class before, a program knows as well, unless it does without its library. -/
theorem element?_of_knowsClass {c : ElementId} (hc : provider.KnowsClass c) :
    p.graph.element? c = none ∨ p.graph.kind c = .classElement := by
  obtain ⟨source, k, hk, hkind⟩ := hc
  obtain ⟨s, hgather, hfinish⟩ := gather_of_ofRoot hp
  have hs := (complete_of_gather h.sound hgather).gathered
  obtain rfl := h.sound source k hk
  obtain ⟨i, -, rfl⟩ := k.exists_of_kindOf? (Option.isSome_iff_exists.2 ⟨_, hkind⟩)
  cases hlibrary : s.graph.libraryOf? k.source with
  | none =>
    left
    have hnone : p.graph.libraryOf? k.id.source = none :=
      libraryOf?_finish_eq_none h.sound hs hfinish hlibrary
    show (p.graph.library? k.id).bind (·.elements[i]?) = none
    rw [Graph.library?, hnone]
    rfl
  | some l =>
    right
    have hfound := hs.libraryOf? h.sound (hs.mem_visited h.sound hlibrary)
    rw [hlibrary, libraryAt?_of_find (find_of_library? hk)] at hfound
    obtain rfl := Option.some.inj hfound
    rw [← Graph.kind_eq_of_outlines (outlines_finish h.sound hs hfinish).symm]
    exact Graph.kind_of_kindOf? hlibrary hkind

/-- A library of a program was known before, or was built for it. -/
theorem known_or_built {l : Library} (hl : l ∈ p.graph.libraries) :
    provider.library? l.source = .ok (some l) ∨
      l ∈ p.built ∧ ∃ k units, find provider l.source = .ok (.built k units) := by
  obtain ⟨s, hgather, hfinish⟩ := gather_of_ofRoot hp
  have hs := complete_of_gather h.sound hgather
  have hvisited := mem_visited_of_library h.sound hs hfinish hl
  have hgraph := (distinct_finish h.sound hs hfinish).libraryOf?_eq hl
  by_cases hpending : ∃ entry ∈ s.pending, entry.1.source = l.source
  · obtain ⟨entry, hentry, hsource⟩ := hpending
    obtain ⟨-, k, hfind, hid⟩ := hs.gathered.mem_pending hentry
    have houtline := outline_finish h.sound hs hfinish hvisited
    rw [hgraph, ← hsource, libraryAt?_of_find hfind] at houtline
    have hid : l.id = entry.1 := (Library.id_eq_of_outline (Option.some.inj houtline)).trans hid
    obtain ⟨-, -, -, -, hbuilt, -⟩ := finish_eq_ok hfinish
    rw [hbuilt]
    refine .inr ⟨List.mem_filterMap.2 ⟨entry, hentry, ?_⟩, k, entry.2, hsource ▸ hfind⟩
    rw [Graph.library?, hsource, hgraph, ← hid]
    simp
  · have hfound := libraryOf?_finish_of_not_pending h.sound hs.gathered hfinish hvisited
      fun entry hentry hsource => hpending ⟨entry, List.mem_reverse.1 hentry, hsource⟩
    obtain ⟨found, hfind, hfound⟩ := find_of_libraryAt? (hfound.symm.trans hgraph)
    cases found with
    | known k =>
      obtain rfl := Option.some.inj hfound
      exact .inl (find_known hfind)
    | built k units =>
      have hentry := hs.gathered.pending_of_built hvisited hfind
      obtain rfl := Option.some.inj hfound
      exact absurd ⟨_, hentry, rfl⟩ hpending
    | part | absent => cases hfound

omit h in
theorem mem_libraries_of_built {l : Library} (hl : l ∈ p.built) :
    l ∈ p.graph.libraries ∧ p.graph.libraryOf? l.source = some l := by
  obtain ⟨s, hgather, hfinish⟩ := gather_of_ofRoot hp
  obtain ⟨-, -, -, -, hbuilt, -⟩ := finish_eq_ok hfinish
  rw [hbuilt] at hl
  obtain ⟨entry, -, hlibrary⟩ := List.mem_filterMap.1 hl
  have hlibrary := (Option.filter_eq_some_iff.1 hlibrary).1
  rw [← p.graph.source_of_libraryOf? hlibrary] at hlibrary
  exact ⟨p.graph.mem_of_libraryOf? hlibrary, hlibrary⟩

end Honest

/-- The program of a root, over the trees of texts and over libraries that were made of such trees
    before or are declared in no text. -/
def IsClosure (p : Program) : Prop :=
  ∃ (provider : Provider (Except Failure)) (root : Source), provider.Honest ∧ ofRoot provider root = .ok p

/-! ## One after another -/

section Accrued

variable {unit? unit?' : Source → Except Failure (Option Tree)} {known : Source → Option Library}
  {room room' : Nat}

/-- All units are parsed. -/
def ParsesUnits (unit? : Source → Except Failure (Option Tree)) : Prop :=
  ∀ source t, unit? source = .ok (some t) → (LibraryUnit.mk source t).IsParsed

/-- What is known after programs were built one after another, if it was declared in no text to begin
    with. The texts may be others each time. -/
inductive Accrued : (Source → Option Library) → Prop where
  | bare (known : Source → Option Library)
      (hbare : ∀ source l, known source = some l → l.source = source ∧ l.Bare ∧ l.OwnTypes) : Accrued known
  | build {unit? : Source → Except Failure (Option Tree)} {known : Source → Option Library}
      {room : Nat} {root : Source} {p : Program} (hknown : Accrued known) (hunits : ParsesUnits unit?)
      (hp : ofRoot (.reading unit? known room) root = .ok p) :
      Accrued fun source => (known source).or (p.built.find? (·.source == source))

/-- To begin with, a core library may be known. -/
theorem Accrued.of_core {core : Library} (hsource : core.source = .core) (hbare : core.Bare)
    (htypes : core.OwnTypes) : Accrued fun source => if source = .core then some core else none := by
  refine .bare _ fun source l hl => ?_
  obtain ⟨hcore, hl⟩ := Option.ite_none_right_eq_some.1 hl
  rw [hcore, ← Option.some.inj hl]
  exact ⟨hsource, hbare, htypes⟩

theorem accrued_core : Accrued fun source => if source = .core then some Library.core else none :=
  .of_core Library.core_plain.1 Library.bare_core Library.ownTypes_core

/-- Every library of a program is known once the program is built. -/
theorem known_of_mem (h : (Provider.reading unit? known room).Honest)
    (hp : ofRoot (.reading unit? known room) root = .ok p) {l : Library} (hl : l ∈ p.graph.libraries) :
    (known l.source).or (p.built.find? (·.source == l.source)) = some l := by
  rcases known_or_built h hp hl with hknown | ⟨hbuilt, k, units, hfind⟩
  · exact Option.or_eq_some_iff.2 (.inl (Except.ok.inj hknown))
  · refine Option.or_eq_some_iff.2 (.inr ⟨Except.ok.inj (find_built hfind).1, ?_⟩)
    have hsome : (p.built.find? (·.source == l.source)).isSome :=
      List.find?_isSome.2 ⟨l, hbuilt, beq_self_eq_true l.source⟩
    obtain ⟨k, hk⟩ := Option.isSome_iff_exists.1 hsome
    have hsource : k.source = l.source := by simpa using List.find?_some hk
    have hfound := (mem_libraries_of_built hp (List.mem_of_find?_eq_some hk)).2
    rw [hsource, (mem_libraries_of_built hp hbuilt).2] at hfound
    rw [hk, hfound]

/-- To begin with, what is known is declared in no text. -/
theorem honest_of_bare (hunits : ParsesUnits unit?)
    (hbare : ∀ source l, known source = some l → l.source = source ∧ l.Bare ∧ l.OwnTypes) :
    (Provider.reading unit? known room).Honest := by
  refine ⟨fun u hu => hunits u.source u.tree hu, fun source l hl => ?_, fun source l hl => ?_,
    fun source l hl => ?_⟩
  all_goals obtain ⟨hsource, hl', htypes⟩ := hbare source l (Except.ok.inj hl)
  · exact hsource
  · exact .inl ⟨l, hl', rfl⟩
  · exact htypes.mono fun c hc => ⟨source, l, hl, hc⟩

/-- What was built for a program may be known from then on. -/
theorem honest_of_built (h : (Provider.reading unit? known room).Honest) (hunits : ParsesUnits unit?')
    (hp : ofRoot (.reading unit? known room) root = .ok p) :
    (Provider.reading unit?' (fun source => (known source).or (p.built.find? (·.source == source)))
      room').Honest := by
  generalize hknown' : (fun source => (known source).or (p.built.find? (·.source == source))) = known'
  have hold {source : Source} {l : Library} (hl : known source = some l) : known' source = some l := by
    rw [← hknown']
    exact Option.or_eq_some_iff.2 (.inl hl)
  have hnew {source : Source} {l : Library} (hl : known' source = some l) :
      known source = some l ∨ l ∈ p.graph.libraries ∧ l.source = source := by
    rw [← hknown'] at hl
    refine (Option.or_eq_some_iff.1 hl).imp_right fun ⟨_, hl⟩ => ?_
    exact ⟨(mem_libraries_of_built hp (List.mem_of_find?_eq_some hl)).1, by simpa using List.find?_some hl⟩
  have hknows {c : ElementId} (hc : (Provider.reading unit? known room).KnowsClass c) :
      (Provider.reading unit?' known' room').KnowsClass c := by
    obtain ⟨source, l, hl, hkind⟩ := hc
    exact ⟨source, l, congrArg Except.ok (hold (Except.ok.inj hl)), hkind⟩
  refine ⟨fun u hu => hunits u.source u.tree hu, fun source l hl => ?_, fun source l hl => ?_,
    fun source l hl => ?_⟩
  all_goals rcases hnew (Except.ok.inj hl) with hl | ⟨hl, hsource⟩
  · exact h.sound source l (congrArg Except.ok hl)
  · exact hsource
  · exact h.made source l (congrArg Except.ok hl)
  · exact made_of_mem h hp hl
  · exact (h.types source l (congrArg Except.ok hl)).mono fun _ => hknows
  · refine ((classesOver h hp).1.types l hl).mono fun c hc => ?_
    rcases hc with hc | hc
    · exact hknows hc
    · obtain ⟨k, hk, hkind⟩ := p.graph.exists_library_of_kind hc ⟨nofun, nofun⟩
      refine ⟨k.source, k, congrArg Except.ok ?_, hkind⟩
      rw [← hknown']
      exact known_of_mem h hp hk

/-- Whatever was built before was built honestly. -/
theorem Accrued.honest (h : Accrued known) (hunits : ParsesUnits unit?) :
    (Provider.reading unit? known room).Honest := by
  induction h generalizing unit? room with
  | bare known hbare => exact honest_of_bare hunits hbare
  | build _ hparses hp ih => exact honest_of_built (ih hparses) hunits hp

/-- So what is built next is a closure. -/
theorem Accrued.isClosure (h : Accrued known) (hunits : ParsesUnits unit?)
    (hp : ofRoot (.reading unit? known room) root = .ok p) : p.IsClosure :=
  ⟨_, root, h.honest hunits, hp⟩

end Accrued

end Program

end DartAnalysis
