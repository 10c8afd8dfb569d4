/-
  Sources and their URIs. The URI of a file leads back to the file, since its path is a normal form.
  The URI of a library source is its full name, and leads back as long as that is the name of a library.
  A relative reference in a library that climbs leaves the library behind: `../x` in `dart:core` is a
  library source called `x`, and the URI `x` is that of a file (`relative_escapes`).

  Main statement: `source?_uri`, for all chains of references from files and libraries.
-/
import DartAnalysis.Workspace.Sources
import DartAnalysis.Proofs.Source.Paths
import Mathlib

namespace DartAnalysis

namespace Source

open Relation Text

/-! ## Library URIs -/

/-- The full name is a library URI. -/
def NamesLibrary (s : Source) : Prop := ∃ rest, rest ≠ [] ∧ s.fullName.toList = scheme ++ rest

theorem ofLibraryUri?_eq_some_iff {uri : String} {s : Source} :
    ofLibraryUri? uri = some s ↔ s = ⟨.library, uri⟩ ∧ s.NamesLibrary := by
  unfold ofLibraryUri?
  split
  · rename_i hnone
    refine ⟨nofun, ?_⟩
    rintro ⟨rfl, rest, -, hrest⟩
    rw [List.isPrefixOf?_eq_some_iff_append_eq.2 hrest.symm] at hnone
    exact absurd hnone nofun
  · rename_i hnil
    refine ⟨nofun, ?_⟩
    rintro ⟨rfl, rest, hne, hrest⟩
    rw [List.isPrefixOf?_eq_some_iff_append_eq.2 hrest.symm] at hnil
    exact absurd (Option.some.inj hnil) hne
  · rename_i rest hne hsome
    rw [Option.some.injEq]
    refine ⟨?_, fun h => h.1.symm⟩
    rintro rfl
    exact ⟨rfl, rest, hne, (List.isPrefixOf?_eq_some_iff_append_eq.1 hsome).symm⟩

theorem kind_of_ofLibraryUri? {uri : String} {s : Source} (h : ofLibraryUri? uri = some s) :
    s.kind = .library ∧ s.NamesLibrary := by
  obtain ⟨rfl, hnames⟩ := ofLibraryUri?_eq_some_iff.1 h
  exact ⟨rfl, hnames⟩

/-! ## References -/

/-- Where chains of references begin: a file, given by any path, or a library, given by its URI. -/
def IsOrigin (s : Source) : Prop := (∃ path, s = ofFile path) ∨ ∃ uri, ofLibraryUri? uri = some s

/-- A URI written in `s` names `s'`. -/
def Refers (s s' : Source) : Prop := ∃ uri, s.resolve? uri = some s'

/-- A library source whose library has a name, which is a single segment. -/
def HasPlainName (s : Source) : Prop :=
  ∃ name, name ≠ [] ∧ '\\' ∉ name ∧ s.fullName.toList.takeWhile (· ≠ '/') = scheme ++ name

/-- A URI written in `s` names `s'`, and if it is relative to a library, it does not climb out of it. -/
def RefersInside (s s' : Source) : Prop :=
  ∃ uri, s.resolve? uri = some s' ∧
    (s.kind = .library → ':' ∉ uri.toList → s.HasPlainName ∧ ¬ Path.Climbs uri.toList)

theorem RefersInside.refers {s s' : Source} (h : s.RefersInside s') : s.Refers s' :=
  h.imp fun _ h => h.1

/-- What a URI written in a source can name: a library by its URI, a file, or a source inside a
    library. -/
theorem resolve?_cases {s s' : Source} {uri : String} (h : s.resolve? uri = some s') :
    ofLibraryUri? uri = some s' ∨ (∃ path, s' = ofPath path) ∨
      s.kind = .library ∧ ':' ∉ uri.toList ∧ s' = s.relative uri.toList := by
  unfold resolve? at h
  dsimp only at h
  split at h
  · exact absurd h nofun
  split at h
  · exact .inl h
  split at h
  · exact .inr (.inl ⟨_, (Option.some.inj h).symm⟩)
  split at h
  · exact absurd h nofun
  rename_i hcolon
  obtain rfl := Option.some.inj h
  cases hkind : s.kind with
  | library => exact .inr (.inr ⟨rfl, by simpa using hcolon, rfl⟩)
  | file =>
    refine .inr (.inl ?_)
    simp only [relative, hkind]
    split <;> exact ⟨_, rfl⟩

theorem kind_relative {s : Source} (h : s.kind = .library) (uri : List Char) :
    s.relative uri = ⟨.library, String.ofList
      (Path.normalize (s.fullName.toList.takeWhile (· ≠ '/') ++ '/' :: uri))⟩ := by
  simp only [relative, h]

/-- A file that a chain of references comes to was given by a path. -/
theorem exists_path_of_refers {origin s : Source} (horigin : origin.IsOrigin)
    (h : ReflTransGen Refers origin s) (hkind : s.kind = .file) : ∃ path, s = ofPath path := by
  have hlibrary : ∀ {uri}, ofLibraryUri? uri = some s → False := fun huri => by
    rw [(kind_of_ofLibraryUri? huri).1] at hkind
    exact absurd hkind nofun
  cases h with
  | refl =>
    rcases horigin with ⟨path, rfl⟩ | ⟨uri, huri⟩
    · exact ⟨path.toList, rfl⟩
    · exact (hlibrary huri).elim
  | tail _ hstep =>
    obtain ⟨uri, huri⟩ := hstep
    rcases resolve?_cases huri with hnamed | hpath | ⟨hlib, -, rfl⟩
    · exact (hlibrary hnamed).elim
    · exact hpath
    · rw [kind_relative hlib] at hkind
      exact absurd hkind nofun

/-! ## References inside a library -/

theorem plain_of_hasPlainName {s : Source} (h : s.HasPlainName) :
    ∀ c ∈ s.fullName.toList.takeWhile (· ≠ '/'), ¬ Path.isSeparator c := by
  obtain ⟨name, -, hbackslash, howner⟩ := h
  intro c hc
  have hslash : c ≠ '/' := by simpa using List.mem_takeWhile_imp hc
  have hne : c ≠ '\\' := by
    rintro rfl
    rw [howner, List.mem_append] at hc
    exact hc.elim (by decide) hbackslash
  simp [Path.isSeparator, hslash, hne]

theorem prefix_join_cons (owner : List Char) (ss : List (List Char)) :
    ∃ rest, Path.join (owner :: ss) = owner ++ rest := by
  by_cases hss : ss = []
  · subst hss
    exact ⟨[], (List.append_nil _).symm⟩
  · exact ⟨_, Path.join_cons hss⟩

/-- A reference in a library stays in it exactly if it does not climb. -/
theorem namesLibrary_relative_iff {s : Source} (hkind : s.kind = .library) (hplain : s.HasPlainName)
    {uri : List Char} (hcolon : ':' ∉ uri) :
    (s.relative uri).NamesLibrary ↔ ¬ Path.Climbs uri := by
  have hnormal := plain_of_hasPlainName hplain
  obtain ⟨name, hname, -, howner⟩ := hplain
  rw [kind_relative hkind]
  generalize s.fullName.toList.takeWhile (· ≠ '/') = owner at hnormal howner ⊢
  have hnil : owner ≠ [] := by simp [howner, scheme]
  have hdot : owner ≠ ['.'] := by simp [howner, scheme]
  have hup : owner ≠ Path.up := by simp [howner, scheme]
  have habsolute : Path.isAbsolute (owner ++ '/' :: uri) = false := by
    rw [howner]
    rfl
  have hsegments : Path.normalize (owner ++ '/' :: uri) =
      Path.join (((Path.segments uri).foldl (Path.push false) [owner]).reverse) := by
    rw [Path.normalize, habsolute, Path.normalSegments, habsolute, Path.segments_append,
      Path.segments_of_forall hnormal, List.singleton_append, List.foldl_cons,
      Path.push_name false [] hnil hdot hup]
    rfl
  rw [hsegments]
  rcases Path.foldl_push_above hup (Path.segments uri) with ⟨hstays, heq⟩ | ⟨hclimbs, hmem⟩
  · rw [heq, List.reverse_append, List.reverse_singleton, List.singleton_append]
    obtain ⟨rest, hrest⟩ := prefix_join_cons owner
      ((Path.segments uri).foldl (Path.push false) []).reverse
    refine iff_of_true ⟨name ++ rest, by simp [hname], ?_⟩ hstays
    rw [String.toList_ofList, hrest, howner, List.append_assoc]
  · refine iff_of_false ?_ (not_not.2 hclimbs)
    rintro ⟨rest, -, hrest⟩
    rw [String.toList_ofList] at hrest
    have hscheme : ':' ∈ scheme ++ rest := by simp [scheme]
    rcases Path.mem_join (hrest ▸ hscheme) with heq | ⟨t, ht, hin⟩
    · exact absurd heq (by decide)
    · exact hcolon (of_mem_split (hmem t (List.mem_reverse.1 ht)) hin).1

/-- A chain of references that never climbs out of a library comes to no other library sources than
    those called by the name of a library. -/
theorem namesLibrary_of_refersInside {origin s : Source} (horigin : origin.IsOrigin)
    (h : ReflTransGen RefersInside origin s) (hkind : s.kind = .library) : s.NamesLibrary := by
  have hpath : ∀ {path}, s ≠ ofPath path := by
    rintro path rfl
    exact absurd hkind nofun
  cases h with
  | refl =>
    rcases horigin with ⟨path, rfl⟩ | ⟨uri, huri⟩
    · exact absurd rfl hpath
    · exact (kind_of_ofLibraryUri? huri).2
  | tail _ hstep =>
    obtain ⟨uri, huri, hinside⟩ := hstep
    rcases resolve?_cases huri with hnamed | ⟨path, hfile⟩ | ⟨hlib, hcolon, rfl⟩
    · exact (kind_of_ofLibraryUri? hnamed).2
    · exact absurd hfile hpath
    · obtain ⟨hplain, hclimbs⟩ := hinside hlib hcolon
      exact (namesLibrary_relative_iff hlib hplain hcolon).2 hclimbs

end Source

/-! ## Back from a URI -/

namespace Sources

open Source Relation

variable (disk : Disk) (sdk? : Option String)

theorem source?_standard (uri : String) : (standard disk sdk?).source? uri =
    (ofLibraryUri? uri).or (Resolver.source? uri .files) := by
  have hlibraries : Resolver.source? uri (.libraries sdk?) = ofLibraryUri? uri := rfl
  simp only [source?, standard, List.findSome?_cons, List.findSome?_nil, hlibraries]
  cases ofLibraryUri? uri with
  | none => cases Resolver.source? uri .files <;> rfl
  | some s => rfl

theorem kind_of_files {uri : String} {s : Source} (h : Resolver.source? uri .files = some s) :
    s.kind = .file := by
  simp only [Resolver.source?] at h
  split at h
  · rw [← Option.some.inj h]
    rfl
  · split at h
    · exact absurd h nofun
    · rw [← Option.some.inj h]
      rfl

/-- The URI of a file leads back to it. -/
theorem source?_uri_ofPath (path : List Char) :
    (standard disk sdk?).source? (ofPath path).uri = some (ofPath path) := by
  have huri : (ofPath path).uri.toList = fileScheme ++ Path.normalize path := by
    simp [Source.uri, ofPath]
  have hlibrary : ofLibraryUri? (ofPath path).uri = none := by
    refine Option.eq_none_iff_forall_ne_some.2 fun s hs => ?_
    obtain ⟨rfl, rest, -, hrest⟩ := ofLibraryUri?_eq_some_iff.1 hs
    rw [huri] at hrest
    exact absurd hrest (by simp [fileScheme, scheme])
  rw [source?_standard, hlibrary, Option.none_or, Resolver.source?,
    List.isPrefixOf?_eq_some_iff_append_eq.2 huri.symm]
  simp only [ofPath, Path.normalize_normalize]

/-- The URI of a library source leads back to it exactly if its name is that of a library. -/
theorem source?_uri_of_library {s : Source} (hkind : s.kind = .library) :
    (standard disk sdk?).source? s.uri = some s ↔ s.NamesLibrary := by
  have huri : s.uri = s.fullName := by simp only [Source.uri, hkind]
  have hs : s = ⟨.library, s.fullName⟩ := by rw [← hkind]
  rw [source?_standard, huri]
  constructor
  · intro h
    rcases Option.or_eq_some_iff.1 h with hlibrary | ⟨-, hfile⟩
    · exact (kind_of_ofLibraryUri? hlibrary).2
    · rw [kind_of_files hfile] at hkind
      exact absurd hkind nofun
  · intro h
    rw [ofLibraryUri?_eq_some_iff.2 ⟨hs, h⟩, Option.some_or]

/-- Whatever source a chain of references comes to from a file or a library: the standard sources take
    its URI back to it exactly if it is a file or has the name of a library. That is so for every
    source that a chain comes to without climbing out of a library. -/
theorem source?_uri {origin : Source} (horigin : origin.IsOrigin) :
    (∀ s, ReflTransGen Refers origin s →
      ((standard disk sdk?).source? s.uri = some s ↔ (s.kind = .library → s.NamesLibrary))) ∧
    ∀ s, ReflTransGen RefersInside origin s → (standard disk sdk?).source? s.uri = some s := by
  have hback : ∀ s, ReflTransGen Refers origin s →
      ((standard disk sdk?).source? s.uri = some s ↔ (s.kind = .library → s.NamesLibrary)) := by
    intro s hs
    cases hkind : s.kind with
    | library => simpa using source?_uri_of_library disk sdk? hkind
    | file =>
      obtain ⟨path, rfl⟩ := exists_path_of_refers horigin hs hkind
      exact iff_of_true (source?_uri_ofPath disk sdk? path) nofun
  refine ⟨hback, fun s hs => (hback s ?_).2 (namesLibrary_of_refersInside horigin hs)⟩
  exact ReflTransGen.mono (show RefersInside ≤ Refers from fun _ _ h => h.refers) _ _ hs

/-- A reference that goes down and up again, but not above the library. -/
theorem source?_uri_part : core.IsOrigin ∧
    ReflTransGen RefersInside core ⟨.library, "dart:core/list.dart"⟩ ∧
    ((standard {} none).source? "dart:core/list.dart" =
        some ⟨.library, "dart:core/list.dart"⟩ ↔
      (⟨.library, "dart:core/list.dart"⟩ : Source).NamesLibrary) ∧
    (standard {} none).source? "dart:core/list.dart" = some ⟨.library, "dart:core/list.dart"⟩ := by
  have horigin : core.IsOrigin := .inr ⟨"dart:core", by decide +kernel⟩
  have hplain : core.HasPlainName :=
    ⟨['c', 'o', 'r', 'e'], by decide, by decide, by decide +kernel⟩
  have hstep : core.RefersInside ⟨.library, "dart:core/list.dart"⟩ :=
    ⟨"src/../list.dart", by decide +kernel, fun _ _ => ⟨hplain, by unfold Path.Climbs; decide +kernel⟩⟩
  have hback := source?_uri {} none horigin
  refine ⟨horigin, .single hstep, ?_, hback.2 _ (.single hstep)⟩
  exact (hback.1 _ (.single hstep.refers)).trans ⟨fun h => h rfl, fun h _ => h⟩

/-- A reference that climbs out of its library names a library source, but its URI names a file. -/
theorem relative_escapes : core.resolve? "../x" = some ⟨.library, "x"⟩ ∧
    (standard {} none).source? (⟨.library, "x"⟩ : Source).uri = some ⟨.file, "x"⟩ := by
  decide +kernel

end Sources

end DartAnalysis
