/-
  Paths and their normal forms. A normal form is empty, or a slash, or names below a slash, or ways up
  and then names (`Normal`); those are just the paths that are their own normal form
  (`normal_iff_normalize_eq`). What a directory adds to the segments behind it is its stack of kept
  segments alone (`normalSegments_append`), and its normal form has the same stack. So a directory may be
  put into normal form before more is appended, unless nothing is left of it: `.` followed by `/x` is a
  relative path, but the empty path followed by `/x` is absolute.

  Main statement: `normalize_canonical`, for all paths; the last part is about references from files.
-/
import DartAnalysis.Proofs.Source.Paths
import Mathlib

namespace DartAnalysis

namespace Path

open Text

/-! ## Normal forms -/

/-- A segment that names something. -/
structure IsName (s : List Char) : Prop where
  ne_nil : s ≠ []
  ne_dot : s ≠ ['.']
  ne_up : s ≠ up
  plain : ∀ c ∈ s, ¬ isSeparator c

/-- Paths in normal form. -/
inductive Normal : List Char → Prop
  | empty : Normal []
  | root : Normal ['/']
  | absolute {names : List (List Char)} (hne : names ≠ []) (hnames : ∀ s ∈ names, IsName s) :
    Normal ('/' :: join names)
  | relative {ups : Nat} {names : List (List Char)} (hne : List.replicate ups up ++ names ≠ [])
    (hnames : ∀ s ∈ names, IsName s) : Normal (join (List.replicate ups up ++ names))

variable {absolute : Bool} {kept : List (List Char)}

/-- A stack in reading order: ways up, then names. -/
theorem Stacked.exists_names (h : Stacked absolute kept) :
    ∃ ups names, kept.reverse = List.replicate ups up ++ names ∧ (∀ s ∈ names, IsName s) ∧
      (absolute → ups = 0) := by
  obtain ⟨names, ups, rfl, hup, habsolute⟩ := h.ups
  refine ⟨ups, names.reverse, by rw [List.reverse_append, List.reverse_replicate], fun s hs => ?_,
    habsolute⟩
  have hs := List.mem_reverse.1 hs
  have hkept := List.mem_append_left (List.replicate ups up) hs
  exact ⟨h.ne_nil s hkept, h.ne_dot s hkept, fun heq => hup (heq ▸ hs), h.plain s hkept⟩

/-- Ways up, then names, make a stack. -/
theorem stacked_of_names {ups : Nat} {names : List (List Char)} (hnames : ∀ s ∈ names, IsName s)
    (habsolute : absolute → ups = 0) :
    Stacked absolute (List.replicate ups up ++ names).reverse := by
  rw [List.reverse_append, List.reverse_replicate]
  have hmem : ∀ s ∈ names.reverse ++ List.replicate ups up, IsName s ∨ s = up := by
    intro s hs
    rcases List.mem_append.1 hs with hs | hs
    · exact .inl (hnames s (List.mem_reverse.1 hs))
    · exact .inr (List.eq_of_mem_replicate hs)
  refine ⟨fun s hs => ?_, fun s hs => ?_, fun s hs => ?_, names.reverse, ups, rfl,
    fun hup => (hnames up (List.mem_reverse.1 hup)).ne_up rfl, habsolute⟩
  · rcases hmem s hs with hname | rfl
    · exact hname.ne_nil
    · decide
  · rcases hmem s hs with hname | rfl
    · exact hname.ne_dot
    · decide
  · rcases hmem s hs with hname | rfl
    · exact hname.plain
    · simp [isSeparator]

/-- The kept segments of a path make a stack. -/
theorem stacked_normalSegments (cs : List Char) :
    Stacked (isAbsolute cs) (normalSegments cs).reverse := by
  rw [normalSegments, List.reverse_reverse]
  exact stacked_segments _ cs

theorem normal_normalize (cs : List Char) : Normal (normalize cs) := by
  obtain ⟨ups, names, heq, hnames, habsolute⟩ := (stacked_normalSegments cs).exists_names
  rw [List.reverse_reverse] at heq
  rw [normalize, heq]
  split
  · rename_i hcs
    obtain rfl := habsolute hcs
    rw [List.replicate_zero, List.nil_append]
    by_cases hnil : names = []
    · subst hnil
      exact .root
    · exact .absolute hnil hnames
  · by_cases hnil : List.replicate ups up ++ names = []
    · rw [hnil]
      exact .empty
    · exact .relative hnil hnames

/-- A relative stack's text is its own normal form. -/
theorem Stacked.normalize_join (h : Stacked false kept) :
    normalize (join kept.reverse) = join kept.reverse := by
  rw [normalize, h.not_isAbsolute_join, normalSegments, h.not_isAbsolute_join, h.foldl_segments]
  rfl

/-- So is the text of an absolute stack with a slash before it. -/
theorem Stacked.normalize_slash_join (h : Stacked true kept) :
    normalize ('/' :: join kept.reverse) = '/' :: join kept.reverse := by
  have hsegments : normalSegments ('/' :: join kept.reverse) = kept.reverse :=
    congrArg List.reverse h.foldl_segments
  rw [normalize, hsegments]
  rfl

theorem normal_iff_normalize_eq {cs : List Char} : Normal cs ↔ normalize cs = cs := by
  refine ⟨fun h => ?_, fun h => h ▸ normal_normalize cs⟩
  cases h with
  | empty => rfl
  | root => rfl
  | @absolute names _ hnames =>
    have hstack := @stacked_of_names true 0 names hnames fun _ => rfl
    simpa using hstack.normalize_slash_join
  | @relative ups names _ hnames =>
    have hstack := @stacked_of_names false ups names hnames nofun
    simpa using hstack.normalize_join

theorem Normal.not_mem_backslash {cs : List Char} (h : Normal cs) : '\\' ∉ cs := by
  have hjoin : ∀ {ss : List (List Char)}, (∀ s ∈ ss, ∀ c ∈ s, ¬ isSeparator c) → '\\' ∉ join ss := by
    intro ss hss hmem
    rcases mem_join hmem with heq | ⟨s, hs, hc⟩
    · exact absurd heq (by decide)
    · exact hss s hs '\\' hc (by decide)
  cases h with
  | empty => exact List.not_mem_nil
  | root => decide
  | absolute _ hnames =>
    refine fun hmem => (List.mem_cons.1 hmem).elim (fun heq => absurd heq (by decide)) ?_
    exact hjoin fun s hs => (hnames s hs).plain
  | relative _ hnames =>
    refine hjoin fun s hs => ?_
    rcases List.mem_append.1 hs with hs | hs
    · rw [List.eq_of_mem_replicate hs]
      simp [isSeparator]
    · exact (hnames s hs).plain

/-- A normal form begins with a slash just if the path begins with either slash. -/
theorem head?_normalize_eq_slash_iff {cs : List Char} :
    (normalize cs).head? = some '/' ↔ isAbsolute cs = true := by
  refine ⟨fun h => ?_, fun h => ?_⟩
  · rw [← isAbsolute_normalize, isAbsolute, h]
    rfl
  · rw [normalize, if_pos h]
    rfl

/-- Nothing is left of a relative path that comes back to where it began. -/
theorem normalize_eq_nil_iff {cs : List Char} :
    normalize cs = [] ↔ normalSegments cs = [] ∧ isAbsolute cs = false := by
  rw [normalize]
  split
  · rename_i hcs
    simp [hcs]
  · rename_i hcs
    refine ⟨fun h => ⟨?_, Bool.eq_false_iff.2 hcs⟩, fun h => by rw [h.1]; rfl⟩
    cases hsegments : normalSegments cs with
    | nil => rfl
    | cons s ss =>
      rw [hsegments] at h
      refine absurd h (join_ne_nil ((stacked_normalSegments cs).ne_nil s ?_))
      rw [hsegments]
      exact List.mem_reverse.2 List.mem_cons_self

/-! ## Directories -/

/-- A text that ends where a segment does. -/
def IsDirectory (cs : List Char) : Prop := cs = [] ∨ ∃ before c, isSeparator c ∧ cs = before ++ [c]

theorem isDirectory_slash (cs : List Char) : IsDirectory (cs ++ ['/']) :=
  .inr ⟨cs, '/', by decide, rfl⟩

theorem isAbsolute_append {cs : List Char} (h : cs ≠ []) (ds : List Char) :
    isAbsolute (cs ++ ds) = isAbsolute cs := by
  obtain ⟨c, cs, rfl⟩ := List.exists_cons_of_ne_nil h
  rfl

/-- Of a directory no segment goes on in what follows. -/
theorem IsDirectory.segments_append {cs : List Char} (h : IsDirectory cs) :
    ∃ ss, segments cs = ss ++ [[]] ∧ ∀ ds, segments (cs ++ ds) = ss ++ segments ds := by
  rcases h with rfl | ⟨before, c, hc, rfl⟩
  · exact ⟨[], rfl, fun ds => rfl⟩
  · refine ⟨segments before, split_append hc before [], fun ds => ?_⟩
    rw [List.append_assoc]
    exact split_append hc before ds

/-- What a directory adds to what follows is its stack. -/
theorem normalSegments_append {cs ds : List Char} (h : IsDirectory cs)
    (habsolute : isAbsolute (cs ++ ds) = isAbsolute cs) :
    normalSegments (cs ++ ds) =
      ((segments ds).foldl (push (isAbsolute cs)) (normalSegments cs).reverse).reverse := by
  obtain ⟨ss, hss, happend⟩ := h.segments_append
  have hstack : (segments cs).foldl (push (isAbsolute cs)) [] = ss.foldl (push (isAbsolute cs)) [] := by
    rw [hss, List.foldl_append]
    exact push_blank (isAbsolute cs) _ (.inl rfl)
  rw [normalSegments, normalSegments, habsolute, happend, List.foldl_append, List.reverse_reverse, hstack]

/-- Directories of one stack, both absolute or both not, are alike before all that follows. -/
theorem normalize_append_congr {cs cs' ds : List Char} (h : IsDirectory cs) (h' : IsDirectory cs')
    (hsegments : normalSegments cs = normalSegments cs') (habsolute : isAbsolute cs = isAbsolute cs')
    (hcs : isAbsolute (cs ++ ds) = isAbsolute cs) (hcs' : isAbsolute (cs' ++ ds) = isAbsolute cs') :
    normalize (cs ++ ds) = normalize (cs' ++ ds) := by
  rw [normalize, normalize, normalSegments_append h hcs, normalSegments_append h' hcs', hcs, hcs',
    hsegments, habsolute]

theorem normalSegments_slash {cs : List Char} (h : cs ≠ []) :
    normalSegments (cs ++ ['/']) = normalSegments cs := by
  have hsegments : segments (cs ++ ['/']) = segments cs ++ [[]] := Path.segments_append cs []
  rw [normalSegments, normalSegments, isAbsolute_append h, hsegments, List.foldl_append]
  exact congrArg List.reverse (push_blank (isAbsolute cs) _ (.inl rfl))

/-- A path may be put into normal form before more is appended, unless its normal form is empty. -/
theorem normalize_append_slash {cs : List Char} (h : normalize cs ≠ []) (ds : List Char) :
    normalize (cs ++ '/' :: ds) = normalize (normalize cs ++ '/' :: ds) := by
  have hcs : cs ≠ [] := by
    rintro rfl
    exact h rfl
  have hne (es : List Char) : es ++ ['/'] ≠ [] := List.append_ne_nil_of_right_ne_nil es (by simp)
  rw [List.append_cons, List.append_cons (normalize cs)]
  refine normalize_append_congr (isDirectory_slash cs) (isDirectory_slash _) ?_ ?_
    (isAbsolute_append (hne cs) ds) (isAbsolute_append (hne _) ds)
  · rw [normalSegments_slash hcs, normalSegments_slash h, normalSegments_normalize]
  · rw [isAbsolute_append hcs, isAbsolute_append h, isAbsolute_normalize]

/-! ## The directory of a file -/

theorem directory_of_not_mem {cs : List Char} (h : '/' ∉ cs) : directory cs = [] := by
  have hdrop : cs.reverse.dropWhile (· ≠ '/') = [] := by
    refine List.dropWhile_eq_nil_iff.2 fun c hc => ?_
    simpa using fun heq : c = '/' => h (heq ▸ List.mem_reverse.1 hc)
  rw [directory, hdrop]
  rfl

theorem directory_append {cs ds : List Char} (h : '/' ∉ ds) : directory (cs ++ '/' :: ds) = cs ++ ['/'] := by
  have hdrop : (cs ++ '/' :: ds).reverse.dropWhile (· ≠ '/') = '/' :: cs.reverse := by
    rw [List.reverse_append, List.reverse_cons, List.append_assoc,
      List.dropWhile_append_of_pos fun c hc => ?_]
    · exact List.dropWhile_cons_of_neg (by simp)
    · simpa using fun heq : c = '/' => h (heq ▸ List.mem_reverse.1 hc)
  rw [directory, hdrop, List.reverse_cons, List.reverse_reverse]

theorem join_concat {ss : List (List Char)} (h : ss ≠ []) (s : List Char) :
    join (ss ++ [s]) = join ss ++ '/' :: s := by
  induction ss with
  | nil => exact absurd rfl h
  | cons t ss ih =>
    by_cases hss : ss = []
    · subst hss
      rfl
    · rw [List.cons_append, join_cons (by simp), ih hss, join_cons hss, List.append_assoc]
      rfl

variable {dir name : List Char} (hdir : IsDirectory dir) (hname : IsName name)
include hdir hname

theorem isAbsolute_append_name : isAbsolute (dir ++ name) = isAbsolute dir := by
  by_cases hnil : dir = []
  · subst hnil
    obtain ⟨c, cs, rfl⟩ := List.exists_cons_of_ne_nil hname.ne_nil
    exact Bool.eq_false_iff.2 (hname.plain c List.mem_cons_self)
  · exact isAbsolute_append hnil name

theorem normalSegments_append_name : normalSegments (dir ++ name) = normalSegments dir ++ [name] := by
  rw [normalSegments_append hdir (isAbsolute_append_name hdir hname), segments_of_forall hname.plain,
    List.foldl_cons, List.foldl_nil, push_name _ _ hname.ne_nil hname.ne_dot hname.ne_up,
    List.reverse_cons, List.reverse_reverse]

/-- The directory in which a file is found by its normal form. -/
theorem directory_normalize : directory (normalize (dir ++ name)) =
    if normalSegments dir ≠ [] then normalize dir ++ ['/']
    else if isAbsolute dir then ['/'] else [] := by
  have hslash : '/' ∉ name := fun hmem => hname.plain '/' hmem (by decide)
  rw [normalize, isAbsolute_append_name hdir hname, normalSegments_append_name hdir hname, normalize]
  by_cases hnil : normalSegments dir = []
  · rw [hnil, if_neg (not_not.2 rfl)]
    split
    · exact @directory_append [] name hslash
    · exact directory_of_not_mem hslash
  · rw [if_pos hnil, join_concat hnil]
    split
    · rw [← List.cons_append, directory_append hslash]
    · rw [directory_append hslash]

/-- A reference from a file may be put behind its directory as that was first written, unless the
    reference is absolute and nothing is left of the directory. -/
theorem normalize_directory_append {uri : List Char} (huri : isAbsolute uri → normalize dir ≠ []) :
    normalize (directory (normalize (dir ++ name)) ++ uri) = normalize (dir ++ uri) := by
  have habsolute (hnil : dir ≠ []) : isAbsolute (dir ++ uri) = isAbsolute dir :=
    isAbsolute_append hnil uri
  rw [directory_normalize hdir hname]
  split
  · rename_i hsegments
    have hnormal : normalize dir ≠ [] := fun hnil => hsegments (normalize_eq_nil_iff.1 hnil).1
    have hnil : dir ≠ [] := by
      rintro rfl
      exact hsegments rfl
    refine normalize_append_congr (isDirectory_slash _) hdir ?_ ?_
      (isAbsolute_append (by simp) uri) (habsolute hnil)
    · rw [normalSegments_slash hnormal, normalSegments_normalize]
    · rw [isAbsolute_append hnormal, isAbsolute_normalize]
  rename_i hsegments
  have hsegments := not_not.1 hsegments
  split
  · rename_i hroot
    have hnil : dir ≠ [] := by
      rintro rfl
      exact absurd hroot (by decide)
    exact normalize_append_congr (isDirectory_slash []) hdir hsegments.symm hroot.symm rfl
      (habsolute hnil)
  · rename_i hroot
    have hroot := Bool.eq_false_iff.2 hroot
    have hrelative : isAbsolute uri = false := Bool.eq_false_iff.2 fun h =>
      huri h (normalize_eq_nil_iff.2 ⟨hsegments, hroot⟩)
    refine normalize_append_congr (.inl rfl) hdir hsegments.symm hroot.symm hrelative ?_
    by_cases hnil : dir = []
    · subst hnil
      exact hrelative
    · exact habsolute hnil

end Path

namespace Source

/-- A URI without a colon is taken relative to the source that it stands in. -/
theorem resolve?_of_not_mem_colon (s : Source) {uri : String} (hnil : uri ≠ "")
    (hcolon : ':' ∉ uri.toList) : s.resolve? uri = some (s.relative uri.toList) := by
  have hscheme : scheme.isPrefixOf uri.toList = false := by
    refine Bool.eq_false_iff.2 fun h => hcolon ((List.isPrefixOf_iff_prefix.1 h).subset ?_)
    decide
  have hfile : fileScheme.isPrefixOf? uri.toList = none := by
    refine Option.eq_none_iff_forall_ne_some.2 fun path h => hcolon ?_
    rw [← List.isPrefixOf?_eq_some_iff_append_eq.1 h]
    simp [fileScheme]
  have hcontains : uri.toList.contains ':' = false := by simpa using hcolon
  simp only [resolve?, hscheme, hfile, hcontains]
  simp [hnil]

theorem ofPath_eq_iff {path path' : List Char} :
    ofPath path = ofPath path' ↔ Path.isAbsolute path = Path.isAbsolute path' ∧
      Path.normalSegments path = Path.normalSegments path' := by
  have hname : ofPath path = ofPath path' ↔ Path.normalize path = Path.normalize path' := by
    rw [ofPath, ofPath, Source.mk.injEq, String.ofList_inj]
    exact and_iff_right rfl
  rw [hname]
  refine ⟨fun h => ⟨?_, ?_⟩, fun ⟨habsolute, hsegments⟩ => ?_⟩
  · rw [← Path.isAbsolute_normalize, h, Path.isAbsolute_normalize]
  · rw [← Path.normalSegments_normalize, h, Path.normalSegments_normalize]
  · rw [Path.normalize, habsolute, hsegments]
    rfl

/-- A reference in a file, by the path of the file as that was written. -/
theorem resolve?_ofPath {dir name : List Char} (hdir : Path.IsDirectory dir) (hname : Path.IsName name)
    {uri : String} (hnil : uri ≠ "") (hcolon : ':' ∉ uri.toList) (hslash : uri.toList.head? ≠ some '/')
    (hleft : Path.isAbsolute uri.toList → Path.normalize dir ≠ []) :
    (ofPath (dir ++ name)).resolve? uri = some (ofPath (dir ++ uri.toList)) := by
  rw [resolve?_of_not_mem_colon _ hnil hcolon]
  have hfull : (ofPath (dir ++ name)).fullName.toList = Path.normalize (dir ++ name) :=
    String.toList_ofList
  simp only [relative, show (ofPath (dir ++ name)).kind = .file from rfl, if_neg hslash, hfull]
  rw [ofPath, Path.normalize_directory_append hdir hname hleft]
  rfl

end Source

namespace Path

/-- Paths have normal forms. The normal form of a path is normal and holds no backslash, it is absolute
    just if the path is, and the normal paths are those that are their own normal form. A path may be put
    into normal form before a slash and more is appended, if its normal form is not empty. Two paths name
    the same file just if both are absolute or both are not and the same segments are kept of them; and
    what a relative URI names in a file is found behind the directory of the file as that was written,
    where an absolute one (it begins with a backslash) needs that something is left of the directory. -/
theorem normalize_canonical :
    (∀ path : List Char, Normal (normalize path) ∧ '\\' ∉ normalize path ∧
      ((normalize path).head? = some '/' ↔ isAbsolute path = true) ∧
      normalize (normalize path) = normalize path) ∧
    (∀ path : List Char, Normal path ↔ normalize path = path) ∧
    (∀ path : List Char, normalize path ≠ [] → ∀ more,
      normalize (path ++ '/' :: more) = normalize (normalize path ++ '/' :: more)) ∧
    (∀ path path' : List Char, Source.ofPath path = Source.ofPath path' ↔
      isAbsolute path = isAbsolute path' ∧ normalSegments path = normalSegments path') ∧
    ∀ (dir name : List Char) (uri : String), IsDirectory dir → IsName name → uri ≠ "" →
      ':' ∉ uri.toList → uri.toList.head? ≠ some '/' →
      (isAbsolute uri.toList → normalize dir ≠ []) →
      (Source.ofPath (dir ++ name)).resolve? uri = some (Source.ofPath (dir ++ uri.toList)) :=
  ⟨fun path => ⟨normal_normalize path, (normal_normalize path).not_mem_backslash,
      head?_normalize_eq_slash_iff, normalize_normalize path⟩,
    fun _ => normal_iff_normalize_eq, fun _ h => normalize_append_slash h,
    fun _ _ => Source.ofPath_eq_iff,
    fun _ _ _ hdir hname hnil hcolon hslash hleft =>
      Source.resolve?_ofPath hdir hname hnil hcolon hslash hleft⟩

/-- A path with both slashes and ways up of every sort, and a reference from a file beside it. -/
theorem normalize_canonical_climbing :
    (normalize "a/.././..\\b//.".toList ≠ [] ∧
      normalize ("a/.././..\\b//.".toList ++ '/' :: "../../c".toList) =
        normalize (normalize "a/.././..\\b//.".toList ++ '/' :: "../../c".toList)) ∧
    IsDirectory "a/.././..\\b//./".toList ∧ IsName ['m'] ∧ "\\c.dart" ≠ "" ∧
    ':' ∉ "\\c.dart".toList ∧ "\\c.dart".toList.head? ≠ some '/' ∧
    (isAbsolute "\\c.dart".toList → normalize "a/.././..\\b//./".toList ≠ []) ∧
    (Source.ofPath ("a/.././..\\b//./".toList ++ ['m'])).resolve? "\\c.dart" =
      some (Source.ofPath ("a/.././..\\b//./".toList ++ "\\c.dart".toList)) := by
  have hleft : normalize "a/.././..\\b//.".toList ≠ [] := by decide +kernel
  have hdir : IsDirectory "a/.././..\\b//./".toList :=
    .inr ⟨"a/.././..\\b//.".toList, '/', by decide, by decide +kernel⟩
  have hname : IsName ['m'] :=
    ⟨by decide, by decide, by decide, by simp [isSeparator]⟩
  have hnil : "\\c.dart" ≠ "" := by decide
  have hcolon : ':' ∉ "\\c.dart".toList := by decide +kernel
  have hslash : "\\c.dart".toList.head? ≠ some '/' := by decide +kernel
  have hnormal : isAbsolute "\\c.dart".toList → normalize "a/.././..\\b//./".toList ≠ [] :=
    fun _ => by decide +kernel
  exact ⟨⟨hleft, normalize_canonical.2.2.1 _ hleft _⟩, hdir, hname, hnil, hcolon, hslash, hnormal,
    normalize_canonical.2.2.2.2 _ _ _ hdir hname hnil hcolon hslash hnormal⟩

/-- Where nothing is left of a path, its normal form cannot stand for it before a second slash. -/
example : normalize ("a/..".toList ++ '/' :: "/x".toList) = "x".toList ∧
    normalize (normalize "a/..".toList ++ '/' :: "/x".toList) = "/x".toList := by
  decide +kernel

end Path

end DartAnalysis
