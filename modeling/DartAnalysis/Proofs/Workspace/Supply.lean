/-
  How many sources have a text. An editor and a list hold finitely many texts. A file is read at its
  path, which must not be too long, and a path cannot be short if the name of the source is long: it
  is the name of a file, and the name of a library splits into parts of it (`Disk.length_of_library`).
  So at any time there are finitely many sources that can be read (`Sources.finite_readable`), and some
  room is enough for the program of a root (`Workspace.exists_hasRoom`).
-/
import DartAnalysis.Proofs.Program.Readable
import DartAnalysis.Proofs.Scan.Reports
import DartAnalysis.Proofs.Workspace.Reading
import Mathlib.Data.Set.Finite.List

namespace DartAnalysis

/-! ## Paths -/

theorem Path.length_append (directory path : List Char) (hpath : path.head? ≠ some '/') :
    directory.length + path.length ≤ (Path.append directory path).length := by
  unfold Path.append
  rw [if_neg hpath]
  split
  · rw [List.length_append]
  · rw [List.length_append, List.length_cons]
    omega

namespace Disk

variable {d : Disk} {source : Source}

/-- A path at which a file is read leads down from the directory, and is not too long. -/
theorem path_of_read {path : String} {c : Contents} (h : d.read source path = .ok c) :
    path.toList.length ≤ maxPath ∧ path.toList.head? ≠ some '/' := by
  have hfile : ∃ text, d.find path = .file (some text) := by
    unfold read at h
    split at h
    · exact ⟨_, ‹_›⟩
    · cases h
    · cases h
  obtain ⟨text, hfind⟩ := hfile
  unfold find at hfind
  dsimp only at hfind
  split at hfind
  · cases hfind
  next hpath =>
  split at hfind
  · cases hfind
  split at hfind
  · split at hfind <;> cases hfind
  next habsolute =>
  refine ⟨Nat.le_trans (Text.length_le_byteSize _) ?_, habsolute⟩
  simp only [isPath, Bool.not_eq_true', Bool.and_eq_false_iff, not_or, Bool.not_eq_false,
    decide_eq_true_eq] at hpath
  exact hpath.2

/-- A path at which a file is read is not shorter than the last part of it. -/
theorem length_of_append {directory path : List Char} {c : Contents}
    (h : d.read source (String.ofList (Path.append directory path)) = .ok c) :
    directory.length + path.length ≤ maxPath := by
  obtain ⟨hshort, hdown⟩ := path_of_read h
  rw [String.toList_ofList] at hshort hdown
  refine Nat.le_trans (Path.length_append directory path fun hpath => hdown ?_) hshort
  unfold Path.append
  rw [if_pos hpath, hpath]

/-- The name of a library is not much longer than the path at which it is read: up to its first slash
    it names a directory of that path, and a file after it. -/
theorem length_of_library {sdk path : String} {c : Contents}
    (hpath : Resolver.libraryPath? sdk source = some path) (h : d.read source path = .ok c) :
    source.fullName.toList.length ≤ Source.scheme.length + 1 + maxPath := by
  unfold Resolver.libraryPath? at hpath
  obtain ⟨rest, hrest, hpath⟩ := Option.bind_eq_some_iff.1 hpath
  obtain rfl := Option.some.inj hpath
  have hname := List.isPrefixOf?_eq_some_iff_append_eq.1 hrest
  have hsplit := List.takeWhile_append_dropWhile (p := (· ≠ '/')) (l := rest)
  have hdirectory : (rest.takeWhile (· ≠ '/')).length ≤ (Path.append (Path.append sdk.toList "lib".toList)
      (rest.takeWhile (· ≠ '/'))).length := by
    refine Nat.le_trans (Nat.le_add_left _ _) (Path.length_append _ _ fun hhead => ?_)
    have hslash := List.mem_takeWhile_imp (List.mem_of_mem_head? hhead)
    simp at hslash
  have hlength := length_of_append h
  rw [← hname, List.length_append, ← hsplit, List.length_append]
  cases htail : rest.dropWhile (· ≠ '/') with
  | nil =>
    rw [List.length_nil]
    omega
  | cons slash file =>
    rw [htail] at hlength
    dsimp only at hlength
    rw [List.length_cons]
    omega

end Disk

/-! ## Sources that can be read -/

namespace Sources

/-- No name is longer of a source that a resolver reads from the disk. -/
def maxFullName : Nat := Source.scheme.length + 1 + Disk.maxPath

variable (s : Sources)

/-- Sources whose texts are held or listed. -/
def held : List Source :=
  s.overlay.map (·.1) ++ s.resolvers.flatMap fun
    | .listed _ texts => texts.map (·.1)
    | _ => []

/-- A source that can be read is held, or has a name that is not too long. -/
theorem held_or_short {source : Source} {c : Contents} (h : s.contents source = .ok c) :
    source ∈ s.held ∨ source.fullName.toList.length ≤ maxFullName := by
  unfold contents at h
  split at h
  · next hoverlay =>
    exact .inl (List.mem_append_left _ (List.mem_map.2 ⟨_, mem_of_lookup_eq_some hoverlay, rfl⟩))
  cases hfound : s.resolvers.findSome? (·.contents? s.disk source) with
  | none =>
    rw [hfound] at h
    cases h
  | some result =>
    rw [hfound] at h
    obtain rfl : result = .ok c := h
    obtain ⟨r, hr, hread⟩ := List.exists_of_findSome?_eq_some hfound
    cases r with
    | libraries sdk? =>
      right
      obtain ⟨-, hread⟩ := Option.ite_none_left_eq_some.1 hread
      have hread := Option.some.inj hread
      split at hread
      · next path hpath =>
        obtain ⟨sdk, -, hpath⟩ := Option.bind_eq_some_iff.1 hpath
        exact Disk.length_of_library hpath hread
      · cases hread
    | files =>
      right
      obtain ⟨path, hpath, hread⟩ := Option.map_eq_some_iff.1 hread
      have hname : path = source.fullName := by
        unfold Source.path? at hpath
        split at hpath
        · cases hpath
        · exact (Option.some.inj hpath).symm
      rw [← hname]
      exact Nat.le_trans (Disk.path_of_read hread).1 (Nat.le_add_left _ _)
    | listed scheme texts =>
      left
      obtain ⟨entry, hentry, -⟩ := Option.map_eq_some_iff.1 hread
      exact List.mem_append_right _ (List.mem_flatMap.2
        ⟨_, hr, List.mem_map.2 ⟨_, mem_of_lookup_eq_some hentry, rfl⟩⟩)

/-- Only so many sources can be read. -/
theorem finite_readable : {source : Source | ∃ c, s.contents source = .ok c}.Finite := by
  have hchars : Finite Char :=
    .of_injective Char.ordinal (Function.LeftInverse.injective fun _ => Char.ofOrdinal_ordinal)
  have hshort : {cs : List Char | cs.length ≤ maxFullName}.Finite := List.finite_length_le Char _
  have hnamed (kind : Source.Kind) : {source : Source | source.kind = kind ∧
      source.fullName.toList.length ≤ maxFullName}.Finite := by
    refine (hshort.image fun cs => ⟨kind, String.ofList cs⟩).subset ?_
    rintro ⟨kind, fullName⟩ ⟨rfl, hlength⟩
    exact ⟨fullName.toList, hlength, congrArg (Source.mk kind) String.ofList_toList⟩
  refine ((List.finite_toSet s.held).union ((hnamed .library).union (hnamed .file))).subset ?_
  rintro ⟨kind, fullName⟩ ⟨c, hc⟩
  refine (s.held_or_short hc).imp id fun hlength => ?_
  cases kind with
  | library => exact .inl ⟨rfl, hlength⟩
  | file => exact .inr ⟨rfl, hlength⟩

end Sources

/-- At any time there are only so many sources with a text or an installed library. -/
theorem Workspace.exists_supply (w : Workspace) : ∃ sources : List Source, ∀ x,
    (∃ text, w.world.text x = .ok text) ∨ (w.world.installed x).isSome → x ∈ sources := by
  have hfinite := w.sources.finite_readable
  refine ⟨hfinite.toFinset.toList ++ w.installed.map (·.1), fun x hx => List.mem_append.2 ?_⟩
  rcases hx with ⟨text, htext⟩ | hinstalled
  · left
    rw [Finset.mem_toList, Set.Finite.mem_toFinset]
    have hread : (w.sources.contents x).map Contents.text = .ok text := htext
    cases hc : w.sources.contents x with
    | error e =>
      rw [hc] at hread
      cases hread
    | ok c => exact ⟨c, hc⟩
  · obtain ⟨l, hl⟩ := Option.isSome_iff_exists.1 hinstalled
    exact .inr (List.mem_map.2 ⟨(x, l), mem_of_lookup_eq_some hl, rfl⟩)

/-- So a program comes to only so many libraries. -/
theorem Workspace.exists_hasRoom (w : Workspace) (root : Source) :
    ∃ room, Program.HasRoom w.world.unit? w.world.installed room root := by
  obtain ⟨sources, hsources⟩ := w.exists_supply
  refine ⟨sources.length, sources, Nat.le_refl _, fun x _ hx => hsources x ?_⟩
  rcases hx with hinstalled | ⟨t, ht⟩
  · exact .inr hinstalled
  · obtain ⟨text, htext, -⟩ := World.text_of_unit? ht.2.1
    exact .inl ⟨text, htext⟩

end DartAnalysis
