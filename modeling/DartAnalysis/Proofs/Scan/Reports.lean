/-
  Where the scanner reports. A report covers characters that have been read, and an interpolation
  that is still open began before the place that was reached (`Lexer.Placed`, kept by `step` in each
  of its cases); so whatever is reported of a text lies inside it. Main statement:
  `Scan.ofText_reports`.
-/
import DartAnalysis.Proofs.Scan.Tiling

namespace DartAnalysis

/-- A diagnostic against a source, in its text. -/
structure Diagnostic.Within (d : Diagnostic) (source? : Option Source) (text : String) : Prop where
  source_eq : d.source? = source?
  finish_le : d.finish ≤ text.utf8ByteSize

theorem Text.length_le_byteSize (cs : List Char) : cs.length ≤ byteSize cs := by
  induction cs with
  | nil => exact Nat.le_refl _
  | cons c cs ih =>
    have hpos := c.utf8Size_pos
    rw [List.length_cons, byteSize_cons]
    omega

namespace Lexeme

theorem decimal_missing {cs : List Char} {offset length : Nat}
    (h : (decimal cs).missing? = some (offset, length)) :
    offset + length ≤ (decimal cs).taken.length := by
  unfold decimal at h ⊢
  dsimp only at h ⊢
  split at h
  · obtain ⟨rfl, rfl⟩ := Prod.mk.inj (Option.some.inj h)
    exact Nat.le_of_eq List.length_append.symm
  · cases h

theorem hexadecimal_missing {mark cs : List Char} {offset length : Nat}
    (h : (hexadecimal mark cs).missing? = some (offset, length)) :
    offset + length ≤ (hexadecimal mark cs).taken.length := by
  unfold hexadecimal at h ⊢
  dsimp only at h ⊢
  split at h
  · obtain ⟨rfl, rfl⟩ := Prod.mk.inj (Option.some.inj h)
    simp
  · cases h

/-- What is missing in a number is reported at a part of what was read of it. -/
theorem number_missing {cs : List Char} {offset length : Nat}
    (h : (number cs).missing? = some (offset, length)) :
    offset + length ≤ Text.byteSize (number cs).taken := by
  refine Nat.le_trans ?_ (Text.length_le_byteSize _)
  unfold number at h ⊢
  split at h
  · exact hexadecimal_missing h
  · exact hexadecimal_missing h
  · exact decimal_missing h

end Lexeme

namespace Lexer

open Lexeme Text

/-- Whatever was reported or is still open lies in what has been read. -/
structure Placed (source? : Option Source) (s : State) : Prop where
  source_eq : s.source? = source?
  errors : ∀ d ∈ s.errors, d.source? = source? ∧ d.finish ≤ s.offset
  groups : ∀ d offset, .interpolation d offset ∈ s.groups → offset ≤ s.offset

section Steps

variable {source? : Option Source} {s : State} (h : Placed source? s)
include h

/-- Reading on moves the end of what has been read. -/
theorem Placed.skip (taken rest : List Char) : Placed source? (s.skip taken rest) where
  source_eq := h.source_eq
  errors d hd :=
    ⟨(h.errors d hd).1, Nat.le_trans (h.errors d hd).2 (Nat.le_add_right _ _)⟩
  groups d offset hmem := Nat.le_trans (h.groups d offset hmem) (Nat.le_add_right _ _)

theorem Placed.token (kind : Token.Kind) (taken rest : List Char) :
    Placed source? (s.token kind taken rest) :=
  ⟨(h.skip taken rest).source_eq, (h.skip taken rest).errors, (h.skip taken rest).groups⟩

theorem Placed.comment (kind : Comment.Kind) (taken rest : List Char) :
    Placed source? (s.comment kind taken rest) :=
  ⟨(h.skip taken rest).source_eq, (h.skip taken rest).errors, (h.skip taken rest).groups⟩

theorem Placed.report {offset length : Nat} (hread : offset + length ≤ s.offset)
    (code : Diagnostic.Code) (args : List String) :
    Placed source? (s.report offset length code args) where
  source_eq := h.source_eq
  errors d hd := by
    rcases List.mem_cons.1 hd with rfl | hd
    · exact ⟨h.source_eq, hread⟩
    · exact h.errors d hd
  groups := h.groups

theorem Placed.mode (mode : Mode) : Placed source? { s with mode } :=
  ⟨h.source_eq, h.errors, h.groups⟩

theorem Placed.open {g : Group} (hg : ∀ d offset, g = .interpolation d offset → offset ≤ s.offset) :
    Placed source? { s with groups := g :: s.groups } where
  source_eq := h.source_eq
  errors := h.errors
  groups d offset hmem := by
    rcases List.mem_cons.1 hmem with heq | hmem
    · exact hg d offset heq.symm
    · exact h.groups d offset hmem

theorem Placed.close {g : Group} {groups : List Group} (hgroups : s.groups = g :: groups) :
    Placed source? { s with groups } where
  source_eq := h.source_eq
  errors := h.errors
  groups d offset hmem := h.groups d offset (hgroups ▸ List.mem_cons_of_mem g hmem)

theorem Placed.text (d : Delimiter) (kind : Token.Kind) (lead cs : List Char) :
    Placed source? (Lexer.text s d kind lead cs) := by
  unfold Lexer.text
  split
  rename_i body rest stop hseg
  have hafter : Placed source?
        (if lead ++ body = [] then s else s.token kind (lead ++ body) rest) ∧
      s.groups = (if lead ++ body = [] then s else s.token kind (lead ++ body) rest).groups ∧
      s.offset + byteSize (lead ++ body) =
        (if lead ++ body = [] then s else s.token kind (lead ++ body) rest).offset := by
    split
    · rename_i hnil
      exact ⟨h, rfl, by rw [hnil]; rfl⟩
    · exact ⟨h.token kind _ rest, rfl, rfl⟩
  dsimp only
  generalize (if lead ++ body = [] then s else s.token kind (lead ++ body) rest) = after
    at hafter ⊢
  obtain ⟨hafter, hgroups, hoffset⟩ := hafter
  split
  · rename_i rest'
    rw [hgroups]
    refine ((hafter.token .interpolationExpression ['$', '\x7b'] rest').open ?_).mode .code
    intro d' offset heq
    obtain ⟨-, rfl⟩ := Group.interpolation.inj heq
    exact Nat.le_add_right _ _
  · exact ((hafter.token _ _ _).token _ _ _).mode _
  · exact (hafter.report (Nat.le_of_eq hoffset) _ _).mode _
  · exact hafter.mode _

theorem Placed.quoted (raw : Bool) (mark : List Char) (quote : Char) (cs : List Char) :
    Placed source? (Lexer.quoted s raw mark quote cs) :=
  h.text _ _ _ _

theorem Placed.numeric (cs : List Char) : Placed source? (Lexer.numeric s cs) := by
  have hread := h.token (number cs).kind (number cs).taken (number cs).rest
  unfold Lexer.numeric
  dsimp only
  split
  · rename_i offset length hmissing
    refine hread.report ?_ _ _
    have hle := number_missing hmissing
    show s.offset + offset + length ≤ s.offset + byteSize (number cs).taken
    omega
  · exact hread

theorem Placed.block (cs : List Char) : Placed source? (Lexer.block s cs) := by
  have hread (kind : Comment.Kind) (taken rest : List Char) :=
    h.comment kind taken rest
  unfold Lexer.block
  dsimp only
  split
  · exact hread _ _ _
  · exact (hread _ _ _).report (Nat.le_refl _) _ _

theorem Placed.regroup (kind : Token.Kind) : Placed source? (Lexer.regroup s kind) := by
  unfold Lexer.regroup
  split
  · exact h.open nofun
  · exact (h.close ‹_›).mode _
  · exact h.close ‹_›
  · exact h

theorem Placed.symbolic (c : Char) (cs : List Char) : Placed source? (Lexer.symbolic s c cs) := by
  unfold Lexer.symbolic
  split
  · exact (h.token _ _ _).regroup _
  · refine (h.skip [c] cs).report ?_ _ _
    show s.offset + c.utf8Size ≤ s.offset + byteSize [c]
    simp

theorem Placed.lexeme (c : Char) (cs : List Char) : Placed source? (Lexer.lexeme s c cs) := by
  have hname (cs : List Char) : Placed source? (lexeme.name s cs) := h.token _ _ _
  unfold Lexer.lexeme
  split
  · exact h.skip _ _
  split
  · exact h.quoted _ _ _ _
  split
  · split
    · split
      · exact h.quoted _ _ _ _
      · exact hname _
    · exact hname _
  split
  · exact h.numeric _
  split
  · exact h.comment _ _ _
  split
  · exact h.block _
  · exact h.symbolic _ _

/-- A step reports within what it reads, and opens what it has reached. -/
theorem Placed.step {s' : State} (hstep : Lexer.step s = some s') : Placed source? s' := by
  unfold Lexer.step at hstep
  split at hstep
  · obtain rfl := Option.some.inj hstep
    exact h.text _ _ _ _
  · obtain rfl := Option.some.inj hstep
    exact h.lexeme _ _
  · exact absurd hstep nofun

end Steps

theorem Placed.run {source? : Option Source} {s : State} (h : Placed source? s) :
    Placed source? (run s) := by
  induction s using Lexer.run.induct with
  | case1 s hstep =>
    rw [Lexer.run, hstep]
    exact h
  | case2 s s' hstep ih =>
    rw [Lexer.run, hstep]
    exact ih (h.step hstep)

theorem Placed.start (source? : Option Source) (cs : List Char) :
    Placed source? (.start source? cs) :=
  ⟨rfl, nofun, nofun⟩

/-- An interpolation that is open at the end began before it. -/
theorem Placed.openInterpolation_le {source? : Option Source} {s : State} (h : Placed source? s)
    {offset : Nat} (hopen : openInterpolation? s.groups = some offset) : offset ≤ s.offset := by
  obtain ⟨g, hg, hfound⟩ := List.exists_of_findSome?_eq_some hopen
  cases g with
  | brace => cases hfound
  | interpolation d offset' =>
    obtain rfl := Option.some.inj hfound
    exact h.groups d _ (List.mem_reverse.1 hg)

/-- All of the text is read in the end. -/
theorem offset_run (source? : Option Source) (text : String) :
    (run (.start source? text.toList)).offset = text.utf8ByteSize := by
  obtain ⟨⟨ps, hps⟩, hrest⟩ := (Covers.start source? text.toList).run
  have htext := hps.text_eq
  rw [hrest, List.append_nil] at htext
  rw [hps.offset_eq, htext, byteSize_toList]

end Lexer

/-- Whatever is reported of a text while it is scanned lies inside it, and an interpolation that is
    still open at the end of the text began before that. -/
theorem Scan.ofText_reports (source? : Option Source) (text : String) :
    (∀ d ∈ (Scan.ofText source? text).errors, d.Within source? text) ∧
      ∀ offset, Lexer.openInterpolation? (Lexer.run (.start source? text.toList)).groups =
        some offset → offset ≤ (Lexer.run (.start source? text.toList)).offset := by
  have hplaced := (Lexer.Placed.start source? text.toList).run
  have hend := Lexer.offset_run source? text
  refine ⟨fun d hd => ?_, fun offset hopen => hplaced.openInterpolation_le hopen⟩
  unfold Scan.ofText at hd
  dsimp only at hd
  split at hd
  · rename_i offset hopen
    have hread := Nat.le_of_eq (Nat.add_sub_cancel' (hplaced.openInterpolation_le hopen))
    obtain ⟨hsource, hfinish⟩ :=
      (hplaced.report hread .unterminatedStringLiteral []).errors d (List.mem_reverse.1 hd)
    exact ⟨hsource, hend ▸ hfinish⟩
  · obtain ⟨hsource, hfinish⟩ := hplaced.errors d (List.mem_reverse.1 hd)
    exact ⟨hsource, hend ▸ hfinish⟩

end DartAnalysis
