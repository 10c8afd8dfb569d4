/-
  Scanning loses nothing. Every step of the scanner cuts further pieces off the rest of the text
  (`Covers`, kept by `step` in each of its cases), so a whole run cuts the text into pieces that lie
  end to end. Main statement: the tokens and comments of any text tile it (`ofText_tiles`).
-/
import DartAnalysis.Proofs.Scan.Piece

namespace DartAnalysis

namespace Lexer

open Lexeme Text

/-- What has been read of a text is cut into pieces, and what they make has been collected. -/
structure Reads (source? : Option Source) (text : List Char) (ps : List Piece)
    (s : State) : Prop where
  source_eq : s.source? = source?
  text_eq : spelled ps ++ s.rest = text
  offset_eq : s.offset = byteSize (spelled ps)
  sound : ∀ p ∈ ps, p.Sound
  tokens_eq : s.tokens.reverse = (placed 0 ps).filterMap Piece.token?
  comments_eq : s.comments.reverse = (placed 0 ps).filterMap Piece.comment?
  errors_eq : s.errors.reverse.filter (·.code = .illegalCharacter) =
    (placed 0 ps).filterMap (Piece.illegal? source?)

/-- What has been read of a text is cut into pieces of some kind. -/
def Covers (source? : Option Source) (text : List Char) (s : State) : Prop :=
  ∃ ps, Reads source? text ps s

/-! ## Single pieces -/

section Single

variable {source? : Option Source} {text : List Char} {ps : List Piece} {s : State} (h : Reads source? text ps s)
include h

theorem Reads.spelled_snoc {p : Piece} {rest : List Char} (hrest : s.rest = p.chars ++ rest) :
    spelled (ps ++ [p]) ++ rest = text := by
  rw [spelled_append, spelled_cons, spelled_nil, List.append_nil, List.append_assoc, ← hrest]
  exact h.text_eq

theorem Reads.placed_snoc (p : Piece) :
    placed 0 (ps ++ [p]) = placed 0 ps ++ [(s.offset, p)] := by
  rw [placed_append, h.offset_eq, Nat.zero_add]
  rfl

theorem Reads.sound_snoc {p : Piece} (hp : p.Sound) : ∀ q ∈ ps ++ [p], q.Sound := by
  intro q hq
  rcases List.mem_append.1 hq with hq | hq
  · exact h.sound q hq
  · rw [List.mem_singleton.1 hq]; exact hp

theorem Reads.token {kind : Token.Kind} {taken rest : List Char} (hrest : s.rest = taken ++ rest)
    (hfits : Fits kind taken) (hne : taken ≠ []) :
    Reads source? text (ps ++ [.token kind taken]) (s.token kind taken rest) where
  source_eq := h.source_eq
  text_eq := h.spelled_snoc hrest
  offset_eq := by
    rw [spelled_append, byteSize_append, ← h.offset_eq]
    simp [State.token, State.skip]
  sound := h.sound_snoc ⟨hfits, hne⟩
  tokens_eq := by
    rw [h.placed_snoc, List.filterMap_append, ← h.tokens_eq]
    simp [State.token, State.skip, Piece.token?]
  comments_eq := by
    rw [h.placed_snoc, List.filterMap_append, ← h.comments_eq]
    simp [State.token, State.skip, Piece.comment?]
  errors_eq := by
    rw [h.placed_snoc, List.filterMap_append, List.filterMap_cons_none rfl, List.filterMap_nil,
      List.append_nil]
    exact h.errors_eq

theorem Reads.comment {kind : Comment.Kind} {taken rest : List Char}
    (hrest : s.rest = taken ++ rest) (hne : taken ≠ []) :
    Reads source? text (ps ++ [.comment kind taken]) (s.comment kind taken rest) where
  source_eq := h.source_eq
  text_eq := h.spelled_snoc hrest
  offset_eq := by
    rw [spelled_append, byteSize_append, ← h.offset_eq]
    simp [State.comment, State.skip]
  sound := h.sound_snoc hne
  tokens_eq := by
    rw [h.placed_snoc, List.filterMap_append, ← h.tokens_eq]
    simp [State.comment, State.skip, Piece.token?]
  comments_eq := by
    rw [h.placed_snoc, List.filterMap_append, ← h.comments_eq]
    simp [State.comment, State.skip, Piece.comment?]
  errors_eq := by
    rw [h.placed_snoc, List.filterMap_append, List.filterMap_cons_none rfl, List.filterMap_nil,
      List.append_nil]
    exact h.errors_eq

theorem Reads.blank {c : Char} {rest : List Char} (hrest : s.rest = c :: rest)
    (hc : isBlank c = true) : Reads source? text (ps ++ [.blank c]) (s.skip [c] rest) where
  source_eq := h.source_eq
  text_eq := h.spelled_snoc hrest
  offset_eq := by
    rw [spelled_append, byteSize_append, ← h.offset_eq]
    simp [State.skip]
  sound := h.sound_snoc hc
  tokens_eq := by
    rw [h.placed_snoc, List.filterMap_append, ← h.tokens_eq]
    simp [State.skip, Piece.token?]
  comments_eq := by
    rw [h.placed_snoc, List.filterMap_append, ← h.comments_eq]
    simp [State.skip, Piece.comment?]
  errors_eq := by
    rw [h.placed_snoc, List.filterMap_append, List.filterMap_cons_none rfl, List.filterMap_nil,
      List.append_nil]
    exact h.errors_eq

theorem Reads.illegal {c : Char} {rest : List Char} (hrest : s.rest = c :: rest) :
    Reads source? text (ps ++ [.illegal c])
      ((s.skip [c] rest).report s.offset c.utf8Size .illegalCharacter [String.singleton c]) where
  source_eq := h.source_eq
  text_eq := h.spelled_snoc hrest
  offset_eq := by
    rw [spelled_append, byteSize_append, ← h.offset_eq]
    simp [State.skip, State.report]
  sound := h.sound_snoc trivial
  tokens_eq := by
    rw [h.placed_snoc, List.filterMap_append, ← h.tokens_eq]
    simp [State.skip, State.report, Piece.token?]
  comments_eq := by
    rw [h.placed_snoc, List.filterMap_append, ← h.comments_eq]
    simp [State.skip, State.report, Piece.comment?]
  errors_eq := by
    rw [h.placed_snoc, List.filterMap_append]
    simpa [State.skip, State.report, Piece.illegal?, Diagnostic.make, h.source_eq]
      using h.errors_eq

/-- Other reports, modes and groups leave the pieces as they are. -/
theorem Reads.report {code : Diagnostic.Code} (hcode : code ≠ .illegalCharacter)
    (offset length : Nat) (args : List String) :
    Reads source? text ps (s.report offset length code args) where
  source_eq := h.source_eq
  text_eq := h.text_eq
  offset_eq := h.offset_eq
  sound := h.sound
  tokens_eq := h.tokens_eq
  comments_eq := h.comments_eq
  errors_eq := by
    simpa [State.report, Diagnostic.make, hcode] using h.errors_eq

theorem Reads.switch (mode : Mode) (groups : List Group) :
    Reads source? text ps { s with mode, groups } :=
  ⟨h.source_eq, h.text_eq, h.offset_eq, h.sound, h.tokens_eq, h.comments_eq, h.errors_eq⟩

end Single

/-! ## Steps -/

section Steps

variable {source? : Option Source} {whole : List Char} {s : State}

theorem Covers.token (h : Covers source? whole s) {kind : Token.Kind} {taken rest : List Char}
    (hrest : taken ++ rest = s.rest) (hfits : Fits kind taken) (hne : taken ≠ []) :
    Covers source? whole (s.token kind taken rest) := by
  obtain ⟨ps, hps⟩ := h
  exact ⟨_, hps.token hrest.symm hfits hne⟩

theorem Covers.comment (h : Covers source? whole s) {kind : Comment.Kind} {taken rest : List Char}
    (hrest : taken ++ rest = s.rest) (hne : taken ≠ []) :
    Covers source? whole (s.comment kind taken rest) := by
  obtain ⟨ps, hps⟩ := h
  exact ⟨_, hps.comment hrest.symm hne⟩

theorem Covers.report (h : Covers source? whole s) {code : Diagnostic.Code}
    (hcode : code ≠ .illegalCharacter) (offset length : Nat) (args : List String) :
    Covers source? whole (s.report offset length code args) := by
  obtain ⟨ps, hps⟩ := h
  exact ⟨ps, hps.report hcode offset length args⟩

theorem Covers.switch (h : Covers source? whole s) (mode : Mode) (groups : List Group) :
    Covers source? whole { s with mode, groups } := by
  obtain ⟨ps, hps⟩ := h
  exact ⟨ps, hps.switch mode groups⟩

theorem wordKind_fits {w : List Char} (hw : ∀ c ∈ w, isNamePart true c = true) :
    Fits (wordKind w) w := by
  unfold wordKind
  split <;> exact ⟨nofun, nofun, nofun, fun _ => hw⟩

/-- A word is made of name characters, inside a string and outside. -/
theorem isNamePart_of_mem_word (dollar : Bool) (cs : List Char) :
    ∀ c ∈ (word dollar cs).1, isNamePart true c = true := by
  intro c hc
  have hpart : isNamePart dollar c = true := (List.all_eq_true.1 List.all_takeWhile) c hc
  cases dollar with
  | true => exact hpart
  | false =>
    have hpart : (c.isAlphanum || c == '_') = true := by simpa [isNamePart] using hpart
    simp [isNamePart, hpart]

theorem number_fits (cs : List Char) : Fits (number cs).kind (number cs).taken := by
  have hdecimal : ∀ ds, Fits (decimal ds).kind (decimal ds).taken := by
    intro ds
    simp only [decimal]
    split <;> simp [Fits, Token.Kind.isWord]
  unfold number
  split
  · simp [Fits, hexadecimal, Token.Kind.isWord]
  · simp [Fits, hexadecimal, Token.Kind.isWord]
  · exact hdecimal cs

theorem fits_operator (o : Operator) : Fits (.operator o) o.spelling.toList :=
  ⟨nofun, fun _ h => by injection h with h; rw [h], nofun, nofun⟩

theorem fits_punctuation (p : Punctuation) : Fits (.punctuation p) p.spelling.toList :=
  ⟨nofun, nofun, fun _ h => by injection h with h; rw [h], nofun⟩

theorem symbols_spelled : ∀ symbol ∈ symbols,
    (∃ o, symbol.2 = .operator o ∧ symbol.1 = o.spelling) ∨
      ∃ p, symbol.2 = .punctuation p ∧ symbol.1 = p.spelling := by
  simp only [symbols, List.forall_mem_cons]
  repeat' apply And.intro
  all_goals first | exact .inl ⟨_, rfl, rfl⟩ | exact .inr ⟨_, rfl, rfl⟩ | exact List.forall_mem_nil _

theorem symbols_fit : ∀ symbol ∈ symbols, Fits symbol.2 symbol.1.toList := by
  intro symbol hs
  rcases symbols_spelled symbol hs with ⟨o, hkind, hspelled⟩ | ⟨p, hkind, hspelled⟩
  · rw [hkind, hspelled]
    exact fits_operator o
  · rw [hkind, hspelled]
    exact fits_punctuation p

theorem symbol?_fits {cs : List Char} {found : Token.Kind × List Char × List Char}
    (h : symbol? cs = some found) : Fits found.1 found.2.1 := by
  obtain ⟨symbol, hs, h⟩ := List.exists_of_findSome?_eq_some h
  dsimp only at h
  split at h
  · obtain rfl := Option.some.inj h
    exact symbols_fit symbol hs
  · exact absurd h nofun

/-- An interpolated name is there to be read. -/
theorem segmentEnd?_name {d : Delimiter} {c : Char} {cs taken rest : List Char}
    (h : segmentEnd? d c cs = some (taken, rest, .name)) :
    ∃ n ds, rest = '$' :: n :: ds ∧ isNamePart false n = true := by
  unfold segmentEnd? at h
  split at h
  · split at h
    · simp at h
    · split at h <;> simp at h
  · split at h
    · simp at h
    · split at h
      · rename_i hdollar
        split at h
        · simp at h
        · rename_i n _ hn
          obtain ⟨ds, rfl⟩ : ∃ ds, cs = n :: ds := by
            cases cs with
            | nil => simp at hn
            | cons m ds => exact ⟨ds, by simp at hn; rw [hn]⟩
          split at h
          · rename_i hstart
            obtain ⟨rfl, -⟩ := by simpa using hdollar
            simp only [Option.some.injEq, Prod.mk.injEq, and_true] at h
            refine ⟨n, ds, h.2.symm, ?_⟩
            simp only [isNameStart, Bool.and_eq_true, Bool.or_eq_true, decide_eq_true_eq,
              beq_iff_eq] at hstart
            simp only [isNamePart, Char.isAlphanum, Bool.or_eq_true, beq_iff_eq]
            rcases hstart with ⟨(halpha | hunder) | hdollar, hne⟩
            · exact Or.inl (Or.inl (Or.inl halpha))
            · exact Or.inl (Or.inr hunder)
            · exact absurd hdollar hne
          · simp at h
        · simp at h
      · simp at h

theorem segment_name {d : Delimiter} {cs : List Char} (h : (segment d cs).2.2 = .name) :
    ∃ n ds, (segment d cs).2.1 = '$' :: n :: ds ∧ isNamePart false n = true := by
  fun_induction segment d cs with
  | case1 => cases h
  | case2 _ _ stop hstop => exact segmentEnd?_name (by rw [hstop, ← h])
  | case3 => cases h
  | case4 => rename_i hseg _ ih; rw [hseg] at ih; exact ih h
  | case5 => rename_i hseg ih; rw [hseg] at ih; exact ih h

/-- A segment, with its opening if it is the first, and what interrupts it. -/
theorem Covers.text (h : Covers source? whole s) (d : Delimiter) {kind : Token.Kind}
    (hkind : ∀ taken, Fits kind taken) {lead cs : List Char} (hrest : lead ++ cs = s.rest) :
    Covers source? whole (Lexer.text s d kind lead cs) := by
  have happ := segment_append d cs
  have hname := @segment_name d cs
  unfold Lexer.text
  split
  rename_i body rest stop hseg
  rw [hseg] at happ hname
  have hafter : Covers source? whole (if lead ++ body = [] then s else s.token kind (lead ++ body) rest) ∧
      (if lead ++ body = [] then s else s.token kind (lead ++ body) rest).rest = rest := by
    have hread : lead ++ body ++ rest = s.rest := by rw [List.append_assoc, happ, hrest]
    split
    · rename_i hnil
      exact ⟨h, by rw [← hread, hnil, List.nil_append]⟩
    · rename_i hne
      exact ⟨h.token hread (hkind _) hne, rfl⟩
  dsimp only
  generalize (if lead ++ body = [] then s else s.token kind (lead ++ body) rest) = after
    at hafter ⊢
  obtain ⟨hafter, hrest⟩ := hafter
  split
  · rename_i rest'
    have hmark : Covers source? whole (after.token .interpolationExpression ['$', '\x7b'] rest') :=
      hafter.token hrest.symm ⟨nofun, nofun, nofun, nofun⟩ (List.cons_ne_nil _ _)
    exact hmark.switch _ _
  · rename_i rest'
    obtain ⟨n, ds, heq, hn⟩ := hname rfl
    obtain ⟨-, rfl⟩ := List.cons.inj heq
    have hmark : Covers source? whole (after.token .interpolationIdentifier ['$'] (n :: ds)) :=
      hafter.token hrest.symm ⟨nofun, nofun, nofun, nofun⟩ (List.cons_ne_nil _ _)
    have hword : (word false (n :: ds)).1 ≠ [] := by simp [word, hn]
    exact (hmark.token (word_append false _) (wordKind_fits (isNamePart_of_mem_word _ _)) hword).switch _ _
  · exact (hafter.report (by decide) _ _ _).switch _ _
  · exact hafter.switch _ _

theorem Covers.quoted (h : Covers source? whole s) (raw : Bool) {mark : List Char} (quote : Char)
    {cs : List Char} (hrest : mark ++ cs = s.rest) :
    Covers source? whole (Lexer.quoted s raw mark quote cs) := by
  have happ := opening_append raw quote cs
  unfold Lexer.quoted
  split
  rename_i d lead rest hop
  rw [hop] at happ
  refine h.text d ?_ (by rw [List.append_assoc, happ, hrest])
  exact fun taken => ⟨nofun, nofun, nofun, nofun⟩

theorem Covers.numeric (h : Covers source? whole s) {c : Char} {cs : List Char}
    (hc : isNumberStart c cs = true) (hrest : c :: cs = s.rest) :
    Covers source? whole (Lexer.numeric s (c :: cs)) := by
  have hread : Covers source? whole
      (s.token (number (c :: cs)).kind (number (c :: cs)).taken (number (c :: cs)).rest) :=
    h.token (by rw [number_append, hrest]) (number_fits _) (number_ne_nil hc)
  unfold Lexer.numeric
  dsimp only
  split
  · refine hread.report ?_ _ _ _
    split <;> exact nofun
  · exact hread

theorem Covers.block (h : Covers source? whole s) {cs : List Char} (hrest : '/' :: '*' :: cs = s.rest) :
    Covers source? whole (Lexer.block s cs) := by
  have hread : ∀ kind, Covers source? whole
      (s.comment kind ('/' :: '*' :: (blockComment 1 cs).1) (blockComment 1 cs).2.1) := fun kind =>
    h.comment (by rw [List.cons_append, List.cons_append, blockComment_append, hrest])
      (List.cons_ne_nil _ _)
  unfold Lexer.block
  dsimp only
  split
  · exact hread _
  · exact (hread _).report (by decide) _ _ _

theorem Covers.line (h : Covers source? whole s) {c : Char} {cs : List Char} (hc : isLineEnd c = false)
    (hrest : c :: cs = s.rest) : Covers source? whole (Lexer.line s (c :: cs)) := by
  refine h.comment ((lineComment_append _).trans hrest) ?_
  simp [hc]

theorem Covers.name (h : Covers source? whole s) {c : Char} {cs : List Char} (hc : isNameStart c = true)
    (hrest : c :: cs = s.rest) : Covers source? whole (lexeme.name s (c :: cs)) :=
  h.token ((word_append true _).trans hrest)
    (wordKind_fits (isNamePart_of_mem_word true (c :: cs))) (word_ne_nil hc cs)

theorem Covers.regroup (h : Covers source? whole s) (kind : Token.Kind) :
    Covers source? whole (Lexer.regroup s kind) := by
  unfold Lexer.regroup
  split
  · exact h.switch _ _
  · exact h.switch _ _
  · exact h.switch _ _
  · exact h

theorem Covers.symbolic (h : Covers source? whole s) {c : Char} {cs : List Char}
    (hrest : s.rest = c :: cs) : Covers source? whole (Lexer.symbolic s c cs) := by
  unfold Lexer.symbolic
  split
  · rename_i kind taken rest hsymbol
    obtain ⟨happ, hne⟩ := symbol?_append hsymbol
    exact (h.token (by rw [hrest, ← happ]) (symbol?_fits hsymbol) hne).regroup kind
  · obtain ⟨ps, hps⟩ := h
    exact ⟨_, hps.illegal hrest⟩

theorem Covers.lexeme (h : Covers source? whole s) {c : Char} {cs : List Char}
    (hrest : s.rest = c :: cs) : Covers source? whole (Lexer.lexeme s c cs) := by
  unfold Lexer.lexeme
  split
  · rename_i hblank
    obtain ⟨ps, hps⟩ := h
    exact ⟨_, hps.blank hrest hblank⟩
  split
  · exact h.quoted false c hrest.symm
  split
  · rename_i hname
    split
    · split
      · exact h.quoted true _ hrest.symm
      · exact h.name hname hrest.symm
    · exact h.name hname hrest.symm
  split
  · rename_i hnumber
    exact h.numeric hnumber hrest.symm
  split
  · rename_i hslash
    simp only [Bool.and_eq_true, decide_eq_true_eq] at hslash
    exact h.line (by simp [hslash.1, isLineEnd]) hrest.symm
  split
  · rename_i hstar
    simp only [Bool.and_eq_true, decide_eq_true_eq] at hstar
    obtain ⟨rfl, hstar⟩ := hstar
    obtain ⟨ds, rfl⟩ := List.head?_eq_some_iff.1 hstar
    exact h.block hrest.symm
  · exact h.symbolic hrest

/-- A step cuts off further pieces. -/
theorem Covers.step {s' : State} (h : Covers source? whole s) (hstep : Lexer.step s = some s') :
    Covers source? whole s' := by
  unfold Lexer.step at hstep
  split at hstep
  · obtain rfl := Option.some.inj hstep
    refine h.text _ ?_ (List.nil_append _)
    exact fun taken => ⟨nofun, nofun, nofun, nofun⟩
  · rename_i hrest
    obtain rfl := Option.some.inj hstep
    exact h.lexeme hrest
  · exact absurd hstep nofun

end Steps

/-! ## Runs -/

theorem rest_of_step_none {s : State} (h : step s = none) : s.rest = [] := by
  unfold step at h
  split at h
  · exact absurd h nofun
  · exact absurd h nofun
  · assumption

/-- A run ends when all of the text is cut. -/
theorem Covers.run {source? : Option Source} {text : List Char} {s : State} (h : Covers source? text s) :
    Covers source? text (run s) ∧ (Lexer.run s).rest = [] := by
  induction s using Lexer.run.induct with
  | case1 s hstep =>
    rw [Lexer.run, hstep]
    exact ⟨h, rest_of_step_none hstep⟩
  | case2 s s' hstep ih =>
    rw [Lexer.run, hstep]
    exact ih (h.step hstep)

theorem Covers.start (source? : Option Source) (text : List Char) :
    Covers source? text (.start source? text) :=
  ⟨[], rfl, rfl, rfl, nofun, rfl, rfl, rfl⟩

/-- An interpolation that is never closed is reported, which leaves the pieces as they are. -/
theorem Covers.close {source? : Option Source} {text : List Char} {s : State}
    (h : Covers source? text s) :
    Covers source? text (match openInterpolation? s.groups with
      | some offset => s.report offset (s.offset - offset) .unterminatedStringLiteral []
      | none => s) := by
  split
  · exact h.report (by decide) _ _ _
  · exact h

/-- What a scan ends with when all of a text is cut. -/
theorem Covers.cuts {source? : Option Source} {text : String} {s : State}
    (h : Covers source? text.toList s) (hrest : s.rest = []) (lines : LineMap) :
    ∃ ps, spelled ps = text.toList ∧
      Cuts ⟨source?, (⟨.eof, "", text.utf8ByteSize⟩ :: s.tokens).reverse.toArray,
        s.comments.reverse.toArray, lines, s.errors.reverse⟩ ps := by
  obtain ⟨ps, h⟩ := h
  have htext : spelled ps = text.toList := by
    rw [← h.text_eq, hrest, List.append_nil]
  refine ⟨ps, htext, h.sound, ?_, h.comments_eq, h.errors_eq⟩
  rw [htext, byteSize_toList, ← h.tokens_eq]
  simp

end Lexer

/-! ## Whole texts -/

theorem Scan.ofText_cuts (source? : Option Source) (text : String) :
    ∃ ps, Lexer.spelled ps = text.toList ∧ Lexer.Cuts (Scan.ofText source? text) ps := by
  obtain ⟨hcovers, hrest⟩ := (Lexer.Covers.start source? text.toList).run
  refine hcovers.close.cuts ?_ _
  split <;> exact hrest

/-- Tokens and comments tile any text, and each character that they leave out is blank or reported
    as illegal. -/
theorem Scan.ofText_tiles (source? : Option Source) (text : String) :
    (Scan.ofText source? text).Tiles text.toList := by
  obtain ⟨ps, hspelled, hcuts⟩ := Scan.ofText_cuts source? text
  rw [← hspelled]
  exact hcuts.tiles

end DartAnalysis
