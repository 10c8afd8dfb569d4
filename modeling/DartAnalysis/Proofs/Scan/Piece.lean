/-
  Pieces. A scanned text is cut into tokens, comments, blanks and illegal characters that lie end to
  end; `placed` gives each piece the offset it begins at. What the outcome of a scan should look like
  (`Scan.Tiles`) follows from such a cutting alone (`Cuts.tiles`): tokens and comments
  stand where they say, they do not overlap, and what lies between them is blank or reported.
-/
import DartAnalysis.Token.Lexer
import Mathlib.Data.List.Pairwise

namespace DartAnalysis

/-- Names and keywords of any kind. -/
def Token.Kind.isWord : Token.Kind → Bool
  | .identifier | .keyword _ => true
  | _ => false

namespace Lexer

open Lexeme Text

/-- No text is the end of file; operators and punctuation are written as they are spelled, and words
    with the characters of names. -/
def Fits (kind : Token.Kind) (cs : List Char) : Prop :=
  kind ≠ .eof ∧ (∀ o, kind = .operator o → cs = o.spelling.toList) ∧
    (∀ p, kind = .punctuation p → cs = p.spelling.toList) ∧
    (kind.isWord = true → ∀ c ∈ cs, isNamePart true c = true)

/-- What becomes of a stretch of text. -/
inductive Piece where
  | token (kind : Token.Kind) (chars : List Char)
  | comment (kind : Comment.Kind) (chars : List Char)
  | blank (c : Char)
  | illegal (c : Char)

namespace Piece

@[simp] def chars : Piece → List Char
  | .token _ cs => cs
  | .comment _ cs => cs
  | .blank c => [c]
  | .illegal c => [c]

/-- Tokens and comments are not empty, the kind of a token fits it, and a blank is one. -/
def Sound : Piece → Prop
  | .token kind cs => Fits kind cs ∧ cs ≠ []
  | .comment _ cs => cs ≠ []
  | .blank c => isBlank c = true
  | .illegal _ => True

/-- The token that a piece at an offset makes. -/
def token? : Nat × Piece → Option Token
  | (o, .token kind cs) => some ⟨kind, String.ofList cs, o⟩
  | _ => none

def comment? : Nat × Piece → Option Comment
  | (o, .comment kind cs) => some ⟨kind, String.ofList cs, o⟩
  | _ => none

/-- The diagnostic that a piece at an offset gives rise to. -/
def illegal? (source? : Option Source) : Nat × Piece → Option Diagnostic
  | (o, .illegal c) =>
    some (.make source? o c.utf8Size .illegalCharacter [String.singleton c])
  | _ => none

end Piece

/-- The text that pieces cover. -/
def spelled (ps : List Piece) : List Char := ps.flatMap Piece.chars

/-- Pieces with their offsets, the first of them at `o`. -/
def placed (o : Nat) : List Piece → List (Nat × Piece)
  | [] => []
  | p :: ps => (o, p) :: placed (o + byteSize p.chars) ps

@[simp] theorem spelled_nil : spelled [] = [] := rfl

@[simp] theorem spelled_cons (p : Piece) (ps : List Piece) :
    spelled (p :: ps) = p.chars ++ spelled ps := rfl

@[simp] theorem spelled_append (ps qs : List Piece) :
    spelled (ps ++ qs) = spelled ps ++ spelled qs := by
  simp [spelled]

theorem placed_append (o : Nat) (ps qs : List Piece) :
    placed o (ps ++ qs) = placed o ps ++ placed (o + byteSize (spelled ps)) qs := by
  induction ps generalizing o with
  | nil => simp [placed]
  | cons p ps ih =>
    simp only [List.cons_append, placed, ih, spelled_cons, byteSize_append, Nat.add_assoc]

/-! ## Where pieces stand -/

/-- A placed piece splits the pieces into those before it and those behind it. -/
theorem split_of_mem_placed {o : Nat} {ps : List Piece} {x : Nat × Piece}
    (h : x ∈ placed o ps) :
    ∃ before after, ps = before ++ x.2 :: after ∧ x.1 = o + byteSize (spelled before) := by
  induction ps generalizing o with
  | nil => simp [placed] at h
  | cons p ps ih =>
    rw [placed, List.mem_cons] at h
    rcases h with rfl | h
    · exact ⟨[], ps, rfl, by simp⟩
    · obtain ⟨before, after, hps, ho⟩ := ih h
      refine ⟨p :: before, after, by rw [hps]; rfl, ?_⟩
      rw [ho, spelled_cons, byteSize_append]
      omega

theorem mem_of_mem_placed {o : Nat} {ps : List Piece} {x : Nat × Piece}
    (h : x ∈ placed o ps) : x.2 ∈ ps := by
  obtain ⟨before, after, hps, -⟩ := split_of_mem_placed h
  simp [hps]

theorem standsAt_of_mem_placed {ps : List Piece} {x : Nat × Piece} (h : x ∈ placed 0 ps) :
    StandsAt (spelled ps) x.2.chars x.1 := by
  obtain ⟨before, after, hps, ho⟩ := split_of_mem_placed h
  refine ⟨spelled before, spelled after, ?_, by rw [ho, Nat.zero_add]⟩
  rw [hps, spelled_append, spelled_cons, List.append_assoc]

theorem le_of_mem_placed {o : Nat} {ps : List Piece} {x : Nat × Piece} (h : x ∈ placed o ps) :
    o ≤ x.1 ∧ x.1 + byteSize x.2.chars ≤ o + byteSize (spelled ps) := by
  obtain ⟨before, after, hps, ho⟩ := split_of_mem_placed h
  rw [hps, spelled_append, spelled_cons, byteSize_append, byteSize_append]
  omega

/-- Of two placed pieces the earlier one ends before the later one begins. -/
theorem placed_pairwise (o : Nat) (ps : List Piece) :
    (placed o ps).Pairwise fun x y => x.1 + byteSize x.2.chars ≤ y.1 := by
  induction ps generalizing o with
  | nil => exact List.Pairwise.nil
  | cons p ps ih =>
    rw [placed, List.pairwise_cons]
    exact ⟨fun y hy => (le_of_mem_placed hy).1, ih _⟩

/-- Two different placed pieces do not overlap. -/
theorem apart_of_mem_placed {o : Nat} {ps : List Piece} {x y : Nat × Piece}
    (hx : x ∈ placed o ps) (hy : y ∈ placed o ps) (hne : x ≠ y) :
    x.1 + byteSize x.2.chars ≤ y.1 ∨ y.1 + byteSize y.2.chars ≤ x.1 := by
  let apart (x y : Nat × Piece) : Prop :=
    x.1 + byteSize x.2.chars ≤ y.1 ∨ y.1 + byteSize y.2.chars ≤ x.1
  have : Std.Symm apart := ⟨fun _ _ => Or.symm⟩
  have hall : (placed o ps).Pairwise apart := (placed_pairwise o ps).imp Or.inl
  exact hall.forall hx hy hne

/-- A character of the covered text lies in one piece. -/
theorem split_of_spelled {ps : List Piece} {before after : List Char} {c : Char}
    (h : spelled ps = before ++ c :: after) :
    ∃ ps₁ p ps₂ cs ds, ps = ps₁ ++ p :: ps₂ ∧ p.chars = cs ++ c :: ds ∧
      before = spelled ps₁ ++ cs := by
  induction ps generalizing before with
  | nil => simp at h
  | cons p ps ih =>
    rw [spelled_cons, List.append_eq_append_iff] at h
    rcases h with ⟨cs, hb, hs⟩ | ⟨cs, hp, hs⟩
    · obtain ⟨ps₁, q, ps₂, ds, es, rfl, hq, rfl⟩ := ih hs
      exact ⟨p :: ps₁, q, ps₂, ds, es, rfl, hq, by rw [hb, spelled_cons, List.append_assoc]⟩
    · cases cs with
      | nil =>
        obtain ⟨ps₁, q, ps₂, ds, es, rfl, hq, hb⟩ := @ih [] (by simpa using hs.symm)
        refine ⟨p :: ps₁, q, ps₂, ds, es, rfl, hq, ?_⟩
        rw [spelled_cons, List.append_assoc, ← hb, List.append_nil]
        simpa using hp.symm
      | cons d cs =>
        obtain ⟨rfl, -⟩ := List.cons.inj hs
        exact ⟨[], p, ps, before, cs, rfl, hp, rfl⟩

end Lexer

/-! ## Tilings -/

/-- Tokens and comments lie over a text without overlap, in order, and what they leave out is blank
    or reported as illegal, each character once. -/
structure Scan.Tiles (s : Scan) (text : List Char) : Prop where
  /-- The one end of file comes last and stands at the end of the text. -/
  eof_last : ∃ ts, s.tokens.toList = ts ++ [⟨.eof, "", Text.byteSize text⟩] ∧
    ∀ t ∈ ts, t.kind ≠ .eof ∧ t.lexeme ≠ ""
  token_stands : ∀ t ∈ s.tokens, Text.StandsAt text t.lexeme.toList t.offset
  comment_stands : ∀ c ∈ s.comments, c.lexeme ≠ "" ∧ Text.StandsAt text c.lexeme.toList c.offset
  tokens_increase : s.tokens.toList.Pairwise (·.offset < ·.offset)
  comments_increase : s.comments.toList.Pairwise (·.offset < ·.offset)
  tokens_apart : s.tokens.toList.Pairwise (·.finish ≤ ·.offset)
  comments_apart : s.comments.toList.Pairwise (·.finish ≤ ·.offset)
  token_comment_apart : ∀ t ∈ s.tokens, ∀ c ∈ s.comments,
    t.finish ≤ c.offset ∨ c.finish ≤ t.offset
  /-- A character is inside a token or comment, or blank, or there is exactly one report of an
      illegal character over it, which covers just that character. -/
  character : ∀ before c after, text = before ++ c :: after →
    (∃ t ∈ s.tokens, t.offset ≤ Text.byteSize before ∧
      Text.byteSize before + c.utf8Size ≤ t.finish) ∨
    (∃ d ∈ s.comments, d.offset ≤ Text.byteSize before ∧
      Text.byteSize before + c.utf8Size ≤ d.finish) ∨
    Lexeme.isBlank c = true ∨
    ∃ e, s.errors.filter (fun e => e.offset ≤ Text.byteSize before &&
        Text.byteSize before < e.finish && e.code = .illegalCharacter) = [e] ∧
      e.offset = Text.byteSize before ∧ e.length = c.utf8Size

namespace Lexer

open Lexeme Text

namespace Piece

theorem token?_eq_some {x : Nat × Piece} {t : Token} (h : token? x = some t) :
    x = (t.offset, .token t.kind t.lexeme.toList) := by
  obtain ⟨o, p⟩ := x
  cases p with
  | token kind cs =>
    obtain rfl := Option.some.inj h
    simp
  | _ => exact absurd h (by simp [token?])

theorem comment?_eq_some {x : Nat × Piece} {c : Comment} (h : comment? x = some c) :
    x = (c.offset, .comment c.kind c.lexeme.toList) := by
  obtain ⟨o, p⟩ := x
  cases p with
  | comment kind cs =>
    obtain rfl := Option.some.inj h
    simp
  | _ => exact absurd h (by simp [comment?])

theorem finish_token {t : Token} : t.offset + byteSize t.lexeme.toList = t.finish := by
  rw [byteSize_toList]; rfl

theorem finish_comment {c : Comment} : c.offset + byteSize c.lexeme.toList = c.finish := by
  rw [byteSize_toList]; rfl

end Piece

/-- What a scan of pieces should hold. -/
structure Cuts (s : Scan) (ps : List Piece) : Prop where
  sound : ∀ p ∈ ps, p.Sound
  tokens : s.tokens.toList =
    (placed 0 ps).filterMap Piece.token? ++ [⟨.eof, "", byteSize (spelled ps)⟩]
  comments : s.comments.toList = (placed 0 ps).filterMap Piece.comment?
  errors : s.errors.filter (·.code = .illegalCharacter) =
    (placed 0 ps).filterMap (Piece.illegal? s.source?)

/-- Reports of illegal characters lie over the pieces they come from. -/
theorem illegal_elsewhere {source? : Option Source} {o n : Nat} {qs : List Piece}
    (h : o + byteSize (spelled qs) ≤ n ∨ n < o) :
    ((placed o qs).filterMap (Piece.illegal? source?)).filter
      (fun e => e.offset ≤ n && n < e.finish) = [] := by
  refine List.filter_eq_nil_iff.2 fun e he hcover => ?_
  obtain ⟨⟨i, p⟩, hx, hxe⟩ := List.mem_filterMap.1 he
  have hle := le_of_mem_placed hx
  cases p with
  | illegal d =>
    obtain rfl := Option.some.inj hxe
    have hcover := Bool.and_eq_true_iff.1 hcover
    have hi : i ≤ n := of_decide_eq_true hcover.1
    have hn : n < i + d.utf8Size := of_decide_eq_true hcover.2
    simp only [Piece.chars, byteSize_cons, byteSize_nil] at hle
    omega
  | _ => exact absurd hxe (by simp [Piece.illegal?])

section Cuts

variable {s : Scan} {ps : List Piece} (h : Cuts s ps)
include h

theorem Cuts.mem_token {t : Token} (ht : t ∈ (placed 0 ps).filterMap Piece.token?) :
    (t.offset, .token t.kind t.lexeme.toList) ∈ placed 0 ps ∧
      Fits t.kind t.lexeme.toList ∧ t.lexeme.toList ≠ [] := by
  obtain ⟨x, hx, hxt⟩ := List.mem_filterMap.1 ht
  rw [Piece.token?_eq_some hxt] at hx
  exact ⟨hx, h.sound _ (mem_of_mem_placed hx)⟩

theorem Cuts.mem_comment {c : Comment} (hc : c ∈ s.comments) :
    (c.offset, .comment c.kind c.lexeme.toList) ∈ placed 0 ps ∧ c.lexeme.toList ≠ [] := by
  rw [← Array.mem_toList_iff, h.comments] at hc
  obtain ⟨x, hx, hxc⟩ := List.mem_filterMap.1 hc
  rw [Piece.comment?_eq_some hxc] at hx
  exact ⟨hx, h.sound _ (mem_of_mem_placed hx)⟩

theorem Cuts.token_stands {t : Token} (ht : t ∈ s.tokens) :
    StandsAt (spelled ps) t.lexeme.toList t.offset := by
  rw [← Array.mem_toList_iff, h.tokens, List.mem_append, List.mem_singleton] at ht
  rcases ht with ht | rfl
  · exact standsAt_of_mem_placed (h.mem_token ht).1
  · exact ⟨spelled ps, [], by simp, rfl⟩

theorem Cuts.comments_apart : s.comments.toList.Pairwise (·.finish ≤ ·.offset) := by
  rw [h.comments]
  refine (placed_pairwise 0 ps).filterMap _ fun x y hxy c hc d hd => ?_
  rw [Piece.comment?_eq_some hc, Piece.comment?_eq_some hd] at hxy
  rw [← Piece.finish_comment]
  exact hxy

theorem Cuts.tokens_apart : s.tokens.toList.Pairwise (·.finish ≤ ·.offset) := by
  rw [h.tokens, List.pairwise_append]
  refine ⟨?_, List.pairwise_singleton _ _, fun t ht e he => ?_⟩
  · refine (placed_pairwise 0 ps).filterMap _ fun x y hxy t ht u hu => ?_
    rw [Piece.token?_eq_some ht, Piece.token?_eq_some hu] at hxy
    rw [← Piece.finish_token]
    exact hxy
  · have hle := (le_of_mem_placed (h.mem_token ht).1).2
    rw [List.mem_singleton.1 he, ← Piece.finish_token]
    simpa using hle

theorem Cuts.comments_increase : s.comments.toList.Pairwise (·.offset < ·.offset) := by
  refine h.comments_apart.imp_of_mem fun {c d} hc _ hcd => ?_
  have hpos := byteSize_pos (h.mem_comment (Array.mem_toList_iff.1 hc)).2
  rw [← Piece.finish_comment] at hcd
  omega

theorem Cuts.tokens_increase : s.tokens.toList.Pairwise (·.offset < ·.offset) := by
  have hapart := h.tokens_apart
  rw [h.tokens, List.pairwise_append] at hapart ⊢
  obtain ⟨hinit, -, hlast⟩ := hapart
  have hpos : ∀ t ∈ (placed 0 ps).filterMap Piece.token?, t.offset < t.finish := fun t ht => by
    have := byteSize_pos (h.mem_token ht).2.2
    rw [← Piece.finish_token]
    omega
  refine ⟨hinit.imp_of_mem fun ht _ htu => Nat.lt_of_lt_of_le (hpos _ ht) htu,
    List.pairwise_singleton _ _, fun t ht e he => ?_⟩
  exact Nat.lt_of_lt_of_le (hpos t ht) (hlast t ht e he)

theorem Cuts.token_comment_apart {t : Token} (ht : t ∈ s.tokens) {c : Comment}
    (hc : c ∈ s.comments) : t.finish ≤ c.offset ∨ c.finish ≤ t.offset := by
  have hc := (h.mem_comment hc).1
  rw [← Array.mem_toList_iff, h.tokens, List.mem_append, List.mem_singleton] at ht
  rw [← Piece.finish_token, ← Piece.finish_comment]
  rcases ht with ht | rfl
  · exact apart_of_mem_placed (h.mem_token ht).1 hc (by simp)
  · exact Or.inr (by simpa using (le_of_mem_placed hc).2)

/-- Of the reports over a character in an illegal piece there is just the one of the piece. -/
theorem Cuts.illegal_once {ps₁ ps₂ : List Piece} {c : Char} (hps : ps = ps₁ ++ .illegal c :: ps₂) :
    s.errors.filter (fun e => e.offset ≤ byteSize (spelled ps₁) &&
        byteSize (spelled ps₁) < e.finish && e.code = .illegalCharacter) =
      [.make s.source? (byteSize (spelled ps₁)) c.utf8Size .illegalCharacter
        [String.singleton c]] := by
  have hpos := c.utf8Size_pos
  rw [← List.filter_filter, h.errors, hps, placed_append, List.filterMap_append,
    List.filter_append, illegal_elsewhere (by omega), List.nil_append, placed,
    List.filterMap_cons_some (f := Piece.illegal? s.source?) rfl, List.filter_cons_of_pos,
    illegal_elsewhere, Nat.zero_add]
  · right
    simp only [Piece.chars, byteSize_cons, byteSize_nil]
    omega
  · simp [Diagnostic.make, Diagnostic.finish, hpos]

end Cuts

/-- A scan that cuts a text into sound pieces tiles it. -/
theorem Cuts.tiles {s : Scan} {ps : List Piece} (h : Cuts s ps) : s.Tiles (spelled ps) where
  eof_last := by
    refine ⟨_, h.tokens, fun t ht => ?_⟩
    obtain ⟨-, hfits, hne⟩ := h.mem_token ht
    exact ⟨hfits.1, fun hempty => hne (by rw [hempty]; rfl)⟩
  token_stands t ht := h.token_stands ht
  comment_stands c hc := by
    obtain ⟨hmem, hne⟩ := h.mem_comment hc
    exact ⟨fun hempty => hne (by rw [hempty]; rfl), standsAt_of_mem_placed hmem⟩
  tokens_increase := h.tokens_increase
  comments_increase := h.comments_increase
  tokens_apart := h.tokens_apart
  comments_apart := h.comments_apart
  token_comment_apart t ht c hc := h.token_comment_apart ht hc
  character before c after htext := by
    obtain ⟨ps₁, p, ps₂, cs, ds, hps, hp, rfl⟩ := split_of_spelled htext
    have hsize : byteSize p.chars = byteSize cs + (c.utf8Size + byteSize ds) := by
      rw [hp, byteSize_append, byteSize_cons]
    have hmem : (byteSize (spelled ps₁), p) ∈ placed 0 ps := by
      rw [hps, placed_append, placed]
      simp
    rw [byteSize_append]
    cases p with
    | token kind chars =>
      left
      refine ⟨⟨kind, String.ofList chars, byteSize (spelled ps₁)⟩, ?_, ?_, ?_⟩
      · rw [← Array.mem_toList_iff, h.tokens]
        exact List.mem_append_left _ (List.mem_filterMap.2 ⟨_, hmem, rfl⟩)
      · exact Nat.le_add_right _ _
      · rw [← Piece.finish_token, String.toList_ofList]
        simp only [Piece.chars] at hsize ⊢
        omega
    | comment kind chars =>
      right; left
      refine ⟨⟨kind, String.ofList chars, byteSize (spelled ps₁)⟩, ?_, ?_, ?_⟩
      · rw [← Array.mem_toList_iff, h.comments]
        exact List.mem_filterMap.2 ⟨_, hmem, rfl⟩
      · exact Nat.le_add_right _ _
      · rw [← Piece.finish_comment, String.toList_ofList]
        simp only [Piece.chars] at hsize ⊢
        omega
    | blank d =>
      right; right; left
      obtain ⟨rfl, rfl, rfl⟩ : cs = [] ∧ d = c ∧ ds = [] := by
        cases cs <;> simp_all [Piece.chars]
      exact h.sound (.blank d) (by simp [hps])
    | illegal d =>
      right; right; right
      obtain ⟨rfl, rfl, rfl⟩ : cs = [] ∧ d = c ∧ ds = [] := by
        cases cs <;> simp_all [Piece.chars]
      exact ⟨_, h.illegal_once hps, rfl, rfl⟩

end Lexer

end DartAnalysis
