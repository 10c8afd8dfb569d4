/-
  The text of tokens and nodes. Scanned tokens stand in the text where they say they do, and so do
  missing tokens, which are empty, and the parts of a split operator. The brackets of an index operator
  become one token even if something stands between them; where nothing does, that token stands in the
  text as well. Main statement: if all such brackets stand next to each other, every token and every
  node stands in the text (`Parsed.ofText_faithful`).
-/
import DartAnalysis.Proofs.Parse.Formed
import Mathlib

namespace DartAnalysis

/-! ## Pieces of a text -/

namespace Text

variable {text piece piece' : List Char} {offset : Nat}

theorem eq_nil_of_byteSize {cs : List Char} (h : byteSize cs = 0) : cs = [] := by
  by_contra hne
  exact absurd h (Nat.ne_of_gt (byteSize_pos hne))

/-- Two pieces of a text from its beginning; the shorter one begins the longer one. -/
theorem append_of_byteSize_le {xs ys xs' ys' : List Char} (h : xs ++ ys = xs' ++ ys')
    (hle : byteSize xs ≤ byteSize xs') : ∃ cs, xs' = xs ++ cs ∧ ys = cs ++ ys' := by
  rcases List.append_eq_append_iff.1 h with ⟨cs, hxs, hys⟩ | ⟨cs, hxs, hys⟩
  · exact ⟨cs, hxs, hys⟩
  · have hnil : cs = [] := eq_nil_of_byteSize (by rw [hxs, byteSize_append] at hle; omega)
    subst hnil
    exact ⟨[], by simpa using hxs.symm, by simpa using hys.symm⟩

theorem StandsAt.begin (h : StandsAt text piece offset) : StandsAt text [] offset := by
  obtain ⟨before, after, rfl, hbefore⟩ := h
  exact ⟨before, piece ++ after, by simp, hbefore⟩

theorem StandsAt.right (h : StandsAt text (piece ++ piece') offset) :
    StandsAt text piece' (offset + byteSize piece) := by
  obtain ⟨before, after, rfl, rfl⟩ := h
  exact ⟨before ++ piece, after, by simp, by simp⟩

theorem StandsAt.left (h : StandsAt text (piece ++ piece') offset) : StandsAt text piece offset := by
  obtain ⟨before, after, rfl, hbefore⟩ := h
  exact ⟨before, piece' ++ after, by simp, hbefore⟩

theorem StandsAt.finish (h : StandsAt text piece offset) :
    StandsAt text [] (offset + byteSize piece) :=
  StandsAt.right (by rwa [List.append_nil])

/-- A piece right behind another one. -/
theorem StandsAt.append (h : StandsAt text piece offset)
    (h' : StandsAt text piece' (offset + byteSize piece)) :
    StandsAt text (piece ++ piece') offset := by
  obtain ⟨before, after, rfl, rfl⟩ := h
  obtain ⟨before', after', htext, hbefore'⟩ := h'
  rw [List.append_assoc before'] at htext
  obtain ⟨cs, hcs, hrest⟩ := append_of_byteSize_le htext (by rw [hbefore', byteSize_append])
  have hnil : cs = [] := eq_nil_of_byteSize (by rw [hcs] at hbefore'; simp at hbefore'; omega)
  subst hnil
  exact ⟨before, after', by simp [hrest], rfl⟩

/-- What stands between two boundaries. -/
theorem StandsAt.between {stop : Nat} (h : StandsAt text [] offset) (hstop : StandsAt text [] stop)
    (hle : offset ≤ stop) : ∃ piece, StandsAt text piece offset ∧ offset + byteSize piece = stop := by
  obtain ⟨before, after, rfl, rfl⟩ := h
  obtain ⟨before', after', htext, rfl⟩ := hstop
  simp only [List.append_nil] at htext ⊢
  obtain ⟨cs, rfl, rfl⟩ := append_of_byteSize_le htext hle
  exact ⟨cs, ⟨before, after', by simp, rfl⟩, by simp⟩

end Text

namespace Tree

open Text

theorem sliceFrom_skip {start stop offset : Nat} (before rest : List Char)
    (h : offset + byteSize before ≤ start) :
    sliceFrom start stop offset (before ++ rest) =
      sliceFrom start stop (offset + byteSize before) rest := by
  induction before generalizing offset with
  | nil => simp
  | cons c before ih =>
    have hpos := c.utf8Size_pos
    rw [byteSize_cons] at h
    rw [List.cons_append, sliceFrom, if_pos (by omega), ih (by omega), byteSize_cons, Nat.add_assoc]

theorem sliceFrom_take {start stop offset : Nat} (piece rest : List Char) (hstart : start ≤ offset)
    (h : offset + byteSize piece = stop) : sliceFrom start stop offset (piece ++ rest) = piece := by
  induction piece generalizing offset with
  | nil =>
    cases rest with
    | nil => rfl
    | cons c rest =>
      rw [byteSize_nil] at h
      rw [List.nil_append, sliceFrom, if_neg (by omega), if_neg (by omega)]
  | cons c piece ih =>
    have hpos := c.utf8Size_pos
    rw [byteSize_cons] at h
    rw [List.cons_append, sliceFrom, if_neg (by omega), if_pos (by omega), ih (by omega) (by omega)]

/-- Slicing a text gives what stands there. -/
theorem slice_eq {text : String} {piece : List Char} {start stop : Nat}
    (h : StandsAt text.toList piece start) (hstop : start + byteSize piece = stop) :
    slice text start stop = String.ofList piece := by
  obtain ⟨before, after, htext, hbefore⟩ := h
  rw [slice, htext, List.append_assoc, sliceFrom_skip before _ (by omega),
    sliceFrom_take piece after (by omega) (by omega)]

/-- The text of a node is what stands between its boundaries. -/
theorem textOf_eq {t : Tree} {n : NodeId} {text : String} {piece : List Char}
    (h : StandsAt text.toList piece (min (t.offset n) (t.finish n)))
    (hfinish : min (t.offset n) (t.finish n) + byteSize piece = t.finish n) :
    t.textOf n text = String.ofList piece := by
  have hsize : t.finish n ≤ text.utf8ByteSize := by
    obtain ⟨before, after, htext, hbefore⟩ := h
    rw [← byteSize_toList, htext, byteSize_append, byteSize_append]
    omega
  rw [textOf, Nat.min_eq_left hsize]
  exact slice_eq h hfinish

end Tree

/-! ## Brackets of index operators -/

namespace Token

/-- A keyword and the brackets of the operator that it declares. -/
def isIndexName (keyword left right : Token) : Bool :=
  keyword.kind == .keyword .operatorKw && left.kind == .punctuation .openSquare &&
    right.kind == .punctuation .closeSquare

/-- Wherever brackets name an index operator they stand next to each other. -/
def indexTight : List Token → Bool
  | keyword :: left :: right :: rest =>
    (!isIndexName keyword left right || left.finish == right.offset) &&
      indexTight (left :: right :: rest)
  | _ => true

theorem indexTight_tail {t : Token} {ts : List Token} (h : indexTight (t :: ts) = true) :
    indexTight ts = true := by
  rcases ts with _ | ⟨left, _ | ⟨right, rest⟩⟩
  · rfl
  · rfl
  · rw [indexTight, Bool.and_eq_true] at h
    exact h.2

theorem finish_eq_of_indexTight {before after : List Token} {keyword left right : Token}
    (h : indexTight (before ++ keyword :: left :: right :: after) = true)
    (hname : isIndexName keyword left right = true) : left.finish = right.offset := by
  induction before with
  | nil =>
    rw [List.nil_append, indexTight, hname] at h
    simpa using (Bool.and_eq_true_iff.1 h).1
  | cons t before ih => exact ih (indexTight_tail h)

/-- Three tokens in a row stand before or after a token that is none of them. -/
theorem window_split {before after xs ys : List Token} {a b c t : Token}
    (h : before ++ a :: b :: c :: after = xs ++ t :: ys) (ha : a ≠ t) (hb : b ≠ t) (hc : c ≠ t) :
    (∃ after', xs = before ++ a :: b :: c :: after') ∨
      ∃ before', ys = before' ++ a :: b :: c :: after := by
  induction before generalizing xs with
  | nil =>
    rcases xs with _ | ⟨x, _ | ⟨y, _ | ⟨z, xs⟩⟩⟩
    · exact absurd (List.cons.inj h).1 ha
    · exact absurd (List.cons.inj (List.cons.inj h).2).1 hb
    · exact absurd (List.cons.inj (List.cons.inj (List.cons.inj h).2).2).1 hc
    · simp only [List.nil_append, List.cons_append, List.cons.injEq] at h
      obtain ⟨rfl, rfl, rfl, -⟩ := h
      exact .inl ⟨xs, rfl⟩
  | cons x before ih =>
    cases xs with
    | nil => exact .inr ⟨before, (List.cons.inj h).2.symm⟩
    | cons y xs =>
      obtain ⟨rfl, hrest⟩ := List.cons.inj h
      rcases ih hrest with ⟨after', rfl⟩ | hys
      · exact .inl ⟨after', rfl⟩
      · exact .inr hys

/-- Three tokens in a row stand before or after tokens that none of them is among. -/
theorem window_split_all {before after xs new ys : List Token} {a b c : Token} (hne : new ≠ [])
    (h : before ++ a :: b :: c :: after = xs ++ (new ++ ys)) (ha : a ∉ new) (hb : b ∉ new)
    (hc : c ∉ new) :
    (∃ after', xs = before ++ a :: b :: c :: after') ∨
      ∃ before', ys = before' ++ a :: b :: c :: after := by
  induction new generalizing before xs with
  | nil => exact absurd rfl hne
  | cons t new ih =>
    simp only [List.mem_cons, not_or] at ha hb hc
    rcases window_split h ha.1 hb.1 hc.1 with hxs | ⟨before', hys⟩
    · exact .inl hxs
    · cases new with
      | nil => exact .inr ⟨before', hys⟩
      | cons u new =>
        rcases @ih before' [] (List.cons_ne_nil _ _) hys.symm ha.2 hb.2 hc.2 with ⟨after', hnil⟩ | hys
        · exact absurd hnil.symm (by simp)
        · exact .inr hys

end Token

namespace Grammar

open Text

/-- Tokens that stand in a text; the brackets of index operators stand next to each other there. -/
structure Faithful (text : List Char) (ts : List Token) : Prop where
  nonempty : ts ≠ []
  stands : ∀ t ∈ ts, StandsAt text t.lexeme.toList t.offset
  tight : ∀ before keyword left right after,
    ts.filter (fun t => !t.isEmpty) = before ++ keyword :: left :: right :: after →
    Token.isIndexName keyword left right = true → left.finish = right.offset

variable {text : List Char}

theorem standsAt_finish {t : Token} (h : StandsAt text t.lexeme.toList t.offset) :
    StandsAt text [] t.finish := by
  rw [Token.finish, Token.length, ← byteSize_toList]
  exact h.finish

theorem filter_of_real {ts : List Token} (h : ∀ t ∈ ts, t.Real) :
    ts.filter (fun t => !t.isEmpty) = ts :=
  List.filter_eq_self.2 fun t ht => by rw [(h t ht).isEmpty_eq]; rfl

/-- A missing token stands where the one before it ends. -/
theorem Faithful.missing {ts us : List Token} {kind : Token.Kind} {offset : Nat}
    (h : Faithful text (ts ++ us)) (hbefore : ∀ t ∈ ts.getLast?, offset = t.finish)
    (hafter : ts = [] → ∀ u ∈ us.head?, offset = u.offset) :
    Faithful text (ts ++ .missing kind offset :: us) where
  nonempty := by simp
  stands t ht := by
    rw [List.mem_append, List.mem_cons] at ht
    rcases ht with ht | rfl | ht
    · exact h.stands t (List.mem_append_left us ht)
    · show StandsAt text [] offset
      cases hlast : ts.getLast? with
      | some t =>
        rw [hbefore t hlast]
        exact standsAt_finish (h.stands t (List.mem_append_left us (List.mem_of_getLast? hlast)))
      | none =>
        have hnil := List.getLast?_eq_none_iff.1 hlast
        subst hnil
        cases us with
        | nil => exact absurd rfl h.nonempty
        | cons u us =>
          rw [hafter rfl u rfl]
          exact (h.stands u (by simp)).begin
    · exact h.stands t (List.mem_append_right ts ht)
  tight before keyword left right after heq := by
    refine h.tight before keyword left right after ?_
    rw [← heq, List.filter_append, List.filter_append, List.filter_cons_of_neg]
    simp [Token.missing, Token.isEmpty]

/-- Other operators may take the place of tokens. -/
theorem Faithful.exchange {ts old new us : List Token} (h : Faithful text (ts ++ (old ++ us)))
    (hne : new ≠ []) (hreal : ∀ t ∈ new, t.Real)
    (hstands : ∀ t ∈ new, StandsAt text t.lexeme.toList t.offset)
    (hoperator : ∀ t ∈ new, ∃ o, t.kind = .operator o) :
    Faithful text (ts ++ (new ++ us)) where
  nonempty := by simp [hne]
  stands t ht := by
    rw [List.mem_append, List.mem_append] at ht
    rcases ht with ht | ht | ht
    · exact h.stands t (by simp [ht])
    · exact hstands t ht
    · exact h.stands t (by simp [ht])
  tight before keyword left right after heq hname := by
    have hnames : keyword ∉ new ∧ left ∉ new ∧ right ∉ new := by
      simp only [Token.isIndexName, Bool.and_eq_true, beq_iff_eq] at hname
      refine ⟨fun hmem => ?_, fun hmem => ?_, fun hmem => ?_⟩ <;>
        (obtain ⟨o, ho⟩ := hoperator _ hmem; simp [ho] at hname)
    rw [List.filter_append, List.filter_append, filter_of_real hreal] at heq
    rcases Token.window_split_all hne heq.symm hnames.1 hnames.2.1 hnames.2.2 with
      ⟨after', hts⟩ | ⟨before', hus⟩
    · refine h.tight before keyword left right
        (after' ++ (old ++ us).filter (fun t => !t.isEmpty)) ?_ hname
      rw [List.filter_append, hts, List.append_assoc]
      rfl
    · refine h.tight (ts.filter (fun t => !t.isEmpty) ++ old.filter (fun t => !t.isEmpty) ++ before')
        keyword left right after ?_ hname
      rw [List.filter_append, List.filter_append, hus, ← List.append_assoc, ← List.append_assoc]

/-- The parts of a split operator stand where it does. -/
theorem Faithful.split {ts us : List Token} {t : Token} (h : Faithful text (ts ++ t :: us))
    (hreal : t.Real) : Faithful text (ts ++ (splitAngle t ++ us)) := by
  unfold splitAngle
  split
  · rename_i o hkind
    split
    · rename_i o' hafter
      have hstands := h.stands t (by simp)
      rw [hreal.spelled o hkind, toList_spelling_afterAngle? hafter] at hstands
      refine @Faithful.exchange text ts [t] _ us h (List.cons_ne_nil _ _) ?_ ?_ ?_
      · simp [real_operator]
      · simp only [List.forall_mem_cons]
        exact ⟨hstands.left, hstands.right, nofun⟩
      · simp
    · exact h
  · exact h

/-- One operator may take the place of tokens behind a keyword. -/
theorem Faithful.fuse {ts old us : List Token} {keyword : Token} {o : Operator} {offset : Nat}
    (h : Faithful text (ts ++ keyword :: (old ++ us)))
    (hstands : StandsAt text o.spelling.toList offset) :
    Faithful text (ts ++ keyword :: ⟨.operator o, o.spelling, offset⟩ :: us) := by
  have hkeyword : Faithful text (ts ++ [keyword] ++ (old ++ us)) := by simpa using h
  have hfused := @Faithful.exchange text _ old [⟨.operator o, o.spelling, offset⟩] us hkeyword
    (List.cons_ne_nil _ _) (by simp [real_operator]) (by simpa using hstands) (by simp)
  simpa using hfused

/-- The brackets of an index operator stand next to each other, so they are the operator. -/
theorem Faithful.merge {ts us vs : List Token} {keyword t : Token} {n : Nat}
    (h : Faithful text (ts ++ keyword :: (us ++ vs))) (hreal : ∀ u ∈ us, u.Real)
    (hwritten : keyword.Real) (hkeyword : keyword.kind = .keyword .operatorKw)
    (hopen : kindAt us = .punctuation .openSquare)
    (hclose : kindAt (us.drop 1) = .punctuation .closeSquare) (hindex : indexToken? us = some (t, n)) :
    Faithful text (ts ++ keyword :: t :: (us.drop n ++ vs)) := by
  unfold indexToken? at hindex
  split at hindex
  · rename_i left right rest
    have hleft : left.lexeme = "[" := (hreal left (by simp)).punctuated _ hopen
    have hright : right.lexeme = "]" := (hreal right (by simp)).punctuated _ hclose
    have htight : left.finish = right.offset := by
      refine h.tight (ts.filter fun t => !t.isEmpty) keyword left right
        (rest ++ vs.filter fun t => !t.isEmpty) ?_ ?_
      · have hall := filter_of_real (List.forall_mem_cons.2 ⟨hwritten, hreal⟩)
        rw [List.filter_append, ← List.cons_append, List.filter_append, hall]
        rfl
      · have hopen : left.kind = .punctuation .openSquare := hopen
        have hclose : right.kind = .punctuation .closeSquare := hclose
        simp [Token.isIndexName, hkeyword, hopen, hclose]
    have hboth : StandsAt text ['[', ']'] left.offset := by
      have hfirst := h.stands left (by simp)
      have hsecond := h.stands right (by simp)
      rw [hleft] at hfirst
      rw [hright, ← htight, Token.finish, Token.length, hleft] at hsecond
      exact hfirst.append hsecond
    split at hindex
    · rename_i hassign
      cases rest with
      | nil => simp at hassign
      | cons e rest =>
        obtain ⟨rfl, rfl⟩ := Prod.mk.inj (Option.some.inj hindex)
        simp only [List.head?_cons, Option.any_some, Bool.and_eq_true, beq_iff_eq] at hassign
        have he : e.lexeme = "=" := (hreal e (by simp)).spelled _ hassign.1
        have hthird := h.stands e (by simp)
        rw [he, hassign.2, Token.finish, ← htight, Token.finish, Token.length, Token.length, hleft,
          hright] at hthird
        exact @Faithful.fuse text ts [left, right, e] (rest ++ vs) keyword .indexEq left.offset h
          (hboth.append hthird)
    · obtain ⟨rfl, rfl⟩ := Prod.mk.inj (Option.some.inj hindex)
      exact @Faithful.fuse text ts [left, right] (rest ++ vs) keyword .index left.offset h hboth
  · cases hindex

theorem Faithful.edited {ts us : List Token} (h : Faithful text ts) (hedited : Edited ts us) :
    Faithful text us := by
  induction hedited with
  | refl => exact h
  | tail _ hedit ih =>
    cases hedit with
    | missing hbefore hafter => exact ih.missing hbefore hafter
    | split hreal => exact ih.split hreal
    | merge hreal hwritten hkeyword hopen hclose hindex =>
      exact ih.merge hreal hwritten hkeyword hopen hclose hindex

end Grammar

namespace Parsed

section Formed

variable {p : Parsed} {e : Grammar.Entry} {source? : Option Source} {text : String}
  (h : p.Formed e source? text) (htight : Token.indexTight (Scan.ofText source? text).tokens.toList)
include h htight

theorem Formed.faithful : Grammar.Faithful text.toList p.tree.tokens.toList := by
  obtain ⟨ps, hspelled, hcuts⟩ := Scan.ofText_cuts source? text
  refine Grammar.Faithful.edited ⟨?_, fun t ht => ?_, ?_⟩ h.edited
  · rw [hcuts.tokens]
    simp
  · rw [← hspelled]
    exact hcuts.token_stands (Array.mem_toList_iff.1 ht)
  · intro before keyword left right after heq hname
    have hwritten : ∀ t ∈ (Lexer.placed 0 ps).filterMap Lexer.Piece.token?, t.isEmpty = false := by
      intro t ht
      rw [Token.isEmpty, String.isEmpty_eq_false_iff]
      exact fun hempty => (hcuts.mem_token ht).2.2 (by rw [hempty]; rfl)
    have hfilter : (Scan.ofText source? text).tokens.toList.filter (fun t => !t.isEmpty) =
        (Lexer.placed 0 ps).filterMap Lexer.Piece.token? := by
      rw [hcuts.tokens, List.filter_append, List.filter_eq_self.2 fun t ht => by simp [hwritten t ht]]
      simp [Token.isEmpty]
    rw [hcuts.tokens, ← hfilter, heq, List.append_assoc] at htight
    exact Token.finish_eq_of_indexTight htight hname

omit htight in
/-- Comments stand in the text. -/
theorem Formed.comment_stands (id : CommentId) :
    Text.StandsAt text.toList (p.tree.comment id).lexeme.toList (p.tree.comment id).offset := by
  obtain ⟨ps, hspelled, hcuts⟩ := Scan.ofText_cuts source? text
  by_cases hid : id < p.tree.comments.size
  · have hmem : p.tree.comment id ∈ (Scan.ofText source? text).comments := by
      rw [← h.comments]
      simp [Tree.comment, hid]
    rw [← hspelled]
    exact Lexer.standsAt_of_mem_placed (hcuts.mem_comment hmem).1
  · have hnone : p.tree.comment id = default := by simp [Tree.comment, hid]
    rw [hnone]
    exact ⟨[], text.toList, rfl, rfl⟩

theorem Formed.token_stands (id : TokenId) :
    Text.StandsAt text.toList (p.tree.lexeme id).toList (p.tree.token id).offset := by
  by_cases hid : id < p.tree.tokens.size
  · refine (h.faithful htight).stands _ (Array.mem_toList_iff.2 ?_)
    simp [Tree.token, hid]
  · have hnone : p.tree.token id = default := by simp [Tree.token, hid]
    rw [Tree.lexeme, hnone]
    exact ⟨[], text.toList, rfl, rfl⟩

omit htight in
/-- An identifier stands on its token. -/
theorem Formed.identifier {n : NodeId} {token : TokenId}
    (hkind : p.tree.kind n = .expression (.identifier token)) :
    p.tree.firstToken n = token ∧ p.tree.lastToken n = token := by
  have hn : n < p.tree.nodes.size := by
    by_contra hn
    have hdefault : p.tree.kind n = .unit [] [] := by
      rw [Tree.kind, Arena.kind, Arena.node_of_size_le (Nat.le_of_not_lt hn)]
      rfl
    rw [hkind] at hdefault
    cases hdefault
  exact (h.formed (node?_layout hn)).named token hkind

/-- A node begins between two characters. -/
theorem Formed.offset_stands (n : NodeId) : Text.StandsAt text.toList [] (p.tree.offset n) := by
  unfold Tree.offset
  split
  · exact (h.comment_stands _).begin
  · exact (h.token_stands htight _).begin

/-- A node ends between two characters. -/
theorem Formed.finish_stands (n : NodeId) : Text.StandsAt text.toList [] (p.tree.finish n) := by
  have htokens : Text.StandsAt text.toList []
      (max (p.tree.token (p.tree.lastToken n)).finish (p.tree.offset n)) := by
    rcases Nat.le_total (p.tree.token (p.tree.lastToken n)).finish (p.tree.offset n) with hle | hle
    · rw [Nat.max_eq_right hle]
      exact h.offset_stands htight n
    · rw [Nat.max_eq_left hle]
      exact Grammar.standsAt_finish (h.token_stands htight _)
  unfold Tree.finish
  dsimp only
  split
  · rename_i run hkind
    cases run.getLast? with
    | none => exact htokens
    | some c =>
      show Text.StandsAt text.toList [] (p.tree.comment c).finish
      rw [Comment.finish, ← Text.byteSize_toList]
      exact (h.comment_stands c).finish
  · exact htokens

end Formed

/-- If in a text the brackets of every index operator stand next to each other, then every token of its
    tree stands in the text; every node begins and ends between two characters, and its text is what
    stands between these; and the text of an identifier is its name. -/
theorem ofText_faithful (e : Grammar.Entry) (source? : Option Source) (text : String)
    (htight : Token.indexTight (Scan.ofText source? text).tokens.toList) :
    ∃ parsed, ofScan? e (Scan.ofText source? text) = some parsed ∧
      (ofText e source? text).tree = parsed.tree ∧
      (∀ t ∈ parsed.tree.tokens, Text.StandsAt text.toList t.lexeme.toList t.offset) ∧
      (∀ n, Text.StandsAt text.toList (parsed.tree.textOf n text).toList
          (min (parsed.tree.offset n) (parsed.tree.finish n)) ∧
        min (parsed.tree.offset n) (parsed.tree.finish n) + (parsed.tree.textOf n text).utf8ByteSize =
          parsed.tree.finish n) ∧
      ∀ n name, parsed.tree.identifier? n = some name → parsed.tree.textOf n text = name := by
  obtain ⟨parsed, hparsed, htree, h⟩ := ofText_formed e source? text
  refine ⟨parsed, hparsed, htree, fun t ht => ?_, fun n => ?_, fun n name hname => ?_⟩
  · exact (h.faithful htight).stands t (Array.mem_toList_iff.2 ht)
  · have hstart : Text.StandsAt text.toList [] (min (parsed.tree.offset n) (parsed.tree.finish n)) := by
      rcases Nat.le_total (parsed.tree.offset n) (parsed.tree.finish n) with hle | hle
      · rw [Nat.min_eq_left hle]
        exact h.offset_stands htight n
      · rw [Nat.min_eq_right hle]
        exact h.finish_stands htight n
    obtain ⟨piece, hpiece, hsize⟩ :=
      hstart.between (h.finish_stands htight n) (Nat.min_le_right _ _)
    rw [Tree.textOf_eq hpiece hsize, ← Text.byteSize_toList]
    simpa using ⟨hpiece, hsize⟩
  · unfold Tree.identifier? at hname
    split at hname
    · rename_i token hkind
      obtain rfl := Option.some.inj hname
      obtain ⟨hfirst, hlast⟩ := h.identifier hkind
      have hcomment : (parsed.tree.kind n).isComment = false := by rw [hkind]; rfl
      have hle : (parsed.tree.token token).offset ≤ (parsed.tree.token token).finish :=
        Nat.le_add_right _ _
      have hoffset : parsed.tree.offset n = (parsed.tree.token token).offset := by
        rw [Tree.offset_eq hcomment, hfirst]
      have hfinish : parsed.tree.finish n = (parsed.tree.token token).finish := by
        rw [Tree.finish_eq hcomment, hfirst, hlast, Nat.max_eq_left hle]
      rw [@Tree.textOf_eq _ n text (parsed.tree.lexeme token).toList, String.ofList_toList]
      · rw [hoffset, hfinish, Nat.min_eq_left hle]
        exact h.token_stands htight token
      · rw [hoffset, hfinish, Nat.min_eq_left hle, Text.byteSize_toList]
        rfl
    · cases hname

/-- Brackets next to each other are the name of the operator. -/
theorem ofText_faithful_index :
    Token.indexTight (Scan.ofText none "class A {operator [](i);}").tokens.toList ∧
    ∃ parsed, ofScan? .unit (Scan.ofText none "class A {operator [](i);}") = some parsed ∧
      parsed.tree.identifier? 1 = some "[]" ∧
      parsed.tree.textOf 1 "class A {operator [](i);}" = "[]" := by
  have htight : Token.indexTight (Scan.ofText none "class A {operator [](i);}").tokens.toList := by
    cbv
  have hsample : (ofScan? .unit (Scan.ofText none "class A {operator [](i);}")).map
      (fun p => p.tree.identifier? 1) = some (some "[]") := by
    cbv
  obtain ⟨parsed, hparsed, -, -, -, hname⟩ :=
    ofText_faithful .unit none "class A {operator [](i);}" htight
  rw [hparsed] at hsample
  have hidentifier : parsed.tree.identifier? 1 = some "[]" := Option.some.inj hsample
  exact ⟨htight, parsed, hparsed, hidentifier, hname 1 "[]" hidentifier⟩

/-- Brackets apart are named as if they stood next to each other; the text of the name is another. -/
theorem index_apart :
    ∃ parsed, ofScan? .unit (Scan.ofText none "class A {operator [ ](i);}") =
        some parsed ∧ parsed.tree.identifier? 1 = some "[]" ∧
      parsed.tree.textOf 1 "class A {operator [ ](i);}" = "[ " := by
  have hsample : (ofScan? .unit (Scan.ofText none "class A {operator [ ](i);}")).map
      (fun p => (p.tree.identifier? 1,
        p.tree.textOf 1 "class A {operator [ ](i);}")) =
      some (some "[]", "[ ") := by
    cbv
  obtain ⟨parsed, hparsed, hfacts⟩ := Option.map_eq_some_iff.1 hsample
  exact ⟨parsed, hparsed, (Prod.mk.inj hfacts).1, (Prod.mk.inj hfacts).2⟩

end Parsed

end DartAnalysis
