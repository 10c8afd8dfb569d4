/-
  What parsing does to the token table as a whole. Reading only moves tokens within it; besides that,
  missing tokens are put in, operators that begin with a closing angle bracket are split, and after
  the keyword `operator` the brackets of an index operator are merged (`Edit`). Each of these leaves
  the text of the tokens as it is (`Edit.written_eq`).
-/
import DartAnalysis.Proofs.Parse.Table
import Mathlib.Logic.Relation

namespace DartAnalysis

namespace Grammar

/-- One change of the token table. -/
inductive Edit : List Token → List Token → Prop
  /-- A missing token is put in where the one before it ends, or at the front, where the one after it
      begins. -/
  | missing {ts us : List Token} {kind : Token.Kind} {offset : Nat}
      (hbefore : ∀ t ∈ ts.getLast?, offset = t.finish)
      (hafter : ts = [] → ∀ u ∈ us.head?, offset = u.offset) :
      Edit (ts ++ us) (ts ++ .missing kind offset :: us)
  | split {ts us : List Token} {t : Token} (hreal : t.Real) :
      Edit (ts ++ t :: us) (ts ++ (splitAngle t ++ us))
  /-- The brackets after the keyword become one token. -/
  | merge {ts us vs : List Token} {keyword t : Token} {n : Nat} (hreal : ∀ u ∈ us, u.Real)
      (hwritten : keyword.Real) (hkeyword : keyword.kind = .keyword .operatorKw)
      (hopen : kindAt us = .punctuation .openSquare)
      (hclose : kindAt (us.drop 1) = .punctuation .closeSquare)
      (hindex : indexToken? us = some (t, n)) :
      Edit (ts ++ keyword :: (us ++ vs)) (ts ++ keyword :: t :: (us.drop n ++ vs))

/-- A token table after any number of changes. -/
abbrev Edited : List Token → List Token → Prop := Relation.ReflTransGen Edit

/-! ## The text of the tokens -/

theorem toList_spelling_afterAngle? {o rest : Operator} (h : afterAngle? o = some rest) :
    o.spelling.toList = Operator.gt.spelling.toList ++ rest.spelling.toList := by
  cases o <;> simp [afterAngle?] at h <;> subst h <;> simp [Operator.spelling]

theorem written_splitAngle {t : Token} (h : t.Real) :
    Token.written (splitAngle t) = t.lexeme.toList := by
  unfold splitAngle
  split
  · rename_i o hkind
    split
    · rename_i o' hafter
      rw [h.spelled o hkind, toList_spelling_afterAngle? hafter]
      simp
    · simp
  · simp

/-- Brackets that become one token are written as it is. -/
theorem written_indexToken? {us : List Token} {t : Token} {n : Nat} (hreal : ∀ u ∈ us, u.Real)
    (hopen : kindAt us = .punctuation .openSquare)
    (hclose : kindAt (us.drop 1) = .punctuation .closeSquare)
    (hindex : indexToken? us = some (t, n)) :
    Token.written (t :: us.drop n) = Token.written us := by
  unfold indexToken? at hindex
  split at hindex
  · rename_i left right rest
    have hleft : left.lexeme = "[" := (hreal left (by simp)).punctuated _ hopen
    have hright : right.lexeme = "]" := (hreal right (by simp)).punctuated _ hclose
    split at hindex
    · rename_i hassign
      cases rest with
      | nil => simp at hassign
      | cons e rest =>
        obtain ⟨rfl, rfl⟩ := Prod.mk.inj (Option.some.inj hindex)
        simp only [List.head?_cons, Option.any_some, Bool.and_eq_true, beq_iff_eq] at hassign
        have he : e.lexeme = "=" := (hreal e (by simp)).spelled _ hassign.1
        simp [hleft, hright, he, Operator.spelling]
    · obtain ⟨rfl, rfl⟩ := Prod.mk.inj (Option.some.inj hindex)
      simp [hleft, hright, Operator.spelling]
  · exact absurd hindex nofun

theorem Edit.written_eq {ts us : List Token} (h : Edit ts us) :
    Token.written us = Token.written ts := by
  cases h with
  | missing => simp [Token.missing]
  | split hreal => simp [written_splitAngle hreal]
  | @merge ts us vs keyword t n hreal _ hkeyword hopen hclose hindex =>
    have hwritten := written_indexToken? hreal hopen hclose hindex
    rw [Token.written_cons] at hwritten
    simp [← hwritten]

theorem Edited.written_eq {ts us : List Token} (h : Edited ts us) :
    Token.written us = Token.written ts := by
  induction h with
  | refl => rfl
  | tail _ hedit ih => exact hedit.written_eq.trans ih

/-! ## Tables of states -/

namespace State

variable {s : State}

theorem toList_tokens (s : State) : s.tokens.toList = s.read.toList ++ s.unread ++ [s.eof] := by
  simp [tokens]

theorem written_tokens (s : State) :
    Token.written s.tokens.toList = s.text ++ s.eof.lexeme.toList := by
  simp [toList_tokens, text]

/-- The text is the same if the table was edited and the end of file kept. -/
theorem text_eq_of_edited {s' : State} (h : Edited s.tokens.toList s'.tokens.toList)
    (heof : s'.eof = s.eof) : s'.text = s.text := by
  have hwritten := h.written_eq
  rw [written_tokens, written_tokens, heof] at hwritten
  exact List.append_cancel_right hwritten

/-- Tokens that are read stay in the table. -/
theorem toList_tokens_take (s : State) (n : Nat) : (s.take n).tokens.toList = s.tokens.toList := by
  simp [toList_tokens, take]

theorem edited_insert (s : State) (kind : Token.Kind) :
    Edited s.tokens.toList (State.tokens { s with
      read := s.read.push (.missing kind (match s.read.back? with
        | some t => t.finish
        | none => s.current.offset)) }).toList := by
  refine .single ?_
  have hcurrent : (s.unread ++ [s.eof]).head? = some s.current := by
    cases hunread : s.unread <;> simp [current, hunread]
  rw [toList_tokens, toList_tokens, List.append_assoc]
  simp only [Array.toList_push, List.append_assoc, List.singleton_append]
  refine .missing (fun t ht => ?_) fun hnil u hu => ?_
  · rw [Array.getLast?_toList] at ht
    rw [Option.mem_def.1 ht]
  · rw [hcurrent, Option.mem_some_iff] at hu
    have hback : s.read.back? = none := by
      rw [← Array.getLast?_toList, hnil]
      rfl
    rw [hback, hu]

theorem Table.edited_splitAngle (h : s.Table) {t : Token} {rest : List Token}
    (hunread : s.unread = t :: rest) :
    Edited s.tokens.toList (s.replace 1 (Grammar.splitAngle t)).tokens.toList := by
  have hreal : t.Real := h.real t (by rw [hunread]; exact List.mem_cons_self ..)
  refine .single ?_
  rw [toList_tokens, toList_tokens, List.append_assoc, List.append_assoc, hunread]
  simpa [State.replace, hunread] using @Edit.split s.read.toList (rest ++ [s.eof]) t hreal

/-- The brackets after the keyword that was read last. -/
theorem Table.edited_mergeIndex (h : s.Table) {keyword t : Token} {n : Nat}
    (hlast : s.read.back? = some keyword) (hwritten : keyword.Real)
    (hkeyword : keyword.kind = .keyword .operatorKw)
    (hopen : kindAt s.unread = .punctuation .openSquare)
    (hclose : kindAt (s.unread.drop 1) = .punctuation .closeSquare)
    (hindex : indexToken? s.unread = some (t, n)) :
    Edited s.tokens.toList (s.replace n [t]).tokens.toList := by
  obtain ⟨before, hread⟩ : ∃ before, s.read.toList = before ++ [keyword] := by
    rw [← Array.getLast?_toList] at hlast
    exact ⟨_, (List.dropLast_append_getLast? keyword hlast).symm⟩
  refine .single ?_
  rw [toList_tokens, toList_tokens, List.append_assoc, List.append_assoc, hread]
  simpa [State.replace, hread] using
    @Edit.merge before s.unread [s.eof] keyword t n h.real hwritten hkeyword hopen hclose hindex

end State

end Grammar

end DartAnalysis
