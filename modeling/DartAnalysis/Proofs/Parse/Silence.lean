/-
  What a parse that reports nothing leaves of the token table. Missing tokens are put in, and tokens
  that are empty stay in the table (`Edit.empties_le`), so an edited table with no more of them than
  before was only respelled: operators were split and brackets merged (`Edited.respelled`). The logic
  of productions says that an unread token is real and, unless something was reported, one that was
  read as well (`State.Table`). Main statement: no text is repaired silently
  (`Parsed.ofText_silent`).
-/
import DartAnalysis.Proofs.Parse.Conservation
import DartAnalysis.Proofs.Parse.Fidelity

namespace DartAnalysis

namespace Grammar

/-! ## Empty tokens -/

/-- How many tokens of a table are written as nothing. -/
def empties (ts : List Token) : Nat := ts.countP Token.isEmpty

@[simp] theorem empties_append (ts us : List Token) :
    empties (ts ++ us) = empties ts + empties us :=
  List.countP_append

theorem empties_of_real {ts : List Token} (h : ∀ t ∈ ts, t.Real) : empties ts = 0 := by
  refine List.countP_eq_zero.2 fun t ht => ?_
  rw [(h t ht).isEmpty_eq]
  exact Bool.false_ne_true

theorem empties_cons_of_real {t : Token} (h : t.Real) (ts : List Token) :
    empties (t :: ts) = empties ts :=
  List.countP_cons_of_neg (by rw [h.isEmpty_eq]; exact Bool.false_ne_true)

theorem empties_missing (kind : Token.Kind) (offset : Nat) (ts : List Token) :
    empties (.missing kind offset :: ts) = empties ts + 1 :=
  List.countP_cons_of_pos rfl

/-! ## Respelling -/

/-- A closing angle bracket is split off an operator, or the brackets that name an index operator
    become one token. -/
inductive Respelling : List Token → List Token → Prop
  | split {ts us : List Token} {t : Token} {o rest : Operator} (hkind : t.kind = .operator o)
      (hafter : afterAngle? o = some rest) :
      Respelling (ts ++ t :: us) (ts ++ ⟨.operator .gt, Operator.gt.spelling, t.offset⟩ ::
        ⟨.operator rest, rest.spelling, t.offset + 1⟩ :: us)
  | index {ts us : List Token} {keyword left right : Token}
      (hkeyword : keyword.kind = .keyword .operatorKw) (hopen : left.kind = .punctuation .openSquare)
      (hclose : right.kind = .punctuation .closeSquare) :
      Respelling (ts ++ keyword :: left :: right :: us)
        (ts ++ keyword :: ⟨.operator .index, Operator.index.spelling, left.offset⟩ :: us)
  | indexEq {ts us : List Token} {keyword left right equals : Token}
      (hkeyword : keyword.kind = .keyword .operatorKw) (hopen : left.kind = .punctuation .openSquare)
      (hclose : right.kind = .punctuation .closeSquare) (hequals : equals.kind = .operator .eq)
      (htight : equals.offset = right.finish) :
      Respelling (ts ++ keyword :: left :: right :: equals :: us)
        (ts ++ keyword :: ⟨.operator .indexEq, Operator.indexEq.spelling, left.offset⟩ :: us)

/-- A token table after any number of respellings. -/
abbrev Respelled : List Token → List Token → Prop := Relation.ReflTransGen Respelling

theorem respelled_splitAngle (ts us : List Token) (t : Token) :
    Respelled (ts ++ t :: us) (ts ++ (splitAngle t ++ us)) := by
  unfold splitAngle
  split
  · rename_i o hkind
    split
    · rename_i rest hafter
      exact .single (.split hkind hafter)
    · exact .refl
  · exact .refl

theorem respelled_indexToken? {ts us vs : List Token} {keyword t : Token} {n : Nat}
    (hkeyword : keyword.kind = .keyword .operatorKw) (hopen : kindAt us = .punctuation .openSquare)
    (hclose : kindAt (us.drop 1) = .punctuation .closeSquare) (hindex : indexToken? us = some (t, n)) :
    Respelled (ts ++ keyword :: (us ++ vs)) (ts ++ keyword :: t :: (us.drop n ++ vs)) := by
  refine .single ?_
  unfold indexToken? at hindex
  split at hindex
  · rename_i left right rest
    split at hindex
    · rename_i hassign
      obtain ⟨rfl, rfl⟩ := Prod.mk.inj (Option.some.inj hindex)
      cases rest with
      | nil => cases hassign
      | cons equals rest =>
        obtain ⟨hequals, htight⟩ : equals.kind = .operator .eq ∧ equals.offset = right.finish := by
          simpa using hassign
        exact .indexEq hkeyword hopen hclose hequals htight
    · obtain ⟨rfl, rfl⟩ := Prod.mk.inj (Option.some.inj hindex)
      exact .index hkeyword hopen hclose
  · cases hindex

/-- An edit puts an empty token in or only respells the table; no empty one goes. -/
theorem Edit.respelled_or {ts us : List Token} (h : Edit ts us) :
    Respelled ts us ∧ empties ts ≤ empties us ∨ empties ts < empties us := by
  cases h with
  | @missing ts us kind offset =>
    right
    rw [empties_append, empties_append, empties_missing]
    omega
  | @split ts us t hreal =>
    left
    refine ⟨respelled_splitAngle ts us t, ?_⟩
    rw [empties_append, empties_append, empties_append, empties_cons_of_real hreal]
    omega
  | @merge ts us vs keyword t n hreal hwritten hkeyword hopen hclose hindex =>
    left
    refine ⟨respelled_indexToken? hkeyword hopen hclose hindex, ?_⟩
    have hsub : (vs.Sublist (t :: (us.drop n ++ vs))) :=
      (List.sublist_append_right (us.drop n) vs).cons t
    have hle : empties vs ≤ empties (t :: (us.drop n ++ vs)) := hsub.countP_le
    rw [empties_append, empties_append, empties_cons_of_real hwritten, empties_cons_of_real hwritten,
      empties_append, empties_of_real hreal]
    omega

/-- A table with no more empty tokens than before was only respelled. -/
theorem Edited.respelled {ts us : List Token} (h : Edited ts us) :
    empties ts ≤ empties us ∧ (empties us ≤ empties ts → Respelled ts us) := by
  induction h with
  | refl => exact ⟨Nat.le_refl _, fun _ => .refl⟩
  | tail _ hedit ih =>
    obtain ⟨hle, hrespelled⟩ := ih
    rcases hedit.respelled_or with ⟨hlast, hle'⟩ | hlt
    · exact ⟨Nat.le_trans hle hle', fun hge => (hrespelled (Nat.le_trans hle' hge)).trans hlast⟩
    · exact ⟨Nat.le_of_lt (Nat.lt_of_le_of_lt hle hlt),
        fun hge => absurd (Nat.lt_of_le_of_lt hle hlt) (Nat.not_lt.2 hge)⟩

/-! ## Silent states -/

namespace State

variable {s : State}

/-- Unless something was reported, no token but the end of file is empty. -/
theorem Table.real_of_silent (h : s.Table) (hsilent : s.errors = #[]) {t : Token}
    (ht : t ∈ s.read.toList ++ s.unread) : t.Real := by
  rcases List.mem_append.1 ht with ht | ht
  · exact h.read_real hsilent t (Array.mem_toList_iff.1 ht)
  · exact h.real t ht

theorem Table.empties_of_silent (h : s.Table) (hsilent : s.errors = #[]) :
    empties s.tokens.toList = empties [s.eof] := by
  rw [toList_tokens, empties_append, empties_of_real fun t ht => h.real_of_silent hsilent ht,
    Nat.zero_add]

end State

end Grammar

namespace Parsed

open Grammar

/-- Whatever a text is read as, a token that was put in comes with a problem that the parse reports,
    also when problems are held back because the nesting is too deep. If it reports none, the table
    is the scanned one, but for split operators and merged brackets. -/
theorem ofText_silent (e : Grammar.Entry) (source? : Option Source) (text : String) :
    ∃ parsed, ofScan? e (Scan.ofText source? text) = some parsed ∧
      (ofText e source? text).tree = parsed.tree ∧
      ((∃ t ∈ parsed.tree.tokens, t.lexeme = "" ∧ t.kind ≠ .eof) → parsed.errors ≠ []) ∧
      (parsed.errors = [] → Respelled (Scan.ofText source? text).tokens.toList
        parsed.tree.tokens.toList) := by
  obtain ⟨ps, -, hcuts⟩ := Scan.ofText_cuts source? text
  obtain ⟨root, final, hparsed, hgood, hleads⟩ := ofScan?_good e hcuts
  obtain ⟨htokens, -⟩ := State.toList_tokens_ofScan hcuts.tokens
  refine ⟨_, hparsed, ?_, ?_, fun hsilent => ?_⟩
  · simp only [ofText, ofScan, hparsed, Option.getD_some]
  · rintro ⟨t, ht, hempty, hkind⟩ hsilent
    have hsilent : final.errors = #[] := Array.toList_eq_nil_iff.1 hsilent
    have ht : t ∈ final.tokens.toList := Array.mem_toList_iff.2 ht
    rw [State.toList_tokens, List.mem_append, List.mem_singleton] at ht
    rcases ht with ht | rfl
    · have hpos := (hgood.table.real_of_silent hsilent ht).length_pos
      rw [Token.length, hempty] at hpos
      exact absurd hpos (Nat.lt_irrefl 0)
    · exact hkind hgood.table.eof_kind
  · have hsilent : final.errors = #[] := Array.toList_eq_nil_iff.1 hsilent
    have htable := State.table_ofScan hcuts
    obtain ⟨-, hrespelled⟩ := hleads.edited.respelled
    rw [← htokens]
    refine hrespelled (Nat.le_of_eq ?_)
    rw [hgood.table.empties_of_silent hsilent, htable.empties_of_silent rfl, hleads.eof_eq]

end Parsed

end DartAnalysis
