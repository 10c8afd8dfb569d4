/-
  The token table while it is parsed. Tokens are read, split, merged and put in where they are
  missing; through all of this the table stays in order (`State.Table`), each token at its end or
  before the next one. The comments between two tokens are therefore a stretch of all comments
  (`firstCommentFrom_mono`).
-/
import DartAnalysis.Grammar.Classes
import DartAnalysis.Grammar.Units
import DartAnalysis.Proofs.Parse.Ground
import DartAnalysis.Proofs.Scan.Piece
import Mathlib.Data.List.Chain

namespace DartAnalysis

/-- A token as it is scanned: not empty, not the end of file, spelled as its operator or punctuation,
    and a word written with the characters of names. -/
structure Token.Real (t : Token) : Prop where
  kind_ne_eof : t.kind ≠ .eof
  length_pos : 0 < t.length
  spelled : ∀ o, t.kind = .operator o → t.lexeme = o.spelling
  punctuated : ∀ p, t.kind = .punctuation p → t.lexeme = p.spelling
  worded : t.kind.isWord = true → ∀ c ∈ t.lexeme.toList, Lexeme.isNamePart true c = true

theorem Token.Real.isEmpty_eq {t : Token} (h : t.Real) : t.isEmpty = false :=
  beq_false_of_ne (Nat.ne_of_gt h.length_pos)

/-- The text that tokens are written as, one after another. -/
def Token.written (ts : List Token) : List Char := ts.flatMap (·.lexeme.toList)

@[simp] theorem Token.written_nil : written [] = [] := rfl

@[simp] theorem Token.written_cons (t : Token) (ts : List Token) :
    written (t :: ts) = t.lexeme.toList ++ written ts := rfl

@[simp] theorem Token.written_append (ts us : List Token) :
    written (ts ++ us) = written ts ++ written us := by
  simp [written]

/-- Tokens of which each one ends before the next begins. -/
theorem Token.pairwise_of_ordered {ts : List Token} (h : ts.IsChain (·.finish ≤ ·.offset)) :
    ts.Pairwise (·.finish ≤ ·.offset) := by
  have htrans : IsTrans Token (fun s t => s.finish ≤ t.offset) := by
    refine ⟨fun s t u hst htu => ?_⟩
    have hle : t.offset ≤ t.finish := Nat.le_add_right _ _
    omega
  exact h.pairwise

namespace Grammar

namespace State

/-- The text of the tokens, read or not. -/
def text (s : State) : List Char := Token.written (s.read.toList ++ s.unread)

/-- What was reported lies in the text, and against its source. -/
def Reports (s : State) : Prop := ∀ d ∈ s.errors, d.source? = s.source? ∧ d.finish ≤ s.eof.finish

/-- The tables that a parse reads are in order. -/
structure Table (s : State) : Prop where
  real : ∀ t ∈ s.unread, t.Real
  read_kind : ∀ t ∈ s.read, t.kind ≠ .eof
  eof_kind : s.eof.kind = .eof
  ordered : (s.read.toList ++ (s.unread ++ [s.eof])).IsChain (·.finish ≤ ·.offset)
  comments_ordered : s.comments.toList.Pairwise (·.offset < ·.offset)
  /-- Nothing is put in unless something was reported. -/
  read_real : s.errors = #[] → ∀ t ∈ s.read, t.Real
  reports : s.Reports

theorem unread_ne_nil_iff (s : State) : s.unread ≠ [] ↔ 0 < s.left := by
  rw [s.left_eq, List.length_pos_iff]

section Table

variable {s : State} (h : s.Table)
include h

/-- The tokens ahead begin with a written one. -/
theorem Table.next?_unread : Token.next? s.unread = s.unread.head?.map Token.isName := by
  cases hunread : s.unread with
  | nil => rfl
  | cons t ts =>
    exact Token.next?_cons (h.real t (by rw [hunread]; exact List.mem_cons_self ..)).isEmpty_eq

theorem Table.current_kind : s.current.kind = kindAt s.unread := by
  unfold current
  cases s.unread with
  | nil => exact h.eof_kind
  | cons t ts => rfl

/-- The current token does not begin before the end of the one read last. -/
theorem Table.finish_le_current {t : Token} (ht : s.read.back? = some t) :
    t.finish ≤ s.current.offset := by
  obtain ⟨-, -, hnext⟩ := List.isChain_append.1 h.ordered
  refine hnext t ?_ s.current ?_
  · rw [Array.getLast?_toList, ht]; rfl
  · cases hunread : s.unread <;> simp [current, hunread]

/-- Reading tokens moves them within the table. -/
theorem Table.take (n : Nat) : (s.take n).Table where
  real t ht := h.real t (List.mem_of_mem_drop ht)
  read_kind t ht := by
    rcases Array.mem_append.1 ht with ht | ht
    · exact h.read_kind t ht
    · exact (h.real t (List.mem_of_mem_take (List.mem_toArray.1 ht))).kind_ne_eof
  eof_kind := h.eof_kind
  ordered := by
    have hordered := h.ordered
    rw [← List.take_append_drop n s.unread, List.append_assoc] at hordered
    simpa only [State.take, Array.toList_append, List.append_assoc] using hordered
  comments_ordered := h.comments_ordered
  read_real hclean t ht := by
    rcases Array.mem_append.1 ht with ht | ht
    · exact h.read_real hclean t ht
    · exact h.real t (List.mem_of_mem_take (List.mem_toArray.1 ht))
  reports := h.reports

/-- A missing token fits where the one before it ends. -/
theorem Table.insert {kind : Token.Kind} (hkind : kind ≠ .eof) (hreported : s.errors ≠ #[]) :
    Table { s with read := s.read.push (.missing kind (match s.read.back? with
      | some t => t.finish
      | none => s.current.offset)) } where
  real := h.real
  read_kind t ht := by
    rcases Array.mem_push.1 ht with ht | rfl
    · exact h.read_kind t ht
    · exact hkind
  eof_kind := h.eof_kind
  ordered := by
    obtain ⟨hread, hunread, hnext⟩ := List.isChain_append.1 h.ordered
    have hcurrent : (s.unread ++ [s.eof]).head? = some s.current := by
      cases hunread : s.unread <;> simp [current, hunread]
    have hfinish : ∀ o, (Token.missing kind o).finish = o := fun o => by
      simp [Token.missing, Token.finish, Token.length]
    rw [Array.toList_push, List.append_assoc, List.singleton_append]
    refine List.isChain_append.2 ⟨hread, List.isChain_cons.2 ⟨?_, hunread⟩, ?_⟩
    · intro u hu
      rw [hcurrent, Option.mem_some_iff] at hu
      subst hu
      rw [hfinish]
      split
      · rename_i t ht
        exact h.finish_le_current ht
      · exact Nat.le_refl _
    · intro t ht u hu
      rw [Array.getLast?_toList] at ht
      simp only [List.head?_cons, Option.mem_some_iff] at hu
      subst hu
      rw [Option.mem_def.1 ht]
      exact Nat.le_refl _
  comments_ordered := h.comments_ordered
  read_real hclean := absurd hclean hreported
  reports := h.reports

/-- Other tokens take the place of the first ones, from where these begin to where they end. -/
theorem Table.replace {old new : List Token} {rest : List Token} (hunread : s.unread = old ++ rest)
    (hreal : ∀ t ∈ new, t.Real) (hchain : new.IsChain (·.finish ≤ ·.offset))
    (hhead : ∀ t ∈ new.head?, ∃ u ∈ old.head?, u.offset ≤ t.offset)
    (hlast : ∀ t ∈ new.getLast?, ∃ u ∈ old.getLast?, t.finish ≤ u.finish) (hne : new ≠ []) :
    (s.replace old.length new).Table where
  real t ht := by
    simp only [State.replace, hunread, List.drop_left, List.mem_append] at ht
    rcases ht with ht | ht
    · exact hreal t ht
    · exact h.real t (by rw [hunread]; exact List.mem_append_right old ht)
  read_kind := h.read_kind
  eof_kind := h.eof_kind
  ordered := by
    have hordered := h.ordered
    rw [hunread, List.append_assoc] at hordered
    obtain ⟨hread, htail, hnext⟩ := List.isChain_append.1 hordered
    obtain ⟨-, hrest, hbefore⟩ := List.isChain_append.1 htail
    simp only [State.replace, hunread, List.drop_left, List.append_assoc]
    refine List.isChain_append.2 ⟨hread, List.isChain_append.2 ⟨hchain, hrest, ?_⟩, ?_⟩
    · intro t ht v hv
      obtain ⟨u, hu, hle⟩ := hlast t ht
      exact Nat.le_trans hle (hbefore u hu v hv)
    · intro t ht v hv
      rw [List.head?_append_of_ne_nil _ hne] at hv
      obtain ⟨u, hu, hle⟩ := hhead v hv
      refine Nat.le_trans (hnext t ht u ?_) hle
      rw [List.head?_append, Option.mem_def.1 hu]
      rfl
  comments_ordered := h.comments_ordered
  read_real := h.read_real
  reports := h.reports

/-- No token ends behind the end of file. -/
theorem Table.finish_le {t : Token} (ht : t ∈ s.read.toList ++ (s.unread ++ [s.eof])) :
    t.finish ≤ s.eof.finish := by
  have hpairwise := Token.pairwise_of_ordered h.ordered
  rw [← List.append_assoc] at ht hpairwise
  rcases List.mem_append.1 ht with ht | ht
  · have hle := (List.pairwise_append.1 hpairwise).2.2 t ht s.eof (List.mem_singleton_self _)
    exact Nat.le_trans hle (Nat.le_add_right _ _)
  · rw [List.mem_singleton.1 ht]

theorem Table.current_finish_le : s.current.finish ≤ s.eof.finish := by
  refine h.finish_le (List.mem_append_right _ ?_)
  unfold current
  cases s.unread <;> simp

end Table

end State

/-! ## Splitting and merging -/

theorem spelling_pos (o : Operator) : 0 < o.spelling.utf8ByteSize := by
  cases o <;> decide

theorem real_operator (o : Operator) (offset : Nat) :
    Token.Real ⟨.operator o, o.spelling, offset⟩ where
  kind_ne_eof := nofun
  length_pos := spelling_pos o
  spelled o' ho := by
    injection ho with ho
    rw [← ho]
  punctuated := nofun
  worded := nofun

theorem spelling_afterAngle? {o rest : Operator} (h : afterAngle? o = some rest) :
    o.spelling.utf8ByteSize = 1 + rest.spelling.utf8ByteSize := by
  cases o <;> simp [afterAngle?] at h <;> subst h <;> decide

/-- No part of a split operator is a name. -/
theorem next?_splitAngle {t : Token} (h : t.Real) (rest : List Token) :
    Token.next? (splitAngle t ++ rest) = Token.next? (t :: rest) := by
  unfold splitAngle
  split
  · rename_i o hkind
    split
    · rename_i o' hafter
      rw [Token.next?_cons (Token.Real.isEmpty_eq h), List.cons_append,
        Token.next?_cons (Token.Real.isEmpty_eq (real_operator .gt _)), Token.isName, Token.isName, hkind]
      rfl
    · rfl
  · rfl

/-- Nor is an operator made of brackets, as their first one is none. -/
theorem next?_indexToken? {ts : List Token} {t : Token} {n : Nat} (hreal : ∀ u ∈ ts, u.Real)
    (hopen : kindAt ts = .punctuation .openSquare) (hindex : indexToken? ts = some (t, n)) :
    Token.next? ([t] ++ ts.drop n) = Token.next? ts := by
  unfold indexToken? at hindex
  split at hindex
  · rename_i left right rest
    have hleft : left.isName = false := by
      rw [Token.isName, show left.kind = _ from hopen]
      rfl
    rw [Token.next?_cons (Token.Real.isEmpty_eq (hreal left (List.mem_cons_self ..))), hleft,
      List.singleton_append]
    split at hindex
    · obtain ⟨rfl, -⟩ := Prod.mk.inj (Option.some.inj hindex)
      exact Token.next?_cons (Token.Real.isEmpty_eq (real_operator .indexEq _))
    · obtain ⟨rfl, -⟩ := Prod.mk.inj (Option.some.inj hindex)
      exact Token.next?_cons (Token.Real.isEmpty_eq (real_operator .index _))
  · cases hindex

theorem State.replace_self {s : State} {t : Token} {rest : List Token}
    (hunread : s.unread = t :: rest) : s.replace 1 [t] = s := by
  obtain ⟨_, _, _, unread, left, hleft, _, _, _, _⟩ := s
  subst hleft
  subst hunread
  simp [State.replace, Nat.add_comm]

/-- A split operator takes up what it took up before. -/
theorem State.Table.splitAngle {s : State} (h : s.Table) {t : Token} {rest : List Token}
    (hunread : s.unread = t :: rest) : (s.replace 1 (splitAngle t)).Table := by
  have hreal : t.Real := h.real t (by rw [hunread]; exact List.mem_cons_self ..)
  have hkept : (s.replace 1 [t]).Table := by rwa [State.replace_self hunread]
  unfold Grammar.splitAngle
  split
  · rename_i o hkind
    split
    · rename_i o' hafter
      have hfinish : t.finish = t.offset + (1 + o'.spelling.utf8ByteSize) := by
        rw [Token.finish, Token.length, hreal.spelled o hkind, spelling_afterAngle? hafter]
      refine @State.Table.replace s h [t] _ rest hunread ?_ ?_ ?_ ?_ (List.cons_ne_nil _ _)
      · intro u hu
        simp only [List.mem_cons, List.not_mem_nil, or_false] at hu
        rcases hu with rfl | rfl
        · exact real_operator .gt t.offset
        · exact real_operator o' (t.offset + 1)
      · exact List.isChain_pair.2 (Nat.le_refl _)
      · intro u hu
        obtain rfl := Option.some.inj hu
        exact ⟨t, rfl, Nat.le_refl _⟩
      · intro u hu
        obtain rfl := Option.some.inj hu
        refine ⟨t, rfl, ?_⟩
        rw [hfinish]
        exact Nat.le_of_eq (Nat.add_assoc ..)
    · exact hkept
  · exact hkept

/-- One operator takes the place of tokens that it does not reach beyond. -/
theorem State.Table.merge {s : State} (h : s.Table) {old rest : List Token} {first last : Token}
    {o : Operator} (hunread : s.unread = old ++ rest) (hfirst : old.head? = some first)
    (hlast : old.getLast? = some last)
    (hfinish : first.offset + o.spelling.utf8ByteSize ≤ last.finish) :
    (s.replace old.length [⟨.operator o, o.spelling, first.offset⟩]).Table := by
  refine h.replace hunread ?_ (List.isChain_singleton _) ?_ ?_ (List.cons_ne_nil _ _)
  · intro t ht
    rw [List.mem_singleton.1 ht]
    exact real_operator o first.offset
  · intro t ht
    obtain rfl := Option.some.inj ht
    exact ⟨first, hfirst, Nat.le_refl _⟩
  · intro t ht
    obtain rfl := Option.some.inj ht
    exact ⟨last, hlast, hfinish⟩

theorem State.Table.mergeIndex {s : State} (h : s.Table) {t : Token} {n : Nat}
    (hindex : indexToken? s.unread = some (t, n)) : (s.replace n [t]).Table := by
  unfold indexToken? at hindex
  split at hindex
  · rename_i left right rest hunread
    have hlength : ∀ u ∈ left :: right :: rest, 0 < u.length := fun u hu =>
      (h.real u (by rwa [hunread])).length_pos
    have hleft := hlength left (by simp)
    have hright := hlength right (by simp)
    have hordered := (List.isChain_append.1 h.ordered).2.1
    rw [hunread, List.cons_append, List.cons_append, List.isChain_cons_cons] at hordered
    have hnext : left.offset + left.length ≤ right.offset := hordered.1
    split at hindex
    · rename_i hassign
      cases rest with
      | nil => simp at hassign
      | cons e rest =>
        obtain ⟨rfl, rfl⟩ := Prod.mk.inj (Option.some.inj hindex)
        have he := hlength e (by simp)
        have htight : e.offset = right.offset + right.length := by
          simp only [List.head?_cons, Option.any_some, Bool.and_eq_true, beq_iff_eq] at hassign
          exact hassign.2
        refine @State.Table.merge s h [left, right, e] rest left e .indexEq hunread rfl rfl ?_
        show left.offset + 3 ≤ e.offset + e.length
        omega
    · obtain ⟨rfl, rfl⟩ := Prod.mk.inj (Option.some.inj hindex)
      refine @State.Table.merge s h [left, right] rest left right .index hunread rfl rfl ?_
      show left.offset + 2 ≤ right.offset + right.length
      omega
  · exact absurd hindex nofun

/-! ## Comments between tokens -/

/-- Whether the comment at an index starts before an offset. -/
def startsBefore (comments : Array Comment) (offset i : Nat) : Bool :=
  comments[i]?.any (·.offset < offset)

/-- The search ends between the comments that start before an offset and the others. -/
theorem firstCommentFrom_spec {comments : Array Comment} {offset low high : Nat}
    (hsorted : ∀ i j, i ≤ j → startsBefore comments offset j = true →
      startsBefore comments offset i = true) :
    (∀ i, low ≤ i → i < firstCommentFrom comments offset low high →
      startsBefore comments offset i = true) ∧
    (∀ i, firstCommentFrom comments offset low high ≤ i → i < high →
      startsBefore comments offset i = false) := by
  fun_induction firstCommentFrom comments offset low high with
  | case1 low high hlt middle hbefore ih =>
    refine ⟨fun i hlow hi => ?_, ih.2⟩
    rcases Nat.lt_or_ge middle i with hmi | hmi
    · exact ih.1 i hmi hi
    · exact hsorted i middle hmi hbefore
  | case2 low high hlt middle hafter ih =>
    refine ⟨ih.1, fun i hi hhigh => ?_⟩
    rcases Nat.lt_or_ge i middle with hmi | hmi
    · exact ih.2 i hi hmi
    · refine Bool.eq_false_iff.2 fun hi => hafter (hsorted middle i hmi hi)
  | case3 low high hge =>
    exact ⟨fun i hlow hi => absurd hi (Nat.not_lt.2 hlow), fun i hi hhigh => by omega⟩

theorem firstCommentFrom_le {comments : Array Comment} {offset low high : Nat} (h : low ≤ high) :
    firstCommentFrom comments offset low high ≤ high := by
  fun_induction firstCommentFrom comments offset low high with
  | case1 low high hlt middle hbefore ih => exact ih (by omega)
  | case2 low high hlt middle hafter ih =>
    have hle := ih (by omega)
    omega
  | case3 low high hge => exact h

theorem startsBefore_iff {comments : Array Comment} {offset i : Nat} :
    startsBefore comments offset i = true ↔
      ∃ h : i < comments.size, comments[i].offset < offset := by
  by_cases hi : i < comments.size <;> simp [startsBefore, hi]

theorem startsBefore_of_le {comments : Array Comment}
    (hsorted : comments.toList.Pairwise (·.offset < ·.offset)) (offset i j : Nat) (hij : i ≤ j)
    (hj : startsBefore comments offset j = true) : startsBefore comments offset i = true := by
  rcases Nat.lt_or_eq_of_le hij with hij | rfl
  · obtain ⟨hlt, hoffset⟩ := startsBefore_iff.1 hj
    have hbetween := List.pairwise_iff_getElem.1 hsorted i j (Nat.lt_trans hij hlt) hlt hij
    exact startsBefore_iff.2 ⟨Nat.lt_trans hij hlt, Nat.lt_trans hbetween hoffset⟩
  · exact hj

/-- A later offset is found no earlier. -/
theorem firstCommentFrom_mono {comments : Array Comment}
    (hsorted : comments.toList.Pairwise (·.offset < ·.offset)) {offset offset' : Nat}
    (hle : offset ≤ offset') :
    firstCommentFrom comments offset 0 comments.size ≤
      firstCommentFrom comments offset' 0 comments.size := by
  refine Nat.le_of_not_lt fun hlt => ?_
  obtain ⟨hbefore, -⟩ := @firstCommentFrom_spec comments offset 0 comments.size
    (startsBefore_of_le hsorted offset)
  obtain ⟨-, hafter⟩ := @firstCommentFrom_spec comments offset' 0 comments.size
    (startsBefore_of_le hsorted offset')
  -- The comment where the later search ends starts before the earlier offset.
  obtain ⟨hsize, hoffset⟩ := startsBefore_iff.1 (hbefore _ (Nat.zero_le _) hlt)
  have hnot := hafter _ (Nat.le_refl _) hsize
  rw [startsBefore_iff.2 ⟨hsize, Nat.lt_of_lt_of_le hoffset hle⟩] at hnot
  exact absurd hnot nofun

end Grammar

end DartAnalysis
