/-
  Lines and columns are exact. The starts of a text are 0 and what follows each line end, in
  increasing order (`mem_startsFrom`, `increasing_ofText`). Bisection keeps a window whose first start
  is not past the offset and behind which every start is (`Window`), so it ends at the last start that
  is not past the offset (`window_lineIndex`). Main statement: line and column of every offset of
  every text, in terms of its line ends (`ofText_exact`).
-/
import DartAnalysis.LineMap
import DartAnalysis.Text.Basic
import Mathlib

namespace DartAnalysis

/-- Reading order. -/
def Location.Before (a b : Location) : Prop :=
  a.line < b.line ∨ a.line = b.line ∧ a.column < b.column

theorem Location.Before.irrefl (a : Location) : ¬ a.Before a := by
  simp [Location.Before]

namespace LineMap

open Text

/-! ## Line ends -/

/-- A line of the text ends right before `offset`: the character there is a line feed, or a carriage
    return that no line feed follows. -/
def EndsAt (text : List Char) (offset : Nat) : Prop :=
  ∃ before c after, text = before ++ c :: after ∧ byteSize before + c.utf8Size = offset ∧
    (c = '\n' ∨ c = '\r' ∧ after.head? ≠ some '\n')

theorem not_endsAt_nil (p : Nat) : ¬ EndsAt [] p := by
  rintro ⟨before, c, after, htext, -⟩
  exact absurd htext.symm (by simp)

theorem endsAt_cons {c : Char} {cs : List Char} {p : Nat} :
    EndsAt (c :: cs) p ↔
      (p = c.utf8Size ∧ (c = '\n' ∨ c = '\r' ∧ cs.head? ≠ some '\n')) ∨
        ∃ q, EndsAt cs q ∧ p = c.utf8Size + q := by
  constructor
  · rintro ⟨before, d, after, htext, hsize, hend⟩
    cases before with
    | nil =>
      obtain ⟨rfl, rfl⟩ := List.cons.inj htext
      rw [byteSize_nil, Nat.zero_add] at hsize
      exact .inl ⟨hsize.symm, hend⟩
    | cons b before =>
      obtain ⟨rfl, rfl⟩ := List.cons.inj htext
      rw [byteSize_cons, Nat.add_assoc] at hsize
      exact .inr ⟨_, ⟨before, d, after, rfl, rfl, hend⟩, hsize.symm⟩
  · rintro (⟨rfl, hend⟩ | ⟨q, ⟨before, d, after, rfl, rfl, hend⟩, rfl⟩)
    · exact ⟨[], c, cs, rfl, by simp, hend⟩
    · exact ⟨c :: before, d, after, rfl, by rw [byteSize_cons, Nat.add_assoc], hend⟩

/-! ## Starts -/

theorem mem_startsFrom {offset p : Nat} {cs : List Char} :
    p ∈ startsFrom offset cs ↔ ∃ q, EndsAt cs q ∧ p = offset + q := by
  induction cs generalizing offset with
  | nil => simp [startsFrom, not_endsAt_nil]
  | cons c cs ih =>
    have hrest : p ∈ startsFrom (offset + c.utf8Size) cs ↔
        ∃ q, (∃ r, EndsAt cs r ∧ q = c.utf8Size + r) ∧ p = offset + q := by
      rw [ih]
      constructor
      · rintro ⟨r, hends, rfl⟩
        exact ⟨_, ⟨r, hends, rfl⟩, Nat.add_assoc ..⟩
      · rintro ⟨q, ⟨r, hends, rfl⟩, rfl⟩
        exact ⟨r, hends, (Nat.add_assoc ..).symm⟩
    simp only [startsFrom, endsAt_cons, or_and_right, exists_or]
    split
    · rename_i hend
      simp only [Bool.or_eq_true, Bool.and_eq_true, decide_eq_true_eq] at hend
      rw [List.mem_cons, hrest]
      refine or_congr ⟨fun h => ⟨_, ⟨rfl, hend⟩, h⟩, ?_⟩ Iff.rfl
      rintro ⟨q, ⟨rfl, -⟩, h⟩
      exact h
    · rename_i hend
      simp only [Bool.or_eq_true, Bool.and_eq_true, decide_eq_true_eq] at hend
      rw [hrest]
      refine (or_iff_right ?_).symm
      rintro ⟨q, ⟨-, h⟩, -⟩
      exact hend h

theorem lt_of_mem_startsFrom {offset p : Nat} {cs : List Char} (h : p ∈ startsFrom offset cs) :
    offset < p := by
  obtain ⟨q, ⟨before, c, after, -, rfl, -⟩, rfl⟩ := mem_startsFrom.1 h
  have := c.utf8Size_pos
  omega

theorem pairwise_startsFrom (offset : Nat) (cs : List Char) :
    (startsFrom offset cs).Pairwise (· < ·) := by
  induction cs generalizing offset with
  | nil => exact .nil
  | cons c cs ih =>
    rw [startsFrom]
    split
    · exact .cons (fun p hp => lt_of_mem_startsFrom hp) (ih _)
    · exact ih _

/-- Every line begins behind the one before it. -/
def Increasing (m : LineMap) : Prop := m.starts.toList.Pairwise (· < ·)

theorem increasing_ofText (text : String) : (ofText text).Increasing :=
  .cons (fun _ hp => lt_of_mem_startsFrom hp) (pairwise_startsFrom 0 text.toList)

theorem mem_starts_ofText {text : String} {p : Nat} :
    p ∈ (ofText text).starts ↔ p = 0 ∨ EndsAt text.toList p := by
  simp [ofText, mem_startsFrom]

theorem Increasing.lt {m : LineMap} (h : m.Increasing) {i j : Nat} (hij : i < j)
    (hj : j < m.starts.size) : m.starts.getD i 0 < m.starts.getD j 0 := by
  have hlt := List.pairwise_iff_getElem.1 h i j (by simp; omega) (by simpa) hij
  simpa [Array.getD_eq_getD_getElem?, Nat.lt_trans hij hj, hj] using hlt

/-! ## Bisection -/

/-- A window of starts in which the line of `offset` is to be found. -/
structure Window (starts : Array Nat) (offset base size : Nat) : Prop where
  nonempty : 0 < size
  fits : base + size ≤ starts.size
  below : starts.getD base 0 ≤ offset
  above : ∀ j, base + size ≤ j → j < starts.size → offset < starts.getD j 0

variable {m : LineMap} {offset : Nat}

/-- What is left of a window of two or more starts when one half of it has been left out. -/
theorem Window.halve (hm : m.Increasing) {base size : Nat} (h : Window m.starts offset base size)
    (hsize : ¬ size ≤ 1) :
    if offset < m.starts.getD (base + size / 2) 0 then
      Window m.starts offset base (size - size / 2)
    else Window m.starts offset (base + size / 2) (size - size / 2) := by
  have hfits := h.fits
  split
  · rename_i hpast
    refine ⟨by omega, by omega, h.below, fun j hj hlt => ?_⟩
    rcases Nat.lt_or_eq_of_le (show base + size / 2 ≤ j by omega) with hbehind | rfl
    · exact Nat.lt_trans hpast (hm.lt hbehind hlt)
    · exact hpast
  · rename_i hpast
    exact ⟨by omega, by omega, Nat.le_of_not_lt hpast, fun j hj hlt => h.above j (by omega) hlt⟩

/-- Bisection narrows a window down to one start. -/
theorem Window.bisect (hm : m.Increasing) {base size : Nat} (h : Window m.starts offset base size) :
    Window m.starts offset (bisect m.starts offset base size) 1 := by
  fun_induction LineMap.bisect m.starts offset base size with
  | case1 base size hsize =>
    obtain rfl : size = 1 := Nat.le_antisymm hsize h.nonempty
    exact h
  | case2 base size hsize half hpast ih =>
    have hhalf := h.halve hm hsize
    rw [if_pos hpast] at hhalf
    exact ih hhalf
  | case3 base size hsize half hpast ih =>
    have hhalf := h.halve hm hsize
    rw [if_neg hpast] at hhalf
    exact ih hhalf

theorem getD_starts_zero (m : LineMap) : m.starts.getD 0 0 = 0 := by
  rw [Array.getD_eq_getD_getElem?, m.first, Option.getD_some]

theorem size_pos (m : LineMap) : 0 < m.starts.size :=
  (Array.getElem?_eq_some_iff.1 m.first).1

/-- The line of an offset begins at or before it, and each later line behind it. -/
theorem window_lineIndex (hm : m.Increasing) (offset : Nat) :
    Window m.starts offset (m.lineIndex offset) 1 := by
  have hall : Window m.starts offset 0 m.starts.size :=
    ⟨m.size_pos, (Nat.zero_add _).le, by rw [getD_starts_zero]; exact Nat.zero_le _,
      fun j hj hlt => absurd hlt (by omega)⟩
  have hfound := hall.bisect hm
  rw [lineIndex, if_pos hfound.below]
  exact hfound

theorem start_le (hm : m.Increasing) (offset : Nat) :
    m.starts.getD (m.lineIndex offset) 0 ≤ offset :=
  (window_lineIndex hm offset).below

theorem lineIndex_lt (hm : m.Increasing) (offset : Nat) : m.lineIndex offset < m.starts.size :=
  (window_lineIndex hm offset).fits

theorem getElem?_lineIndex (hm : m.Increasing) (offset : Nat) :
    m.starts[m.lineIndex offset]? = some (m.starts.getD (m.lineIndex offset) 0) := by
  simp [Array.getD_eq_getD_getElem?, lineIndex_lt hm offset]

theorem lt_start (hm : m.Increasing) {j : Nat} (hj : m.lineIndex offset < j)
    (hlt : j < m.starts.size) : offset < m.starts.getD j 0 :=
  (window_lineIndex hm offset).above j hj hlt

/-! ## Locations -/

theorem lineIndex_mono (hm : m.Increasing) {a b : Nat} (h : a ≤ b) :
    m.lineIndex a ≤ m.lineIndex b := by
  by_contra hlt
  have hpast := lt_start hm (Nat.lt_of_not_le hlt) (lineIndex_lt hm a)
  have := start_le hm a
  omega

theorem before_of_lt (hm : m.Increasing) {a b : Nat} (h : a < b) :
    (m.location a).Before (m.location b) := by
  rcases Nat.lt_or_eq_of_le (lineIndex_mono hm h.le) with hlines | hlines
  · exact .inl (Nat.succ_lt_succ hlines)
  · refine .inr ⟨congrArg (· + 1) hlines, ?_⟩
    have hstart := start_le hm a
    simp only [location, hlines] at hstart ⊢
    omega

theorem before_iff (hm : m.Increasing) {a b : Nat} :
    (m.location a).Before (m.location b) ↔ a < b := by
  refine ⟨fun h => ?_, before_of_lt hm⟩
  rcases Nat.lt_trichotomy a b with hab | rfl | hba
  · exact hab
  · exact absurd h (Location.Before.irrefl _)
  · have hback := before_of_lt hm hba
    simp only [Location.Before] at h hback
    omega

/-- Behind the first line, those up to the line of an offset are the ones that begin at or before it. -/
theorem mem_take_tail_iff (hm : m.Increasing) {offset p : Nat} :
    p ∈ m.starts.toList.tail.take (m.lineIndex offset) ↔ p ∈ m.starts.toList.tail ∧ p ≤ offset := by
  have hget : ∀ k (hk : k < m.starts.toList.tail.length),
      m.starts.toList.tail[k] = m.starts.getD (k + 1) 0 := by
    intro k hk
    rw [List.length_tail, Array.length_toList] at hk
    have hlt : k + 1 < m.starts.size := by omega
    simp [Array.getD_eq_getD_getElem?, hlt]
  constructor
  · intro hmem
    obtain ⟨k, hk, rfl⟩ := List.mem_take_iff_getElem.1 hmem
    refine ⟨List.getElem_mem _, ?_⟩
    rw [hget]
    rcases Nat.lt_or_eq_of_le (show k + 1 ≤ m.lineIndex offset by omega) with hlt | heq
    · exact Nat.le_trans (hm.lt hlt (lineIndex_lt hm offset)).le (start_le hm offset)
    · exact heq ▸ start_le hm offset
  · rintro ⟨hmem, hle⟩
    obtain ⟨k, hk, rfl⟩ := List.mem_iff_getElem.1 hmem
    have hsize := hk
    rw [List.length_tail, Array.length_toList] at hsize
    rw [hget] at hle
    have hline : ¬ m.lineIndex offset < k + 1 := fun hlt =>
      Nat.not_lt.2 hle (lt_start hm hlt (by omega))
    exact List.mem_take_iff_getElem.2 ⟨k, by omega, rfl⟩

theorem ncard_tail_le (hm : m.Increasing) (offset : Nat) :
    {p | p ∈ m.starts.toList.tail ∧ p ≤ offset}.ncard = m.lineIndex offset := by
  have hnodup : (m.starts.toList.tail.take (m.lineIndex offset)).Nodup :=
    (((List.Pairwise.imp Nat.ne_of_lt hm).sublist (List.tail_sublist _)).sublist
      (List.take_sublist ..))
  have hset : {p | p ∈ m.starts.toList.tail ∧ p ≤ offset} =
      ((m.starts.toList.tail.take (m.lineIndex offset)).toFinset : Set Nat) := by
    ext p
    rw [List.coe_toFinset]
    exact (mem_take_tail_iff hm).symm
  have hlt := lineIndex_lt hm offset
  rw [hset, Set.ncard_coe_finset, List.toFinset_card_of_nodup hnodup, List.length_take,
    List.length_tail, Array.length_toList]
  omega

/-- The starts of a text are 0 and what follows its line ends, each once and in increasing order. The
    line of an offset, also of one behind the text, is one more than there are line ends up to it, and
    the column counts from the start of that line, which is not behind the offset. So later offsets
    have later locations. -/
theorem ofText_exact (text : String) :
    ((ofText text).starts[0]? = some 0 ∧ (ofText text).starts.toList.Pairwise (· < ·) ∧
      ∀ p, p ∈ (ofText text).starts ↔ p = 0 ∨ EndsAt text.toList p) ∧
    (∀ offset, ∃ start,
      (ofText text).starts[((ofText text).location offset).line - 1]? = some start ∧
      ((ofText text).location offset).line =
        1 + {p | EndsAt text.toList p ∧ p ≤ offset}.ncard ∧
      1 ≤ ((ofText text).location offset).column ∧ start ≤ offset ∧
      start + (((ofText text).location offset).column - 1) = offset) ∧
    Function.Injective (ofText text).location ∧
    ∀ a b, ((ofText text).location a).Before ((ofText text).location b) ↔ a < b := by
  have hm := increasing_ofText text
  refine ⟨⟨(ofText text).first, hm, fun p => mem_starts_ofText⟩, fun offset => ?_,
    fun a b heq => ?_, fun a b => before_iff hm⟩
  · refine ⟨_, getElem?_lineIndex hm offset, ?_, Nat.succ_pos _, start_le hm offset, ?_⟩
    · have htail : ∀ p, p ∈ (ofText text).starts.toList.tail ↔ EndsAt text.toList p := fun p => by
        simp [ofText, mem_startsFrom]
      simp only [← htail, ncard_tail_le hm, location]
      exact Nat.add_comm ..
    · simp only [location]
      exact Nat.add_sub_of_le (start_le hm offset)
  · rcases Nat.lt_trichotomy a b with hlt | rfl | hlt
    · exact absurd (heq ▸ before_of_lt hm hlt) (Location.Before.irrefl _)
    · rfl
    · exact absurd (heq ▸ before_of_lt hm hlt) (Location.Before.irrefl _)

/-- A carriage return and the line feed behind it end one line, two carriage returns two. -/
example : (ofText "a\r\nb\r\rc").starts = #[0, 3, 5, 6] ∧
    (ofText "a\r\nb\r\rc").location 2 = ⟨1, 3⟩ ∧
    (ofText "a\r\nb\r\rc").location 9 = ⟨4, 4⟩ := by cbv

end LineMap

end DartAnalysis
