/-
  The comments of a gap. The two searches for comments cut a stretch out of the table
  (`mem_stretch_iff`), and counted from its end, `docRun` finds the last comment of it or a longest run
  of line comments (`documents_stretch`). A comment that begins before a token that was read also ends
  before it, as long as operators are only split and brackets only merged (`Respelled.clear`); so the
  stretch that is found from offsets alone is what lies between two tokens.
-/
import DartAnalysis.Proofs.Parse.Silence

namespace DartAnalysis

namespace Grammar

/-! ## What documentation is -/

section Documents

variable (comments : Array Comment) (gap : CommentId → Prop)

/-- The last comment of a gap. -/
def LastOf (c : CommentId) : Prop := gap c ∧ ∀ d, gap d → d ≤ c

/-- Nothing but line comments of the gap, from one comment to another. -/
def Lines (first last : CommentId) : Prop :=
  ∀ c, first ≤ c → c ≤ last → gap c ∧ isLineDoc (comments.getD c default) = true

/-- The comments that document what comes behind a gap. There are some if the last comment of the gap is
    documentation, and they end with it: it is there by itself, or with the longest run of line comments
    that ends with it. -/
structure Documents (run : List CommentId) : Prop where
  some_iff : run ≠ [] ↔ ∃ c, LastOf gap c ∧ (comments.getD c default).isDocumentation = true
  ends : run ≠ [] → ∃ first last, first ≤ last ∧ run = List.range' first (last + 1 - first) ∧
    LastOf gap last ∧ (isLineDoc (comments.getD last default) = false → first = last) ∧
    (isLineDoc (comments.getD last default) = true → Lines comments gap first last ∧
      ∀ first', Lines comments gap first' last → first ≤ first')

end Documents

/-- The documentation behind a gap stands in it. -/
theorem Documents.gap_of_mem {comments : Array Comment} {gap : CommentId → Prop}
    {run : List CommentId} (h : Documents comments gap run) {c : CommentId} (hc : c ∈ run) : gap c := by
  obtain ⟨first, last, hle, rfl, hlast, hsingle, hlines⟩ := h.ends (List.ne_nil_of_mem hc)
  obtain ⟨hlow, hhigh⟩ := List.mem_range'_1.1 hc
  rw [Nat.add_sub_cancel' (Nat.le_succ_of_le hle)] at hhigh
  have hhigh := Nat.le_of_lt_succ hhigh
  cases hline : isLineDoc (comments.getD last default) with
  | true => exact ((hlines hline).1 c hlow hhigh).1
  | false =>
    obtain rfl := hsingle hline
    exact Nat.le_antisymm hhigh hlow ▸ hlast.1

theorem isDocumentation_of_isLineDoc {c : Comment} (h : isLineDoc c = true) :
    c.isDocumentation = true :=
  (Bool.and_eq_true_iff.1 h).1

/-! ## Counting from the end -/

theorem docRun_cons (c : Comment) (cs : List Comment) :
    docRun (c :: cs) = if isLineDoc c then ((c :: cs).takeWhile isLineDoc).length
      else if c.isDocumentation then 1 else 0 := by
  rw [docRun]
  split
  · rw [List.takeWhile_cons_of_pos ‹_›, List.length_cons, Nat.add_comm]
  · rfl

/-- The run of those that satisfy `p` at the front of a list ends where it has to. -/
theorem getElem?_takeWhile_length {α : Type} (p : α → Bool) (l : List α) :
    (∀ i < (l.takeWhile p).length, ∃ a, l[i]? = some a ∧ p a = true) ∧
      ∀ a, l[(l.takeWhile p).length]? = some a → p a = false := by
  induction l with
  | nil => exact ⟨nofun, nofun⟩
  | cons b l ih =>
    by_cases hb : p b = true
    · rw [List.takeWhile_cons_of_pos hb, List.length_cons]
      refine ⟨fun i hi => ?_, ih.2⟩
      cases i with
      | zero => exact ⟨b, rfl, hb⟩
      | succ i => exact ih.1 i (Nat.lt_of_succ_lt_succ hi)
    · rw [List.takeWhile_cons_of_neg hb]
      refine ⟨nofun, fun a ha => ?_⟩
      obtain rfl : b = a := Option.some.inj ha
      exact Bool.eq_false_iff.2 hb

/-- The comments of a stretch, last first. -/
theorem getElem?_reverse_extract {comments : Array Comment} {start stop : Nat}
    (hstop : stop ≤ comments.size) {i : Nat} (hi : i < stop - start) :
    (comments.extract start stop).toList.reverse[i]? =
      some (comments.getD (stop - 1 - i) default) := by
  have hsize : (comments.extract start stop).toList.length = stop - start := by simp; omega
  have hindex : start + (stop - start - 1 - i) = stop - 1 - i := by omega
  have hlt : stop - 1 - i < comments.size := by omega
  rw [List.getElem?_reverse (by omega), hsize, Array.getElem?_toList, Array.getElem?_extract,
    if_pos (by omega), hindex]
  simp [hlt]

/-- What is counted from the end of a stretch of comments documents what comes behind it. -/
theorem documents_stretch {comments : Array Comment} {gap : CommentId → Prop} {start stop : Nat}
    (hle : start ≤ stop) (hstop : stop ≤ comments.size)
    (hgap : ∀ c : Nat, gap c ↔ start ≤ c ∧ c < stop) :
    Documents comments gap
      (List.range' (stop - docRun (comments.extract start stop).toList.reverse)
        (docRun (comments.extract start stop).toList.reverse)) := by
  have hget := @getElem?_reverse_extract comments start stop hstop
  have hlength : (comments.extract start stop).toList.reverse.length = stop - start := by
    simp
    omega
  generalize (comments.extract start stop).toList.reverse = cs at hget hlength
  cases cs with
  | nil =>
    have hempty (c : Nat) : ¬ gap c := fun hc => by
      have hbounds := (hgap c).1 hc
      simp only [List.length_nil] at hlength
      omega
    refine ⟨⟨fun hne => absurd rfl hne, ?_⟩, fun hne => absurd rfl hne⟩
    rintro ⟨c, ⟨hc, -⟩, -⟩
    exact absurd hc (hempty c)
  | cons d cs =>
    rw [List.length_cons] at hlength
    have hlast : LastOf gap (stop - 1) :=
      ⟨(hgap _).2 ⟨by omega, by omega⟩, fun c hc => Nat.le_sub_one_of_lt ((hgap c).1 hc).2⟩
    have hunique {c : Nat} (hc : LastOf gap c) : c = stop - 1 :=
      Nat.le_antisymm (hlast.2 c hc.1) (hc.2 _ hlast.1)
    have hd : d = comments.getD (stop - 1) default := by
      simpa using hget (show 0 < stop - start by omega)
    rw [docRun_cons]
    by_cases hline : isLineDoc d = true
    · -- The run of line comments is not empty, and ends at the last comment.
      rw [if_pos hline]
      obtain ⟨hlines, hbefore⟩ := getElem?_takeWhile_length isLineDoc (d :: cs)
      have hpos : 0 < ((d :: cs).takeWhile isLineDoc).length := by
        rw [List.takeWhile_cons_of_pos hline]
        exact Nat.succ_pos _
      have hbound : ((d :: cs).takeWhile isLineDoc).length ≤ stop - start := by
        rw [← hlength]
        exact (List.takeWhile_sublist isLineDoc).length_le
      generalize ((d :: cs).takeWhile isLineDoc).length = run at hlines hbefore hpos hbound
      have hcount : stop - 1 + 1 - (stop - run) = run := by omega
      refine ⟨⟨fun _ => ⟨stop - 1, hlast, hd ▸ isDocumentation_of_isLineDoc hline⟩, fun _ => ?_⟩,
        fun _ => ⟨stop - run, stop - 1, (by omega : stop - run ≤ stop - 1), by rw [hcount], hlast,
          fun hnot => ?_, fun _ => ⟨fun (c : Nat) (hc : stop - run ≤ c) (hc' : c ≤ stop - 1) =>
            ⟨(hgap c).2 (by omega), ?_⟩, fun (first : Nat) hfirst => ?_⟩⟩⟩
      · simp only [ne_eq, List.range'_eq_nil_iff]
        omega
      · rw [← hd, hline] at hnot
        cases hnot
      · obtain ⟨a, ha, hline⟩ := hlines (stop - 1 - c) (by omega)
        have hindex : stop - 1 - (stop - 1 - c) = c := by omega
        rw [hget (by omega), hindex] at ha
        rwa [Option.some.inj ha]
      · refine Nat.le_of_not_lt fun hlt => ?_
        -- The comment before the run is no line comment.
        obtain ⟨hin, hline⟩ := hfirst (stop - 1 - run) (by omega : first ≤ stop - 1 - run)
          (Nat.sub_le _ _)
        have hlow := ((hgap _).1 hin).1
        rw [hbefore _ (hget (by omega))] at hline
        cases hline
    · rw [if_neg hline]
      by_cases hdoc : d.isDocumentation = true
      · rw [if_pos hdoc]
        have hcount : stop - 1 + 1 - (stop - 1) = 1 := by omega
        refine ⟨⟨fun _ => ⟨stop - 1, hlast, hd ▸ hdoc⟩, fun _ => List.cons_ne_nil _ _⟩,
          fun _ => ⟨stop - 1, stop - 1, Nat.le_refl _, by rw [hcount], hlast, fun _ => rfl,
            fun hnot => absurd (hd ▸ hnot) hline⟩⟩
      · rw [if_neg hdoc]
        refine ⟨⟨fun hne => absurd rfl hne, ?_⟩, fun hne => absurd rfl hne⟩
        rintro ⟨c, hc, hcdoc⟩
        rw [hunique hc, ← hd] at hcdoc
        exact absurd hcdoc hdoc

/-! ## Between two offsets -/

/-- The comments that are documentation between two offsets. -/
def documentation (comments : Array Comment) (lower upper : Nat) : List CommentId :=
  let stop := firstCommentFrom comments upper 0 comments.size
  let start := firstCommentFrom comments lower 0 comments.size
  let run := docRun (comments.extract start stop).toList.reverse
  (List.range run).map (stop - run + ·)

theorem getD_eq_getElem {comments : Array Comment} {c : CommentId} (h : c < comments.size) :
    comments.getD c default = comments[c] := by
  simp [h]

/-- The comments between two searches are those that begin between the two offsets. -/
theorem mem_stretch_iff {comments : Array Comment}
    (hsorted : comments.toList.Pairwise (·.offset < ·.offset)) (lower upper : Nat) (c : CommentId) :
    firstCommentFrom comments lower 0 comments.size ≤ c ∧
        c < firstCommentFrom comments upper 0 comments.size ↔
      c < comments.size ∧ lower ≤ (comments.getD c default).offset ∧
        (comments.getD c default).offset < upper := by
  obtain ⟨hbelow, habove⟩ := @firstCommentFrom_spec comments lower 0 comments.size
    (startsBefore_of_le hsorted lower)
  obtain ⟨hbelow', habove'⟩ := @firstCommentFrom_spec comments upper 0 comments.size
    (startsBefore_of_le hsorted upper)
  constructor
  · rintro ⟨hc, hc'⟩
    obtain ⟨hsize, hupper⟩ := startsBefore_iff.1 (hbelow' c (Nat.zero_le _) hc')
    rw [getD_eq_getElem hsize]
    refine ⟨hsize, Nat.le_of_not_lt fun hlt => ?_, hupper⟩
    have hnot := habove c hc hsize
    rw [startsBefore_iff.2 ⟨hsize, hlt⟩] at hnot
    cases hnot
  · rintro ⟨hsize, hlower, hupper⟩
    rw [getD_eq_getElem hsize] at hlower hupper
    constructor
    · refine Nat.le_of_not_lt fun hlt => ?_
      obtain ⟨_, hoffset⟩ := startsBefore_iff.1 (hbelow c (Nat.zero_le c) hlt)
      exact absurd hoffset (Nat.not_lt.2 hlower)
    · refine Nat.lt_of_not_le fun hle => ?_
      have hnot := habove' c hle hsize
      rw [startsBefore_iff.2 ⟨hsize, hupper⟩] at hnot
      cases hnot

theorem documents_documentation {comments : Array Comment}
    (hsorted : comments.toList.Pairwise (·.offset < ·.offset)) {lower upper : Nat}
    (hle : lower ≤ upper) :
    Documents comments (fun c => c < comments.size ∧ lower ≤ (comments.getD c default).offset ∧
      (comments.getD c default).offset < upper) (documentation comments lower upper) := by
  unfold documentation
  dsimp only
  rw [← List.range'_eq_map_range]
  exact documents_stretch (firstCommentFrom_mono hsorted hle) (firstCommentFrom_le (Nat.zero_le _))
    fun c => (mem_stretch_iff hsorted lower upper c).symm

/-! ## Comments and tokens -/

/-- No comment reaches into the token, apart from brackets that were merged around it. -/
structure Clear (comments : Array Comment) (t : Token) : Prop where
  spelled : ∀ o, t.kind = .operator o → t.lexeme = o.spelling
  before : ∀ c ∈ comments, c.offset < t.offset → c.finish ≤ t.offset
  apart : ∀ o rest, t.kind = .operator o → afterAngle? o = some rest →
    ∀ c ∈ comments, c.finish ≤ t.offset ∨ t.finish ≤ c.offset

/-- An operator that cannot be split stands where another token did. -/
theorem Clear.operator {comments : Array Comment} {t : Token} (h : Clear comments t) {o : Operator}
    (hnone : afterAngle? o = none) : Clear comments ⟨.operator o, o.spelling, t.offset⟩ where
  spelled o' ho := by
    injection ho with ho
    rw [← ho]
  before := h.before
  apart o' rest ho hrest := by
    injection ho with ho
    rw [← ho, hnone] at hrest
    cases hrest

/-- What is left of a split operator. -/
theorem Clear.rest {comments : Array Comment} {t : Token} (h : Clear comments t) {o rest : Operator}
    (hkind : t.kind = .operator o) (hafter : afterAngle? o = some rest) :
    Clear comments ⟨.operator rest, rest.spelling, t.offset + 1⟩ := by
  have hfinish : t.finish = t.offset + 1 + rest.spelling.utf8ByteSize := by
    rw [Token.finish, Token.length, h.spelled o hkind, spelling_afterAngle? hafter, Nat.add_assoc]
  have hpos := spelling_pos rest
  have hapart := h.apart o rest hkind hafter
  refine ⟨fun o' ho => ?_, fun c hc hlt => ?_, fun _ _ _ _ c hc => ?_⟩
  · injection ho with ho
    rw [← ho]
  · have hlt : c.offset < t.offset + 1 := hlt
    show c.finish ≤ t.offset + 1
    rcases hapart c hc with hle | hle <;> omega
  · show c.finish ≤ t.offset + 1 ∨ t.offset + 1 + rest.spelling.utf8ByteSize ≤ c.offset
    rcases hapart c hc with hle | hle <;> omega

theorem Respelling.clear {comments : Array Comment} {ts us : List Token} (h : Respelling ts us)
    (hclear : ∀ t ∈ ts, Clear comments t) : ∀ t ∈ us, Clear comments t := by
  intro u hu
  cases h with
  | @split ts us t o rest hkind hafter =>
    have ht := hclear t (by simp)
    simp only [List.mem_append, List.mem_cons] at hu
    rcases hu with hu | rfl | rfl | hu
    · exact hclear u (by simp [hu])
    · exact ht.operator rfl
    · exact ht.rest hkind hafter
    · exact hclear u (by simp [hu])
  | @index ts us keyword left right hkeyword hopen hclose =>
    simp only [List.mem_append, List.mem_cons] at hu
    rcases hu with hu | rfl | rfl | hu
    · exact hclear u (by simp [hu])
    · exact hclear u (by simp)
    · exact (hclear left (by simp)).operator rfl
    · exact hclear u (by simp [hu])
  | @indexEq ts us keyword left right equals hkeyword hopen hclose hequals htight =>
    simp only [List.mem_append, List.mem_cons] at hu
    rcases hu with hu | rfl | rfl | hu
    · exact hclear u (by simp [hu])
    · exact hclear u (by simp)
    · exact (hclear left (by simp)).operator rfl
    · exact hclear u (by simp [hu])

theorem Respelled.clear {comments : Array Comment} {ts us : List Token} (h : Respelled ts us)
    (hclear : ∀ t ∈ ts, Clear comments t) : ∀ t ∈ us, Clear comments t := by
  induction h with
  | refl => exact hclear
  | tail _ hstep ih => exact hstep.clear ih

/-- Scanned tokens and comments lie apart. -/
theorem clear_of_cuts {scan : Scan} {ps : List Lexer.Piece} (h : Lexer.Cuts scan ps) :
    ∀ t ∈ scan.tokens.toList, Clear scan.comments t := by
  intro t ht
  have hapart {c : Comment} (hc : c ∈ scan.comments) :=
    h.token_comment_apart (Array.mem_toList_iff.1 ht) hc
  have hspan : t.offset ≤ t.finish := Nat.le_add_right _ _
  refine ⟨fun o ho => ?_, fun c hc hlt => ?_, fun _ _ _ _ c hc => (hapart hc).symm⟩
  · rw [h.tokens, List.mem_append, List.mem_singleton] at ht
    rcases ht with ht | rfl
    · exact String.toList_injective ((h.mem_token ht).2.1.2.1 o ho)
    · cases ho
  · rcases hapart hc with hle | hle <;> omega

end Grammar

end DartAnalysis
