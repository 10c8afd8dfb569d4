/-
  Normal forms of paths. What is kept of the segments of a path is a stack in which `..` stands at the
  bottom only (`Stacked`), and pushing keeps it one (`Stacked.push`). Pushing the segments of such a
  stack anew gives the same stack (`Stacked.foldl_reverse`), and a normal form has those segments
  (`segments_join`), so it is its own normal form (`normalize_normalize`).

  A reference below a directory comes to lie in that directory unless it climbs (`foldl_push_above`).
-/
import DartAnalysis.Source
import Mathlib

namespace DartAnalysis

/-! ## Pieces between separators -/

namespace Text

variable {isSeparator : Char → Bool}

theorem split_ne_nil (cs : List Char) : split isSeparator cs ≠ [] := by
  cases cs with
  | nil => exact List.cons_ne_nil _ _
  | cons c cs =>
    rw [split]
    split
    · exact List.cons_ne_nil _ _
    · split <;> exact List.cons_ne_nil _ _

theorem split_cons_of_separator {c : Char} (hc : isSeparator c) (cs : List Char) :
    split isSeparator (c :: cs) = [] :: split isSeparator cs := by
  rw [split, if_pos hc]

theorem split_cons_of_not_separator {c : Char} (hc : ¬ isSeparator c) {cs p : List Char}
    {ps : List (List Char)} (hcs : split isSeparator cs = p :: ps) :
    split isSeparator (c :: cs) = (c :: p) :: ps := by
  rw [split, if_neg hc, hcs]

/-- The pieces on both sides of a separator. -/
theorem split_append {c : Char} (hc : isSeparator c) (cs ds : List Char) :
    split isSeparator (cs ++ c :: ds) = split isSeparator cs ++ split isSeparator ds := by
  induction cs with
  | nil => exact split_cons_of_separator hc ds
  | cons b cs ih =>
    rw [List.cons_append]
    by_cases hb : isSeparator b
    · rw [split_cons_of_separator hb, split_cons_of_separator hb, ih, List.cons_append]
    · obtain ⟨p, ps, hcs⟩ := List.exists_cons_of_ne_nil (@split_ne_nil isSeparator cs)
      rw [split_cons_of_not_separator hb hcs, List.cons_append]
      rw [hcs, List.cons_append] at ih
      exact split_cons_of_not_separator hb ih

theorem split_of_forall {cs : List Char} (h : ∀ c ∈ cs, ¬ isSeparator c) :
    split isSeparator cs = [cs] := by
  induction cs with
  | nil => rfl
  | cons c cs ih =>
    exact split_cons_of_not_separator (h c (List.mem_cons_self ..))
      (ih fun d hd => h d (List.mem_cons_of_mem c hd))

/-- A character of a piece is one of the text, and none that separates. -/
theorem of_mem_split {cs p : List Char} (hp : p ∈ split isSeparator cs) {c : Char} (hc : c ∈ p) :
    c ∈ cs ∧ ¬ isSeparator c := by
  induction cs generalizing p with
  | nil => rw [List.mem_singleton.1 hp] at hc; exact absurd hc (by simp)
  | cons b cs ih =>
    by_cases hb : isSeparator b
    · rw [split_cons_of_separator hb] at hp
      rcases List.mem_cons.1 hp with rfl | hp
      · exact absurd hc (by simp)
      · exact (ih hp hc).imp_left (List.mem_cons_of_mem b)
    · obtain ⟨q, qs, hcs⟩ := List.exists_cons_of_ne_nil (@split_ne_nil isSeparator cs)
      rw [split_cons_of_not_separator hb hcs] at hp
      rw [hcs] at ih
      rcases List.mem_cons.1 hp with rfl | hp
      · rcases List.mem_cons.1 hc with rfl | hc
        · exact ⟨List.mem_cons_self .., hb⟩
        · exact (ih (List.mem_cons_self ..) hc).imp_left (List.mem_cons_of_mem b)
      · exact (ih (List.mem_cons_of_mem q hp) hc).imp_left (List.mem_cons_of_mem b)

end Text

namespace Path

open Text

/-! ## Segments -/

/-- The segment that leads up. -/
abbrev up : List Char := ['.', '.']

theorem segments_append (cs ds : List Char) :
    segments (cs ++ '/' :: ds) = segments cs ++ segments ds :=
  split_append (by decide) cs ds

theorem segments_of_forall {cs : List Char} (h : ∀ c ∈ cs, ¬ isSeparator c) : segments cs = [cs] :=
  split_of_forall h

theorem join_cons {s : List Char} {ss : List (List Char)} (h : ss ≠ []) :
    join (s :: ss) = s ++ '/' :: join ss := by
  obtain ⟨t, ts, rfl⟩ := List.exists_cons_of_ne_nil h
  rfl

theorem segments_join {ss : List (List Char)} (h : ∀ s ∈ ss, ∀ c ∈ s, ¬ isSeparator c)
    (hne : ss ≠ []) : segments (join ss) = ss := by
  induction ss with
  | nil => exact absurd rfl hne
  | cons s ss ih =>
    have hs := segments_of_forall (h s (List.mem_cons_self ..))
    by_cases hss : ss = []
    · subst hss
      exact hs
    · rw [join_cons hss, segments_append, hs, ih (fun t ht => h t (List.mem_cons_of_mem s ht)) hss,
        List.singleton_append]

theorem mem_join {c : Char} {ss : List (List Char)} (h : c ∈ join ss) :
    c = '/' ∨ ∃ s ∈ ss, c ∈ s := by
  induction ss with
  | nil => exact absurd h (by simp [join])
  | cons s ss ih =>
    by_cases hss : ss = []
    · subst hss
      exact .inr ⟨s, List.mem_cons_self .., h⟩
    · rw [join_cons hss, List.mem_append, List.mem_cons] at h
      rcases h with h | rfl | h
      · exact .inr ⟨s, List.mem_cons_self .., h⟩
      · exact .inl rfl
      · exact (ih h).imp_right fun ⟨t, ht, hc⟩ => ⟨t, List.mem_cons_of_mem s ht, hc⟩

/-! ## Stacks of kept segments -/

/-- Segments that are kept, innermost first: names, and below them the ways up that a relative path
    begins with. -/
structure Stacked (absolute : Bool) (kept : List (List Char)) : Prop where
  ne_nil : ∀ s ∈ kept, s ≠ []
  ne_dot : ∀ s ∈ kept, s ≠ ['.']
  plain : ∀ s ∈ kept, ∀ c ∈ s, ¬ isSeparator c
  ups : ∃ names n, kept = names ++ List.replicate n up ∧ up ∉ names ∧ (absolute → n = 0)

variable {absolute : Bool} {kept : List (List Char)}

theorem Stacked.nil (absolute : Bool) : Stacked absolute [] :=
  ⟨nofun, nofun, nofun, [], 0, rfl, nofun, fun _ => rfl⟩

theorem Stacked.tail {top : List Char} (h : Stacked absolute (top :: kept)) :
    Stacked absolute kept := by
  refine ⟨fun s hs => h.ne_nil s (List.mem_cons_of_mem top hs),
    fun s hs => h.ne_dot s (List.mem_cons_of_mem top hs),
    fun s hs => h.plain s (List.mem_cons_of_mem top hs), ?_⟩
  obtain ⟨names, n, heq, hnames, habsolute⟩ := h.ups
  cases names with
  | nil =>
    obtain ⟨m, rfl⟩ : ∃ m, n = m + 1 := Nat.exists_eq_succ_of_ne_zero (by rintro rfl; simp at heq)
    exact ⟨[], m, (List.cons.inj heq).2, nofun, fun ha => absurd (habsolute ha) (Nat.succ_ne_zero m)⟩
  | cons s names =>
    exact ⟨names, n, (List.cons.inj heq).2, fun hmem => hnames (List.mem_cons_of_mem s hmem),
      habsolute⟩

/-- Below a way up there are ways up only, and none at the root. -/
theorem Stacked.of_up (h : Stacked absolute (up :: kept)) :
    absolute = false ∧ ∃ n, kept = List.replicate n up := by
  obtain ⟨names, n, heq, hnames, habsolute⟩ := h.ups
  cases names with
  | nil =>
    obtain ⟨m, rfl⟩ : ∃ m, n = m + 1 := Nat.exists_eq_succ_of_ne_zero (by rintro rfl; simp at heq)
    exact ⟨Bool.eq_false_iff.2 fun ha => Nat.succ_ne_zero m (habsolute ha),
      m, (List.cons.inj heq).2⟩
  | cons s names =>
    obtain ⟨rfl, -⟩ := List.cons.inj heq
    exact absurd (List.mem_cons_self ..) hnames

theorem Stacked.cons_name (h : Stacked absolute kept) {s : List Char} (hnil : s ≠ [])
    (hdot : s ≠ ['.']) (hup : s ≠ up) (hplain : ∀ c ∈ s, ¬ isSeparator c) :
    Stacked absolute (s :: kept) := by
  refine ⟨List.forall_mem_cons.2 ⟨hnil, h.ne_nil⟩, List.forall_mem_cons.2 ⟨hdot, h.ne_dot⟩,
    List.forall_mem_cons.2 ⟨hplain, h.plain⟩, ?_⟩
  obtain ⟨names, n, rfl, hnames, habsolute⟩ := h.ups
  refine ⟨s :: names, n, rfl, fun hmem => ?_, habsolute⟩
  rcases List.mem_cons.1 hmem with heq | hmem
  · exact hup heq.symm
  · exact hnames hmem

theorem stacked_replicate (n : Nat) : Stacked false (List.replicate n up) := by
  have hup : ∀ s ∈ List.replicate n up, s = up := fun s hs => List.eq_of_mem_replicate hs
  refine ⟨fun s hs => hup s hs ▸ by decide, fun s hs => hup s hs ▸ by decide,
    fun s hs => hup s hs ▸ by simp [isSeparator], [], n, rfl, nofun, nofun⟩

/-! ## Pushing -/

theorem push_blank (absolute : Bool) (kept : List (List Char)) {s : List Char}
    (h : s = [] ∨ s = ['.']) : push absolute kept s = kept :=
  if_pos (by simpa using h)

theorem push_name (absolute : Bool) (kept : List (List Char)) {s : List Char} (hnil : s ≠ [])
    (hdot : s ≠ ['.']) (hup : s ≠ up) : push absolute kept s = s :: kept := by
  unfold push
  rw [if_neg (by simp [hnil, hdot]), if_neg hup]

theorem push_up_nil (absolute : Bool) : push absolute [] up = if absolute then [] else [up] := rfl

theorem push_up_name (absolute : Bool) (kept : List (List Char)) {top : List Char} (h : top ≠ up) :
    push absolute (top :: kept) up = kept :=
  if_pos h

theorem push_up_up (absolute : Bool) (kept : List (List Char)) :
    push absolute (up :: kept) up = up :: up :: kept := rfl

theorem mem_push {s t : List Char} (h : t ∈ push absolute kept s) : t = s ∨ t ∈ kept := by
  by_cases hblank : s = [] ∨ s = ['.']
  · rw [push_blank absolute kept hblank] at h
    exact .inr h
  obtain ⟨hnil, hdot⟩ := not_or.1 hblank
  by_cases hup : s = up
  · subst hup
    cases kept with
    | nil =>
      rw [push_up_nil] at h
      split at h
      · exact absurd h (by simp)
      · exact .inl (List.mem_singleton.1 h)
    | cons top below =>
      by_cases htop : top = up
      · subst htop
        rw [push_up_up] at h
        exact List.mem_cons.1 h
      · rw [push_up_name absolute below htop] at h
        exact .inr (List.mem_cons_of_mem top h)
  · rw [push_name absolute kept hnil hdot hup] at h
    exact List.mem_cons.1 h

/-- A way up is never removed. -/
theorem up_mem_push_up (h : up ∈ kept) : up ∈ push absolute kept up := by
  obtain ⟨top, below, rfl⟩ := List.exists_cons_of_ne_nil (List.ne_nil_of_mem h)
  by_cases htop : top = up
  · subst htop
    exact List.mem_cons_self ..
  · rw [push_up_name absolute below htop]
    exact (List.mem_cons.1 h).resolve_left fun heq => htop heq.symm

theorem Stacked.push (h : Stacked absolute kept) {s : List Char} (hplain : ∀ c ∈ s, ¬ isSeparator c) :
    Stacked absolute (push absolute kept s) := by
  by_cases hblank : s = [] ∨ s = ['.']
  · rwa [push_blank absolute kept hblank]
  obtain ⟨hnil, hdot⟩ := not_or.1 hblank
  by_cases hup : s = up
  · subst hup
    cases kept with
    | nil =>
      rw [push_up_nil]
      cases absolute with
      | true => exact h
      | false => exact stacked_replicate 1
    | cons top below =>
      by_cases htop : top = up
      · subst htop
        obtain ⟨rfl, n, rfl⟩ := h.of_up
        exact stacked_replicate (n + 2)
      · rw [push_up_name absolute below htop]
        exact h.tail
  · rw [push_name absolute kept hnil hdot hup]
    exact h.cons_name hnil hdot hup hplain

theorem Stacked.foldl {ss : List (List Char)} (hplain : ∀ s ∈ ss, ∀ c ∈ s, ¬ isSeparator c)
    (h : Stacked absolute kept) : Stacked absolute (ss.foldl (Path.push absolute) kept) := by
  induction ss generalizing kept with
  | nil => exact h
  | cons s ss ih =>
    exact ih (fun t ht => hplain t (List.mem_cons_of_mem s ht))
      (h.push (hplain s (List.mem_cons_self ..)))

theorem Stacked.push_top {top : List Char} (h : Stacked absolute (top :: kept)) :
    Path.push absolute kept top = top :: kept := by
  by_cases hup : top = up
  · subst hup
    obtain ⟨rfl, n, rfl⟩ := h.of_up
    cases n <;> rfl
  · exact push_name absolute kept (h.ne_nil top (List.mem_cons_self ..))
      (h.ne_dot top (List.mem_cons_self ..)) hup

/-- The segments of a stack, pushed in reading order, make the stack again. -/
theorem Stacked.foldl_reverse (h : Stacked absolute kept) :
    kept.reverse.foldl (Path.push absolute) [] = kept := by
  induction kept with
  | nil => rfl
  | cons top kept ih =>
    rw [List.reverse_cons, List.foldl_append, ih h.tail]
    exact h.push_top

/-! ## Normal forms -/

theorem stacked_segments (absolute : Bool) (cs : List Char) :
    Stacked absolute ((segments cs).foldl (push absolute) []) :=
  (Stacked.nil absolute).foldl fun _ hs _ hc => (of_mem_split hs hc).2

theorem join_ne_nil {s : List Char} {ss : List (List Char)} (hs : s ≠ []) : join (s :: ss) ≠ [] := by
  by_cases hss : ss = []
  · rwa [hss]
  · rw [join_cons hss]
    exact List.append_ne_nil_of_left_ne_nil hs _

theorem head?_join {s : List Char} {ss : List (List Char)} (hs : s ≠ []) :
    (join (s :: ss)).head? = s.head? := by
  by_cases hss : ss = []
  · rw [hss]
    rfl
  · rw [join_cons hss]
    exact List.head?_append_of_ne_nil s hs

/-- The text of a stack does not begin with a separator. -/
theorem Stacked.not_isAbsolute_join (h : Stacked absolute kept) :
    isAbsolute (join kept.reverse) = false := by
  have hmem : ∀ s, s ∈ kept.reverse → s ∈ kept := fun s => List.mem_reverse.1
  cases hkept : kept.reverse with
  | nil => rfl
  | cons s ss =>
    have hs := hmem s (hkept ▸ List.mem_cons_self ..)
    obtain ⟨c, cs, rfl⟩ := List.exists_cons_of_ne_nil (h.ne_nil s hs)
    rw [isAbsolute, head?_join (h.ne_nil _ hs)]
    exact Bool.eq_false_iff.2 (h.plain _ hs c (List.mem_cons_self ..))

/-- The segments of a stack's text make the stack again. -/
theorem Stacked.foldl_segments (h : Stacked absolute kept) :
    (segments (join kept.reverse)).foldl (Path.push absolute) [] = kept := by
  by_cases hkept : kept = []
  · subst hkept
    exact push_blank absolute [] (.inl rfl)
  · have hplain : ∀ s ∈ kept.reverse, ∀ c ∈ s, ¬ isSeparator c := fun s hs =>
      h.plain s (List.mem_reverse.1 hs)
    rw [segments_join hplain (mt List.reverse_eq_nil_iff.1 hkept), h.foldl_reverse]

theorem isAbsolute_normalize (cs : List Char) : isAbsolute (normalize cs) = isAbsolute cs := by
  rw [normalize]
  split
  · rename_i hcs
    rw [hcs]
    rfl
  · rename_i hcs
    rw [normalSegments, (stacked_segments (isAbsolute cs) cs).not_isAbsolute_join,
      Bool.eq_false_iff.2 hcs]

theorem normalSegments_normalize (cs : List Char) :
    normalSegments (normalize cs) = normalSegments cs := by
  have hagain := (stacked_segments (isAbsolute cs) cs).foldl_segments
  rw [normalSegments, isAbsolute_normalize, normalSegments]
  refine congrArg List.reverse ?_
  rw [normalize]
  split
  · -- the slash in front makes an empty segment
    exact hagain
  · exact hagain

theorem normalize_normalize (cs : List Char) : normalize (normalize cs) = normalize cs := by
  rw [normalize, isAbsolute_normalize, normalSegments_normalize]
  rfl

/-! ## References below a directory -/

/-- A way up is left over when the text is taken as a relative path. -/
def Climbs (cs : List Char) : Prop := up ∈ (segments cs).foldl (push false) []

/-- As long as no way up is left over, what is pushed lies above what was there. Once there is one, a
    single name that was there is gone. -/
theorem foldl_push_above {owner : List Char} (howner : owner ≠ up) (ss : List (List Char)) :
    (up ∉ ss.foldl (push false) [] ∧
      ss.foldl (push false) [owner] = ss.foldl (push false) [] ++ [owner]) ∨
    (up ∈ ss.foldl (push false) [] ∧ ∀ s ∈ ss.foldl (push false) [owner], s ∈ ss) := by
  induction ss using List.reverseRecOn with
  | nil => exact .inl ⟨by simp, rfl⟩
  | append_singleton ss s ih =>
    rw [List.foldl_append, List.foldl_append]
    generalize hfree : ss.foldl (push false) [] = free at ih ⊢
    generalize hbound : ss.foldl (push false) [owner] = bound at ih ⊢
    simp only [List.foldl_cons, List.foldl_nil]
    by_cases hblank : s = [] ∨ s = ['.']
    · rw [push_blank false free hblank, push_blank false bound hblank]
      exact ih.imp_right fun ⟨hup, hmem⟩ => ⟨hup, fun t ht => List.mem_append_left _ (hmem t ht)⟩
    obtain ⟨hnil, hdot⟩ := not_or.1 hblank
    by_cases hs : s = up
    · subst hs
      rcases ih with ⟨hup, rfl⟩ | ⟨hup, hmem⟩
      · cases free with
        | nil =>
          -- the only way up to what was there
          rw [List.nil_append, push_up_name false [] howner]
          exact .inr ⟨by simp [push_up_nil], nofun⟩
        | cons top free =>
          have htop : top ≠ up := fun heq => hup (heq ▸ List.mem_cons_self ..)
          rw [List.cons_append, push_up_name false free htop, push_up_name false _ htop]
          exact .inl ⟨fun h => hup (List.mem_cons_of_mem top h), rfl⟩
      · refine .inr ⟨up_mem_push_up hup, fun t ht => ?_⟩
        rcases mem_push ht with rfl | ht
        · simp
        · exact List.mem_append_left _ (hmem t ht)
    · rw [push_name false free hnil hdot hs, push_name false bound hnil hdot hs]
      refine ih.imp (fun ⟨hup, heq⟩ => ⟨?_, ?_⟩) fun ⟨hup, hmem⟩ => ⟨?_, ?_⟩
      · exact fun hmem => (List.mem_cons.1 hmem).elim (fun h => hs h.symm) hup
      · rw [heq, List.cons_append]
      · exact List.mem_cons_of_mem s hup
      · intro t ht
        rcases List.mem_cons.1 ht with rfl | ht
        · simp
        · exact List.mem_append_left _ (hmem t ht)

end Path

end DartAnalysis
