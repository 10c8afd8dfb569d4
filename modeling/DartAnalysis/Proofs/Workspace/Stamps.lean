/-
  Stamps of an editor. Every text that an editor gives has a stamp of its own, larger than those of
  files (`Numbered`, kept by `setText`), so of one source a stamp has one text, as long as files stay
  (`Later.contents_eq`).
-/
import DartAnalysis.Workspace.Sources

namespace DartAnalysis

namespace Sources

/-- Texts of an editor have stamps of their own, and files have the stamp of files. -/
structure Numbered (s : Sources) : Prop where
  overlay : ∀ source c, s.overlay.lookup source = some c →
    Disk.stamp < c.stamp ∧ c.stamp ≤ s.lastStamp
  resolvers : ∀ source c, s.resolvers.findSome? (·.contents? s.disk source) = some (.ok c) →
    c.stamp = Disk.stamp

/-- Later sources: files are the same, and a text with an earlier stamp was there earlier. -/
structure Later (s s' : Sources) : Prop where
  disk : s'.disk = s.disk
  resolvers : s'.resolvers = s.resolvers
  lastStamp_le : s.lastStamp ≤ s'.lastStamp
  overlay : ∀ source c, s'.overlay.lookup source = some c → c.stamp ≤ s.lastStamp →
    s.overlay.lookup source = some c

variable {s s' s'' : Sources}

theorem Later.refl (s : Sources) : Later s s := ⟨rfl, rfl, Nat.le_refl _, fun _ _ h _ => h⟩

theorem Later.trans (h : Later s s') (h' : Later s' s'') : Later s s'' where
  disk := h'.disk.trans h.disk
  resolvers := h'.resolvers.trans h.resolvers
  lastStamp_le := Nat.le_trans h.lastStamp_le h'.lastStamp_le
  overlay source c hc hle :=
    h.overlay source c (h'.overlay source c hc (Nat.le_trans hle h.lastStamp_le)) hle

theorem lookup_filter_ne {β : Type} (xs : List (Source × β)) (a b : Source) :
    (xs.filter (·.1 ≠ a)).lookup b = if b = a then none else xs.lookup b := by
  induction xs with
  | nil => simp
  | cons x xs ih =>
    obtain ⟨s, v⟩ := x
    by_cases hs : s = a
    · rw [List.filter_cons_of_neg (by simpa using hs), ih]
      split
      · rfl
      · next hb =>
        have hne : (b == s) = false := by simpa [hs] using hb
        rw [List.lookup_cons, hne]
    · rw [List.filter_cons_of_pos (by simpa using hs), List.lookup_cons, List.lookup_cons, ih]
      by_cases hb : b = a
      · have hne : (b == s) = false := by simpa [hb] using Ne.symm hs
        simp [hb, hb ▸ hne]
      · simp [hb]

theorem lookup_put {β : Type} (xs : List (Source × β)) (a b : Source) (v : β) :
    ((a, v) :: xs.filter (·.1 ≠ a)).lookup b = if b = a then some v else xs.lookup b := by
  rw [List.lookup_cons, lookup_filter_ne]
  by_cases hb : b = a
  · simp [hb]
  · have hne : (b == a) = false := by simpa using hb
    simp [hb, hne]

/-- An editor gives a source its text, or none, and leaves the others alone. -/
theorem lookup_overlay_setText (s : Sources) (source t : Source) (text? : Option String) :
    (s.setText source text?).overlay.lookup t =
      if t = source then text?.map fun text => ⟨text, s.lastStamp + 1⟩ else s.overlay.lookup t := by
  cases text? with
  | none => exact lookup_filter_ne s.overlay source t
  | some text => exact lookup_put s.overlay source t ⟨text, s.lastStamp + 1⟩

theorem lastStamp_le_setText (s : Sources) (source : Source) (text? : Option String) :
    s.lastStamp ≤ (s.setText source text?).lastStamp := by
  cases text? with
  | none => exact Nat.le_refl _
  | some text => exact Nat.le_succ _

theorem later_setText (s : Sources) (source : Source) (text? : Option String) :
    Later s (s.setText source text?) where
  disk := by cases text? <;> rfl
  resolvers := by cases text? <;> rfl
  lastStamp_le := s.lastStamp_le_setText source text?
  overlay t c hc hle := by
    rw [lookup_overlay_setText] at hc
    split at hc
    · obtain ⟨text, -, rfl⟩ := Option.map_eq_some_iff.1 hc
      exact absurd hle (Nat.not_succ_le_self _)
    · exact hc

theorem Numbered.setText (h : s.Numbered) (source : Source) (text? : Option String) :
    (s.setText source text?).Numbered where
  overlay t c hc := by
    rw [lookup_overlay_setText] at hc
    split at hc
    · obtain ⟨text, rfl, rfl⟩ := Option.map_eq_some_iff.1 hc
      exact ⟨Nat.succ_pos _, Nat.le_refl _⟩
    · obtain ⟨hpos, hle⟩ := h.overlay t c hc
      exact ⟨hpos, Nat.le_trans hle (s.lastStamp_le_setText source text?)⟩
  resolvers := by
    have hlater := later_setText s source text?
    rw [hlater.resolvers, hlater.disk]
    exact h.resolvers

theorem Numbered.standard (disk : Disk) (sdk? : Option String) :
    (Sources.standard disk sdk?).Numbered := by
  have hread {source : Source} {path : String} {c : Contents}
      (h : disk.read source path = .ok c) : c.stamp = Disk.stamp := by
    unfold Disk.read at h
    split at h <;> cases h
    rfl
  refine ⟨nofun, fun source c hc => ?_⟩
  obtain ⟨r, hr, hc⟩ := List.exists_of_findSome?_eq_some hc
  have hc : r.contents? disk source = some (.ok c) := hc
  have hr : r ∈ [Resolver.libraries sdk?, .files] := hr
  simp only [List.mem_cons, List.not_mem_nil, or_false] at hr
  rcases hr with rfl | rfl
  · unfold Resolver.contents? at hc
    dsimp only at hc
    split at hc
    · cases hc
    · split at hc
      · exact hread (Option.some.inj hc)
      · cases hc
  · unfold Resolver.contents? at hc
    dsimp only at hc
    obtain ⟨path, -, hc⟩ := Option.map_eq_some_iff.1 hc
    exact hread hc

theorem Numbered.stamp_le (h : s.Numbered) {source : Source} {c : Contents}
    (hc : s.contents source = .ok c) : c.stamp ≤ s.lastStamp := by
  unfold contents at hc
  cases hoverlay : s.overlay.lookup source with
  | some d =>
    rw [hoverlay] at hc
    cases hc
    exact (h.overlay source c hoverlay).2
  | none =>
    rw [hoverlay] at hc
    cases hfound : s.resolvers.findSome? (·.contents? s.disk source) with
    | none =>
      rw [hfound] at hc
      cases hc
    | some result =>
      rw [hfound] at hc
      rw [h.resolvers source c (hfound.trans (congrArg some hc))]
      exact Nat.zero_le _

/-- Of a source a stamp has one text. -/
theorem Later.contents_eq (hlater : Later s s') (h : s.Numbered) (h' : s'.Numbered) {source : Source}
    {c c' : Contents} (hc : s.contents source = .ok c) (hc' : s'.contents source = .ok c')
    (hstamp : c'.stamp = c.stamp) : c' = c := by
  unfold contents at hc hc'
  cases hoverlay' : s'.overlay.lookup source with
  | some d' =>
    rw [hoverlay'] at hc'
    cases hc'
    have hpos := (h'.overlay source c' hoverlay').1
    cases hoverlay : s.overlay.lookup source with
    | some d =>
      rw [hoverlay] at hc
      cases hc
      have hle := (h.overlay source c hoverlay).2
      have hsame := hlater.overlay source c' hoverlay' (hstamp ▸ hle)
      rw [hoverlay] at hsame
      exact (Option.some.inj hsame).symm
    | none =>
      rw [hoverlay] at hc
      have hfound : s.resolvers.findSome? (·.contents? s.disk source) = some (.ok c) := by
        cases hfound : s.resolvers.findSome? (·.contents? s.disk source) with
        | none => rw [hfound] at hc; cases hc
        | some result => rw [hfound] at hc; exact congrArg some hc
      have hfile := h.resolvers source c hfound
      omega
  | none =>
    rw [hoverlay'] at hc'
    have hfound' : s'.resolvers.findSome? (·.contents? s'.disk source) = some (.ok c') := by
      cases hfound : s'.resolvers.findSome? (·.contents? s'.disk source) with
      | none => rw [hfound] at hc'; cases hc'
      | some result => rw [hfound] at hc'; exact congrArg some hc'
    cases hoverlay : s.overlay.lookup source with
    | some d =>
      rw [hoverlay] at hc
      cases hc
      have hpos := (h.overlay source c hoverlay).1
      have hfile := h'.resolvers source c' hfound'
      omega
    | none =>
      rw [hoverlay] at hc
      rw [hlater.disk, hlater.resolvers] at hfound'
      rw [hfound'] at hc
      exact Except.ok.inj hc

end Sources

end DartAnalysis
