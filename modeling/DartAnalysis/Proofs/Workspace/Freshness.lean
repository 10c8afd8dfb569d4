/-
  Scans and trees are never stale. Stamp, scan and tree of an entry come from one text, whatever was
  asked for and whatever failed (`Derives`, kept by every step), and that text was the one of the
  source after some earlier step of the history with no announced change since (`derives_after`). So
  the next scan or parse is that of the text the source has now, as long as its stamp gives away
  the changes that were not announced (`scan_after`).
-/
import DartAnalysis.Proofs.Workspace.History
import DartAnalysis.Proofs.Workspace.Stamps
import Mathlib.Data.List.Induction

namespace DartAnalysis

/-! ## Where entries come from -/

namespace Entry

/-- Nothing was derived from the text of a source. -/
structure Blank (e : Entry) : Prop where
  stamp : e.stamp? = none
  scan : e.scan? = none
  parsed : e.parsed? = none

/-- What was derived from a source was derived from one text, at the stamp it had. -/
structure From (source : Source) (c : Contents) (e : Entry) : Prop where
  stamp : e.stamp? = some c.stamp
  scan : e.scan? = some (.ofText (some source) c.text)
  parsed : ∀ parsed, e.parsed? = some parsed → parsed = .ofText .unit (some source) c.text

theorem blank_empty : Blank {} := ⟨rfl, rfl, rfl⟩

end Entry

namespace Workspace

/-- Every entry comes from a text that qualifies for its source. -/
def Derives (P : Source → Contents → Prop) (w : Workspace) : Prop :=
  ∀ source, (w.entry source).Blank ∨ ∃ c, P source c ∧ (w.entry source).From source c

variable {P : Source → Contents → Prop} {w : Workspace}

theorem Derives.mono {Q : Source → Contents → Prop} (h : w.Derives P)
    (hPQ : ∀ source c, (w.entry source).From source c → P source c → Q source c) :
    w.Derives Q := by
  intro source
  rcases h source with hblank | ⟨c, hc, hfrom⟩
  · exact .inl hblank
  · exact .inr ⟨c, hPQ source c hfrom hc, hfrom⟩

theorem Derives.setEntry (h : w.Derives P) {source : Source} {e : Entry}
    (he : e.Blank ∨ ∃ c, P source c ∧ e.From source c) : (w.setEntry source e).Derives P := by
  intro s
  rw [entry_setEntry]
  split
  · next hs => exact hs ▸ he
  · exact h s

theorem Derives.invalidate (h : w.Derives P) (source : Source) :
    (w.invalidate source).Derives P := by
  intro s
  rw [entry_invalidate]
  split
  · exact .inl Entry.blank_empty
  · exact h s

end Workspace

/-! ## Requests -/

namespace Request

open Workspace

/-- Workspaces over given texts, whose entries come from texts that qualify. -/
structure Sourced (S : Sources) (P : Source → Contents → Prop) (w : Workspace) : Prop where
  sources : w.sources = S
  derives : w.Derives P

section Sourced

variable {S : Sources} {P : Source → Contents → Prop} {w : Workspace}

theorem Sourced.setEntry (h : Sourced S P w) {source : Source} {e : Entry}
    (he : e.Blank ∨ ∃ c, P source c ∧ e.From source c) : Sourced S P (w.setEntry source e) :=
  ⟨(w.sources_setEntry source e).trans h.sources, h.derives.setEntry he⟩

theorem Sourced.validate (h : Sourced S P w) (source : Source) :
    Sourced S P (w.validate source) := by
  rcases w.validate_cases source with heq | ⟨heq, -⟩ <;> rw [heq]
  · exact ⟨(w.sources_invalidate source).trans h.sources, h.derives.invalidate source⟩
  · exact h

/-- What stays after validation comes from a text with the stamp of the source. -/
theorem Sourced.entry_validate (h : Sourced S P w) (source : Source) :
    ((w.validate source).entry source).Blank ∨ ∃ c, P source c ∧
      S.stamp? source = some c.stamp ∧ ((w.validate source).entry source).From source c := by
  rcases w.validate_cases source with heq | ⟨heq, hstamp⟩ <;> rw [heq]
  · rw [entry_invalidate, if_pos rfl]
    exact .inl Entry.blank_empty
  · rcases h.derives source with hblank | ⟨c, hc, hfrom⟩
    · exact .inl hblank
    · exact .inr ⟨c, hc, h.sources ▸ hstamp c.stamp hfrom.stamp, hfrom⟩

theorem keeps_validate (source : Source) : Keeps (Sourced S P) (validate source) :=
  fun _ hw => hw.validate source

/-- A change to an entry that leaves stamp, scan and tree alone. -/
theorem keeps_updateEntry {source : Source} {f : Entry → Entry}
    (hf : ∀ e, (f e).stamp? = e.stamp? ∧ (f e).scan? = e.scan? ∧ (f e).parsed? = e.parsed?) :
    Keeps (Sourced S P) (updateEntry source f) := by
  intro w hw
  obtain ⟨hstamp, hscan, hparsed⟩ := hf (w.entry source)
  refine hw.setEntry ?_
  rcases hw.derives source with hblank | ⟨c, hc, hfrom⟩
  · exact .inl ⟨hstamp.trans hblank.stamp, hscan.trans hblank.scan,
      hparsed.trans hblank.parsed⟩
  · exact .inr ⟨c, hc, hstamp.trans hfrom.stamp, hscan.trans hfrom.scan, fun parsed h =>
      hfrom.parsed parsed (hparsed ▸ h)⟩

/-- A scan is that of a qualified text, which the entry comes from afterwards; without one the text
    of the source cannot be had. -/
theorem scan_spec (hP : ∀ source c, S.contents source = .ok c → P source c) (source : Source)
    (hw : Sourced S P w) :
    Sourced S P ((scan source).runIn w).2 ∧
      match ((scan source).runIn w).1 with
      | .ok scan => ∃ c, P source c ∧ (S.stamp? source = some c.stamp) ∧
          scan = .ofText (some source) c.text ∧
          (((Request.scan source).runIn w).2.entry source).From source c
      | .error failure => ∃ e, S.contents source = .error e ∧ failure = .unreadable e := by
  have hvalid := hw.validate source
  unfold Request.scan
  rw [runIn_bind, runIn_validate]
  dsimp only
  rw [runIn_bind, runIn_entry]
  dsimp only
  rcases hw.entry_validate source with hblank | ⟨c, hc, hstamp, hfrom⟩
  · rw [hblank.scan]
    dsimp only
    rw [runIn_bind, runIn_contents, hvalid.sources]
    cases hcontents : S.contents source with
    | error e => exact ⟨hvalid, e, rfl, rfl⟩
    | ok c =>
      have hfrom : Entry.From source c { (w.validate source).entry source with
          stamp? := some c.stamp, scan? := some (.ofText (some source) c.text) } :=
        ⟨rfl, rfl, fun parsed h => by cases hblank.parsed.symm.trans h⟩
      refine ⟨hvalid.setEntry (.inr ⟨c, hP source c hcontents, hfrom⟩), c, hP source c hcontents,
        Sources.stamp?_of_contents hcontents, rfl, ?_⟩
      show (((w.validate source).setEntry source _).entry source).From source c
      rw [entry_setEntry, if_pos rfl]
      exact hfrom
  · rw [hfrom.scan]
    exact ⟨hvalid, c, hc, hstamp, rfl, hfrom⟩

theorem parse_spec (hP : ∀ source c, S.contents source = .ok c → P source c) (source : Source)
    (hw : Sourced S P w) :
    Sourced S P ((parse source).runIn w).2 ∧
      match ((parse source).runIn w).1 with
      | .ok parsed => ∃ c, P source c ∧ (S.stamp? source = some c.stamp) ∧
          parsed = .ofText .unit (some source) c.text
      | .error failure => ∃ e, S.contents source = .error e ∧ failure = .unreadable e := by
  have hvalid := hw.validate source
  have hscan := scan_spec hP source hvalid
  unfold Request.parse
  rw [runIn_bind, runIn_validate]
  dsimp only
  rw [runIn_bind, runIn_entry]
  dsimp only
  split
  · next parsed hparsed =>
    rcases hw.entry_validate source with hblank | ⟨c, hc, hstamp, hfrom⟩
    · cases hblank.parsed.symm.trans hparsed
    · exact ⟨hvalid, c, hc, hstamp, hfrom.parsed parsed hparsed⟩
  · rw [runIn_bind]
    cases hrun : (Request.scan source).runIn (w.validate source) with
    | mk result w' =>
      rw [hrun] at hscan
      obtain ⟨hw', hresult⟩ := hscan
      cases result with
      | error failure => exact ⟨hw', hresult⟩
      | ok scan =>
        obtain ⟨c, hc, hstamp, rfl, hfrom⟩ := hresult
        refine ⟨hw'.setEntry (.inr ⟨c, hc, hfrom.stamp, hfrom.scan, fun parsed h => ?_⟩), c, hc,
          hstamp, rfl⟩
        cases h
        rfl

variable (hP : ∀ source c, S.contents source = .ok c → P source c)
include hP

theorem keeps_scan (source : Source) : Keeps (Sourced S P) (scan source) :=
  fun _ hw => (scan_spec hP source hw).1

theorem keeps_parse (source : Source) : Keeps (Sourced S P) (parse source) :=
  fun _ hw => (parse_spec hP source hw).1

theorem keeps_program (root : Source) (epoch : Nat) : Keeps (Sourced S P) (program root epoch) := by
  refine Keeps.bind Keeps.workspace fun w => ?_
  refine Keeps.bind (keeps_ofRoot (keeps_parse hP) epoch w.room root) fun p => ?_
  refine Keeps.bind Keeps.workspace fun w => ?_
  dsimp only
  split
  · refine Keeps.bind (Keeps.forM fun l _ => ?_) fun _ => Keeps.pure _
    exact keeps_updateEntry fun e => ⟨rfl, rfl, rfl⟩
  · exact Keeps.pure _

theorem keeps_library? (source : Source) : Keeps (Sourced S P) (library? source) := by
  refine Keeps.bind Keeps.epoch fun epoch => Keeps.bind Keeps.workspace fun w => ?_
  split
  · exact Keeps.pure _
  · refine Keeps.bind (keeps_unit? (keeps_parse hP) source) fun tree? => ?_
    cases tree? with
    | none => exact Keeps.pure _
    | some t =>
      exact Keeps.branch (Keeps.pure _)
        (Keeps.bind (keeps_program hP source epoch) fun _ => Keeps.pure _)

theorem keeps_resolve (unit root : Source) : Keeps (Sourced S P) (resolve unit root) := by
  refine Keeps.bind (keeps_validate root) fun _ => Keeps.bind (keeps_validate unit) fun _ => ?_
  refine Keeps.bind Keeps.epoch fun epoch => Keeps.bind (Keeps.entry unit) fun e => ?_
  split
  · exact Keeps.pure _
  · refine Keeps.bind (keeps_parse hP unit) fun parsed => ?_
    refine Keeps.bind (keeps_program hP root epoch) fun p => Keeps.bind Keeps.workspace fun w => ?_
    split
    · exact Keeps.throw _
    · refine Keeps.bind Keeps.workspace fun w' => ?_
      dsimp only
      split
      · refine Keeps.bind (keeps_updateEntry fun e => ⟨rfl, rfl, rfl⟩) fun _ => Keeps.pure _
      · exact Keeps.pure _

/-- Every query keeps what was derived. -/
theorem sourced_query (q : Query) (hw : Sourced S P w) : Sourced S P (q.run w) :=
  q.keeps (keeps_scan hP) (keeps_parse hP) (keeps_library? hP) (keeps_resolve hP) hw

end Sourced

end Request

/-! ## Histories -/

namespace Workspace

/-- The text that a source had when it was last scanned in a history: from that step on it has
    counted as scanned at the stamp of the text, and no change of it has been announced. -/
def LastScanned (w₀ : Workspace) (steps : List Step) (source : Source) (c : Contents) : Prop :=
  ∃ before step later, steps = before ++ step :: later ∧ Step.changed source ∉ later ∧
    (w₀.after before).sources.contents source = .ok c ∧
    ∀ between, between <+: later →
      ((w₀.after (before ++ step :: between)).entry source).stamp? = some c.stamp

variable {w₀ : Workspace}

theorem LastScanned.snoc {steps : List Step} {source : Source} {c : Contents}
    (h : LastScanned w₀ steps source c) {step : Step} (hstep : step ≠ .changed source)
    (hstamp : ((w₀.after (steps ++ [step])).entry source).stamp? = some c.stamp) :
    LastScanned w₀ (steps ++ [step]) source c := by
  obtain ⟨before, scanning, later, rfl, hlater, hcontents, hstamps⟩ := h
  refine ⟨before, scanning, later ++ [step], by simp, ?_, hcontents, fun between hbetween => ?_⟩
  · simpa [hlater] using Ne.symm hstep
  · rcases List.prefix_concat_iff.1 hbetween with rfl | hbetween
    · simpa using hstamp
    · exact hstamps between hbetween

/-- One step leaves every entry derived from the text that its source was last scanned from. -/
theorem derives_step {steps : List Step} (h : (w₀.after steps).Derives (LastScanned w₀ steps))
    (step : Step) :
    (w₀.after (steps ++ [step])).Derives (LastScanned w₀ (steps ++ [step])) := by
  have hrun : w₀.after (steps ++ [step]) = step.run (w₀.after steps) := after_append ..
  -- Most steps leave the entries alone.
  have hsame (hstep : ∀ source, step ≠ .changed source)
      (hentry : ∀ source, (w₀.after (steps ++ [step])).entry source =
        (w₀.after steps).entry source) :
      (w₀.after (steps ++ [step])).Derives (LastScanned w₀ (steps ++ [step])) := by
    intro source
    rw [hentry source]
    rcases h source with hblank | ⟨c, hc, hfrom⟩
    · exact .inl hblank
    · exact .inr ⟨c, hc.snoc (hstep source) (hentry source ▸ hfrom.stamp), hfrom⟩
  cases step with
  | setText source text? => exact hsame nofun fun _ => by rw [hrun]; rfl
  | outside disk resolvers => exact hsame nofun fun _ => by rw [hrun]; rfl
  | install under l =>
    refine hsame nofun fun source => ?_
    rw [hrun]
    show (((w₀.after steps).install under l).toOption.getD (w₀.after steps)).entry source = _
    unfold install
    split <;> rfl
  | changed source =>
    intro s
    have hentry : (w₀.after (steps ++ [.changed source])).entry s =
        if s = source then {} else (w₀.after steps).entry s := by
      rw [hrun]
      exact entry_invalidate ..
    rw [hentry]
    by_cases hs : s = source
    · rw [if_pos hs]
      exact .inl Entry.blank_empty
    · rw [if_neg hs] at hentry ⊢
      rcases h s with hblank | ⟨c, hc, hfrom⟩
      · exact .inl hblank
      · refine .inr ⟨c, hc.snoc (fun heq => hs ?_) (hentry ▸ hfrom.stamp), hfrom⟩
        cases heq
        rfl
  | query q =>
    -- A text that is scanned now qualifies, besides those that did before.
    let P (source : Source) (c : Contents) : Prop :=
      LastScanned w₀ steps source c ∨ (w₀.after steps).sources.contents source = .ok c
    have hsourced : Request.Sourced (w₀.after steps).sources P (q.run (w₀.after steps)) :=
      Request.sourced_query (fun _ _ => .inr) q ⟨rfl, h.mono fun _ _ _ => .inl⟩
    have hderives : (w₀.after (steps ++ [.query q])).Derives P := hrun ▸ hsourced.derives
    refine hderives.mono fun source c hfrom hc => ?_
    rcases hc with hc | hc
    · exact hc.snoc nofun hfrom.stamp
    · refine ⟨steps, .query q, [], rfl, nofun, hc, fun between hbetween => ?_⟩
      rw [List.prefix_nil.1 hbetween]
      exact hfrom.stamp

/-- In every history of a new workspace, what an entry holds comes from the text that its source was
    last scanned from. -/
theorem derives_after (hw₀ : w₀.entries = []) (steps : List Step) :
    (w₀.after steps).Derives (LastScanned w₀ steps) := by
  induction steps using List.reverseRecOn with
  | nil =>
    intro source
    left
    show (entry w₀ source).Blank
    unfold entry
    rw [hw₀]
    exact Entry.blank_empty
  | append_singleton steps step ih => exact derives_step ih step

/-- The stamp of a source at the end of a history can be trusted: a source without a text has no
    stamp, and a text other than the one the source was last scanned from has another stamp, unless
    a change was announced since. -/
structure Stamped (w₀ : Workspace) (steps : List Step) (source : Source) : Prop where
  agrees : ∀ e, (w₀.after steps).sources.contents source = .error e →
    (w₀.after steps).sources.stamp? source = none
  tells : ∀ c c', LastScanned w₀ steps source c →
    (w₀.after steps).sources.contents source = .ok c' → c'.text ≠ c.text → c'.stamp ≠ c.stamp

theorem Stamped.contents_of_stamp {steps : List Step} {source : Source}
    (h : Stamped w₀ steps source) {c : Contents} (hc : LastScanned w₀ steps source c)
    (hstamp : (w₀.after steps).sources.stamp? source = some c.stamp) :
    (w₀.after steps).world.text source = .ok c.text := by
  cases hcontents : (w₀.after steps).sources.contents source with
  | error e =>
    rw [h.agrees e hcontents] at hstamp
    cases hstamp
  | ok c' =>
    rw [Sources.stamp?_of_contents hcontents] at hstamp
    rw [text_of_contents hcontents]
    by_cases htext : c'.text = c.text
    · rw [htext]
    · exact absurd (Option.some.inj hstamp) (h.tells c c' hc hcontents htext)

/-- After any history of a new workspace a scan or parse is that of the text that the source has now:
    tokens with their line map and problems, and the tree with the problems of scanning before
    those of parsing. If the text cannot be had, the answer is why. -/
theorem scan_after (hw₀ : w₀.entries = []) (steps : List Step) (source : Source)
    (h : Stamped w₀ steps source) :
    ((Request.scan source).runIn (w₀.after steps)).1 = (w₀.after steps).world.scan source ∧
      ((Request.parse source).runIn (w₀.after steps)).1 = (w₀.after steps).world.parse source := by
  let P (s : Source) (c : Contents) : Prop := s = source →
    (w₀.after steps).sources.stamp? s = some c.stamp →
      (w₀.after steps).world.text s = .ok c.text
  have hP : ∀ s c, (w₀.after steps).sources.contents s = .ok c → P s c :=
    fun s c hc _ _ => text_of_contents hc
  have hsourced : Request.Sourced (w₀.after steps).sources P (w₀.after steps) := by
    refine ⟨rfl, (derives_after hw₀ steps).mono fun s c _ hc hs hstamp => ?_⟩
    subst hs
    exact h.contents_of_stamp hc hstamp
  have hscan := (Request.scan_spec hP source hsourced).2
  have hparse := (Request.parse_spec hP source hsourced).2
  unfold World.scan World.parse
  constructor
  · split at hscan
    · next scan hrun =>
      obtain ⟨c, hc, hstamp, rfl, -⟩ := hscan
      rw [hrun, hc rfl hstamp]
    · next failure hrun =>
      obtain ⟨e, he, rfl⟩ := hscan
      rw [hrun, text_of_error he]
  · split at hparse
    · next parsed hrun =>
      obtain ⟨c, hc, hstamp, rfl⟩ := hparse
      rw [hrun, hc rfl hstamp]
    · next failure hrun =>
      obtain ⟨e, he, rfl⟩ := hparse
      rw [hrun, text_of_error he]

end Workspace

/-! ## Editors -/

/-- Whatever a step does, texts are not lost track of: those of an editor are numbered on. -/
theorem Sources.Numbered.step {w₀ : Workspace} {steps : List Step}
    (h : (w₀.after steps).sources.Numbered) (hw₀ : w₀.entries = []) (step : Step)
    (hstep : ∀ disk resolvers, step ≠ .outside disk resolvers) :
    (w₀.after (steps ++ [step])).sources.Numbered ∧
      Later (w₀.after steps).sources (w₀.after (steps ++ [step])).sources := by
  have hrun : w₀.after (steps ++ [step]) = step.run (w₀.after steps) :=
    Workspace.after_append ..
  have hsame (heq : (step.run (w₀.after steps)).sources = (w₀.after steps).sources) :
      (w₀.after (steps ++ [step])).sources.Numbered ∧
        Later (w₀.after steps).sources (w₀.after (steps ++ [step])).sources := by
    rw [hrun, heq]
    exact ⟨h, .refl _⟩
  cases step with
  | setText source text? =>
    rw [hrun]
    exact ⟨h.setText source text?, later_setText _ source text?⟩
  | outside disk resolvers => exact absurd rfl (hstep disk resolvers)
  | changed source => exact hsame (Workspace.sources_invalidate _ source)
  | install under l =>
    refine hsame ?_
    show (((w₀.after steps).install under l).toOption.getD (w₀.after steps)).sources = _
    unfold Workspace.install
    split <;> rfl
  | query q =>
    exact hsame (Request.sourced_query (P := fun _ _ => True) (fun _ _ _ => trivial) q
      ⟨rfl, (Workspace.derives_after hw₀ steps).mono fun _ _ _ _ => trivial⟩).sources

namespace Workspace

variable {w₀ : Workspace}

theorem numbered_after (hw₀ : w₀.entries = []) (hnumbered : w₀.sources.Numbered)
    (steps : List Step) (hsteps : ∀ disk resolvers, Step.outside disk resolvers ∉ steps) :
    (w₀.after steps).sources.Numbered ∧ ∀ before later, steps = before ++ later →
      (w₀.after before).sources.Later (w₀.after steps).sources := by
  induction steps using List.reverseRecOn with
  | nil =>
    refine ⟨hnumbered, fun before later h => ?_⟩
    obtain ⟨rfl, -⟩ := List.append_eq_nil_iff.1 h.symm
    exact .refl _
  | append_singleton steps step ih =>
    obtain ⟨hsteps', hlater⟩ := ih fun disk resolvers h =>
      hsteps disk resolvers (List.mem_append_left _ h)
    obtain ⟨hnext, hstep⟩ := hsteps'.step hw₀ step fun disk resolvers h =>
      hsteps disk resolvers (by simp [h])
    refine ⟨hnext, fun before later h => ?_⟩
    rcases List.eq_nil_or_concat later with rfl | ⟨later, last, rfl⟩
    · rw [List.append_nil] at h
      exact h ▸ .refl _
    · rw [List.concat_eq_append, ← List.append_assoc] at h
      obtain ⟨rfl, -⟩ := List.append_inj' h rfl
      exact (hlater before later rfl).trans hstep

/-- As long as only an editor changes texts, no change has to be announced. -/
theorem stamped_of_edits (hw₀ : w₀.entries = []) (hnumbered : w₀.sources.Numbered)
    {steps : List Step} (hsteps : ∀ disk resolvers, Step.outside disk resolvers ∉ steps)
    {source : Source} {c : Contents} (hc : (w₀.after steps).sources.contents source = .ok c) :
    Stamped w₀ steps source where
  agrees e he := by cases hc.symm.trans he
  tells d c' hd hc' hne hstamp := by
    obtain ⟨before, step, later, rfl, -, hcontents, -⟩ := hd
    obtain ⟨hafter, hlater⟩ := numbered_after hw₀ hnumbered _ hsteps
    have hbefore := (numbered_after hw₀ hnumbered before fun disk resolvers h =>
      hsteps disk resolvers (List.mem_append_left _ h)).1
    exact hne (congrArg Contents.text ((hlater before _ rfl).contents_eq hbefore hafter hcontents
      hc' hstamp))

/-- A text is scanned, and another one is given that is not announced. -/
theorem scan_after_edit :
    let w₀ : Workspace := { options := {}, sources := .standard {} none }
    let source : Source := ⟨.file, "/a.dart"⟩
    let w := w₀.after [.setText source (some "var x;"), .query (.scan source),
      .setText source (some "var y;")]
    ((Request.scan source).runIn w).1 = w.world.scan source ∧
      ((Request.parse source).runIn w).1 = w.world.parse source :=
  scan_after rfl _ _ (stamped_of_edits rfl (.standard {} none) (by simp)
    (show _ = Except.ok ⟨"var y;", 2⟩ from rfl))

end Workspace

end DartAnalysis
