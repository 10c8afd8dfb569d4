/-
  Why units cannot be resolved. Whatever was asked before, a request to resolve a unit is refused if
  and only if a new workspace refuses it, and for the same reason (`refusal?_after`): libraries that are
  at hand have the outlines that their texts give them, and outlines settle whether a program can be
  built and which units are its own. So the library of a source is resolved unless the texts that it
  needs cannot be read (`resolved_unless_unreadable`), as long as the comparisons of types end that are
  asked for. A text itself never makes that fail.

  This is about workspaces to which changes are announced. One that was not told of a change may answer
  from what it keeps, although a text that the answer needs cannot be read any more
  (`resolved_stale`).
-/
import DartAnalysis.Proofs.Binding.Reports
import DartAnalysis.Proofs.Workspace.Supply
import DartAnalysis.Proofs.Workspace.Transparency

namespace DartAnalysis

/-! ## Worlds -/

namespace World

variable {W : World} {source : Source}

/-- A source that cannot be read is one whose text is there but cannot be had. -/
theorem readable_iff : Program.Readable W.unit? source ↔
    ∀ e, W.text source = .error e → e.isAbsence = true := by
  unfold Program.Readable unit?
  cases W.text source with
  | ok text => exact iff_of_true ⟨_, rfl⟩ nofun
  | error e =>
    dsimp only
    cases hreason : e.isAbsence with
    | true =>
      refine iff_of_true ⟨none, rfl⟩ fun e' he => ?_
      cases he
      exact hreason
    | false =>
      refine iff_of_false (by rintro ⟨t?, ⟨⟩⟩) fun h => ?_
      exact absurd (hreason.symm.trans (h e rfl)) nofun

theorem resolve_of_unreadable {e : ReadError} (h : W.text source = .error e) (root : Source) :
    W.resolve source root = .error (.unreadable e) := by
  rw [resolve_eq]
  unfold parse
  rw [h]
  rfl

theorem resolve_of_part (hnew : W.installed source = none) {text : String}
    (htext : W.text source = .ok text)
    (hpart : (Parsed.ofText .unit (some source) text).tree.isPart = true) :
    W.resolve source source = .error (.notALibrary source) := by
  have hprogram : W.program source = .error (.notALibrary source) :=
    Program.ofRoot_of_part hnew (unit?_of_text htext) hpart
  rw [resolve_eq, parse_of_text htext, hprogram]
  rfl

/-- Reading a source exhausts nothing. -/
theorem unit?_ne_exhausted (W : World) (source : Source) : W.unit? source ≠ .error .exhausted := by
  unfold unit?
  cases W.text source with
  | ok text => nofun
  | error e =>
    dsimp only
    split <;> nofun

theorem parse_ne_exhausted (W : World) (source : Source) : W.parse source ≠ .error .exhausted := by
  unfold parse
  cases W.text source <;> nofun

/-- Given room, a library that is not installed is not refused if and only if its text can be read and
    is no part, and every source it needs can be read or is absent. -/
theorem refusal?_resolve_eq_none (hfiled : ∀ source l, W.installed source = some l → l.source = source)
    {core : Library} {types : CoreTypes} (hcore : W.installed .core = some core)
    (htypes : CoreTypes.ofLibrary core = .ok types) (hnew : W.installed source = none)
    (hroom : Program.HasRoom W.unit? W.installed W.room source) :
    Program.refusal? (W.resolve source source) = none ↔
      (∃ text, W.text source = .ok text ∧
        (Parsed.ofText .unit (some source) text).tree.isPart = false) ∧
      ∀ x, Program.Needs W.unit? W.installed source x →
        ∀ e, W.text x = .error e → e.isAbsence = true := by
  have hprogram : (∃ q, Program.ofRoot (.reading W.unit? W.installed W.room) source =
      (.ok q : Except Failure Program)) ↔ _ := Program.ofRoot_ok_iff hfiled hcore hnew htypes
  simp only [readable_iff, and_iff_left hroom] at hprogram
  cases htext : W.text source with
  | error e =>
    rw [resolve_of_unreadable htext]
    exact iff_of_false nofun (by rintro ⟨⟨text, ⟨⟩, -⟩, -⟩)
  | ok text =>
    cases hpart : (Parsed.ofText .unit (some source) text).tree.isPart with
    | true =>
      rw [resolve_of_part hnew htext hpart]
      refine iff_of_false nofun ?_
      rintro ⟨⟨text', htext', hpart'⟩, -⟩
      cases htext'
      exact absurd (hpart.symm.trans hpart') nofun
    | false =>
      have hunit := unit?_of_text htext
      have hroot : ∀ t, W.unit? source = .ok (some t) → t.isPart = false := fun t ht => by
        obtain rfl := Option.some.inj (Except.ok.inj (hunit.symm.trans ht))
        exact hpart
      rw [and_iff_right hroot] at hprogram
      rw [and_iff_right ⟨text, rfl, hpart⟩, ← hprogram, resolve_eq, parse_of_text htext]
      cases hq : W.program source with
      | error failure =>
        refine iff_of_false (fun hnone => ?_) ?_
        · rcases Program.refusal?_eq_none.1 hnone with ⟨u, ⟨⟩⟩ | hexhausted
          cases hexhausted
          exact Program.ofRoot_ne_exhausted hroom W.unit?_ne_exhausted hq
        · rintro ⟨q, hq'⟩
          cases hq.symm.trans hq'
      | ok q =>
        exact iff_of_true (Program.refusal?_resolve_root hfiled hq ⟨hnew, hunit, hpart⟩ W.options) ⟨q, hq⟩

end World

/-! ## Requests -/

namespace Request

open Workspace

/-! ### Resolved units that are kept -/

/-- Workspaces whose resolved units are of a kind. -/
def Shows (P : Source → Source → Epoched ResolvedUnit → Prop) (w : Workspace) : Prop :=
  ∀ unit root x, (w.entry unit).resolved.lookup root = some x → P unit root x

section Shows

variable {P : Source → Source → Epoched ResolvedUnit → Prop} {w : Workspace}

theorem Shows.setEntry (h : Shows P w) {source : Source} {e : Entry}
    (he : ∀ root x, e.resolved.lookup root = some x → P source root x) :
    Shows P (w.setEntry source e) := by
  intro unit root x hx
  rw [entry_setEntry] at hx
  split at hx
  · next hs => exact hs ▸ he root x hx
  · exact h unit root x hx

theorem Shows.invalidate (h : Shows P w) (source : Source) : Shows P (w.invalidate source) := by
  intro unit root x hx
  rw [entry_invalidate] at hx
  split at hx
  · cases hx
  · exact h unit root x hx

theorem keeps_shows_validate (source : Source) : Keeps (Shows P) (validate source) := by
  intro w hw
  show Shows P (w.validate source)
  rcases w.validate_cases source with heq | ⟨heq, -⟩ <;> rw [heq]
  · exact hw.invalidate source
  · exact hw

theorem keeps_shows_updateEntry {source : Source} {f : Entry → Entry}
    (hf : ∀ e, (f e).resolved = e.resolved) : Keeps (Shows P) (updateEntry source f) := by
  intro w hw
  refine hw.setEntry fun root x hx => hw source root x ?_
  rwa [hf] at hx

theorem keeps_shows_scan (source : Source) : Keeps (Shows P) (scan source) := by
  refine Keeps.bind (keeps_shows_validate source) fun _ => Keeps.bind (Keeps.entry source) fun e => ?_
  split
  · exact Keeps.pure _
  · refine Keeps.bind (Keeps.contents source) fun c => ?_
    exact Keeps.bind (keeps_shows_updateEntry fun _ => rfl) fun _ => Keeps.pure _

theorem keeps_shows_parse (source : Source) : Keeps (Shows P) (parse source) := by
  refine Keeps.bind (keeps_shows_validate source) fun _ => Keeps.bind (Keeps.entry source) fun e => ?_
  split
  · exact Keeps.pure _
  · refine Keeps.bind (keeps_shows_scan source) fun scan => ?_
    exact Keeps.bind (keeps_shows_updateEntry fun _ => rfl) fun _ => Keeps.pure _

theorem keeps_shows_program (root : Source) (epoch : Nat) : Keeps (Shows P) (program root epoch) := by
  refine Keeps.bind Keeps.workspace fun w => ?_
  refine Keeps.bind (keeps_ofRoot keeps_shows_parse epoch w.room root) fun p => ?_
  refine Keeps.bind Keeps.workspace fun w => ?_
  dsimp only
  split
  · refine Keeps.bind (Keeps.forM fun l _ => ?_) fun _ => Keeps.pure _
    exact keeps_shows_updateEntry fun _ => rfl
  · exact Keeps.pure _

theorem keeps_shows_library? (source : Source) : Keeps (Shows P) (library? source) := by
  refine Keeps.bind Keeps.epoch fun epoch => Keeps.bind Keeps.workspace fun w => ?_
  split
  · exact Keeps.pure _
  · refine Keeps.bind (keeps_unit? keeps_shows_parse source) fun tree? => ?_
    cases tree? with
    | none => exact Keeps.pure _
    | some t =>
      exact Keeps.branch (Keeps.pure _)
        (Keeps.bind (keeps_shows_program source epoch) fun _ => Keeps.pure _)

end Shows

/-! ### Resolving -/

variable {w₀ w : Workspace}

/-- A unit that is at hand in the epoch is not refused without what is at hand. -/
def Credible (w₀ : Workspace) : Source → Source → Epoched ResolvedUnit → Prop :=
  fun unit root x => x.epoch = w₀.epoch → Program.refusal? (w₀.world.resolve unit root) = none

/-- Known libraries do not change whether and why a unit is refused. -/
theorem refusal?_program (h : Cached w₀ w) (root : Source) (options : Options) (u : LibraryUnit) :
    Program.refusal?
        ((Program.ofRoot (.reading w₀.world.unit? (w.knownLibrary? w₀.epoch) w₀.world.room) root).bind
          fun p => p.resolve options root u) =
      Program.refusal? ((w₀.world.program root).bind fun p => p.resolve options root u) := by
  unfold World.program
  rcases Program.ofRoot_cases h.warm root with ⟨failure, herror, herror₀⟩ |
    ⟨s, s₀, q, q₀, hgather, hgather₀, -, hq, hq₀, -⟩
  · rw [herror, herror₀]
  · have hs := Program.complete_of_gather h.warm.sound hgather
    have hs₀ := Program.complete_of_gather h.warm.sound_installed hgather₀
    rw [Program.ofRoot_reading, Program.ofRoot_reading, hgather, hgather₀]
    show Program.refusal? ((Program.finish s).bind _) = Program.refusal? ((Program.finish s₀).bind _)
    rw [hq, hq₀]
    refine Program.resolve_congr ?_ options u
    rw [Program.outline_finish h.warm.sound hs hq hs.root_mem,
      Program.outline_finish h.warm.sound_installed hs₀ hq₀ hs₀.root_mem]
    exact (h.warm.alike root).library

/-- A unit that can be read is refused, or not, as in the program that there is with what is kept. -/
theorem refusal?_bind (h : Cached w₀ w) {unit root : Source} {parsed : Parsed}
    (hparse : w₀.world.parse unit = .ok parsed) :
    Program.refusal? (w₀.world.resolve unit root) = Program.refusal?
      ((Program.ofRoot (.reading w₀.world.unit? (w.knownLibrary? w₀.epoch) w₀.world.room) root).bind
        fun p => p.resolve w₀.options root ⟨unit, parsed.tree⟩) := by
  rw [refusal?_program h, World.resolve_eq, hparse]
  rfl

/-- A unit is refused, or not, as the texts have it, and what is kept stays credible. -/
theorem resolve_credible (h : Cached w₀ w) (hshows : Shows (Credible w₀) w) (unit root : Source) :
    Program.refusal? ((resolve unit root).runIn w).1 = Program.refusal? (w₀.world.resolve unit root) ∧
      Shows (Credible w₀) ((resolve unit root).runIn w).2 := by
  have hrun := resolve_cases h unit root
  generalize (resolve unit root).runIn w = run at hrun ⊢
  cases hrun with
  | atHand hkept =>
    refine ⟨?_, hshows⟩
    obtain ⟨x, hx, hu⟩ := Option.bind_eq_some_iff.1 (show ((w.entry unit).resolved.lookup root).bind
      (·.at? w₀.epoch) = some _ from hkept)
    have hepoch : x.epoch = w₀.epoch := by
      by_contra hne
      exact absurd ((if_neg hne).symm.trans hu) nofun
    exact (hshows unit root x hx hepoch).symm
  | unread hparse =>
    refine ⟨?_, (keeps_shows_parse unit).of_run hshows hparse⟩
    rw [World.resolve_eq, (cached_of_parse h hparse).1]
    rfl
  | unbuilt hparse hprogram =>
    have hshows' := (keeps_shows_parse unit).of_run hshows hparse
    have hshows'' := (keeps_shows_program root w₀.epoch).of_run hshows' hprogram
    obtain ⟨hparsed, hw'⟩ := cached_of_parse h hparse
    refine ⟨?_, hshows''⟩
    rw [refusal?_bind hw' hparsed, (cached_of_program hw' hprogram).1]
    rfl
  | refused hparse hprogram hresolve =>
    have hshows' := (keeps_shows_parse unit).of_run hshows hparse
    have hshows'' := (keeps_shows_program root w₀.epoch).of_run hshows' hprogram
    obtain ⟨hparsed, hw'⟩ := cached_of_parse h hparse
    refine ⟨?_, hshows''⟩
    rw [refusal?_bind hw' hparsed, (cached_of_program hw' hprogram).1]
    exact congrArg Program.refusal? hresolve.symm
  | resolved hparse hprogram hresolve =>
    have hshows' := (keeps_shows_parse unit).of_run hshows hparse
    have hshows'' := (keeps_shows_program root w₀.epoch).of_run hshows' hprogram
    obtain ⟨hparsed, hw'⟩ := cached_of_parse h hparse
    have hrefusal : Program.refusal? (w₀.world.resolve unit root) = none := by
      rw [refusal?_bind hw' hparsed, (cached_of_program hw' hprogram).1]
      exact congrArg Program.refusal? hresolve
    refine ⟨hrefusal.symm, hshows''.setEntry fun root' x hx => ?_⟩
    rw [lookup_keepResolved] at hx
    split at hx
    · next hroot => exact fun _ => hroot ▸ hrefusal
    · exact hshows'' unit root' x hx

/-- Given room, nothing comes of resolving a unit only if types can be compared without end in the
    program that it is resolved in. -/
theorem endless_of_exhausted (h : Cached w₀ w) {unit root : Source}
    (hroom : Program.HasRoom w₀.world.unit? w₀.world.installed w₀.world.room root)
    (hexhausted : ((resolve unit root).runIn w).1 = .error .exhausted) :
    ∃ p, ((do let _ ← parse unit; program root w₀.epoch : Request Program).runIn w).1 = .ok p ∧
      p.Endless := by
  have hrun := resolve_cases h unit root
  generalize (resolve unit root).runIn w = run at hrun hexhausted
  cases hrun with
  | atHand hkept => cases hexhausted
  | unread hparse =>
    cases hexhausted
    exact absurd (cached_of_parse h hparse).1 (w₀.world.parse_ne_exhausted unit)
  | unbuilt hparse hprogram =>
    cases hexhausted
    obtain ⟨-, hw'⟩ := cached_of_parse h hparse
    obtain ⟨hfailed, -⟩ := cached_of_program hw' hprogram
    have hne := Program.ofRoot_ne_exhausted hroom w₀.world.unit?_ne_exhausted
    rcases Program.ofRoot_cases hw'.warm root with ⟨failure, herror, herror₀⟩ |
      ⟨s, s₀, q, q₀, hgather, -, -, hq, -⟩
    · exact absurd (herror₀.trans (herror.symm.trans hfailed)) hne
    · rw [Program.ofRoot_reading, hgather] at hfailed
      cases hq.symm.trans hfailed
  | refused hparse hprogram hresolve =>
    cases hexhausted
    refine ⟨_, ?_, Program.endless_of_exhausted hresolve⟩
    rw [runIn_bind_ok hparse, hprogram]
  | resolved => cases hexhausted

/-- Every query keeps what is kept credible. -/
theorem query_credible (h : Cached w₀ w) (hshows : Shows (Credible w₀) w) (q : Query) :
    Cached w₀ (q.run w) ∧ Shows (Credible w₀) (q.run w) := by
  refine Query.keeps (I := fun w => Cached w₀ w ∧ Shows (Credible w₀) w) (fun source w hw => ?_)
    (fun source w hw => ?_) (fun source w hw => ?_) (fun unit root w hw => ?_) q ⟨h, hshows⟩
  · exact ⟨keeps_cached_scan source w hw.1, keeps_shows_scan source w hw.2⟩
  · exact ⟨keeps_cached_parse source w hw.1, keeps_shows_parse source w hw.2⟩
  · exact ⟨(cached_library? hw.1 source).1, keeps_shows_library? source w hw.2⟩
  · exact ⟨(cached_resolve hw.1 unit root).1, (resolve_credible hw.1 hw.2 unit root).2⟩

end Request

/-! ## Histories -/

namespace Workspace

variable {w : Workspace}

/-- Two ways to supply texts that agree about a source. -/
def SameSource (s s' : Sources) (source : Source) : Prop :=
  s'.contents source = s.contents source ∧ s'.stamp? source = s.stamp? source

/-- A history in which changes are announced before every query, and at the end: those that an editor
    makes, and those that are made outside. Some sources have changed before. -/
def Heeded (w : Workspace) (changed : List Source) : List Step → Prop
  | [] => changed = []
  | .setText source text? :: steps =>
    Heeded (w.setText source text?) (source :: changed) steps
  | .outside disk resolvers :: steps => ∃ touched : List Source,
    (∀ source ∉ touched, SameSource w.sources { w.sources with disk, resolvers } source) ∧
      Heeded (Step.run w (.outside disk resolvers)) (touched ++ changed) steps
  | .changed source :: steps => Heeded (w.invalidate source) (changed.filter (· ≠ source)) steps
  | .install under l :: steps => Heeded (Step.run w (.install under l)) changed steps
  | .query q :: steps => changed = [] ∧ Heeded (q.run w) [] steps

/-- Nothing is kept but what is credible, once changes are announced. -/
structure Upright (changed : List Source) (w : Workspace) : Prop where
  settled : Settled changed w
  credible : changed = [] → Request.Shows (Request.Credible w) w

theorem upright_of_before {changed : List Source} (h : Settled changed w)
    (hbefore : ∀ source, (w.entry source).Before w.epoch) : Upright changed w :=
  ⟨h, fun _ unit root x hx hepoch =>
    absurd ((hbefore unit).resolved root x hx) (by rw [hepoch]; exact Nat.lt_irrefl _)⟩

theorem Upright.outside {changed touched : List Source} (h : Upright changed w) {disk : Disk}
    {resolvers : List Resolver} (hsame : ∀ source ∉ touched,
      SameSource w.sources { w.sources with disk, resolvers } source) :
    Upright (touched ++ changed) (Step.run w (.outside disk resolvers)) := by
  have hvalid (source : Source) (hsource : source ∉ touched ++ changed) :
      ((Step.run w (.outside disk resolvers)).entry source).Valid
        (Step.run w (.outside disk resolvers)).sources source := by
    rw [List.mem_append, not_or] at hsource
    obtain ⟨hcontents, hstamp⟩ := hsame source hsource.1
    obtain ⟨hvstamp, hvscan, hvparsed⟩ := h.settled.valid source hsource.2
    exact ⟨fun stamp hs => hstamp.trans (hvstamp stamp hs),
      fun scan hs => (hvscan scan hs).imp fun _ hc => ⟨hcontents.trans hc.1, hc.2⟩,
      fun parsed hp => (hvparsed parsed hp).imp fun _ hc => ⟨hcontents.trans hc.1, hc.2⟩⟩
  -- With nothing touched, it is the same world.
  have hworld (hnone : touched ++ changed = []) :
      (Step.run w (.outside disk resolvers)).world = w.world := by
    have htext : (Step.run w (.outside disk resolvers)).world.text = w.world.text := by
      funext source
      have hcontents := (hsame source (by simp [(List.append_eq_nil_iff.1 hnone).1])).1
      exact congrArg (Except.map Contents.text) hcontents
    exact congrArg (fun text => { w.world with text }) htext
  refine ⟨⟨h.settled.filed, hvalid, h.settled.dated, fun hnone => ?_⟩, fun hnone => ?_⟩
  · have hcached := h.settled.cached (List.append_eq_nil_iff.1 hnone).2
    refine ⟨rfl, rfl, rfl, rfl, rfl, fun source => hvalid source (by simp [hnone]), h.settled.dated, ?_, ?_⟩
    · rw [hworld hnone]
      exact hcached.warm
    · rw [hworld hnone]
      exact hcached.resolved
  · intro unit root x hx hepoch
    rw [hworld hnone]
    exact h.credible (List.append_eq_nil_iff.1 hnone).2 unit root x hx hepoch

theorem Upright.changed {changed : List Source} (h : Upright changed w) (source : Source) :
    Upright (changed.filter (· ≠ source)) (w.invalidate source) := by
  refine upright_of_before (h.settled.changed source) fun t => ?_
  rw [entry_invalidate]
  split
  · exact Entry.before_empty _
  · exact h.settled.dated t

theorem Upright.install {changed : List Source} (h : Upright changed w) (under : Source)
    (l : Library) : Upright changed (Step.run w (.install under l)) := by
  show Upright changed ((w.install under l).toOption.getD w)
  cases hinstall : w.install under l with
  | error failure => exact h
  | ok w' =>
    refine upright_of_before (h.settled.install hinstall) fun t => ?_
    unfold Workspace.install at hinstall
    split at hinstall
    · cases hinstall
    · cases hinstall
      exact h.settled.dated t

theorem Upright.query (h : Upright [] w) (q : Query) : Upright [] (q.run w) := by
  obtain ⟨hcached, hshows⟩ := Request.query_credible (h.settled.cached rfl) (h.credible rfl) q
  refine ⟨h.settled.query q, fun _ unit root x hx hepoch => ?_⟩
  rw [hcached.world]
  exact hshows unit root x hx (hepoch.trans hcached.epoch)

/-- After a history in which changes are announced, all that is kept is credible. -/
theorem Upright.after {changed : List Source} (h : Upright changed w) {steps : List Step}
    (hsteps : Heeded w changed steps) : Upright [] (w.after steps) := by
  induction steps generalizing changed w with
  | nil =>
    have hnone : changed = [] := hsteps
    exact hnone ▸ h
  | cons step steps ih =>
    cases step with
    | setText source text? => exact ih ⟨h.settled.setText source text?, nofun⟩ hsteps
    | outside disk resolvers =>
      obtain ⟨touched, hsame, hsteps⟩ := hsteps
      exact ih (h.outside hsame) hsteps
    | changed source => exact ih (h.changed source) hsteps
    | install under l => exact ih (h.install under l) hsteps
    | query q =>
      obtain ⟨rfl, hsteps⟩ := hsteps
      exact ih (h.query q) hsteps

theorem upright_of_new (hentries : w.entries = []) (hfiled : w.WellFiled) : Upright [] w := by
  refine upright_of_before (settled_of_new hentries hfiled) fun source => ?_
  unfold Workspace.entry
  rw [hentries]
  exact Entry.before_empty _

/-- In a history of a new workspace in which every change is announced before the next query, whether
    and why a unit is refused is settled by the texts and the installed libraries. It does not matter
    what was asked for before. -/
theorem refusal?_after {w₀ : Workspace} (hentries : w₀.entries = []) (hfiled : w₀.WellFiled)
    {steps : List Step} (hsteps : Heeded w₀ [] steps) (unit root : Source) :
    Program.refusal? ((Request.resolve unit root).runIn (w₀.after steps)).1 =
      Program.refusal? ((w₀.after steps).world.resolve unit root) := by
  have h := (upright_of_new hentries hfiled).after hsteps
  exact (Request.resolve_credible (h.settled.cached rfl) (h.credible rfl) unit root).1

/-- In such a history, with a core library that is installed and has all that typing relies on, a
    source that is not installed is answered in one of these ways. If its text cannot be had, the answer
    is why; if it is a part, that it is no library. Otherwise it is resolved if and only if no source
    that it needs is there and cannot be read, unless types are compared without end. A program comes to
    only so many libraries; that there is room for them is taken for granted. -/
theorem resolved_unless_unreadable {w₀ : Workspace} (hentries : w₀.entries = [])
    (hfiled : w₀.WellFiled) {steps : List Step} (hsteps : Heeded w₀ [] steps)
    {core : Library} {types : CoreTypes} (hcore : (w₀.after steps).world.installed .core = some core)
    (htypes : CoreTypes.ofLibrary core = .ok types) {source : Source}
    (hnew : (w₀.after steps).world.installed source = none) :
    let w := w₀.after steps
    let answer := ((Request.resolve source source).runIn w).1
    (∀ e, w.world.text source = .error e → answer = .error (.unreadable e)) ∧
    (∀ text, w.world.text source = .ok text →
      (Parsed.ofText .unit (some source) text).tree.isPart = true →
        answer = .error (.notALibrary source)) ∧
    (∃ room, Program.HasRoom w.world.unit? w.world.installed room source) ∧
    (Program.HasRoom w.world.unit? w.world.installed w.room source →
      ((∃ u, answer = .ok u) ∨ answer = .error .exhausted ↔
        (∃ text, w.world.text source = .ok text ∧
          (Parsed.ofText .unit (some source) text).tree.isPart = false) ∧
        ∀ x, Program.Needs w.world.unit? w.world.installed source x →
          ∀ e, w.world.text x = .error e → e.isAbsence = true) ∧
      (answer = .error .exhausted → ∃ p,
        ((do let _ ← Request.parse source; Request.program source w.epoch : Request Program).runIn w).1 =
          .ok p ∧ p.Endless)) := by
  intro w answer
  have hrefusal : Program.refusal? answer = Program.refusal? (w.world.resolve source source) :=
    refusal?_after hentries hfiled hsteps source source
  have hupright : Upright [] w := (upright_of_new hentries hfiled).after hsteps
  refine ⟨fun e he => ?_, fun text htext hpart => ?_, w.exists_hasRoom source, fun hroom => ⟨?_, ?_⟩⟩
  · rw [World.resolve_of_unreadable he source] at hrefusal
    exact Program.eq_error_of_refusal? hrefusal
  · rw [World.resolve_of_part hnew htext hpart] at hrefusal
    exact Program.eq_error_of_refusal? hrefusal
  · rw [← Program.refusal?_eq_none, hrefusal]
    exact World.refusal?_resolve_eq_none hupright.settled.filed hcore htypes hnew hroom
  · exact Request.endless_of_exhausted (hupright.settled.cached rfl) hroom

/-! ## Samples -/

/-- Whether a request is answered, and if not, why. -/
def outcome {α : Type} (answer : Except Failure α) : Except Failure Unit := answer.map fun _ => ()

theorem outcome_eq_ok {α : Type} {answer : Except Failure α} :
    outcome answer = .ok () ↔ ∃ a, answer = .ok a := by
  cases answer with
  | error failure => exact iff_of_false nofun (by rintro ⟨a, ⟨⟩⟩)
  | ok a => exact iff_of_true rfl ⟨a, rfl⟩

theorem outcome_eq_error {α : Type} {answer : Except Failure α} {failure : Failure} :
    outcome answer = .error failure ↔ answer = .error failure := by
  cases answer with
  | error failure' => exact ⟨fun h => by cases h; rfl, fun h => by cases h; rfl⟩
  | ok a => exact iff_of_false nofun nofun

def fileA : Source := ⟨.file, "a"⟩

def fileB : Source := ⟨.file, "b"⟩

/-- A new workspace over a directory in which nothing is but a directory `b`. -/
def overDirectory (core : Library) : Workspace where
  options := {}
  sources := .standard { directories := [["b".toList]] } none
  installed := [(.core, core)]

/-- A workspace that can read nothing but what an editor holds. -/
def edited : Workspace where
  options := {}
  sources := { resolvers := [] }
  installed := [(.core, Program.coreSample)]

/-- A library names a part that there is no text for. -/
def partless : Workspace := edited.after [.setText fileA (some "part 'b';"), .changed fileA]

theorem text_partless {x : Source} (hx : x ≠ fileA) :
    partless.world.text x = .error (.unresolvable x) := by
  have hnone : partless.sources.overlay.lookup x = none := by
    have hlookup := edited.sources.lookup_overlay_setText fileA x (some "part 'b';")
    rw [if_neg hx] at hlookup
    exact hlookup
  show (partless.sources.contents x).map Contents.text = _
  unfold Sources.contents
  rw [hnone]
  rfl

theorem isAbsence_partless {x : Source} {e : ReadError} (he : partless.world.text x = .error e) :
    e.isAbsence = true := by
  by_cases hx : x = fileA
  · have htext : partless.world.text fileA = .ok "part 'b';" := rfl
    cases htext.symm.trans (hx ▸ he)
  · cases (text_partless hx).symm.trans he
    rfl

theorem installed_edited {x : Source} {l : Library} (hl : edited.installed.lookup x = some l) :
    x = .core ∧ l = Program.coreSample := by
  have hl : (if x == .core then some Program.coreSample else none) = some l := by
    rw [← hl]
    show _ = [(Source.core, Program.coreSample)].lookup x
    rw [List.lookup_cons]
    cases x == Source.core <;> rfl
  split at hl
  · next hx => exact ⟨eq_of_beq hx, (Option.some.inj hl).symm⟩
  · cases hl

theorem wellFiled_edited : edited.WellFiled := by
  intro x l hl
  obtain ⟨rfl, rfl⟩ := installed_edited hl
  rfl

theorem hasRoom_partless :
    Program.HasRoom partless.world.unit? partless.world.installed partless.room fileA := by
  refine ⟨[fileA, .core], by decide, fun x _ hx => List.mem_pair.2 ?_⟩
  rcases hx with hx | ⟨t, ht⟩
  · obtain ⟨l, hl⟩ := Option.isSome_iff_exists.1 hx
    exact .inr (installed_edited hl).1
  · obtain ⟨text, hx, -⟩ := World.text_of_unit? ht.2.1
    by_contra hne
    cases (text_partless fun h => hne (.inl h)).symm.trans hx

set_option maxRecDepth 20000 in
/-- Types that nest nothing are compared in steps that end. -/
theorem not_endless_partless {p : Program} (hp : ((do
    let _ ← Request.parse fileA
    Request.program fileA partless.epoch : Request Program).runIn partless).1 = .ok p) : ¬ p.Endless := by
  have hflat : (((do
      let _ ← Request.parse fileA
      Request.program fileA partless.epoch : Request Program).runIn partless).1.map fun p =>
        p.graph.libraries.all fun l => l.elements.toList.all fun e =>
          (e.supertypes ++ e.bound?.toList).all (·.nesting == 0)) = .ok true := by
    cbv
  rw [hp] at hflat
  refine Program.not_endless fun l hl e he t ht => ?_
  have hall := List.all_eq_true.1 (Except.ok.inj hflat) l hl
  exact eq_of_beq (List.all_eq_true.1 (List.all_eq_true.1 hall e he) t ht)

set_option maxRecDepth 20000 in
/-- A part has no text where there is no file; the library is resolved without it. -/
theorem resolved_without_part :
    let w := edited.after [.setText fileA (some "part 'b';"), .changed fileA]
    w.world.text fileB = .error (.unresolvable fileB) ∧
      ∃ u, ((Request.resolve fileA fileA).runIn w).1 = .ok u := by
  intro w
  have htext : w.world.text fileA = .ok "part 'b';" := rfl
  have hpart : (Parsed.ofText .unit (some fileA) "part 'b';").tree.isPart = false := by cbv
  have hsound : (CoreTypes.ofLibrary Program.coreSample).isOk = true := by cbv
  cases htypes : CoreTypes.ofLibrary Program.coreSample with
  | error defect =>
    rw [htypes] at hsound
    cases hsound
  | ok types =>
    obtain ⟨-, -, -, hanswer⟩ := @resolved_unless_unreadable edited rfl wellFiled_edited
      [.setText fileA (some "part 'b';"), .changed fileA] (by simp [Heeded]) Program.coreSample types
      rfl htypes fileA rfl
    obtain ⟨hanswer, hends⟩ := hanswer hasRoom_partless
    refine ⟨text_partless (by decide), (hanswer.2 ⟨⟨_, htext, hpart⟩, fun x _ e he =>
      isAbsence_partless he⟩).resolve_right fun hexhausted => ?_⟩
    obtain ⟨p, hp, hendless⟩ := hends hexhausted
    exact not_endless_partless hp hendless

/-- The part of a library is taken away after the library was resolved, so that a directory of that
    name is read in its place. Nobody announces it. -/
def staleSample : Workspace := (overDirectory Program.coreSample).after
  [.setText fileB (some ""), .setText fileA (some "part 'b';"), .query (.resolve fileA fileA),
    .setText fileB none]

/-- A library without directives, where the core library imports the directory. -/
def linkedSample : Workspace :=
  (overDirectory { Program.coreSample with imports := [⟨"b", some fileB, none, []⟩] }).after
    [.setText fileA (some "")]

set_option maxRecDepth 20000 in
/-- The stale library is answered although its part cannot be read. The other one is not, although its
    own text leads nowhere. -/
theorem resolved_stale :
    ((Parsed.ofText .unit (some fileA) "part 'b';").tree.partSources fileA = [fileB] ∧
      staleSample.world.text fileA = .ok "part 'b';" ∧
      staleSample.world.text fileB = .error (.broken "b") ∧
      ∃ u, ((Request.resolve fileA fileA).runIn staleSample).1 = .ok u) ∧
    ((Parsed.ofText .unit (some fileA) "").tree.directives = [] ∧
      linkedSample.world.text fileA = .ok "" ∧
      ((Request.resolve fileA fileA).runIn linkedSample).1 = .error (.unreadable (.broken "b"))) := by
  have hstale : (staleSample.world.text fileA, staleSample.world.text fileB,
      outcome ((Request.resolve fileA fileA).runIn staleSample).1) =
      (.ok "part 'b';", .error (.broken "b"), .ok ()) := by
    cbv
  have hlinked : (linkedSample.world.text fileA,
      outcome ((Request.resolve fileA fileA).runIn linkedSample).1) =
      (.ok "", .error (.unreadable (.broken "b"))) := by
    cbv
  obtain ⟨htext, hrest⟩ := Prod.mk.inj hstale
  obtain ⟨hbroken, hanswered⟩ := Prod.mk.inj hrest
  obtain ⟨hempty, hfailed⟩ := Prod.mk.inj hlinked
  exact ⟨⟨by cbv, htext, hbroken, outcome_eq_ok.1 hanswered⟩, by cbv, hempty,
    outcome_eq_error.1 hfailed⟩

end Workspace

end DartAnalysis
