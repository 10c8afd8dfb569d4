/-
  Changes that nobody announced. A text that moved since it was scanned (`Moved`) is noticed by every
  request that starts with its stamp: resolving the source, and asking for its problems, is then the
  same as after an announcement, answer and workspace alike (`resolve_of_moved`, `errors_of_moved`).

  A library is looked up by epoch, and its source is only looked at if that finds nothing. So the
  library of a moved source, or an element in it, is up to date if no library of the source is at
  hand (`library?_reflects`); one at hand is given again as it is (`runIn_library?_of_known`).
-/
import DartAnalysis.Proofs.Binding.Reports
import DartAnalysis.Proofs.Program.Finished
import DartAnalysis.Proofs.Workspace.Freshness
import DartAnalysis.Proofs.Workspace.Transparency

namespace DartAnalysis

/-! ## Moved texts -/

namespace Workspace

/-- The text of a source has another stamp than the one it was scanned at. -/
def Moved (w : Workspace) (source : Source) : Prop :=
  ∃ stamp, (w.entry source).stamp? = some stamp ∧ w.sources.stamp? source ≠ some stamp

section Moved

variable {w : Workspace} {source : Source}

theorem validate_of_moved (h : w.Moved source) : w.validate source = w.invalidate source := by
  obtain ⟨stamp, hscanned, hmoved⟩ := h
  rcases w.validate_cases source with heq | ⟨-, hstamp⟩
  · exact heq
  · exact absurd (hstamp stamp hscanned) hmoved

theorem entry_invalidate_self : (w.invalidate source).entry source = {} := by
  rw [entry_invalidate, if_pos rfl]

/-- There is nothing to notice after an announcement. -/
theorem validate_invalidate : (w.invalidate source).validate source = w.invalidate source := by
  unfold validate
  rw [entry_invalidate_self]
  rfl

theorem world_invalidate : (w.invalidate source).world = w.world := by
  unfold world
  rw [options_invalidate, sources_invalidate, installed_invalidate, room_invalidate]

end Moved

end Workspace

namespace Request

open Workspace

section Moved

variable {w : Workspace} {source : Source} (h : w.Moved source)
include h

/-- A request that validates its source first cannot tell a moved text from an announced one. -/
theorem runIn_validate_bind_of_moved {α : Type} (act : Request α) :
    (validate source >>= fun _ => act).runIn w =
      (validate source >>= fun _ => act).runIn (w.invalidate source) := by
  rw [runIn_bind, runIn_bind, runIn_validate, runIn_validate, validate_of_moved h,
    validate_invalidate]

theorem parse_of_moved : (parse source).runIn w = (parse source).runIn (w.invalidate source) :=
  runIn_validate_bind_of_moved h _

theorem resolve_of_moved :
    (resolve source source).runIn w = (resolve source source).runIn (w.invalidate source) :=
  runIn_validate_bind_of_moved h _

theorem errors_of_moved :
    (errors source).runIn w = (errors source).runIn (w.invalidate source) := by
  unfold Request.errors
  rw [runIn_bind, runIn_bind, parse_of_moved h]

end Moved

/-! ## What is answered -/

variable {α β : Type} {I J : Workspace → Prop}

/-- In workspaces of a kind, what is answered is as required. -/
def Yields (I : Workspace → Prop) (act : Request α) (Q : α → Prop) : Prop :=
  ∀ w, I w → ∀ a, (act.runIn w).1 = .ok a → Q a

namespace Yields

variable {Q : α → Prop} {R : β → Prop}

theorem pure {a : α} (ha : Q a) : Yields I (Pure.pure a) Q := by
  intro w _ b hb
  cases hb
  exact ha

theorem throw (failure : Failure) : Yields I (MonadExcept.throw failure) Q := by
  intro w _ a ha
  cases ha

theorem bind {act : Request α} {f : α → Request β} (hact : Yields I act Q) (hkeep : Keeps I act)
    (hf : ∀ a, Q a → Yields I (f a) R) : Yields I (act >>= f) R := by
  intro w hw b hb
  have ha := hact w hw
  have hw' := hkeep w hw
  rw [runIn_bind] at hb
  cases hrun : act.runIn w with
  | mk result w' =>
    rw [hrun] at ha hw' hb
    cases result with
    | error failure => cases hb
    | ok a => exact hf a (ha a rfl) w' hw' b hb

theorem of_answers {act : Request α} {answer : Except Failure α} (h : Answers I act answer)
    (hQ : ∀ a, answer = .ok a → Q a) : Yields I act Q :=
  fun w hw a ha => hQ a ((h w hw).1.symm.trans ha)

theorem trivial (act : Request α) : Yields I act fun _ => True := fun _ _ _ _ => True.intro

theorem mono (hIJ : ∀ w, I w → J w) {act : Request α} (h : Yields J act Q) : Yields I act Q :=
  fun w hw => h w (hIJ w hw)

theorem ofExcept {e : Except Failure α} (h : ∀ a, e = .ok a → Q a) :
    Yields I (MonadExcept.ofExcept e : Request α) Q := by
  cases e with
  | error failure => exact throw failure
  | ok a => exact pure (h a rfl)

/-- What is answered after a request that may do anything. -/
theorem bind_any {act : Request α} {f : α → Request β}
    (hf : ∀ a, Yields (fun _ => True) (f a) R) : Yields (fun _ => True) (act >>= f) R :=
  bind (trivial act) (fun _ _ => True.intro) fun a _ => hf a

theorem filterMapM {f : α → Request (Option β)} {g : β → α}
    (hkeep : ∀ a, Keeps I (f a)) (hf : ∀ a, Yields I (f a) fun b? => ∀ b ∈ b?, g b = a)
    (xs : List α) : Yields I (xs.filterMapM f) fun bs => (bs.map g).Sublist xs := by
  induction xs with
  | nil =>
    rw [List.filterMapM_nil]
    exact pure (List.Sublist.refl _)
  | cons x xs ih =>
    rw [List.filterMapM_cons]
    refine bind (hf x) (hkeep x) fun b? hb => ?_
    cases b? with
    | none =>
      intro w hw bs hbs
      exact (ih w hw bs hbs).cons x
    | some b =>
      refine bind ih (Keeps.filterMapM hkeep xs) fun bs hbs => pure ?_
      rw [List.map_cons, hb b rfl]
      exact hbs.cons_cons x

end Yields

theorem Keeps.and {act : Request α} (hI : Keeps I act) (hJ : Keeps J act) :
    Keeps (fun w => I w ∧ J w) act :=
  fun w hw => ⟨hI w hw.1, hJ w hw.2⟩

/-! ## Libraries that are kept -/

/-- Workspaces with given installed libraries, that keep libraries of a kind. -/
structure Shelves (installed : List (Source × Library)) (P : Source → Epoched Library → Prop)
    (w : Workspace) : Prop where
  installed : w.installed = installed
  kept : ∀ source x, (w.entry source).library? = some x → P source x

section Shelves

variable {installed : List (Source × Library)} {P : Source → Epoched Library → Prop} {w : Workspace}

theorem Shelves.setEntry (h : Shelves installed P w) {source : Source} {e : Entry}
    (he : ∀ x, e.library? = some x → P source x) : Shelves installed P (w.setEntry source e) := by
  refine ⟨(w.installed_setEntry source e).trans h.installed, fun s x hx => ?_⟩
  rw [entry_setEntry] at hx
  split at hx
  · next hs => exact hs ▸ he x hx
  · exact h.kept s x hx

theorem Shelves.invalidate (h : Shelves installed P w) (source : Source) :
    Shelves installed P (w.invalidate source) := by
  refine ⟨(w.installed_invalidate source).trans h.installed, fun s x hx => ?_⟩
  rw [entry_invalidate] at hx
  split at hx
  · cases hx
  · exact h.kept s x hx

theorem keeps_shelves_validate (source : Source) : Keeps (Shelves installed P) (validate source) := by
  intro w hw
  show Shelves installed P (w.validate source)
  rcases w.validate_cases source with heq | ⟨heq, -⟩ <;> rw [heq]
  · exact hw.invalidate source
  · exact hw

theorem keeps_shelves_updateEntry {source : Source} {f : Entry → Entry}
    (hf : ∀ e x, (f e).library? = some x → e.library? = some x ∨ P source x) :
    Keeps (Shelves installed P) (updateEntry source f) := by
  intro w hw
  refine hw.setEntry fun x hx => ?_
  rcases hf _ x hx with h | h
  · exact hw.kept source x h
  · exact h

theorem keeps_shelves_scan (source : Source) : Keeps (Shelves installed P) (scan source) := by
  refine Keeps.bind (keeps_shelves_validate source) fun _ => Keeps.bind (Keeps.entry source) fun e => ?_
  split
  · exact Keeps.pure _
  · refine Keeps.bind (Keeps.contents source) fun c => ?_
    exact Keeps.bind (keeps_shelves_updateEntry fun _ _ => .inl) fun _ => Keeps.pure _

theorem keeps_shelves_parse (source : Source) : Keeps (Shelves installed P) (parse source) := by
  refine Keeps.bind (keeps_shelves_validate source) fun _ => Keeps.bind (Keeps.entry source) fun e => ?_
  split
  · exact Keeps.pure _
  · refine Keeps.bind (keeps_shelves_scan source) fun scan => ?_
    exact Keeps.bind (keeps_shelves_updateEntry fun _ _ => .inl) fun _ => Keeps.pure _

/-- A kept library stands at its own source. -/
abbrev Filed (installed : List (Source × Library)) : Workspace → Prop :=
  Shelves installed fun source x => x.value.source = source

theorem keeps_filed_program (root : Source) (epoch : Nat) :
    Keeps (Filed installed) (program root epoch) := by
  refine Keeps.bind Keeps.workspace fun w => ?_
  refine Keeps.bind (keeps_ofRoot keeps_shelves_parse epoch w.room root) fun p => ?_
  refine Keeps.bind Keeps.workspace fun w => ?_
  dsimp only
  split
  · refine Keeps.bind (Keeps.forM fun l _ => keeps_shelves_updateEntry fun e x hx => .inr ?_)
      fun _ => Keeps.pure _
    cases hx
    rfl
  · exact Keeps.pure _

theorem keeps_filed_library? (source : Source) : Keeps (Filed installed) (library? source) := by
  refine Keeps.bind Keeps.epoch fun epoch => Keeps.bind Keeps.workspace fun w => ?_
  split
  · exact Keeps.pure _
  · refine Keeps.bind (keeps_unit? keeps_shelves_parse source) fun tree? => ?_
    cases tree? with
    | none => exact Keeps.pure _
    | some t =>
      exact Keeps.branch (Keeps.pure _)
        (Keeps.bind (keeps_filed_program source epoch) fun _ => Keeps.pure _)

theorem keeps_filed_resolve (unit root : Source) :
    Keeps (Filed installed) (resolve unit root) := by
  refine Keeps.bind (keeps_shelves_validate root) fun _ =>
    Keeps.bind (keeps_shelves_validate unit) fun _ => Keeps.bind Keeps.epoch fun epoch =>
      Keeps.bind (Keeps.entry unit) fun e => ?_
  split
  · exact Keeps.pure _
  · refine Keeps.bind (keeps_shelves_parse unit) fun parsed =>
      Keeps.bind (keeps_filed_program root epoch) fun p => Keeps.bind Keeps.workspace fun w => ?_
    split
    · exact Keeps.throw _
    · refine Keeps.bind Keeps.workspace fun w' => ?_
      dsimp only
      split
      · exact Keeps.bind (keeps_shelves_updateEntry fun _ _ => .inl) fun _ => Keeps.pure _
      · exact Keeps.pure _

end Shelves

end Request

namespace Workspace

/-- Libraries stand at their own sources after every step. -/
theorem filed_step {w : Workspace} (hfiled : w.WellFiled) (h : Request.Filed w.installed w)
    (step : Step) : (step.run w).WellFiled ∧ Request.Filed (step.run w).installed (step.run w) := by
  cases step with
  | setText source text? => exact ⟨hfiled, rfl, h.kept⟩
  | outside disk resolvers => exact ⟨hfiled, rfl, h.kept⟩
  | changed source =>
    refine ⟨?_, ?_⟩
    · unfold WellFiled
      rw [show (Step.run w (.changed source)).installed = w.installed from
        w.installed_invalidate source]
      exact hfiled
    · rw [show (Step.run w (.changed source)).installed = w.installed from
        w.installed_invalidate source]
      exact h.invalidate source
  | install under l =>
    show ((w.install under l).toOption.getD w).WellFiled ∧ Request.Filed
      ((w.install under l).toOption.getD w).installed ((w.install under l).toOption.getD w)
    cases hinstall : w.install under l with
    | error failure => exact ⟨hfiled, h⟩
    | ok w' =>
      refine ⟨WellFiled.install hfiled hinstall, rfl, ?_⟩
      unfold install at hinstall
      split at hinstall
      · cases hinstall
      · cases hinstall
        exact h.kept
  | query q =>
    have hq : Request.Filed w.installed (q.run w) :=
      q.keeps Request.keeps_shelves_scan Request.keeps_shelves_parse
        Request.keeps_filed_library? Request.keeps_filed_resolve h
    have hinstalled : (Step.run w (.query q)).installed = w.installed := hq.installed
    refine ⟨?_, hinstalled ▸ hq⟩
    unfold WellFiled
    rw [hinstalled]
    exact hfiled

theorem filed_after {w₀ : Workspace} (hw₀ : w₀.entries = []) (hfiled : w₀.WellFiled)
    (steps : List Step) : (w₀.after steps).WellFiled ∧
      Request.Filed (w₀.after steps).installed (w₀.after steps) := by
  induction steps using List.reverseRecOn with
  | nil =>
    refine ⟨hfiled, rfl, fun source x hx => ?_⟩
    have hnone : w₀.entry source = {} := by
      unfold entry
      rw [hw₀]
      rfl
    have hx : (w₀.entry source).library? = some x := hx
    rw [hnone] at hx
    cases hx
  | append_singleton steps step ih =>
    rw [after_append]
    exact filed_step ih.1 ih.2 step

end Workspace

/-! ## Libraries from the texts that are there now -/

/-- What a query for the library of a source answers if it goes by the text that the source has now.
    A library may still fail for other sources that it needs. -/
inductive World.Reflects (W : World) (source : Source) : Except Failure (Option Library) → Prop where
  | unreadable {failure : Failure} (hunit : W.unit? source = .error failure) :
      Reflects W source (.error failure)
  | absent (hunit : W.unit? source = .ok none) : Reflects W source (.ok none)
  | part {t : Tree} (hunit : W.unit? source = .ok (some t)) (hpart : t.isPart) :
      Reflects W source (.ok none)
  | library {t : Tree} (hunit : W.unit? source = .ok (some t)) (hpart : t.isPart = false)
      {edition : Nat} {parts : List LibraryUnit}
      (hparts : (parts.map LibraryUnit.source).Sublist (t.partSources source)) {l : Library}
      (hl : l.outline = (Library.ofUnits ⟨source, edition⟩ (⟨source, t⟩ :: parts)).outline) :
      Reflects W source (.ok (some l))
  | failed {t : Tree} (hunit : W.unit? source = .ok (some t)) (hpart : t.isPart = false)
      (failure : Failure) : Reflects W source (.error failure)

namespace Program

/-- A program in the making that has a library of a given outline at a source, and no library at a
    source that it has not visited. -/
structure Gathering.Holds (source : Source) (outline : Library) (s : Gathering) : Prop where
  library : (s.graph.libraryOf? source).map Library.outline = some outline
  visited : source ∈ s.visited

theorem Gathering.Holds.enter {source other root : Source} {outline : Library} {found : Found}
    {s s' : Gathering} (h : s.Holds source outline) (hne : other ∉ s.visited)
    (hfound : ∀ l, found.library? = some l → l.source = other)
    (hs' : s.enter root other found = .ok s') : s'.Holds source outline := by
  have hvisited := (enter_eq_ok hs').2
  refine ⟨?_, hvisited ▸ List.mem_cons_of_mem _ h.visited⟩
  unfold Gathering.enter at hs'
  split at hs'
  · cases hs'
  · cases hs'
    dsimp only
    cases hl : found.library? with
    | none => exact h.library
    | some l =>
      -- The library that is put in has a source that was not visited.
      have hother : l.source ≠ source := fun heq => hne (hfound l hl ▸ heq ▸ h.visited)
      rw [← h.library]
      congr 1
      unfold Graph.libraryOf? Graph.insert
      rw [List.find?_append, List.find?_filter]
      have hlast : List.find? (fun k : Library => k.source == source) [l] = none := by
        simpa using hother
      rw [hlast, Option.or_none]
      congr 1
      refine funext fun k => ?_
      by_cases hk : k.source = source
      · simp [hk, Ne.symm hother]
      · simp [hk]

theorem holds_enter_new {source root : Source} {l : Library} {units : List LibraryUnit}
    {s s' : Gathering} (hl : l.source = source)
    (hs' : s.enter root source (.built l units) = .ok s') : s'.Holds source l.outline := by
  cases hs'
  refine ⟨?_, List.mem_cons_self⟩
  show (Graph.libraryOf? (s.graph.insert l) source).map Library.outline = _
  unfold Graph.libraryOf? Graph.insert
  rw [List.find?_append]
  have hnone : List.find? (fun k : Library => k.source == source)
      (s.graph.libraries.filter fun k => k.source != l.source) = none := by
    rw [List.find?_eq_none]
    intro k hk
    simpa [hl] using (List.mem_filter.1 hk).2
  rw [hnone]
  simp [hl]

theorem Gathering.Holds.finish {source : Source} {outline : Library} {s : Gathering}
    (h : s.Holds source outline) {p : Program} (hp : finish s = .ok p) :
    (p.graph.libraryOf? source).map Library.outline = some outline := by
  obtain ⟨-, -, -, hgraph, -⟩ := finish_eq_ok hp
  rw [hgraph, Graph.outline_libraryOf?_declareAll, h.library]

end Program

namespace Request

variable {w₁ : Workspace} {source : Source}

/-- A text of a source that has the stamp of its present text is that text. -/
def Telling (s : Sources) (source : Source) : Source → Contents → Prop :=
  fun other c => other = source → s.stamp? other = some c.stamp →
    (s.contents other).map Contents.text = .ok c.text

theorem telling_of_contents {s : Sources} {source other : Source} {c : Contents}
    (h : s.contents other = .ok c) : Telling s source other c := by
  intro _ _
  rw [h]
  rfl

/-- Workspaces in which the library of a source is being built: its text is not taken from elsewhere,
    and no library of it is kept in the epoch. -/
def Looking (w₁ : Workspace) (source : Source) (w : Workspace) : Prop :=
  Sourced w₁.sources (Telling w₁.sources source) w ∧
    Shelves w₁.installed (fun other x => x.value.source = other ∧
      (other = source → x.epoch ≠ w₁.epoch)) w

theorem keeps_looking_parse (other : Source) : Keeps (Looking w₁ source) (parse other) :=
  Keeps.and (keeps_parse (fun _ _ => telling_of_contents) other) (keeps_shelves_parse other)

theorem answers_looking_unit? :
    Answers (Looking w₁ source) (unit? source) (w₁.world.unit? source) := by
  intro w hw
  refine ⟨?_, keeps_unit? keeps_looking_parse source w hw⟩
  have hparse := (parse_spec (fun _ _ => telling_of_contents) source hw.1).2
  unfold Request.unit? World.unit?
  rw [runIn_tryCatch, runIn_bind]
  cases hrun : (parse source).runIn w with
  | mk result w' =>
    rw [hrun] at hparse
    cases result with
    | ok parsed =>
      obtain ⟨c, hc, hstamp, rfl⟩ := hparse
      have htext : w₁.world.text source = .ok c.text := hc rfl hstamp
      rw [htext]
      rfl
    | error failure =>
      obtain ⟨e, he, rfl⟩ := hparse
      rw [Workspace.text_of_error he]
      dsimp only
      split <;> rfl

section Find

variable {room : Nat} (hfiled : w₁.WellFiled)
include hfiled

theorem yields_looking_find (other : Source) :
    Yields (Looking w₁ source) (Program.find (provider w₁.epoch room) other)
      fun found => ∀ l, found.library? = some l → l.source = other := by
  have hknown : Yields (Looking w₁ source) ((provider w₁.epoch room).library? other)
      fun l? => ∀ l, l? = some l → l.source = other := by
    intro w hw l? hl? l hl
    cases hl?
    unfold Workspace.knownLibrary? at hl
    rw [hw.2.installed] at hl
    cases hinstalled : w₁.installed.lookup other with
    | some k =>
      rw [hinstalled] at hl
      cases hl
      exact hfiled other _ hinstalled
    | none =>
      rw [hinstalled] at hl
      obtain ⟨x, hx, hl⟩ := Option.bind_eq_some_iff.1 (show (w.entry other).library?.bind _ = _ from hl)
      unfold Epoched.at? at hl
      split at hl
      · cases hl
        exact (hw.2.kept other x hx).1
      · cases hl
  have hkeep : Keeps (Looking w₁ source) ((provider w₁.epoch room).library? other) :=
    Keeps.bind Keeps.workspace fun _ => Keeps.pure _
  refine Yields.bind hknown hkeep fun l? hl? => ?_
  cases l? with
  | some l => exact Yields.pure hl?
  | none =>
    refine Yields.bind (Yields.trivial _) (keeps_unit? keeps_looking_parse other) fun tree? _ => ?_
    cases tree? with
    | none => exact Yields.pure nofun
    | some t =>
      dsimp only
      split
      · exact Yields.pure nofun
      · refine Yields.bind (Yields.trivial _) (Keeps.filterMapM (fun part =>
          Keeps.bind (keeps_unit? keeps_looking_parse part) fun _ => Keeps.pure _) _) fun parts _ => ?_
        refine Yields.bind (Yields.trivial _) (Keeps.bind Keeps.workspace fun _ => Keeps.pure _)
          fun edition _ => Yields.pure fun l hl => ?_
        cases hl
        rfl

theorem yields_looking_gather {outline : Library} (root : Source) (budget : Nat)
    (queue : List Source) (s : Program.Gathering) (hs : s.Holds source outline) :
    Yields (Looking w₁ source) (Program.gather (provider w₁.epoch room) root budget queue s)
      (Program.Gathering.Holds source outline) := by
  induction budget, queue, s using Program.gather_induct with
  | nil =>
    rw [Program.gather_nil]
    exact Yields.pure hs
  | seen budget other rest s hseen ih =>
    rw [Program.gather_seen _ _ _ _ hseen]
    exact ih hs
  | new budget other rest s hnew ih ih' =>
    rw [Program.gather_new _ _ _ _ hnew]
    refine Yields.bind (yields_looking_find hfiled other)
      (keeps_find keeps_looking_parse _ _ other) fun found hfound => ?_
    have henter : Yields (Looking w₁ source)
        (MonadExcept.ofExcept (s.enter root other found) : Request Program.Gathering)
        (Program.Gathering.Holds source outline) :=
      Yields.ofExcept fun s' hs' => hs.enter hnew hfound hs'
    refine Yields.bind henter (Keeps.ofExcept _) fun s' hs' => ?_
    unfold Program.proceed
    split
    · exact ih s' hs'
    · exact Yields.throw _
    · exact ih' _ _ s' rfl hs'

theorem yields_looking_proceed {outline : Library} (root : Source) (budget : Nat) (rest : List Source)
    (found : Program.Found) {s : Program.Gathering} (hs : s.Holds source outline) :
    Yields (Looking w₁ source) (Program.proceed (provider w₁.epoch room) root budget s rest found)
      (Program.Gathering.Holds source outline) := by
  unfold Program.proceed
  split
  · exact yields_looking_gather hfiled root _ _ s hs
  · exact Yields.throw _
  · exact yields_looking_gather hfiled root _ _ s hs

end Find

section Reflects

variable {room : Nat} (hfiled : w₁.WellFiled) (hnew : w₁.installed.lookup source = none) {t : Tree}
  (hunit : w₁.world.unit? source = .ok (some t)) (hpart : t.isPart = false)

include hnew hunit hpart in
/-- The library that is found at a source without one is built from the unit of its text. -/
theorem yields_looking_find_self :
    Yields (Looking w₁ source) (Program.find (provider w₁.epoch room) source) fun found =>
      ∃ (edition : Nat) (parts : List LibraryUnit),
        (parts.map LibraryUnit.source).Sublist (t.partSources source) ∧
          found = .built (.ofUnits ⟨source, edition⟩ (⟨source, t⟩ :: parts))
            (⟨source, t⟩ :: parts) := by
  have hknown : Yields (Looking w₁ source) ((provider w₁.epoch room).library? source)
      (· = none) := by
    intro w hw l? hl?
    cases hl?
    unfold Workspace.knownLibrary?
    rw [hw.2.installed, hnew]
    show (w.entry source).libraryAt? w₁.epoch = none
    unfold Entry.libraryAt?
    cases hx : (w.entry source).library? with
    | none => rfl
    | some x => exact if_neg ((hw.2.kept source x hx).2 rfl)
  refine Yields.bind hknown (Keeps.bind Keeps.workspace fun _ => Keeps.pure _) fun l? hl? => ?_
  subst hl?
  have htree : Yields (Looking w₁ source) ((provider w₁.epoch room).unit? source) (· = some t) :=
    Yields.of_answers answers_looking_unit? fun tree? h => by
      rw [hunit] at h
      exact (Except.ok.inj h).symm
  refine Yields.bind htree (keeps_unit? keeps_looking_parse source) fun tree? htree? => ?_
  subst htree?
  dsimp only
  rw [if_neg (by simp [hpart])]
  have hunits (part : Source) : Yields (Looking w₁ source)
      (do return (← (provider w₁.epoch room).unit? part).map fun tree => (⟨part, tree⟩ : LibraryUnit))
      fun b? => ∀ b ∈ b?, b.source = part := by
    refine Yields.bind (Yields.trivial _) (keeps_unit? keeps_looking_parse part) fun tree? _ =>
      Yields.pure fun b hb => ?_
    obtain ⟨tree, -, rfl⟩ := Option.map_eq_some_iff.1 (Option.mem_def.1 hb)
    rfl
  have hkeep (part : Source) : Keeps (Looking w₁ source)
      (do return (← (provider w₁.epoch room).unit? part).map fun tree => (⟨part, tree⟩ : LibraryUnit)) :=
    Keeps.bind (keeps_unit? keeps_looking_parse part) fun _ => Keeps.pure _
  refine Yields.bind (Yields.filterMapM hkeep hunits _) (Keeps.filterMapM hkeep _)
    fun parts hparts => ?_
  refine Yields.bind (Yields.trivial _) (Keeps.bind Keeps.workspace fun _ => Keeps.pure _)
    fun edition _ => Yields.pure ⟨edition, parts, hparts, rfl⟩

include hfiled hnew hunit hpart in
theorem yields_looking_program :
    Yields (Looking w₁ source) (program source w₁.epoch) fun p =>
      ∃ l, p.graph.libraryOf? source = some l ∧ w₁.world.Reflects source (.ok (some l)) := by
  have hroot (room : Nat) : Yields (Looking w₁ source)
      (Program.ofRoot (provider w₁.epoch room) source) fun p =>
      ∃ l, p.graph.libraryOf? source = some l ∧ w₁.world.Reflects source (.ok (some l)) := by
    unfold Program.ofRoot
    rw [Program.gather_new _ _ _ _ (List.not_mem_nil)]
    simp only [bind_assoc]
    refine Yields.bind (yields_looking_find_self hnew hunit hpart)
      (keeps_find keeps_looking_parse _ _ source) fun found hfound => ?_
    obtain ⟨edition, parts, hparts, rfl⟩ := hfound
    refine Yields.bind (Yields.ofExcept fun s' hs' => Program.holds_enter_new rfl hs')
      (Keeps.ofExcept _) fun s' hs' => ?_
    refine Yields.bind (yields_looking_proceed hfiled source _ _ _ hs')
      (keeps_proceed keeps_looking_parse _ _ source _ _ _ s') fun s'' hs'' => ?_
    refine Yields.ofExcept fun p hp => ?_
    obtain ⟨l, hl, houtline⟩ := Option.map_eq_some_iff.1 (hs''.finish hp)
    exact ⟨l, hl, .library hunit hpart hparts houtline⟩
  refine Yields.bind (Yields.trivial _) Keeps.workspace fun w _ => ?_
  refine Yields.bind (hroot w.room) (keeps_ofRoot keeps_looking_parse _ _ source) fun p hp => ?_
  refine Yields.mono (fun _ _ => True.intro) (Yields.bind_any fun w => ?_)
  dsimp only
  split
  · exact Yields.bind_any fun _ => Yields.pure hp
  · exact Yields.pure hp

end Reflects

theorem installed_of_unknown (h : w₁.knownLibrary? w₁.epoch source = none) :
    w₁.installed.lookup source = none := by
  unfold Workspace.knownLibrary? at h
  cases hinstalled : w₁.installed.lookup source with
  | none => rfl
  | some l =>
    rw [hinstalled] at h
    cases h

/-- With no library at hand, the library of a source goes by the text that the source has now. -/
theorem library?_reflects (hfiled : w₁.WellFiled) (h : Looking w₁ source w₁)
    (hunknown : w₁.knownLibrary? w₁.epoch source = none) :
    w₁.world.Reflects source ((library? source).runIn w₁).1 := by
  have hnew := installed_of_unknown hunknown
  obtain ⟨hanswer, hw'⟩ := answers_looking_unit? w₁ h
  unfold Request.library?
  rw [runIn_bind_ok (runIn_epoch w₁), runIn_bind_ok (runIn_workspace w₁), hunknown]
  dsimp only
  cases hrun : (unit? source).runIn w₁ with
  | mk result w' =>
    rw [hrun] at hanswer hw'
    dsimp only at hanswer hw'
    cases result with
    | error failure =>
      rw [runIn_bind_error hrun]
      exact .unreadable hanswer.symm
    | ok tree? =>
      rw [runIn_bind_ok hrun]
      cases tree? with
      | none => exact .absent hanswer.symm
      | some t =>
        dsimp only
        cases hpart : t.isPart with
        | true => exact .part hanswer.symm hpart
        | false =>
          rw [if_neg (by simp)]
          have hprogram := yields_looking_program hfiled hnew hanswer.symm hpart w' hw'
          cases hrun' : (program source w₁.epoch).runIn w' with
          | mk result w'' =>
            rw [hrun'] at hprogram
            cases result with
            | error failure =>
              rw [runIn_bind_error hrun']
              exact .failed hanswer.symm hpart failure
            | ok p =>
              rw [runIn_bind_ok hrun']
              obtain ⟨l, hl, hreflects⟩ := hprogram p rfl
              show w₁.world.Reflects source (.ok (p.graph.libraryOf? source))
              rw [hl]
              exact hreflects

/-- With no library at hand that has the URI of a source, an element is looked up in the library
    that a query for the source answers. -/
theorem element?_of_away {w : Workspace}
    (haway : ∀ l ∈ w.installedLibraries ++ w.derivedLibraries w.epoch, l.source.uri ≠ source.uri)
    (hsource : w.sources.source? source.uri = some source) {location : Element.Location}
    (hlocation : location.libraryUri? = some source.uri) :
    ((element? location).runIn w).1 =
      .ok (((library? source).runIn w).1.toOption.join.bind fun l =>
        (l.find? location).bind l.element?) := by
  have hfind : (w.installedLibraries ++ w.derivedLibraries w.epoch).find?
      (fun l => l.source.uri == source.uri) = none :=
    List.find?_eq_none.2 fun l hl => by simpa using haway l hl
  unfold Request.element?
  rw [hlocation]
  dsimp only
  rw [runIn_bind]
  have hlocated : ((locatedLibrary? source.uri).runIn w).1 =
      .ok ((library? source).runIn w).1.toOption.join := by
    unfold Request.locatedLibrary?
    rw [runIn_bind_ok (runIn_workspace w), hfind]
    dsimp only
    rw [hsource]
    dsimp only
    rw [runIn_tryCatch]
    cases (library? source).runIn w with
    | mk result w' => cases result <;> rfl
  cases hrun : (locatedLibrary? source.uri).runIn w with
  | mk result w' =>
    rw [hrun] at hlocated
    have hlocated : result = _ := hlocated
    subst hlocated
    rfl

theorem unit_of_program_resolve {p : Program} {options : Options} {library : Source}
    {unit : LibraryUnit} {u : ResolvedUnit} (h : p.resolve options library unit = .ok u) :
    u.unit = unit := by
  rcases p.resolve_cases library unit with ⟨failure, -, hfailure⟩ | ⟨l, hl, hunit⟩
  · cases (hfailure options).symm.trans h
  rw [Program.resolve_eq hl hunit] at h
  dsimp only at h
  split at h
  · cases h
  · obtain rfl := Except.ok.inj h
    rfl

/-- A unit of which nothing is at hand is resolved as its source has it. -/
theorem unit_of_resolve {w : Workspace} {unit root : Source}
    (hentry : ((w.validate root).validate unit).entry unit = {}) {u : ResolvedUnit}
    (hu : ((resolve unit root).runIn w).1 = .ok u) :
    ∃ parsed, ((parse unit).runIn ((w.validate root).validate unit)).1 = .ok parsed ∧
      u.unit = ⟨unit, parsed.tree⟩ := by
  unfold Request.resolve at hu
  rw [runIn_bind_ok (runIn_validate w root), runIn_bind_ok (runIn_validate _ unit),
    runIn_bind_ok (runIn_epoch _), runIn_bind_ok (runIn_entry _ unit), hentry] at hu
  have hu : (((parse unit) >>= fun parsed => _).runIn _).1 = .ok u := hu
  cases hrun : (parse unit).runIn ((w.validate root).validate unit) with
  | mk result w' =>
    cases result with
    | error failure =>
      rw [runIn_bind_error hrun] at hu
      cases hu
    | ok parsed =>
      rw [runIn_bind_ok hrun] at hu
      refine ⟨parsed, rfl, ?_⟩
      refine (?_ : Yields (fun _ => True) _ fun u => u.unit = ⟨unit, parsed.tree⟩) w' trivial u hu
      refine Yields.bind_any fun p => Yields.bind_any fun w => ?_
      split
      · exact Yields.throw _
      · next u hresolved =>
        have hunit := unit_of_program_resolve hresolved
        refine Yields.bind_any fun w' => ?_
        dsimp only
        split
        · exact Yields.bind_any fun _ => Yields.pure hunit
        · exact Yields.pure hunit

end Request

/-! ## Histories -/

namespace Workspace

variable {w₀ : Workspace}

/-- No library at hand has the URI of a source. -/
def Away (w : Workspace) (source : Source) : Prop :=
  ∀ l ∈ w.installedLibraries ++ w.derivedLibraries w.epoch, l.source.uri ≠ source.uri

theorem Away.unknown {w : Workspace} (hfiled : w.WellFiled)
    (hshelves : Request.Filed w.installed w) {source : Source} (h : w.Away source) :
    w.knownLibrary? w.epoch source = none := by
  cases hknown : w.knownLibrary? w.epoch source with
  | none => rfl
  | some l =>
    exfalso
    unfold knownLibrary? at hknown
    cases hinstalled : w.installed.lookup source with
    | some k =>
      refine h k (List.mem_append_left _ ?_) (congrArg Source.uri (hfiled source k hinstalled))
      exact List.mem_map.2 ⟨_, mem_of_lookup_eq_some hinstalled, rfl⟩
    | none =>
      rw [hinstalled] at hknown
      have hkept : (w.entry source).libraryAt? w.epoch = some l := hknown
      obtain ⟨x, hx, hl⟩ := Option.bind_eq_some_iff.1 (show (w.entry source).library?.bind _ = _
        from hkept)
      have hvalue : x.value = l := by
        unfold Epoched.at? at hl
        split at hl
        · exact Option.some.inj hl
        · cases hl
      refine h l (List.mem_append_right _ ?_)
        (congrArg Source.uri (hvalue ▸ hshelves.kept source x hx))
      cases hentry : w.entries.lookup source with
      | none =>
        rw [show w.entry source = {} by unfold entry; rw [hentry]; rfl] at hx
        cases hx
      | some e =>
        rw [show w.entry source = e by unfold entry; rw [hentry]; rfl] at hkept
        exact List.mem_filterMap.2 ⟨_, mem_of_lookup_eq_some hentry, hkept⟩

/-- What a workspace answers about libraries and elements of a source goes by a world, unless a
    library is at hand. -/
structure UpToDate (w : Workspace) (W : World) (source : Source) : Prop where
  library : w.knownLibrary? w.epoch source = none →
    W.Reflects source ((Request.library? source).runIn w).1
  element : w.Away source → w.sources.source? source.uri = some source →
    ∀ location : Element.Location, location.libraryUri? = some source.uri →
      ∃ answer, W.Reflects source answer ∧ ((Request.element? location).runIn w).1 =
        .ok (answer.toOption.join.bind fun l => (l.find? location).bind l.element?)

theorem upToDate {w : Workspace} (hfiled : w.WellFiled) (hshelves : Request.Filed w.installed w)
    {source : Source}
    (hsourced : Request.Sourced w.sources (Request.Telling w.sources source) w) :
    w.UpToDate w.world source := by
  have hlibrary (hunknown : w.knownLibrary? w.epoch source = none) :
      w.world.Reflects source ((Request.library? source).runIn w).1 := by
    refine Request.library?_reflects hfiled ⟨hsourced, rfl, fun other x hx =>
      ⟨hshelves.kept other x hx, fun hother hepoch => ?_⟩⟩ hunknown
    subst hother
    have hnew := Request.installed_of_unknown hunknown
    unfold knownLibrary? at hunknown
    rw [hnew] at hunknown
    have hkept : (w.entry other).libraryAt? w.epoch = none := hunknown
    unfold Entry.libraryAt? at hkept
    rw [hx] at hkept
    exact absurd ((if_pos hepoch).symm.trans hkept) nofun
  exact ⟨hlibrary, fun haway hsource location hlocation =>
    ⟨_, hlibrary (haway.unknown hfiled hshelves), Request.element?_of_away haway hsource hlocation⟩⟩

theorem sourced_telling (hw₀ : w₀.entries = []) {steps : List Step} {source : Source}
    (h : Stamped w₀ steps source) :
    Request.Sourced (w₀.after steps).sources (Request.Telling (w₀.after steps).sources source)
      (w₀.after steps) := by
  refine ⟨rfl, (derives_after hw₀ steps).mono fun other c _ hc hother hstamp => ?_⟩
  subst hother
  exact h.contents_of_stamp hc hstamp

/-- After any history of a new workspace, a change that was not announced is noticed. Suppose that the
    text of a source has moved since it was scanned. Then resolving the source, or asking for its
    problems, gives the same answer and leaves the same workspace as right after an announcement;
    a unit that is resolved is that of the present text; and libraries and elements of the source
    that are not at hand go by the present text, as they do after an announcement. -/
theorem answers_moved (hw₀ : w₀.entries = []) (hfiled : w₀.WellFiled) (steps : List Step)
    {source : Source} (hstamped : Stamped w₀ steps source) (hmoved : (w₀.after steps).Moved source) :
    let w := w₀.after steps
    let announced := w₀.after (steps ++ [.changed source])
    (Request.resolve source source).runIn w = (Request.resolve source source).runIn announced ∧
      (Request.errors source).runIn w = (Request.errors source).runIn announced ∧
      (∀ u, ((Request.resolve source source).runIn w).1 = .ok u →
        ∃ parsed, w.world.parse source = .ok parsed ∧ u.unit = ⟨source, parsed.tree⟩) ∧
      w.UpToDate w.world source ∧ announced.UpToDate w.world source := by
  intro w announced
  have hannounced : announced = w.invalidate source := after_append ..
  obtain ⟨hwell, hshelves⟩ := filed_after hw₀ hfiled steps
  have hfiled' : announced.WellFiled ∧ Request.Filed announced.installed announced :=
    filed_after hw₀ hfiled (steps ++ [.changed source])
  have hsourced := sourced_telling hw₀ hstamped
  have hworld : (w.invalidate source).world = w.world := world_invalidate
  have hsources : (w.invalidate source).sources = w.sources := sources_invalidate ..
  rw [hannounced] at hfiled' ⊢
  refine ⟨Request.resolve_of_moved hmoved, Request.errors_of_moved hmoved, fun u hu => ?_,
    upToDate hwell hshelves hsourced, ?_⟩
  · have hvalidate : (w.validate source).validate source = w.invalidate source := by
      rw [validate_of_moved hmoved, validate_invalidate]
    obtain ⟨parsed, hparsed, hunit⟩ := Request.unit_of_resolve
      (by rw [hvalidate, entry_invalidate_self]) hu
    rw [hvalidate, ← Request.parse_of_moved hmoved] at hparsed
    exact ⟨parsed, (scan_after hw₀ steps source hstamped).2.symm.trans hparsed, hunit⟩
  · rw [← hworld]
    refine upToDate hfiled'.1 hfiled'.2 ⟨rfl, ?_⟩
    rw [hsources]
    exact hsourced.derives.invalidate source

/-! ## Editors -/

/-- As long as only an editor changes texts, a text that it gives to a source that was scanned has
    moved. -/
theorem moved_of_setText (hw₀ : w₀.entries = []) (hnumbered : w₀.sources.Numbered)
    {steps : List Step} (hsteps : ∀ disk resolvers, Step.outside disk resolvers ∉ steps)
    {source : Source} {stamp : Nat}
    (hscanned : ((w₀.after steps).entry source).stamp? = some stamp) (text : String) :
    (w₀.after (steps ++ [.setText source (some text)])).Moved source := by
  have hafter := numbered_after hw₀ hnumbered steps hsteps
  have hrun : w₀.after (steps ++ [.setText source (some text)]) =
      (w₀.after steps).setText source (some text) := after_append ..
  rw [hrun]
  refine ⟨stamp, hscanned, fun hstamp => ?_⟩
  have hnew : ((w₀.after steps).setText source (some text)).sources.stamp? source =
      some ((w₀.after steps).sources.lastStamp + 1) := by
    simp [Workspace.setText, Sources.setText, Sources.stamp?]
  rcases derives_after hw₀ steps source with hblank | ⟨c, hc, hfrom⟩
  · cases hblank.stamp.symm.trans hscanned
  · obtain ⟨before, step, later, hsplit, -, hcontents, -⟩ := hc
    have hbefore := (numbered_after hw₀ hnumbered before fun disk resolvers h =>
      hsteps disk resolvers (hsplit ▸ List.mem_append_left _ h)).1
    have hle := hbefore.stamp_le hcontents
    have hlast := (hafter.2 before _ hsplit).lastStamp_le
    have hc : c.stamp = stamp := Option.some.inj (hfrom.stamp.symm.trans hscanned)
    have : stamp = (w₀.after steps).sources.lastStamp + 1 :=
      Option.some.inj (hstamp.symm.trans hnew)
    omega

/-- A source with a text that is scanned counts as scanned. -/
theorem exists_stamp_of_scan (hw₀ : w₀.entries = []) (steps : List Step) {source : Source}
    {c : Contents} (hc : (w₀.after steps).sources.contents source = .ok c) :
    ∃ stamp, ((w₀.after (steps ++ [.query (.scan source)])).entry source).stamp? = some stamp := by
  have hrun : w₀.after (steps ++ [.query (.scan source)]) =
      ((Request.scan source).runIn (w₀.after steps)).2 := after_append ..
  have hspec := (Request.scan_spec (P := fun _ _ => True) (fun _ _ _ => trivial) source
    ⟨rfl, (derives_after hw₀ steps).mono fun _ _ _ _ => trivial⟩).2
  rw [hrun]
  split at hspec
  · obtain ⟨c, -, -, -, hfrom⟩ := hspec
    exact ⟨c.stamp, hfrom.stamp⟩
  · obtain ⟨e, he, -⟩ := hspec
    cases hc.symm.trans he

/-- A text is scanned, and another one is given that is not announced. -/
theorem answers_moved_edit :
    let source : Source := ⟨.file, "/a.dart"⟩
    let w₀ : Workspace := { options := {}, sources := .standard {} none }
    let steps : List Step := [.setText source (some "class A \x7b\x7d"), .query (.scan source)] ++
      [.setText source (some "class B \x7b\x7d")]
    let w := w₀.after steps
    let announced := w₀.after (steps ++ [.changed source])
    (Request.resolve source source).runIn w = (Request.resolve source source).runIn announced ∧
      (Request.errors source).runIn w = (Request.errors source).runIn announced ∧
      (∀ u, ((Request.resolve source source).runIn w).1 = .ok u →
        ∃ parsed, w.world.parse source = .ok parsed ∧ u.unit = ⟨source, parsed.tree⟩) ∧
      w.UpToDate w.world source ∧ announced.UpToDate w.world source := by
  intro source w₀ steps
  have htext : (w₀.after [.setText source (some "class A \x7b\x7d")]).sources.contents source =
      .ok ⟨"class A \x7b\x7d", 1⟩ := rfl
  obtain ⟨stamp, hstamp⟩ := exists_stamp_of_scan rfl _ htext
  exact answers_moved rfl (fun source l h => by cases h) steps
    (stamped_of_edits rfl (.standard {} none) (by simp [steps])
      (show _ = Except.ok ⟨"class B \x7b\x7d", 2⟩ from rfl))
    (moved_of_setText rfl (.standard {} none) (by simp) hstamp _)

end Workspace

end DartAnalysis
