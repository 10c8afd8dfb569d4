/-
  What a workspace is read from, its `World`, and the requests that read it. As long as every source
  was scanned from the text it has now, scans and trees are those of the world whether they were at
  hand or not, and so is a program, but for the libraries that the workspace knows
  (`answers_ofRoot`). These requests keep what else the workspace holds (`Reading`).
-/
import DartAnalysis.Proofs.Program.Reuse
import DartAnalysis.Workspace.Request

namespace DartAnalysis

/-! ## Worlds -/

/-- All that the answers of a workspace are about. -/
structure World where
  options : Options
  text : Source → Except ReadError String
  installed : Source → Option Library
  /-- How many libraries a program has room for. -/
  room : Nat

namespace World

variable (W : World)

def scan (source : Source) : Except Failure Scan :=
  match W.text source with
  | .ok text => .ok (.ofText (some source) text)
  | .error e => .error (.unreadable e)

def parse (source : Source) : Except Failure Parsed :=
  match W.text source with
  | .ok text => .ok (.ofText .unit (some source) text)
  | .error e => .error (.unreadable e)

def unit? (source : Source) : Except Failure (Option Tree) :=
  match W.text source with
  | .ok text => .ok (some (Parsed.ofText .unit (some source) text).tree)
  | .error e => if e.isAbsence then .ok none else .error (.unreadable e)

variable {W} {source : Source}

theorem unit?_of_text {text : String} (h : W.text source = .ok text) :
    W.unit? source = .ok (some (Parsed.ofText .unit (some source) text).tree) := by
  unfold unit?
  rw [h]

theorem parse_of_text {text : String} (h : W.text source = .ok text) :
    W.parse source = .ok (.ofText .unit (some source) text) := by
  unfold parse
  rw [h]

theorem text_of_unit? {t : Tree} (h : W.unit? source = .ok (some t)) :
    ∃ text, W.text source = .ok text ∧ t = (Parsed.ofText .unit (some source) text).tree := by
  unfold unit? at h
  cases htext : W.text source with
  | ok text =>
    rw [htext] at h
    cases h
    exact ⟨text, rfl, rfl⟩
  | error e =>
    rw [htext] at h
    dsimp only at h
    split at h <;> cases h

end World

namespace Workspace

variable (w : Workspace)

def world : World where
  options := w.options
  text source := (w.sources.contents source).map Contents.text
  installed source := w.installed.lookup source
  room := w.room

variable {w}

theorem text_of_contents {source : Source} {c : Contents} (h : w.sources.contents source = .ok c) :
    w.world.text source = .ok c.text := by
  show (w.sources.contents source).map Contents.text = _
  rw [h]
  rfl

theorem text_of_error {source : Source} {e : ReadError} (h : w.sources.contents source = .error e) :
    w.world.text source = .error e := by
  show (w.sources.contents source).map Contents.text = _
  rw [h]
  rfl

variable (w)

/-! ## Entries -/

theorem lookup_map_replace {β : Type} (xs : List (Source × β)) (a b : Source) (v : β) :
    (xs.map fun (s, old) => if s == a then (s, v) else (s, old)).lookup b =
      if b = a then (xs.lookup b).map fun _ => v else xs.lookup b := by
  induction xs with
  | nil => simp
  | cons x xs ih =>
    obtain ⟨s, old⟩ := x
    rw [List.map_cons]
    dsimp only
    by_cases hsa : s == a
    · rw [if_pos hsa, List.lookup_cons, List.lookup_cons, ih]
      by_cases hb : b = a
      · subst hb
        simp [eq_of_beq hsa]
      · have hbs : (b == s) = false := by
          rw [eq_of_beq hsa]
          simpa using hb
        simp [hbs, hb]
    · rw [if_neg hsa, List.lookup_cons, List.lookup_cons, ih]
      by_cases hb : b = a
      · subst hb
        have hbs : (b == s) = false := by
          simpa using fun h => hsa (by simp [h])
        simp [hbs]
      · simp only [if_neg hb]

theorem entry_setEntry (source s : Source) (e : Entry) :
    (w.setEntry source e).entry s = if s = source then e else w.entry s := by
  unfold setEntry entry
  split
  · next hany =>
    rw [lookup_map_replace]
    split
    · next hs =>
      subst hs
      have hsome : (w.entries.lookup s).isSome := by
        rw [List.lookup_isSome_iff]
        obtain ⟨x, hx, hxs⟩ := List.any_eq_true.1 hany
        exact ⟨x, hx, by simpa using (eq_of_beq hxs).symm⟩
      obtain ⟨old, hold⟩ := Option.isSome_iff_exists.1 hsome
      rw [hold]
      rfl
    · rfl
  · next hany =>
    rw [List.lookup_append]
    by_cases hs : s = source
    · subst hs
      have hnone : w.entries.lookup s = none := by
        rw [List.lookup_eq_none_iff]
        intro x hx
        have hne : ¬ s = x.1 := fun h => hany (List.any_eq_true.2 ⟨x, hx, by simpa using h.symm⟩)
        simpa using hne
      simp [hnone]
    · have hne : (s == source) = false := by simpa using hs
      simp [List.lookup_cons, hne, hs]

end Workspace

/-! ## Sources -/

theorem Disk.stampOf_of_read {d : Disk} {source : Source} {path : String} {c : Contents}
    (h : d.read source path = .ok c) : d.stampOf source path = .ok c.stamp := by
  unfold Disk.read at h
  unfold Disk.stampOf
  split at h <;> cases h
  · next hfile => rw [hfile]

theorem Resolver.stamp?_of_contents? {d : Disk} {source : Source} {r : Resolver} :
    (∀ c, r.contents? d source = some (.ok c) → r.stamp? d source = some (.ok c.stamp)) ∧
      (r.contents? d source = none → r.stamp? d source = none) := by
  cases r with
  | libraries sdk? =>
    unfold Resolver.contents? Resolver.stamp?
    dsimp only
    split
    · exact ⟨nofun, fun _ => rfl⟩
    · refine ⟨fun c hc => ?_, nofun⟩
      cases hpath : sdk?.bind (libraryPath? · source) with
      | some path =>
        rw [hpath] at hc
        exact congrArg some (Disk.stampOf_of_read (Option.some.inj hc))
      | none =>
        rw [hpath] at hc
        cases hc
  | files =>
    unfold Resolver.contents? Resolver.stamp?
    dsimp only
    cases source.path? with
    | none => exact ⟨nofun, fun _ => rfl⟩
    | some path =>
      exact ⟨fun c hc => congrArg some (Disk.stampOf_of_read (Option.some.inj hc)), nofun⟩
  | listed scheme texts =>
    refine ⟨fun c hc => ?_, fun h => ?_⟩
    · show ((Resolver.listed scheme texts).contents? d source).map _ = _
      rw [hc]
      rfl
    · show ((Resolver.listed scheme texts).contents? d source).map _ = _
      rw [h]
      rfl

/-- A text has the stamp that its source has. -/
theorem Sources.stamp?_of_contents {s : Sources} {source : Source} {c : Contents}
    (h : s.contents source = .ok c) : s.stamp? source = some c.stamp := by
  unfold Sources.contents at h
  unfold Sources.stamp?
  cases hoverlay : s.overlay.lookup source with
  | some c' =>
    rw [hoverlay] at h
    cases h
    rfl
  | none =>
    rw [hoverlay] at h
    dsimp only at h ⊢
    have hresolvers (rs : List Resolver)
        (hrs : rs.findSome? (·.contents? s.disk source) = some (.ok c)) :
        rs.findSome? (·.stamp? s.disk source) = some (.ok c.stamp) := by
      induction rs with
      | nil => cases hrs
      | cons r rs ih =>
        rw [List.findSome?_cons] at hrs ⊢
        cases hr : r.contents? s.disk source with
        | some result =>
          rw [hr] at hrs
          cases hrs
          rw [Resolver.stamp?_of_contents?.1 c hr]
        | none =>
          rw [hr] at hrs
          rw [Resolver.stamp?_of_contents?.2 hr]
          exact ih hrs
    cases hfound : s.resolvers.findSome? (·.contents? s.disk source) with
    | none =>
      rw [hfound] at h
      cases h
    | some result =>
      rw [hfound] at h
      rw [hresolvers s.resolvers (hfound.trans (congrArg some h))]
      rfl

/-- What was derived from the text of a source is up to date. -/
structure Entry.Valid (s : Sources) (source : Source) (e : Entry) : Prop where
  stamp : ∀ stamp, e.stamp? = some stamp → s.stamp? source = some stamp
  scan : ∀ scan, e.scan? = some scan →
    ∃ c, s.contents source = .ok c ∧ scan = .ofText (some source) c.text
  parsed : ∀ parsed, e.parsed? = some parsed →
    ∃ c, s.contents source = .ok c ∧ parsed = .ofText .unit (some source) c.text

theorem Entry.valid_empty (s : Sources) (source : Source) : Entry.Valid s source {} :=
  ⟨nofun, nofun, nofun⟩

namespace Workspace

/-- A workspace that differs from another one in scans and trees alone, which are up to date. -/
structure Reading (w₀ w : Workspace) : Prop where
  options : w.options = w₀.options
  sources : w.sources = w₀.sources
  installed : w.installed = w₀.installed
  epoch : w.epoch = w₀.epoch
  room : w.room = w₀.room
  library : ∀ source, (w.entry source).library? = (w₀.entry source).library?
  resolved : ∀ source, (w.entry source).resolved = (w₀.entry source).resolved
  valid : ∀ source, (w.entry source).Valid w₀.sources source

variable {w₀ w : Workspace}

theorem Reading.known (h : Reading w₀ w) (epoch : Nat) (source : Source) :
    w.knownLibrary? epoch source = w₀.knownLibrary? epoch source := by
  unfold knownLibrary? Entry.libraryAt?
  rw [h.installed, h.library]

theorem Reading.setEntry (h : Reading w₀ w) {source : Source} {e : Entry}
    (hlibrary : e.library? = (w.entry source).library?)
    (hresolved : e.resolved = (w.entry source).resolved) (hvalid : e.Valid w₀.sources source) :
    Reading w₀ (w.setEntry source e) := by
  have hfields : (w.setEntry source e).options = w.options ∧
      (w.setEntry source e).sources = w.sources ∧ (w.setEntry source e).installed = w.installed ∧
        (w.setEntry source e).epoch = w.epoch ∧ (w.setEntry source e).room = w.room := by
    unfold Workspace.setEntry
    split <;> exact ⟨rfl, rfl, rfl, rfl, rfl⟩
  obtain ⟨hoptions, hsources, hinstalled, hepoch, hroom⟩ := hfields
  refine ⟨hoptions.trans h.options, hsources.trans h.sources, hinstalled.trans h.installed,
    hepoch.trans h.epoch, hroom.trans h.room, fun s => ?_, fun s => ?_, fun s => ?_⟩ <;> rw [entry_setEntry]
  · split
    · next hs => rw [hlibrary, ← hs, h.library]
    · exact h.library s
  · split
    · next hs => rw [hresolved, ← hs, h.resolved]
    · exact h.resolved s
  · split
    · next hs => exact hs ▸ hvalid
    · exact h.valid s

/-- Nothing is dropped from a workspace that is up to date. -/
theorem Reading.validate (h : Reading w₀ w) (source : Source) : w.validate source = w := by
  unfold Workspace.validate
  dsimp only
  rw [if_neg]
  intro hstale
  cases hstamp : (w.entry source).stamp? with
  | none => simp [hstamp] at hstale
  | some stamp =>
    have := (h.valid source).stamp stamp hstamp
    rw [← h.sources] at this
    simp [hstamp, this] at hstale

end Workspace

/-! ## Requests -/

namespace Request

variable {α β : Type}

/-- What a request answers in a workspace, and the workspace after it. -/
def runIn (act : Request α) (w : Workspace) : Except Failure α × Workspace := act.run.run w

section RunIn

variable (w : Workspace)

theorem runIn_pure (a : α) : (pure a : Request α).runIn w = (.ok a, w) := rfl

theorem runIn_bind (act : Request α) (f : α → Request β) :
    (act >>= f).runIn w =
      match act.runIn w with
      | (.ok a, w') => (f a).runIn w'
      | (.error failure, w') => (.error failure, w') := by
  show (match act.run.run w with
    | (result, w') => (ExceptT.bindCont f result).run w') = _
  unfold runIn
  cases hrun : act.run.run w with
  | mk result w' => cases result <;> rfl

/-- What follows a request that was answered. -/
theorem runIn_bind_ok {w w' : Workspace} {act : Request α} {f : α → Request β} {a : α}
    (hact : act.runIn w = (.ok a, w')) : (act >>= f).runIn w = (f a).runIn w' := by
  rw [runIn_bind, hact]

theorem runIn_bind_error {w w' : Workspace} {act : Request α} {f : α → Request β} {failure : Failure}
    (hact : act.runIn w = (.error failure, w')) :
    (act >>= f).runIn w = (.error failure, w') := by
  rw [runIn_bind, hact]

theorem runIn_tryCatch (act : Request α) (f : Failure → Request α) :
    (tryCatch act f).runIn w =
      match act.runIn w with
      | (.ok a, w') => (.ok a, w')
      | (.error failure, w') => (f failure).runIn w' := by
  unfold runIn
  rw [ExceptT.run_tryCatch, StateT.run_bind]
  cases hrun : act.run.run w with
  | mk result w' => cases result <;> rfl

theorem runIn_workspace : workspace.runIn w = (.ok w, w) := rfl

theorem runIn_epoch : epoch.runIn w = (.ok w.epoch, w) := rfl

theorem runIn_entry (source : Source) : (entry source).runIn w = (.ok (w.entry source), w) := rfl

theorem runIn_validate (source : Source) :
    (validate source).runIn w = (.ok (), w.validate source) := rfl

theorem runIn_updateEntry (source : Source) (f : Entry → Entry) :
    (updateEntry source f).runIn w = (.ok (), w.setEntry source (f (w.entry source))) := rfl

theorem runIn_contents (source : Source) :
    (contents source).runIn w =
      (match w.sources.contents source with
        | .ok c => .ok c
        | .error e => .error (.unreadable e), w) := by
  unfold contents
  rw [runIn_bind, runIn_workspace]
  dsimp only
  cases w.sources.contents source <;> rfl

end RunIn

/-- A request with a given answer in all workspaces of a kind, which stay of that kind. -/
def Answers (I : Workspace → Prop) (act : Request α) (answer : Except Failure α) : Prop :=
  ∀ w, I w → (act.runIn w).1 = answer ∧ I (act.runIn w).2

namespace Answers

variable {I : Workspace → Prop}

theorem pure (a : α) : Answers I (Pure.pure a : Request α) (.ok a) := fun _ hw => ⟨rfl, hw⟩

theorem throw (failure : Failure) :
    Answers I (MonadExcept.throw failure : Request α) (.error failure) := fun _ hw => ⟨rfl, hw⟩

theorem bind {act : Request α} {f : α → Request β} {answer : Except Failure α}
    {g : α → Except Failure β} (hact : Answers I act answer)
    (hf : ∀ a, Answers I (f a) (g a)) : Answers I (act >>= f) (answer >>= g) := by
  intro w hw
  obtain ⟨hanswer, hw'⟩ := hact w hw
  rw [runIn_bind]
  cases hrun : act.runIn w with
  | mk result w' =>
    rw [hrun] at hanswer hw'
    subst hanswer
    cases result with
    | error failure => exact ⟨rfl, hw'⟩
    | ok a => exact hf a w' hw'

theorem ofExcept (e : Except Failure α) :
    Answers I (MonadExcept.ofExcept e : Request α) (MonadExcept.ofExcept e) := by
  cases e with
  | error failure => exact throw failure
  | ok a => exact pure a

theorem filterMapM {f : α → Request (Option β)} {g : α → Except Failure (Option β)}
    (hf : ∀ a, Answers I (f a) (g a)) (xs : List α) :
    Answers I (xs.filterMapM f) (xs.filterMapM g) := by
  induction xs with
  | nil =>
    rw [List.filterMapM_nil, List.filterMapM_nil]
    exact pure []
  | cons x xs ih =>
    rw [List.filterMapM_cons, List.filterMapM_cons]
    refine bind (hf x) fun b? => ?_
    cases b? with
    | none => exact ih
    | some b => exact bind ih fun bs => pure (b :: bs)

end Answers

/-! ## Reading -/

section Reading

variable (w₀ : Workspace) (source : Source)

theorem answers_scan : Answers w₀.Reading (scan source) (w₀.world.scan source) := by
  intro w hw
  have hvalid := hw.valid source
  unfold Request.scan
  rw [runIn_bind, runIn_validate, hw.validate]
  dsimp only
  rw [runIn_bind, runIn_entry]
  dsimp only
  cases hscan : (w.entry source).scan? with
  | some scan =>
    obtain ⟨c, hc, rfl⟩ := hvalid.scan scan hscan
    unfold World.scan
    rw [Workspace.text_of_contents hc]
    exact ⟨rfl, hw⟩
  | none =>
    dsimp only
    rw [runIn_bind, runIn_contents, hw.sources]
    unfold World.scan
    cases hc : w₀.sources.contents source with
    | error e =>
      rw [Workspace.text_of_error hc]
      exact ⟨rfl, hw⟩
    | ok c =>
      rw [Workspace.text_of_contents hc]
      refine ⟨rfl, hw.setEntry rfl rfl ⟨fun stamp hstamp => ?_, fun scan hscan => ?_,
        fun parsed hparsed => hvalid.parsed parsed hparsed⟩⟩
      · cases hstamp
        exact Sources.stamp?_of_contents hc
      · cases hscan
        exact ⟨c, hc, rfl⟩

theorem answers_parse : Answers w₀.Reading (parse source) (w₀.world.parse source) := by
  intro w hw
  unfold Request.parse
  rw [runIn_bind, runIn_validate, hw.validate]
  dsimp only
  rw [runIn_bind, runIn_entry]
  dsimp only
  cases hparsed : (w.entry source).parsed? with
  | some parsed =>
    obtain ⟨c, hc, rfl⟩ := (hw.valid source).parsed parsed hparsed
    unfold World.parse
    rw [Workspace.text_of_contents hc]
    exact ⟨rfl, hw⟩
  | none =>
    dsimp only
    obtain ⟨hanswer, hw'⟩ := answers_scan w₀ source w hw
    rw [runIn_bind]
    cases hrun : (Request.scan source).runIn w with
    | mk result w' =>
      rw [hrun] at hanswer hw'
      unfold World.scan at hanswer
      unfold World.parse
      dsimp only at hanswer hw' ⊢
      cases hc : w₀.sources.contents source with
      | error e =>
        rw [Workspace.text_of_error hc] at hanswer ⊢
        subst hanswer
        exact ⟨rfl, hw'⟩
      | ok c =>
        rw [Workspace.text_of_contents hc] at hanswer ⊢
        subst hanswer
        refine ⟨rfl, hw'.setEntry rfl rfl ⟨(hw'.valid source).stamp, (hw'.valid source).scan,
          fun parsed hparsed => ?_⟩⟩
        cases hparsed
        exact ⟨c, hc, rfl⟩

theorem answers_unit? : Answers w₀.Reading (unit? source) (w₀.world.unit? source) := by
  intro w hw
  obtain ⟨hanswer, hw'⟩ := answers_parse w₀ source w hw
  unfold Request.unit?
  rw [runIn_tryCatch, runIn_bind]
  cases hrun : (Request.parse source).runIn w with
  | mk result w' =>
    rw [hrun] at hanswer hw'
    unfold World.parse at hanswer
    unfold World.unit?
    dsimp only at hanswer hw' ⊢
    cases hc : w₀.world.text source with
    | error e =>
      rw [hc] at hanswer
      subst hanswer
      dsimp only
      split
      · exact ⟨rfl, hw'⟩
      · exact ⟨rfl, hw'⟩
    | ok text =>
      rw [hc] at hanswer
      subst hanswer
      exact ⟨rfl, hw'⟩

/-! ## Programs -/

/-- What a workspace finds in a source, from what it knows at the start of a program. -/
theorem answers_find : Answers w₀.Reading (Program.find (provider w₀.epoch w₀.room) source)
    (Program.find (.reading w₀.world.unit? (w₀.knownLibrary? w₀.epoch) w₀.room) source) := by
  have hlibrary : Answers w₀.Reading ((provider w₀.epoch w₀.room).library? source)
      (.ok (w₀.knownLibrary? w₀.epoch source)) := by
    intro w hw
    exact ⟨congrArg Except.ok (hw.known w₀.epoch source), hw⟩
  have hedition : Answers w₀.Reading (provider w₀.epoch w₀.room).edition (.ok 0) := by
    intro w hw
    refine ⟨congrArg Except.ok ?_, hw⟩
    rw [hw.epoch, Nat.sub_self]
  have hparts (t : Tree) : Answers w₀.Reading (Program.parts (provider w₀.epoch w₀.room) t source)
      (Program.parts (.reading w₀.world.unit? (w₀.knownLibrary? w₀.epoch) w₀.room) t source) :=
    Answers.filterMapM (fun part => Answers.bind (answers_unit? w₀ part) fun _ => Answers.pure _) _
  unfold Program.find
  refine Answers.bind hlibrary fun known? => ?_
  cases known? with
  | some l => exact Answers.pure _
  | none =>
    refine Answers.bind (answers_unit? w₀ source) fun tree? => ?_
    cases tree? with
    | none => exact Answers.pure _
    | some t =>
      dsimp only
      split
      · exact Answers.pure _
      · exact Answers.bind (hparts t) fun parts => Answers.bind hedition fun _ => Answers.pure _

theorem answers_gather (root : Source) (budget : Nat) (queue : List Source)
    (s : Program.Gathering) :
    Answers w₀.Reading (Program.gather (provider w₀.epoch w₀.room) root budget queue s)
      (Program.gather (.reading w₀.world.unit? (w₀.knownLibrary? w₀.epoch) w₀.room) root budget queue s) := by
  induction budget, queue, s using Program.gather_induct with
  | nil =>
    rw [Program.gather_nil, Program.gather_nil]
    exact Answers.pure _
  | seen budget source rest s hseen ih =>
    rw [Program.gather_seen _ _ _ _ hseen, Program.gather_seen _ _ _ _ hseen]
    exact ih
  | new budget source rest s hnew ih ih' =>
    rw [Program.gather_new _ _ _ _ hnew, Program.gather_new _ _ _ _ hnew]
    refine Answers.bind (answers_find w₀ source) fun found => ?_
    refine Answers.bind (Answers.ofExcept _) fun s' => ?_
    unfold Program.proceed
    split
    · exact ih s'
    · exact Answers.throw _
    · exact ih' _ _ s' rfl

/-- A program of a workspace is the one that is built from its world and from what it knows. -/
theorem answers_ofRoot (root : Source) :
    Answers w₀.Reading (Program.ofRoot (provider w₀.epoch w₀.room) root)
      (Program.ofRoot (.reading w₀.world.unit? (w₀.knownLibrary? w₀.epoch) w₀.room) root) :=
  Answers.bind (answers_gather w₀ root _ _ _) fun _ => Answers.ofExcept _

end Reading

end Request

end DartAnalysis
