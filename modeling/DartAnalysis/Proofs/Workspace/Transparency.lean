/-
  Resolved units and libraries do not depend on what was asked before. A workspace whose texts have not
  changed since they were announced keeps only what a new workspace would derive as well: scans and
  trees always, libraries and resolved units for roots whose programs are steady (`Cached`, kept by
  every query). A change of text ends that until it is announced, which starts a new epoch
  (`Settled`, kept by every step). So after a history in which changes are announced before the next
  query, a steady root is answered as in a new workspace (`answers_after`).
-/
import DartAnalysis.Element.Core
import DartAnalysis.Proofs.Workspace.History
import DartAnalysis.Proofs.Workspace.Stamps

namespace DartAnalysis

/-! ## Answers of a world -/

namespace World

variable (W : World)

/-- The program of a root, with nothing known but the installed libraries. -/
def program (root : Source) : Except Failure Program :=
  Program.ofRoot (.reading W.unit? W.installed W.room) root

def resolve (unit root : Source) : Except Failure ResolvedUnit := do
  let parsed ← W.parse unit
  let p ← W.program root
  p.resolve W.options root ⟨unit, parsed.tree⟩

theorem resolve_eq (unit root : Source) : W.resolve unit root =
    (W.parse unit).bind fun parsed => (W.program root).bind fun p =>
      p.resolve W.options root ⟨unit, parsed.tree⟩ := rfl

def library? (source : Source) : Except Failure (Option Library) :=
  match W.installed source with
  | some l => .ok (some l)
  | none => do
    match ← W.unit? source with
    | some t => if t.isPart then return none else return (← W.program source).graph.libraryOf? source
    | none => return none

/-- No library of the program of a root names an alias of another one that is not installed. -/
def Steady (root : Source) : Prop := Program.Steady W.unit? W.installed W.room root

end World

/-! ## Caches -/

/-- What an entry keeps belongs to epochs before one. -/
structure Entry.Before (epoch : Nat) (e : Entry) : Prop where
  library : ∀ x, e.library? = some x → x.epoch < epoch
  resolved : ∀ root x, e.resolved.lookup root = some x → x.epoch < epoch

theorem Entry.before_empty (epoch : Nat) : Entry.Before epoch {} := by
  refine ⟨fun x hx => ?_, fun root x hx => ?_⟩ <;> cases hx

theorem Entry.Before.succ {epoch : Nat} {e : Entry} (h : e.Before epoch) : e.Before (epoch + 1) :=
  ⟨fun x hx => Nat.lt_succ_of_lt (h.library x hx),
    fun root x hx => Nat.lt_succ_of_lt (h.resolved root x hx)⟩

namespace Workspace

/-- A workspace that differs from another one in what it keeps alone, all of which a new workspace
    would derive as well. -/
structure Cached (w₀ w : Workspace) : Prop where
  options : w.options = w₀.options
  sources : w.sources = w₀.sources
  installed : w.installed = w₀.installed
  epoch : w.epoch = w₀.epoch
  room : w.room = w₀.room
  valid : ∀ source, (w.entry source).Valid w₀.sources source
  dated : ∀ source, (w.entry source).Before (w₀.epoch + 1)
  warm : Program.Warm w₀.world.unit? w₀.world.installed (w.knownLibrary? w₀.epoch) w₀.world.room
  resolved : ∀ unit root u, (w.entry unit).resolvedAt? root w₀.epoch = some u →
    w₀.world.Steady root → w₀.world.resolve unit root = .ok u

variable {w₀ w w' : Workspace}

theorem Cached.world (h : Cached w₀ w) : w.world = w₀.world := by
  unfold Workspace.world
  rw [h.options, h.sources, h.installed, h.room]

theorem Cached.reading (h : Cached w₀ w) : Reading w w where
  options := rfl
  sources := rfl
  installed := rfl
  epoch := rfl
  room := rfl
  library _ := rfl
  resolved _ := rfl
  valid source := h.sources ▸ h.valid source

theorem Cached.of_reading (h : Cached w₀ w) (hread : Reading w w') : Cached w₀ w' where
  options := hread.options.trans h.options
  sources := hread.sources.trans h.sources
  installed := hread.installed.trans h.installed
  epoch := hread.epoch.trans h.epoch
  room := hread.room.trans h.room
  valid source := h.sources ▸ hread.valid source
  dated source := by
    obtain ⟨hlibrary, hresolved⟩ := h.dated source
    exact ⟨hread.library source ▸ hlibrary, hread.resolved source ▸ hresolved⟩
  warm := by
    have hknown : w'.knownLibrary? w₀.epoch = w.knownLibrary? w₀.epoch :=
      funext (hread.known w₀.epoch)
    exact hknown ▸ h.warm
  resolved unit root u hu := by
    unfold Entry.resolvedAt? at hu
    rw [hread.resolved] at hu
    exact h.resolved unit root u hu

theorem Cached.validate (h : Cached w₀ w) (source : Source) : w.validate source = w :=
  h.reading.validate source

end Workspace

/-! ## Requests -/

namespace Request

open Workspace

variable {w₀ w : Workspace}

theorem cached_parse (h : Cached w₀ w) (source : Source) :
    ((parse source).runIn w).1 = w₀.world.parse source ∧
      Cached w₀ ((parse source).runIn w).2 := by
  obtain ⟨hanswer, hread⟩ := answers_parse w source w h.reading
  exact ⟨h.world ▸ hanswer, h.of_reading hread⟩

theorem cached_unit? (h : Cached w₀ w) (source : Source) :
    ((unit? source).runIn w).1 = w₀.world.unit? source ∧
      Cached w₀ ((unit? source).runIn w).2 := by
  obtain ⟨hanswer, hread⟩ := answers_unit? w source w h.reading
  exact ⟨h.world ▸ hanswer, h.of_reading hread⟩

/-! ### Keeping libraries -/

/-- A workspace with further libraries at hand, of the epoch it is in. -/
structure Stocked (w₀ : Workspace) (built : List Library) (w : Workspace) : Prop where
  options : w.options = w₀.options
  sources : w.sources = w₀.sources
  installed : w.installed = w₀.installed
  epoch : w.epoch = w₀.epoch
  room : w.room = w₀.room
  same : ∀ source, (w.entry source).stamp? = (w₀.entry source).stamp? ∧
    (w.entry source).scan? = (w₀.entry source).scan? ∧
    (w.entry source).parsed? = (w₀.entry source).parsed? ∧
    (w.entry source).resolved = (w₀.entry source).resolved
  library : ∀ source, (w.entry source).library? = (w₀.entry source).library? ∨
    ∃ l ∈ built, l.source = source ∧ (w.entry source).library? = some ⟨w₀.epoch, l⟩

/-- Keeps libraries. -/
def stock (built : List Library) (epoch : Nat) : Request PUnit :=
  built.forM fun l => updateEntry l.source fun e => { e with library? := some ⟨epoch, l⟩ }

theorem runIn_stock (built : List Library) (epoch : Nat) (w : Workspace) :
    ∃ w', (stock built epoch).runIn w = (.ok ⟨⟩, w') := by
  induction built generalizing w with
  | nil => exact ⟨w, rfl⟩
  | cons l built ih =>
    obtain ⟨w', hw'⟩ := ih (w.setEntry l.source
      { w.entry l.source with library? := some ⟨epoch, l⟩ })
    refine ⟨w', ?_⟩
    have hcons : stock (l :: built) epoch = updateEntry l.source
        (fun e => { e with library? := some ⟨epoch, l⟩ }) >>= fun _ => stock built epoch := rfl
    rw [hcons, runIn_bind, runIn_updateEntry]
    exact hw'

theorem keeps_stock {built : List Library} {l : Library} (hl : l ∈ built) :
    Keeps (Stocked w₀ built)
      (updateEntry l.source fun e => { e with library? := some ⟨w₀.epoch, l⟩ }) := by
  intro w hw
  have hentry (source : Source) := w.entry_setEntry l.source source
    { w.entry l.source with library? := some ⟨w₀.epoch, l⟩ }
  refine ⟨(w.options_setEntry ..).trans hw.options, (w.sources_setEntry ..).trans hw.sources,
    (w.installed_setEntry ..).trans hw.installed, (w.epoch_setEntry ..).trans hw.epoch,
    (w.room_setEntry ..).trans hw.room,
    fun source => ?_, fun source => ?_⟩
  · rw [runIn_updateEntry, hentry]
    split
    · next hs => exact hs ▸ hw.same source
    · exact hw.same source
  · rw [runIn_updateEntry, hentry]
    split
    · next hs => exact .inr ⟨l, hl, hs.symm, rfl⟩
    · exact hw.library source

theorem Stocked.refl (w : Workspace) (built : List Library) : Stocked w built w :=
  ⟨rfl, rfl, rfl, rfl, rfl, fun _ => ⟨rfl, rfl, rfl, rfl⟩, fun _ => .inl rfl⟩

/-- What is known once libraries were stocked was known before, or is one of them. -/
theorem Stocked.known {built : List Library} {w' : Workspace} (h : Stocked w built w')
    {source : Source} {l : Library} (hl : w'.knownLibrary? w.epoch source = some l) :
    w.knownLibrary? w.epoch source = some l ∨ (l ∈ built ∧ l.source = source) := by
  unfold knownLibrary? at hl ⊢
  rw [h.installed] at hl
  cases hinstalled : w.installed.lookup source with
  | some k =>
    rw [hinstalled] at hl
    exact .inl hl
  | none =>
    rw [hinstalled] at hl
    rcases h.library source with hsame | ⟨k, hk, hsource, hnew⟩
    · unfold Entry.libraryAt? at hl ⊢
      rw [hsame] at hl
      exact .inl hl
    · have hkl : (w'.entry source).libraryAt? w.epoch = some k := by
        unfold Entry.libraryAt?
        rw [hnew]
        exact if_pos rfl
      have hl : (w'.entry source).libraryAt? w.epoch = some l := hl
      rw [hkl] at hl
      cases hl
      exact .inr ⟨hk, hsource⟩

theorem cached_stock (h : Cached w₀ w) {root : Source} {p : Program} {w' : Workspace}
    (hp : Program.ofRoot (.reading w₀.world.unit? (w.knownLibrary? w₀.epoch) w₀.world.room) root = .ok p)
    (hw' : Stocked w p.built w') : Cached w₀ w' where
  options := hw'.options.trans h.options
  sources := hw'.sources.trans h.sources
  installed := hw'.installed.trans h.installed
  epoch := hw'.epoch.trans h.epoch
  room := hw'.room.trans h.room
  valid source := by
    obtain ⟨hstamp, hscan, hparsed, -⟩ := hw'.same source
    obtain ⟨hvstamp, hvscan, hvparsed⟩ := h.valid source
    exact ⟨hstamp ▸ hvstamp, hscan ▸ hvscan, hparsed ▸ hvparsed⟩
  dated source := by
    obtain ⟨-, -, -, hresolved⟩ := hw'.same source
    refine ⟨?_, hresolved ▸ (h.dated source).resolved⟩
    rcases hw'.library source with hsame | ⟨l, -, -, hnew⟩
    · exact hsame ▸ (h.dated source).library
    · intro x hx
      rw [hnew] at hx
      cases hx
      exact Nat.lt_succ_of_le (Nat.le_of_eq h.epoch)
  warm := by
    refine h.warm.extend hp (fun source l hl => ?_) fun source l hl => ?_
    swap
    · rw [← h.epoch] at hl ⊢
      exact hw'.known hl
    have hl : w₀.installed.lookup source = some l := hl
    unfold knownLibrary?
    rw [hw'.installed, h.installed, hl]
    rfl
  resolved unit root u hu := by
    obtain ⟨-, -, -, hresolved⟩ := hw'.same unit
    unfold Entry.resolvedAt? at hu
    rw [hresolved] at hu
    exact h.resolved unit root u hu

/-- A program is built from what is known; the libraries built for it are kept. -/
theorem cached_program (h : Cached w₀ w) (root : Source) :
    ((program root w₀.epoch).runIn w).1 =
        Program.ofRoot (.reading w₀.world.unit? (w.knownLibrary? w₀.epoch) w₀.world.room) root ∧
      Cached w₀ ((program root w₀.epoch).runIn w).2 := by
  obtain ⟨hanswer, hread⟩ := answers_ofRoot w root w h.reading
  rw [h.epoch, h.world, h.room] at hanswer
  rw [h.epoch, h.room] at hread
  unfold Request.program
  rw [runIn_bind_ok (runIn_workspace w), h.room, runIn_bind]
  cases hrun : (Program.ofRoot (provider w₀.epoch w₀.room) root).runIn w with
  | mk result w' =>
    rw [hrun] at hanswer hread
    have hw' := h.of_reading hread
    dsimp only at hanswer ⊢
    cases result with
    | error failure => exact ⟨hanswer, hw'⟩
    | ok p =>
      have hknown : w'.knownLibrary? w₀.epoch = w.knownLibrary? w₀.epoch :=
        funext (hread.known w₀.epoch)
      rw [← hknown] at hanswer
      dsimp only
      rw [runIn_bind_ok (runIn_workspace w'), if_pos hw'.epoch, runIn_bind]
      have hkeeps : Keeps (Stocked w' p.built) (stock p.built w'.epoch) :=
        Keeps.forM fun l hl => keeps_stock hl
      have hstocked := hkeeps w' (.refl w' p.built)
      rw [hw'.epoch] at hstocked
      obtain ⟨w'', hstore⟩ := runIn_stock p.built w₀.epoch w'
      rw [hstore] at hstocked
      have hstore : (p.built.forM fun l => updateEntry l.source fun e =>
          { e with library? := some ⟨w₀.epoch, l⟩ }).runIn w' = (.ok ⟨⟩, w'') := hstore
      rw [hstore]
      exact ⟨hknown ▸ hanswer, cached_stock hw' hanswer.symm hstocked⟩

/-- What is read off the program of a steady root is the same with a store and without. -/
theorem bind_program (h : Cached w₀ w) {root : Source} (hsteady : w₀.world.Steady root) {β : Type}
    {f : Program → Except Failure β}
    (hf : ∀ p p₀ : Program, p.graph = p₀.graph → p.core = p₀.core →
      p.nonLibraries = p₀.nonLibraries → f p = f p₀) :
    (Program.ofRoot (.reading w₀.world.unit? (w.knownLibrary? w₀.epoch) w₀.world.room) root).bind f =
      (w₀.world.program root).bind f := by
  cases hp : Program.ofRoot (.reading w₀.world.unit? (w.knownLibrary? w₀.epoch) w₀.world.room) root with
  | error failure =>
    have herror : w₀.world.program root = .error failure := by
      rcases Program.ofRoot_cases h.warm root with ⟨failure', herror, herror₀⟩ |
        ⟨s, s₀, q, q₀, hs, -, -, hq, -, -⟩
      · rw [hp] at herror
        cases herror
        exact herror₀
      · rw [Program.ofRoot_reading, hs] at hp
        cases hq.symm.trans hp
    rw [herror]
  | ok p =>
    obtain ⟨p₀, hp₀, hgraph, hcore, hparts⟩ := Program.graph_eq_of_steady h.warm hsteady hp
    rw [show w₀.world.program root = .ok p₀ from hp₀]
    exact hf p p₀ hgraph hcore hparts

/-! ### Libraries -/

/-- A library at hand is the one that a new workspace would build. -/
theorem library?_of_known (h : Cached w₀ w) {source : Source} (hsteady : w₀.world.Steady source)
    {l : Library} (hknown : w.knownLibrary? w₀.epoch source = some l) :
    w₀.world.library? source = .ok (some l) := by
  unfold World.library?
  cases hl : w₀.world.installed source with
  | some k =>
    rw [h.warm.known_of_installed source k hl] at hknown
    rw [Option.some.inj hknown]
  | none =>
    obtain ⟨l₀, units, hfind, -⟩ := h.warm.built source l hl hknown
    obtain ⟨q, hq, hlibrary⟩ := h.warm.typed source l hl hknown hsteady
    obtain ⟨-, ⟨t, ht, hpart⟩, -⟩ := Provider.find_built hfind
    have ht : w₀.world.unit? source = .ok (some t) := ht
    have hq : w₀.world.program source = .ok q := hq
    dsimp only
    rw [ht, hq]
    dsimp only [bind, Except.bind, pure, Except.pure]
    rw [hpart, hlibrary]
    rfl

/-- A library at hand is given as it is; its text is not looked at. -/
theorem runIn_library?_of_known {source : Source} {l : Library}
    (h : w.knownLibrary? w.epoch source = some l) :
    (library? source).runIn w = (.ok (some l), w) := by
  unfold Request.library?
  rw [runIn_bind_ok (runIn_epoch w), runIn_bind_ok (runIn_workspace w), h]
  rfl

theorem cached_library? (h : Cached w₀ w) (source : Source) :
    Cached w₀ ((library? source).runIn w).2 ∧
      (w₀.world.Steady source →
        ((library? source).runIn w).1 = w₀.world.library? source) := by
  cases hknown : w.knownLibrary? w₀.epoch source with
  | some l =>
    rw [runIn_library?_of_known (h.epoch.symm ▸ hknown)]
    exact ⟨h, fun hsteady => (library?_of_known h hsteady hknown).symm⟩
  | none =>
    obtain ⟨hanswer, hw'⟩ := cached_unit? h source
    unfold Request.library? World.library?
    rw [runIn_bind_ok (runIn_epoch w), runIn_bind_ok (runIn_workspace w), h.epoch, hknown,
      h.warm.installed_eq_none hknown]
    dsimp only
    rw [runIn_bind, ← hanswer]
    cases hrun : (Request.unit? source).runIn w with
    | mk result w' =>
      rw [hrun] at hw'
      have hw' : Cached w₀ w' := hw'
      cases result with
      | error failure => exact ⟨hw', fun _ => rfl⟩
      | ok tree? =>
        cases tree? with
        | none => exact ⟨hw', fun _ => rfl⟩
        | some t =>
          dsimp only
          by_cases hpart : t.isPart = true
          · rw [if_pos hpart, show (Except.ok (some t) : Except Failure (Option Tree)) >>= _ =
              if t.isPart then _ else _ from rfl, if_pos hpart]
            exact ⟨hw', fun _ => rfl⟩
          · rw [if_neg hpart, show (Except.ok (some t) : Except Failure (Option Tree)) >>= _ =
              if t.isPart then _ else _ from rfl, if_neg hpart]
            obtain ⟨hprogram, hw''⟩ := cached_program hw' source
            have hbind := fun hsteady => @bind_program _ _ hw' source hsteady _
              (fun p => .ok (p.graph.libraryOf? source)) fun p p₀ hgraph _ _ => by rw [hgraph]
            rw [runIn_bind]
            cases hrun' : (Request.program source w₀.epoch).runIn w' with
            | mk result w'' =>
              rw [hrun'] at hprogram hw''
              rw [← hprogram] at hbind
              cases result <;> exact ⟨hw'', hbind⟩

/-! ### Resolved units -/

/-- The entry with a resolved unit that it keeps from now on. -/
def keepResolved (e : Entry) (root : Source) (x : Epoched ResolvedUnit) : Entry :=
  { e with resolved := (root, x) :: e.resolved.filter (·.1 ≠ root) }

theorem lookup_keepResolved (e : Entry) (root : Source) (x : Epoched ResolvedUnit) (root' : Source) :
    (keepResolved e root x).resolved.lookup root' =
      if root' = root then some x else e.resolved.lookup root' :=
  Sources.lookup_put e.resolved root root' x

theorem cached_keep (h : Cached w₀ w) {unit root : Source} {u : ResolvedUnit}
    (hu : w₀.world.Steady root → w₀.world.resolve unit root = .ok u) :
    Cached w₀ (w.setEntry unit (keepResolved (w.entry unit) root ⟨w₀.epoch, u⟩)) := by
  have hentry (source : Source) :=
    w.entry_setEntry unit source (keepResolved (w.entry unit) root ⟨w₀.epoch, u⟩)
  refine ⟨(w.options_setEntry ..).trans h.options, (w.sources_setEntry ..).trans h.sources,
    (w.installed_setEntry ..).trans h.installed, (w.epoch_setEntry ..).trans h.epoch,
    (w.room_setEntry ..).trans h.room,
    fun source => ?_, fun source => ?_, ?_, fun unit' root' u' hu' hsteady => ?_⟩
  · rw [hentry]
    split
    · next hs =>
      subst hs
      exact ⟨(h.valid source).stamp, (h.valid source).scan, (h.valid source).parsed⟩
    · exact h.valid source
  · rw [hentry]
    split
    · next hs =>
      subst hs
      refine ⟨(h.dated source).library, fun root' x hx => ?_⟩
      rw [lookup_keepResolved] at hx
      split at hx
      · cases hx
        exact Nat.lt_succ_self _
      · exact (h.dated source).resolved root' x hx
    · exact h.dated source
  · have hknown (source : Source) : (w.setEntry unit (keepResolved (w.entry unit) root
        ⟨w₀.epoch, u⟩)).knownLibrary? w₀.epoch source = w.knownLibrary? w₀.epoch source := by
      unfold knownLibrary? Entry.libraryAt?
      rw [installed_setEntry, hentry]
      split
      · next hs =>
        rw [hs]
        rfl
      · rfl
    rw [show knownLibrary? _ w₀.epoch = _ from funext hknown]
    exact h.warm
  · rw [hentry] at hu'
    split at hu'
    · next hs =>
      subst hs
      unfold Entry.resolvedAt? at hu'
      rw [lookup_keepResolved] at hu'
      split at hu'
      · next hroot =>
        subst hroot
        have hsame : some u = some u' := (if_pos rfl).symm.trans hu'
        cases hsame
        exact hu hsteady
      · exact h.resolved unit' root' u' hu' hsteady
    · exact h.resolved unit' root' u' hu' hsteady

theorem runIn_validate_of_cached (h : Cached w₀ w) (source : Source) :
    (validate source).runIn w = (.ok (), w) := by
  rw [runIn_validate, h.validate]

/-- The ways in which a request to resolve a unit runs. The unit is at hand, or it cannot be read, or the
    root has no program; or it is resolved in that program, in vain or to be kept. -/
inductive Resolving (w₀ w : Workspace) (unit root : Source) :
    Except Failure ResolvedUnit × Workspace → Prop
  | atHand {u : ResolvedUnit} (hkept : (w.entry unit).resolvedAt? root w₀.epoch = some u) :
      Resolving w₀ w unit root (.ok u, w)
  | unread {failure : Failure} {w' : Workspace}
      (hparse : (parse unit).runIn w = (.error failure, w')) :
      Resolving w₀ w unit root (.error failure, w')
  | unbuilt {parsed : Parsed} {w' w'' : Workspace} {failure : Failure}
      (hparse : (parse unit).runIn w = (.ok parsed, w'))
      (hprogram : (program root w₀.epoch).runIn w' = (.error failure, w'')) :
      Resolving w₀ w unit root (.error failure, w'')
  | refused {parsed : Parsed} {w' w'' : Workspace} {p : Program} {failure : Failure}
      (hparse : (parse unit).runIn w = (.ok parsed, w'))
      (hprogram : (program root w₀.epoch).runIn w' = (.ok p, w''))
      (hresolve : p.resolve w₀.options root ⟨unit, parsed.tree⟩ = .error failure) :
      Resolving w₀ w unit root (.error failure, w'')
  | resolved {parsed : Parsed} {w' w'' : Workspace} {p : Program} {u : ResolvedUnit}
      (hparse : (parse unit).runIn w = (.ok parsed, w'))
      (hprogram : (program root w₀.epoch).runIn w' = (.ok p, w''))
      (hresolve : p.resolve w₀.options root ⟨unit, parsed.tree⟩ = .ok u) :
      Resolving w₀ w unit root (.ok u, w''.setEntry unit (keepResolved (w''.entry unit) root ⟨w₀.epoch, u⟩))

theorem cached_of_parse (h : Cached w₀ w) {unit : Source} {result : Except Failure Parsed}
    {w' : Workspace} (hparse : (parse unit).runIn w = (result, w')) :
    w₀.world.parse unit = result ∧ Cached w₀ w' := by
  obtain ⟨hanswer, hw'⟩ := cached_parse h unit
  rw [hparse] at hanswer hw'
  exact ⟨hanswer.symm, hw'⟩

theorem cached_of_program (h : Cached w₀ w) {root : Source} {result : Except Failure Program}
    {w' : Workspace} (hprogram : (program root w₀.epoch).runIn w = (result, w')) :
    Program.ofRoot (.reading w₀.world.unit? (w.knownLibrary? w₀.epoch) w₀.world.room) root = result ∧
      Cached w₀ w' := by
  obtain ⟨hanswer, hw'⟩ := cached_program h root
  rw [hprogram] at hanswer hw'
  exact ⟨hanswer.symm, hw'⟩

theorem resolve_cases (h : Cached w₀ w) (unit root : Source) :
    Resolving w₀ w unit root ((resolve unit root).runIn w) := by
  unfold Request.resolve
  rw [runIn_bind_ok (runIn_validate_of_cached h root),
    runIn_bind_ok (runIn_validate_of_cached h unit), runIn_bind_ok (runIn_epoch w),
    runIn_bind_ok (runIn_entry w unit), h.epoch]
  cases hkept : (w.entry unit).resolvedAt? root w₀.epoch with
  | some u => exact .atHand hkept
  | none =>
    dsimp only
    cases hparse : (Request.parse unit).runIn w with
    | mk result w' =>
      obtain ⟨-, hw'⟩ := cached_of_parse h hparse
      cases result with
      | error failure =>
        rw [runIn_bind_error hparse]
        exact .unread hparse
      | ok parsed =>
        rw [runIn_bind_ok hparse]
        cases hprogram : (Request.program root w₀.epoch).runIn w' with
        | mk result w'' =>
          obtain ⟨-, hw''⟩ := cached_of_program hw' hprogram
          cases result with
          | error failure =>
            rw [runIn_bind_error hprogram]
            exact .unbuilt hparse hprogram
          | ok p =>
            rw [runIn_bind_ok hprogram, runIn_bind_ok (runIn_workspace w''), hw''.options]
            cases hresolve : p.resolve w₀.options root ⟨unit, parsed.tree⟩ with
            | error failure => exact .refused hparse hprogram hresolve
            | ok u =>
              rw [runIn_bind_ok (runIn_workspace w''), if_pos hw''.epoch,
                runIn_bind_ok (runIn_updateEntry ..), runIn_pure]
              exact .resolved hparse hprogram hresolve

/-- A unit that can be read is resolved in the program that there is with what is kept. -/
theorem bind_resolve (h : Cached w₀ w) {unit root : Source} (hsteady : w₀.world.Steady root)
    {parsed : Parsed} (hparse : w₀.world.parse unit = .ok parsed) :
    w₀.world.resolve unit root =
      (Program.ofRoot (.reading w₀.world.unit? (w.knownLibrary? w₀.epoch) w₀.world.room) root).bind
        fun p => p.resolve w₀.options root ⟨unit, parsed.tree⟩ := by
  have hbind := bind_program h hsteady
    (f := fun p => p.resolve w₀.options root ⟨unit, parsed.tree⟩) fun p p₀ hgraph hcore hparts => by
      unfold Program.resolve
      rw [hgraph, hcore, hparts]
  rw [hbind, World.resolve_eq, hparse]
  rfl

theorem cached_resolve (h : Cached w₀ w) (unit root : Source) :
    Cached w₀ ((resolve unit root).runIn w).2 ∧
      (w₀.world.Steady root →
        ((resolve unit root).runIn w).1 = w₀.world.resolve unit root) := by
  have hrun := resolve_cases h unit root
  generalize (resolve unit root).runIn w = run at hrun ⊢
  cases hrun with
  | atHand hkept => exact ⟨h, fun hsteady => (h.resolved unit root _ hkept hsteady).symm⟩
  | unread hparse =>
    obtain ⟨hfailed, hw'⟩ := cached_of_parse h hparse
    refine ⟨hw', fun _ => ?_⟩
    rw [World.resolve_eq, hfailed]
    rfl
  | unbuilt hparse hprogram =>
    obtain ⟨hparsed, hw'⟩ := cached_of_parse h hparse
    obtain ⟨hfailed, hw''⟩ := cached_of_program hw' hprogram
    refine ⟨hw'', fun hsteady => ?_⟩
    rw [bind_resolve hw' hsteady hparsed, hfailed]
    rfl
  | refused hparse hprogram hresolve =>
    obtain ⟨hparsed, hw'⟩ := cached_of_parse h hparse
    obtain ⟨hbuilt, hw''⟩ := cached_of_program hw' hprogram
    refine ⟨hw'', fun hsteady => ?_⟩
    rw [bind_resolve hw' hsteady hparsed, hbuilt]
    exact hresolve.symm
  | @resolved _ _ _ _ u hparse hprogram hresolve =>
    obtain ⟨hparsed, hw'⟩ := cached_of_parse h hparse
    obtain ⟨hbuilt, hw''⟩ := cached_of_program hw' hprogram
    have hanswer (hsteady : w₀.world.Steady root) : w₀.world.resolve unit root = .ok u := by
      rw [bind_resolve hw' hsteady hparsed, hbuilt]
      exact hresolve
    exact ⟨cached_keep hw'' hanswer, fun hsteady => (hanswer hsteady).symm⟩

theorem keeps_cached_parse (source : Source) : Keeps (Cached w₀) (parse source) :=
  fun _ h => (cached_parse h source).2

theorem keeps_cached_scan (source : Source) : Keeps (Cached w₀) (scan source) :=
  fun w h => h.of_reading (answers_scan w source w h.reading).2

/-- Every query keeps what a new workspace would derive as well, and nothing else. -/
theorem cached_query (q : Query) (h : Cached w₀ w) : Cached w₀ (q.run w) :=
  q.keeps keeps_cached_scan keeps_cached_parse (fun source _ h => (cached_library? h source).1)
    (fun unit root _ h => (cached_resolve h unit root).1) h

end Request

/-! ## Histories -/

namespace Workspace

variable {w : Workspace}

/-- The workspace without all that it keeps. -/
def fresh (w : Workspace) : Workspace := { w with entries := [], epoch := 0 }

/-- Installed libraries go by their own sources. -/
def WellFiled (w : Workspace) : Prop :=
  ∀ source l, w.installed.lookup source = some l → l.source = source

theorem WellFiled.install {w w' : Workspace} (h : w.WellFiled) {under : Source} {l : Library}
    (hw' : w.install under l = .ok w') : w'.WellFiled := by
  unfold Workspace.install at hw'
  split at hw'
  · cases hw'
  · next hsource =>
    cases hw'
    intro source k hk
    have hk : (w.installed.filter (·.1 ≠ under) ++ [(under, l)]).lookup source = some k := hk
    rw [List.lookup_append, Sources.lookup_filter_ne] at hk
    split at hk
    · next hs =>
      subst hs
      have hk : some l = some k := by simpa using hk
      cases hk
      exact Decidable.not_not.1 hsource
    · next hs =>
      have hne : (source == under) = false := by simpa using hs
      refine h source k ?_
      simpa [List.lookup_cons, hne] using hk

/-- Nothing is at hand in an epoch that has just begun. -/
theorem cached_of_before (hfiled : w.WellFiled)
    (hvalid : ∀ source, (w.entry source).Valid w.sources source)
    (hbefore : ∀ source, (w.entry source).Before w.epoch) : Cached w w := by
  have hlibrary (source : Source) : (w.entry source).libraryAt? w.epoch = none := by
    unfold Entry.libraryAt?
    cases hx : (w.entry source).library? with
    | none => rfl
    | some x => exact if_neg (Nat.ne_of_lt ((hbefore source).library x hx))
  have hknown : w.knownLibrary? w.epoch = w.world.installed := by
    funext source
    unfold knownLibrary?
    rw [hlibrary]
    show (w.installed.lookup source <|> none) = w.installed.lookup source
    cases w.installed.lookup source <;> rfl
  refine ⟨rfl, rfl, rfl, rfl, rfl, hvalid, fun source => (hbefore source).succ, ?_,
    fun unit root u hu => ?_⟩
  · rw [hknown]
    exact Program.warm_installed _ _ hfiled
  · unfold Entry.resolvedAt? at hu
    cases hx : (w.entry unit).resolved.lookup root with
    | none =>
      rw [hx] at hu
      cases hu
    | some x =>
      rw [hx] at hu
      have hnone : x.at? w.epoch = none :=
        if_neg (Nat.ne_of_lt ((hbefore unit).resolved root x hx))
      exact absurd (hnone.symm.trans hu) nofun

/-- Changes that have been announced before every query, and at the end; some sources have changed
    before. -/
def Announced : List Source → List Step → Prop
  | changed, [] => changed = []
  | changed, .setText source _ :: steps => Announced (source :: changed) steps
  | changed, .changed source :: steps => Announced (changed.filter (· ≠ source)) steps
  | changed, .install .. :: steps => Announced changed steps
  | changed, .query _ :: steps => changed = [] ∧ Announced changed steps
  | _, .outside .. :: _ => False

/-- A workspace in which some sources have changed since what was derived from them. -/
structure Settled (changed : List Source) (w : Workspace) : Prop where
  filed : w.WellFiled
  valid : ∀ source, source ∉ changed → (w.entry source).Valid w.sources source
  dated : ∀ source, (w.entry source).Before (w.epoch + 1)
  cached : changed = [] → Cached w w

theorem Settled.setText {changed : List Source} (h : Settled changed w) (source : Source)
    (text? : Option String) : Settled (source :: changed) (w.setText source text?) where
  filed := h.filed
  valid t ht := by
    obtain ⟨hne, ht⟩ := not_or.1 fun h => ht (List.mem_cons.2 h)
    have hfiles : (w.sources.setText source text?).resolvers = w.sources.resolvers ∧
        (w.sources.setText source text?).disk = w.sources.disk := by
      cases text? <;> exact ⟨rfl, rfl⟩
    have hcontents : (w.sources.setText source text?).contents t = w.sources.contents t := by
      unfold Sources.contents
      rw [Sources.lookup_overlay_setText, if_neg hne, hfiles.1, hfiles.2]
    have hstamp : (w.sources.setText source text?).stamp? t = w.sources.stamp? t := by
      unfold Sources.stamp?
      rw [Sources.lookup_overlay_setText, if_neg hne, hfiles.1, hfiles.2]
    obtain ⟨hvstamp, hvscan, hvparsed⟩ := h.valid t ht
    exact ⟨fun stamp hs => hstamp.trans (hvstamp stamp hs),
      fun scan hs => hcontents.symm ▸ hvscan scan hs,
      fun parsed hp => hcontents.symm ▸ hvparsed parsed hp⟩
  dated := h.dated
  cached := nofun

theorem Settled.changed {changed : List Source} (h : Settled changed w) (source : Source) :
    Settled (changed.filter (· ≠ source)) (w.invalidate source) := by
  have hvalid : ∀ t, t ∉ changed.filter (· ≠ source) →
      ((w.invalidate source).entry t).Valid (w.invalidate source).sources t := by
    intro t ht
    rw [entry_invalidate, sources_invalidate]
    split
    · exact Entry.valid_empty _ t
    · next hne => exact h.valid t fun hmem => ht (by simp [hmem, hne])
  have hbefore : ∀ t, ((w.invalidate source).entry t).Before (w.epoch + 1) := by
    intro t
    rw [entry_invalidate]
    split
    · exact Entry.before_empty _
    · exact h.dated t
  have hfiled : (w.invalidate source).WellFiled := by
    unfold WellFiled
    rw [installed_invalidate]
    exact h.filed
  exact ⟨hfiled, hvalid, fun t => (hbefore t).succ, fun hnone =>
    cached_of_before hfiled (fun t => hvalid t (by rw [hnone]; exact nofun)) hbefore⟩

theorem Settled.install {changed : List Source} (h : Settled changed w) {under : Source} {l : Library}
    {w' : Workspace} (hw' : w.install under l = .ok w') : Settled changed w' := by
  have hfiled := h.filed.install hw'
  unfold Workspace.install at hw'
  split at hw'
  · cases hw'
  · cases hw'
    exact ⟨hfiled, h.valid, fun t => (h.dated t).succ, fun hnone =>
      cached_of_before hfiled (fun t => h.valid t (by rw [hnone]; exact nofun)) h.dated⟩

theorem Settled.query (h : Settled [] w) (q : Query) : Settled [] (q.run w) := by
  have hcached := Request.cached_query q (h.cached rfl)
  have hsame : Cached (q.run w) (q.run w) := by
    have hworld := hcached.world
    refine ⟨rfl, rfl, rfl, rfl, rfl, ?_, ?_, ?_, ?_⟩
    · rw [hcached.sources]
      exact hcached.valid
    · rw [hcached.epoch]
      exact hcached.dated
    · rw [hworld, hcached.epoch]
      exact hcached.warm
    · rw [hworld, hcached.epoch]
      exact hcached.resolved
  refine ⟨?_, fun source _ => hsame.valid source, hsame.dated, fun _ => hsame⟩
  unfold WellFiled
  rw [hcached.installed]
  exact h.filed

/-- One step of a history in which changes are announced. -/
theorem Settled.step {changed : List Source} (h : Settled changed w) {step : Step}
    {steps : List Step} (hsteps : Announced changed (step :: steps)) :
    ∃ changed', Settled changed' (step.run w) ∧ Announced changed' steps := by
  cases step with
  | setText source text? => exact ⟨_, h.setText source text?, hsteps⟩
  | outside disk resolvers => exact hsteps.elim
  | changed source => exact ⟨_, h.changed source, hsteps⟩
  | install under l =>
    refine ⟨changed, ?_, hsteps⟩
    show Settled changed ((w.install under l).toOption.getD w)
    cases hinstall : w.install under l with
    | error failure => exact h
    | ok w' => exact h.install hinstall
  | query q =>
    obtain ⟨rfl, hsteps⟩ := hsteps
    exact ⟨[], h.query q, hsteps⟩

/-- After a history in which changes are announced, nothing has changed that was not. -/
theorem Settled.after {changed : List Source} (h : Settled changed w) {steps : List Step}
    (hsteps : Announced changed steps) : Settled [] (w.after steps) := by
  induction steps generalizing changed w with
  | nil =>
    have hnone : changed = [] := hsteps
    exact hnone ▸ h
  | cons step steps ih =>
    obtain ⟨changed', h', hsteps'⟩ := h.step hsteps
    exact ih h' hsteps'

theorem settled_of_new (hentries : w.entries = []) (hfiled : w.WellFiled) : Settled [] w := by
  have hentry (source : Source) : w.entry source = {} := by
    unfold Workspace.entry
    rw [hentries]
    rfl
  have hvalid (source : Source) : (w.entry source).Valid w.sources source := by
    rw [hentry]
    exact Entry.valid_empty _ _
  have hbefore (epoch : Nat) (source : Source) : (w.entry source).Before epoch := by
    rw [hentry]
    exact Entry.before_empty epoch
  exact ⟨hfiled, fun source _ => hvalid source, hbefore _, fun _ =>
    cached_of_before hfiled hvalid (hbefore _)⟩

/-- In a history of a new workspace in which every change of a text is announced before the next
    query, a unit is resolved inside a steady root as in a workspace that has the same options,
    texts and installed libraries and keeps nothing; and the library of a steady root is the same.
    It does not matter what was asked for before. -/
theorem answers_after {w₀ : Workspace} (hentries : w₀.entries = []) (hfiled : w₀.WellFiled)
    {steps : List Step} (hsteps : Announced [] steps) {root : Source}
    (hsteady : (w₀.after steps).world.Steady root) (unit : Source) :
    ((Request.resolve unit root).runIn (w₀.after steps)).1 =
        ((Request.resolve unit root).runIn (w₀.after steps).fresh).1 ∧
      ((Request.library? root).runIn (w₀.after steps)).1 =
        ((Request.library? root).runIn (w₀.after steps).fresh).1 := by
  have hafter : Settled [] (w₀.after steps) := (settled_of_new hentries hfiled).after hsteps
  have hcached := hafter.cached rfl
  have hfresh : Cached (w₀.after steps).fresh (w₀.after steps).fresh :=
    (settled_of_new (w := (w₀.after steps).fresh) rfl hafter.filed).cached rfl
  exact ⟨((Request.cached_resolve hcached unit root).2 hsteady).trans
      ((Request.cached_resolve hfresh unit root).2 hsteady).symm,
    ((Request.cached_library? hcached root).2 hsteady).trans
      ((Request.cached_library? hfresh root).2 hsteady).symm⟩

/-- What a step does to the texts, if files stay as they are. -/
def Step.edit (s : Sources) : Step → Sources
  | .setText source text? => s.setText source text?
  | _ => s

/-- Nothing but an editor changes texts. -/
theorem Settled.sources_after {changed : List Source} (h : Settled changed w) {steps : List Step}
    (hsteps : Announced changed steps) :
    (w.after steps).sources = steps.foldl Step.edit w.sources := by
  induction steps generalizing changed w with
  | nil => rfl
  | cons step steps ih =>
    obtain ⟨changed', h', hsteps'⟩ := h.step hsteps
    rw [after_cons, ih h' hsteps', List.foldl_cons]
    congr 1
    cases step with
    | setText source text? => rfl
    | outside disk resolvers => exact hsteps.elim
    | changed source => exact sources_invalidate ..
    | install under l =>
      show ((w.install under l).toOption.getD w).sources = w.sources
      unfold Workspace.install
      split <;> rfl
    | query q =>
      obtain ⟨rfl, -⟩ := hsteps
      exact (Request.cached_query q (h.cached rfl)).sources

/-- A unit is resolved, gets another text, and is resolved again. -/
theorem answers_after_edit :
    let unit : Source := ⟨.file, "/a.dart"⟩
    let w₀ : Workspace := { options := {}, sources := { resolvers := [] } }
    let w := w₀.after [.install .core .core, .setText unit (some "class A \x7b\x7d"), .changed unit,
      .query (.resolve unit unit), .setText unit (some "class B \x7b\x7d"), .changed unit]
    ((Request.resolve unit unit).runIn w).1 = ((Request.resolve unit unit).runIn w.fresh).1 ∧
      ((Request.library? unit).runIn w).1 = ((Request.library? unit).runIn w.fresh).1 := by
  intro unit w₀ w
  have hfiled : w₀.WellFiled := fun source l h => by cases h
  have hnew : Settled [] w₀ := settled_of_new rfl hfiled
  -- No other source has a text.
  have hsteady (steps : List Step) (hsteps : Announced [] steps) (c : Contents)
      (htexts : steps.foldl Step.edit w₀.sources =
        { resolvers := [], overlay := [(unit, c)], lastStamp := 2 }) :
      (w₀.after steps).world.Steady unit := by
    refine Program.steady_of_alone (hnew.after hsteps).filed fun source t ht => ?_
    by_contra hne
    have hne : (source == unit) = false := by simpa using hne
    have hcontents : (w₀.after steps).sources.contents source = .error (.unresolvable source) := by
      rw [hnew.sources_after hsteps, htexts]
      unfold Sources.contents
      simp [List.lookup_cons, hne]
    unfold World.unit? at ht
    rw [text_of_error hcontents] at ht
    cases ht
  exact answers_after rfl hfiled (by simp [Announced])
    (hsteady _ (by simp [Announced]) ⟨"class B \x7b\x7d", 2⟩ rfl) unit

end Workspace

end DartAnalysis
