/-
  Histories of a workspace: texts change, changes are announced, libraries are installed, and queries
  are made, in any order. What a query leaves behind is right if every request it makes keeps it
  right (`Keeps`); requests are made of a few basic ones, so the walk over them is made once for
  all that may be kept (`Query.keeps`).
-/
import DartAnalysis.Proofs.Workspace.Reading

namespace DartAnalysis

/-! ## Histories -/

/-- A query to a workspace. -/
inductive Query where
  | scan (source : Source)
  | parse (source : Source)
  | library (source : Source)
  | element (location : Element.Location)
  | resolve (unit library : Source)
  | errors (source : Source)
  | reports (source : Source)

/-- The workspace after a query, whatever was answered. -/
def Query.run (w : Workspace) : Query → Workspace
  | .scan source => ((Request.scan source).runIn w).2
  | .parse source => ((Request.parse source).runIn w).2
  | .library source => ((Request.library? source).runIn w).2
  | .element location => ((Request.element? location).runIn w).2
  | .resolve unit root => ((Request.resolve unit root).runIn w).2
  | .errors source => ((Request.errors source).runIn w).2
  | .reports source => ((Request.reports source).runIn w).2

/-- What happens to a workspace. -/
inductive Step where
  /-- An editor gives a source a text, or takes it away. -/
  | setText (source : Source) (text? : Option String)
  /-- Files change, or what else there is for resolvers to read. -/
  | outside (disk : Disk) (resolvers : List Resolver)
  /-- It is announced that a source has changed. -/
  | changed (source : Source)
  | install (under : Source) (library : Library)
  | query (q : Query)

/-- The workspace after a step; what fails to be installed changes nothing. -/
def Step.run (w : Workspace) : Step → Workspace
  | .setText source text? => w.setText source text?
  | .outside disk resolvers => { w with sources := { w.sources with disk, resolvers } }
  | .changed source => w.invalidate source
  | .install under library => (w.install under library).toOption.getD w
  | .query q => q.run w

namespace Workspace

/-- The workspace after a history. -/
def after (w : Workspace) (steps : List Step) : Workspace := steps.foldl Step.run w

@[simp] theorem after_nil (w : Workspace) : w.after [] = w := rfl

@[simp] theorem after_cons (w : Workspace) (step : Step) (steps : List Step) :
    w.after (step :: steps) = (step.run w).after steps := rfl

theorem after_append (w : Workspace) (steps steps' : List Step) :
    w.after (steps ++ steps') = (w.after steps).after steps' :=
  List.foldl_append

/-! ## Entries that are put in place of others -/

section SetEntry

variable (w : Workspace) (source : Source) (e : Entry)

@[simp] theorem options_setEntry : (w.setEntry source e).options = w.options := by
  unfold setEntry
  split <;> rfl

@[simp] theorem sources_setEntry : (w.setEntry source e).sources = w.sources := by
  unfold setEntry
  split <;> rfl

@[simp] theorem installed_setEntry : (w.setEntry source e).installed = w.installed := by
  unfold setEntry
  split <;> rfl

@[simp] theorem epoch_setEntry : (w.setEntry source e).epoch = w.epoch := by
  unfold setEntry
  split <;> rfl

@[simp] theorem room_setEntry : (w.setEntry source e).room = w.room := by
  unfold setEntry
  split <;> rfl

@[simp] theorem sources_invalidate : (w.invalidate source).sources = w.sources :=
  w.sources_setEntry source {}

@[simp] theorem options_invalidate : (w.invalidate source).options = w.options :=
  w.options_setEntry source {}

@[simp] theorem installed_invalidate : (w.invalidate source).installed = w.installed :=
  w.installed_setEntry source {}

@[simp] theorem room_invalidate : (w.invalidate source).room = w.room :=
  w.room_setEntry source {}

theorem entry_invalidate (s : Source) :
    (w.invalidate source).entry s = if s = source then {} else w.entry s :=
  w.entry_setEntry source s {}

/-- An entry is dropped if its stamp is no more that of its source. -/
theorem validate_cases :
    w.validate source = w.invalidate source ∨ w.validate source = w ∧
      ∀ stamp, (w.entry source).stamp? = some stamp → w.sources.stamp? source = some stamp := by
  unfold validate
  dsimp only
  split
  · exact .inl rfl
  · next hkept =>
    refine .inr ⟨rfl, fun stamp hstamp => ?_⟩
    simp only [hstamp, Option.isSome_some, Bool.true_and, decide_eq_true_eq, ne_eq,
      not_not] at hkept
    exact hkept.symm

end SetEntry

end Workspace

/-! ## What requests keep -/

namespace Request

variable {α β : Type} {I : Workspace → Prop}

/-- Whatever a request answers, workspaces of a kind stay of that kind. -/
def Keeps (I : Workspace → Prop) (act : Request α) : Prop := ∀ w, I w → I (act.runIn w).2

namespace Keeps

theorem of_run {act : Request α} (hact : Keeps I act) {w w' : Workspace} {result : Except Failure α}
    (h : I w) (hrun : act.runIn w = (result, w')) : I w' := by
  have hw' := hact w h
  rwa [hrun] at hw'

theorem pure (a : α) : Keeps I (Pure.pure a : Request α) := fun _ => id

theorem throw (failure : Failure) : Keeps I (MonadExcept.throw failure : Request α) := fun _ => id

theorem workspace : Keeps I workspace := fun _ => id

theorem epoch : Keeps I epoch := fun _ => id

theorem entry (source : Source) : Keeps I (entry source) := fun _ => id

theorem contents (source : Source) : Keeps I (contents source) := by
  intro w hw
  rw [runIn_contents]
  exact hw

theorem bind {act : Request α} {f : α → Request β} (hact : Keeps I act) (hf : ∀ a, Keeps I (f a)) :
    Keeps I (act >>= f) := by
  intro w hw
  have hw' := hact w hw
  rw [runIn_bind]
  cases hrun : act.runIn w with
  | mk result w' =>
    rw [hrun] at hw'
    cases result with
    | error failure => exact hw'
    | ok a => exact hf a w' hw'

theorem tryCatch {act : Request α} {f : Failure → Request α} (hact : Keeps I act)
    (hf : ∀ failure, Keeps I (f failure)) : Keeps I (MonadExcept.tryCatch act f) := by
  intro w hw
  have hw' := hact w hw
  rw [runIn_tryCatch]
  cases hrun : act.runIn w with
  | mk result w' =>
    rw [hrun] at hw'
    cases result with
    | error failure => exact hf failure w' hw'
    | ok a => exact hw'

theorem ofExcept (e : Except Failure α) : Keeps I (MonadExcept.ofExcept e : Request α) := by
  cases e with
  | error failure => exact throw failure
  | ok a => exact pure a

theorem branch {b : Prop} [Decidable b] {act act' : Request α} (hthen : Keeps I act)
    (helse : Keeps I act') : Keeps I (if b then act else act') := by
  split
  · exact hthen
  · exact helse

theorem filterMapM {f : α → Request (Option β)} (hf : ∀ a, Keeps I (f a)) (xs : List α) :
    Keeps I (xs.filterMapM f) := by
  induction xs with
  | nil =>
    rw [List.filterMapM_nil]
    exact pure []
  | cons x xs ih =>
    rw [List.filterMapM_cons]
    refine bind (hf x) fun b? => ?_
    cases b? with
    | none => exact ih
    | some b => exact bind ih fun bs => pure (b :: bs)

theorem forM {f : α → Request PUnit} {xs : List α} (hf : ∀ a ∈ xs, Keeps I (f a)) :
    Keeps I (xs.forM f) := by
  induction xs with
  | nil => exact pure _
  | cons x xs ih =>
    exact bind (hf x List.mem_cons_self) fun _ => ih fun a ha => hf a (List.mem_cons_of_mem x ha)

end Keeps

/-! ## Programs -/

section Programs

variable (hparse : ∀ source, Keeps I (parse source))
include hparse

theorem keeps_unit? (source : Source) : Keeps I (unit? source) := by
  refine Keeps.tryCatch (Keeps.bind (hparse source) fun _ => Keeps.pure _) fun failure => ?_
  cases failure with
  | unreadable e => exact Keeps.branch (Keeps.pure none) (Keeps.throw _)
  | _ => exact Keeps.throw _

theorem keeps_find (epoch room : Nat) (source : Source) :
    Keeps I (Program.find (provider epoch room) source) := by
  refine Keeps.bind (Keeps.bind Keeps.workspace fun _ => Keeps.pure _) fun known? => ?_
  cases known? with
  | some l => exact Keeps.pure _
  | none =>
    refine Keeps.bind (keeps_unit? hparse source) fun tree? => ?_
    cases tree? with
    | none => exact Keeps.pure _
    | some t =>
      refine Keeps.branch (Keeps.pure _) (Keeps.bind (Keeps.filterMapM (fun part => ?_) _) fun _ =>
        Keeps.bind (Keeps.bind Keeps.workspace fun _ => Keeps.pure _) fun _ => Keeps.pure _)
      exact Keeps.bind (keeps_unit? hparse part) fun _ => Keeps.pure _

theorem keeps_gather (epoch room : Nat) (root : Source) (budget : Nat) (queue : List Source)
    (s : Program.Gathering) : Keeps I (Program.gather (provider epoch room) root budget queue s) := by
  induction budget, queue, s using Program.gather_induct with
  | nil =>
    rw [Program.gather_nil]
    exact Keeps.pure _
  | seen budget source rest s hseen ih =>
    rw [Program.gather_seen _ _ _ _ hseen]
    exact ih
  | new budget source rest s hnew ih ih' =>
    rw [Program.gather_new _ _ _ _ hnew]
    refine Keeps.bind (keeps_find hparse epoch room source) fun found => ?_
    refine Keeps.bind (Keeps.ofExcept _) fun s' => ?_
    unfold Program.proceed
    split
    · exact ih s'
    · exact Keeps.throw _
    · exact ih' _ _ s' rfl

theorem keeps_proceed (epoch room : Nat) (root : Source) (budget : Nat) (rest : List Source)
    (found : Program.Found) (s : Program.Gathering) :
    Keeps I (Program.proceed (provider epoch room) root budget s rest found) := by
  unfold Program.proceed
  split
  · exact keeps_gather hparse epoch room root _ _ s
  · exact Keeps.throw _
  · exact keeps_gather hparse epoch room root _ _ s

theorem keeps_ofRoot (epoch room : Nat) (root : Source) :
    Keeps I (Program.ofRoot (provider epoch room) root) :=
  Keeps.bind (keeps_gather hparse epoch room root _ _ _) fun _ => Keeps.ofExcept _

end Programs

/-! ## Queries -/

section Queries

variable (hparse : ∀ source, Keeps I (parse source))
  (hlibrary : ∀ source, Keeps I (library? source))
  (hresolve : ∀ unit library, Keeps I (resolve unit library))

include hlibrary in
theorem keeps_element? (location : Element.Location) : Keeps I (element? location) := by
  unfold element?
  split
  · exact Keeps.pure _
  · refine Keeps.bind (Keeps.bind Keeps.workspace fun w => ?_) fun _ => Keeps.pure _
    split
    · exact Keeps.pure _
    · split
      · exact Keeps.tryCatch (hlibrary _) fun _ => Keeps.pure _
      · exact Keeps.pure _

include hparse hresolve in
theorem keeps_errors (source : Source) : Keeps I (errors source) := by
  have hlibrary : Keeps I (includingLibrary? source) :=
    Keeps.bind Keeps.workspace fun _ => Keeps.pure _
  refine Keeps.bind (hparse source) fun parsed => ?_
  dsimp only
  split
  case' isTrue => refine Keeps.bind hlibrary fun library? => ?_
  case' isFalse => refine Keeps.bind (Keeps.pure _) fun library? => ?_
  all_goals
    cases library? with
    | none =>
      refine Keeps.bind (Keeps.pure _) fun resolved => Keeps.bind Keeps.workspace fun w => ?_
      split <;> exact Keeps.pure _
    | some library =>
      refine Keeps.bind (hresolve source library) fun _ => ?_
      refine Keeps.bind (Keeps.pure _) fun resolved => Keeps.bind Keeps.workspace fun w => ?_
      split <;> exact Keeps.pure _

include hparse hresolve in
theorem keeps_reports (source : Source) : Keeps I (reports source) :=
  Keeps.bind (keeps_errors hparse hresolve source) fun _ =>
    Keeps.bind (Keeps.contents source) fun _ => Keeps.pure _

end Queries

end Request

/-- What scans, trees, libraries and resolved units keep is kept by all queries. -/
theorem Query.keeps {I : Workspace → Prop} (hscan : ∀ source, Request.Keeps I (Request.scan source))
    (hparse : ∀ source, Request.Keeps I (Request.parse source))
    (hlibrary : ∀ source, Request.Keeps I (Request.library? source))
    (hresolve : ∀ unit root, Request.Keeps I (Request.resolve unit root)) (q : Query)
    {w : Workspace} (hw : I w) : I (q.run w) := by
  cases q with
  | scan source => exact hscan source w hw
  | parse source => exact hparse source w hw
  | library source => exact hlibrary source w hw
  | element location => exact Request.keeps_element? hlibrary location w hw
  | resolve unit root => exact hresolve unit root w hw
  | errors source => exact Request.keeps_errors hparse hresolve source w hw
  | reports source => exact Request.keeps_reports hparse hresolve source w hw

end DartAnalysis
