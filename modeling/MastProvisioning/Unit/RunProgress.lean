import MastProvisioning.Unit.ExecuteHistory

/-!
# The course of a run

`Tracks` is what holds while a run goes on: the provide command being executed is
the last one started, and the modules that have passed so far were last started by
this run. `entry_merged` says where an entry of the record that a run writes comes
from, `complete_run` what a run leaves whose commands all succeed.
-/

namespace MastProvisioning.Unit.History

open MastProvisioning.Semantics MastProvisioning.Collections MastProvisioning.PowerShell
open MastProvisioning.Build

variable {fold : Char → Char} {sha256 : String → String} {Content : Type}
  {state : State fold sha256 Content} {run : Run fold sha256 Content} {name : String}
  {command : Command} {rest : List Command}

/-- A run that is going on, as far as it will be recorded. -/
structure Tracks (state : State fold sha256 Content)
    (run : Run fold sha256 Content) : Prop where
  payload : RunsPayload run
  /-- The provide command that is being executed is the last one started. -/
  current : ∀ command, run.current = some command → isVerify fold command.module = false →
    ∃ rest, state.since = ⟨baseName fold command.module, run.payload, run.targets, false⟩ :: rest
  /-- A module whose provide commands all succeeded so far, none of them being
  executed, was last started by this run. -/
  passed : ∀ name, resultsOf fold run.results name false ≠ [] →
    (resultsOf fold run.results name false).all id = true →
    (∀ command, run.current = some command → isVerify fold command.module = false →
      owns fold name command = false) →
    ∃ provision, lastOf fold state.provisions name = some provision ∧
      provision.succeeded = true ∧ provision.payload = run.payload

/-- A run that has just been started. -/
theorem Tracks.begin (payload : StagedBuild fold sha256 Content) (targets : List String) :
    Tracks state ⟨payload, targets, runCommands payload targets, none, []⟩ where
  payload := ⟨fun _ => id, by simp, by simp⟩
  current := by simp
  passed _ ran := absurd rfl ran

/-- A command that is started leaves the results alone; a provide command becomes
the last one started. -/
theorem Tracks.started (tracks : Tracks state run) (idle : run.current = none)
    (remaining : run.remaining = command :: rest) :
    Tracks (started state run command rest)
      { run with remaining := rest, current := some command } where
  payload :=
    { remaining := fun other member =>
        tracks.payload.remaining other (remaining ▸ List.mem_cons_of_mem _ member)
      current := by
        rintro _ ⟨⟩
        exact tracks.payload.remaining _ (remaining ▸ List.mem_cons_self)
      results := tracks.payload.results }
  current := by
    rintro _ ⟨⟩ provides
    exact ⟨state.since, by simp [History.started, provides]⟩
  passed := by
    intro name ran all idleNow
    obtain ⟨provision, last, succeeded, payload⟩ :=
      tracks.passed name ran all fun other isCurrent => by simp [idle] at isCurrent
    refine ⟨provision, ?_, succeeded, payload⟩
    cases verify : isVerify fold command.module with
    | true =>
      rw [started_provisions_verify verify]
      exact last
    | false =>
      have other : psEq fold (baseName fold command.module) name = false :=
        idleNow command rfl verify
      rw [started_provisions verify, lastOf_cons, other]
      exact last

/-- A command that ended is the last word on the module it provides. -/
theorem Tracks.finished (tracks : Tracks state run) (isCurrent : run.current = some command)
    (exitCode : Option Int) (raises : Bool) :
    Tracks (finished state run command exitCode raises)
      { run with
        current := none, results := run.results ++ recordedResults command exitCode raises } where
  payload :=
    { remaining := tracks.payload.remaining
      current := by simp
      results := by
        intro result member
        rcases List.mem_append.mp member with earlier | new
        · exact tracks.payload.results result earlier
        · have same : result.1 = command := by
            cases raises <;> simp [recordedResults] at new
            · exact new ▸ rfl
            · rcases new with rfl | rfl <;> rfl
          exact same ▸ tracks.payload.current command isCurrent }
  current := by simp
  passed := by
    intro name ran all _
    simp only [resultsOf_append] at ran all
    by_cases own : owns fold name command = true ∧ isVerify fold command.module = false
    · obtain ⟨owned, provides⟩ := own
      obtain ⟨earlier, since⟩ := tracks.current command isCurrent provides
      have results : resultsOf fold (recordedResults command exitCode raises) name false = _ :=
        provides ▸ resultsOf_recordedResults owned
      rw [results] at all
      have succeeded : exitSucceeds exitCode = true := by simp_all
      have same : psEq fold (baseName fold command.module) name = true := owned
      refine ⟨⟨baseName fold command.module, run.payload, run.targets, true⟩, ?_, rfl, rfl⟩
      simp [History.finished, State.provisions, provides, succeeded, since, markSucceeded,
        lastOf_cons, same]
    · have other : owns fold name command = false ∨ isVerify fold command.module ≠ false := by
        by_cases owned : owns fold name command = true
        · exact .inr fun provides => own ⟨owned, provides⟩
        · exact .inl (by simpa using owned)
      rw [resultsOf_recordedResults_other other, List.append_nil] at ran all
      have notOwned : ∀ executed, run.current = some executed →
          isVerify fold executed.module = false → owns fold name executed = false := by
        intro executed isExecuted provides
        obtain rfl : executed = command := by simpa [isExecuted] using isCurrent
        exact other.resolve_right (fun verify => verify provides)
      obtain ⟨provision, last, succeeded, payload⟩ := tracks.passed name ran all notOwned
      by_cases marks : (!isVerify fold command.module && exitSucceeds exitCode) = true
      · obtain ⟨marked, lastMarked, samePayload, stays⟩ := lastOf_markSucceeded last
        refine ⟨marked, ?_, stays succeeded, samePayload.trans payload⟩
        simpa only [History.finished, State.provisions, if_pos marks] using lastMarked
      · refine ⟨provision, ?_, succeeded, payload⟩
        simpa only [History.finished, State.provisions, if_neg marks] using last

/-- Whether a run executes a command of a module. -/
def touches (run : Run fold sha256 Content) (name : String) : Bool :=
  (runCommands run.payload run.targets).any (owns fold name)

theorem runCommands_subset {payload : StagedBuild fold sha256 Content} {targets : List String}
    (member : command ∈ runCommands payload targets) : command ∈ payload.commands :=
  mem_of_filterCommands member

/-- Where an entry of the record a run writes comes from: it was carried forward,
or made of the results of the module's own commands. -/
theorem entry_merged {second : Int} {key : String} {recorded : Recorded}
    (payload : RunsPayload run)
    (found : OrderedDict.find? (foldText fold) (mergedMap state run second) name =
      some (key, recorded)) :
    (touches run name = false ∧ ∃ entries, moduleMap state.installed = some entries ∧
        (key, recorded) ∈ entries) ∨
      (touches run name = true ∧ ∃ verify, recorded = .entry (touchedEntry fold
        run.payload.manifest (.utc second) key
        ⟨kindOutcome (declares fold (runCommands run.payload run.targets) name false)
          (resultsOf fold run.results name false), verify⟩)) := by
  have labelled : ∀ command ∈ runCommands run.payload run.targets,
      isBlank command.module = false := fun command isRun =>
    run.payload.isBlank_label (runCommands_subset isRun)
  have collected : OrderedDict.get? (foldText fold)
      (outcomesAfter fold (runCommands run.payload run.targets) run.results) name = _ :=
    get?_outcomesAfter labelled payload.results name
  rw [mergedMap, find?_mergedModules (outcomesAfter_distinct _ _)] at found
  cases touched : OrderedDict.find? (foldText fold)
      (outcomesAfter fold (runCommands run.payload run.targets) run.results) name with
  | none =>
    -- the entry was carried forward from a manifest that could be read
    rw [touched] at found
    rw [OrderedDict.get?, touched] at collected
    have untouched : touches run name = false := by
      by_contra touches
      have any : (runCommands run.payload run.targets).any (owns fold name) = true := by
        simpa [History.touches] using touches
      rw [if_pos any] at collected
      cases collected
    have carried := (OrderedDict.mem_of_find? found).1
    have either : readPrevious fold state.installed = state.installed ∨
        readPrevious fold state.installed = none := readPrevious_eq state.installed
    rcases either with readable | unreadable
    · rw [readable] at carried
      unfold carriedForward at carried
      split at carried
      · rename_i entries isOld
        rcases OrderedDict.mem_setAll carried with old | none
        · exact .inl ⟨untouched, entries, isOld, List.mem_of_mem_filter old⟩
        · simp at none
      · simp at carried
    · rw [unreadable] at carried
      simp [carriedForward, moduleMap] at carried
  | some outcome =>
    -- the entry was made of this run's results
    rw [touched] at found
    have isEntry : (outcome.1, Recorded.entry (touchedEntry fold run.payload.manifest (.utc second)
        outcome.1 outcome.2)) = (key, recorded) := Option.some.inj found
    obtain ⟨rfl, rfl⟩ := Prod.mk.inj isEntry
    rw [OrderedDict.get?, touched] at collected
    split at collected
    · rename_i any
      obtain same : outcome.2 = _ := Option.some.inj collected
      exact .inr ⟨any, _, by rw [same]⟩
    · cases collected

section Complete

variable {initial : State fold sha256 Content → Prop}
  {admits : Option InstalledManifest → StagedBuild fold sha256 Content → List String → Prop}

/-- The steps of a run from its first command on, every command succeeding. -/
def commandLabels (commands : List Command) : List (Label fold sha256 Content) :=
  commands.flatMap fun _ => [.startCommand, .finishCommand (some 0) false]

/-- What such a run adds to the history. -/
def completed (payload : StagedBuild fold sha256 Content) (targets : List String)
    (commands : List Command) : List (Provision fold sha256 Content) :=
  ((commands.filter fun command => !isVerify fold command.module).map fun command =>
    ⟨baseName fold command.module, payload, targets, true⟩).reverse

theorem completed_cons (payload : StagedBuild fold sha256 Content) (targets : List String)
    (command : Command) (rest : List Command) :
    completed payload targets (command :: rest) =
      completed payload targets rest ++ completed payload targets [command] := by
  cases verify : isVerify fold command.module <;> simp [completed, verify]

theorem finished_started (state : State fold sha256 Content) (run : Run fold sha256 Content)
    (command : Command) (rest : List Command) :
    finished (started state run command rest) { run with remaining := rest, current := some command }
        command (some 0) false =
      { state with
        run := some { run with
          remaining := rest, current := none, results := run.results ++ [(command, true)] }
        since := completed run.payload run.targets [command] ++ state.since } := by
  cases verify : isVerify fold command.module <;>
    simp [finished, started, verify, completed, recordedResults, exitSucceeds, markSucceeded]

/-- A run whose commands all succeed reaches its end. -/
theorem complete_commands {commands : List Command} {state : State fold sha256 Content}
    {run : Run fold sha256 Content} (isRun : state.run = some run) (idle : run.current = none)
    (remaining : run.remaining = commands) :
    (system fold sha256 Content initial admits).Follows state (commandLabels commands) ∧
      (system fold sha256 Content initial admits).after state (commandLabels commands) =
        { state with
          run := some { run with
            remaining := [], results := run.results ++ commands.map fun command => (command, true) }
          since := completed run.payload run.targets commands ++ state.since } := by
  induction commands generalizing state run with
  | nil =>
    obtain ⟨installed, _, since, before⟩ := state
    obtain ⟨payload, targets, _, current, results⟩ := run
    obtain rfl : _ = some _ := isRun
    obtain rfl : _ = [] := remaining
    simp [commandLabels, System.Follows, System.after, completed]
  | cons command rest ih =>
    have begun : next state .startCommand = started state run command rest := by
      simp [next, isRun, remaining]
    have ended : next (started state run command rest) (.finishCommand (some 0) false) =
        finished (started state run command rest)
          { run with remaining := rest, current := some command } command (some 0) false := rfl
    have labels : (commandLabels (command :: rest) : List (Label fold sha256 Content)) =
        [.startCommand, .finishCommand (some 0) false] ++ commandLabels rest := rfl
    have here : (system fold sha256 Content initial admits).after state
        [.startCommand, .finishCommand (some 0) false] = _ :=
      (congrArg (next · _) begun).trans (ended.trans (finished_started state run command rest))
    let middle : State fold sha256 Content := { state with
      run := some { run with
        remaining := rest, current := none, results := run.results ++ [(command, true)] }
      since := completed run.payload run.targets [command] ++ state.since }
    have isMiddle : middle.run = some { run with
      remaining := rest, current := none, results := run.results ++ [(command, true)] } := rfl
    obtain ⟨follows, after⟩ := ih isMiddle rfl rfl
    rw [labels, System.follows_append, System.after_append, here]
    refine ⟨⟨⟨⟨run, command, rest, isRun, idle, remaining⟩, ?_, trivial⟩, follows⟩, ?_⟩
    · change Enabled admits (next state .startCommand) (.finishCommand (some 0) false)
      rw [begun]
      exact ⟨_, command, rfl, rfl⟩
    · rw [after, completed_cons]
      simp [middle, idle]

/-- The steps of a run whose commands all succeed, up to the writing of its record. -/
def wholeRun (payload : StagedBuild fold sha256 Content) (targets : List String) :
    List (Label fold sha256 Content) :=
  .start payload targets :: commandLabels (runCommands payload targets)

/-- Where such a run is then. -/
def wholeRunEnd (payload : StagedBuild fold sha256 Content) (targets : List String) :
    Run fold sha256 Content :=
  ⟨payload, targets, [], none, (runCommands payload targets).map fun command => (command, true)⟩

/-- The unit is then. -/
def afterWholeRun (state : State fold sha256 Content) (payload : StagedBuild fold sha256 Content)
    (targets : List String) : State fold sha256 Content where
  installed := state.installed
  run := some (wholeRunEnd payload targets)
  since := completed payload targets (runCommands payload targets) ++ state.since
  before := state.before

theorem whole_run {state : State fold sha256 Content} {payload : StagedBuild fold sha256 Content}
    {targets : List String} (idle : state.run = none)
    (admitted : admits state.installed payload targets) :
    (system fold sha256 Content initial admits).Follows state (wholeRun payload targets) ∧
      (system fold sha256 Content initial admits).after state (wholeRun payload targets) =
        afterWholeRun state payload targets := by
  have isBegun : (next state (.start payload targets)).run =
      some ⟨payload, targets, runCommands payload targets, none, []⟩ := rfl
  obtain ⟨follows, after⟩ : (system fold sha256 Content initial admits).Follows
        (next state (.start payload targets)) (commandLabels (runCommands payload targets)) ∧
      (system fold sha256 Content initial admits).after (next state (.start payload targets))
        (commandLabels (runCommands payload targets)) = afterWholeRun state payload targets :=
    complete_commands isBegun rfl rfl
  exact ⟨⟨⟨idle, admitted⟩, follows⟩, after⟩

/-- The steps of a run whose commands all succeed and whose record is written. -/
def completeRun (payload : StagedBuild fold sha256 Content) (targets : List String)
    (second : Int) : List (Label fold sha256 Content) :=
  wholeRun payload targets ++ [.write second true]

/-- What such a run leaves. -/
def afterCompleteRun (state : State fold sha256 Content)
    (payload : StagedBuild fold sha256 Content) (targets : List String) (second : Int) :
    State fold sha256 Content where
  installed := some (merged state (wholeRunEnd payload targets) second)
  run := none
  since := []
  before := completed payload targets (runCommands payload targets) ++ state.provisions

theorem complete_run {state : State fold sha256 Content}
    {payload : StagedBuild fold sha256 Content} {targets : List String} (idle : state.run = none)
    (admitted : admits state.installed payload targets) (second : Int) :
    (system fold sha256 Content initial admits).Follows state
        (completeRun payload targets second) ∧
      (system fold sha256 Content initial admits).after state
        (completeRun payload targets second) = afterCompleteRun state payload targets second := by
  obtain ⟨follows, after⟩ : (system fold sha256 Content initial admits).Follows state
        (wholeRun payload targets) ∧
      (system fold sha256 Content initial admits).after state (wholeRun payload targets) =
        afterWholeRun state payload targets := whole_run idle admitted
  rw [completeRun, System.follows_append, System.after_append, after]
  refine ⟨⟨follows, ⟨_, rfl, rfl, rfl⟩, trivial⟩, ?_⟩
  have wrote : next (afterWholeRun state payload targets) (.write second true) = _ :=
    next_write rfl second
  refine wrote.trans ?_
  simp [afterCompleteRun, afterWholeRun, State.provisions, merged]

/-- The steps of a run that is stopped in its first command. -/
def interruptedRun (payload : StagedBuild fold sha256 Content) (targets : List String) :
    List (Label fold sha256 Content) :=
  [.start payload targets, .startCommand, .stop]

theorem interrupted_run {state : State fold sha256 Content}
    {payload : StagedBuild fold sha256 Content} {targets : List String} {command : Command}
    {rest : List Command} (idle : state.run = none)
    (admitted : admits state.installed payload targets)
    (commands : runCommands payload targets = command :: rest)
    (provides : isVerify fold command.module = false) :
    (system fold sha256 Content initial admits).Follows state (interruptedRun payload targets) ∧
      (system fold sha256 Content initial admits).after state (interruptedRun payload targets) =
        { state with
          run := none
          since := ⟨baseName fold command.module, payload, targets, false⟩ :: state.since } := by
  constructor
  · refine ⟨⟨idle, admitted⟩, ⟨_, command, rest, rfl, rfl, commands⟩, ?_, trivial⟩
    simp [system, Enabled, next, commands, started]
  · simp [interruptedRun, System.after, system, next, commands, started, provides]

end Complete

end MastProvisioning.Unit.History
