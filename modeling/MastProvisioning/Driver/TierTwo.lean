import Mathlib
import MastProvisioning.Driver.Classification
import MastProvisioning.Semantics.System
import MastProvisioning.Unit.ExecuteHistory
import MastProvisioning.Unit.VerifyOnly

/-!
# Tier-2 evidence over the life of a unit

Execute runs and verify-only passes of one build on a unit, one command at a time. Each writes
its document at its end, with the time of that moment: execute merges what it touched into
`installed-manifest.json`, the pass replaces `validation.json`. The two share no lock.
`needsRepair_iff_knownFailure` says under which order of their steps the classification gives
what the checks last found.
-/

namespace MastProvisioning.Driver.TierTwo

open MastProvisioning.Semantics MastProvisioning.Collections MastProvisioning.PowerShell
open MastProvisioning.Build MastProvisioning.Unit

/-- What has happened to modules, for the account only. -/
inductive Event
  /-- A provide command ended. -/
  | provided (module : String)
  /-- A check of a pass ended; whether one of its pass on the module has failed so far. -/
  | checked (module : String) (failed : Bool)
deriving DecidableEq, Repr

def Event.module : Event → String
  | .provided module => module
  | .checked module _ => module

/-- An execute run that is going on. -/
structure Executing where
  targets : List String
  remaining : List Command
  results : List (Command × Bool)

/-- A verify-only pass that is going on. -/
structure Verifying where
  remaining : List Command
  runs : List (Command × CheckExit)

structure State where
  now : Int
  installed : Option InstalledManifest
  validation : Option Validation
  executing : Option Executing
  verifying : Option Verifying
  /-- Newest first. -/
  events : List Event

inductive Label
  | tick (seconds : Nat)
  | startExecute (targets : List String)
  /-- The next command of the execute run ends. -/
  | command (exitCode : Option Int) (raises : Bool)
  | writeManifest
  /-- The run is killed, or what it writes is lost. -/
  | stopExecute
  | startVerify (modules : String)
  /-- The next command of the pass ends. -/
  | check (exit : CheckExit)
  | writeReport
  | stopVerify

section System

variable {fold : Char → Char} (build : CompleteBuild fold)

/-- Whether a check of the pass has failed on a module. -/
def failedOn (fold : Char → Char) (runs : List (Command × CheckExit)) (name : String) : Bool :=
  decide (worst (verdictsOn fold runs name) = some .fail)

/-- The next command of an execute run has ended. -/
def commandEnded (fold : Char → Char) (state : State) (run : Executing) (command : Command)
    (rest : List Command) (exitCode : Option Int) (raises : Bool) : State :=
  { state with
    executing := some { run with
      remaining := rest
      results := run.results ++ History.recordedResults command exitCode raises }
    events := if isVerify fold command.module then state.events
      else .provided (baseName fold command.module) :: state.events }

/-- The next check of a pass has ended. -/
def checkEnded (fold : Char → Char) (state : State) (run : Verifying) (command : Command)
    (rest : List Command) (exit : CheckExit) : State :=
  let runs := run.runs ++ [(command, exit)]
  { state with
    verifying := some ⟨rest, runs⟩
    events := .checked (baseName fold command.module)
      (failedOn fold runs (baseName fold command.module)) :: state.events }

/-- The manifest an execute run writes. -/
def written (state : State) (run : Executing) : InstalledManifest :=
  mergeInstalledManifest fold (readPrevious fold state.installed) build.manifest
    (outcomesAfter fold (targetCommands build run.targets) run.results) (.utc state.now)

def next (state : State) : Label → State
  | .tick seconds => { state with now := state.now + seconds }
  | .startExecute targets =>
    { state with executing := some ⟨targets, targetCommands build targets, []⟩ }
  | .command exitCode raises =>
    match state.executing with
    | some run =>
      match run.remaining with
      | command :: rest => commandEnded fold state run command rest exitCode raises
      | [] => state
    | none => state
  | .writeManifest =>
    match state.executing with
    | some run => { state with installed := some (written build state run), executing := none }
    | none => state
  | .stopExecute => { state with executing := none }
  | .startVerify modules =>
    match verifyCommands fold modules build.commands with
    | .ok commands => { state with verifying := some ⟨commands, []⟩ }
    | .error _ => state
  | .check exit =>
    match state.verifying with
    | some run =>
      match run.remaining with
      | command :: rest => checkEnded fold state run command rest exit
      | [] => state
    | none => state
  | .writeReport =>
    match state.verifying with
    | some run =>
      { state with validation := some (verifyReport fold run.runs state.now), verifying := none }
    | none => state
  | .stopVerify => { state with verifying := none }

def Enabled (state : State) : Label → Prop
  | .tick _ => True
  | .startExecute targets =>
    state.executing = none ∧ ∀ name ∈ targets, name ∈ build.manifest.modules
  | .command _ _ => ∃ run command rest, state.executing = some run ∧ run.remaining = command :: rest
  | .writeManifest => ∃ run, state.executing = some run ∧ run.remaining = []
  | .stopExecute => state.executing ≠ none
  | .startVerify _ => state.verifying = none
  | .check _ => ∃ run command rest, state.verifying = some run ∧ run.remaining = command :: rest
  | .writeReport => ∃ run, state.verifying = some run ∧ run.remaining = []
  | .stopVerify => state.verifying ≠ none

/-- A unit that no pass was made on, without a stamp in the future. -/
def Initial (state : State) : Prop :=
  state.validation = none ∧ state.executing = none ∧ state.verifying = none ∧ state.events = [] ∧
    ∀ name ∈ build.manifest.modules, ∀ second,
      installedAt state.installed name = some (.utc second) → second ≤ state.now

/-- The life of a unit that gets one build. -/
def system : System State Label where
  Initial := Initial build
  Enabled := Enabled build
  next := next build

end System

/-- The last thing that happened to a module. -/
def lastOf (events : List Event) (name : String) : Option Event :=
  events.find? fun event => event.module = name

/-- The last check of a module found a failure, and no provide command of it has ended since. -/
def KnownFailure (events : List Event) (name : String) : Prop :=
  lastOf events name = some (.checked name true)

/-- Runs and passes do not overlap, a pass checks everything, each writes its document, and a
manifest is not written in the second of the last report. -/
def Orderly (state : State) : Label → Prop
  | .startExecute _ => state.verifying = none
  | .startVerify modules => state.executing = none ∧ isBlank modules = true
  | .writeManifest => ∀ report checked, state.validation = some report →
      report.checkedAt = some (.utc checked) → checked < state.now
  | .stopExecute | .stopVerify => False
  | _ => True

/-- Nothing is going on. -/
def Idle (state : State) : Prop := state.executing = none ∧ state.verifying = none

section Invariant

variable {fold : Char → Char} (build : CompleteBuild fold)

/-- Where there is an entry for a module, the report tells of a failure when one is known. -/
def Lawful (state : State) (name : String) : Prop :=
  ∀ entry, recordOf state.installed name = some (.entry entry) →
    (LiveFailure state.installed state.validation name ↔ KnownFailure state.events name)

/-- An execute run that is going on: what it does not touch is lawful, what it touches is
provided before it writes. -/
structure ExecuteSound (state : State) (run : Executing) : Prop where
  targets : ∀ name ∈ run.targets, name ∈ build.manifest.modules
  remaining : ∀ command ∈ run.remaining, command ∈ targetCommands build run.targets
  results : ∀ result ∈ run.results, result.1 ∈ targetCommands build run.targets
  untouched : ∀ name ∈ build.manifest.modules, ¬ Touched run.targets name → Lawful state name
  touched : ∀ name ∈ build.manifest.modules, Touched run.targets name →
    (∃ command ∈ run.remaining, baseName fold command.module = name ∧
      isVerify fold command.module = false) ∨ lastOf state.events name = some (.provided name)

/-- A pass that is going on: a module is still to be checked, or its last event is the verdict
of the pass, or there is nothing to check of it. -/
structure VerifySound (state : State) (run : Verifying) : Prop where
  remaining : ∀ command ∈ run.remaining, command ∈ build.commands ∧
    isVerify fold command.module = true
  runs : ∀ result ∈ run.runs, result.1 ∈ build.commands
  modules : ∀ name ∈ build.manifest.modules,
    (∃ command ∈ run.remaining, baseName fold command.module = name) ∨
      lastOf state.events name = some (.checked name (failedOn fold run.runs name)) ∨
      ((∀ result ∈ run.runs, baseName fold result.1.module ≠ name) ∧
        ∀ command ∈ build.commands, isVerify fold command.module = true →
          baseName fold command.module ≠ name)

/-- What orderly steps keep. -/
structure Sound (state : State) : Prop where
  alone : state.executing = none ∨ state.verifying = none
  stamped : ∀ name ∈ build.manifest.modules, ∀ second,
    installedAt state.installed name = some (.utc second) → second ≤ state.now
  reported : ∀ report, state.validation = some report →
    ∃ checked, report.checkedAt = some (.utc checked)
  checks : ∀ name ∈ build.manifest.modules, KnownFailure state.events name →
    ∃ command ∈ build.commands, isVerify fold command.module = true ∧
      baseName fold command.module = name
  idle : Idle state → ∀ name ∈ build.manifest.modules, Lawful state name
  executing : ∀ run, state.executing = some run → ExecuteSound build state run
  verifying : ∀ run, state.verifying = some run → VerifySound build state run

end Invariant

section Events

variable {events : List Event} {name : String}

theorem lastOf_cons (event : Event) :
    lastOf (event :: events) name = if event.module = name then some event else lastOf events name := by
  unfold lastOf
  rw [List.find?_cons]
  by_cases same : event.module = name <;> simp [same]

theorem lastOf_cons_other {event : Event} (other : event.module ≠ name) :
    lastOf (event :: events) name = lastOf events name := by
  rw [lastOf_cons, if_neg other]

theorem knownFailure_other {event : Event} (other : event.module ≠ name) :
    KnownFailure (event :: events) name ↔ KnownFailure events name := by
  rw [KnownFailure, KnownFailure, lastOf_cons_other other]

end Events

section Record

variable {fold : Char → Char} {build : CompleteBuild fold} {state : State} {run : Executing}
  {name : String}

theorem recordedModules_written : recordedModules (some (written build state run)) =
    pythonDict (mergedModules fold (readPrevious fold state.installed) build.manifest
      (outcomesAfter fold (targetCommands build run.targets) run.results) (.utc state.now)) := rfl

/-- What a run touches has an entry of the moment the manifest is written. -/
theorem recordOf_written_touched (sound : ExecuteSound build state run)
    (isModule : name ∈ build.manifest.modules) (touched : Touched run.targets name) :
    ∃ entry, recordOf (some (written build state run)) name = some (.entry entry) ∧
      entry.installedAt = some (.utc state.now) := by
  have outcome := find?_outcomes_touched sound.targets sound.results isModule touched
  have merged := @find?_mergedModules fold (readPrevious fold state.installed) build.manifest _
    (.utc state.now) (outcomesAfter_distinct (targetCommands build run.targets) run.results) name
  rw [outcome, Option.map_some, Option.some_or] at merged
  have found := get?_pythonDict mergedModules_distinct merged
  exact ⟨_, found, rfl⟩

/-- What a run does not touch has the entry that it had. -/
theorem recordOf_of_written_untouched (sound : ExecuteSound build state run)
    (isModule : name ∈ build.manifest.modules) (untouched : ¬ Touched run.targets name)
    {recorded : Recorded} (found : recordOf (some (written build state run)) name = some recorded) :
    recordOf state.installed name = some recorded := by
  rw [recordOf, recordedModules_written] at found
  have merged := find?_of_get?_pythonDict mergedModules_distinct found
  rw [find?_mergedModules (outcomesAfter_distinct _ _),
    find?_outcomes_untouched sound.targets sound.results isModule untouched, Option.map_none,
    Option.none_or] at merged
  rcases @readPrevious_eq fold state.installed with readable | unreadable
  · rw [readable] at merged
    cases isMap : moduleMap state.installed with
    | none =>
      rw [carriedForward, isMap] at merged
      cases merged
    | some entries =>
      have distinct := distinct_of_readable readable isMap
      rw [find?_carriedForward isMap distinct, Option.filter_eq_some_iff] at merged
      rw [recordOf, recordedModules, isMap]
      exact get?_pythonDict distinct merged.1
  · rw [unreadable] at merged
    cases merged

theorem installedAt_of_recordOf {installed : Option InstalledManifest} {entry : ModuleEntry}
    (isRecord : recordOf installed name = some (.entry entry)) :
    installedAt installed name = entry.installedAt := by
  rw [installedAt, isRecord]

/-- An installation after the report leaves no failure standing. -/
theorem not_liveFailure {installed : Option InstalledManifest} {validation : Option Validation}
    {second : Int} (isInstalled : installedAt installed name = some (.utc second))
    (reported : ∀ report, validation = some report →
      ∃ checked, report.checkedAt = some (.utc checked) ∧ checked < second) :
    ¬ LiveFailure installed validation name := by
  rintro ⟨report, verdict, isReport, -, -, fresh⟩
  obtain ⟨checked, isChecked, earlier⟩ := reported report isReport
  have later := fresh checked second isChecked isInstalled
  omega

/-- A failure is judged by the report and the stamp of the entry alone. -/
theorem liveFailure_congr {installed other : Option InstalledManifest}
    {validation : Option Validation} (same : installedAt installed name = installedAt other name) :
    LiveFailure installed validation name ↔ LiveFailure other validation name := by
  unfold LiveFailure
  rw [same]

end Record

section Report

variable {fold : Char → Char} {build : CompleteBuild fold} {runs : List (Command × CheckExit)}
  {name : String}

theorem verifyTally_distinct :
    OrderedDict.Distinct (foldText fold) (verifyTally fold runs).results := by
  induction runs using List.reverseRecOn with
  | nil => exact OrderedDict.distinct_nil
  | append_singleton runs run hypothesis =>
    obtain ⟨command, exit⟩ := run
    rw [verifyTally_snoc]
    unfold VerifyTally.record
    cases exit.verdict with
    | pass =>
      simp only []
      split
      · exact hypothesis
      · exact hypothesis.upsert _ _ _
    | unverifiable =>
      simp only []
      split
      · exact hypothesis
      · exact hypothesis.upsert _ _ _
    | fail => exact hypothesis.upsert _ _ _

theorem key_of_setResult {results : List (String × String)} {module verdict : String}
    {entry : String × String} (member : entry ∈ setResult fold results module verdict) :
    entry.1 = module ∨ ∃ old ∈ results, old.1 = entry.1 := by
  unfold setResult at member
  induction results with
  | nil => exact .inl (by rw [List.mem_singleton.mp member])
  | cons head rest hypothesis =>
    unfold OrderedDict.upsert at member
    split at member
    · rcases List.mem_cons.mp member with rfl | later
      · exact .inr ⟨head, List.mem_cons_self, rfl⟩
      · exact .inr ⟨entry, List.mem_cons_of_mem _ later, rfl⟩
    · rcases List.mem_cons.mp member with rfl | later
      · exact .inr ⟨entry, List.mem_cons_self, rfl⟩
      · rcases hypothesis later with here | ⟨old, isOld, same⟩
        · exact .inl here
        · exact .inr ⟨old, List.mem_cons_of_mem _ isOld, same⟩

/-- The report spells a module as the commands do. -/
theorem key_of_verifyTally {entry : String × String}
    (member : entry ∈ (verifyTally fold runs).results) :
    ∃ run ∈ runs, baseName fold run.1.module = entry.1 := by
  induction runs using List.reverseRecOn generalizing entry with
  | nil => cases member
  | append_singleton runs run hypothesis =>
    obtain ⟨command, exit⟩ := run
    have earlier {old : String × String} (isOld : old ∈ (verifyTally fold runs).results) :
        ∃ run ∈ runs ++ [(command, exit)], baseName fold run.1.module = old.1 := by
      obtain ⟨run, isRun, same⟩ := hypothesis isOld
      exact ⟨run, List.mem_append_left _ isRun, same⟩
    have set {verdict : String}
        (isSet : entry ∈ setResult fold (verifyTally fold runs).results
          (baseName fold command.module) verdict) :
        ∃ run ∈ runs ++ [(command, exit)], baseName fold run.1.module = entry.1 := by
      rcases key_of_setResult isSet with here | ⟨old, isOld, same⟩
      · exact ⟨(command, exit), by simp, here.symm⟩
      · rw [← same]
        exact earlier isOld
    rw [verifyTally_snoc] at member
    unfold VerifyTally.record at member
    cases isVerdict : exit.verdict with
    | pass =>
      simp only [isVerdict] at member
      split at member
      · exact earlier member
      · exact set member
    | unverifiable =>
      simp only [isVerdict] at member
      split at member
      · exact earlier member
      · exact set member
    | fail =>
      simp only [isVerdict] at member
      exact set member

/-- Python finds in the report what PowerShell wrote there. -/
theorem get?_report (isModule : name ∈ build.manifest.modules)
    (ran : ∀ run ∈ runs, run.1 ∈ build.commands) :
    OrderedDict.get? id (verifyTally fold runs).results name =
      (worst (verdictsOn fold runs name)).map CheckVerdict.text := by
  rw [← get?_results, OrderedDict.get?, OrderedDict.get?]
  cases found : OrderedDict.find? (foldText fold) (verifyTally fold runs).results name with
  | some entry =>
    obtain ⟨member, same⟩ := OrderedDict.mem_of_find? found
    obtain ⟨run, isRun, isKey⟩ := key_of_verifyTally member
    have isBase : baseName fold run.1.module ∈ build.manifest.modules :=
      build.baseName_mem (ran run isRun)
    have spelled : entry.1 = name :=
      build.distinct entry.1 (isKey ▸ isBase) name isModule same
    have exact : (name, entry.2) = entry := by rw [← spelled]
    rw [← exact] at found
    rw [OrderedDict.find?_exact verifyTally_distinct found, ← exact]
  | none =>
    rw [OrderedDict.find?_eq_none.mpr]
    intro entry member same
    have other := OrderedDict.find?_eq_none.mp found entry member
    rw [id_eq, id_eq] at same
    exact other (by rw [same])

/-- The report tells of a failure of a module when a check of the pass failed, unless the module
was installed later. -/
theorem liveFailure_report {installed : Option InstalledManifest} {now : Int}
    (isModule : name ∈ build.manifest.modules) (ran : ∀ run ∈ runs, run.1 ∈ build.commands)
    (stamped : ∀ second, installedAt installed name = some (.utc second) → second ≤ now) :
    LiveFailure installed (some (verifyReport fold runs now)) name ↔
      failedOn fold runs name = true := by
  have isFail (verdict : CheckVerdict) :
      foldCase verdict.text = "fail" ↔ verdict = .fail := by
    cases verdict <;> decide
  unfold LiveFailure failedOn
  rw [decide_eq_true_eq]
  constructor
  · rintro ⟨report, verdict, isReport, found, failed, -⟩
    cases isReport
    rw [verifyReport, get?_report isModule ran, Option.map_eq_some_iff] at found
    obtain ⟨worstOf, isWorst, rfl⟩ := found
    rw [isWorst, (isFail worstOf).mp failed]
  · intro failed
    refine ⟨_, CheckVerdict.fail.text, rfl, ?_, (isFail .fail).mpr rfl, ?_⟩
    · rw [verifyReport, get?_report isModule ran, failed]
      rfl
    · intro checked second isChecked isInstalled
      cases isChecked
      exact stamped second isInstalled

end Report

section Steps

variable {fold : Char → Char} {build : CompleteBuild fold} {state : State} {name : String}

/-- A step that leaves the documents and the events alone. -/
theorem Lawful.frame {other : State} (lawful : Lawful state name)
    (installed : other.installed = state.installed)
    (validation : other.validation = state.validation) (events : other.events = state.events) :
    Lawful other name := by
  unfold Lawful
  rw [installed, validation, events]
  exact lawful

/-- What happens to another module does not concern a module. -/
theorem Lawful.other {other : State} {event : Event} (lawful : Lawful state name)
    (installed : other.installed = state.installed)
    (validation : other.validation = state.validation)
    (events : other.events = event :: state.events) (apart : event.module ≠ name) :
    Lawful other name := by
  unfold Lawful
  rw [installed, validation, events]
  intro entry isRecord
  rw [knownFailure_other apart]
  exact lawful entry isRecord

theorem sound_initial (initial : Initial build state) : Sound build state := by
  obtain ⟨noReport, notExecuting, notVerifying, noEvents, stamped⟩ := initial
  refine ⟨.inl notExecuting, stamped, ?_, ?_, ?_, ?_, ?_⟩
  · simp [noReport]
  · simp [noEvents, KnownFailure, lastOf]
  · intro _ name _ entry _
    rw [noReport, noEvents]
    refine iff_of_false ?_ (by simp [KnownFailure, lastOf])
    rintro ⟨report, verdict, isReport, -⟩
    cases isReport
  · simp [notExecuting]
  · simp [notVerifying]

theorem sound_tick (sound : Sound build state) (seconds : Nat) :
    Sound build (next build state (.tick seconds)) where
  alone := sound.alone
  stamped name isModule second isInstalled := by
    have before := sound.stamped name isModule second isInstalled
    change second ≤ state.now + seconds
    omega
  reported := sound.reported
  checks := sound.checks
  idle idle name isModule := (sound.idle idle name isModule).frame rfl rfl rfl
  executing run isRun := by
    obtain ⟨targets, remaining, results, untouched, touched⟩ := sound.executing run isRun
    exact ⟨targets, remaining, results, fun name isModule apart =>
      (untouched name isModule apart).frame rfl rfl rfl, touched⟩
  verifying run isRun := by
    obtain ⟨remaining, runs, modules⟩ := sound.verifying run isRun
    exact ⟨remaining, runs, modules⟩

/-- A run that is started will provide what it touches. -/
theorem sound_startExecute (sound : Sound build state) {targets : List String}
    (free : state.executing = none) (subset : ∀ name ∈ targets, name ∈ build.manifest.modules)
    (orderly : state.verifying = none) :
    Sound build (next build state (.startExecute targets)) where
  alone := .inr orderly
  stamped := sound.stamped
  reported := sound.reported
  checks := sound.checks
  idle idle := by cases idle.1
  executing run isRun := by
    cases isRun
    refine ⟨subset, fun _ member => member, by simp, ?_, ?_⟩
    · intro name isModule _
      exact (sound.idle ⟨free, orderly⟩ name isModule).frame rfl rfl rfl
    · intro name isModule touched
      obtain ⟨command, member, isBase, provides⟩ := build.provide_command isModule
      refine .inl ⟨command, (mem_targetCommands subset).mpr ⟨member, ?_⟩, isBase, provides⟩
      rwa [isBase]
  verifying run isRun := by
    rw [next, orderly] at isRun
    cases isRun

theorem sound_command (sound : Sound build state) {run : Executing} {command : Command}
    {rest : List Command} (isRun : state.executing = some run)
    (remaining : run.remaining = command :: rest) (exitCode : Option Int) (raises : Bool) :
    Sound build (commandEnded fold state run command rest exitCode raises) := by
  have running := sound.executing run isRun
  have notVerifying : state.verifying = none := sound.alone.resolve_left (by simp [isRun])
  have isTarget : command ∈ targetCommands build run.targets :=
    running.remaining command (by simp [remaining])
  have isTouched : Touched run.targets (baseName fold command.module) :=
    ((mem_targetCommands running.targets).mp isTarget).2
  refine ⟨.inr notVerifying, sound.stamped, sound.reported, ?_, fun idle => (by cases idle.1), ?_, ?_⟩
  · intro name isModule known
    apply sound.checks name isModule
    cases verifies : isVerify fold command.module with
    | true => simpa [commandEnded, verifies] using known
    | false =>
      simp only [commandEnded, verifies, Bool.false_eq_true, if_false, KnownFailure, lastOf_cons]
        at known
      split at known
      · cases known
      · exact known
  · rintro _ ⟨rfl⟩
    refine ⟨running.targets, ?_, ?_, ?_, ?_⟩
    · intro other member
      exact running.remaining other (by simp [remaining, member])
    · intro result member
      rcases List.mem_append.mp member with earlier | now
      · exact running.results result earlier
      · rcases List.mem_cons.mp now with rfl | again
        · exact isTarget
        · split at again
          · rw [List.mem_singleton.mp again]
            exact isTarget
          · cases again
    · intro name isModule untouched
      have lawful := running.untouched name isModule untouched
      have apart : baseName fold command.module ≠ name := by
        rintro rfl
        exact untouched isTouched
      cases verifies : isVerify fold command.module with
      | true => exact lawful.frame rfl rfl (by simp [commandEnded, verifies])
      | false =>
        have events : (commandEnded fold state run command rest exitCode raises).events =
            .provided (baseName fold command.module) :: state.events := by
          simp [commandEnded, verifies]
        exact lawful.other rfl rfl events apart
    · intro name isModule touched
      rcases running.touched name isModule touched with ⟨other, member, isBase, provides⟩ | last
      · rw [remaining] at member
        rcases List.mem_cons.mp member with rfl | later
        · refine .inr ?_
          simp [commandEnded, provides, lastOf_cons, Event.module, isBase]
        · exact .inl ⟨other, later, isBase, provides⟩
      · refine .inr ?_
        cases verifies : isVerify fold command.module with
        | true => simpa [commandEnded, verifies] using last
        | false =>
          simp only [commandEnded, verifies, Bool.false_eq_true, if_false, lastOf_cons]
          split
          · rename_i same
            exact congrArg some (congrArg Event.provided same)
          · exact last
  · intro verifying isVerifying
    change state.verifying = some verifying at isVerifying
    rw [notVerifying] at isVerifying
    cases isVerifying

/-- The manifest clears what the run provided and leaves the rest. -/
theorem sound_writeManifest (sound : Sound build state) {run : Executing}
    (isRun : state.executing = some run) (ended : run.remaining = [])
    (orderly : Orderly state .writeManifest) :
    Sound build { state with installed := some (written build state run), executing := none } := by
  have running := sound.executing run isRun
  have notVerifying : state.verifying = none := sound.alone.resolve_left (by simp [isRun])
  refine ⟨.inl rfl, ?_, sound.reported, sound.checks, ?_, by simp, ?_⟩
  · intro name isModule second isInstalled
    by_cases touched : Touched run.targets name
    · obtain ⟨entry, isRecord, stamp⟩ := recordOf_written_touched running isModule touched
      have stamped := installedAt_of_recordOf isRecord
      rw [stamp] at stamped
      cases stamped.symm.trans isInstalled
      exact le_refl _
    · unfold installedAt at isInstalled
      split at isInstalled
      · rename_i entry isRecord
        have before := recordOf_of_written_untouched running isModule touched isRecord
        apply sound.stamped name isModule second
        rw [installedAt_of_recordOf before]
        exact isInstalled
      · cases isInstalled
  · intro _ name isModule entry isRecord
    by_cases touched : Touched run.targets name
    · obtain ⟨stampedEntry, found, stamp⟩ := recordOf_written_touched running isModule touched
      have isInstalled := installedAt_of_recordOf found
      rw [stamp] at isInstalled
      refine iff_of_false (not_liveFailure isInstalled fun report isReport => ?_) ?_
      · obtain ⟨checked, isChecked⟩ := sound.reported report isReport
        exact ⟨checked, isChecked, orderly report checked isReport isChecked⟩
      · rcases running.touched name isModule touched with ⟨command, member, -⟩ | last
        · rw [ended] at member
          cases member
        · intro known
          change lastOf state.events name = _ at known
          rw [last] at known
          cases known
    · have before := recordOf_of_written_untouched running isModule touched isRecord
      have same : installedAt (some (written build state run)) name =
          installedAt state.installed name := by
        rw [installedAt_of_recordOf isRecord, installedAt_of_recordOf before]
      rw [liveFailure_congr same]
      exact running.untouched name isModule touched entry before
  · intro verifying isVerifying
    change state.verifying = some verifying at isVerifying
    rw [notVerifying] at isVerifying
    cases isVerifying

theorem mem_verifyCommands {modules : String} {commands : List Command}
    (blank : isBlank modules = true)
    (isPass : verifyCommands fold modules build.commands = .ok commands) {command : Command} :
    command ∈ commands ↔ command ∈ build.commands ∧ isVerify fold command.module = true := by
  unfold verifyCommands at isPass
  simp only [filterCommands, blank, if_true] at isPass
  split at isPass
  · cases isPass
  · cases isPass
    rw [List.mem_mergeSort, List.mem_filter]

/-- A pass that is started will check everything there is to check. -/
theorem sound_startVerify (sound : Sound build state) {modules : String}
    (orderly : Orderly state (.startVerify modules)) :
    Sound build (next build state (.startVerify modules)) := by
  obtain ⟨notExecuting, blank⟩ := orderly
  cases isPass : verifyCommands fold modules build.commands with
  | error message =>
    have same : next build state (.startVerify modules) = state := by simp only [next, isPass]
    rw [same]
    exact sound
  | ok commands =>
    have starts : next build state (.startVerify modules) =
        { state with verifying := some ⟨commands, []⟩ } := by simp only [next, isPass]
    rw [starts]
    have listed (command : Command) : command ∈ commands ↔
        command ∈ build.commands ∧ isVerify fold command.module = true :=
      mem_verifyCommands blank isPass
    refine ⟨.inl notExecuting, sound.stamped, sound.reported, sound.checks,
      fun idle => (by cases idle.2), ?_, ?_⟩
    · intro run isRun
      change state.executing = some run at isRun
      rw [notExecuting] at isRun
      cases isRun
    · rintro _ ⟨rfl⟩
      refine ⟨fun command member => (listed command).mp member, by simp, ?_⟩
      intro name isModule
      by_cases checked : ∃ command ∈ build.commands, isVerify fold command.module = true ∧
          baseName fold command.module = name
      · obtain ⟨command, member, verifies, isBase⟩ := checked
        exact .inl ⟨command, (listed command).mpr ⟨member, verifies⟩, isBase⟩
      · refine .inr (.inr ⟨by simp, fun command member verifies isBase => ?_⟩)
        exact checked ⟨command, member, verifies, isBase⟩

/-- A check of another module leaves what the pass found on a module. -/
theorem failedOn_other {runs : List (Command × CheckExit)} {command : Command} {exit : CheckExit}
    (other : owns fold name command = false) :
    failedOn fold (runs ++ [(command, exit)]) name = failedOn fold runs name := by
  rw [failedOn, failedOn, verdictsOn_snoc, other]
  simp

theorem sound_check (sound : Sound build state) {run : Verifying} {command : Command}
    {rest : List Command} (isRun : state.verifying = some run)
    (remaining : run.remaining = command :: rest) (exit : CheckExit) :
    Sound build (checkEnded fold state run command rest exit) := by
  have pass := sound.verifying run isRun
  have notExecuting : state.executing = none := sound.alone.resolve_right (by simp [isRun])
  obtain ⟨isCommand, verifies⟩ := pass.remaining command (by simp [remaining])
  refine ⟨.inl notExecuting, sound.stamped, sound.reported, ?_, fun idle => (by cases idle.2),
    ?_, ?_⟩
  · intro name isModule known
    by_cases isBase : baseName fold command.module = name
    · exact ⟨command, isCommand, verifies, isBase⟩
    · have sameLast : lastOf (checkEnded fold state run command rest exit).events name =
          lastOf state.events name := lastOf_cons_other isBase
      apply sound.checks name isModule
      rwa [KnownFailure, sameLast] at known
  · intro executing isExecuting
    change state.executing = some executing at isExecuting
    rw [notExecuting] at isExecuting
    cases isExecuting
  · rintro _ ⟨rfl⟩
    refine ⟨fun other member => pass.remaining other (by simp [remaining, member]), ?_, ?_⟩
    · intro result member
      rcases List.mem_append.mp member with earlier | now
      · exact pass.runs result earlier
      · rwa [List.mem_singleton.mp now]
    · intro name isModule
      by_cases isBase : baseName fold command.module = name
      · refine .inr (.inl ?_)
        simp [checkEnded, lastOf_cons, Event.module, isBase]
      · have notOwned : owns fold name command = false := by
          rw [Bool.eq_false_iff, ne_eq, owns_iff_baseName isCommand isModule]
          exact isBase
        have sameLast : lastOf (checkEnded fold state run command rest exit).events name =
            lastOf state.events name := lastOf_cons_other isBase
        rw [sameLast, failedOn_other notOwned]
        rcases pass.modules name isModule with ⟨other, member, own⟩ | last | ⟨unchecked, none⟩
        · rw [remaining] at member
          rcases List.mem_cons.mp member with rfl | later
          · exact absurd own isBase
          · exact .inl ⟨other, later, own⟩
        · exact .inr (.inl last)
        · refine .inr (.inr ⟨?_, none⟩)
          intro result member
          rcases List.mem_append.mp member with earlier | now
          · exact unchecked result earlier
          · rwa [List.mem_singleton.mp now]

/-- The report tells of the failures the pass found, and no others are known. -/
theorem sound_writeReport (sound : Sound build state) {run : Verifying}
    (isRun : state.verifying = some run) (ended : run.remaining = []) :
    Sound build { state with
      validation := some (verifyReport fold run.runs state.now), verifying := none } := by
  have pass := sound.verifying run isRun
  have notExecuting : state.executing = none := sound.alone.resolve_right (by simp [isRun])
  refine ⟨.inr rfl, sound.stamped, ?_, sound.checks, ?_, ?_, by simp⟩
  · rintro _ ⟨rfl⟩
    exact ⟨state.now, rfl⟩
  · intro _ name isModule entry _
    rw [liveFailure_report isModule pass.runs (sound.stamped name isModule)]
    rcases pass.modules name isModule with ⟨other, member, -⟩ | last | ⟨unchecked, none⟩
    · rw [ended] at member
      cases member
    · change _ ↔ lastOf state.events name = _
      rw [last]
      simp
    · refine iff_of_false ?_ fun known => ?_
      · have nothing : verdictsOn fold run.runs name = [] := by
          rw [verdictsOn, List.map_eq_nil_iff, List.filter_eq_nil_iff]
          intro result member own
          exact unchecked result member ((owns_iff_baseName (pass.runs result member) isModule).mp own)
        rw [failedOn, nothing]
        decide
      · obtain ⟨command, member, verifies, isBase⟩ := sound.checks name isModule known
        exact none command member verifies isBase
  · intro executing isExecuting
    change state.executing = some executing at isExecuting
    rw [notExecuting] at isExecuting
    cases isExecuting

/-- Every orderly step keeps the invariant. -/
theorem sound_next {label : Label} (sound : Sound build state) (orderly : Orderly state label)
    (enabled : Enabled build state label) : Sound build (next build state label) := by
  cases label with
  | tick seconds => exact sound_tick sound seconds
  | startExecute targets => exact sound_startExecute sound enabled.1 enabled.2 orderly
  | command exitCode raises =>
    obtain ⟨run, command, rest, isRun, remaining⟩ := enabled
    simp only [next, isRun, remaining]
    exact sound_command sound isRun remaining exitCode raises
  | writeManifest =>
    obtain ⟨run, isRun, ended⟩ := enabled
    simp only [next, isRun]
    exact sound_writeManifest sound isRun ended orderly
  | stopExecute => exact absurd orderly id
  | startVerify modules => exact sound_startVerify sound orderly
  | check exit =>
    obtain ⟨run, command, rest, isRun, remaining⟩ := enabled
    simp only [next, isRun, remaining]
    exact sound_check sound isRun remaining exit
  | writeReport =>
    obtain ⟨run, isRun, ended⟩ := enabled
    simp only [next, isRun]
    exact sound_writeReport sound isRun ended
  | stopVerify => exact absurd orderly id

end Steps

section Runs

variable {fold : Char → Char} {build : CompleteBuild fold} {start state : State}
  {trace : List (System.Taken State Label)} {name : String}

/-- Where runs and passes do not overlap, passes check everything and documents are written, the
classification of a module that is recorded clean is what was last found: it needs repair exactly
when the last check of it failed and no provide command of it has ended since. -/
theorem needsRepair_iff_knownFailure (run : (system build).Run start trace state)
    (orderly : ∀ taken ∈ trace, Orderly taken.1 taken.2) (idle : Idle state)
    (isModule : name ∈ build.manifest.modules)
    (clean : RecordedClean state.installed build.manifest name) :
    (moduleDrift (recordedModules state.installed) build.manifest state.validation name).state =
      .needsRepair ↔ KnownFailure state.events name := by
  have initially : ∀ state, (system build).Initial state → Sound build state :=
    fun _ => sound_initial
  have preserved : ∀ state label, Sound build state → Orderly state label →
      (system build).Enabled state label → Sound build ((system build).next state label) :=
    fun _ _ holds guarded enabled => sound_next holds guarded enabled
  have sound := System.Run.invariant initially preserved run orderly
  rw [moduleDrift_state]
  change RecordedClean state.installed build.manifest name ∧ _ ↔ _
  rw [and_iff_right clean]
  obtain ⟨entry, isRecord, -⟩ := clean
  exact sound.idle idle name isModule entry isRecord

/-- A pass that did not check a module leaves no failure of it standing, whatever is known. -/
theorem unchecked_forgotten {run : Verifying} (isRun : state.verifying = some run)
    (isModule : name ∈ build.manifest.modules) (ran : ∀ result ∈ run.runs, result.1 ∈ build.commands)
    (unchecked : ∀ result ∈ run.runs, baseName fold result.1.module ≠ name) :
    (moduleDrift (recordedModules (next build state .writeReport).installed) build.manifest
      (next build state .writeReport).validation name).state ≠ .needsRepair := by
  rw [ne_eq, moduleDrift_state]
  rintro ⟨-, report, verdict, isReport, found, failed, -⟩
  simp only [next, isRun, Option.some.injEq] at isReport
  subst isReport
  have nothing : verdictsOn fold run.runs name = [] := by
    rw [verdictsOn, List.map_eq_nil_iff, List.filter_eq_nil_iff]
    intro result member own
    exact unchecked result member ((owns_iff_baseName (ran result member) isModule).mp own)
  rw [verifyReport, get?_report isModule ran, nothing] at found
  cases found

end Runs

/-- A unit with one module recorded clean. -/
def cleanUnit : State where
  now := 100
  installed := some ⟨some (.utc 50), true, .map [("mongodb", .entry ⟨some "7.0.14", some "a41c",
    some "pass", some "pass", some (.utc 50)⟩)], some "5f1d0c"⟩
  validation := none
  executing := none
  verifying := none
  events := []

/-- A pass in which its check fails. -/
def failedPass : List Label := [.startVerify "", .check (.code 1), .writeReport]

theorem failedPass_check : verifyCommands Char.toLower "" smallBuild.commands =
    .ok [⟨101, "[verify] mongodb", "verify-mongodb.ps1", "mongodb-verify"⟩] := by
  decide +kernel

theorem failedPass_starts : next smallBuild cleanUnit (.startVerify "") = { cleanUnit with
    verifying := some ⟨[⟨101, "[verify] mongodb", "verify-mongodb.ps1", "mongodb-verify"⟩], []⟩ } := by
  simp only [next, failedPass_check]

theorem failedPass_run : (system smallBuild).Run cleanUnit
    ((system smallBuild).steps cleanUnit failedPass)
    ((system smallBuild).after cleanUnit failedPass) := by
  apply System.Run.ofLabels
  · refine ⟨rfl, rfl, rfl, rfl, ?_⟩
    have stamps : ∀ name ∈ smallBuild.manifest.modules,
        installedAt cleanUnit.installed name = some (.utc 50) ∨
          installedAt cleanUnit.installed name = none := by decide +kernel
    intro name isModule second isInstalled
    rcases stamps name isModule with stamp | none
    · cases stamp.symm.trans isInstalled
      decide
    · cases none.symm.trans isInstalled
  · have starts : (system smallBuild).next cleanUnit (.startVerify "") = _ := failedPass_starts
    refine ⟨rfl, ?_⟩
    rw [starts]
    exact ⟨⟨_, _, _, rfl, rfl⟩, ⟨_, rfl, rfl⟩, trivial⟩

/-- After a failed check of a module that is recorded clean, it needs repair. -/
theorem needsRepair_iff_knownFailure_failedPass :
    (moduleDrift (recordedModules ((system smallBuild).after cleanUnit failedPass).installed)
      smallBuild.manifest ((system smallBuild).after cleanUnit failedPass).validation
        "mongodb").state = .needsRepair ↔
      KnownFailure ((system smallBuild).after cleanUnit failedPass).events "mongodb" := by
  have starts : (system smallBuild).next cleanUnit (.startVerify "") = _ := failedPass_starts
  refine needsRepair_iff_knownFailure failedPass_run ?_ ?_ (by decide) ?_
  · simp only [failedPass, System.steps, starts, List.forall_mem_cons]
    exact ⟨⟨rfl, by decide⟩, trivial, trivial, by simp⟩
  · simp only [failedPass, System.after, List.foldl_cons, List.foldl_nil, starts]
    exact ⟨rfl, rfl⟩
  · simp only [failedPass, System.after, List.foldl_cons, List.foldl_nil, starts]
    refine ⟨⟨some "7.0.14", some "a41c", some "pass", some "pass", some (.utc 50)⟩,
      by decide +kernel, ⟨"a41c", rfl, by decide, by decide +kernel⟩, ?_, ?_⟩
    · intro text isText
      cases isText
      decide
    · intro text isText
      cases isText
      decide

end MastProvisioning.Driver.TierTwo
