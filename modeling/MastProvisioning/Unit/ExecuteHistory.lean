import MastProvisioning.Build.Staged
import MastProvisioning.Semantics.System
import MastProvisioning.Unit.Execute

/-!
# Execute runs on a unit

A unit over any number of execute runs, one command at a time. A run filters its
payload's commands, executes them in order and, after all of them, writes the
merged manifest; it may be stopped at any point and the write may be lost. The
state keeps, besides the manifest, which provide commands were started since the
manifest was last written and before that, and how they ended.
-/

namespace MastProvisioning.Unit.History

open MastProvisioning.Semantics MastProvisioning.Collections MastProvisioning.PowerShell
open MastProvisioning.Build

section Types

variable (fold : Char → Char) (sha256 : String → String) (Content : Type)

/-- A provide command that was started: the module it belongs to, the payload and
targets of its run, and whether it has ended successfully. -/
structure Provision where
  module : String
  payload : StagedBuild fold sha256 Content
  targets : List String
  succeeded : Bool

/-- A run that is going on. `results` holds what the loop has recorded so far. -/
structure Run where
  payload : StagedBuild fold sha256 Content
  targets : List String
  remaining : List Command
  current : Option Command
  results : List (Command × Bool)

/-- The unit: its record, the run that is going on, and the provide commands that
were started, newest first. -/
structure State where
  installed : Option InstalledManifest
  run : Option (Run fold sha256 Content)
  /-- Started since the record was written. -/
  since : List (Provision fold sha256 Content)
  /-- Started before that. -/
  before : List (Provision fold sha256 Content)

/-- One step of the unit. -/
inductive Label
  | start (payload : StagedBuild fold sha256 Content) (targets : List String)
  | startCommand
  /-- The child process ended; `raises` when handling its output raised afterwards. -/
  | finishCommand (exitCode : Option Int) (raises : Bool)
  | write (second : Int) (landed : Bool)
  /-- The process is killed, the machine reboots or loses power. -/
  | stop

end Types

variable {fold : Char → Char} {sha256 : String → String} {Content : Type}

/-- The commands a run for these targets executes. -/
def runCommands (payload : StagedBuild fold sha256 Content) (targets : List String) :
    List Command :=
  filterCommands fold (joinNames targets) payload.commands

/-- Every provide command that was started, newest first. -/
def State.provisions (state : State fold sha256 Content) : List (Provision fold sha256 Content) :=
  state.since ++ state.before

/-- The hash a payload gives a module, as the unit looks it up. -/
def moduleHash (payload : StagedBuild fold sha256 Content) (name : String) : String :=
  (builtState fold payload.manifest name).hash

/-- The newest provide command was successful. -/
def markSucceeded : List (Provision fold sha256 Content) → List (Provision fold sha256 Content)
  | newest :: rest => { newest with succeeded := true } :: rest
  | [] => []

/-- A command is started; the start of a provide command is part of the history. -/
def started (state : State fold sha256 Content) (run : Run fold sha256 Content)
    (command : Command) (rest : List Command) : State fold sha256 Content :=
  { state with
    run := some { run with remaining := rest, current := some command }
    since := if isVerify fold command.module then state.since
      else ⟨baseName fold command.module, run.payload, run.targets, false⟩ :: state.since }

theorem started_provisions {state : State fold sha256 Content} {run : Run fold sha256 Content}
    {command : Command} {rest : List Command} (provides : isVerify fold command.module = false) :
    (started state run command rest).provisions =
      ⟨baseName fold command.module, run.payload, run.targets, false⟩ :: state.provisions := by
  simp [started, State.provisions, provides]

theorem started_provisions_verify {state : State fold sha256 Content}
    {run : Run fold sha256 Content} {command : Command} {rest : List Command}
    (verify : isVerify fold command.module = true) :
    (started state run command rest).provisions = state.provisions := by
  simp [started, State.provisions, verify]

/-- What the loop records for a command that ended. -/
def recordedResults (command : Command) (exitCode : Option Int) (raises : Bool) :
    List (Command × Bool) :=
  (command, exitSucceeds exitCode) :: if raises then [(command, false)] else []

/-- A command has ended. -/
def finished (state : State fold sha256 Content) (run : Run fold sha256 Content)
    (command : Command) (exitCode : Option Int) (raises : Bool) : State fold sha256 Content :=
  { state with
    run := some { run with
      current := none, results := run.results ++ recordedResults command exitCode raises }
    since := if !isVerify fold command.module && exitSucceeds exitCode then
      markSucceeded state.since else state.since }

/-- The results of a module's own command that ended. -/
theorem resultsOf_recordedResults {command : Command} {name : String} {exitCode : Option Int}
    {raises : Bool} (own : owns fold name command = true) :
    resultsOf fold (recordedResults command exitCode raises) name (isVerify fold command.module) =
      exitSucceeds exitCode :: if raises then [false] else [] := by
  cases raises <;> simp [resultsOf, recordedResults, own]

theorem resultsOf_recordedResults_other {command : Command} {name : String} {verify : Bool}
    {exitCode : Option Int} {raises : Bool}
    (other : owns fold name command = false ∨ isVerify fold command.module ≠ verify) :
    resultsOf fold (recordedResults command exitCode raises) name verify = [] := by
  have skipped : (owns fold name command && isVerify fold command.module == verify) = false := by
    rcases other with notOwned | otherKind
    · simp [notOwned]
    · simp [otherKind]
  cases raises <;> simp [resultsOf, recordedResults, skipped]

/-- The manifest a run writes. -/
def merged (state : State fold sha256 Content) (run : Run fold sha256 Content) (second : Int) :
    InstalledManifest :=
  mergeInstalledManifest fold (readPrevious fold state.installed) run.payload.manifest
    (outcomesAfter fold (runCommands run.payload run.targets) run.results) (.utc second)

/-- Its module map. -/
def mergedMap (state : State fold sha256 Content) (run : Run fold sha256 Content) (second : Int) :
    List (String × Recorded) :=
  mergedModules fold (readPrevious fold state.installed) run.payload.manifest
    (outcomesAfter fold (runCommands run.payload run.targets) run.results) (.utc second)

theorem moduleMap_merged (state : State fold sha256 Content) (run : Run fold sha256 Content)
    (second : Int) : moduleMap (some (merged state run second)) = some (mergedMap state run second) :=
  rfl

theorem mergedMap_distinct (state : State fold sha256 Content) (run : Run fold sha256 Content)
    (second : Int) : OrderedDict.Distinct (foldText fold) (mergedMap state run second) :=
  mergedModules_distinct

/-- What one step does. -/
def next (state : State fold sha256 Content) : Label fold sha256 Content → State fold sha256 Content
  | .start payload targets =>
    { state with run := some ⟨payload, targets, runCommands payload targets, none, []⟩ }
  | .startCommand =>
    match state.run with
    | some run =>
      match run.remaining with
      | command :: rest => started state run command rest
      | [] => state
    | none => state
  | .finishCommand exitCode raises =>
    match state.run with
    | some run =>
      match run.current with
      | some command => finished state run command exitCode raises
      | none => state
    | none => state
  | .write second landed =>
    match state.run with
    | some run =>
      if landed then
        { installed := some (merged state run second)
          run := none
          since := []
          before := state.provisions }
      else { state with run := none }
    | none => state
  | .stop => { state with run := none }

section Next

variable {state : State fold sha256 Content} {run : Run fold sha256 Content} {command : Command}

theorem next_startCommand {rest : List Command} (isRun : state.run = some run)
    (remaining : run.remaining = command :: rest) :
    next state .startCommand = started state run command rest := by
  simp [next, isRun, remaining]

theorem next_finishCommand (isRun : state.run = some run) (isCurrent : run.current = some command)
    (exitCode : Option Int) (raises : Bool) :
    next state (.finishCommand exitCode raises) = finished state run command exitCode raises := by
  simp [next, isRun, isCurrent]

theorem next_write (isRun : state.run = some run) (second : Int) :
    next state (.write second true) = ⟨some (merged state run second), none, [], state.provisions⟩ := by
  simp [next, isRun]

theorem next_lostWrite (isRun : state.run = some run) (second : Int) :
    next state (.write second false) = { state with run := none } := by
  simp [next, isRun]

end Next

/-- When a step can be taken. `admits` says which runs are started on a unit with
a given record. -/
def Enabled (admits : Option InstalledManifest → StagedBuild fold sha256 Content → List String → Prop)
    (state : State fold sha256 Content) : Label fold sha256 Content → Prop
  | .start payload targets => state.run = none ∧ admits state.installed payload targets
  | .startCommand => ∃ run command rest, state.run = some run ∧ run.current = none ∧
      run.remaining = command :: rest
  | .finishCommand _ _ => ∃ run command, state.run = some run ∧ run.current = some command
  | .write _ _ => ∃ run, state.run = some run ∧ run.current = none ∧ run.remaining = []
  | .stop => state.run ≠ none

/-- A record of a module that passed, with its hash. -/
def RecordsPass (installed : Option InstalledManifest) (name hash : String) : Prop :=
  ∃ entries entry, moduleMap installed = some entries ∧ (name, .entry entry) ∈ entries ∧
    entry.provide = some Outcome.pass.text ∧ entry.hash = some hash

/-- The last of some provide commands to be started for a module. -/
def lastOf (fold : Char → Char) (provisions : List (Provision fold sha256 Content))
    (name : String) : Option (Provision fold sha256 Content) :=
  provisions.find? fun provision => psEq fold provision.module name

theorem lastOf_cons (provision : Provision fold sha256 Content)
    (rest : List (Provision fold sha256 Content)) (name : String) :
    lastOf fold (provision :: rest) name =
      if psEq fold provision.module name then some provision else lastOf fold rest name := by
  unfold lastOf
  rw [List.find?_cons]
  cases psEq fold provision.module name <;> rfl

/-- The end of a provide command changes nothing but that it succeeded. -/
theorem lastOf_markSucceeded {since before : List (Provision fold sha256 Content)} {name : String}
    {provision : Provision fold sha256 Content}
    (last : lastOf fold (since ++ before) name = some provision) :
    ∃ marked, lastOf fold (markSucceeded since ++ before) name = some marked ∧
      marked.payload = provision.payload ∧ (provision.succeeded = true → marked.succeeded = true) := by
  cases since with
  | nil => exact ⟨provision, last, rfl, id⟩
  | cons newest rest =>
    simp only [markSucceeded, List.cons_append, lastOf_cons] at last ⊢
    split at last
    · rename_i own
      rw [if_pos own]
      obtain rfl := Option.some.inj last
      exact ⟨_, rfl, rfl, fun _ => rfl⟩
    · rename_i other
      rw [if_neg other]
      exact ⟨provision, last, rfl, id⟩

theorem payload_of_markSucceeded {since : List (Provision fold sha256 Content)}
    {marked : Provision fold sha256 Content} (member : marked ∈ markSucceeded since) :
    ∃ provision ∈ since, marked.payload = provision.payload := by
  cases since with
  | nil => simp [markSucceeded] at member
  | cons newest rest =>
    rcases List.mem_cons.mp member with here | later
    · exact ⟨newest, List.mem_cons_self, by rw [here]⟩
    · exact ⟨marked, List.mem_cons_of_mem _ later, rfl⟩

/-- A run's commands come from its payload. -/
structure RunsPayload (run : Run fold sha256 Content) : Prop where
  remaining : ∀ command ∈ run.remaining, command ∈ runCommands run.payload run.targets
  current : ∀ command, run.current = some command →
    command ∈ runCommands run.payload run.targets
  results : ∀ result ∈ run.results, result.1 ∈ runCommands run.payload run.targets

/-- Runs on a unit, from some set of initial states. -/
def system (fold : Char → Char) (sha256 : String → String) (Content : Type)
    (initial : State fold sha256 Content → Prop)
    (admits : Option InstalledManifest → StagedBuild fold sha256 Content → List String → Prop) :
    System (State fold sha256 Content) (Label fold sha256 Content) where
  Initial := initial
  Enabled := Enabled admits
  next := next

end MastProvisioning.Unit.History
