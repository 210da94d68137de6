import MastProvisioning.Unit.Lease

/-!
# The detached execute

The driver does not run the execute script itself. `_execute` writes
`detached-run.json`, has the unit register and start a scheduled task
(`mast-run-detached.ps1 -Register`), and polls `execute-result.json` until it
reads a `done` record. The task (`-Run`) reads the configuration, launches the
execute script from the staging path named there, and writes the record. Before
the execute the driver marks the unit unavailable, afterwards available.

Configuration, result, lease and availability are each one file that every
driver run and every task on the unit shares. A remote call may take effect
without the driver learning of it, may be executed again, or may have no effect
without raising; a label carries what happened.
-/

namespace MastProvisioning.Unit.Detached

open MastProvisioning.Semantics MastProvisioning.Unit.Lease

/-- `detached-run.json`. -/
structure Config where
  runId : String
  stagingPath : String
  heldBy : String
  modules : String
deriving DecidableEq, Repr

/-- The directory a run pulls its payload into. -/
def unitStage (runId : String) : String := "C:\\mast-staging\\" ++ runId

/-- What `_write_detached_inputs` writes. -/
def detachedInputs (runId provIdentity : String) (targetModules : List String) : Config where
  runId := runId
  stagingPath := unitStage runId
  heldBy := provIdentity
  modules := ",".intercalate targetModules

/-- `execute-result.json`. A runner that could not read its configuration writes
a null `run_id`. -/
inductive ResultFile
  | absent
  | running (runId : Option String)
  | done (runId : Option String) (exitCode : Int)
deriving DecidableEq, Repr

def ResultFile.isDone : ResultFile → Bool
  | .done _ _ => true
  | _ => false

/-- The exit code of an execute that declined because the lease is held. -/
def exitLeaseHeld : Int := 10

/-- The driver runs on one unit and the tasks that may be started there. -/
structure Parties (Driver Task : Type) where
  runId : Driver → String
  provIdentity : Driver → String
  targetModules : Driver → List String
  pid : Task → Nat
  pid_pos : ∀ task, 0 < pid task

/-- Where the execute process of a task is. -/
inductive ExecuteStage
  | starting
  | refusing
  | provisioning
deriving DecidableEq, Repr

/-- Where a task is. `config` is `none` when it could not be read. -/
inductive TaskPhase
  | notStarted
  | launched
  | configured (config : Option Config)
  /-- The `running` record has been written. -/
  | reported (config : Option Config)
  /-- The execute script runs, with the run id and staging path of `config`. -/
  | executing (config : Config) (stage : ExecuteStage)
  /-- `$rc` is set; the `done` record is still to be written. -/
  | exited (config : Option Config) (rc : Int)
  | finished
  | dead
deriving DecidableEq, Repr

/-- A task that has been started and has not come to its end. -/
def TaskPhase.unfinished : TaskPhase → Prop
  | .notStarted | .finished | .dead => False
  | _ => True

/-- A task whose execute process runs. -/
def TaskPhase.runsExecute : TaskPhase → Prop
  | .executing _ _ => True
  | _ => False

/-- The configuration a task goes by. -/
def TaskPhase.config? : TaskPhase → Option Config
  | .configured config | .reported config | .exited config _ => config
  | .executing config _ => some config
  | _ => none

/-- Where a driver run is between phases 6 and 10. -/
inductive DriverPhase
  | idle
  | preparing
  /-- The registration command may be executing; `executed` once it has. -/
  | registering (executed : Bool)
  | polling
  /-- `EXECUTE_OK` is logged; the smoke check is still to come. -/
  | succeeded
  /-- The availability file is being set to true. -/
  | returning
  /-- No success to report; the unit is still marked as taken. -/
  | failing
  | ended
deriving DecidableEq, Repr

/-- A driver run that has its verdict and will, or may, mark the unit available. -/
def DriverPhase.handsBack : DriverPhase → Prop
  | .succeeded | .returning => True
  | _ => False

/-- A driver run that has sent the registration command. -/
def DriverPhase.hasRegistered : DriverPhase → Prop
  | .idle | .preparing => False
  | _ => True

/-- The files the parties share, the parties, and two records of what happened:
the execute processes that ended by themselves, with their exit codes, and the
driver runs that logged `EXECUTE_OK`. -/
structure State (Driver Task : Type) where
  config : Option Config
  result : ResultFile
  lease : LeaseFile
  available : Option Bool
  clock : Int
  task : Task → TaskPhase
  driver : Driver → DriverPhase
  ended : List (Config × Int)
  executeOk : List Driver

/-- One step of a driver run or a task, or the passing of time. -/
inductive Label (Driver Task : Type)
  | setUnavailable (driver : Driver) (landed : Bool)
  | writeConfig (driver : Driver) (landed : Bool)
  | removeResult (driver : Driver) (removed : Bool)
  /-- The rest of `-Register`; `none` when no task instance comes of it. -/
  | startTask (driver : Driver) (task : Option Task)
  | registered (driver : Driver) (seen : Bool)
  | poll (driver : Driver)
  | giveUp (driver : Driver)
  | smoke (driver : Driver) (passed : Bool)
  | setAvailable (driver : Driver) (landed : Bool)
  | leave (driver : Driver) (landed : Bool)
  | readConfig (task : Task) (fails : Bool)
  | writeRunning (task : Task) (landed : Bool)
  | launch (task : Task) (found : Bool)
  | acquire (task : Task) (processAlive : Bool)
  | exit (task : Task) (succeeded : Bool)
  | writeDone (task : Task) (landed : Bool)
  | kill (task : Task)
  | tick (seconds : Nat)

/-- What a file holds after a write that may have had no effect. -/
def written {Content : Type} (landed : Bool) (before after : Content) : Content :=
  if landed then after else before

/-- The lease file after an execute releases it. -/
def releaseLease (fold : String → String) (file : LeaseFile) (runId : String) : LeaseFile :=
  match file with
  | .holds current => if fold current.runId = fold runId then .absent else file
  | _ => .absent

section System

variable {Driver Task : Type}

/-- A driver run moves to another phase. -/
def State.driverTo [DecidableEq Driver] (state : State Driver Task) (driver : Driver)
    (phase : DriverPhase) : State Driver Task :=
  { state with driver := Function.update state.driver driver phase }

/-- A task moves to another phase. -/
def State.taskTo [DecidableEq Task] (state : State Driver Task) (task : Task)
    (phase : TaskPhase) : State Driver Task :=
  { state with task := Function.update state.task task phase }

@[simp] theorem State.driverTo_driver [DecidableEq Driver] (state : State Driver Task)
    (driver other : Driver) (phase : DriverPhase) :
    (state.driverTo driver phase).driver other =
      if other = driver then phase else state.driver other := by
  simp [State.driverTo, Function.update_apply]

@[simp] theorem State.taskTo_task [DecidableEq Task] (state : State Driver Task)
    (task other : Task) (phase : TaskPhase) :
    (state.taskTo task phase).task other =
      if other = task then phase else state.task other := by
  simp [State.taskTo, Function.update_apply]

variable [DecidableEq Driver] [DecidableEq Task]

/-- The registration command of a driver run has been executed on the unit. A run
that no longer waits for it does not notice. -/
def State.executedFor (state : State Driver Task) (driver : Driver) : State Driver Task :=
  match state.driver driver with
  | .registering _ => state.driverTo driver (.registering true)
  | _ => state

/-- What the driver makes of the result file: `EXECUTE_OK`, `EXECUTE_LEASE_HELD`,
`EXECUTE_FAIL`, or another poll. The record's `run_id` is not looked at. -/
def State.polled (state : State Driver Task) (driver : Driver) : State Driver Task :=
  match state.result with
  | .done _ rc =>
    if rc = exitLeaseHeld then state.driverTo driver .returning
    else if rc = 0 then
      { state.driverTo driver .succeeded with executeOk := driver :: state.executeOk }
    else state.driverTo driver .failing
  | _ => state

variable (fold : String → String) (parties : Parties Driver Task)

/-- What one step does. -/
def next (state : State Driver Task) : Label Driver Task → State Driver Task
  | .setUnavailable driver landed =>
    { state.driverTo driver .preparing with
      available := written landed state.available (some false) }
  | .writeConfig driver landed =>
    { state.driverTo driver (.registering false) with
      config := written landed state.config
        (some (detachedInputs (parties.runId driver) (parties.provIdentity driver)
          (parties.targetModules driver))) }
  | .removeResult _ removed => { state with result := written removed state.result .absent }
  | .startTask driver started =>
    match started with
    | some task => (state.executedFor driver).taskTo task .launched
    | none => state.executedFor driver
  | .registered driver seen => state.driverTo driver (if seen then .polling else .failing)
  | .poll driver => state.polled driver
  | .giveUp driver => state.driverTo driver .failing
  | .smoke driver passed => state.driverTo driver (if passed then .returning else .failing)
  | .setAvailable _ landed => { state with available := written landed state.available (some true) }
  -- `_release_and_archive` marks a unit it still holds as unavailable
  | .leave driver landed =>
    match state.driver driver with
    | .returning => state.driverTo driver .ended
    | _ => { state.driverTo driver .ended with
        available := written landed state.available (some false) }
  | .readConfig task fails =>
    state.taskTo task (.configured (if fails then none else state.config))
  | .writeRunning task landed =>
    match state.task task with
    | .configured config =>
      { state.taskTo task (.reported config) with
        result := written landed state.result (.running (config.map Config.runId)) }
    | _ => state
  | .launch task found =>
    match state.task task with
    | .reported (some config) =>
      state.taskTo task
        (if found then .executing config .starting else .exited (some config) 0)
    -- without a configuration there is no script path to call
    | .reported none => state.taskTo task (.exited none 0)
    | _ => state
  | .acquire task processAlive =>
    match state.task task with
    | .executing config .starting =>
      if leaseHeld state.lease processAlive state.clock then
        state.taskTo task (.executing config .refusing)
      else
        { state.taskTo task (.executing config .provisioning) with
          lease := .holds (newLeaseObject config.runId config.heldBy (parties.pid task) 7200
            state.clock) }
    | _ => state
  | .exit task succeeded =>
    match state.task task with
    | .executing config .refusing =>
      { state.taskTo task (.exited (some config) exitLeaseHeld) with
        ended := (config, exitLeaseHeld) :: state.ended }
    | .executing config .provisioning =>
      let exitCode := if succeeded then 0 else 1
      { state.taskTo task (.exited (some config) exitCode) with
        ended := (config, exitCode) :: state.ended
        lease := releaseLease fold state.lease config.runId }
    | _ => state
  | .writeDone task landed =>
    match state.task task with
    | .exited config rc =>
      { state.taskTo task .finished with
        result := written landed state.result (.done (config.map Config.runId) rc) }
    | _ => state
  | .kill task => state.taskTo task .dead
  | .tick seconds => { state with clock := state.clock + seconds }

/-- When a step can be taken. The registration command may still be executed
when its driver run has moved on. -/
def Enabled (state : State Driver Task) : Label Driver Task → Prop
  | .setUnavailable driver _ => state.driver driver = .idle
  | .writeConfig driver _ => state.driver driver = .preparing
  | .removeResult driver _ => (state.driver driver).hasRegistered
  | .startTask driver started => (state.driver driver).hasRegistered ∧
      ∀ task, started = some task → state.task task = .notStarted
  | .registered driver seen => ∃ executed, state.driver driver = .registering executed ∧
      (seen = true → executed = true)
  | .poll driver | .giveUp driver => state.driver driver = .polling
  | .smoke driver _ => state.driver driver = .succeeded
  | .setAvailable driver _ => state.driver driver = .returning
  | .leave driver _ => state.driver driver ≠ .idle ∧ state.driver driver ≠ .ended
  | .readConfig task _ => state.task task = .launched
  | .writeRunning task _ => ∃ config, state.task task = .configured config
  | .launch task _ => ∃ config, state.task task = .reported config
  | .acquire task processAlive => ∃ config, state.task task = .executing config .starting ∧
      ∀ lease other, state.lease = .holds lease → lease.pid = some (parties.pid other) →
        (state.task other).unfinished → processAlive = true
  | .exit task _ => ∃ config, state.task task = .executing config .refusing ∨
      state.task task = .executing config .provisioning
  | .writeDone task _ => ∃ config rc, state.task task = .exited config rc
  | .kill task => (state.task task).unfinished
  | .tick _ => True

/-- Nobody has started; the files are as earlier runs left them. -/
structure Initial (parties : Parties Driver Task) (state : State Driver Task) : Prop where
  task : ∀ task, state.task task = .notStarted
  driver : ∀ driver, state.driver driver = .idle
  config : ∀ config, state.config = some config → config.stagingPath = unitStage config.runId
  result : ∀ driver rc, state.result ≠ .done (some (parties.runId driver)) rc
  executeOk : state.executeOk = []

/-- Any number of driver runs and tasks on one unit. -/
def system : System (State Driver Task) (Label Driver Task) where
  Initial := Initial parties
  Enabled := Enabled parties
  next := next fold parties

end System

end MastProvisioning.Unit.Detached
