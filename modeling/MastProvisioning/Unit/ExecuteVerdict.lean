import MastProvisioning.PowerShell.Text
import MastProvisioning.Unit.Detached

/-!
# Whose result the driver reports

The driver takes any `done` record for its own, and the runner writes exit code 0
for a script it could not call. `executeOk_is_own` says what follows when neither
happens: a run that logs `EXECUTE_OK` had an execute process of its own that
ended with exit code 0.
-/

namespace MastProvisioning.Unit.Detached

open MastProvisioning.Semantics MastProvisioning.PowerShell

variable {Driver Task : Type}

/-- A record of success that is polled names the run that polls it. -/
def PollsOwnRecord (parties : Parties Driver Task) (state : State Driver Task) :
    Label Driver Task → Prop
  | .poll driver => ∀ runId, state.result = .done runId 0 → runId = some (parties.runId driver)
  | _ => True

/-- A script that is called starts. -/
def ScriptStarts (state : State Driver Task) : Label Driver Task → Prop
  | .launch task found => ∀ config, state.task task = .reported (some config) → found = true
  | _ => True

/-- The condition on a step under which results belong to the run that reports them. -/
def ReadsOwnResult (parties : Parties Driver Task) (state : State Driver Task)
    (label : Label Driver Task) : Prop :=
  PollsOwnRecord parties state label ∧ ScriptStarts state label

/-- An execute process was started with the run id of `driver` from that run's
staging directory, and ended by itself with `rc`. -/
def EndedWith (parties : Parties Driver Task) (state : State Driver Task) (driver : Driver)
    (rc : Int) : Prop :=
  ∃ config, (config, rc) ∈ state.ended ∧ config.runId = parties.runId driver ∧
    config.stagingPath = unitStage (parties.runId driver)

/-- Every record on the unit is backed by what happened. -/
structure Honest (parties : Parties Driver Task) (state : State Driver Task) : Prop where
  config : ∀ config, state.config = some config → config.stagingPath = unitStage config.runId
  taskConfig : ∀ task config, (state.task task).config? = some config →
    config.stagingPath = unitStage config.runId
  exited : ∀ task config rc, state.task task = .exited (some config) rc →
    (config, rc) ∈ state.ended
  result : ∀ driver rc, state.result = .done (some (parties.runId driver)) rc →
    EndedWith parties state driver rc
  executeOk : ∀ driver ∈ state.executeOk, EndedWith parties state driver 0

variable {parties : Parties Driver Task} {state : State Driver Task}

theorem EndedWith.later {later : State Driver Task} {driver : Driver} {rc : Int}
    (ended : EndedWith parties state driver rc)
    (grows : ∀ entry, entry ∈ state.ended → entry ∈ later.ended) :
    EndedWith parties later driver rc := by
  obtain ⟨config, entry, names, staged⟩ := ended
  exact ⟨config, grows _ entry, names, staged⟩

/-- Steps that touch none of the records keep them honest. -/
theorem Honest.frame (holds : Honest parties state) {later : State Driver Task}
    (config : later.config = state.config) (task : later.task = state.task)
    (result : later.result = state.result) (ended : later.ended = state.ended)
    (executeOk : later.executeOk = state.executeOk) : Honest parties later where
  config written := by rw [config]; exact holds.config written
  taskConfig := by rw [task]; exact holds.taskConfig
  exited := by rw [task, ended]; exact holds.exited
  result driver rc done :=
    (holds.result driver rc (result ▸ done)).later (by rw [ended]; exact fun _ entry => entry)
  executeOk driver logged :=
    (holds.executeOk driver (executeOk ▸ logged)).later (by rw [ended]; exact fun _ entry => entry)

/-- A record that is not one of success or failure needs no backing. -/
theorem Honest.notDone (holds : Honest parties state) {result : ResultFile}
    (notDone : result.isDone = false) (landed : Bool) :
    Honest parties { state with result := written landed state.result result } where
  config := holds.config
  taskConfig := holds.taskConfig
  exited := holds.exited
  result driver rc done := by
    cases landed with
    | true =>
      simp only [written, if_true] at done
      simp [done, ResultFile.isDone] at notDone
    | false => exact holds.result driver rc done
  executeOk := holds.executeOk

/-- A task moves on with a configuration that is as the driver writes it. -/
theorem Honest.taskTo [DecidableEq Task] (holds : Honest parties state) {task : Task}
    {phase : TaskPhase}
    (config : ∀ config, phase.config? = some config → config.stagingPath = unitStage config.runId)
    (exited : ∀ config rc, phase = .exited (some config) rc → (config, rc) ∈ state.ended) :
    Honest parties (state.taskTo task phase) where
  config := holds.config
  taskConfig other cfg going := by
    by_cases same : other = task
    · exact config cfg (by simpa [same] using going)
    · exact holds.taskConfig other cfg (by simpa [same] using going)
  exited other cfg rc isExited := by
    by_cases same : other = task
    · exact exited cfg rc (by simpa [same] using isExited)
    · exact holds.exited other cfg rc (by simpa [same] using isExited)
  result := holds.result
  executeOk := holds.executeOk

/-- An execute process that ends is recorded before its task goes on. -/
theorem Honest.processEnds [DecidableEq Task] (holds : Honest parties state) {task : Task}
    {config : Config} {stage : ExecuteStage} (executing : state.task task = .executing config stage)
    (rc : Int) (lease : Lease.LeaseFile) :
    Honest parties
      { state.taskTo task (.exited (some config) rc) with
        ended := (config, rc) :: state.ended, lease := lease } := by
  have recorded : Honest parties { state with ended := (config, rc) :: state.ended } :=
    { config := holds.config
      taskConfig := holds.taskConfig
      exited := fun other cfg code isExited => List.mem_cons_of_mem _ (holds.exited other cfg code isExited)
      result := fun driver code done =>
        (holds.result driver code done).later fun _ entry => List.mem_cons_of_mem _ entry
      executeOk := fun driver logged =>
        (holds.executeOk driver logged).later fun _ entry => List.mem_cons_of_mem _ entry }
  have moved : Honest parties
      ({ state with ended := (config, rc) :: state.ended }.taskTo task (.exited (some config) rc)) := by
    refine recorded.taskTo ?_ ?_
    · intro cfg going
      exact holds.taskConfig task cfg (by simpa [executing, TaskPhase.config?] using going)
    · intro cfg code isExited
      have equal : config = cfg ∧ rc = code := by simpa using isExited
      simp [equal]
  exact moved.frame rfl rfl rfl rfl rfl

/-- The record a task writes at its end is backed by its execute process. -/
theorem Honest.writeDone (holds : Honest parties state) {task : Task} {config : Option Config}
    {rc : Int} (isExited : state.task task = .exited config rc) (landed : Bool) :
    Honest parties
      { state with
        result := written landed state.result (.done (config.map Config.runId) rc) } where
  config := holds.config
  taskConfig := holds.taskConfig
  exited := holds.exited
  result driver code done := by
    cases landed with
    | false => exact holds.result driver code done
    | true =>
      simp only [written, if_true, ResultFile.done.injEq, Option.map_eq_some_iff] at done
      obtain ⟨⟨own, isOwn, names⟩, equal⟩ := done
      subst isOwn equal
      have staged := holds.taskConfig task own (by simp [isExited, TaskPhase.config?])
      exact ⟨own, holds.exited task own rc isExited, names, by rw [staged, names]⟩
  executeOk := holds.executeOk

/-- A poll that reads its own run's record reports what that run did. -/
theorem Honest.polled [DecidableEq Driver] (holds : Honest parties state) {driver : Driver}
    (own : ∀ runId, state.result = .done runId 0 → runId = some (parties.runId driver)) :
    Honest parties (state.polled driver) := by
  unfold State.polled
  split
  · rename_i runId rc isDone
    split
    · exact holds.frame rfl rfl rfl rfl rfl
    · split
      · rename_i succeeded
        subst succeeded
        have isOwn := own runId isDone
        subst isOwn
        refine ⟨holds.config, holds.taskConfig, holds.exited, holds.result, ?_⟩
        intro logged member
        rcases List.mem_cons.mp member with here | earlier
        · subst here
          exact holds.result logged 0 isDone
        · exact holds.executeOk logged earlier
      · exact holds.frame rfl rfl rfl rfl rfl
  · exact holds

variable [DecidableEq Driver] [DecidableEq Task] {fold : String → String}

/-- A step that meets the condition keeps the records honest. -/
theorem Honest.step (holds : Honest parties state) {label : Label Driver Task}
    (readsOwn : ReadsOwnResult parties state label) (enabled : Enabled parties state label) :
    Honest parties (next fold parties state label) := by
  cases label with
  | setUnavailable driver landed => exact holds.frame rfl rfl rfl rfl rfl
  | writeConfig driver landed =>
    refine ⟨?_, holds.taskConfig, holds.exited, holds.result, holds.executeOk⟩
    intro config isConfig
    cases landed with
    | true =>
      simp only [next, written, if_true, Option.some.injEq] at isConfig
      rw [← isConfig]
      rfl
    | false => exact holds.config config isConfig
  | removeResult driver removed => exact holds.notDone rfl removed
  | startTask driver started =>
    have registered : Honest parties (state.executedFor driver) := by
      unfold State.executedFor
      split
      · exact holds.frame rfl rfl rfl rfl rfl
      · exact holds
    cases started with
    | none => exact registered
    | some task => exact registered.taskTo (by simp [TaskPhase.config?]) (by simp)
  | registered driver seen => exact holds.frame rfl rfl rfl rfl rfl
  | poll driver => exact holds.polled readsOwn.1
  | giveUp driver => exact holds.frame rfl rfl rfl rfl rfl
  | smoke driver passed => exact holds.frame rfl rfl rfl rfl rfl
  | setAvailable driver landed => exact holds.frame rfl rfl rfl rfl rfl
  | leave driver landed =>
    simp only [next]
    split
    · exact holds.frame rfl rfl rfl rfl rfl
    · exact holds.frame rfl rfl rfl rfl rfl
  | readConfig task fails =>
    refine holds.taskTo ?_ (by simp)
    intro config isConfig
    cases fails with
    | true => simp [TaskPhase.config?] at isConfig
    | false => exact holds.config config (by simpa [TaskPhase.config?] using isConfig)
  | writeRunning task landed =>
    obtain ⟨config, configured⟩ := enabled
    simp only [next, configured]
    have reported : Honest parties (state.taskTo task (.reported config)) := by
      refine holds.taskTo ?_ (by simp)
      intro own isOwn
      exact holds.taskConfig task own (by simpa [configured, TaskPhase.config?] using isOwn)
    exact reported.notDone rfl landed
  | launch task found =>
    obtain ⟨config, reported⟩ := enabled
    cases config with
    | none =>
      simp only [next, reported]
      exact holds.taskTo (by simp [TaskPhase.config?]) (by simp)
    | some config =>
      have starts : found = true := readsOwn.2 config reported
      subst starts
      simp only [next, reported, if_true]
      refine holds.taskTo ?_ (by simp)
      intro own isOwn
      exact holds.taskConfig task own (by simpa [reported, TaskPhase.config?] using isOwn)
  | acquire task processAlive =>
    obtain ⟨config, executing, _⟩ := enabled
    have moved : ∀ stage, Honest parties (state.taskTo task (.executing config stage)) := by
      intro stage
      refine holds.taskTo ?_ (by simp)
      intro own isOwn
      exact holds.taskConfig task own (by simpa [executing, TaskPhase.config?] using isOwn)
    simp only [next, executing]
    split
    · exact moved .refusing
    · exact (moved .provisioning).frame rfl rfl rfl rfl rfl
  | exit task succeeded =>
    obtain ⟨config, refusing | provisioning⟩ := enabled
    · simp only [next, refusing]
      exact holds.processEnds refusing exitLeaseHeld state.lease
    · simp only [next, provisioning]
      exact holds.processEnds provisioning _ _
  | writeDone task landed =>
    obtain ⟨config, rc, isExited⟩ := enabled
    simp only [next, isExited]
    exact (holds.writeDone isExited landed).taskTo (by simp [TaskPhase.config?]) (by simp)
  | kill task => exact holds.taskTo (by simp [TaskPhase.config?]) (by simp)
  | tick seconds => exact holds.frame rfl rfl rfl rfl rfl

omit [DecidableEq Driver] [DecidableEq Task] in
theorem Honest.initially (start : State Driver Task) (initial : Initial parties start) :
    Honest parties start where
  config := initial.config
  taskConfig task config going := by simp [initial.task, TaskPhase.config?] at going
  exited task config rc isExited := by simp [initial.task] at isExited
  result driver rc done := absurd done (initial.result driver rc)
  executeOk := by simp [initial.executeOk]

/-- In every run whose steps meet the condition, a driver run logs `EXECUTE_OK`
only when an execute process was started with its run id from its staging
directory and that process ended with exit code 0. -/
theorem executeOk_is_own {start : State Driver Task}
    {trace : List (System.Taken (State Driver Task) (Label Driver Task))}
    (run : (system fold parties).Run start trace state)
    (readsOwn : ∀ taken ∈ trace, ReadsOwnResult parties taken.1 taken.2) :
    ∀ driver ∈ state.executeOk, EndedWith parties state driver 0 := by
  have preserved : ∀ state label, Honest parties state → ReadsOwnResult parties state label →
      Enabled parties state label → Honest parties (next fold parties state label) :=
    fun _ _ holds readsOwn enabled => holds.step readsOwn enabled
  exact (run.invariant Honest.initially preserved readsOwn).executeOk

/-- Two driver runs and two tasks. -/
def twoRuns : Parties Bool Bool where
  runId driver := if driver then "run-20261012-080000" else "run-20261012-110000"
  provIdentity _ := "mast-ns-control"
  targetModules _ := []
  pid task := if task then 4120 else 5288
  pid_pos := by decide

/-- A unit on which nothing has run. -/
def untouched : State Bool Bool where
  config := none
  result := .absent
  lease := .absent
  available := some true
  clock := 0
  task _ := .notStarted
  driver _ := .idle
  ended := []
  executeOk := []

theorem untouched_initial : Initial twoRuns untouched := by
  constructor <;> simp [untouched]

/-- The steps of a driver run up to its first poll; `task` is the task it starts. -/
def registerLabels (driver task : Bool) : List (Label Bool Bool) :=
  [.setUnavailable driver true, .writeConfig driver true, .removeResult driver true,
    .startTask driver (some task), .registered driver true]

/-- The steps of a task up to the launch of the execute script. -/
def launchLabels (task found : Bool) : List (Label Bool Bool) :=
  [.readConfig task false, .writeRunning task true, .launch task found]

/-- A run that goes well. -/
def wellLabels : List (Label Bool Bool) :=
  registerLabels true true ++ launchLabels true true ++
    [.acquire true false, .exit true true, .writeDone true true, .poll true]

/-- The staging directory holds no execute script. -/
def missingScriptLabels : List (Label Bool Bool) :=
  registerLabels true true ++ launchLabels true false ++ [.writeDone true true, .poll true]

/-- The first run times out; its execute ends after the second run registered. -/
def lateRecordLabels : List (Label Bool Bool) :=
  registerLabels true true ++ launchLabels true true ++
    [.acquire true false, .giveUp true, .leave true true] ++ registerLabels false false ++
    [.exit true true, .writeDone true true, .poll false]

theorem well_follows : (system foldCase twoRuns).Follows untouched wellLabels := by
  simp [wellLabels, registerLabels, launchLabels, System.Follows, system, Enabled, next, untouched,
    written, State.driverTo, State.taskTo, State.executedFor, Function.update_apply, DriverPhase.hasRegistered,
    Lease.leaseHeld]

theorem well_readsOwn : ∀ taken ∈ (system foldCase twoRuns).steps untouched wellLabels,
    ReadsOwnResult twoRuns taken.1 taken.2 := by
  simp [wellLabels, registerLabels, launchLabels, System.steps, system, ReadsOwnResult,
    PollsOwnRecord, ScriptStarts, next, untouched, written, State.driverTo, State.taskTo, State.executedFor,
    Lease.leaseHeld, detachedInputs]

/-- A run that goes well meets the condition. -/
theorem executeOk_is_own_well :
    (system foldCase twoRuns).Follows untouched wellLabels ∧
      ∀ driver ∈ ((system foldCase twoRuns).after untouched wellLabels).executeOk,
        EndedWith twoRuns ((system foldCase twoRuns).after untouched wellLabels) driver 0 :=
  ⟨well_follows, executeOk_is_own (.ofLabels untouched_initial well_follows) well_readsOwn⟩

theorem missingScript_follows :
    (system foldCase twoRuns).Follows untouched missingScriptLabels := by
  simp [missingScriptLabels, registerLabels, launchLabels, System.Follows, system, Enabled, next,
    untouched, written, State.driverTo, State.taskTo, State.executedFor, DriverPhase.hasRegistered]

theorem missingScript_pollsOwn :
    ∀ taken ∈ (system foldCase twoRuns).steps untouched missingScriptLabels,
      PollsOwnRecord twoRuns taken.1 taken.2 := by
  simp [missingScriptLabels, registerLabels, launchLabels, System.steps, system, PollsOwnRecord,
    next, untouched, written, State.driverTo, State.taskTo, State.executedFor, detachedInputs]

theorem lateRecord_follows :
    (system foldCase twoRuns).Follows untouched lateRecordLabels := by
  simp [lateRecordLabels, registerLabels, launchLabels, System.Follows, system, Enabled, next,
    untouched, written, State.driverTo, State.taskTo, State.executedFor, Function.update_apply,
    DriverPhase.hasRegistered, Lease.leaseHeld]

theorem lateRecord_scriptStarts :
    ∀ taken ∈ (system foldCase twoRuns).steps untouched lateRecordLabels,
      ScriptStarts taken.1 taken.2 := by
  simp [lateRecordLabels, registerLabels, launchLabels, System.steps, system, ScriptStarts, next,
    untouched, written, State.driverTo, State.taskTo, State.executedFor, Lease.leaseHeld]

theorem missingScript_notEnded :
    ¬ EndedWith twoRuns ((system foldCase twoRuns).after untouched missingScriptLabels) true 0 := by
  rintro ⟨config, entry, -⟩
  have none : ((system foldCase twoRuns).after untouched missingScriptLabels).ended = [] := rfl
  simp [none] at entry

theorem lateRecord_notEnded :
    ¬ EndedWith twoRuns ((system foldCase twoRuns).after untouched lateRecordLabels) false 0 := by
  rintro ⟨config, entry, names, -⟩
  have first : ((system foldCase twoRuns).after untouched lateRecordLabels).ended =
      [(detachedInputs (twoRuns.runId true) "mast-ns-control" [], 0)] := rfl
  rw [first] at entry
  have isFirst : config = detachedInputs (twoRuns.runId true) "mast-ns-control" [] := by
    simpa using entry
  rw [isFirst] at names
  simp [detachedInputs, twoRuns] at names

/-- Neither half of the condition can be left out: a script that cannot be called
is reported as success, and so is a record of an earlier run. -/
theorem executeOk_not_own :
    (¬ ∀ (start state : State Bool Bool) trace, (system foldCase twoRuns).Run start trace state →
      (∀ taken ∈ trace, PollsOwnRecord twoRuns taken.1 taken.2) →
      ∀ driver ∈ state.executeOk, EndedWith twoRuns state driver 0) ∧
    (¬ ∀ (start state : State Bool Bool) trace, (system foldCase twoRuns).Run start trace state →
      (∀ taken ∈ trace, ScriptStarts taken.1 taken.2) →
      ∀ driver ∈ state.executeOk, EndedWith twoRuns state driver 0) := by
  constructor
  · intro own
    exact missingScript_notEnded (own _ _ _ (.ofLabels untouched_initial missingScript_follows)
      missingScript_pollsOwn true (List.mem_singleton_self true))
  · intro own
    exact lateRecord_notEnded (own _ _ _ (.ofLabels untouched_initial lateRecord_follows)
      lateRecord_scriptStarts false (List.mem_singleton_self false))

end MastProvisioning.Unit.Detached
