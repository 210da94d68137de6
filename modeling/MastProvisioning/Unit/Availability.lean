import MastProvisioning.Unit.ExecuteVerdict

/-!
# When an available unit is idle

The driver marks a unit available after a successful execute and after a refused
one. `available_is_idle` says that no execute runs at that moment provided every
task instance is started on a unit that has come to rest; a registration command
that is executed twice, and an execute left over from a run that timed out, start
or find a second one (`available_while_executing`).
-/

namespace MastProvisioning.Unit.Detached

open MastProvisioning.Semantics MastProvisioning.PowerShell

variable {Driver Task : Type}

/-- The condition on a step under which an available unit is idle: a task is
started only when no other is unfinished, no old record is left to be polled, and
no driver run has its verdict and not yet handed the unit back. -/
def StartsAtRest (state : State Driver Task) : Label Driver Task → Prop
  | .startTask _ (some _) => (∀ task, ¬ (state.task task).unfinished) ∧
      state.result.isDone = false ∧ ∀ driver, ¬ (state.driver driver).handsBack
  | _ => True

/-- A step that writes `available: true` on the unit. -/
def SetsAvailable : Label Driver Task → Prop
  | .setAvailable _ _ => True
  | _ => False

/-- No execute process runs on the unit. -/
def Idle (state : State Driver Task) : Prop :=
  ∀ task, ¬ (state.task task).runsExecute

/-- What every run that starts its tasks at rest maintains. -/
structure Rest (state : State Driver Task) : Prop where
  /-- At most one task is under way. -/
  single : ∀ task other, (state.task task).unfinished → (state.task other).unfinished →
    task = other
  /-- While one is, the result file holds no verdict. -/
  pending : ∀ task, (state.task task).unfinished → state.result.isDone = false
  /-- And no driver run is about to hand the unit back. -/
  handedBack : ∀ driver, (state.driver driver).handsBack → ∀ task, ¬ (state.task task).unfinished

variable {parties : Parties Driver Task} {state : State Driver Task}

theorem TaskPhase.unfinished_of_runsExecute {phase : TaskPhase} (runs : phase.runsExecute) :
    phase.unfinished := by
  cases phase <;> simp_all [TaskPhase.runsExecute, TaskPhase.unfinished]

theorem State.executedFor_task [DecidableEq Driver] (driver : Driver) :
    (state.executedFor driver).task = state.task := by
  unfold State.executedFor
  split <;> rfl

theorem State.executedFor_result [DecidableEq Driver] (driver : Driver) :
    (state.executedFor driver).result = state.result := by
  unfold State.executedFor
  split <;> rfl

theorem State.executedFor_handsBack [DecidableEq Driver] {driver other : Driver}
    (handsBack : ((state.executedFor driver).driver other).handsBack) :
    (state.driver other).handsBack := by
  unfold State.executedFor at handsBack
  split at handsBack
  · by_cases same : other = driver
    · simp [same, DriverPhase.handsBack] at handsBack
    · simpa [same] using handsBack
  · exact handsBack

/-- Steps that touch neither tasks nor driver runs, and leave no verdict. -/
theorem Rest.frame (holds : Rest state) {later : State Driver Task}
    (task : later.task = state.task) (driver : later.driver = state.driver)
    (result : later.result.isDone = true → state.result.isDone = true) : Rest later where
  single := by rw [task]; exact holds.single
  pending other underway := by
    rw [task] at underway
    by_contra isDone
    simp [holds.pending other underway] at result
    simp [result] at isDone
  handedBack := by rw [task, driver]; exact holds.handedBack

/-- A driver run that moves to a phase in which it does not hand the unit back. -/
theorem Rest.driverTo [DecidableEq Driver] (holds : Rest state) {driver : Driver}
    {phase : DriverPhase}
    (keeps : phase.handsBack → ∀ task, ¬ (state.task task).unfinished) :
    Rest (state.driverTo driver phase) where
  single := holds.single
  pending := holds.pending
  handedBack other handsBack := by
    by_cases same : other = driver
    · exact keeps (by simpa [same] using handsBack)
    · exact holds.handedBack other (by simpa [same] using handsBack)

/-- A task that moves on was under way before. -/
theorem Rest.taskTo [DecidableEq Task] (holds : Rest state) {task : Task} {phase : TaskPhase}
    (underway : phase.unfinished → (state.task task).unfinished) :
    Rest (state.taskTo task phase) := by
  have before : ∀ other, ((state.taskTo task phase).task other).unfinished →
      (state.task other).unfinished := by
    intro other unfinished
    by_cases same : other = task
    · subst same; exact underway (by simpa using unfinished)
    · simpa [same] using unfinished
  refine ⟨?_, ?_, ?_⟩
  · exact fun other another first second =>
      holds.single other another (before other first) (before another second)
  · exact fun other unfinished => holds.pending other (before other unfinished)
  · exact fun driver handsBack other unfinished =>
      holds.handedBack driver handsBack other (before other unfinished)

/-- A task that is started at rest is the only one under way. -/
theorem Rest.start [DecidableEq Task] {task : Task}
    (noneUnderway : ∀ other, ¬ (state.task other).unfinished)
    (noVerdict : state.result.isDone = false)
    (noneHandsBack : ∀ driver, ¬ (state.driver driver).handsBack) :
    Rest (state.taskTo task .launched) := by
  have only : ∀ other, ((state.taskTo task .launched).task other).unfinished → other = task := by
    intro other unfinished
    by_contra different
    exact noneUnderway other (by simpa [different] using unfinished)
  refine ⟨?_, ?_, ?_⟩
  · exact fun other another first second => (only other first).trans (only another second).symm
  · exact fun _ _ => noVerdict
  · exact fun driver handsBack => absurd handsBack (noneHandsBack driver)

/-- The last task under way writes its verdict and is finished. -/
theorem Rest.writeDone [DecidableEq Task] (holds : Rest state) {task : Task}
    (underway : (state.task task).unfinished) (landed : Bool) (record : ResultFile) :
    Rest { state.taskTo task .finished with result := written landed state.result record } := by
  have noneUnderway : ∀ other, ¬ ((state.taskTo task .finished).task other).unfinished := by
    intro other unfinished
    by_cases same : other = task
    · simp [same, TaskPhase.unfinished] at unfinished
    · exact same (holds.single other task (by simpa [same] using unfinished) underway)
  exact ⟨fun other _ unfinished => absurd unfinished (noneUnderway other),
    fun other unfinished => absurd unfinished (noneUnderway other),
    fun _ _ => noneUnderway⟩

/-- A verdict is polled only when no task is under way. -/
theorem Rest.polled [DecidableEq Driver] (holds : Rest state) (driver : Driver) :
    Rest (state.polled driver) := by
  unfold State.polled
  split
  · rename_i isDone
    have noneUnderway : ∀ task, ¬ (state.task task).unfinished := by
      intro task unfinished
      have noVerdict := holds.pending task unfinished
      simp [isDone, ResultFile.isDone] at noVerdict
    split
    · exact holds.driverTo fun _ => noneUnderway
    · split
      · have succeeded : Rest (state.driverTo driver .succeeded) :=
          holds.driverTo fun _ => noneUnderway
        exact succeeded.frame rfl rfl id
      · exact holds.driverTo fun _ => noneUnderway
  · exact holds

variable [DecidableEq Driver] [DecidableEq Task] {fold : String → String}

/-- A step that meets the condition keeps the unit at rest where it has to be. -/
theorem Rest.step (holds : Rest state) {label : Label Driver Task}
    (atRest : StartsAtRest state label) (enabled : Enabled parties state label) :
    Rest (next fold parties state label) := by
  cases label with
  | setUnavailable driver landed =>
    have preparing : Rest (state.driverTo driver .preparing) :=
      holds.driverTo (by simp [DriverPhase.handsBack])
    exact preparing.frame rfl rfl id
  | writeConfig driver landed =>
    have registering : Rest (state.driverTo driver (.registering false)) :=
      holds.driverTo (by simp [DriverPhase.handsBack])
    exact registering.frame rfl rfl id
  | removeResult driver removed =>
    refine holds.frame rfl rfl ?_
    cases removed <;> simp [next, written, ResultFile.isDone]
  | startTask driver started =>
    have registered : Rest (state.executedFor driver) := by
      unfold State.executedFor
      split
      · exact holds.driverTo (by simp [DriverPhase.handsBack])
      · exact holds
    cases started with
    | none => exact registered
    | some task =>
      obtain ⟨noneUnderway, noVerdict, noneHandsBack⟩ := atRest
      refine Rest.start ?_ ?_ ?_
      · intro other
        rw [State.executedFor_task]
        exact noneUnderway other
      · rw [State.executedFor_result]
        exact noVerdict
      · exact fun other handsBack => noneHandsBack other (State.executedFor_handsBack handsBack)
  | registered driver seen =>
    refine holds.driverTo ?_
    split <;> simp [DriverPhase.handsBack]
  | poll driver => exact holds.polled driver
  | giveUp driver => exact holds.driverTo (by simp [DriverPhase.handsBack])
  | smoke driver passed =>
    have handsBack : (state.driver driver).handsBack := by
      simp [show state.driver driver = .succeeded from enabled, DriverPhase.handsBack]
    exact holds.driverTo fun _ => holds.handedBack driver handsBack
  | setAvailable driver landed => exact holds.frame rfl rfl id
  | leave driver landed =>
    have ended : Rest (state.driverTo driver .ended) :=
      holds.driverTo (by simp [DriverPhase.handsBack])
    simp only [next]
    split
    · exact ended
    · exact ended.frame rfl rfl id
  | readConfig task fails =>
    have launched : state.task task = .launched := enabled
    exact holds.taskTo (by simp [launched, TaskPhase.unfinished])
  | writeRunning task landed =>
    obtain ⟨config, configured⟩ := enabled
    simp only [next, configured]
    have reported : Rest (state.taskTo task (.reported config)) :=
      holds.taskTo (by simp [configured, TaskPhase.unfinished])
    refine reported.frame rfl rfl ?_
    cases landed with
    | true => simp [written, ResultFile.isDone]
    | false => exact id
  | launch task found =>
    obtain ⟨config, reported⟩ := enabled
    have underway : (state.task task).unfinished := by simp [reported, TaskPhase.unfinished]
    cases config with
    | none => simp only [next, reported]; exact holds.taskTo fun _ => underway
    | some config => simp only [next, reported]; exact holds.taskTo fun _ => underway
  | acquire task processAlive =>
    obtain ⟨config, executing, _⟩ := enabled
    have underway : (state.task task).unfinished := by simp [executing, TaskPhase.unfinished]
    simp only [next, executing]
    split
    · exact holds.taskTo fun _ => underway
    · have provisioning : Rest (state.taskTo task (.executing config .provisioning)) :=
        holds.taskTo fun _ => underway
      exact provisioning.frame rfl rfl id
  | exit task succeeded =>
    obtain ⟨config, refusing | provisioning⟩ := enabled
    · have underway : (state.task task).unfinished := by simp [refusing, TaskPhase.unfinished]
      simp only [next, refusing]
      have isExited : Rest (state.taskTo task (.exited (some config) exitLeaseHeld)) :=
        holds.taskTo fun _ => underway
      exact isExited.frame rfl rfl id
    · have underway : (state.task task).unfinished := by simp [provisioning, TaskPhase.unfinished]
      simp only [next, provisioning]
      have isExited : Rest
          (state.taskTo task (.exited (some config) (if succeeded then 0 else 1))) :=
        holds.taskTo fun _ => underway
      exact isExited.frame rfl rfl id
  | writeDone task landed =>
    obtain ⟨config, rc, isExited⟩ := enabled
    simp only [next, isExited]
    exact holds.writeDone (by simp [isExited, TaskPhase.unfinished]) landed _
  | kill task => exact holds.taskTo (by simp [TaskPhase.unfinished])
  | tick seconds => exact holds.frame rfl rfl id

omit [DecidableEq Driver] [DecidableEq Task] in
theorem Rest.initially (start : State Driver Task) (initial : Initial parties start) :
    Rest start where
  single task _ unfinished := by simp [initial.task, TaskPhase.unfinished] at unfinished
  pending task unfinished := by simp [initial.task, TaskPhase.unfinished] at unfinished
  handedBack driver handsBack := by simp [initial.driver, DriverPhase.handsBack] at handsBack

omit [DecidableEq Driver] [DecidableEq Task] in
/-- Handing a unit back finds no execute on it. -/
theorem Rest.idle (holds : Rest state) {label : Label Driver Task}
    (enabled : Enabled parties state label) (sets : SetsAvailable label) : Idle state := by
  cases label with
  | setAvailable driver landed =>
    have handsBack : (state.driver driver).handsBack := by
      simp [show state.driver driver = .returning from enabled, DriverPhase.handsBack]
    exact fun task runs =>
      holds.handedBack driver handsBack task (TaskPhase.unfinished_of_runsExecute runs)
  | _ => exact sets.elim

/-- In every run that starts its tasks at rest, no execute process is running at
any moment the driver writes `available: true`. -/
theorem available_is_idle {start : State Driver Task}
    {trace : List (System.Taken (State Driver Task) (Label Driver Task))}
    (run : (system fold parties).Run start trace state)
    (atRest : ∀ taken ∈ trace, StartsAtRest taken.1 taken.2) :
    ∀ taken ∈ trace, SetsAvailable taken.2 → Idle taken.1 := by
  have preserved : ∀ state label, Rest state → StartsAtRest state label →
      Enabled parties state label → Rest (next fold parties state label) :=
    fun _ _ holds atRest enabled => holds.step atRest enabled
  exact run.everyStep Rest.initially preserved
    (fun _ _ holds _ enabled sets => holds.idle enabled sets) atRest

/-- A run that goes well, up to the unit being handed back. -/
def handBackLabels : List (Label Bool Bool) :=
  wellLabels ++ [.smoke true true, .setAvailable true true]

theorem handBack_follows : (system foldCase twoRuns).Follows untouched handBackLabels := by
  simp [handBackLabels, wellLabels, registerLabels, launchLabels, System.Follows, system, Enabled,
    next, untouched, written, State.driverTo, State.taskTo, State.executedFor, State.polled,
    DriverPhase.hasRegistered, Lease.leaseHeld, exitLeaseHeld]

theorem handBack_atRest : ∀ taken ∈ (system foldCase twoRuns).steps untouched handBackLabels,
    StartsAtRest taken.1 taken.2 := by
  simp [handBackLabels, wellLabels, registerLabels, launchLabels, System.steps, system,
    StartsAtRest, next, untouched, written, State.driverTo, State.taskTo, State.executedFor,
    TaskPhase.unfinished, DriverPhase.handsBack, ResultFile.isDone]

/-- A run that goes well meets the condition. -/
theorem available_is_idle_handBack :
    (system foldCase twoRuns).Follows untouched handBackLabels ∧
      ∀ taken ∈ (system foldCase twoRuns).steps untouched handBackLabels,
        SetsAvailable taken.2 → Idle taken.1 :=
  ⟨handBack_follows, available_is_idle (.ofLabels untouched_initial handBack_follows) handBack_atRest⟩

/-- The response to the registration command is dropped and the command is
executed again; the second task finds the lease of the first and is refused. -/
def repeatedRegisterLabels : List (Label Bool Bool) :=
  [.setUnavailable true true, .writeConfig true true, .removeResult true true,
    .startTask true (some true)] ++ launchLabels true true ++ [.acquire true false] ++
  [.removeResult true true, .startTask true (some false), .registered true true] ++
    launchLabels false true ++ [.acquire false true, .exit false true, .writeDone false true,
      .poll true]

theorem repeatedRegister_follows : (system foldCase twoRuns).Follows untouched
    (repeatedRegisterLabels ++ [.setAvailable true true]) := by
  simp [repeatedRegisterLabels, launchLabels, System.Follows, system, Enabled, next, untouched,
    written, State.driverTo, State.taskTo, State.executedFor, State.polled,
    DriverPhase.hasRegistered, Lease.leaseHeld, exitLeaseHeld, Lease.newLeaseObject,
    detachedInputs, twoRuns, Function.update_apply, TaskPhase.unfinished]

/-- Without the condition a refused run hands the unit back while the execute
that its own registration started is running. -/
theorem available_while_executing :
    ¬ ∀ (start state : State Bool Bool) trace, (system foldCase twoRuns).Run start trace state →
      ∀ taken ∈ trace, SetsAvailable taken.2 → Idle taken.1 := by
  intro idle
  have atRest : Idle ((system foldCase twoRuns).after untouched repeatedRegisterLabels) := by
    refine idle _ _ _ (.ofLabels untouched_initial repeatedRegister_follows)
      ((system foldCase twoRuns).after untouched repeatedRegisterLabels, .setAvailable true true)
      ?_ trivial
    simp [repeatedRegisterLabels, launchLabels, System.steps, System.after]
  exact atRest true trivial

end MastProvisioning.Unit.Detached
