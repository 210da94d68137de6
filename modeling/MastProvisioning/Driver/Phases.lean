import MastProvisioning.Driver.ProcessUnit

/-!
# What each phase does

When a phase goes on, and what it leaves of the driver's record and of the unit.
Each helper of `_process_unit` has one specification; what a whole cycle does is
put together from them.
-/

namespace MastProvisioning.Driver

open MastProvisioning.Collections MastProvisioning.Semantics MastProvisioning.Unit
open MastProvisioning.Semantics.Command

/-- The stand-down is reported and reports nothing bad. -/
def Answers.standsDown (answers : Answers) : Prop :=
  ∃ states, answers.standDown.states = some (some states) ∧ standDownBad states = []

/-- The build exits 0 with this manifest. -/
def Answers.builds (answers : Answers) (file : ManifestFile) : Prop :=
  answers.build = .exited 0 (some file)

/-- The payload is put on the relay. -/
def Answers.syncs (answers : Answers) : Prop :=
  ∃ returncode, answers.relaySync = .finished true returncode

/-- The transfer is taken for complete. -/
def Answers.transfers (unit : UnitEntry) (answers : Answers) : Prop :=
  (unit.relayed = true → answers.credential = some true) ∧ answers.pullScript = true ∧
    ∃ size result, answers.stagingSize = some size ∧ answers.pull = .finished result ∧
      pullFailure size result = none

/-- The execute is started and polled to its end, with this exit code. -/
def Answers.executes (answers : Answers) (exitCode : Int) : Prop :=
  answers.detachedInputs = true ∧ answers.sharedUser = true ∧ answers.sharedPlain = true ∧
    answers.sharedBlob = true ∧ answers.detachedRunner = true ∧ answers.register = some true ∧
    pollResult answers.polls none = some (.record (some "done") (some exitCode))

/-- The execute is refused because another run holds the lease. -/
def Answers.refuses (answers : Answers) : Prop :=
  answers.executes executeExitLeaseHeld ∧ answers.leaseRead = true

/-- The smoke check finds every module's marker. -/
def Answers.smokes (answers : Answers) (modules : List String) : Prop :=
  ∃ results, answers.smoke = some results ∧ smokeFails (results.getD []) modules = []

/-- The cycle gets to the stand-down. -/
def Answers.reachesStandDown (answers : Answers) : Prop :=
  answers.address ≠ .malformed ∧ (answers.sshOpen || answers.winrmOpen) = true ∧
    answers.connects = true ∧ answers.reclaims = true

instance (answers : Answers) : Decidable answers.reachesStandDown :=
  inferInstanceAs (Decidable (_ ∧ _ ∧ _ ∧ _))

/-- The cycle asks whether the unit can open SMB to the staging host. -/
def Answers.reachesStaging (answers : Answers) : Prop :=
  answers.reachesStandDown ∧ answers.standsDown ∧ answers.installed ≠ none ∧
    answers.validation ≠ none

/-- The cycle runs the build. -/
def Answers.reachesBuild (answers : Answers) : Prop :=
  answers.reachesStaging ∧ answers.smbReach = some true

/-- Phase 5 decides to run these modules of the build. -/
def Answers.decides (config : Config) (unit : UnitEntry) (answers : Answers) (file : ManifestFile)
    (targetModules : List String) : Prop :=
  (config.options.force || answers.classifies) = true ∧
    ∃ installed validation, answers.installed = some installed ∧
      answers.validation = some validation ∧
      decideTargets config.tree config.options (resolveModules config.tree unit.modules) installed
        file.content validation = .run targetModules

/-- The dry-run and the maintenance gate let a cycle through that has work to do. -/
def Answers.passesGates (config : Config) (unit : UnitEntry) (answers : Answers) : Prop :=
  answers.reachesBuild ∧
    (∃ file targetModules, answers.builds file ∧ file.hashed = true ∧
      answers.decides config unit file targetModules) ∧
    config.dryRun = false ∧
    inMaintenanceWindow unit.maintenanceWindow config.maintWindowStart config.maintWindowEnd
      answers.hour = true

/-- The cycle puts the payload where the unit can reach it. -/
def Answers.reachesRelay (config : Config) (unit : UnitEntry) (answers : Answers) : Prop :=
  answers.passesGates config unit ∧ answers.excludes = true

/-- The cycle marks the unit unavailable. -/
def Answers.reachesMarking (config : Config) (unit : UnitEntry) (answers : Answers) : Prop :=
  answers.reachesRelay config unit ∧ (unit.relayed = true → answers.syncs)

/-- A row of failure the heartbeat counts, or a row of no failure. -/
def RowOutcome.Counted (outcome : RowOutcome) : Prop :=
  outcome.inFailStates = outcome.isFailure

instance (outcome : RowOutcome) : Decidable outcome.Counted :=
  inferInstanceAs (Decidable (_ = _))

/-- One row was logged for the unit. -/
def Logs (hostname : String) (holds : Activity → Prop) (before after : Cycle) : Prop :=
  ∃ row, after.record = before.record.logged [row] ∧ row.unit = hostname ∧ holds row

/-- A row of failure that the heartbeat counts. -/
def CountedFailure (row : Activity) : Prop :=
  row.outcome.isFailure = true ∧ row.outcome.Counted

/-- What a phase leaves: the record unchanged when it goes on; otherwise a row of
failure that the heartbeat counts. -/
def Settles (hostname : String) (before : Cycle) (goesOn : Prop) (ok : Bool) (after : Cycle) :
    Prop :=
  (ok = true ∧ goesOn ∧ after.record = before.record) ∨
    (ok = false ∧ ¬ goesOn ∧ Logs hostname CountedFailure before after)

theorem Logs.row {hostname reason payloadHash gitSha : String} {outcome : RowOutcome}
    {holds : Activity → Prop} {before cycle : Cycle} (same : cycle.record = before.record)
    (holdsRow : holds ⟨hostname, outcome, reason, payloadHash, gitSha⟩) :
    Logs hostname holds before
      { cycle with record := cycle.record.logged [⟨hostname, outcome, reason, payloadHash, gitSha⟩] } :=
  ⟨⟨hostname, outcome, reason, payloadHash, gitSha⟩, by rw [same], rfl, holdsRow⟩

/-- What a phase leaves that raises before it has logged a row. -/
def Breaks (before : Cycle) (goesOn : Prop) (after : Cycle) : Prop :=
  ¬ goesOn ∧ after.record = before.record

/-- What a phase leaves of the unit, besides the steps it takes. -/
structure Leaves (allowed : Step → Prop) (before after : Cycle) : Prop where
  availability : after.machine.availability = before.machine.availability
  leaseHeld : after.leaseHeld = before.leaseHeld
  steps : ∃ more, after.machine.steps = before.machine.steps ++ more ∧ ∀ step ∈ more, allowed step

namespace Leaves

variable {allowed : Step → Prop} {before middle after : Cycle}

theorem refl : Leaves allowed before before :=
  ⟨rfl, rfl, [], by simp, by simp⟩

theorem trans (first : Leaves allowed before middle) (second : Leaves allowed middle after) :
    Leaves allowed before after := by
  obtain ⟨some, isSome, someAllowed⟩ := first.steps
  obtain ⟨more, isMore, moreAllowed⟩ := second.steps
  refine ⟨second.availability.trans first.availability, second.leaseHeld.trans first.leaseHeld,
    some ++ more, by rw [isMore, isSome, List.append_assoc], ?_⟩
  intro step member
  rcases List.mem_append.mp member with member | member
  · exact someAllowed step member
  · exact moreAllowed step member

theorem step (step : Step) (isAllowed : allowed step) :
    Leaves allowed before { before with machine := before.machine.step step } :=
  ⟨rfl, rfl, [step], rfl, by simpa using isAllowed⟩

theorem mono {weaker : Step → Prop} (leaves : Leaves allowed before after)
    (allows : ∀ step, allowed step → weaker step) : Leaves weaker before after := by
  obtain ⟨more, isMore, moreAllowed⟩ := leaves.steps
  exact ⟨leaves.availability, leaves.leaseHeld, more, isMore, fun step member =>
    allows step (moreAllowed step member)⟩

end Leaves

section Rules

variable {mode : Mode} {unit : UnitEntry} {answers : Answers} {cycle : Cycle}
  {Value : Type} {next : Unit → Command Cycle Value} {finished : Value → Cycle → Prop}
  {failed : Cycle → Prop} {outcome : RowOutcome} {reason payloadHash gitSha : String}

theorem logFailure_meets (isFailure : outcome.isFailure = true) :
    Meets mode (logFailure unit outcome reason payloadHash gitSha) cycle
      (fun _ after => after =
        { cycle with record := cycle.record.logged [⟨unit.hostname, outcome, reason, payloadHash, gitSha⟩] })
      failed := by
  refine .update_bind (.update ?_)
  simp [Record.logged, isFailure]

theorem logFailure_bind (isFailure : outcome.isFailure = true)
    (meets : Meets mode (next ())
      { cycle with record := cycle.record.logged [⟨unit.hostname, outcome, reason, payloadHash, gitSha⟩] }
      finished failed) :
    Meets mode (logFailure unit outcome reason payloadHash gitSha >>= next) cycle finished failed := by
  refine (logFailure_meets isFailure).bind ?_
  rintro ⟨⟩ _ rfl
  exact meets

theorem logRow_bind (passes : outcome.isFailure = false)
    (meets : Meets mode (next ())
      { cycle with record := cycle.record.logged [⟨unit.hostname, outcome, reason, payloadHash, gitSha⟩] }
      finished failed) :
    Meets mode (logRow unit outcome reason payloadHash gitSha >>= next) cycle finished failed := by
  refine .update_bind ?_
  simpa [Record.logged, passes] using meets

theorem takeStep_bind {step : Step}
    (meets : Meets mode (next ()) { cycle with machine := cycle.machine.step step } finished failed) :
    Meets mode (takeStep step >>= next) cycle finished failed :=
  .update_bind meets

theorem writeOnUnit_bind {path : String} {returned : Bool}
    (onDone : returned = true → Meets mode (next ())
      { cycle with machine := cycle.machine.step (.write path) } finished failed)
    (onFail : returned = false → failed { cycle with machine := cycle.machine.step (.write path) }) :
    Meets mode (writeOnUnit answers path returned >>= next) cycle finished failed := by
  let middle : Unit → Cycle → Prop := fun _ state =>
    returned = true ∧ state = { cycle with machine := cycle.machine.step (.write path) }
  have writes : Meets mode (writeOnUnit answers path returned) cycle middle failed :=
    .update_bind (.require (fun isReturned => ⟨isReturned, rfl⟩) onFail)
  refine writes.bind ?_
  rintro ⟨⟩ _ ⟨isReturned, rfl⟩
  exact onDone isReturned

theorem writeAvailability_bind {sent : Sent} {availability : Availability}
    (onDone : sent.returned = true → Meets mode (next ())
      { cycle with machine := cycle.machine.sendAvailability sent availability } finished failed)
    (onFail : sent.returned = false →
      failed { cycle with machine := cycle.machine.sendAvailability sent availability }) :
    Meets mode (writeAvailability answers sent availability >>= next) cycle finished failed := by
  let middle : Unit → Cycle → Prop := fun _ state =>
    sent.returned = true ∧
      state = { cycle with machine := cycle.machine.sendAvailability sent availability }
  have writes : Meets mode (writeAvailability answers sent availability) cycle middle failed :=
    .update_bind (.require (fun isReturned => ⟨isReturned, rfl⟩) onFail)
  refine writes.bind ?_
  rintro ⟨⟩ _ ⟨isReturned, rfl⟩
  exact onDone isReturned

end Rules

section Specifications

variable {config : Config} {unit : UnitEntry} {answers : Answers} {cycle : Cycle}
  {payloadHash gitSha : String}

/-- A phase that logs a failure and does not go on. -/
theorem fails_meets {goesOn : Prop} {allowed : Step → Prop} {before : Cycle} {broken : Cycle → Prop}
    {outcome : RowOutcome} {reason : String} (isFailure : outcome.isFailure = true)
    (counted : outcome.Counted) (stops : ¬ goesOn) (same : cycle.record = before.record)
    (leaves : Leaves allowed before cycle) :
    Meets .reliable (do logFailure unit outcome reason payloadHash gitSha; pure false) cycle
      (fun ok after => Settles unit.hostname before goesOn ok after ∧ Leaves allowed before after)
      broken := by
  refine logFailure_bind isFailure (.pure ⟨.inr ⟨rfl, stops, .row same ⟨isFailure, counted⟩⟩, ?_⟩)
  exact ⟨leaves.availability, leaves.leaseHeld, leaves.steps⟩

/-- A phase that goes on. -/
theorem goesOn_meets {goesOn : Prop} {allowed : Step → Prop} {before : Cycle} {broken : Cycle → Prop}
    (passes : goesOn) (same : cycle.record = before.record) (leaves : Leaves allowed before cycle) :
    Meets .reliable (pure true) cycle
      (fun ok after => Settles unit.hostname before goesOn ok after ∧ Leaves allowed before after)
      broken :=
  .pure ⟨.inl ⟨rfl, passes, same⟩, leaves⟩

theorem stagingCredential_meets :
    Meets .reliable (stagingCredential unit answers payloadHash gitSha) cycle
      (fun ok after =>
        Settles unit.hostname cycle (unit.relayed = true → answers.credential = some true) ok after ∧
          Leaves (fun _ => False) cycle after)
      (fun after => Breaks cycle (unit.relayed = true → answers.credential = some true) after ∧
        Leaves (fun _ => False) cycle after) := by
  refine .ite (fun relayed => ?_) fun direct => ?_
  · refine .expect_bind (fun found isFound => ?_) fun isNone => ?_
    · refine .ite (fun holds => ?_) fun fails => ?_
      · exact goesOn_meets (fun _ => by rw [isFound, holds]) rfl .refl
      · refine fails_meets rfl rfl (fun passes => ?_) rfl .refl
        obtain rfl := Option.some.inj (isFound.symm.trans (passes relayed))
        exact fails rfl
    · refine ⟨⟨fun passes => ?_, rfl⟩, .refl⟩
      rw [isNone] at passes
      cases passes relayed
  · exact goesOn_meets (fun relayed => absurd relayed direct) rfl .refl

/-- The cycle where its transfer starts. -/
def Cycle.transferring (cycle : Cycle) : Cycle :=
  { cycle with machine := cycle.machine.step (.transfer cycle.machine.availability) }

/-- A step that writes a file other than the availability file. -/
def WriteStep (step : Step) : Prop :=
  ∃ path, step = .write path

theorem transfer_meets :
    Meets .reliable (transfer unit answers payloadHash gitSha) cycle
      (fun ok after => Settles unit.hostname cycle (answers.transfers unit) ok after ∧
        Leaves WriteStep cycle.transferring after)
      (fun after => Breaks cycle (answers.transfers unit) after ∧
        Leaves WriteStep cycle.transferring after) := by
  have fails {middle : Cycle} {reason : String} (stops : ¬ answers.transfers unit)
      (same : middle.record = cycle.record) (leaves : Leaves WriteStep cycle.transferring middle) :
      Meets .reliable (do logFailure unit .transferFail reason payloadHash gitSha; pure false) middle
        (fun ok after => Settles unit.hostname cycle (answers.transfers unit) ok after ∧
          Leaves WriteStep cycle.transferring after)
        (fun after => Breaks cycle (answers.transfers unit) after ∧
          Leaves WriteStep cycle.transferring after) := by
    refine logFailure_bind rfl (.pure ⟨.inr ⟨rfl, stops, .row same ⟨rfl, rfl⟩⟩, ?_⟩)
    exact ⟨leaves.availability, leaves.leaseHeld, leaves.steps⟩
  refine .update_bind (Meets.bind (stagingCredential_meets.mono (fun _ _ => id) ?_) ?_)
  · rintro after ⟨⟨stops, same⟩, leaves⟩
    exact ⟨⟨fun passes => stops passes.1, same⟩, leaves.mono (by simp)⟩
  rintro ok middle ⟨settles, untouched⟩
  have leaves : Leaves WriteStep cycle.transferring middle := untouched.mono (by simp)
  rcases settles with ⟨rfl, credential, same⟩ | ⟨rfl, stops, logs⟩
  · refine .expect_bind (fun size isSize => ?_) fun isNone => ?_
    · refine writeOnUnit_bind (fun uploaded => ?_) fun missing => ?_
      · have ready := leaves.trans (.step (.write unitPullScript) ⟨_, rfl⟩)
        split
        · rename_i raised
          refine .exit ⟨⟨?_, same⟩, ready⟩
          rintro ⟨_, _, _, _, _, isPull, _⟩
          cases raised.symm.trans isPull
        · rename_i timedOut
          refine fails ?_ same ready
          rintro ⟨_, _, _, _, _, isPull, _⟩
          cases timedOut.symm.trans isPull
        · rename_i result isPull
          split
          · rename_i reason isFailure
            refine fails ?_ same ready
            rintro ⟨_, _, size', result', isSize', isPull', passes⟩
            obtain rfl := Option.some.inj (isSize.symm.trans isSize')
            obtain rfl := Pull.finished.inj (isPull.symm.trans isPull')
            cases isFailure.symm.trans passes
          · rename_i passes
            exact .pure ⟨.inl ⟨rfl, ⟨credential, uploaded, size, result, isSize, isPull, passes⟩,
              same⟩, ready⟩
      · refine ⟨⟨fun passes => ?_, same⟩, leaves.trans (.step _ ⟨_, rfl⟩)⟩
        cases missing.symm.trans passes.2.1
    · refine ⟨⟨?_, same⟩, leaves⟩
      rintro ⟨_, _, _, _, isSize, _⟩
      cases isNone.symm.trans isSize
  · exact .pure ⟨.inr ⟨rfl, fun passes => stops passes.1, logs⟩, leaves⟩

/-- The steps of an execute that starts with an availability file. -/
def ExecuteStep (found : AvailabilityFile) (step : Step) : Prop :=
  step = .execute found ∨ (∃ path, step = .write path) ∨ step = .registerTask ∨ step = .deleteTask

/-- What an execute leaves of the record: nothing when it succeeded, a row of no
failure when it was refused, a row of failure otherwise. -/
def Executed (hostname : String) (answers : Answers) (before : Cycle) (ok : Bool) (after : Cycle) :
    Prop :=
  (ok = true ∧ answers.executes 0 ∧ after.record = before.record) ∨
    (ok = false ∧ answers.refuses ∧ after.executeRefused = true ∧
      Logs hostname (fun row => row.outcome = .skip ∧ row.reason = "lease_held") before after) ∨
    (ok = false ∧ ¬ (answers.executes 0 ∨ answers.refuses) ∧
      after.executeRefused = before.executeRefused ∧ Logs hostname CountedFailure before after)

theorem Answers.executes_unique {answers : Answers} {code other : Int}
    (executes : answers.executes code) (also : answers.executes other) : code = other := by
  obtain ⟨_, _, _, _, _, _, isCode⟩ := executes
  obtain ⟨_, _, _, _, _, _, isOther⟩ := also
  simpa [isCode] using isOther

/-- The verdict of an execute whose polls are over. -/
theorem executeVerdict_meets {exitCode : Option Int} {before : Cycle}
    (executes : ∀ code, exitCode = some code → answers.executes code)
    (stops : exitCode = none → ∀ code, ¬ answers.executes code)
    (same : cycle.record = before.record) (refused : cycle.executeRefused = before.executeRefused)
    (leaves : Leaves (ExecuteStep before.machine.availability) before cycle) :
    Meets .reliable
      (do
        let rc ← Command.expect answers.exception exitCode
        if rc = executeExitLeaseHeld then
          Command.require answers.leaseRead answers.exception
          logRow unit .skip "lease_held" payloadHash gitSha
          Command.update fun cycle => { cycle with executeRefused := true }
          pure false
        else if rc ≠ 0 then
          logFailure unit .executeFail ("exit_" ++ toString rc) payloadHash gitSha
          pure false
        else pure true) cycle
      (fun ok after => Executed unit.hostname answers before ok after ∧
        Leaves (ExecuteStep before.machine.availability) before after)
      (fun after => Breaks before (answers.executes 0 ∨ answers.refuses) after ∧
        Leaves (ExecuteStep before.machine.availability) before after) := by
  refine .expect_bind (fun rc isRc => ?_) fun isNone => ?_
  · have code := executes rc isRc
    refine .ite (fun held => ?_) fun other => .ite (fun nonzero => ?_) fun zero => ?_
    · subst held
      let refusal : Activity := ⟨unit.hostname, .skip, "lease_held", payloadHash, gitSha⟩
      refine .require_bind (fun read => logRow_bind rfl (.update_bind (.pure ⟨.inr (.inl ?_), ?_⟩)))
        fun unread => ⟨⟨?_, same⟩, leaves⟩
      · exact ⟨rfl, ⟨code, read⟩, rfl, refusal, by simp [same, refusal], rfl, rfl, rfl⟩
      · exact ⟨leaves.availability, leaves.leaseHeld, leaves.steps⟩
      · rintro (zero | ⟨_, read⟩)
        · cases Answers.executes_unique code zero
        · cases unread.symm.trans read
    · refine logFailure_bind rfl (.pure ⟨.inr (.inr ⟨rfl, ?_, refused, .row same ⟨rfl, rfl⟩⟩), ?_⟩)
      · rintro (zero | ⟨held, _⟩)
        · exact nonzero (Answers.executes_unique code zero)
        · exact other (Answers.executes_unique code held)
      · exact ⟨leaves.availability, leaves.leaseHeld, leaves.steps⟩
    · obtain rfl : rc = 0 := by simpa using zero
      exact .pure ⟨.inl ⟨rfl, code, same⟩, leaves⟩
  · refine ⟨⟨?_, same⟩, leaves⟩
    rintro (zero | ⟨held, _⟩)
    · exact stops isNone 0 zero
    · exact stops isNone _ held

/-- One write of an execute: where it does not come back, the execute stops. -/
theorem executeWrite_bind {before : Cycle} {path : String} {returned : Bool}
    {next : Unit → Command Cycle Bool} {finished : Bool → Cycle → Prop}
    (needed : ∀ code, answers.executes code → returned = true)
    (same : cycle.record = before.record) (refused : cycle.executeRefused = before.executeRefused)
    (leaves : Leaves (ExecuteStep before.machine.availability) before cycle)
    (onDone : ∀ after, after.record = before.record →
      after.executeRefused = before.executeRefused →
      Leaves (ExecuteStep before.machine.availability) before after → returned = true →
      Meets .reliable (next ()) after finished
        (fun after => Breaks before (answers.executes 0 ∨ answers.refuses) after ∧
          Leaves (ExecuteStep before.machine.availability) before after)) :
    Meets .reliable (writeOnUnit answers path returned >>= next) cycle finished
      (fun after => Breaks before (answers.executes 0 ∨ answers.refuses) after ∧
        Leaves (ExecuteStep before.machine.availability) before after) := by
  have written : Leaves (ExecuteStep before.machine.availability) before
      { cycle with machine := cycle.machine.step (.write path) } :=
    leaves.trans (.step _ (.inr (.inl ⟨path, rfl⟩)))
  refine writeOnUnit_bind (onDone _ same refused written) fun missing => ⟨⟨?_, same⟩, written⟩
  rintro (zero | ⟨held, _⟩)
  · cases missing.symm.trans (needed 0 zero)
  · cases missing.symm.trans (needed _ held)

theorem execute_meets :
    Meets .reliable (execute unit answers payloadHash gitSha) cycle
      (fun ok after => Executed unit.hostname answers cycle ok after ∧
        Leaves (ExecuteStep cycle.machine.availability) cycle after)
      (fun after => Breaks cycle (answers.executes 0 ∨ answers.refuses) after ∧
        Leaves (ExecuteStep cycle.machine.availability) cycle after) := by
  have start : Leaves (ExecuteStep cycle.machine.availability) cycle
      { cycle with machine := cycle.machine.step (.execute cycle.machine.availability) } :=
    .step _ (.inl rfl)
  refine .update_bind (executeWrite_bind (fun _ executes => executes.1) rfl rfl start ?_)
  intro _ same refused leaves first
  refine executeWrite_bind (fun _ executes => executes.2.1) same refused leaves ?_
  intro _ same refused leaves second
  refine executeWrite_bind (fun _ executes => executes.2.2.1) same refused leaves ?_
  intro _ same refused leaves third
  refine executeWrite_bind (fun _ executes => executes.2.2.2.1) same refused leaves ?_
  intro _ same refused leaves fourth
  refine executeWrite_bind (fun _ executes => executes.2.2.2.2.1) same refused leaves ?_
  intro ready same refused leaves fifth
  have registered := leaves.trans (.step .registerTask (.inr (.inr (.inl rfl))))
  refine takeStep_bind (.expect_bind (fun marker isMarker => ?_) fun isNone => ⟨⟨?_, same⟩, registered⟩)
  · refine .ite (fun found => ?_) fun absent => ?_
    · subst found
      have polled := registered.trans (.step .deleteTask (.inr (.inr (.inr rfl))))
      have stops (result : Option PollRecord) (isResult : pollResult answers.polls none = result)
          (other : ∀ code, result ≠ some (.record (some "done") (some code))) :
          ¬ (answers.executes 0 ∨ answers.refuses) := by
        rintro (zero | ⟨held, _⟩)
        · exact other _ (isResult.symm.trans zero.2.2.2.2.2.2)
        · exact other _ (isResult.symm.trans held.2.2.2.2.2.2)
      refine takeStep_bind ?_
      split
      · rename_i isResult
        exact .exit ⟨⟨stops _ isResult (by simp), same⟩, polled⟩
      · rename_i exitCode isResult
        refine executeVerdict_meets (fun code isCode => ?_) (fun isNone code executes => ?_) same
          refused polled
        · exact ⟨first, second, third, fourth, fifth, isMarker, by rw [isResult, isCode]⟩
        · have isCode := executes.2.2.2.2.2.2
          simp [isResult, isNone] at isCode
      · rename_i notMisfit notDone
        refine logFailure_bind rfl (.pure ⟨.inr (.inr ⟨rfl, ?_, refused, ?_⟩), ?_⟩)
        · exact stops _ rfl fun code => notDone (some code)
        · exact .row same ⟨rfl, rfl⟩
        · exact ⟨polled.availability, polled.leaseHeld, polled.steps⟩
    · refine logFailure_bind rfl (.pure ⟨.inr (.inr ⟨rfl, ?_, refused, ?_⟩), ?_⟩)
      · rintro (zero | ⟨held, _⟩)
        · exact absent (Option.some.inj (isMarker.symm.trans zero.2.2.2.2.2.1))
        · exact absent (Option.some.inj (isMarker.symm.trans held.2.2.2.2.2.1))
      · exact .row same ⟨rfl, rfl⟩
      · exact ⟨registered.availability, registered.leaseHeld, registered.steps⟩
  · rintro (zero | ⟨held, _⟩)
    · cases isNone.symm.trans zero.2.2.2.2.2.1
    · cases isNone.symm.trans held.2.2.2.2.2.1

theorem smoke_meets {modules : List String} :
    Meets .reliable (smoke unit answers modules payloadHash gitSha) cycle
      (fun ok after => Settles unit.hostname cycle (answers.smokes modules) ok after ∧
        Leaves (fun _ => False) cycle after)
      (fun after => Breaks cycle (answers.smokes modules) after ∧ Leaves (fun _ => False) cycle after) := by
  refine .expect_bind (fun results isResults => ?_) fun isNone => ?_
  · refine .ite (fun some => ?_) fun none => ?_
    · refine fails_meets rfl rfl ?_ rfl .refl
      rintro ⟨others, isOthers, passes⟩
      obtain rfl := Option.some.inj (isResults.symm.trans isOthers)
      exact some passes
    · exact goesOn_meets ⟨results, isResults, by simpa using none⟩ rfl .refl
  · refine ⟨⟨?_, rfl⟩, .refl⟩
    rintro ⟨_, isSome, _⟩
    cases isNone.symm.trans isSome

/-- The row of a failed relay sync is no row the heartbeat counts. -/
theorem syncToRelay_meets :
    Meets .reliable (syncToRelay unit answers payloadHash gitSha) cycle
      (fun ok after => Leaves (fun _ => False) cycle after ∧
        ((ok = true ∧ answers.syncs ∧ after.record = cycle.record) ∨
          (ok = false ∧ ¬ answers.syncs ∧ answers.relaySync ≠ .raised ∧
            Logs unit.hostname (fun row => row.outcome = .relaySyncFail) cycle after)))
      (fun after => Breaks cycle answers.syncs after ∧ answers.relaySync = .raised ∧
        Leaves (fun _ => False) cycle after) := by
  unfold syncToRelay
  split
  · rename_i raised
    refine .exit ⟨⟨?_, rfl⟩, raised, .refl⟩
    rintro ⟨_, finished⟩
    cases raised.symm.trans finished
  · rename_i missing
    refine logFailure_bind rfl (.pure ⟨⟨rfl, rfl, [], by simp, by simp⟩, .inr ⟨rfl, ?_, ?_, .row rfl rfl⟩⟩)
    · rintro ⟨_, finished⟩
      cases missing.symm.trans finished
    · simp [missing]
  · rename_i ok returncode result
    refine .ite (fun holds => ?_) fun fails => ?_
    · exact .pure ⟨.refl, .inl ⟨rfl, ⟨returncode, by rw [result, holds]⟩, rfl⟩⟩
    · refine logFailure_bind rfl (.pure ⟨⟨rfl, rfl, [], by simp, by simp⟩, .inr ⟨rfl, ?_, ?_, .row rfl rfl⟩⟩)
      · rintro ⟨other, finished⟩
        obtain ⟨rfl, _⟩ := RelaySync.finished.inj (result.symm.trans finished)
        exact fails rfl
      · simp [result]

/-- A build that hands over a payload hash, one that hands over none, and one that
failed or whose manifest could not be read. -/
theorem build_meets :
    Meets .reliable (build unit answers) cycle
      (fun built after => Leaves (fun _ => False) cycle after ∧
        ((∃ file, built = some (file.content.payloadHash, file) ∧ answers.builds file ∧
            file.hashed = true ∧ after.record = cycle.record) ∨
          (built = none ∧ (∃ file, answers.builds file ∧ file.hashed = false) ∧
            after.record = cycle.record) ∨
          (built = none ∧ (∀ file, ¬ answers.builds file) ∧
            Logs unit.hostname CountedFailure cycle after)))
      (fun after => (∀ file, ¬ answers.builds file) ∧ after.record = cycle.record ∧
        Leaves (fun _ => False) cycle after) := by
  unfold build
  split
  · rename_i timedOut
    refine logFailure_bind rfl (.pure ⟨⟨rfl, rfl, [], by simp, by simp⟩, .inr (.inr ⟨rfl, ?_, ?_⟩)⟩)
    · exact fun file exited => by cases timedOut.symm.trans exited
    · exact .row rfl ⟨rfl, rfl⟩
  · rename_i code manifest exited
    refine .ite (fun nonzero => ?_) fun zero => ?_
    · refine logFailure_bind rfl (.pure ⟨⟨rfl, rfl, [], by simp, by simp⟩, .inr (.inr ⟨rfl, ?_, ?_⟩)⟩)
      · intro file exits
        exact nonzero (BuildRun.exited.inj (exited.symm.trans exits)).1
      · exact .row rfl ⟨rfl, rfl⟩
    · obtain rfl : code = 0 := by simpa using zero
      refine .expect_bind (fun file isFile => .pure ⟨.refl, ?_⟩) fun isNone => ⟨?_, rfl, .refl⟩
      · subst isFile
        cases hashed : file.hashed with
        | true =>
          exact .inl ⟨file, by simp [ManifestFile.payloadHash, hashed], exited, hashed, rfl⟩
        | false =>
          exact .inr (.inl ⟨by simp [ManifestFile.payloadHash, hashed], ⟨file, exited, hashed⟩, rfl⟩)
      · intro file exits
        cases isNone.symm.trans (BuildRun.exited.inj (exited.symm.trans exits)).2

/-- A step of the stand-down. -/
def StandDownStep (step : Step) : Prop :=
  ∃ name, step = .stopService name ∨ step = .deleteService name

/-- Removing a service that is there takes a step, whatever comes of it. -/
theorem removeOne_steps (run : StandDownRun) {name : String} {machine : Machine} {service : Service}
    (isThere : machine.service? name = some service) :
    (removeOne run name machine).availability = machine.availability ∧
      ∃ more, (removeOne run name machine).steps = machine.steps ++ more ∧ more ≠ [] ∧
        ∀ step ∈ more, StandDownStep step := by
  have stop : StandDownStep (.stopService name) := ⟨name, .inl rfl⟩
  have delete : StandDownStep (.deleteService name) := ⟨name, .inr rfl⟩
  unfold removeOne
  simp only [isThere]
  cases running : service.running with
  | false =>
    have deleted : ∀ step ∈ [Step.deleteService name], StandDownStep step := by simpa using delete
    by_cases gone : run.deletes name = .removed
    · exact ⟨by simp [gone], _, by simp [gone], by simp, deleted⟩
    · exact ⟨by simp [gone], _, by simp [gone], by simp, deleted⟩
  | true =>
    cases stops : run.stops name with
    | false =>
      exact ⟨by simp, [.stopService name], by simp, by simp, by simpa using stop⟩
    | true =>
      have both : ∀ step ∈ [Step.stopService name, .deleteService name], StandDownStep step := by
        simpa using ⟨stop, delete⟩
      by_cases gone : run.deletes name = .removed
      · exact ⟨by simp [gone], _, by simp [gone], by simp, both⟩
      · exact ⟨by simp [gone], _, by simp [gone], by simp, both⟩

/-- The stand-down script takes a step exactly when it gets to a service it does
something about. -/
theorem standDownScript_steps (run : StandDownRun) (machine : Machine) :
    (standDownScript run machine).availability = machine.availability ∧
      ∃ more, (standDownScript run machine).steps = machine.steps ++ more ∧
        (∀ step ∈ more, StandDownStep step) ∧
        (more = [] ↔ ∀ entry ∈ standDownNames.take run.ran, machine.standsDown entry = false) := by
  unfold standDownScript
  generalize standDownNames.take run.ran = entries
  induction entries generalizing machine with
  | nil => exact ⟨rfl, [], by simp, by simp, by simp⟩
  | cons entry rest ih =>
    rw [List.foldl_cons]
    cases acts : machine.standsDown entry with
    | false =>
      obtain ⟨same, more, isMore, allowed, none⟩ := ih machine
      refine ⟨by simpa using same, more, by simpa using isMore, allowed, ?_⟩
      rw [none]
      simp [acts]
    | true =>
      obtain ⟨service, isThere⟩ : ∃ service, machine.service? entry.1 = some service := by
        unfold Machine.standsDown at acts
        split at acts
        · cases acts
        · exact ⟨_, ‹_›⟩
      obtain ⟨removed, first, isFirst, some, firstAllowed⟩ :=
        removeOne_steps run isThere
      obtain ⟨same, more, isMore, allowed, _⟩ := ih (removeOne run entry.1 machine)
      refine ⟨?_, first ++ more, ?_, ?_, ?_⟩
      · simpa using same.trans removed
      · simpa [isFirst] using isMore
      · intro step member
        rcases List.mem_append.mp member with member | member
        · exact firstAllowed step member
        · exact allowed step member
      · simp [some, acts]

/-- What the stand-down leaves of the unit, whatever is reported. -/
def StoodDown (answers : Answers) (before after : Cycle) : Prop :=
  after.machine = standDownScript answers.standDown before.machine ∧
    after.leaseHeld = before.leaseHeld

theorem standDown_meets :
    Meets .reliable (standDown unit answers) cycle
      (fun ok after => Settles unit.hostname cycle answers.standsDown ok after ∧
        StoodDown answers cycle after)
      (fun after => Breaks cycle answers.standsDown after ∧ StoodDown answers cycle after) := by
  refine .update_bind (.expect_bind (fun reported isReported => ?_) fun isNone => ?_)
  · split
    · refine logFailure_bind rfl (.pure ⟨.inr ⟨rfl, ?_, .row rfl ⟨rfl, rfl⟩⟩, rfl, rfl⟩)
      rintro ⟨states, isStates, _⟩
      cases isReported.symm.trans isStates
    · rename_i states
      refine .ite (fun bad => ?_) fun good => ?_
      · refine logFailure_bind rfl (.pure ⟨.inr ⟨rfl, ?_, .row rfl ⟨rfl, rfl⟩⟩, rfl, rfl⟩)
        rintro ⟨others, isOthers, none⟩
        obtain rfl := Option.some.inj (Option.some.inj (isReported.symm.trans isOthers))
        exact bad none
      · exact .pure ⟨.inl ⟨rfl, ⟨states, isReported, by simpa using good⟩, rfl⟩, rfl, rfl⟩
  · refine ⟨⟨?_, rfl⟩, rfl, rfl⟩
    rintro ⟨_, isSome, _⟩
    cases isNone.symm.trans isSome

/-- The unit as the release leaves it. -/
def Cycle.released (answers : Answers) (cycle : Cycle) : Machine :=
  if cycle.leaseHeld then cycle.machine.sendAvailability answers.release .released
  else cycle.machine

/-- The release never fails: what it raises is logged. -/
theorem releaseAndArchive_meets {failed : Cycle → Prop} :
    Meets .reliable (releaseAndArchive answers) cycle
      (fun _ after => after.record = cycle.record ∧ after.leaseHeld = cycle.leaseHeld ∧
        after.machine = cycle.released answers) failed := by
  refine .query_bind (.ite (fun isHeld => ?_) fun isFree => ?_) (by simp)
  · have held : cycle.leaseHeld = true := isHeld
    let sent : Cycle :=
      { cycle with machine := cycle.machine.sendAvailability answers.release .released }
    have isReleased : sent.machine = cycle.released answers := by rw [Cycle.released, if_pos held]
    have writes : Meets .reliable (writeAvailability answers answers.release .released) cycle
        (fun _ after => after = sent) (fun after => after = sent) :=
      .update_bind (.require (fun _ => rfl) fun _ => rfl)
    refine .ignoreErrors (writes.mono ?_ fun _ => id) ?_ (by simp)
    · rintro _ _ rfl
      exact ⟨rfl, rfl, isReleased⟩
    · rintro _ rfl
      exact ⟨rfl, rfl, isReleased⟩
  · have free : ¬ cycle.leaseHeld = true := isFree
    exact .pure ⟨rfl, rfl, by rw [Cycle.released, if_neg free]⟩

end Specifications

/-- A run of every module with no window set. -/
def Config.plain : Config where
  runId := "run-20260901-010000"
  provIdentity := "mast-prov"
  options := ⟨false, []⟩
  dryRun := false
  maintWindowStart := -1
  maintWindowEnd := -1
  tree := ⟨[], []⟩

/-- The manifest of a build without modules. -/
def ManifestFile.empty : ManifestFile where
  content := ⟨"built", [], [], [], [], ⟨[], []⟩⟩
  hashed := true
  gitSha := "sha"

/-- A unit without services that is provisioned without incident. -/
def Answers.ordinary : Answers where
  address := .resolved
  sshOpen := true
  winrmOpen := true
  connects := true
  reclaims := true
  standDown := ⟨7, fun _ => true, fun _ => .removed,
    some (some (standDownNames.map fun entry => (entry.1, "absent")))⟩
  installed := some none
  validation := some none
  smbReach := some true
  build := .exited 0 (some .empty)
  classifies := true
  current := "12:00"
  hour := 12
  excludes := true
  relaySync := .finished true 0
  marking := ⟨true, true⟩
  credential := some true
  stagingSize := some (0, 0)
  pullScript := true
  pull := .finished (some ⟨some "OK", "1", some 0, some 0, true⟩)
  detachedInputs := true
  sharedUser := true
  sharedPlain := true
  sharedBlob := true
  detachedRunner := true
  register := some true
  polls := [.read (some (.record (some "done") (some 0)))]
  leaseRead := true
  handedBack := ⟨true, true⟩
  smoke := some (some [])
  returned := ⟨true, true⟩
  release := ⟨true, true⟩
  exception := "RuntimeError"

end MastProvisioning.Driver
