import MastProvisioning.Driver.Phases

/-!
# The way to the marking

Between the stand-down and the marking a cycle only reads from the unit, logs a row
where it stops, and passes the dry-run and the maintenance gate in this order.
`sessionPhases_gates` says what holds where a cycle stops on the way, and leaves to
its caller what the phases from the marking on do.
-/

namespace MastProvisioning.Driver

open MastProvisioning.Collections MastProvisioning.Semantics MastProvisioning.Unit
open MastProvisioning.Semantics.Command

/-- The gates, in the order a cycle passes them. -/
def gates : List Step := [.passedDryRun, .passedWindow]

/-- A row that hands the unit back: of a finished or of a refused unit. -/
def HandsBack (row : Activity) : Prop :=
  row.outcome = .ok ∨ (row.outcome = .skip ∧ row.reason = "lease_held")

/-- A row of a cycle that had nothing to run, was a dry run or came at the wrong hour. -/
def SkipsAtGate (row : Activity) : Prop :=
  row.outcome = .skipMaintenance ∨ (row.outcome = .skip ∧
    row.reason ∈ ["already_current", "no_requested_module_drift", "dry_run"])

/-- From one state of a cycle to another nothing was done but to pass gates. -/
structure Passed (passed : List Step) (before after : Cycle) : Prop where
  availability : after.machine.availability = before.machine.availability
  leaseHeld : after.leaseHeld = before.leaseHeld
  steps : after.machine.steps = before.machine.steps ++ passed

/-- Where a cycle stops on its way to the marking, after rows that hand nothing back. -/
def StopsAtGate (record : Record) (before after : Cycle) : Prop :=
  ∃ passed rows, passed <+: gates ∧ Passed passed before after ∧
    after.record = record.logged rows ∧ ∀ row ∈ rows, ¬ HandsBack row

theorem Passed.ofLeaves {allowed : Step → Prop} {passed : List Step} {before middle after : Cycle}
    (has : Passed passed before middle) (leaves : Leaves allowed middle after)
    (none : ∀ step, ¬ allowed step) : Passed passed before after := by
  obtain ⟨more, isMore, moreAllowed⟩ := leaves.steps
  obtain rfl : more = [] := List.eq_nil_iff_forall_not_mem.mpr fun step member =>
    none step (moreAllowed step member)
  refine ⟨leaves.availability.trans has.availability, leaves.leaseHeld.trans has.leaseHeld, ?_⟩
  rw [isMore, List.append_nil, has.steps]

section Stops

variable {record : Record} {before cycle after : Cycle} {passed : List Step}

theorem StopsAtGate.quiet (has : Passed passed before after) (isGates : passed <+: gates)
    (same : after.record = record) : StopsAtGate record before after :=
  ⟨passed, [], isGates, has, same, by simp⟩

theorem StopsAtGate.ofLogs {hostname : String} {holds : Activity → Prop}
    (logs : Logs hostname holds cycle after) (has : Passed passed before after)
    (isGates : passed <+: gates) (same : cycle.record = record)
    (keeps : ∀ row, holds row → ¬ HandsBack row) : StopsAtGate record before after := by
  obtain ⟨row, isRow, _, holdsRow⟩ := logs
  exact ⟨passed, [row], isGates, has, by rw [isRow, same], by simpa using keeps row holdsRow⟩

theorem not_handsBack_of_failure {row : Activity} (fails : row.outcome.isFailure = true) :
    ¬ HandsBack row := by
  rintro (isOk | ⟨isSkip, _⟩)
  · rw [isOk] at fails
    cases fails
  · rw [isSkip] at fails
    cases fails

theorem logRow_stops {unit : UnitEntry} {outcome : RowOutcome} {reason payloadHash gitSha : String}
    {broken : Cycle → Prop} (passes : outcome.isFailure = false)
    (keeps : ¬ HandsBack ⟨unit.hostname, outcome, reason, payloadHash, gitSha⟩)
    (has : Passed passed before cycle) (isGates : passed <+: gates) (same : cycle.record = record) :
    Meets .reliable (logRow unit outcome reason payloadHash gitSha) cycle
      (fun _ => StopsAtGate record before) broken := by
  refine .update ⟨passed, [⟨unit.hostname, outcome, reason, payloadHash, gitSha⟩], isGates,
    ⟨has.availability, has.leaseHeld, has.steps⟩, ?_, by simpa using keeps⟩
  simp [Record.logged, passes, same]

theorem logFailure_stops {unit : UnitEntry} {outcome : RowOutcome}
    {reason payloadHash gitSha : String} {broken : Cycle → Prop}
    (isFailure : outcome.isFailure = true) (has : Passed passed before cycle)
    (isGates : passed <+: gates) (same : cycle.record = record) :
    Meets .reliable (logFailure unit outcome reason payloadHash gitSha) cycle
      (fun _ => StopsAtGate record before) broken := by
  refine (logFailure_meets isFailure).mono ?_ fun _ => id
  rintro _ _ rfl
  refine ⟨passed, [⟨unit.hostname, outcome, reason, payloadHash, gitSha⟩], isGates,
    ⟨has.availability, has.leaseHeld, has.steps⟩, by rw [same], ?_⟩
  simpa using not_handsBack_of_failure isFailure

end Stops

/-- A cycle either gets to the marking, and the phases from there leave what they
leave, or stops on the way. -/
def Arrives (reaches : Prop) (left : Cycle → Prop) (record : Record) (before after : Cycle) : Prop :=
  (reaches ∧ left after) ∨ (¬ reaches ∧ StopsAtGate record before after)

theorem Arrives.congr {reaches other : Prop} {left : Cycle → Prop} {record : Record}
    {before after : Cycle} (arrives : Arrives reaches left record before after)
    (same : reaches ↔ other) : Arrives other left record before after := by
  rcases arrives with ⟨isReached, holds⟩ | ⟨stopped, stops⟩
  · exact .inl ⟨same.mp isReached, holds⟩
  · exact .inr ⟨fun isReached => stopped (same.mpr isReached), stops⟩

/-- The modules an execute and the smoke check after it go over. -/
def executedModules (config : Config) (unit : UnitEntry) (targetModules : List String) :
    List String :=
  if targetModules = [] then resolveModules config.tree unit.modules else targetModules

/-- What the phases from the marking on leave, from any state that passed the gates. -/
def FromMarking (config : Config) (unit : UnitEntry) (answers : Answers) (executed : List String)
    (record : Record) (before : Cycle) (left : Cycle → Prop) : Prop :=
  ∀ payloadHash gitSha cycle, Passed gates before cycle → cycle.record = record →
    Meets .reliable (transferPhases config unit answers executed payloadHash gitSha) cycle
      (fun _ => left) left

section Chain

variable {config : Config} {unit : UnitEntry} {answers : Answers} {cycle before : Cycle}
  {record : Record} {left : Cycle → Prop} {payloadHash gitSha : String}

theorem windowPhases_gates {targetModules : List String}
    (entered : FromMarking config unit answers (executedModules config unit targetModules) record
      before left)
    (has : Passed [.passedDryRun] before cycle) (same : cycle.record = record) :
    Meets .reliable (windowPhases config unit answers (resolveModules config.tree unit.modules)
        targetModules payloadHash gitSha) cycle
      (fun _ => Arrives (inMaintenanceWindow unit.maintenanceWindow config.maintWindowStart
          config.maintWindowEnd answers.hour = true ∧ answers.excludes = true ∧
          (unit.relayed = true → answers.syncs)) left record before)
      (Arrives (inMaintenanceWindow unit.maintenanceWindow config.maintWindowStart
          config.maintWindowEnd answers.hour = true ∧ answers.excludes = true ∧
          (unit.relayed = true → answers.syncs)) left record before) := by
  have isDry : [Step.passedDryRun] <+: gates := ⟨_, rfl⟩
  have passes {middle : Cycle}
      (stepped : middle = { cycle with machine := cycle.machine.step .passedWindow }) :
      Passed gates before middle := by
    subst stepped
    exact ⟨has.availability, has.leaseHeld, by simp [has.steps, gates]⟩
  refine .ite (fun inside => takeStep_bind (.require_bind (fun excludes => ?_) fun malformed => ?_))
    fun outside => ?_
  · let middle : Bool → Cycle → Prop := fun synced after =>
      (synced = true ∧ (unit.relayed = true → answers.syncs) ∧ Passed gates before after ∧
          after.record = record) ∨
        (synced = false ∧ ¬ (unit.relayed = true → answers.syncs) ∧ StopsAtGate record before after)
    refine Meets.bind (show Meets _ _ _ middle _ from .ite
      (fun relayed => syncToRelay_meets.mono ?_ ?_) fun direct => ?_) ?_
    · rintro ok after ⟨leaves, ⟨rfl, syncs, quiet⟩ | ⟨rfl, stops, _, logs⟩⟩
      · exact .inl ⟨rfl, fun _ => syncs, (passes rfl).ofLeaves leaves fun _ => id, quiet.trans same⟩
      · refine .inr ⟨rfl, fun synced => stops (synced relayed), .ofLogs logs
          ((passes rfl).ofLeaves leaves fun _ => id) (List.prefix_refl _) same fun row isRow => ?_⟩
        exact not_handsBack_of_failure (by rw [isRow]; rfl)
    · rintro after ⟨⟨stops, quiet⟩, _, leaves⟩
      exact .inr ⟨fun enters => stops (enters.2.2 relayed), .quiet
        ((passes rfl).ofLeaves leaves fun _ => id) (List.prefix_refl _) (quiet.trans same)⟩
    · exact .pure (.inl ⟨rfl, fun relayed => absurd relayed direct, passes rfl, same⟩)
    · rintro synced middle (⟨rfl, synced, isPassed, quiet⟩ | ⟨rfl, stops, atGate⟩)
      · exact (entered _ _ _ isPassed quiet).mono (fun _ _ holds => .inl ⟨⟨inside, excludes, synced⟩, holds⟩)
          fun _ holds => .inl ⟨⟨inside, excludes, synced⟩, holds⟩
      · exact .pure (.inr ⟨fun enters => stops enters.2.2, atGate⟩)
  · refine .inr ⟨fun enters => ?_, .quiet (passes rfl) (List.prefix_refl _) same⟩
    cases malformed.symm.trans enters.2.1
  · refine (logRow_stops rfl ?_ has isDry same).mono
      (fun _ _ stops => .inr ⟨fun enters => outside enters.1, stops⟩) fun _ => id
    rintro (isOk | ⟨isSkip, _⟩)
    · cases isOk
    · cases isSkip

/-- What is still asked of a cycle that has its build. -/
def EntersFromDecision (config : Config) (unit : UnitEntry) (answers : Answers)
    (file : ManifestFile) : Prop :=
  (∃ targetModules, answers.decides config unit file targetModules) ∧ config.dryRun = false ∧
    inMaintenanceWindow unit.maintenanceWindow config.maintWindowStart config.maintWindowEnd
      answers.hour = true ∧ answers.excludes = true ∧ (unit.relayed = true → answers.syncs)

theorem Answers.decides_unique {file : ManifestFile} {targetModules otherModules : List String}
    (decides : answers.decides config unit file targetModules)
    (also : answers.decides config unit file otherModules) : targetModules = otherModules := by
  obtain ⟨_, installed, validation, isInstalled, isValidation, runs⟩ := decides
  obtain ⟨_, _, _, isInstalled', isValidation', runs'⟩ := also
  obtain rfl := Option.some.inj (isInstalled.symm.trans isInstalled')
  obtain rfl := Option.some.inj (isValidation.symm.trans isValidation')
  exact Decision.run.inj (runs.symm.trans runs')

theorem decisionPhases_gates {installed : Option InstalledManifest} {validation : Option Validation}
    {file : ManifestFile} (isInstalled : answers.installed = some installed)
    (isValidation : answers.validation = some validation)
    (entered : ∀ targetModules, answers.decides config unit file targetModules →
      FromMarking config unit answers (executedModules config unit targetModules) record before left)
    (has : Passed [] before cycle) (same : cycle.record = record) :
    Meets .reliable (decisionPhases config unit answers (resolveModules config.tree unit.modules)
        installed validation payloadHash file) cycle
      (fun _ => Arrives (EntersFromDecision config unit answers file) left record before)
      (Arrives (EntersFromDecision config unit answers file) left record before) := by
  have decided {decision : Decision}
      (decides : decideTargets config.tree config.options (resolveModules config.tree unit.modules)
        installed file.content validation = decision) {targetModules : List String}
      (other : answers.decides config unit file targetModules) : decision = .run targetModules := by
    obtain ⟨_, _, _, isInstalled', isValidation', runs⟩ := other
    obtain rfl := Option.some.inj (isInstalled.symm.trans isInstalled')
    obtain rfl := Option.some.inj (isValidation.symm.trans isValidation')
    exact decides.symm.trans runs
  have keeps {reason payloadHash gitSha : String} (other : reason ≠ "lease_held") :
      ¬ HandsBack ⟨unit.hostname, .skip, reason, payloadHash, gitSha⟩ := by
    rintro (isOk | ⟨_, isHeld⟩)
    · cases isOk
    · exact other isHeld
  have none : ([] : List Step) <+: gates := List.nil_prefix
  have noted {middle : Cycle}
      (isNoted : middle = { cycle with payloadHash := payloadHash, gitSha := file.gitSha }) :
      Passed [] before middle := by
    subst isNoted
    exact ⟨has.availability, has.leaseHeld, has.steps⟩
  refine .update_bind (.require_bind (fun classifies => ?_) fun malformed => ?_)
  · split
    · rename_i decides
      refine (logRow_stops rfl (keeps (by decide)) (noted rfl) none same).mono
        (fun _ _ stops => .inr ⟨fun ⟨⟨_, other⟩, _⟩ => ?_, stops⟩) fun _ => id
      cases decided decides other
    · rename_i decides
      refine (logRow_stops rfl (keeps (by decide)) (noted rfl) none same).mono
        (fun _ _ stops => .inr ⟨fun ⟨⟨_, other⟩, _⟩ => ?_, stops⟩) fun _ => id
      cases decided decides other
    · rename_i targetModules decides
      have runs : answers.decides config unit file targetModules :=
        ⟨classifies, installed, validation, isInstalled, isValidation, decides⟩
      refine .ite (fun dry => ?_) fun wet => takeStep_bind ?_
      · refine (logRow_stops rfl (keeps (by decide)) (noted rfl) none same).mono
          (fun _ _ stops => .inr ⟨fun enters => ?_, stops⟩) fun _ => id
        cases enters.2.1.symm.trans dry
      · have rest : (inMaintenanceWindow unit.maintenanceWindow config.maintWindowStart
            config.maintWindowEnd answers.hour = true ∧ answers.excludes = true ∧
            (unit.relayed = true → answers.syncs)) ↔ EntersFromDecision config unit answers file :=
          ⟨fun enters => ⟨⟨_, runs⟩, by simpa using wet, enters⟩, fun enters => enters.2.2⟩
        refine Meets.mono (windowPhases_gates (entered _ runs) ?_ ?_)
          (fun _ _ arrives => arrives.congr rest) fun _ arrives => arrives.congr rest
        · exact ⟨has.availability, has.leaseHeld, by simp [has.steps]⟩
        · exact same
  · refine .inr ⟨fun ⟨⟨_, decides⟩, _⟩ => ?_, .quiet (noted rfl) none same⟩
    cases malformed.symm.trans decides.1

/-- What is still asked of a cycle that has stood the unit down. -/
def EntersFromBuild (config : Config) (unit : UnitEntry) (answers : Answers) : Prop :=
  answers.installed ≠ none ∧ answers.validation ≠ none ∧ answers.smbReach = some true ∧
    ∃ file, answers.builds file ∧ file.hashed = true ∧
      EntersFromDecision config unit answers file

theorem Answers.builds_unique {file other : ManifestFile} (builds : answers.builds file)
    (also : answers.builds other) : file = other :=
  Option.some.inj (BuildRun.exited.inj (builds.symm.trans also)).2

theorem buildPhases_gates
    (entered : ∀ file targetModules, answers.decides config unit file targetModules →
      answers.builds file →
      FromMarking config unit answers (executedModules config unit targetModules) record before left)
    (has : Passed [] before cycle) (same : cycle.record = record) :
    Meets .reliable (buildPhases config unit answers (resolveModules config.tree unit.modules)) cycle
      (fun _ => Arrives (EntersFromBuild config unit answers) left record before)
      (Arrives (EntersFromBuild config unit answers) left record before) := by
  have none : ([] : List Step) <+: gates := List.nil_prefix
  refine .expect_bind (fun installed isInstalled => .expect_bind (fun validation isValidation =>
    .expect_bind (fun reached isReached => .ite (fun reaches => ?_) fun unreached => ?_)
      fun isNone => ?_) fun isNone => ?_) fun isNone => ?_
  · subst reaches
    refine Meets.bind (build_meets.mono (fun _ _ => id) ?_) ?_
    · rintro after ⟨unbuilt, quiet, leaves⟩
      refine .inr ⟨?_, .quiet (has.ofLeaves leaves fun _ => id) none (quiet.trans same)⟩
      rintro ⟨_, _, _, file, isBuilt, _⟩
      exact unbuilt file isBuilt
    rintro built middle ⟨leaves, ⟨file, rfl, isBuilt, hashed, quiet⟩ |
      ⟨rfl, ⟨file, isBuilt, unhashed⟩, quiet⟩ | ⟨rfl, unbuilt, logs⟩⟩
    · have rest : EntersFromDecision config unit answers file ↔
          EntersFromBuild config unit answers := by
        constructor
        · exact fun enters => ⟨by simp [isInstalled], by simp [isValidation], isReached, file,
            isBuilt, hashed, enters⟩
        · rintro ⟨_, _, _, other, alsoBuilt, _, enters⟩
          obtain rfl := Answers.builds_unique isBuilt alsoBuilt
          exact enters
      exact (decisionPhases_gates isInstalled isValidation
        (fun targetModules decides => entered file targetModules decides isBuilt)
        (has.ofLeaves leaves fun _ => id) (quiet.trans same)).mono
        (fun _ _ arrives => arrives.congr rest) fun _ arrives => arrives.congr rest
    · refine .pure (.inr ⟨?_, .quiet (has.ofLeaves leaves fun _ => id) none (quiet.trans same)⟩)
      rintro ⟨_, _, _, other, alsoBuilt, hashed, _⟩
      obtain rfl := Answers.builds_unique isBuilt alsoBuilt
      cases unhashed.symm.trans hashed
    · refine .pure (.inr ⟨?_, .ofLogs logs (has.ofLeaves leaves fun _ => id) none same
        fun _ failure => not_handsBack_of_failure failure.1⟩)
      rintro ⟨_, _, _, file, isBuilt, _⟩
      exact unbuilt file isBuilt
  · refine (logFailure_stops rfl has none same).mono (fun _ _ stops => .inr ⟨?_, stops⟩) fun _ => id
    rintro ⟨_, _, reaches, _⟩
    exact unreached (Option.some.inj (isReached.symm.trans reaches))
  · refine .inr ⟨fun enters => ?_, .quiet has none same⟩
    cases isNone.symm.trans enters.2.2.1
  · exact .inr ⟨fun enters => enters.2.1 isNone, .quiet has none same⟩
  · exact .inr ⟨fun enters => enters.1 isNone, .quiet has none same⟩

/-- The cycle as the stand-down leaves it, when it gets there. -/
def Cycle.stoodDown (answers : Answers) (cycle : Cycle) : Cycle :=
  if answers.reclaims then
    { cycle with machine := standDownScript answers.standDown cycle.machine }
  else cycle

theorem sessionPhases_gates
    (entered : ∀ file targetModules, answers.decides config unit file targetModules →
      answers.builds file → FromMarking config unit answers
        (executedModules config unit targetModules) record (cycle.stoodDown answers) left)
    (same : cycle.record = record) :
    Meets .reliable (sessionPhases config unit answers (resolveModules config.tree unit.modules)) cycle
      (fun _ => Arrives (answers.reclaims = true ∧ answers.standsDown ∧
        EntersFromBuild config unit answers) left record (cycle.stoodDown answers))
      (Arrives (answers.reclaims = true ∧ answers.standsDown ∧
        EntersFromBuild config unit answers) left record (cycle.stoodDown answers)) := by
  have none : ([] : List Step) <+: gates := List.nil_prefix
  refine .require_bind (fun reclaims => ?_) fun malformed => ?_
  · have stands {after : Cycle} (stood : StoodDown answers cycle after) :
        Passed [] (cycle.stoodDown answers) after := by
      unfold Cycle.stoodDown
      rw [if_pos reclaims]
      exact ⟨by rw [stood.1], stood.2, by rw [stood.1, List.append_nil]⟩
    refine Meets.bind (standDown_meets.mono (fun _ _ => id) ?_) ?_
    · rintro after ⟨⟨stops, quiet⟩, stood⟩
      exact .inr ⟨fun enters => stops enters.2.1, .quiet (stands stood) none (quiet.trans same)⟩
    · rintro ok middle ⟨⟨rfl, standsDown, quiet⟩ | ⟨rfl, stops, logs⟩, stood⟩
      · have rest : EntersFromBuild config unit answers ↔ answers.reclaims = true ∧
            answers.standsDown ∧ EntersFromBuild config unit answers :=
          ⟨fun enters => ⟨reclaims, standsDown, enters⟩, fun enters => enters.2.2⟩
        exact (buildPhases_gates entered (stands stood) (quiet.trans same)).mono
          (fun _ _ arrives => arrives.congr rest) fun _ arrives => arrives.congr rest
      · exact .pure (.inr ⟨fun enters => stops enters.2.1, .ofLogs logs (stands stood) none same
          fun _ failure => not_handsBack_of_failure failure.1⟩)
  · refine .inr ⟨fun enters => ?_, .quiet ?_ none same⟩
    · cases malformed.symm.trans enters.1
    · unfold Cycle.stoodDown
      rw [if_neg (by simp [malformed])]
      exact ⟨rfl, rfl, by simp⟩

/-- The cycle as `_process_unit` starts it. -/
def Cycle.started (cycle : Cycle) : Cycle :=
  { cycle with record := cycle.record.checked, payloadHash := "", gitSha := "", leaseHeld := false }

/-- The cycle as it comes to the gates. -/
def Cycle.atGates (answers : Answers) (cycle : Cycle) : Cycle :=
  if answers.reachesStandDown then
    { cycle.started with machine := standDownScript answers.standDown cycle.machine }
  else cycle.started

/-- The lease is released after the phases from the marking on, and an exception they
raised is logged. -/
def Closed (answers : Answers) (left : Cycle → Prop) (after : Cycle) : Prop :=
  ∃ middle rows, left middle ∧ after.record = middle.record.logged rows ∧
    (∀ row ∈ rows, row.outcome.isFailure = true) ∧ after.machine = middle.released answers

theorem Cycle.atGates_leaseHeld (answers : Answers) (cycle : Cycle) :
    (cycle.atGates answers).leaseHeld = false := by
  unfold Cycle.atGates
  split <;> rfl

theorem reachesMarking_iff (answers : Answers) : answers.reachesMarking config unit ↔
    answers.reachesStandDown ∧ answers.standsDown ∧ EntersFromBuild config unit answers := by
  constructor
  · rintro ⟨⟨⟨⟨⟨standDown, standsDown, installed, validation⟩, reached⟩,
      ⟨file, targetModules, isBuilt, hashed, decides⟩, notDry, inside⟩, excludes⟩, synced⟩
    exact ⟨standDown, standsDown, installed, validation, reached, file, isBuilt, hashed,
      ⟨targetModules, decides⟩, notDry, inside, excludes, synced⟩
  · rintro ⟨standDown, standsDown, installed, validation, reached, file, isBuilt, hashed,
      ⟨targetModules, decides⟩, notDry, inside, excludes, synced⟩
    exact ⟨⟨⟨⟨⟨standDown, standsDown, installed, validation⟩, reached⟩,
      ⟨file, targetModules, isBuilt, hashed, decides⟩, notDry, inside⟩, excludes⟩, synced⟩

/-- Once stopped, a cycle that releases nothing stays as it stopped. -/
theorem StopsAtGate.frame {middle after : Cycle} (stops : StopsAtGate record before middle)
    (rows : List Activity) (isRows : after.record = middle.record.logged rows)
    (keeps : ∀ row ∈ rows, ¬ HandsBack row) (sameMachine : after.machine = middle.machine)
    (sameLease : after.leaseHeld = middle.leaseHeld) : StopsAtGate record before after := by
  obtain ⟨passed, first, isGates, has, isFirst, firstKeeps⟩ := stops
  refine ⟨passed, first ++ rows, isGates, ?_, ?_, ?_⟩
  · exact ⟨by rw [sameMachine, has.availability], by rw [sameLease, has.leaseHeld],
      by rw [sameMachine, has.steps]⟩
  · rw [isRows, isFirst]
    simp [Record.logged, List.foldl_append]
  · intro row member
    exact (List.mem_append.mp member).elim (firstKeeps row) (keeps row)

/-- What a cycle leaves: what the phases from the marking on leave and the release
makes of it, or the unit as it was stood down. -/
theorem processUnit_gates
    (entered : ∀ file targetModules, answers.decides config unit file targetModules →
      answers.builds file → FromMarking config unit answers
        (executedModules config unit targetModules) cycle.record.checked (cycle.atGates answers) left) :
    Meets .reliable (processUnit config unit answers) cycle
      (fun _ => Arrives (answers.reachesMarking config unit) (Closed answers left)
        cycle.record.checked (cycle.atGates answers))
      (Arrives (answers.reachesMarking config unit) (Closed answers left)
        cycle.record.checked (cycle.atGates answers)) := by
  have none : ([] : List Step) <+: gates := List.nil_prefix
  have unreached (stops : ¬ answers.reachesStandDown) (after : Cycle)
      (isStarted : after.machine = cycle.machine) (isFree : after.leaseHeld = false)
      (same : after.record = cycle.record.checked) :
      Arrives (answers.reachesMarking config unit) (Closed answers left) cycle.record.checked
        (cycle.atGates answers) after := by
    refine .inr ⟨fun reaches => stops ((reachesMarking_iff answers).mp reaches).1, .quiet ?_ none same⟩
    unfold Cycle.atGates
    rw [if_neg stops]
    exact ⟨by rw [isStarted]; rfl, isFree, by rw [isStarted, List.append_nil]; rfl⟩
  refine .update_bind (.require_bind (fun encodes => ?_) fun malformed => ?_)
  · have isEncoded : answers.address ≠ .malformed := by simpa using encodes
    have handled {after : Cycle} (arrives : Arrives (answers.reachesMarking config unit)
        (Closed answers left) cycle.record.checked (cycle.atGates answers) after) (row : Activity)
        (fails : row.outcome.isFailure = true) :
        Arrives (answers.reachesMarking config unit) (Closed answers left) cycle.record.checked
          (cycle.atGates answers) { after with record := after.record.logged [row] } := by
      have failing : ∀ other ∈ [row], other.outcome.isFailure = true := by simpa using fails
      rcases arrives with ⟨reaches, middle, rows, holds, isRows, isFailing, isReleased⟩ | ⟨stops, atGate⟩
      · refine .inl ⟨reaches, middle, rows ++ [row], holds, ?_, fun other member => ?_, isReleased⟩
        · simp [isRows, Record.logged, List.foldl_append]
        · exact (List.mem_append.mp member).elim (isFailing other) (failing other)
      · exact .inr ⟨stops, atGate.frame [row] rfl (fun other member =>
          not_handsBack_of_failure (failing other member)) rfl rfl⟩
    have phases : Meets .reliable
        (unitPhases config unit answers (resolveModules config.tree unit.modules)) cycle.started
        (fun _ => Arrives (answers.reachesMarking config unit) (Closed answers left)
          cycle.record.checked (cycle.atGates answers))
        (Arrives (answers.reachesMarking config unit) (Closed answers left)
          cycle.record.checked (cycle.atGates answers)) := by
      refine .ite (fun isOpen => .require_bind (fun connects => ?_) fun refused => ?_) fun closed => ?_
      · have isAtGates : cycle.started.stoodDown answers = cycle.atGates answers := by
          unfold Cycle.atGates Cycle.stoodDown
          simp [Answers.reachesStandDown, isEncoded, isOpen, connects, Cycle.started]
        have rest : (answers.reclaims = true ∧ answers.standsDown ∧
            EntersFromBuild config unit answers) ↔ answers.reachesMarking config unit := by
          rw [reachesMarking_iff]
          exact ⟨fun enters => ⟨⟨isEncoded, isOpen, connects, enters.1⟩, enters.2⟩,
            fun reaches => ⟨reaches.1.2.2.2, reaches.2⟩⟩
        have session := sessionPhases_gates (isAtGates.symm ▸ entered) (rfl : cycle.started.record = _)
        rw [isAtGates] at session
        have releases (middle after : Cycle)
            (arrives : Arrives (answers.reclaims = true ∧ answers.standsDown ∧
              EntersFromBuild config unit answers) left cycle.record.checked
              (cycle.atGates answers) middle)
            (same : after.record = middle.record) (sameLease : after.leaseHeld = middle.leaseHeld)
            (isReleased : after.machine = middle.released answers) :
            Arrives (answers.reachesMarking config unit) (Closed answers left)
              cycle.record.checked (cycle.atGates answers) after := by
          rcases arrives.congr rest with ⟨reaches, holds⟩ | ⟨stops, atGate⟩
          · exact .inl ⟨reaches, middle, [], holds, same, by simp, isReleased⟩
          · obtain ⟨_, _, _, has, _⟩ := id atGate
            have isFree : middle.leaseHeld = false :=
              has.leaseHeld.trans (Cycle.atGates_leaseHeld answers cycle)
            refine .inr ⟨stops, atGate.frame [] same (by simp) ?_ sameLease⟩
            rw [isReleased, Cycle.released, isFree]
            rfl
        exact session.lastly
          (fun _ middle arrives => releaseAndArchive_meets.mono
            (fun _ after ended => releases middle after arrives ended.1 ended.2.1 ended.2.2) fun _ => id)
          (fun middle arrives => releaseAndArchive_meets.mono
            (fun _ after ended => releases middle after arrives ended.1 ended.2.1 ended.2.2) fun _ => id)
          (by simp)
      · refine unreached (fun reaches => ?_) _ rfl rfl rfl
        cases refused.symm.trans reaches.2.2.1
      · refine (logFailure_meets rfl).mono ?_ fun _ => id
        rintro _ _ rfl
        exact handled (unreached (fun reaches => closed reaches.2.1) cycle.started rfl rfl rfl) _ rfl
    refine phases.catching (fun message after arrives => ?_) (by simp)
    refine .query_bind ((logFailure_meets rfl).mono ?_ fun _ => id) (by simp)
    rintro _ _ rfl
    exact handled arrives _ rfl
  · exact unreached (fun reaches => by simp [reaches.1] at malformed) _ rfl rfl rfl

end Chain

end MastProvisioning.Driver
