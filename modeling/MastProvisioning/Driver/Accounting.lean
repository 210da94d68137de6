import MastProvisioning.Driver.Phases

/-!
# Every unit is accounted for

A row of failure and the exit code go together at every exit, but the rows and the
heartbeat do not account for every unit: a build that exits 0 without recording a
payload hash ends the cycle with no row, handing a refused unit back may raise
after its row, two of the failing outcomes are missing from the list the heartbeat
counts by, and a name that cannot be encoded ends the whole run.
`everyUnit_accounted_iff` says that nothing else goes wrong.
-/

namespace MastProvisioning.Driver

open MastProvisioning.Collections MastProvisioning.Semantics MastProvisioning.Unit
open MastProvisioning.Semantics.Command

/-- What a cycle is spared when its unit is accounted for. -/
structure Answers.Regular (config : Config) (unit : UnitEntry) (answers : Answers) : Prop where
  encodes : answers.address ≠ .malformed
  staging : answers.reachesStaging → answers.smbReach ≠ some false
  hashed : answers.reachesBuild → ∀ file, answers.builds file → file.hashed = true
  relay : answers.reachesRelay config unit → unit.relayed = true →
    answers.relaySync = .raised ∨ answers.syncs
  handsBack : answers.reachesMarking config unit → answers.marking.returned = true →
    answers.transfers unit → answers.refuses → answers.handedBack.returned = true

/-- `Regular` as far as it concerns the phases from the marking on. -/
def Answers.RegularFromMarking (unit : UnitEntry) (answers : Answers) : Prop :=
  answers.marking.returned = true → answers.transfers unit → answers.refuses →
    answers.handedBack.returned = true

/-- `Regular` as far as it concerns the phases from the maintenance window on. -/
def Answers.RegularFromWindow (config : Config) (unit : UnitEntry) (answers : Answers) : Prop :=
  inMaintenanceWindow unit.maintenanceWindow config.maintWindowStart config.maintWindowEnd
      answers.hour = true → answers.excludes = true →
    (unit.relayed = true → answers.relaySync = .raised ∨ answers.syncs) ∧
      ((unit.relayed = true → answers.syncs) → answers.RegularFromMarking unit)

/-- `Regular` as far as it concerns the phases from the decision on. -/
def Answers.RegularFromDecision (config : Config) (unit : UnitEntry) (answers : Answers)
    (file : ManifestFile) : Prop :=
  ∀ targetModules, answers.decides config unit file targetModules → config.dryRun = false →
    answers.RegularFromWindow config unit

/-- `Regular` as far as it concerns the phases from the build on. -/
def Answers.RegularFromBuild (config : Config) (unit : UnitEntry) (answers : Answers) : Prop :=
  answers.installed ≠ none → answers.validation ≠ none →
    answers.smbReach ≠ some false ∧ (answers.smbReach = some true →
      ∀ file, answers.builds file → file.hashed = true ∧
        answers.RegularFromDecision config unit file)

/-- These rows account for a unit. -/
def Accounts (hostname : String) (rows : List Activity) : Prop :=
  ∃ row, rows = [row] ∧ row.unit = hostname ∧ row.outcome.Counted

/-- Where the phases end without an exception: the rows logged since `record`
account for the unit exactly under the condition. -/
def Ends (hostname : String) (record : Record) (condition : Prop) (after : Cycle) : Prop :=
  ∃ rows, after.record = record.logged rows ∧ (Accounts hostname rows ↔ condition)

/-- Where the phases raise: no row was logged since `record`, or the condition fails. -/
def Raised (record : Record) (condition : Prop) (after : Cycle) : Prop :=
  ∃ rows, after.record = record.logged rows ∧ (rows = [] ↔ condition)

section Endings

variable {hostname : String} {record : Record} {condition : Prop} {cycle after : Cycle}

theorem not_accounts_nil : ¬ Accounts hostname [] := by
  rintro ⟨_, isRow, _⟩
  cases isRow

theorem not_accounts_two {row other : Activity} : ¬ Accounts hostname [row, other] := by
  rintro ⟨_, isRow, _⟩
  cases isRow

/-- A phase that ends the cycle with a row the heartbeat counts as it should. -/
theorem Ends.ofLogs {holds : Activity → Prop} (logs : Logs hostname holds cycle after)
    (counted : ∀ row, holds row → row.outcome.Counted) (same : cycle.record = record)
    (isFine : condition) : Ends hostname record condition after := by
  obtain ⟨row, isRow, isUnit, holdsRow⟩ := logs
  exact ⟨[row], by rw [isRow, same], fun _ => isFine, fun _ => ⟨row, rfl, isUnit, counted row holdsRow⟩⟩

/-- A phase that ends the cycle with a row the heartbeat does not count. -/
theorem Ends.uncounted {holds : Activity → Prop} (logs : Logs hostname holds cycle after)
    (uncounted : ∀ row, holds row → ¬ row.outcome.Counted) (same : cycle.record = record)
    (fails : ¬ condition) : Ends hostname record condition after := by
  obtain ⟨row, isRow, _, holdsRow⟩ := logs
  refine ⟨[row], by rw [isRow, same], ?_, fun holds => absurd holds fails⟩
  rintro ⟨_, ⟨⟩, _, counted⟩
  exact absurd counted (uncounted row holdsRow)

theorem Raised.quiet (same : after.record = record) (isFine : condition) :
    Raised record condition after :=
  ⟨[], same, fun _ => isFine, fun _ => rfl⟩

theorem Ends.congr {other : Prop} (ends : Ends hostname record condition after)
    (same : condition ↔ other) : Ends hostname record other after := by
  obtain ⟨rows, isRows, accounts⟩ := ends
  exact ⟨rows, isRows, accounts.trans same⟩

theorem Raised.congr {other : Prop} (raised : Raised record condition after)
    (same : condition ↔ other) : Raised record other after := by
  obtain ⟨rows, isRows, none⟩ := raised
  exact ⟨rows, isRows, none.trans same⟩

/-- The exception of a phase is logged as one more row. -/
theorem Raised.caught (raised : Raised record condition cycle) (row : Activity)
    (isUnit : row.unit = hostname) (counted : row.outcome.Counted) :
    Ends hostname record condition { cycle with record := cycle.record.logged [row] } := by
  obtain ⟨rows, isRows, none⟩ := raised
  refine ⟨rows ++ [row], ?_, ?_⟩
  · simp [isRows, Record.logged, List.foldl_append]
  · rw [← none]
    constructor
    · rintro ⟨other, isOther, _⟩
      exact (List.append_eq_singleton_iff.mp isOther).elim (·.1) fun both => by simp at both
    · rintro rfl
      exact ⟨row, rfl, isUnit, counted⟩

end Endings

section Phases

variable {config : Config} {unit : UnitEntry} {answers : Answers} {cycle : Cycle} {record : Record}
  {payloadHash gitSha : String}

/-- A row of no failure is what the heartbeat takes it for. -/
theorem logRow_ends {outcome : RowOutcome} {reason : String} {condition : Prop}
    {broken : Cycle → Prop} (passes : outcome.isFailure = false) (counted : outcome.Counted)
    (same : cycle.record = record) (isFine : condition) :
    Meets .reliable (logRow unit outcome reason payloadHash gitSha) cycle
      (fun _ => Ends unit.hostname record condition) broken := by
  refine .update ⟨[⟨unit.hostname, outcome, reason, payloadHash, gitSha⟩], ?_, fun _ => isFine,
    fun _ => ⟨_, rfl, rfl, counted⟩⟩
  simp [Record.logged, passes, same]

theorem refuses_not_done (executes : answers.executes 0) : ¬ answers.refuses := by
  rintro ⟨held, _⟩
  exact absurd (Answers.executes_unique executes held) (by decide)

theorem executePhases_ends {executed : List String} (same : cycle.record = record) :
    Meets .reliable (executePhases unit answers executed payloadHash gitSha) cycle
      (fun _ => Ends unit.hostname record (answers.refuses → answers.handedBack.returned = true))
      (Raised record (answers.refuses → answers.handedBack.returned = true)) := by
  refine .update_bind (Meets.bind (execute_meets.mono (fun _ _ => id) ?_) ?_)
  · rintro after ⟨⟨stops, quiet⟩, _⟩
    exact .quiet (quiet.trans same) fun refuses => absurd (.inr refuses) stops
  rintro ok middle ⟨executed, _⟩
  rcases executed with ⟨rfl, done, quiet⟩ | ⟨rfl, refuses, isRefused, logs⟩ | ⟨rfl, stops, kept, logs⟩
  · have isFine : answers.refuses → answers.handedBack.returned = true := fun refuses =>
      absurd refuses (refuses_not_done done)
    have unlogged : middle.record = record := quiet.trans same
    refine Meets.bind (smoke_meets.mono (fun _ _ => id) ?_) ?_
    · rintro after ⟨⟨_, quiet⟩, _⟩
      exact .quiet (quiet.trans unlogged) isFine
    rintro passed last ⟨⟨rfl, _, quiet⟩ | ⟨rfl, _, logs⟩, _⟩
    · refine writeAvailability_bind (fun _ => .update_bind ?_) fun _ => ?_
      · exact logRow_ends rfl rfl (quiet.trans unlogged) isFine
      · exact .quiet (quiet.trans unlogged) isFine
    · exact .pure (.ofLogs logs (fun _ failure => failure.2) unlogged isFine)
  · refine .query_bind (.ite (fun _ => ?_) fun notRefused => ?_) (by simp)
    · refine writeAvailability_bind (fun returned => .update ?_) fun missing => ?_
      · refine .ofLogs logs (fun row skip => ?_) same fun _ => returned
        rw [skip.1]
        rfl
      · obtain ⟨row, isRow, _⟩ := logs
        refine ⟨[row], by rw [← same]; exact isRow, by simp, fun condition => ?_⟩
        cases missing.symm.trans (condition refuses)
    · exact absurd isRefused notRefused
  · refine .query_bind (.ite (fun isRefused => ?_) fun _ => .pure ?_) (by simp)
    · cases kept.symm.trans isRefused
    · exact .ofLogs logs (fun _ failure => failure.2) same fun refuses => absurd (.inr refuses) stops

theorem transferPhases_ends {executed : List String} (same : cycle.record = record) :
    Meets .reliable (transferPhases config unit answers executed payloadHash gitSha) cycle
      (fun _ => Ends unit.hostname record (answers.RegularFromMarking unit))
      (Raised record (answers.RegularFromMarking unit)) := by
  refine writeAvailability_bind (fun marked => .update_bind (Meets.bind
    (transfer_meets.mono (fun _ _ => id) ?_) ?_)) fun missing => ?_
  · rintro after ⟨⟨stops, quiet⟩, _⟩
    exact .quiet (quiet.trans same) fun _ transfers => absurd transfers stops
  · rintro ok middle ⟨⟨rfl, transfers, quiet⟩ | ⟨rfl, stops, logs⟩, _⟩
    · have rest : answers.RegularFromMarking unit ↔
          (answers.refuses → answers.handedBack.returned = true) :=
        ⟨fun regular => regular marked transfers, fun regular _ _ => regular⟩
      exact (executePhases_ends (quiet.trans same)).mono (fun _ _ ends => ends.congr rest.symm)
        fun _ raised => raised.congr rest.symm
    · exact .pure (.ofLogs logs (fun _ failure => failure.2) same fun _ transfers =>
        absurd transfers stops)
  · exact .quiet same fun returned => by cases missing.symm.trans returned

theorem windowPhases_ends {modules targetModules : List String} (same : cycle.record = record) :
    Meets .reliable (windowPhases config unit answers modules targetModules payloadHash gitSha) cycle
      (fun _ => Ends unit.hostname record (answers.RegularFromWindow config unit))
      (Raised record (answers.RegularFromWindow config unit)) := by
  refine .ite (fun inside => takeStep_bind (.require_bind (fun excludes => ?_) fun malformed => ?_))
    fun outside => ?_
  · have rest (synced : unit.relayed = true → answers.syncs) :
        answers.RegularFromWindow config unit ↔ answers.RegularFromMarking unit :=
      ⟨fun regular => (regular inside excludes).2 synced,
        fun regular _ _ => ⟨fun relayed => .inr (synced relayed), fun _ => regular⟩⟩
    let middle : Bool → Cycle → Prop := fun synced after =>
      (synced = true ∧ (unit.relayed = true → answers.syncs) ∧ after.record = record) ∨
        (synced = false ∧ Ends unit.hostname record (answers.RegularFromWindow config unit) after)
    refine Meets.bind (show Meets _ _ _ middle _ from .ite (fun relayed => syncToRelay_meets.mono ?_ ?_) fun direct => ?_) ?_
    · rintro ok after ⟨_, ⟨rfl, syncs, quiet⟩ | ⟨rfl, stops, notRaised, logs⟩⟩
      · exact .inl ⟨rfl, fun _ => syncs, quiet.trans same⟩
      · refine .inr ⟨rfl, .uncounted logs (fun row isRow => ?_) same fun regular => ?_⟩
        · rw [isRow]
          decide
        · exact ((regular inside excludes).1 relayed).elim notRaised stops
    · rintro after ⟨⟨stops, quiet⟩, raised, _⟩
      exact .quiet (quiet.trans same) fun _ _ =>
        ⟨fun _ => .inl raised, fun synced => absurd (synced relayed) stops⟩
    · exact .pure (.inl ⟨rfl, fun relayed => absurd relayed direct, same⟩)
    · rintro synced middle (⟨rfl, synced, quiet⟩ | ⟨rfl, ends⟩)
      · exact (transferPhases_ends quiet).mono (fun _ _ ends => ends.congr (rest synced).symm)
          fun _ raised => raised.congr (rest synced).symm
      · exact .pure ends
  · exact .quiet same fun _ excludes => by cases malformed.symm.trans excludes
  · exact logRow_ends rfl rfl same fun inside => absurd inside outside

theorem decisionPhases_ends {installed : Option InstalledManifest} {validation : Option Validation}
    {file : ManifestFile} (isInstalled : answers.installed = some installed)
    (isValidation : answers.validation = some validation) (same : cycle.record = record) :
    Meets .reliable (decisionPhases config unit answers (resolveModules config.tree unit.modules)
        installed validation payloadHash file) cycle
      (fun _ => Ends unit.hostname record (answers.RegularFromDecision config unit file))
      (Raised record (answers.RegularFromDecision config unit file)) := by
  have decided {decision : Decision}
      (decides : decideTargets config.tree config.options (resolveModules config.tree unit.modules)
        installed file.content validation = decision) {targetModules : List String}
      (other : answers.decides config unit file targetModules) : decision = .run targetModules := by
    obtain ⟨_, installed', validation', isInstalled', isValidation', runs⟩ := other
    obtain rfl := Option.some.inj (isInstalled.symm.trans isInstalled')
    obtain rfl := Option.some.inj (isValidation.symm.trans isValidation')
    exact decides.symm.trans runs
  refine .update_bind (.require_bind (fun classifies => ?_) fun malformed => ?_)
  · split
    · rename_i decides
      exact logRow_ends rfl rfl same fun _ other => by cases decided decides other
    · rename_i decides
      exact logRow_ends rfl rfl same fun _ other => by cases decided decides other
    · rename_i targetModules decides
      have runs : answers.decides config unit file targetModules :=
        ⟨classifies, installed, validation, isInstalled, isValidation, decides⟩
      refine .ite (fun dry => ?_) fun wet => takeStep_bind ?_
      · exact logRow_ends rfl rfl same fun _ _ notDry => by cases notDry.symm.trans dry
      · have rest : answers.RegularFromDecision config unit file ↔
            answers.RegularFromWindow config unit :=
          ⟨fun regular => regular _ runs (by simpa using wet), fun regular _ _ _ => regular⟩
        refine Meets.mono (windowPhases_ends ?_) (fun _ _ ends => ends.congr rest.symm)
          fun _ raised => raised.congr rest.symm
        exact same
  · exact .quiet same fun _ decides => by cases malformed.symm.trans decides.1

theorem buildPhases_ends (same : cycle.record = record) :
    Meets .reliable (buildPhases config unit answers (resolveModules config.tree unit.modules)) cycle
      (fun _ => Ends unit.hostname record (answers.RegularFromBuild config unit))
      (Raised record (answers.RegularFromBuild config unit)) := by
  refine .expect_bind (fun installed isInstalled => .expect_bind (fun validation isValidation =>
    .expect_bind (fun reached isReached => .ite (fun reaches => ?_) fun unreached => ?_)
      fun isNone => ?_) fun isNone => ?_) fun isNone => ?_
  · subst reaches
    have builds {file : ManifestFile} (holds : ∀ other, answers.builds other → other.hashed = true ∧
        answers.RegularFromDecision config unit other) : answers.RegularFromBuild config unit :=
      fun _ _ => ⟨by simp [isReached], fun _ => holds⟩
    have unique {file other : ManifestFile} (isBuilt : answers.builds file)
        (alsoBuilt : answers.builds other) : file = other :=
      Option.some.inj (BuildRun.exited.inj (isBuilt.symm.trans alsoBuilt)).2
    refine Meets.bind (build_meets.mono (fun _ _ => id) ?_) ?_
    · rintro after ⟨unbuilt, quiet, _⟩
      exact .quiet (quiet.trans same) fun _ _ =>
        ⟨by simp [isReached], fun _ file isBuilt => absurd isBuilt (unbuilt file)⟩
    rintro built middle ⟨_, ⟨file, rfl, isBuilt, hashed, quiet⟩ | ⟨rfl, ⟨file, isBuilt, unhashed⟩, quiet⟩ |
      ⟨rfl, unbuilt, logs⟩⟩
    · have rest : answers.RegularFromBuild config unit ↔
          answers.RegularFromDecision config unit file := by
        constructor
        · intro regular
          exact ((regular (by simp [isInstalled]) (by simp [isValidation])).2 isReached file isBuilt).2
        · refine fun regular _ _ => ⟨by simp [isReached], fun _ other alsoBuilt => ?_⟩
          obtain rfl := unique isBuilt alsoBuilt
          exact ⟨hashed, regular⟩
      exact (decisionPhases_ends isInstalled isValidation (quiet.trans same)).mono
        (fun _ _ ends => ends.congr rest.symm) fun _ raised => raised.congr rest.symm
    · refine .pure ⟨[], quiet.trans same, fun accounts => absurd accounts not_accounts_nil,
        fun regular => ?_⟩
      have hashed := ((regular (by simp [isInstalled]) (by simp [isValidation])).2 isReached file
        isBuilt).1
      cases unhashed.symm.trans hashed
    · exact .pure (.ofLogs logs (fun _ failure => failure.2) same fun _ _ =>
        ⟨by simp [isReached], fun _ file isBuilt => absurd isBuilt (unbuilt file)⟩)
  · have refused : reached = false := by simpa using unreached
    refine (logFailure_meets rfl).mono ?_ fun _ => id
    rintro _ after rfl
    let row : Activity := ⟨unit.hostname, .preflightFail, "unit_smb_unreachable", "", ""⟩
    have logs : Logs unit.hostname (fun row => row.outcome = .preflightFail) cycle
        { cycle with record := cycle.record.logged [row] } := .row rfl rfl
    refine .uncounted logs (fun row isRow => ?_) same fun regular => ?_
    · rw [isRow]
      decide
    · have reaches := (regular (by simp [isInstalled]) (by simp [isValidation])).1
      exact reaches (by rw [isReached, refused])
  · exact .quiet same fun _ _ => ⟨by simp [isNone], fun reached => by cases isNone.symm.trans reached⟩
  · exact .quiet same fun _ some => absurd isNone some
  · exact .quiet same fun some => absurd isNone some

theorem sessionPhases_ends (same : cycle.record = record) :
    Meets .reliable (sessionPhases config unit answers (resolveModules config.tree unit.modules)) cycle
      (fun _ => Ends unit.hostname record
        (answers.reclaims = true → answers.standsDown → answers.RegularFromBuild config unit))
      (Raised record
        (answers.reclaims = true → answers.standsDown → answers.RegularFromBuild config unit)) := by
  refine .require_bind (fun reclaims => Meets.bind (standDown_meets.mono (fun _ _ => id) ?_) ?_)
    fun malformed => .quiet same fun reclaims => by cases malformed.symm.trans reclaims
  · rintro after ⟨⟨stops, quiet⟩, _⟩
    exact .quiet (quiet.trans same) fun _ standsDown => absurd standsDown stops
  · rintro ok middle ⟨⟨rfl, standsDown, quiet⟩ | ⟨rfl, stops, logs⟩, _⟩
    · have rest : (answers.reclaims = true → answers.standsDown →
          answers.RegularFromBuild config unit) ↔ answers.RegularFromBuild config unit :=
        ⟨fun regular => regular reclaims standsDown, fun regular _ _ => regular⟩
      exact (buildPhases_ends (quiet.trans same)).mono (fun _ _ ends => ends.congr rest.symm)
        fun _ raised => raised.congr rest.symm
    · exact .pure (.ofLogs logs (fun _ failure => failure.2) same fun _ standsDown =>
        absurd standsDown stops)

/-- `Regular` as far as it concerns what is inside the `try`. -/
def Answers.RegularInside (config : Config) (unit : UnitEntry) (answers : Answers) : Prop :=
  (answers.sshOpen || answers.winrmOpen) = true → answers.connects = true →
    answers.reclaims = true → answers.standsDown → answers.RegularFromBuild config unit

theorem unitPhases_ends (same : cycle.record = record) :
    Meets .reliable (unitPhases config unit answers (resolveModules config.tree unit.modules)) cycle
      (fun _ => Ends unit.hostname record (answers.RegularInside config unit))
      (Raised record (answers.RegularInside config unit)) := by
  refine .ite (fun isOpen => .require_bind (fun connects => ?_) fun refused => ?_) fun closed => ?_
  · have rest : answers.RegularInside config unit ↔
        (answers.reclaims = true → answers.standsDown → answers.RegularFromBuild config unit) :=
      ⟨fun regular => regular isOpen connects, fun regular _ _ => regular⟩
    refine .lastly (sessionPhases_ends same) ?_ ?_ (by simp)
    · intro _ middle ends
      refine releaseAndArchive_meets.mono (fun _ after released => ?_) fun _ => id
      obtain ⟨rows, isRows, accounts⟩ := ends.congr rest.symm
      exact ⟨rows, released.1.trans isRows, accounts⟩
    · intro middle raised
      refine releaseAndArchive_meets.mono (fun _ after released => ?_) fun _ => id
      obtain ⟨rows, isRows, none⟩ := raised.congr rest.symm
      exact ⟨rows, released.1.trans isRows, none⟩
  · exact .quiet same fun _ connects => by cases refused.symm.trans connects
  · refine (logFailure_meets rfl).mono ?_ fun _ => id
    rintro _ _ rfl
    let row : Activity := ⟨unit.hostname, .unreachable, "ssh_and_winrm_ports_closed", "", ""⟩
    have logs : Logs unit.hostname CountedFailure cycle
        { cycle with record := cycle.record.logged [row] } := .row rfl ⟨rfl, rfl⟩
    exact .ofLogs logs (fun _ failure => failure.2) same fun isOpen => absurd isOpen closed

/-- The condition of `Regular`, phase by phase. -/
theorem regular_iff : answers.Regular config unit ↔ answers.address ≠ .malformed ∧
    answers.RegularInside config unit := by
  constructor
  · intro regular
    refine ⟨regular.encodes, fun isOpen connects reclaims standsDown installed validation => ?_⟩
    have staging : answers.reachesStaging :=
      ⟨⟨regular.encodes, isOpen, connects, reclaims⟩, standsDown, installed, validation⟩
    refine ⟨regular.staging staging, fun reached file isBuilt => ?_⟩
    have hashed := regular.hashed ⟨staging, reached⟩ file isBuilt
    refine ⟨hashed, fun targetModules decides notDry inside excludes => ?_⟩
    have relay : answers.reachesRelay config unit :=
      ⟨⟨⟨staging, reached⟩, ⟨file, targetModules, isBuilt, hashed, decides⟩, notDry, inside⟩, excludes⟩
    exact ⟨regular.relay relay, fun synced => regular.handsBack ⟨relay, synced⟩⟩
  · rintro ⟨encodes, phases⟩
    have fromBuild (staging : answers.reachesStaging) : answers.RegularFromBuild config unit :=
      phases staging.1.2.1 staging.1.2.2.1 staging.1.2.2.2 staging.2.1
    have fromWindow (relay : answers.reachesRelay config unit) :
        (unit.relayed = true → answers.relaySync = .raised ∨ answers.syncs) ∧
          ((unit.relayed = true → answers.syncs) → answers.RegularFromMarking unit) := by
      obtain ⟨⟨⟨staging, reached⟩, ⟨file, _, isBuilt, _, decides⟩, notDry, inside⟩, excludes⟩ := relay
      obtain ⟨_, decision⟩ := (fromBuild staging staging.2.2.1 staging.2.2.2).2 reached file isBuilt
      exact decision _ decides notDry inside excludes
    refine ⟨encodes, fun staging => ?_, fun ⟨staging, reached⟩ file isBuilt => ?_, fun relay => ?_,
      fun marking => ?_⟩
    · exact (fromBuild staging staging.2.2.1 staging.2.2.2).1
    · exact ((fromBuild staging staging.2.2.1 staging.2.2.2).2 reached file isBuilt).1
    · exact (fromWindow relay).1
    · exact (fromWindow marking.1).2 marking.2

/-- Processing a unit logs the rows that account for it exactly when its answers
are regular; nothing but a name that cannot be encoded ends it with an exception. -/
theorem processUnit_ends (config : Config) (unit : UnitEntry) (answers : Answers) (cycle : Cycle) :
    Meets .reliable (processUnit config unit answers) cycle
      (fun _ after => answers.address ≠ .malformed ∧
        Ends unit.hostname cycle.record.checked (answers.Regular config unit) after)
      (fun after => answers.address = .malformed ∧ after.record = cycle.record.checked) := by
  refine .update_bind (.require_bind (fun encodes => ?_) fun malformed => ⟨by simpa using malformed, rfl⟩)
  have isEncoded : answers.address ≠ .malformed := by simpa using encodes
  have rest : answers.RegularInside config unit ↔ answers.Regular config unit :=
    ⟨fun inside => regular_iff.mpr ⟨isEncoded, inside⟩, fun regular => (regular_iff.mp regular).2⟩
  let started : Cycle :=
    { cycle with record := cycle.record.checked, payloadHash := "", gitSha := "", leaseHeld := false }
  have phases : Meets .reliable
      (unitPhases config unit answers (resolveModules config.tree unit.modules)) started
      (fun _ after => answers.address ≠ .malformed ∧
        Ends unit.hostname cycle.record.checked (answers.Regular config unit) after)
      (Raised cycle.record.checked (answers.RegularInside config unit)) :=
    (unitPhases_ends rfl).mono (fun _ _ ends => ⟨isEncoded, ends.congr rest⟩) fun _ => id
  refine phases.catching (fun message after raised => ?_) (by simp)
  · refine .query_bind ((logFailure_meets rfl).mono ?_ fun _ => id) (by simp)
    rintro _ _ rfl
    let row : Activity :=
      ⟨unit.hostname, .fail, "exception:" ++ answers.exception, after.payloadHash, after.gitSha⟩
    exact ⟨isEncoded, (raised.caught row rfl rfl).congr rest⟩

end Phases

/-- A selected unit: its registry entry, how it is found, and what comes of the
calls while it is processed. -/
structure Visit where
  unit : UnitEntry
  machine : Machine
  answers : Answers

/-- `_process_unit` of one selected unit; `none` when an exception leaves it. -/
def processVisit (config : Config) (visit : Visit) (record : Record) : Option Record :=
  match (processUnit config visit.unit visit.answers).run
      ⟨record, visit.machine, false, "", "", false⟩ with
  | (.done _, cycle) => some cycle.record
  | _ => none

/-- The loop of `run` over the selected units. -/
def processUnits (config : Config) : Record → List Visit → Option Record
  | record, [] => some record
  | record, visit :: rest =>
    (processVisit config visit record).bind fun next => processUnits config next rest

/-- The units `units_failed` of the heartbeat counts. -/
def failedUnits (unitOutcomes : List (String × RowOutcome)) : List String :=
  (unitOutcomes.filter fun entry => entry.2.inFailStates).map Prod.fst

/-- `_finish`: the counts of `last-run.json`. -/
structure Heartbeat where
  unitsChecked : Nat
  unitsUpdated : Nat
  unitsFailed : Nat
  unitOutcomes : List (String × RowOutcome)
  exitCode : Nat
deriving DecidableEq, Repr

def finish (record : Record) : Heartbeat where
  unitsChecked := record.unitsChecked
  unitsUpdated := (record.unitOutcomes.filter fun entry => entry.2 = .ok).length
  unitsFailed := (failedUnits record.unitOutcomes).length
  unitOutcomes := record.unitOutcomes
  exitCode := record.exitCode

/-- The record a run starts from: the log of earlier runs, and the exit code the
preflight left. -/
def Record.fresh (activity : List Activity) (exitCode : Nat) : Record :=
  ⟨activity, [], exitCode, 0⟩

/-- The units are processed one after the other, and each of them logs just the row
beside it and leaves the exit code that row calls for. -/
inductive Processed (config : Config) : Record → List (Visit × Activity) → Record → Prop
  | nil {record : Record} : Processed config record [] record
  | cons {record next final : Record} {visit : Visit} {row : Activity}
      {rest : List (Visit × Activity)} (processed : processVisit config visit record = some next)
      (logged : next.activity = record.activity ++ [row]) (isUnit : row.unit = visit.unit.hostname)
      (exitCode : next.exitCode = if row.outcome.isFailure then exitUnitFail else record.exitCode)
      (later : Processed config next rest final) :
      Processed config record ((visit, row) :: rest) final

/-- Every unit of a run is accounted for exactly once: processing it logs one row,
which is the run's only one for it, the exit code is what the rows call for, and the
heartbeat counts the unit as failed, and no more than the failed ones, exactly when
its row reports a failure. -/
def EveryUnitAccounted (config : Config) (start : Record) (visits : List Visit) : Prop :=
  ∃ rowed final, rowed.map Prod.fst = visits ∧ Processed config start rowed final ∧
    (finish final).unitsFailed = rowed.countP (·.2.outcome.isFailure) ∧
    ∀ entry ∈ rowed,
      (entry.2.unit ∈ failedUnits (finish final).unitOutcomes ↔
        entry.2.outcome.isFailure = true) ∧
        ((final.activity.drop start.activity.length).countP (·.unit = entry.2.unit)) = 1

section Runs

variable {config : Config} {visit : Visit} {visits : List Visit} {record next final : Record}
  {rowed : List (Visit × Activity)}

/-- What processing one unit comes to. -/
theorem processVisit_cases (config : Config) (visit : Visit) (record : Record) :
    (visit.answers.address = .malformed ∧ processVisit config visit record = none) ∨
      ∃ rows, processVisit config visit record = some (record.checked.logged rows) ∧
        visit.answers.address ≠ .malformed ∧
        (Accounts visit.unit.hostname rows ↔ visit.answers.Regular config visit.unit) := by
  have ends := (processUnit_ends config visit.unit visit.answers
    ⟨record, visit.machine, false, "", "", false⟩).run
  unfold processVisit
  rcases result : (processUnit config visit.unit visit.answers).run
    ⟨record, visit.machine, false, "", "", false⟩ with ⟨outcome, cycle⟩
  rw [result] at ends
  rcases ends with ⟨value, rfl, encodes, rows, isRows, accounts⟩ | ⟨message, rfl, malformed, _⟩
  · exact .inr ⟨rows, congrArg some isRows, encodes, accounts⟩
  · exact .inl ⟨malformed, rfl⟩

/-- A unit whose processing logs one row was recorded under that row. -/
theorem processVisit_row {row : Activity} (processed : processVisit config visit record = some next)
    (logged : next.activity = record.activity ++ [row]) :
    next = record.checked.logged [row] ∧
      (Accounts visit.unit.hostname [row] ↔ visit.answers.Regular config visit.unit) := by
  rcases processVisit_cases config visit record with
    ⟨_, isNone⟩ | ⟨rows, isSome, _, accounts⟩
  · cases isNone.symm.trans processed
  · obtain rfl := Option.some.inj (isSome.symm.trans processed)
    rw [Record.logged_activity] at logged
    obtain rfl : rows = [row] := List.append_cancel_left logged
    exact ⟨rfl, accounts⟩

theorem Record.logged_row (row : Activity) :
    (record.checked.logged [row]).unitOutcomes =
        OrderedDict.set id record.unitOutcomes row.unit row.outcome ∧
      (record.checked.logged [row]).exitCode =
        if row.outcome.isFailure then exitUnitFail else record.exitCode := by
  unfold Record.logged
  rw [List.foldl_cons, List.foldl_nil]
  split <;> exact ⟨rfl, rfl⟩

theorem Processed.activity (processed : Processed config record rowed final) :
    final.activity = record.activity ++ rowed.map Prod.snd := by
  induction processed with
  | nil => simp
  | cons _ logged _ _ _ ih => rw [ih, logged, List.map_cons, List.append_assoc, List.singleton_append]

theorem Processed.unitOutcomes (processed : Processed config record rowed final) :
    final.unitOutcomes = OrderedDict.setAll id record.unitOutcomes
      (rowed.map fun entry => (entry.2.unit, entry.2.outcome)) := by
  induction processed with
  | nil => rfl
  | cons processed logged _ _ _ ih =>
    obtain ⟨rfl, _⟩ := processVisit_row processed logged
    rw [ih, (Record.logged_row _).1]
    rfl

theorem Processed.hostnames (processed : Processed config record rowed final) :
    rowed.map (·.2.unit) = rowed.map (·.1.unit.hostname) := by
  induction processed with
  | nil => rfl
  | cons _ _ isUnit _ _ ih => rw [List.map_cons, List.map_cons, ih, isUnit]

/-- Each unit's row accounts for it exactly when its answers are regular. -/
theorem Processed.accounts (processed : Processed config record rowed final)
    {entry : Visit × Activity} (member : entry ∈ rowed) :
    Accounts entry.1.unit.hostname [entry.2] ↔ entry.1.answers.Regular config entry.1.unit := by
  induction processed with
  | nil => cases member
  | cons processed logged _ _ _ ih =>
    rcases List.mem_cons.mp member with rfl | later
    · exact (processVisit_row processed logged).2
    · exact ih later

theorem Processed.unit (processed : Processed config record rowed final)
    {entry : Visit × Activity} (member : entry ∈ rowed) :
    entry.2.unit = entry.1.unit.hostname := by
  induction processed with
  | nil => cases member
  | cons _ _ isUnit _ _ ih =>
    rcases List.mem_cons.mp member with rfl | later
    · exact isUnit
    · exact ih later

/-- With the units named once each, the outcomes of the run are those of its rows. -/
theorem Processed.outcomes {activity : List Activity} {exitCode : Nat}
    (processed : Processed config (.fresh activity exitCode) rowed final)
    (distinct : (rowed.map (·.2.unit)).Nodup) :
    final.unitOutcomes = rowed.map fun entry => (entry.2.unit, entry.2.outcome) := by
  have isDistinct : OrderedDict.Distinct id
      ([] ++ rowed.map fun entry => (entry.2.unit, entry.2.outcome)) := by
    simpa [OrderedDict.Distinct, Function.comp_def] using distinct
  rw [processed.unitOutcomes]
  exact OrderedDict.setAll_of_distinct isDistinct

/-- Then the heartbeat counts a unit as failed exactly when the outcome of its row is
in the list it counts by. -/
theorem Processed.failed_iff {activity : List Activity} {exitCode : Nat}
    (processed : Processed config (.fresh activity exitCode) rowed final)
    (distinct : (rowed.map (·.2.unit)).Nodup) {entry : Visit × Activity} (member : entry ∈ rowed) :
    entry.2.unit ∈ failedUnits (finish final).unitOutcomes ↔
      entry.2.outcome.inFailStates = true := by
  unfold failedUnits finish
  rw [processed.outcomes distinct]
  simp only [List.mem_map, List.mem_filter]
  constructor
  · rintro ⟨_, ⟨⟨other, isOther, rfl⟩, fails⟩, same⟩
    rwa [List.inj_on_of_nodup_map distinct isOther member same] at fails
  · exact fun fails => ⟨_, ⟨⟨entry, member, rfl⟩, fails⟩, rfl⟩

theorem Processed.unitsFailed {activity : List Activity} {exitCode : Nat}
    (processed : Processed config (.fresh activity exitCode) rowed final)
    (distinct : (rowed.map (·.2.unit)).Nodup) :
    (finish final).unitsFailed = rowed.countP (·.2.outcome.inFailStates) := by
  change (failedUnits final.unitOutcomes).length = _
  unfold failedUnits
  rw [processed.outcomes distinct, List.length_map, ← List.countP_eq_length_filter, List.countP_map]
  rfl

/-- The rows of the run for one unit. -/
theorem Processed.countP {activity : List Activity} {exitCode : Nat}
    (processed : Processed config (.fresh activity exitCode) rowed final) (hostname : String) :
    (final.activity.drop activity.length).countP (·.unit = hostname) =
      (rowed.map (·.2.unit)).count hostname := by
  have rows : final.activity.drop activity.length = rowed.map Prod.snd := by
    rw [processed.activity]
    exact List.drop_left
  rw [rows, List.count_eq_countP, List.countP_map, List.countP_map]
  rfl

/-- Regular answers carry every unit of a run to one row of its own. -/
theorem processed_of_regular (record : Record)
    (regular : ∀ visit ∈ visits, visit.answers.Regular config visit.unit) :
    ∃ rowed final, rowed.map Prod.fst = visits ∧ Processed config record rowed final := by
  induction visits generalizing record with
  | nil => exact ⟨[], record, rfl, .nil⟩
  | cons visit rest ih =>
    have isRegular := regular visit List.mem_cons_self
    rcases processVisit_cases config visit record with ⟨malformed, _⟩ | ⟨rows, isNext, _, accounts⟩
    · exact absurd malformed isRegular.encodes
    · obtain ⟨row, rfl, isUnit, _⟩ := accounts.mpr isRegular
      let next := record.checked.logged [row]
      obtain ⟨rowed, final, isVisits, later⟩ :=
        ih next fun other member => regular other (List.mem_cons_of_mem _ member)
      refine ⟨(visit, row) :: rowed, final, by rw [List.map_cons, isVisits], ?_⟩
      exact .cons isNext (Record.logged_activity _ _) isUnit (Record.logged_row row).2 later

/-- A run that accounts for every unit names each unit once and meets no answer that
is not regular. -/
theorem EveryUnitAccounted.regular {activity : List Activity} {exitCode : Nat}
    (accounted : EveryUnitAccounted config (.fresh activity exitCode) visits) :
    (visits.map (·.unit.hostname)).Nodup ∧
      ∀ visit ∈ visits, visit.answers.Regular config visit.unit := by
  obtain ⟨rowed, final, rfl, processed, _, accounted⟩ := accounted
  have distinct : (rowed.map (·.2.unit)).Nodup := by
    refine List.nodup_iff_count_le_one.mpr fun hostname => ?_
    by_cases member : hostname ∈ rowed.map (·.2.unit)
    · obtain ⟨entry, isEntry, rfl⟩ := List.mem_map.mp member
      have once := (accounted entry isEntry).2
      rw [← processed.countP]
      exact Nat.le_of_eq once
    · rw [List.count_eq_zero_of_not_mem member]
      exact Nat.zero_le _
  refine ⟨?_, fun visit member => ?_⟩
  · have names := processed.hostnames
    rw [names] at distinct
    simpa [Function.comp_def] using distinct
  · obtain ⟨entry, isEntry, rfl⟩ := List.mem_map.mp member
    refine (processed.accounts isEntry).mp ⟨_, rfl, processed.unit isEntry, ?_⟩
    have counted := (processed.failed_iff distinct isEntry).symm.trans (accounted entry isEntry).1
    exact Bool.eq_iff_iff.mpr counted

/-- Every unit of a run is accounted for exactly once when, and only when, the
selected units have different names and each one's answers are regular. -/
theorem everyUnit_accounted_iff (config : Config) (activity : List Activity) (exitCode : Nat)
    (visits : List Visit) :
    EveryUnitAccounted config (.fresh activity exitCode) visits ↔
      (visits.map (·.unit.hostname)).Nodup ∧
        ∀ visit ∈ visits, visit.answers.Regular config visit.unit := by
  refine ⟨EveryUnitAccounted.regular, ?_⟩
  rintro ⟨distinct, regular⟩
  obtain ⟨rowed, final, rfl, processed⟩ := processed_of_regular (.fresh activity exitCode) regular
  have isDistinct : (rowed.map (·.2.unit)).Nodup := by
    rw [processed.hostnames]
    simpa [Function.comp_def] using distinct
  have counted (entry : Visit × Activity) (isEntry : entry ∈ rowed) : entry.2.outcome.Counted := by
    obtain ⟨row, same, _, counted⟩ := (processed.accounts isEntry).mpr
      (regular entry.1 (List.mem_map.mpr ⟨entry, isEntry, rfl⟩))
    obtain rfl := List.singleton_injective same
    exact counted
  refine ⟨rowed, final, rfl, processed, ?_, fun entry isEntry => ⟨?_, ?_⟩⟩
  · rw [processed.unitsFailed isDistinct]
    exact List.countP_congr fun entry isEntry => by rw [counted entry isEntry]
  · rw [processed.failed_iff isDistinct isEntry, counted entry isEntry]
  · have once := processed.countP entry.2.unit
    rw [List.count_eq_one_of_mem isDistinct (List.mem_map.mpr ⟨entry, isEntry, rfl⟩)] at once
    exact once

/-- A build that exits 0 with a manifest that records no payload hash. -/
def unhashedBuild : Answers :=
  { Answers.ordinary with build := .exited 0 (some { ManifestFile.empty with hashed := false }) }

/-- The unit of such a build gets no row, and the run ends as if all were well. -/
theorem unhashedBuild_unaccounted :
    ¬ EveryUnitAccounted Config.plain (.fresh [] 0)
      [⟨⟨"mast04", none, none, false⟩, ⟨.absent, [], []⟩, unhashedBuild⟩] := by
  intro accounted
  have regular := (accounted.regular).2 _ List.mem_cons_self
  have staging : unhashedBuild.reachesStaging :=
    ⟨by decide, ⟨_, rfl, by decide⟩, by simp [unhashedBuild, Answers.ordinary],
      by simp [unhashedBuild, Answers.ordinary]⟩
  have hashed := regular.hashed ⟨staging, rfl⟩ _ rfl
  cases hashed

end Runs

end MastProvisioning.Driver
