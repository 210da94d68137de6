import MastProvisioning.Driver.Convergence
import MastProvisioning.Unit.RunProgress

/-!
# What the installed record says after an interrupted run

The record is written once, after all commands of a run, and not touched before
the first one. It is true of the unit as long as no run starts a provide command
that the record already vouches for; `keepsRecord_iff` says that this is exactly
the condition. A run that is stopped after such a start leaves the old record, and
a cycle that goes back to the old build then skips the unit.
-/

namespace MastProvisioning.Driver

open MastProvisioning.Semantics MastProvisioning.Collections MastProvisioning.PowerShell
open MastProvisioning.Build MastProvisioning.Unit MastProvisioning.Unit.History

section Definitions

variable {fold : Char → Char} {sha256 : String → String} {Content : Type}

/-- What the record says about the unit is so. -/
structure Truthful (state : History.State fold sha256 Content) : Prop where
  /-- A module recorded as passed was last started from a payload with the recorded
  hash, and succeeded. -/
  recorded : ∀ name hash, RecordsPass state.installed name hash →
    ∃ provision, lastOf fold state.provisions name = some provision ∧
      provision.succeeded = true ∧ moduleHash provision.payload name = hash
  /-- Nothing was started from a payload other than the published one. -/
  aggregate : ∀ hash, state.installed.bind (·.payloadHash) = some hash →
    ∀ provision ∈ state.since, provision.payload.manifest.payloadHash = hash
  /-- A cycle that skips the unit finds nothing started from another payload. -/
  skipped : ∀ tree options build validation,
    phase5 tree options state.installed build validation = .alreadyCurrent →
      ∀ provision ∈ state.since, provision.payload.manifest.payloadHash = build.payloadHash

/-- The record is true and the run that is going on is tracked. -/
structure Kept (state : History.State fold sha256 Content) : Prop where
  truthful : Truthful state
  tracked : ∀ run, state.run = some run → Tracks state run

/-- The record vouches for nothing that a step starts to change. -/
def KeepsRecord (state : History.State fold sha256 Content) :
    History.Label fold sha256 Content → Prop
  | .startCommand => ∀ run command rest, state.run = some run → run.remaining = command :: rest →
      isVerify fold command.module = false →
      (∀ name hash, RecordsPass state.installed name hash → owns fold name command = false) ∧
      ∀ hash, state.installed.bind (·.payloadHash) = some hash →
        run.payload.manifest.payloadHash = hash
  | _ => True

/-- A unit on which any runs are started, from a record that is true of it. -/
def anyRuns (fold : Char → Char) (sha256 : String → String) (Content : Type) :
    System (History.State fold sha256 Content) (History.Label fold sha256 Content) :=
  History.system fold sha256 Content (fun state => state.run = none ∧ Truthful state)
    fun _ _ _ => True

end Definitions

section History

variable {fold : Char → Char} {sha256 : String → String} {Content : Type}
  {state : History.State fold sha256 Content} {name : String}

theorem published_of_driftTargets {installed : Option InstalledManifest} {build : BuildManifest}
    {validation : Option Validation} (none : driftTargets installed build validation = .none) :
    installed.bind (·.payloadHash) = some build.payloadHash := by
  unfold driftTargets at none
  dsimp only at none
  split at none
  · split at none
    · assumption
    · cases none
  · cases none

/-- A skip means that the published hash is the build's. -/
theorem published_of_alreadyCurrent {tree : ProviderTree} {options : RunOptions}
    {installed : Option InstalledManifest} {build : BuildManifest} {validation : Option Validation}
    (skips : phase5 tree options installed build validation = .alreadyCurrent) :
    installed.bind (·.payloadHash) = some build.payloadHash := by
  unfold phase5 at skips
  split at skips
  · rename_i current
    split at current
    · cases current
    · exact published_of_driftTargets current
  · split at skips
    · cases skips
    · dsimp only at skips
      split at skips <;> cases skips

theorem Truthful.of (recorded : ∀ name hash, RecordsPass state.installed name hash →
      ∃ provision, lastOf fold state.provisions name = some provision ∧
        provision.succeeded = true ∧ moduleHash provision.payload name = hash)
    (aggregate : ∀ hash, state.installed.bind (·.payloadHash) = some hash →
      ∀ provision ∈ state.since, provision.payload.manifest.payloadHash = hash) :
    Truthful state where
  recorded := recorded
  aggregate := aggregate
  skipped _ _ _ _ skips := aggregate _ (published_of_alreadyCurrent skips)

/-- A record is true of a unit on which nothing was started or written. -/
theorem Truthful.frame {other : History.State fold sha256 Content} (truthful : Truthful state)
    (installed : other.installed = state.installed) (since : other.since = state.since)
    (before : other.before = state.before) : Truthful other where
  recorded := by
    simpa [State.provisions, installed, since, before] using truthful.recorded
  aggregate := by simpa [installed, since] using truthful.aggregate
  skipped := by simpa [installed, since] using truthful.skipped

/-- What the merge records as passed was carried forward, or all of the module's
provide commands succeeded in this run. -/
theorem recordsPass_merged {run : History.Run fold sha256 Content} {second : Int} {hash : String}
    (payload : RunsPayload run) (passes : RecordsPass (some (merged state run second)) name hash) :
    RecordsPass state.installed name hash ∨
      (resultsOf fold run.results name false ≠ [] ∧
        (resultsOf fold run.results name false).all id = true ∧
        moduleHash run.payload name = hash) := by
  obtain ⟨entries, entry, isMap, member, provide, hashed⟩ := passes
  obtain rfl := Option.some.inj ((moduleMap_merged state run second).symm.trans isMap)
  have found := OrderedDict.find?_of_mem (mergedMap_distinct state run second) member
  dsimp only at found
  rcases entry_merged payload found with ⟨-, entries, isOld, old⟩ | ⟨-, verify, isTouched⟩
  · exact .inl ⟨entries, entry, isOld, old, provide, hashed⟩
  · obtain rfl := Recorded.entry.inj isTouched
    obtain ⟨ran, all⟩ := kindOutcome_pass (Outcome.text_injective (Option.some.inj provide))
    exact .inr ⟨ran, all, Option.some.inj hashed⟩

variable {run : History.Run fold sha256 Content} {command : Command} {rest : List Command}

/-- A truthful record stays so when a command is started that it does not vouch for. -/
theorem Truthful.started (truthful : Truthful state)
    (vouches : isVerify fold command.module = false →
      (∀ name hash, RecordsPass state.installed name hash → owns fold name command = false) ∧
      ∀ hash, state.installed.bind (·.payloadHash) = some hash →
        run.payload.manifest.payloadHash = hash) :
    Truthful (started state run command rest) := by
  cases verify : isVerify fold command.module with
  | true =>
    exact truthful.frame (by rfl) (by simp [History.started, verify]) (by rfl)
  | false =>
    obtain ⟨unrecorded, unpublished⟩ := vouches verify
    refine Truthful.of ?_ ?_
    · intro name hash passes
      have other : psEq fold (baseName fold command.module) name = false :=
        unrecorded name hash passes
      obtain ⟨provision, last, succeeded, hashed⟩ := truthful.recorded name hash passes
      refine ⟨provision, ?_, succeeded, hashed⟩
      rw [started_provisions verify, lastOf_cons, other]
      exact last
    · intro hash published provision member
      simp only [History.started, verify, Bool.false_eq_true, if_false] at member
      rcases List.mem_cons.mp member with here | earlier
      · rw [here]
        exact unpublished hash published
      · exact truthful.aggregate hash published provision earlier

/-- The start of a provide command that the record vouches for makes it untrue. -/
theorem vouches_of_truthful_started (truthful : Truthful (History.started state run command rest))
    (provides : isVerify fold command.module = false) :
    (∀ name hash, RecordsPass state.installed name hash → owns fold name command = false) ∧
      ∀ hash, state.installed.bind (·.payloadHash) = some hash →
        run.payload.manifest.payloadHash = hash := by
  constructor
  · intro name hash passes
    by_contra owned
    have same : psEq fold (baseName fold command.module) name = true := by simpa [owns] using owned
    obtain ⟨provision, last, succeeded, -⟩ := truthful.recorded name hash passes
    rw [started_provisions provides, lastOf_cons, if_pos same] at last
    rw [← Option.some.inj last] at succeeded
    cases succeeded
  · intro hash published
    refine truthful.aggregate hash published
      ⟨baseName fold command.module, run.payload, run.targets, false⟩ ?_
    simp [History.started, provides]

theorem Truthful.finished (truthful : Truthful state) (exitCode : Option Int) (raises : Bool) :
    Truthful (finished state run command exitCode raises) := by
  by_cases marks : (!isVerify fold command.module && exitSucceeds exitCode) = true
  · refine Truthful.of ?_ ?_
    · intro name hash passes
      obtain ⟨provision, last, succeeded, hashed⟩ := truthful.recorded name hash passes
      obtain ⟨marked, lastMarked, samePayload, stays⟩ := lastOf_markSucceeded last
      refine ⟨marked, ?_, stays succeeded, samePayload ▸ hashed⟩
      simpa only [History.finished, State.provisions, if_pos marks] using lastMarked
    · intro hash published marked member
      simp only [History.finished, if_pos marks] at member
      obtain ⟨provision, isSince, samePayload⟩ := payload_of_markSucceeded member
      rw [samePayload]
      exact truthful.aggregate hash published provision isSince
  · exact truthful.frame (by rfl) (by simp only [History.finished, if_neg marks]) (by rfl)

/-- The record a run writes is true of the unit. -/
theorem Truthful.merged (truthful : Truthful state) (tracks : Tracks state run)
    (idle : run.current = none) (second : Int) :
    Truthful ⟨some (History.merged state run second), none, [], state.provisions⟩ := by
  refine Truthful.of ?_ ?_
  · intro name hash passes
    rcases recordsPass_merged tracks.payload passes with carried | ⟨ran, all, hashed⟩
    · exact truthful.recorded name hash carried
    · obtain ⟨provision, last, succeeded, payload⟩ :=
        tracks.passed name ran all fun other isCurrent => by simp [idle] at isCurrent
      exact ⟨provision, last, succeeded, payload ▸ hashed⟩
  · intro hash _ provision member
    simp at member

theorem Kept.initially (start : History.State fold sha256 Content)
    (initial : (anyRuns fold sha256 Content).Initial start) : Kept start where
  truthful := initial.2
  tracked run isRun := by simp [initial.1] at isRun

/-- A step that starts nothing the record vouches for keeps it true. -/
theorem Kept.step (kept : Kept state) {label : History.Label fold sha256 Content}
    (keeps : KeepsRecord state label) (enabled : History.Enabled (fun _ _ _ => True) state label) :
    Kept (History.next state label) := by
  cases label with
  | start payload targets =>
    refine ⟨kept.truthful.frame rfl rfl rfl, ?_⟩
    rintro _ ⟨⟩
    exact .begin payload targets
  | startCommand =>
    obtain ⟨run, command, rest, isRun, idle, remaining⟩ := enabled
    rw [next_startCommand isRun remaining]
    refine ⟨kept.truthful.started (keeps run command rest isRun remaining), ?_⟩
    rintro _ ⟨⟩
    exact (kept.tracked run isRun).started idle remaining
  | finishCommand exitCode raises =>
    obtain ⟨run, command, isRun, isCurrent⟩ := enabled
    rw [next_finishCommand isRun isCurrent]
    refine ⟨kept.truthful.finished exitCode raises, ?_⟩
    rintro _ ⟨⟩
    exact (kept.tracked run isRun).finished isCurrent exitCode raises
  | write second landed =>
    obtain ⟨run, isRun, idle, -⟩ := enabled
    cases landed with
    | false =>
      rw [next_lostWrite isRun]
      exact ⟨kept.truthful.frame rfl rfl rfl, by simp⟩
    | true =>
      rw [next_write isRun]
      exact ⟨kept.truthful.merged (kept.tracked run isRun) idle second, by simp⟩
  | stop => exact ⟨kept.truthful.frame rfl rfl rfl, by simp [History.next]⟩

/-- A step after which the record is true started nothing it vouches for. -/
theorem keepsRecord_of_truthful {label : History.Label fold sha256 Content}
    (enabled : History.Enabled (fun _ _ _ => True) state label)
    (truthful : Truthful (History.next state label)) : KeepsRecord state label := by
  cases label with
  | startCommand =>
    intro run command rest isRun remaining provides
    rw [next_startCommand isRun remaining] at truthful
    exact vouches_of_truthful_started truthful provides
  | _ => trivial

/-- A unit without a record vouches for nothing. -/
theorem keepsRecord_of_uninstalled {label : History.Label fold sha256 Content}
    (uninstalled : state.installed = none) : KeepsRecord state label := by
  cases label with
  | startCommand =>
    intro run command rest _ _ _
    constructor
    · rintro name hash ⟨entries, entry, isMap, -⟩
      simp [uninstalled, moduleMap] at isMap
    · intro hash published
      simp [uninstalled] at published
  | _ => trivial

/-- The record is true after every step of a run exactly when no step starts
something the record vouches for. -/
theorem truthful_iff_keepsRecord {start : History.State fold sha256 Content}
    {trace : List (System.Taken (History.State fold sha256 Content)
      (History.Label fold sha256 Content))}
    (run : (anyRuns fold sha256 Content).Run start trace state) :
    (∀ taken ∈ trace, Truthful (History.next taken.1 taken.2)) ↔
      ∀ taken ∈ trace, KeepsRecord taken.1 taken.2 := by
  have preserved : ∀ state label, Kept state → KeepsRecord state label →
      (anyRuns fold sha256 Content).Enabled state label → Kept (History.next state label) :=
    fun _ _ kept keeps enabled => kept.step keeps enabled
  have safe : ∀ state label, Kept state → KeepsRecord state label →
      (anyRuns fold sha256 Content).Enabled state label → Truthful (History.next state label) :=
    fun state label kept keeps enabled => (preserved state label kept keeps enabled).truthful
  exact run.everyStep_iff Kept.initially preserved safe
    fun _ _ enabled truthful => keepsRecord_of_truthful enabled truthful

end History

/-- Two builds for a unit: the second has a newer MongoDB client and a renewed
NoMachine licence. -/
inductive Edition
  | first
  | second
deriving DecidableEq, Repr

/-- The version of the MongoDB client. -/
def Edition.version : Edition → String
  | .first => "2.3.1"
  | .second => "2.3.2"

/-- The bytes of the licence. -/
def Edition.licence : Edition → String
  | .first => "valid until 2025"
  | .second => "valid until 2026"

/-- What the module hashes are taken of; the licence is not part of it. -/
def Edition.source (edition : Edition) (name : String) : ModuleSource where
  commandFiles := []
  repoFiles := []
  commands := [name]
  version := if name = "mongodb-client" then edition.version else "1"

/-- A module's entry in `module_state`. -/
def Edition.state (edition : Edition) (name : String) : String × BuiltState :=
  (name, ⟨(edition.source name).version, getModuleContentHash id (edition.source name)⟩)

/-- The licence is staged for `nomachine` by the build. -/
def Edition.manifest (edition : Edition) : BuildManifest where
  payloadHash := edition.version ++ edition.licence
  modules := ["mongodb-client", "nomachine", "reboot"]
  moduleState := [edition.state "mongodb-client", edition.state "nomachine", edition.state "reboot"]
  alwaysModules := ["reboot"]
  modulePayload := [("nomachine", ⟨["nomachine.lic"], []⟩)]
  payloadAlways := ⟨["build-manifest.json", "commands.json"], []⟩

/-- The commands of both builds. -/
def siteCommands : List Command :=
  [⟨550, "Install the MongoDB client", "provide-mongodb-client.ps1", "mongodb-client"⟩,
    ⟨1300, "Install NoMachine", "provide-nomachine.ps1", "nomachine"⟩,
    ⟨9999, "Detect a pending reboot", "provide-reboot.ps1", "reboot"⟩]

def Edition.build (edition : Edition) : StagedBuild Char.toLower id String where
  manifest := edition.manifest
  commands := siteCommands
  modules_ne_nil := by simp [Edition.manifest]
  distinct := by cases edition <;> decide
  plain := by unfold PlainName; cases edition <;> decide
  hashed := by
    have state : ∀ name ∈ edition.manifest.modules, (edition.state name).2.hash ≠ "" ∧
        OrderedDict.get? id edition.manifest.moduleState name = some (edition.state name).2 ∧
        OrderedDict.get? (foldText Char.toLower) edition.manifest.moduleState name =
          some (edition.state name).2 := by
      cases edition <;> decide
    exact fun name isModule => ⟨_, state name isModule⟩
  provided := by cases edition <;> decide
  labelled := by cases edition <;> decide
  content slot := if slot = (.files, "nomachine.lic") then edition.licence else ""
  source := edition.source
  hash_source := by
    intro name isModule built found
    have state : OrderedDict.get? id edition.manifest.moduleState name =
        some (edition.state name).2 := by
      clear found
      revert name
      cases edition <;> decide
    rw [state] at found
    rw [← Option.some.inj found]
    rfl

/-- A unit that was never provisioned. -/
def untouched : History.State Char.toLower id String := ⟨none, none, [], []⟩

theorem untouched_truthful : Truthful untouched := by
  refine Truthful.of ?_ ?_
  · rintro name hash ⟨entries, entry, isMap, -⟩
    simp [untouched, moduleMap] at isMap
  · intro hash published
    simp [untouched] at published

theorem untouched_initial : (anyRuns Char.toLower id String).Initial untouched :=
  ⟨rfl, untouched_truthful⟩

/-- A first run that is interrupted vouches for nothing. -/
theorem truthful_iff_keepsRecord_firstRun :
    (anyRuns Char.toLower id String).Follows untouched
        (interruptedRun Edition.first.build []) ∧
      ∀ taken ∈ (anyRuns Char.toLower id String).steps untouched
        (interruptedRun Edition.first.build []),
      Truthful (History.next taken.1 taken.2) := by
  have commands : runCommands Edition.first.build [] = siteCommands := by decide
  obtain ⟨follows, -⟩ : (anyRuns Char.toLower id String).Follows untouched
      (interruptedRun Edition.first.build []) ∧ _ :=
    interrupted_run rfl trivial commands (by decide)
  refine ⟨follows, (truthful_iff_keepsRecord (.ofLabels untouched_initial follows)).mpr ?_⟩
  intro taken member
  refine keepsRecord_of_uninstalled ?_
  simp only [interruptedRun, System.steps, List.mem_cons, List.not_mem_nil, or_false] at member
  rcases member with rfl | rfl | rfl <;>
    simp [untouched, anyRuns, History.system, History.next, commands, siteCommands, started]

/-- A complete run of the first build, then one of the second that is stopped in
its first command. -/
def interruptedLabels : List (History.Label Char.toLower id String) :=
  completeRun Edition.first.build [] 100 ++
    interruptedRun Edition.second.build ["mongodb-client", "reboot"]

/-- The unit on which the second build was interrupted. -/
def halfChanged : History.State Char.toLower id String where
  installed := (afterCompleteRun untouched Edition.first.build [] 100).installed
  run := none
  since := [⟨"mongodb-client", Edition.second.build, ["mongodb-client", "reboot"], false⟩]
  before := (afterCompleteRun untouched Edition.first.build [] 100).before

theorem halfChanged_reached : (anyRuns Char.toLower id String).Follows untouched interruptedLabels ∧
    (anyRuns Char.toLower id String).after untouched interruptedLabels = halfChanged := by
  obtain ⟨completes, complete⟩ : (anyRuns Char.toLower id String).Follows untouched
        (completeRun Edition.first.build [] 100) ∧
      (anyRuns Char.toLower id String).after untouched (completeRun Edition.first.build [] 100) =
        afterCompleteRun untouched Edition.first.build [] 100 :=
    complete_run rfl trivial 100
  have commands : runCommands Edition.second.build ["mongodb-client", "reboot"] =
      siteCommands.filter fun command => command.module ≠ "nomachine" := by decide
  obtain ⟨follows, after⟩ : (anyRuns Char.toLower id String).Follows
        (afterCompleteRun untouched Edition.first.build [] 100)
        (interruptedRun Edition.second.build ["mongodb-client", "reboot"]) ∧
      (anyRuns Char.toLower id String).after
        (afterCompleteRun untouched Edition.first.build [] 100)
        (interruptedRun Edition.second.build ["mongodb-client", "reboot"]) = halfChanged :=
    interrupted_run rfl trivial commands (by decide)
  rw [interruptedLabels, System.follows_append, System.after_append, complete]
  exact ⟨⟨completes, follows⟩, after⟩

/-- Without the condition a cycle that goes back to the first build skips the unit
on which the second one was interrupted. -/
theorem interrupted_then_reverted :
    ¬ ∀ (start state : History.State Char.toLower id String) trace,
      (anyRuns Char.toLower id String).Run start trace state → state.run = none →
        Truthful state := by
  intro truthful
  obtain ⟨follows, reached⟩ := halfChanged_reached
  have run := System.Run.ofLabels untouched_initial follows
  rw [reached] at run
  have checked : CheckedBefore none 100 := fun report isReport => by cases isReport
  have settled : Settled Edition.first.build.toCompleteBuild ⟨["reboot"], []⟩ none
      halfChanged.installed := settled_full _ keepsLower_toLower checked
  have same := (truthful _ _ _ run rfl).skipped _ _ _ _ settled.2.2 _ List.mem_cons_self
  exact absurd same (by decide)

end MastProvisioning.Driver
