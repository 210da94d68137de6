import MastProvisioning.Driver.RecordTruth

/-!
# What a published payload hash stands for

A module's hash does not cover everything the build attributes to the module. A
run leaves out the modules that did not drift, with their staged entries, and may
still publish the hash of the whole payload, which does cover them.
`published_was_staged` says under which conditions every module then has the
entries of the published build: for a module that a run leaves out, its hash has
to stand for its entries, and a run that ends without writing its record must not
have changed what the record says of a module.
-/

namespace MastProvisioning.Driver

open MastProvisioning.Semantics MastProvisioning.Collections MastProvisioning.PowerShell
open MastProvisioning.Build MastProvisioning.Unit MastProvisioning.Unit.History

section Definitions

variable {fold : Char → Char} {sha256 : String → String} {Content : Type}

/-- The entries that were staged on the unit for a module when a provide command of
it was started: those its build attributes to it, less what its run left out. -/
def stagedFor (provision : Provision fold sha256 Content) : List ((Bucket × String) × Content) :=
  (provision.payload.entries provision.module).filter fun entry =>
    entry.1 ∉ exclusions provision.payload.manifest provision.targets

/-- The last provide command of a module that was successful. -/
def lastSuccess (fold : Char → Char) (provisions : List (Provision fold sha256 Content))
    (name : String) : Option (Provision fold sha256 Content) :=
  provisions.find? fun provision => psEq fold provision.module name && provision.succeeded

/-- The same entries with the same bytes. -/
def SameEntries (entries others : List ((Bucket × String) × Content)) : Prop :=
  ∀ entry, entry ∈ entries ↔ entry ∈ others

/-- A record of a module that the merge takes for installed, with its hash. -/
def RecordsClean (fold : Char → Char) (installed : Option InstalledManifest)
    (name hash : String) : Prop :=
  ∃ entries key entry, moduleMap installed = some entries ∧ (key, .entry entry) ∈ entries ∧
    psEq fold key name = true ∧ psEq fold (fieldText entry.provide) Outcome.pass.text = true ∧
    fieldText entry.hash = hash

/-- The driver starts the run: phase 5 decided for these targets. -/
def admitted (installed : Option InstalledManifest) (payload : StagedBuild fold sha256 Content)
    (targets : List String) : Prop :=
  ∃ tree options validation,
    phase5 tree options installed payload.manifest validation = .run targets

/-- A module of a build that a run with these targets leaves out. -/
def LeavesOut (payload : StagedBuild fold sha256 Content) (targets : List String)
    (name : String) : Prop :=
  name ∈ payload.manifest.modules ∧ (runCommands payload targets).any (owns fold name) = false

/-- The hash of a module stands for its entries, as far as its last successful
provide command is concerned. -/
def HashCovers (state : History.State fold sha256 Content)
    (payload : StagedBuild fold sha256 Content) (name : String) : Prop :=
  ∀ provision, lastSuccess fold state.provisions name = some provision →
    psEq fold (moduleHash provision.payload name) (moduleHash payload name) = true →
    SameEntries (provision.payload.entries provision.module) (payload.entries name)

/-- What succeeded since the record was written agrees with it. -/
def AgreesWithRecord (state : History.State fold sha256 Content) (name : String) : Prop :=
  ∀ provision ∈ state.since, provision.succeeded = true →
    psEq fold provision.module name = true → ∀ hash, RecordsClean fold state.installed name hash →
      psEq fold (moduleHash provision.payload name) hash = true

/-- A run names the modules it executes as the build does, and their hashes stand
for the entries of those it leaves out; a run whose record is not written leaves
the record right. -/
def HashesStand (state : History.State fold sha256 Content) : History.Label fold sha256 Content → Prop
  | .start payload targets =>
    (∀ command ∈ runCommands payload targets,
      targets = [] ∨ baseName fold command.module ∈ targets) ∧
    ∀ name, LeavesOut payload targets name → HashCovers state payload name
  | .write _ false => ∀ name, AgreesWithRecord state name
  | .stop => ∀ name, AgreesWithRecord state name
  | _ => True

/-- When a step publishes a build's hash, every module of the build was last
provided successfully from the entries of that build. -/
def PublishesWhatRan (state : History.State fold sha256 Content) :
    History.Label fold sha256 Content → Prop
  | .write second true => ∀ run, state.run = some run →
    (merged state run second).payloadHash ≠ none →
    ∀ name ∈ run.payload.manifest.modules, ∃ provision,
      lastSuccess fold state.provisions name = some provision ∧
        SameEntries (stagedFor provision) (run.payload.entries name)
  | _ => True

/-- Every module the record vouches for was provided with the recorded hash. -/
def Backed (state : History.State fold sha256 Content) : Prop :=
  ∀ name hash, RecordsClean fold state.installed name hash → ∃ provision,
    lastSuccess fold state.before name = some provision ∧
      psEq fold (moduleHash provision.payload name) hash = true

/-- Every provide command was started with all of its module's entries staged. -/
def FullyStaged (provisions : List (Provision fold sha256 Content)) : Prop :=
  ∀ provision ∈ provisions, provision.module ∈ provision.payload.manifest.modules ∧
    (provision.targets = [] ∨ provision.module ∈ provision.targets)

/-- A unit that the driver's cycles provision, from a record that is backed. -/
def driverCycles (fold : Char → Char) (sha256 : String → String) (Content : Type) :
    System (History.State fold sha256 Content) (History.Label fold sha256 Content) :=
  History.system fold sha256 Content
    (fun state => state.run = none ∧ Backed state ∧ FullyStaged state.provisions ∧
      ∀ name, AgreesWithRecord state name) admitted

/-- What is known of a unit between the driver's steps. -/
structure Accounted (state : History.State fold sha256 Content) : Prop where
  backed : Backed state
  staged : FullyStaged state.provisions
  tracked : ∀ run, state.run = some run → Tracks state run
  named : ∀ run, state.run = some run → ∀ command ∈ runCommands run.payload run.targets,
    run.targets = [] ∨ baseName fold command.module ∈ run.targets
  covered : ∀ run, state.run = some run → ∀ name, LeavesOut run.payload run.targets name →
    HashCovers state run.payload name
  /-- Modules that the run going on does not execute. -/
  agrees : ∀ name, (∀ run, state.run = some run → touches run name = false) →
    AgreesWithRecord state name

end Definitions

section History

variable {fold : Char → Char} {sha256 : String → String} {Content : Type}
  {state : History.State fold sha256 Content} {run : History.Run fold sha256 Content}
  {name : String} {command : Command} {rest : List Command}

/-- Nothing is left out of what is staged for a module that the run names. -/
theorem stagedFor_eq_entries {provision : Provision fold sha256 Content}
    (named : provision.targets = [] ∨ provision.module ∈ provision.targets) :
    stagedFor provision = provision.payload.entries provision.module := by
  refine List.filter_eq_self.mpr ?_
  intro entry member
  obtain ⟨slot, isAttributed, rfl⟩ := List.mem_map.mp member
  rw [decide_eq_true_eq]
  rcases named with full | target
  · simp [exclusions, full]
  · intro excluded
    have claimed : ∃ names, (provision.module, names) ∈ provision.payload.manifest.modulePayload ∧
        slot ∈ names.slots := by
      unfold BuildManifest.attributed at isAttributed
      split at isAttributed
      · rename_i names found
        obtain ⟨entry, isEntry, rfl⟩ := Option.map_eq_some_iff.mp found
        obtain ⟨member, same⟩ := OrderedDict.mem_of_find? isEntry
        have spelled : entry.1 = provision.module := same
        exact ⟨entry.2, spelled ▸ member, isAttributed⟩
      · simp at isAttributed
    obtain ⟨names, isEntry, isSlot⟩ := claimed
    unfold exclusions at excluded
    dsimp only at excluded
    split at excluded
    · simp at excluded
    · have unclaimed := (List.mem_filter.mp excluded).2
      simp only [Bool.and_eq_true, Bool.not_eq_true', List.any_eq_false] at unclaimed
      refine unclaimed.2 (slot, provision.module) ?_ (by simp [target])
      exact List.mem_flatMap.mpr ⟨_, isEntry, List.mem_map_of_mem isSlot⟩

theorem lastSuccess_cons_failed {provision : Provision fold sha256 Content}
    {provisions : List (Provision fold sha256 Content)} (failed : provision.succeeded = false) :
    lastSuccess fold (provision :: provisions) name = lastSuccess fold provisions name := by
  simp [lastSuccess, failed]

theorem lastSuccess_cons_other {provision : Provision fold sha256 Content}
    {provisions : List (Provision fold sha256 Content)}
    (other : psEq fold provision.module name = false) :
    lastSuccess fold (provision :: provisions) name = lastSuccess fold provisions name := by
  simp [lastSuccess, other]

/-- The last command of a module that was started is the last successful one when
it was successful. -/
theorem lastSuccess_of_lastOf {provisions : List (Provision fold sha256 Content)}
    {provision : Provision fold sha256 Content}
    (last : lastOf fold provisions name = some provision) (succeeded : provision.succeeded = true) :
    lastSuccess fold provisions name = some provision := by
  induction provisions with
  | nil => cases last
  | cons newest rest ih =>
    rw [lastOf_cons] at last
    cases own : psEq fold newest.module name with
    | true =>
      rw [if_pos own] at last
      obtain rfl := Option.some.inj last
      simp [lastSuccess, own, succeeded]
    | false =>
      rw [own] at last
      rw [lastSuccess_cons_other own]
      exact ih last

/-- Starting a command changes no module's last success. -/
theorem lastSuccess_started :
    lastSuccess fold (started state run command rest).provisions name =
      lastSuccess fold state.provisions name := by
  cases verify : isVerify fold command.module with
  | true => rw [started_provisions_verify verify]
  | false => rw [started_provisions verify, lastSuccess_cons_failed rfl]

/-- The end of a command changes the last success of its own module only. -/
theorem lastSuccess_finished (tracks : Tracks state run) (isCurrent : run.current = some command)
    (exitCode : Option Int) (raises : Bool) (other : owns fold name command = false) :
    lastSuccess fold (finished state run command exitCode raises).provisions name =
      lastSuccess fold state.provisions name := by
  by_cases marks : (!isVerify fold command.module && exitSucceeds exitCode) = true
  · obtain ⟨provides, succeeded⟩ : isVerify fold command.module = false ∧
        exitSucceeds exitCode = true := by simpa using marks
    obtain ⟨earlier, since⟩ := tracks.current command isCurrent provides
    have different : psEq fold (baseName fold command.module) name = false := other
    simp [finished, State.provisions, provides, succeeded, since, markSucceeded, lastSuccess,
      different]
  · simp only [finished, State.provisions, if_neg marks]

/-- A command of a run belongs to a module that the run does not leave out. -/
theorem not_owns_of_untouched (member : command ∈ runCommands run.payload run.targets)
    (untouched : touches run name = false) : owns fold name command = false := by
  simpa using List.any_eq_false.mp untouched command member

theorem HashCovers.frame {other : History.State fold sha256 Content}
    {payload : StagedBuild fold sha256 Content} (covers : HashCovers state payload name)
    (same : lastSuccess fold other.provisions name = lastSuccess fold state.provisions name) :
    HashCovers other payload name :=
  fun provision last => covers provision (same ▸ last)

theorem Accounted.started (accounted : Accounted state) (isRun : state.run = some run)
    (idle : run.current = none) (remaining : run.remaining = command :: rest) :
    Accounted (started state run command rest) := by
  have tracks := accounted.tracked run isRun
  have isCommand : command ∈ runCommands run.payload run.targets :=
    tracks.payload.remaining command (remaining ▸ List.mem_cons_self)
  refine ⟨accounted.backed, ?_, ?_, ?_, ?_, ?_⟩
  · intro provision member
    cases verify : isVerify fold command.module with
    | true =>
      rw [started_provisions_verify verify] at member
      exact accounted.staged provision member
    | false =>
      rw [started_provisions verify] at member
      rcases List.mem_cons.mp member with rfl | earlier
      · exact ⟨run.payload.baseName_mem (runCommands_subset isCommand),
          accounted.named run isRun command isCommand⟩
      · exact accounted.staged provision earlier
  · rintro _ ⟨⟩
    exact tracks.started idle remaining
  · rintro _ ⟨⟩
    exact accounted.named run isRun
  · rintro _ ⟨⟩ name leavesOut
    exact (accounted.covered run isRun name leavesOut).frame lastSuccess_started
  · intro name untouched provision member succeeded own hash clean
    have untouchedNow := untouched _ rfl
    have untouchedRun : touches run name = false := untouchedNow
    have agrees : AgreesWithRecord state name := accounted.agrees name fun other isOther => by
      rw [isRun] at isOther
      exact Option.some.inj isOther ▸ untouchedRun
    refine agrees provision ?_ succeeded own hash clean
    cases verify : isVerify fold command.module with
    | true => simpa [History.started, verify] using member
    | false =>
      simp only [History.started, verify, Bool.false_eq_true, if_false] at member
      rcases List.mem_cons.mp member with rfl | earlier
      · cases succeeded
      · exact earlier

/-- What becomes of the commands started so far when one ends. -/
theorem provision_of_finished {provision : Provision fold sha256 Content}
    {exitCode : Option Int} {raises : Bool}
    (member : provision ∈ (finished state run command exitCode raises).since) :
    ∃ earlier ∈ state.since, provision.module = earlier.module ∧
      provision.payload = earlier.payload ∧ provision.targets = earlier.targets := by
  unfold finished at member
  split at member
  · cases since : state.since with
    | nil => simp [since, markSucceeded] at member
    | cons newest rest =>
      rw [since] at member
      rcases List.mem_cons.mp member with rfl | later
      · exact ⟨newest, List.mem_cons_self, rfl, rfl, rfl⟩
      · exact ⟨provision, List.mem_cons_of_mem _ later, rfl, rfl, rfl⟩
  · exact ⟨provision, member, rfl, rfl, rfl⟩

theorem Accounted.finished (accounted : Accounted state) (isRun : state.run = some run)
    (isCurrent : run.current = some command) (exitCode : Option Int) (raises : Bool) :
    Accounted (finished state run command exitCode raises) := by
  have tracks := accounted.tracked run isRun
  have isCommand := tracks.payload.current command isCurrent
  refine ⟨accounted.backed, ?_, ?_, ?_, ?_, ?_⟩
  · intro provision member
    rcases List.mem_append.mp member with isSince | isBefore
    · obtain ⟨earlier, isEarlier, sameModule, samePayload, sameTargets⟩ :=
        provision_of_finished isSince
      rw [sameModule, samePayload, sameTargets]
      exact accounted.staged earlier (List.mem_append_left _ isEarlier)
    · exact accounted.staged provision (List.mem_append_right _ isBefore)
  · rintro _ ⟨⟩
    exact tracks.finished isCurrent exitCode raises
  · rintro _ ⟨⟩
    exact accounted.named run isRun
  · rintro _ ⟨⟩ name leavesOut
    have other : owns fold name command = false := not_owns_of_untouched isCommand leavesOut.2
    exact (accounted.covered run isRun name leavesOut).frame
      (lastSuccess_finished tracks isCurrent exitCode raises other)
  · intro name untouched provision member succeeded own hash clean
    have untouchedNow := untouched _ rfl
    have untouchedRun : touches run name = false := untouchedNow
    have other : owns fold name command = false := not_owns_of_untouched isCommand untouchedRun
    have agrees : AgreesWithRecord state name := accounted.agrees name fun another isOther => by
      rw [isRun] at isOther
      exact Option.some.inj isOther ▸ untouchedRun
    refine agrees provision ?_ succeeded own hash clean
    by_cases marks : (!isVerify fold command.module && exitSucceeds exitCode) = true
    · have provides : isVerify fold command.module = false := by simp_all
      obtain ⟨earlier, since⟩ := tracks.current command isCurrent provides
      simp only [History.finished, if_pos marks, since, markSucceeded] at member
      rcases List.mem_cons.mp member with rfl | later
      · -- the command that ended belongs to another module
        have same : owns fold name command = true := own
        rw [other] at same
        cases same
      · rw [since]
        exact List.mem_cons_of_mem _ later
    · simpa only [History.finished, if_neg marks] using member

/-- The module hash of a name does not depend on its spelling. -/
theorem moduleHash_congr {payload : StagedBuild fold sha256 Content} {spelled : String}
    (same : psEq fold spelled name = true) :
    moduleHash payload spelled = moduleHash payload name := by
  simp only [moduleHash, builtState, OrderedDict.get?]
  rw [OrderedDict.find?_congr (psEq_iff.mp same)]

theorem mem_lastSuccess {provisions : List (Provision fold sha256 Content)}
    {provision : Provision fold sha256 Content}
    (last : lastSuccess fold provisions name = some provision) :
    provision ∈ provisions ∧ psEq fold provision.module name = true ∧
      provision.succeeded = true := by
  unfold lastSuccess at last
  have both := List.find?_some last
  exact ⟨List.mem_of_find?_eq_some last, by simpa using both⟩

/-- A module the record vouches for and the run leaves out was provided with the
recorded hash. -/
theorem Accounted.vouched (accounted : Accounted state) {hash : String}
    (untouched : ∀ run, state.run = some run → touches run name = false)
    (clean : RecordsClean fold state.installed name hash) :
    ∃ provision, lastSuccess fold state.provisions name = some provision ∧
      psEq fold (moduleHash provision.payload name) hash = true := by
  obtain ⟨older, lastBefore, hashed⟩ := accounted.backed name hash clean
  unfold lastSuccess State.provisions
  rw [List.find?_append]
  cases newer : lastSuccess fold state.since name with
  | none =>
    refine ⟨older, ?_, hashed⟩
    unfold lastSuccess at newer lastBefore
    rw [newer, lastBefore]
    rfl
  | some provision =>
    obtain ⟨member, own, succeeded⟩ := mem_lastSuccess newer
    refine ⟨provision, ?_, accounted.agrees name untouched provision member succeeded own hash clean⟩
    unfold lastSuccess at newer
    rw [newer]
    rfl

/-- A module all of whose provide commands succeeded was last provided by the run
that is going on. -/
theorem Accounted.provided (accounted : Accounted state) (isRun : state.run = some run)
    (idle : run.current = none) (ran : resultsOf fold run.results name false ≠ [])
    (all : (resultsOf fold run.results name false).all id = true) :
    ∃ provision, lastSuccess fold state.provisions name = some provision ∧
      provision.payload = run.payload := by
  obtain ⟨provision, last, succeeded, payload⟩ := (accounted.tracked run isRun).passed name ran all
    fun other isCurrent => by simp [idle] at isCurrent
  exact ⟨provision, lastSuccess_of_lastOf last succeeded, payload⟩

/-- The record a run writes is backed by what was run. -/
theorem Accounted.backed_merged (accounted : Accounted state) (keeps : KeepsLower fold)
    (isRun : state.run = some run) (idle : run.current = none) (second : Int) {hash : String}
    (clean : RecordsClean fold (some (merged state run second)) name hash) :
    ∃ provision, lastSuccess fold state.provisions name = some provision ∧
      psEq fold (moduleHash provision.payload name) hash = true := by
  have tracks := accounted.tracked run isRun
  obtain ⟨entries, key, entry, isMap, member, named, provide, hashed⟩ := clean
  obtain rfl := Option.some.inj ((moduleMap_merged state run second).symm.trans isMap)
  have found := OrderedDict.find?_of_mem (mergedMap_distinct state run second) member
  dsimp only at found
  rw [OrderedDict.find?_congr (psEq_iff.mp named)] at found
  rcases entry_merged tracks.payload found with
    ⟨untouched, entries, isOld, old⟩ | ⟨-, verify, isTouched⟩
  · refine accounted.vouched ?_ ⟨entries, key, entry, isOld, old, named, provide, hashed⟩
    intro other isOther
    rw [isRun] at isOther
    exact Option.some.inj isOther ▸ untouched
  · obtain rfl := Recorded.entry.inj isTouched
    obtain ⟨ran, all⟩ := kindOutcome_pass (Outcome.eq_pass_of_psEq keeps provide)
    obtain ⟨provision, last, payload⟩ := accounted.provided isRun idle ran all
    refine ⟨provision, last, ?_⟩
    have recorded : moduleHash run.payload key = hash := hashed
    rw [payload, ← recorded, moduleHash_congr named]
    exact psEq_refl _

/-- A write publishes a hash only for what was run. -/
theorem Accounted.publishes (accounted : Accounted state) (keeps : KeepsLower fold)
    (isRun : state.run = some run) (idle : run.current = none) {second : Int}
    (published : (merged state run second).payloadHash ≠ none)
    (isModule : name ∈ run.payload.manifest.modules) :
    ∃ provision, lastSuccess fold state.provisions name = some provision ∧
      SameEntries (stagedFor provision) (run.payload.entries name) := by
  have fully : fullyProvisioned fold run.payload.manifest (mergedMap state run second) = true := by
    by_contra partly
    refine published ?_
    exact if_neg partly
  obtain ⟨entry, found, hashed, provide⟩ := clean_of_fullyProvisioned fully isModule
  obtain ⟨⟨key, recorded⟩, isEntry, isClean⟩ := Option.map_eq_some_iff.mp found
  obtain rfl : recorded = .entry entry := isClean
  have named : psEq fold key name = true := psEq_iff.mpr (OrderedDict.mem_of_find? isEntry).2
  rcases entry_merged (accounted.tracked run isRun).payload isEntry with
    ⟨untouched, entries, isOld, old⟩ | ⟨-, verify, isTouched⟩
  · have untouchedRun : ∀ other, state.run = some other → touches other name = false := by
      intro other isOther
      rw [isRun] at isOther
      exact Option.some.inj isOther ▸ untouched
    obtain ⟨provision, last, vouched⟩ :=
      accounted.vouched untouchedRun ⟨entries, key, entry, isOld, old, named, provide, rfl⟩
    have covers := accounted.covered run isRun name ⟨isModule, untouched⟩
    refine ⟨provision, last, ?_⟩
    rw [stagedFor_eq_entries (accounted.staged provision (mem_lastSuccess last).1).2]
    exact covers provision last (psEq_trans vouched hashed)
  · obtain rfl := Recorded.entry.inj isTouched
    obtain ⟨ran, all⟩ := kindOutcome_pass (Outcome.eq_pass_of_psEq keeps provide)
    obtain ⟨provision, last, payload⟩ := accounted.provided isRun idle ran all
    obtain ⟨member, own, -⟩ := mem_lastSuccess last
    obtain ⟨isProvided, allStaged⟩ := accounted.staged provision member
    rw [payload] at isProvided
    have same : provision.module = name :=
      run.payload.distinct _ isProvided _ isModule (psEq_iff.mp own)
    refine ⟨provision, last, ?_⟩
    rw [stagedFor_eq_entries allStaged, payload, same]
    exact fun entry => Iff.rfl

/-- The unit is accounted for when a run has ended without writing its record. -/
theorem Accounted.ended (accounted : Accounted state)
    (agrees : ∀ name, AgreesWithRecord state name) : Accounted { state with run := none } where
  backed := accounted.backed
  staged := accounted.staged
  tracked := by simp
  named := by simp
  covered := by simp
  agrees name _ := agrees name

theorem Accounted.initially (start : History.State fold sha256 Content)
    (initial : (driverCycles fold sha256 Content).Initial start) : Accounted start := by
  obtain ⟨idle, backed, staged, agrees⟩ := initial
  refine ⟨backed, staged, ?_, ?_, ?_, fun name _ => agrees name⟩ <;> simp [idle]

/-- A step that meets the condition leaves the unit accounted for. -/
theorem Accounted.step (keeps : KeepsLower fold) (accounted : Accounted state)
    {label : History.Label fold sha256 Content} (stand : HashesStand state label)
    (enabled : History.Enabled admitted state label) : Accounted (History.next state label) := by
  cases label with
  | start payload targets =>
    obtain ⟨named, covers⟩ := stand
    refine ⟨accounted.backed, accounted.staged, ?_, ?_, ?_, ?_⟩
    · rintro _ ⟨⟩
      exact .begin payload targets
    · rintro _ ⟨⟩
      exact named
    · rintro _ ⟨⟩
      exact covers
    · exact fun name _ => accounted.agrees name fun run isRun => by simp [enabled.1] at isRun
  | startCommand =>
    obtain ⟨run, command, rest, isRun, idle, remaining⟩ := enabled
    rw [next_startCommand isRun remaining]
    exact accounted.started isRun idle remaining
  | finishCommand exitCode raises =>
    obtain ⟨run, command, isRun, isCurrent⟩ := enabled
    rw [next_finishCommand isRun isCurrent]
    exact accounted.finished isRun isCurrent exitCode raises
  | write second landed =>
    obtain ⟨run, isRun, idle, -⟩ := enabled
    cases landed with
    | false =>
      rw [next_lostWrite isRun]
      exact accounted.ended stand
    | true =>
      rw [next_write isRun]
      exact
        { backed := fun name hash clean => accounted.backed_merged keeps isRun idle second clean
          staged := accounted.staged
          tracked := by simp
          named := by simp
          covered := by simp
          agrees := fun name _ provision member => by simp at member }
  | stop => exact accounted.ended stand

/-- In every run whose steps meet the condition, whenever a build's hash is
published, every module of the build was last provided successfully from the
entries that build attributes to it. -/
theorem published_was_staged (keeps : KeepsLower fold) {start : History.State fold sha256 Content}
    {trace : List (System.Taken (History.State fold sha256 Content)
      (History.Label fold sha256 Content))}
    (run : (driverCycles fold sha256 Content).Run start trace state)
    (stand : ∀ taken ∈ trace, HashesStand taken.1 taken.2) :
    ∀ taken ∈ trace, PublishesWhatRan taken.1 taken.2 := by
  have preserved : ∀ state label, Accounted state → HashesStand state label →
      (driverCycles fold sha256 Content).Enabled state label → Accounted (History.next state label) :=
    fun _ _ accounted stand enabled => accounted.step keeps stand enabled
  refine run.everyStep Accounted.initially preserved ?_ stand
  intro state label accounted _ enabled
  cases label with
  | write second landed =>
    cases landed with
    | false => trivial
    | true =>
      obtain ⟨_, isRun, idle, -⟩ := enabled
      intro other isOther published name isModule
      rw [isRun] at isOther
      obtain rfl := Option.some.inj isOther
      exact accounted.publishes keeps isRun idle published isModule
  | _ => trivial

end History

theorem untouched_isStart : (driverCycles Char.toLower id String).Initial untouched := by
  refine ⟨rfl, ?_, ?_, ?_⟩
  · rintro name hash ⟨entries, key, entry, isMap, -⟩
    cases isMap
  · intro provision member
    cases member
  · intro name provision member
    cases member

/-- What `--force` runs on a unit without a record. -/
theorem first_admitted : admitted untouched.installed Edition.first.build [] :=
  ⟨⟨["reboot"], []⟩, ⟨true, []⟩, none, rfl⟩

theorem firstRun_reached :
    (driverCycles Char.toLower id String).Follows untouched
        (completeRun Edition.first.build [] 100) ∧
      (driverCycles Char.toLower id String).after untouched
        (completeRun Edition.first.build [] 100) =
          afterCompleteRun untouched Edition.first.build [] 100 :=
  complete_run rfl first_admitted 100

/-- A first run over everything meets the condition. -/
theorem published_was_staged_firstRun :
    (driverCycles Char.toLower id String).Follows untouched
        (completeRun Edition.first.build [] 100) ∧
      ∀ taken ∈ (driverCycles Char.toLower id String).steps untouched
        (completeRun Edition.first.build [] 100), PublishesWhatRan taken.1 taken.2 := by
  refine ⟨firstRun_reached.1, published_was_staged keepsLower_toLower
    (.ofLabels untouched_isStart firstRun_reached.1) ?_⟩
  intro taken member
  rcases List.mem_cons.mp member with rfl | later
  · refine ⟨fun _ _ => .inl rfl, ?_⟩
    rintro name ⟨isModule, untouched⟩
    have touched : ∀ name ∈ Edition.first.build.manifest.modules,
        (runCommands Edition.first.build []).any (owns Char.toLower name) = true := by decide
    rw [touched name isModule] at untouched
    cases untouched
  · have isLabel := System.label_of_mem_steps later
    have harmless : taken.2 = .startCommand ∨ taken.2 = .finishCommand (some 0) false ∨
        taken.2 = .write 100 true := by
      rcases List.mem_append.mp isLabel with isCommand | isWrite
      · obtain ⟨_, _, isStep⟩ := List.mem_flatMap.mp isCommand
        simp only [List.mem_cons, List.not_mem_nil, or_false] at isStep
        rcases isStep with isStart | isFinish
        · exact .inl isStart
        · exact .inr (.inl isFinish)
      · exact .inr (.inr (List.mem_singleton.mp isWrite))
    rcases harmless with label | label | label <;> (rw [label]; trivial)

/-- What the driver runs for the second build after the first: the licence is not
among what the module hashes are taken of. -/
def secondTargets : List String := ["mongodb-client", "reboot"]

theorem second_admitted : admitted
    (afterCompleteRun untouched Edition.first.build [] 100).installed Edition.second.build
      secondTargets :=
  ⟨⟨["reboot"], []⟩, plainRun, none, by decide +kernel⟩

/-- The unit when the second run has executed its commands. -/
def secondRun : History.State Char.toLower id String :=
  afterWholeRun (afterCompleteRun untouched Edition.first.build [] 100) Edition.second.build
    secondTargets

/-- Without the condition the second build's hash is published on a unit that has
the first build's licence. -/
theorem licence_not_staged :
    ¬ ∀ (start state : History.State Char.toLower id String) trace,
      (driverCycles Char.toLower id String).Run start trace state →
        ∀ taken ∈ trace, PublishesWhatRan taken.1 taken.2 := by
  intro publishes
  obtain ⟨first, afterFirst⟩ := firstRun_reached
  obtain ⟨second, afterSecond⟩ : (driverCycles Char.toLower id String).Follows
        (afterCompleteRun untouched Edition.first.build [] 100)
        (wholeRun Edition.second.build secondTargets) ∧
      (driverCycles Char.toLower id String).after
        (afterCompleteRun untouched Edition.first.build [] 100)
        (wholeRun Edition.second.build secondTargets) = secondRun :=
    whole_run rfl second_admitted
  have follows : (driverCycles Char.toLower id String).Follows untouched
      (completeRun Edition.first.build [] 100 ++ wholeRun Edition.second.build secondTargets) :=
    System.follows_append.mpr ⟨first, afterFirst ▸ second⟩
  have reached : (driverCycles Char.toLower id String).after untouched
      (completeRun Edition.first.build [] 100 ++ wholeRun Edition.second.build secondTargets) =
        secondRun := by
    rw [System.after_append, afterFirst, afterSecond]
  have writes : (driverCycles Char.toLower id String).Follows untouched
      ((completeRun Edition.first.build [] 100 ++ wholeRun Edition.second.build secondTargets) ++
        [.write 200 true]) :=
    System.follows_append.mpr ⟨follows, reached ▸ ⟨⟨_, rfl, rfl, rfl⟩, trivial⟩⟩
  have last : (secondRun, .write 200 true) ∈ (driverCycles Char.toLower id String).steps untouched
      ((completeRun Edition.first.build [] 100 ++ wholeRun Edition.second.build secondTargets) ++
        [.write 200 true]) :=
    reached ▸ System.last_mem_steps _ _ _
  have published : (merged secondRun (wholeRunEnd Edition.second.build secondTargets) 200).payloadHash
      ≠ none := by decide +kernel
  obtain ⟨provision, isLast, same⟩ := publishes _ _ _ (.ofLabels untouched_isStart writes) _ last _ rfl
    published "nomachine" (by decide)
  have fromFirst : lastSuccess Char.toLower secondRun.provisions "nomachine" =
      some ⟨"nomachine", Edition.first.build, [], true⟩ := rfl
  obtain rfl := Option.some.inj (fromFirst.symm.trans isLast)
  have renewed : (((.files, "nomachine.lic"), "valid until 2026") : (Bucket × String) × String) ∈
      Edition.second.build.entries "nomachine" := by decide
  have staged := (same _).mpr renewed
  exact absurd staged (by decide)

end MastProvisioning.Driver
