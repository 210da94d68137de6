import MastProvisioning.Driver.Drift
import MastProvisioning.Unit.Execute

/-!
# Drift convergence

Cycles of the driver against one build, each of them writing the manifest and with
every executed command succeeding, bring a unit to the state in which the next
cycle skips it. The classifier and the merge disagree about what is settled (a
record without a provide outcome is up to date for one and not clean for the
other), so the argument keeps both in view: `UpToDate` is the classifier's view of
a module, `Clean` the merge's.
-/

namespace MastProvisioning.Driver

open MastProvisioning.Collections MastProvisioning.PowerShell MastProvisioning.Build
open MastProvisioning.Unit

section Definitions

variable {fold : Char → Char} (build : CompleteBuild fold)

/-- The commands a run for these targets executes. -/
def targetCommands (targets : List String) : List Command :=
  filterCommands fold (PowerShell.joinNames targets) build.commands

/-- What the record becomes when every command of a run succeeds. -/
def executeAll (installed : Option InstalledManifest) (targets : List String) (at_ : Stamp) :
    InstalledManifest :=
  mergeInstalledManifest fold (readPrevious fold installed) build.manifest
    (outcomesAfter fold (targetCommands build targets)
      ((targetCommands build targets).map fun command => (command, true))) at_

variable (tree : ProviderTree) (validation : Option Validation)

/-- A driver run without `--force` and without `--modules`. -/
def plainRun : RunOptions := ⟨false, []⟩

/-- One cycle of the driver; a cycle that skips leaves the record alone. -/
def cycle (installed : Option InstalledManifest) (second : Int) : Option InstalledManifest :=
  match phase5 tree plainRun installed build.manifest validation with
  | .run targets => some (executeAll build installed targets (.utc second))
  | _ => installed

/-- The classifier finds nothing to do for a module. -/
def UpToDate (installed : Option InstalledManifest) (name : String) : Prop :=
  (moduleDrift (recordedModules installed) build.manifest validation name).state = .upToDate

/-- The next cycle classifies every module as up to date, finds the aggregate hash
equal, and skips. -/
def Settled (installed : Option InstalledManifest) : Prop :=
  (∀ name ∈ build.manifest.modules, UpToDate build validation installed name) ∧
    installed.bind (·.payloadHash) = some build.manifest.payloadHash ∧
    phase5 tree plainRun installed build.manifest validation = .alreadyCurrent

/-- The verify report, if there is one, was written before `second`. -/
def CheckedBefore (second : Int) : Prop :=
  ∀ report, validation = some report →
    ∃ checked, report.checkedAt = some (.utc checked) ∧ checked < second

/-- A run for these targets executes the commands of this module. -/
def Touched (targets : List String) (name : String) : Prop :=
  targets = [] ∨ name ∈ targets

end Definitions

section Report

variable {installed : Option InstalledManifest} {build : BuildManifest}
  {validation : Option Validation}

/-- No module of the build is reported as extra. -/
theorem moduleDrift_ne_extra (recorded : List (String × Recorded)) (name : String) :
    (moduleDrift recorded build validation name).state ≠ .extra := by
  unfold moduleDrift
  split
  · simp
  · simp
  · simp only [recordedState]
    split
    · simp
    · split <;> simp

/-- A module is up to date exactly when it has an entry and the entry is. -/
theorem moduleDrift_upToDate {recorded : List (String × Recorded)} {name : String} :
    (moduleDrift recorded build validation name).state = .upToDate ↔
      ∃ entry, OrderedDict.get? id recorded name = some (.entry entry) ∧
        recordedState entry ((OrderedDict.get? id build.moduleState name).map BuiltState.hash)
          (liveVerdict validation name) (validation.bind (·.checkedAt)) = .upToDate := by
  unfold moduleDrift
  cases found : OrderedDict.get? id recorded name with
  | none => simp
  | some value =>
    cases value with
    | null => simp
    | scalar => simp [entryFields, recordedState]
    | entry fields => simp [entryFields]

theorem moduleDrift_name (recorded : List (String × Recorded)) (name : String) :
    (moduleDrift recorded build validation name).name = name := by
  unfold moduleDrift
  split <;> rfl

/-- A module of the build that is not up to date is actionable. -/
theorem actionable_iff (recorded : List (String × Recorded)) (name : String) :
    (moduleDrift recorded build validation name).state.actionable = true ↔
      (moduleDrift recorded build validation name).state ≠ .upToDate := by
  have notExtra : (moduleDrift recorded build validation name).state ≠ .extra :=
    moduleDrift_ne_extra recorded name
  cases state : (moduleDrift recorded build validation name).state <;>
    simp_all [ModuleState.actionable]

theorem mem_drifted {name : String} :
    name ∈ (classify installed build validation).drifted ↔
      name ∈ build.modules ∧
        (moduleDrift (recordedModules installed) build validation name).state ≠ .upToDate := by
  simp only [DriftReport.drifted, classify, List.filter_append, List.map_append, List.mem_append]
  constructor
  · rintro (drifted | extra)
    · obtain ⟨row, isRow, rfl⟩ := List.mem_map.mp drifted
      obtain ⟨member, actionable⟩ := List.mem_filter.mp isRow
      obtain ⟨module, isModule, rfl⟩ := List.mem_map.mp member
      rw [moduleDrift_name]
      exact ⟨isModule, (actionable_iff _ module).mp actionable⟩
    · obtain ⟨row, isRow, rfl⟩ := List.mem_map.mp extra
      obtain ⟨member, actionable⟩ := List.mem_filter.mp isRow
      obtain ⟨module, -, rfl⟩ := List.mem_map.mp member
      simp [extraDrift, ModuleState.actionable] at actionable
  · rintro ⟨isModule, drifted⟩
    refine .inl (List.mem_map.mpr ⟨_, List.mem_filter.mpr ⟨List.mem_map_of_mem isModule, ?_⟩,
      moduleDrift_name _ name⟩)
    exact (actionable_iff _ name).mpr drifted

theorem drifted_eq_nil :
    (classify installed build validation).drifted = [] ↔ ∀ name ∈ build.modules,
      (moduleDrift (recordedModules installed) build validation name).state = .upToDate := by
  simp only [List.eq_nil_iff_forall_not_mem, mem_drifted, not_and, ne_eq, not_not]

/-- Every drifted module is a target. -/
theorem drifted_subset_targets {name : String}
    (drifted : name ∈ (classify installed build validation).drifted) :
    name ∈ (classify installed build validation).targets := by
  have some : (classify installed build validation).drifted ≠ [] := List.ne_nil_of_mem drifted
  obtain ⟨row, isRow, named⟩ := List.mem_map.mp drifted
  unfold DriftReport.targets
  rw [if_neg some]
  refine List.mem_map.mpr ⟨row, List.mem_filter.mpr ⟨(List.mem_filter.mp isRow).1, ?_⟩, named⟩
  simpa [named] using Or.inl drifted

/-- Only modules of the build are targets. -/
theorem targets_subset {name : String}
    (target : name ∈ (classify installed build validation).targets) : name ∈ build.modules := by
  unfold DriftReport.targets at target
  split at target
  · simp at target
  · obtain ⟨row, isRow, rfl⟩ := List.mem_map.mp target
    have wanted := of_decide_eq_true (List.mem_filter.mp isRow).2
    rcases List.mem_append.mp wanted with drifted | always
    · exact (mem_drifted.mp drifted).1
    · obtain ⟨closing, isClosing, named⟩ := List.mem_map.mp always
      obtain ⟨member, kept⟩ := List.mem_filter.mp isClosing
      rw [← named]
      rcases List.mem_append.mp member with fromBuild | extra
      · obtain ⟨module, isModule, rfl⟩ := List.mem_map.mp fromBuild
        rwa [moduleDrift_name]
      · obtain ⟨module, -, rfl⟩ := List.mem_map.mp extra
        simp [extraDrift] at kept

theorem current_iff : (classify installed build validation).current = true ↔
    ∀ name ∈ build.modules,
      (moduleDrift (recordedModules installed) build validation name).state = .upToDate := by
  rw [← drifted_eq_nil]
  unfold DriftReport.current
  rw [List.isEmpty_iff]
  constructor
  · intro none
    exact List.eq_nil_iff_forall_not_mem.mpr fun name drifted => by
      have target := drifted_subset_targets drifted
      simp [none] at target
  · intro none
    simp [DriftReport.targets, none]

end Report

section Run

variable {fold : Char → Char} {build : CompleteBuild fold} {targets : List String}

/-- A command of the build belongs to the module it is labelled with. -/
theorem owns_iff_baseName {command : Command} (member : command ∈ build.commands) {name : String}
    (isModule : name ∈ build.manifest.modules) :
    owns fold name command = true ↔ baseName fold command.module = name := by
  rw [owns_iff]
  constructor
  · exact build.distinct _ (build.baseName_mem member) _ isModule
  · exact fun same => by rw [same]

theorem mem_targetCommands (subset : ∀ name ∈ targets, name ∈ build.manifest.modules)
    {command : Command} :
    command ∈ targetCommands build targets ↔
      command ∈ build.commands ∧ Touched targets (baseName fold command.module) := by
  have plain : ∀ name ∈ targets, PlainName name :=
    fun name target => (build.plain name (subset name target)).1
  unfold targetCommands filterCommands
  rw [isBlank_joinNames plain]
  by_cases none : targets = []
  · simp [none, Touched]
  · have some : targets.isEmpty = false := by simpa using none
    rw [some, splitNames_joinNames plain none]
    simp only [Bool.false_eq_true, if_false, List.mem_filter, List.any_eq_true, Touched, none,
      false_or]
    refine and_congr_right fun member => ⟨?_, fun target => ⟨_, target, psEq_refl _⟩⟩
    rintro ⟨name, target, same⟩
    have equal := build.distinct _ (subset name target) _ (build.baseName_mem member)
      (psEq_iff.mp same)
    exact equal ▸ target

theorem any_owns_iff (subset : ∀ name ∈ targets, name ∈ build.manifest.modules) {name : String}
    (isModule : name ∈ build.manifest.modules) :
    (targetCommands build targets).any (owns fold name) = true ↔ Touched targets name := by
  rw [List.any_eq_true]
  constructor
  · rintro ⟨command, isTarget, own⟩
    obtain ⟨member, touched⟩ := (mem_targetCommands subset).mp isTarget
    rwa [(owns_iff_baseName member isModule).mp own] at touched
  · intro touched
    obtain ⟨command, member, base, -⟩ := build.provide_command isModule
    exact ⟨command, (mem_targetCommands subset).mpr ⟨member, base ▸ touched⟩,
      (owns_iff_baseName member isModule).mpr base⟩

/-- A key of the collected outcomes that PowerShell takes for a module's name is
that name. -/
theorem outcome_key (subset : ∀ name ∈ targets, name ∈ build.manifest.modules)
    {results : List (Command × Bool)}
    (ran : ∀ result ∈ results, result.1 ∈ targetCommands build targets) {name : String}
    (isModule : name ∈ build.manifest.modules) {entry : String × ModuleOutcome}
    (found : OrderedDict.find? (foldText fold)
      (outcomesAfter fold (targetCommands build targets) results) name = some entry) :
    entry.1 = name := by
  obtain ⟨member, same⟩ := OrderedDict.mem_of_find? found
  obtain ⟨command, isTarget, base⟩ := outcomesAfter_key ran member
  have isBuild := ((mem_targetCommands subset).mp isTarget).1
  exact build.distinct _ (base ▸ build.baseName_mem isBuild) _ isModule same

theorem get?_outcomes (subset : ∀ name ∈ targets, name ∈ build.manifest.modules)
    {results : List (Command × Bool)}
    (ran : ∀ result ∈ results, result.1 ∈ targetCommands build targets) (name : String) :
    OrderedDict.get? (foldText fold)
        (outcomesAfter fold (targetCommands build targets) results) name =
      if (targetCommands build targets).any (owns fold name) then
        some ⟨kindOutcome (declares fold (targetCommands build targets) name false)
            (resultsOf fold results name false),
          kindOutcome (declares fold (targetCommands build targets) name true)
            (resultsOf fold results name true)⟩
      else none :=
  get?_outcomesAfter
    (fun _ member => build.isBlank_label ((mem_targetCommands subset).mp member).1) ran name

theorem find?_outcomes_untouched (subset : ∀ name ∈ targets, name ∈ build.manifest.modules)
    {results : List (Command × Bool)}
    (ran : ∀ result ∈ results, result.1 ∈ targetCommands build targets) {name : String}
    (isModule : name ∈ build.manifest.modules) (untouched : ¬ Touched targets name) :
    OrderedDict.find? (foldText fold)
      (outcomesAfter fold (targetCommands build targets) results) name = none := by
  have notOwned : ¬ (targetCommands build targets).any (owns fold name) = true :=
    fun owned => untouched ((any_owns_iff subset isModule).mp owned)
  have absent := get?_outcomes subset ran name
  rw [if_neg notOwned] at absent
  simpa [OrderedDict.get?] using absent

/-- A run that touches a module executes its provide command. -/
theorem declares_provide (subset : ∀ name ∈ targets, name ∈ build.manifest.modules) {name : String}
    (isModule : name ∈ build.manifest.modules) (touched : Touched targets name) :
    declares fold (targetCommands build targets) name false = true := by
  obtain ⟨command, member, base, notVerify⟩ := build.provide_command isModule
  refine List.any_eq_true.mpr
    ⟨command, (mem_targetCommands subset).mpr ⟨member, base ▸ touched⟩, ?_⟩
  simp [(owns_iff_baseName member isModule).mpr base, notVerify]

/-- The collected outcome of a module whose commands a run executes. -/
theorem find?_outcomes_touched (subset : ∀ name ∈ targets, name ∈ build.manifest.modules)
    {results : List (Command × Bool)}
    (ran : ∀ result ∈ results, result.1 ∈ targetCommands build targets) {name : String}
    (isModule : name ∈ build.manifest.modules) (touched : Touched targets name) :
    OrderedDict.find? (foldText fold)
      (outcomesAfter fold (targetCommands build targets) results) name =
      some (name,
        ⟨kindOutcome (declares fold (targetCommands build targets) name false)
            (resultsOf fold results name false),
          kindOutcome (declares fold (targetCommands build targets) name true)
            (resultsOf fold results name true)⟩) := by
  have owned := (any_owns_iff subset isModule).mpr touched
  have outcome := get?_outcomes subset ran name
  rw [if_pos owned] at outcome
  obtain ⟨entry, found, value⟩ := Option.map_eq_some_iff.mp outcome
  rw [found, ← value, ← outcome_key subset ran isModule found]

/-- When every command of a run succeeds, so does each kind of command of a module
that has one. -/
theorem kindOutcome_all (commands : List Command) (name : String) (verify : Bool) :
    kindOutcome (declares fold commands name verify)
        (resultsOf fold (commands.map fun command => (command, true)) name verify) =
      if declares fold commands name verify then .pass else .none := by
  have allTrue : (resultsOf fold (commands.map fun command => (command, true)) name verify).all id
      = true := by
    simp [resultsOf]
  have ranIff : resultsOf fold (commands.map fun command => (command, true)) name verify = [] ↔
      declares fold commands name verify = false := by
    simp [resultsOf, declares, List.filter_eq_nil_iff]
  by_cases declared : declares fold commands name verify = true
  · have ran : resultsOf fold (commands.map fun command => (command, true)) name verify ≠ [] :=
      fun none => by simp [ranIff.mp none] at declared
    rw [kindOutcome, if_neg ran, if_pos allTrue, if_pos declared]
  · have notDeclared : declares fold commands name verify = false := by simpa using declared
    rw [kindOutcome, if_pos (ranIff.mpr notDeclared), notDeclared]
    rfl

end Run

section Record

variable {fold : Char → Char} {entries : List (String × Recorded)} {name : String}

theorem find?_pythonDict (distinct : OrderedDict.Distinct (foldText fold) entries) :
    OrderedDict.find? id (pythonDict entries) name = OrderedDict.find? id entries name := by
  unfold pythonDict
  rw [OrderedDict.find?_setAll distinct.exact]
  simp

/-- Python finds an entry that PowerShell finds under the same spelling. -/
theorem get?_pythonDict (distinct : OrderedDict.Distinct (foldText fold) entries)
    {recorded : Recorded}
    (found : OrderedDict.find? (foldText fold) entries name = some (name, recorded)) :
    OrderedDict.get? id (pythonDict entries) name = some recorded := by
  unfold OrderedDict.get?
  rw [find?_pythonDict distinct, OrderedDict.find?_exact distinct found]
  rfl

/-- An entry Python finds is one PowerShell finds under that spelling. -/
theorem find?_of_get?_pythonDict (distinct : OrderedDict.Distinct (foldText fold) entries)
    {recorded : Recorded}
    (found : OrderedDict.get? id (pythonDict entries) name = some recorded) :
    OrderedDict.find? (foldText fold) entries name = some (name, recorded) := by
  unfold OrderedDict.get? at found
  rw [find?_pythonDict distinct] at found
  obtain ⟨entry, isEntry, value⟩ := Option.map_eq_some_iff.mp found
  obtain ⟨spelled, foundFolded⟩ := OrderedDict.find?_of_exact distinct isEntry
  rw [foundFolded, ← spelled, ← value]

end Record

section Cycle

variable {fold : Char → Char} {build : CompleteBuild fold} {validation : Option Validation}
  {targets : List String} {installed : Option InstalledManifest} {second : Int} {name : String}

/-- The module map a run leaves. -/
def mapAfter (build : CompleteBuild fold) (installed : Option InstalledManifest)
    (targets : List String) (second : Int) : List (String × Recorded) :=
  mergedModules fold (readPrevious fold installed) build.manifest
    (outcomesAfter fold (targetCommands build targets)
      ((targetCommands build targets).map fun command => (command, true))) (.utc second)

theorem recordedModules_executeAll : recordedModules
    (some (executeAll build installed targets (.utc second))) =
      pythonDict (mapAfter build installed targets second) := rfl

theorem all_ran : ∀ result ∈ (targetCommands build targets).map (fun command => (command, true)),
    result.1 ∈ targetCommands build targets := by
  simp

/-- The entry a run writes for a module it touches, all commands succeeding. -/
def successEntry (build : CompleteBuild fold) (name : String) (verify : Outcome) (second : Int) :
    ModuleEntry :=
  touchedEntry fold build.manifest (.utc second) name ⟨.pass, verify⟩

theorem find?_mapAfter_touched (subset : ∀ name ∈ targets, name ∈ build.manifest.modules)
    (isModule : name ∈ build.manifest.modules) (touched : Touched targets name) :
    ∃ verify, (verify = .pass ∨ verify = .none) ∧
      OrderedDict.find? (foldText fold) (mapAfter build installed targets second) name =
        some (name, .entry (successEntry build name verify second)) := by
  have outcome := find?_outcomes_touched subset all_ran isModule touched
  rw [kindOutcome_all, kindOutcome_all, declares_provide subset isModule touched, if_pos rfl]
    at outcome
  have merged : OrderedDict.find? (foldText fold) (mapAfter build installed targets second) name =
      some (name, .entry (successEntry build name
        (if declares fold (targetCommands build targets) name true then .pass else .none)
        second)) := by
    unfold mapAfter
    rw [find?_mergedModules (outcomesAfter_distinct _ _), outcome]
    rfl
  refine ⟨_, ?_, merged⟩
  split
  · exact .inl rfl
  · exact .inr rfl

/-- A module that a run does not touch has the entry carried forward, if any. -/
theorem find?_mapAfter_untouched (subset : ∀ name ∈ targets, name ∈ build.manifest.modules)
    (isModule : name ∈ build.manifest.modules) (untouched : ¬ Touched targets name) :
    OrderedDict.find? (foldText fold) (mapAfter build installed targets second) name =
      OrderedDict.find? (foldText fold) (carriedForward fold (readPrevious fold installed)) name := by
  unfold mapAfter
  rw [find?_mergedModules (outcomesAfter_distinct _ _),
    find?_outcomes_untouched subset all_ran isModule untouched]
  rfl

/-- The classifier finds a module it just ran up to date. -/
theorem recordedState_success (isModule : name ∈ build.manifest.modules)
    (before : CheckedBefore validation second) {verify : Outcome}
    (clean : verify = .pass ∨ verify = .none) :
    recordedState (successEntry build name verify second)
      ((OrderedDict.get? id build.manifest.moduleState name).map BuiltState.hash)
      (liveVerdict validation name) (validation.bind (·.checkedAt)) = .upToDate := by
  obtain ⟨built, hashed, exact, folded⟩ := build.hashed name isModule
  have verdict : foldCase (liveVerdict validation name) = "fail" →
      validationIsStale (validation.bind (·.checkedAt)) (some (.utc second)) = true := by
    intro failed
    cases validation with
    | none =>
      have empty : foldCase "" ≠ "fail" := by decide
      exact absurd failed empty
    | some report =>
      obtain ⟨checked, isChecked, earlier⟩ := before report rfl
      simp [validationIsStale, isChecked, earlier]
  have hashes : builtState fold build.manifest name = built := by simp [builtState, folded]
  have known : unknownOutcome (some verify.text) = false := by
    rcases clean with rfl | rfl <;> decide
  unfold recordedState successEntry touchedEntry
  simp only [exact, hashes, known, Option.map_some]
  by_cases failed : foldCase (liveVerdict validation name) = "fail"
  · simp [unknownOutcome, Outcome.text, hashed, verdict failed]
  · simp [unknownOutcome, Outcome.text, hashed, failed]

/-- The merge finds a module it just ran clean. -/
theorem entryClean_success (keeps : KeepsLower fold) (isModule : name ∈ build.manifest.modules)
    {verify : Outcome} (clean : verify = .pass ∨ verify = .none) :
    entryClean fold build.manifest name (.entry (successEntry build name verify second)) = true := by
  obtain ⟨built, hashed, -, folded⟩ := build.hashed name isModule
  have hashes : builtState fold build.manifest name = built := by simp [builtState, folded]
  have text : ∀ outcome : Outcome, foldText fold outcome.text = outcome.text := fun outcome =>
    outcome.foldText_text keeps
  unfold entryClean successEntry touchedEntry
  rcases clean with rfl | rfl <;>
    simp only [fieldText, Option.getD_some, psEq, text, hashes] <;>
    simp [hashed, Outcome.text]

theorem mapAfter_distinct :
    OrderedDict.Distinct (foldText fold) (mapAfter build installed targets second) :=
  mergedModules_distinct

theorem upToDate_of_found {entry : ModuleEntry}
    (found : OrderedDict.find? (foldText fold) (mapAfter build installed targets second) name =
      some (name, .entry entry))
    (settled : recordedState entry
      ((OrderedDict.get? id build.manifest.moduleState name).map BuiltState.hash)
      (liveVerdict validation name) (validation.bind (·.checkedAt)) = .upToDate) :
    UpToDate build validation (some (executeAll build installed targets (.utc second))) name :=
  moduleDrift_upToDate.mpr ⟨entry, get?_pythonDict mapAfter_distinct found, settled⟩

/-- A module a run touches is up to date afterwards. -/
theorem upToDate_touched (subset : ∀ name ∈ targets, name ∈ build.manifest.modules)
    (isModule : name ∈ build.manifest.modules) (touched : Touched targets name)
    (before : CheckedBefore validation second) :
    UpToDate build validation (some (executeAll build installed targets (.utc second))) name := by
  obtain ⟨verify, clean, found⟩ := find?_mapAfter_touched subset isModule touched
  exact upToDate_of_found found (recordedState_success isModule before clean)

/-- A module recorded under its own spelling, in a state the merge accepts. -/
def CleanIn (build : CompleteBuild fold) (entries : List (String × Recorded)) (name : String) :
    Prop :=
  ∃ entry, OrderedDict.find? (foldText fold) entries name = some (name, .entry entry) ∧
    entryClean fold build.manifest name (.entry entry) = true

theorem cleanIn_touched (keeps : KeepsLower fold)
    (subset : ∀ name ∈ targets, name ∈ build.manifest.modules)
    (isModule : name ∈ build.manifest.modules) (touched : Touched targets name) :
    CleanIn build (mapAfter build installed targets second) name := by
  obtain ⟨verify, clean, found⟩ := find?_mapAfter_touched subset isModule touched
  exact ⟨_, found, entryClean_success keeps isModule clean⟩

/-- The aggregate hash is published when every module is clean. -/
theorem payloadHash_executeAll
    (clean : ∀ name ∈ build.manifest.modules,
      CleanIn build (mapAfter build installed targets second) name) :
    (executeAll build installed targets (.utc second)).payloadHash =
      some build.manifest.payloadHash := by
  have fully : fullyProvisioned fold build.manifest (mapAfter build installed targets second)
      = true := by
    unfold fullyProvisioned
    rw [Bool.and_eq_true, List.all_eq_true]
    refine ⟨by simpa using build.modules_ne_nil, ?_⟩
    intro name isModule
    obtain ⟨entry, found, accepted⟩ := clean name isModule
    rw [OrderedDict.get?, found]
    exact accepted
  have unfolded : (executeAll build installed targets (.utc second)).payloadHash =
      if fullyProvisioned fold build.manifest (mapAfter build installed targets second) then
        some build.manifest.payloadHash else none := rfl
  rw [unfolded, if_pos fully]

variable (tree : ProviderTree)

/-- What phase 5 does with a plain run. -/
theorem phase5_plainRun : phase5 tree plainRun installed build.manifest validation =
    match driftTargets installed build.manifest validation with
    | none => .alreadyCurrent
    | some targets => .run targets := by
  unfold phase5
  cases driftTargets installed build.manifest validation <;> rfl

theorem settled_of_upToDate
    (upToDate : ∀ name ∈ build.manifest.modules, UpToDate build validation installed name)
    (published : installed.bind (·.payloadHash) = some build.manifest.payloadHash) :
    Settled build tree validation installed := by
  refine ⟨upToDate, published, ?_⟩
  rw [phase5_plainRun]
  simp [driftTargets, current_iff.mpr upToDate, published]

/-- A run over everything settles the unit. -/
theorem settled_full (keeps : KeepsLower fold) (before : CheckedBefore validation second) :
    Settled build tree validation (some (executeAll build installed [] (.utc second))) := by
  refine settled_of_upToDate tree ?_ ?_
  · exact fun name isModule => upToDate_touched (by simp) isModule (.inl rfl) before
  · exact payloadHash_executeAll fun name isModule =>
      cleanIn_touched keeps (by simp) isModule (.inl rfl)

/-- When every module is up to date the next cycle skips or runs everything. -/
theorem settled_or_full
    (upToDate : ∀ name ∈ build.manifest.modules, UpToDate build validation installed name) :
    Settled build tree validation installed ∨
      cycle build tree validation installed second =
        some (executeAll build installed [] (.utc second)) := by
  by_cases published : installed.bind (·.payloadHash) = some build.manifest.payloadHash
  · exact .inl (settled_of_upToDate tree upToDate published)
  · refine .inr ?_
    unfold cycle
    rw [phase5_plainRun]
    simp [driftTargets, current_iff.mpr upToDate, published]

/-- When some module is not up to date the next cycle runs the report's targets. -/
theorem cycle_of_drift (drifted : (classify installed build.manifest validation).current ≠ true) :
    cycle build tree validation installed second = some (executeAll build installed
      (classify installed build.manifest validation).targets (.utc second)) := by
  unfold cycle
  rw [phase5_plainRun]
  simp [driftTargets, drifted]

/-- The keys of a manifest that can be read back are distinct and not empty. -/
theorem keysReadable_of_readPrevious {entries : List (String × Recorded)}
    (readable : readPrevious fold installed = installed)
    (isMap : moduleMap installed = some entries) :
    keysReadable fold (entries.map Prod.fst) = true := by
  by_contra unreadable
  have dropped : readPrevious fold installed = none := by simp [readPrevious, isMap, unreadable]
  rw [← readable, dropped] at isMap
  simp [moduleMap] at isMap

theorem distinct_of_readable {entries : List (String × Recorded)}
    (readable : readPrevious fold installed = installed)
    (isMap : moduleMap installed = some entries) :
    OrderedDict.Distinct (foldText fold) entries := by
  have keys := (keysReadable_iff.mp (keysReadable_of_readPrevious readable isMap)).2
  simpa [OrderedDict.Distinct, Function.comp_def] using keys

/-- The entry of a module that is up to date, in a manifest that can be read back. -/
theorem carried_of_upToDate (readable : readPrevious fold installed = installed)
    (upToDate : UpToDate build validation installed name) :
    ∃ entry, OrderedDict.find? (foldText fold)
        (carriedForward fold (readPrevious fold installed)) name = some (name, .entry entry) ∧
      (∀ entries, moduleMap installed = some entries →
        OrderedDict.find? (foldText fold) entries name = some (name, .entry entry)) ∧
      recordedState entry
        ((OrderedDict.get? id build.manifest.moduleState name).map BuiltState.hash)
        (liveVerdict validation name) (validation.bind (·.checkedAt)) = .upToDate := by
  obtain ⟨entry, recorded, settled⟩ := moduleDrift_upToDate.mp upToDate
  cases isMap : moduleMap installed with
  | none => simp [recordedModules, isMap, OrderedDict.get?] at recorded
  | some entries =>
    have distinct := distinct_of_readable readable isMap
    have found : OrderedDict.find? (foldText fold) entries name = some (name, .entry entry) :=
      find?_of_get?_pythonDict distinct (by simpa [recordedModules, isMap] using recorded)
    refine ⟨entry, ?_, ?_, settled⟩
    · rw [readable, find?_carriedForward isMap distinct, found]
      rfl
    · rintro _ ⟨⟩
      exact found

/-- A module that is up to date stays so when a run leaves it out. -/
theorem upToDate_untouched (subset : ∀ name ∈ targets, name ∈ build.manifest.modules)
    (isModule : name ∈ build.manifest.modules) (untouched : ¬ Touched targets name)
    (readable : readPrevious fold installed = installed)
    (upToDate : UpToDate build validation installed name) :
    UpToDate build validation (some (executeAll build installed targets (.utc second))) name := by
  obtain ⟨entry, carried, -, settled⟩ := carried_of_upToDate readable upToDate
  refine upToDate_of_found ?_ settled
  rw [find?_mapAfter_untouched subset isModule untouched, carried]

/-- The manifest a run writes can be read back. -/
theorem readPrevious_executeAll (subset : ∀ name ∈ targets, name ∈ build.manifest.modules) :
    readPrevious fold (some (executeAll build installed targets (.utc second))) =
      some (executeAll build installed targets (.utc second)) := by
  have isMap : moduleMap (some (executeAll build installed targets (.utc second))) =
      some (mapAfter build installed targets second) := rfl
  have named : ∀ entry ∈ mapAfter build installed targets second, entry.1 ≠ "" := by
    intro entry member
    rcases OrderedDict.mem_setAll member with touched | carried
    · obtain ⟨outcome, isOutcome, rfl⟩ := List.mem_map.mp touched
      obtain ⟨command, isTarget, base⟩ := outcomesAfter_key all_ran isOutcome
      have isModule := base ▸ build.baseName_mem ((mem_targetCommands subset).mp isTarget).1
      intro empty
      have nonempty := (build.plain _ isModule).1.nonempty
      simp only at empty
      simp [empty] at nonempty
    · unfold carriedForward at carried
      cases previous : moduleMap (readPrevious fold installed) with
      | none => simp [previous] at carried
      | some entries =>
        simp only [previous] at carried
        rcases OrderedDict.mem_setAll carried with old | none
        · have keys := (keysReadable_iff.mp
            (keysReadable_of_readPrevious (readPrevious_readPrevious installed) previous)).1
          intro empty
          exact keys (empty ▸ List.mem_map_of_mem (List.mem_of_mem_filter old))
        · simp at none
  have keys : keysReadable fold ((mapAfter build installed targets second).map Prod.fst) = true := by
    refine keysReadable_iff.mpr ⟨?_, ?_⟩
    · intro empty
      obtain ⟨entry, member, isEmpty⟩ := List.mem_map.mp empty
      exact named entry member isEmpty
    · have distinct : OrderedDict.Distinct (foldText fold)
          (mapAfter build installed targets second) := mapAfter_distinct
      simpa [OrderedDict.Distinct, Function.comp_def] using distinct
  simp [readPrevious, isMap, keys]

/-- Nothing is carried forward from a manifest that cannot be read back. -/
theorem find?_mapAfter_unreadable (subset : ∀ name ∈ targets, name ∈ build.manifest.modules)
    (isModule : name ∈ build.manifest.modules) (untouched : ¬ Touched targets name)
    (unreadable : readPrevious fold installed = none) :
    OrderedDict.find? (foldText fold) (mapAfter build installed targets second) name = none := by
  rw [find?_mapAfter_untouched subset isModule untouched, unreadable]
  rfl

/-- The targets of a report are modules of the build. -/
theorem targets_modules : ∀ name ∈ (classify installed build.manifest validation).targets,
    name ∈ build.manifest.modules :=
  fun _ => targets_subset

/-- A module a run over the report's targets leaves out is up to date. -/
theorem upToDate_of_untouched (isModule : name ∈ build.manifest.modules)
    (untouched : ¬ Touched (classify installed build.manifest validation).targets name) :
    UpToDate build validation installed name := by
  by_contra drifted
  exact untouched (.inr (drifted_subset_targets (mem_drifted.mpr ⟨isModule, drifted⟩)))

/-- After a run over the targets of a manifest that could be read back, every
module is up to date. -/
theorem upToDate_of_readable (readable : readPrevious fold installed = installed)
    (before : CheckedBefore validation second) (isModule : name ∈ build.manifest.modules) :
    UpToDate build validation (some (executeAll build installed
      (classify installed build.manifest validation).targets (.utc second))) name := by
  by_cases touched : Touched (classify installed build.manifest validation).targets name
  · exact upToDate_touched targets_modules isModule touched before
  · exact upToDate_untouched targets_modules isModule touched readable
      (upToDate_of_untouched isModule touched)

/-- A second run over targets leaves every module clean when the first started
from nothing: what the first left out is run now, and what it ran is carried. -/
theorem cleanIn_second {again : Int} (keeps : KeepsLower fold)
    (subset : ∀ name ∈ targets, name ∈ build.manifest.modules)
    (unreadable : readPrevious fold installed = none) (isModule : name ∈ build.manifest.modules)
    {later : Option InstalledManifest}
    (isLater : later = some (executeAll build installed targets (.utc second))) :
    CleanIn build (mapAfter build later (classify later build.manifest validation).targets again)
      name := by
  by_cases touchedAgain : Touched (classify later build.manifest validation).targets name
  · exact cleanIn_touched keeps targets_modules isModule touchedAgain
  · have readable : readPrevious fold later = later := isLater ▸ readPrevious_executeAll subset
    obtain ⟨entry, carried, found, -⟩ :=
      carried_of_upToDate readable (upToDate_of_untouched isModule touchedAgain)
    have first : OrderedDict.find? (foldText fold) (mapAfter build installed targets second) name =
        some (name, .entry entry) := found _ (by rw [isLater]; rfl)
    have touched : Touched targets name := by
      by_contra untouched
      rw [find?_mapAfter_unreadable subset isModule untouched unreadable] at first
      cases first
    have clean : CleanIn build (mapAfter build installed targets second) name :=
      cleanIn_touched keeps subset isModule touched
    obtain ⟨written, same, accepted⟩ := clean
    have equal : written = entry := by simpa [first] using same.symm
    exact ⟨entry, by rw [find?_mapAfter_untouched targets_modules isModule touchedAgain, carried],
      equal ▸ accepted⟩

/-- From any record, against one build and with every executed command succeeding,
at most two executing cycles settle the unit. -/
theorem drift_converges (keeps : KeepsLower fold) {first again : Int}
    (beforeFirst : CheckedBefore validation first) (beforeAgain : CheckedBefore validation again) :
    Settled build tree validation installed ∨
      Settled build tree validation (cycle build tree validation installed first) ∨
      Settled build tree validation
        (cycle build tree validation (cycle build tree validation installed first) again) := by
  by_cases current : (classify installed build.manifest validation).current = true
  · rcases settled_or_full tree (current_iff.mp current) with settled | full
    · exact .inl settled
    · refine .inr (.inl ?_)
      rw [full]
      exact settled_full tree keeps beforeFirst
  · refine .inr ?_
    rw [cycle_of_drift tree current]
    generalize isLater : some (executeAll build installed
      (classify installed build.manifest validation).targets (.utc first)) = later
    by_cases currentLater : (classify later build.manifest validation).current = true
    · rcases settled_or_full tree (current_iff.mp currentLater) with settled | full
      · exact .inl settled
      · refine .inr ?_
        rw [full]
        exact settled_full tree keeps beforeAgain
    · refine .inr ?_
      rw [cycle_of_drift tree currentLater]
      -- something is missing after the first run, so its manifest was started afresh
      have unreadable : readPrevious fold installed = none := by
        refine (readPrevious_eq installed).resolve_left fun readable => currentLater ?_
        refine current_iff.mpr fun name isModule => ?_
        exact isLater ▸ upToDate_of_readable readable beforeFirst isModule
      have clean : ∀ name ∈ build.manifest.modules, CleanIn build (mapAfter build later
          (classify later build.manifest validation).targets again) name := fun name isModule =>
        cleanIn_second keeps targets_modules unreadable isModule isLater.symm
      refine settled_of_upToDate tree (fun name isModule => ?_) (payloadHash_executeAll clean)
      exact upToDate_of_readable (isLater ▸ readPrevious_executeAll targets_modules) beforeAgain
        isModule

end Cycle

/-- A build of two modules, one of which closes every run. -/
def smallManifest : BuildManifest where
  payloadHash := "5f1d0c"
  modules := ["mongodb", "reboot"]
  moduleState := [("mongodb", ⟨"7.0.14", "a41c"⟩), ("reboot", ⟨"1.0", "09be"⟩)]
  alwaysModules := ["reboot"]
  modulePayload := [("mongodb", ⟨["mongodb.msi"], []⟩)]
  payloadAlways := ⟨["build-manifest.json", "commands.json"], []⟩

/-- Its commands. -/
def smallCommands : List Command :=
  [⟨100, "Install MongoDB", "provide-mongodb.ps1", "mongodb"⟩,
    ⟨101, "[verify] mongodb", "verify-mongodb.ps1", "mongodb-verify"⟩,
    ⟨9999, "Detect a pending reboot", "provide-reboot.ps1", "reboot"⟩]

def smallBuild : CompleteBuild Char.toLower where
  manifest := smallManifest
  commands := smallCommands
  modules_ne_nil := by decide
  distinct := by decide
  plain := by unfold PlainName; decide
  hashed := by
    simp only [smallManifest, List.forall_mem_cons]
    exact ⟨⟨⟨"7.0.14", "a41c"⟩, by decide, by decide, by decide⟩,
      ⟨⟨"1.0", "09be"⟩, by decide, by decide, by decide⟩, by simp⟩
  provided := by decide
  labelled := by decide

/-- A unit with a polluted record and a failed verify report comes to rest. -/
theorem drift_converges_polluted :
    let tree : ProviderTree := ⟨["reboot"], []⟩
    let validation : Option Validation := some ⟨[("mongodb", "fail")], some (.utc 100)⟩
    let installed : Option InstalledManifest :=
      some ⟨none, false, .map [("Length", .scalar), ("mongodb", .entry ⟨none, some "a41c", none, none,
        none⟩)], none⟩
    Settled smallBuild tree validation installed ∨
      Settled smallBuild tree validation (cycle smallBuild tree validation installed 200) ∨
      Settled smallBuild tree validation (cycle smallBuild tree validation
        (cycle smallBuild tree validation installed 200) 300) := by
  intro tree validation installed
  have checked : ∀ second : Int, 100 < second → CheckedBefore validation second := by
    intro second later report isReport
    have equal : (⟨[("mongodb", "fail")], some (.utc 100)⟩ : Validation) = report :=
      Option.some.inj isReport
    exact ⟨100, by rw [← equal], later⟩
  exact drift_converges tree keepsLower_toLower (checked 200 (by decide)) (checked 300 (by decide))

end MastProvisioning.Driver
