import MastProvisioning.Driver.Convergence

/-!
# What the drift report says

`classify` decides five verdicts from the record a unit has of a module, the hash of the
build and the live verify report. `Verdict` says when each of them is due, in terms of
what is recorded; the report is specified by it row by row, and the targets from it.
-/

namespace MastProvisioning.Driver

open MastProvisioning.Collections MastProvisioning.PowerShell MastProvisioning.Build
open MastProvisioning.Unit

variable {installed : Option InstalledManifest} {build : BuildManifest}
  {validation : Option Validation}

/-- What a unit has recorded under a name. -/
def recordOf (installed : Option InstalledManifest) (name : String) : Option Recorded :=
  OrderedDict.get? id (recordedModules installed) name

/-- A unit has nothing under a name that says anything of the module. -/
def Unrecorded (installed : Option InstalledManifest) (name : String) : Prop :=
  recordOf installed name = none ∨ recordOf installed name = some .null

/-- An outcome that leaves no doubt that the command was run and did not fail. -/
def OutcomeSettled (outcome : Option String) : Prop :=
  ∀ text, outcome = some text → text ≠ "fail" ∧ text ≠ "skipped"

/-- An entry has the hash of the build, and both its outcomes are settled. -/
def EntryClean (entry : ModuleEntry) (builtHash : Option String) : Prop :=
  (∃ hash, entry.hash = some hash ∧ hash ≠ "" ∧ builtHash = some hash) ∧
    OutcomeSettled entry.provide ∧ OutcomeSettled entry.verify

/-- A unit has a clean entry for a module. -/
def RecordedClean (installed : Option InstalledManifest) (build : BuildManifest) (name : String) :
    Prop :=
  ∃ entry, recordOf installed name = some (.entry entry) ∧
    EntryClean entry ((OrderedDict.get? id build.moduleState name).map BuiltState.hash)

/-- When a unit installed a module, as its entry says. -/
def installedAt (installed : Option InstalledManifest) (name : String) : Option Stamp :=
  match recordOf installed name with
  | some (.entry entry) => entry.installedAt
  | _ => none

/-- The verify report has a failure of a module, and does not show that it is older than
the installation. -/
def LiveFailure (installed : Option InstalledManifest) (validation : Option Validation)
    (name : String) : Prop :=
  ∃ report verdict, validation = some report ∧
    OrderedDict.get? id report.modules name = some verdict ∧ foldCase verdict = "fail" ∧
    ∀ checked second, report.checkedAt = some (.utc checked) →
      installedAt installed name = some (.utc second) → second ≤ checked

/-- When a verdict on a module of the build is due. -/
def Verdict (installed : Option InstalledManifest) (build : BuildManifest)
    (validation : Option Validation) (name : String) : ModuleState → Prop
  | .missing => Unrecorded installed name
  | .needsUpdate => ¬ Unrecorded installed name ∧ ¬ RecordedClean installed build name
  | .needsRepair => RecordedClean installed build name ∧ LiveFailure installed validation name
  | .upToDate => RecordedClean installed build name ∧ ¬ LiveFailure installed validation name
  | .extra => False

section Verdicts

theorem outcomeSettled_iff {outcome : Option String} :
    unknownOutcome outcome = false ↔ OutcomeSettled outcome := by
  cases outcome <;> simp [unknownOutcome, OutcomeSettled]

theorem validationIsStale_eq_false {checkedAt installedAt : Option Stamp} :
    validationIsStale checkedAt installedAt = false ↔ ∀ checked second,
      checkedAt = some (.utc checked) → installedAt = some (.utc second) → second ≤ checked := by
  unfold validationIsStale
  split
  · simp
  · rename_i notBoth
    simp only [true_iff]
    rintro checked second rfl rfl
    exact absurd rfl (notBoth checked second rfl)

theorem entryClean_iff {entry : ModuleEntry} {builtHash : Option String} :
    (unknownOutcome entry.provide || unknownOutcome entry.verify || entry.hash = none
      || entry.hash = some "" || entry.hash ≠ builtHash) = false ↔ EntryClean entry builtHash := by
  simp only [Bool.or_eq_false_iff, outcomeSettled_iff, decide_eq_false_iff_not, not_not]
  constructor
  · rintro ⟨⟨⟨⟨provide, verify⟩, isSome⟩, notEmpty⟩, same⟩
    obtain ⟨hash, isHash⟩ := Option.ne_none_iff_exists'.mp isSome
    refine ⟨⟨hash, isHash, ?_, same ▸ isHash⟩, provide, verify⟩
    rintro rfl
    exact notEmpty isHash
  · rintro ⟨⟨hash, isHash, notEmpty, isBuilt⟩, provide, verify⟩
    rw [isHash, isBuilt]
    simpa [provide, verify] using notEmpty

/-- The state of a module that has an entry. -/
theorem recordedState_eq {entry : ModuleEntry} {builtHash : Option String} {verdict : String}
    {checkedAt : Option Stamp} (state : ModuleState) :
    recordedState entry builtHash verdict checkedAt = state ↔
      match state with
      | .needsUpdate => ¬ EntryClean entry builtHash
      | .needsRepair => EntryClean entry builtHash ∧ foldCase verdict = "fail" ∧
          validationIsStale checkedAt entry.installedAt = false
      | .upToDate => EntryClean entry builtHash ∧ ¬ (foldCase verdict = "fail" ∧
          validationIsStale checkedAt entry.installedAt = false)
      | .missing | .extra => False := by
  unfold recordedState
  split
  · rename_i isUnclean
    have unclean : ¬ EntryClean entry builtHash := by
      intro clean
      rw [entryClean_iff.mpr clean] at isUnclean
      cases isUnclean
    cases state <;> simp [unclean]
  · rename_i isClean
    have clean : EntryClean entry builtHash := entryClean_iff.mp (by simpa using isClean)
    split
    · rename_i fails
      have live : foldCase verdict = "fail" ∧
          validationIsStale checkedAt entry.installedAt = false := by simpa using fails
      cases state <;> simp [clean, live]
    · rename_i passes
      have notLive : ¬ (foldCase verdict = "fail" ∧
          validationIsStale checkedAt entry.installedAt = false) := by simpa using passes
      cases state <;> simp [clean, notLive]

end Verdicts

section Rows

/-- The live verdict is a failure that is not stale exactly when a failure is reported
that is not older than the installation. -/
theorem liveFailure_iff {name : String} :
    LiveFailure installed validation name ↔ foldCase (liveVerdict validation name) = "fail" ∧
      validationIsStale (validation.bind (·.checkedAt)) (installedAt installed name) = false := by
  rw [validationIsStale_eq_false]
  unfold LiveFailure liveVerdict
  cases validation with
  | none =>
    simp only [Option.bind_none]
    constructor
    · rintro ⟨_, _, ⟨⟩, _⟩
    · rintro ⟨isFail, -⟩
      exact absurd isFail (by decide)
  | some report =>
    cases found : OrderedDict.get? id report.modules name with
    | none =>
      constructor
      · rintro ⟨_, _, ⟨⟩, isVerdict, -⟩
        rw [found] at isVerdict
        cases isVerdict
      · rintro ⟨isFail, -⟩
        simp only [found, Option.getD_none] at isFail
        exact absurd isFail (by decide)
    | some verdict =>
      constructor
      · rintro ⟨_, _, ⟨⟩, isVerdict, isFail, unaged⟩
        obtain rfl := Option.some.inj (found.symm.trans isVerdict)
        exact ⟨by simpa [found] using isFail, unaged⟩
      · rintro ⟨isFail, unaged⟩
        exact ⟨report, verdict, rfl, found, by simpa [found] using isFail, unaged⟩

/-- The state in the row of a module of the build is the verdict that is due. -/
theorem moduleDrift_state (name : String) (state : ModuleState) :
    (moduleDrift (recordedModules installed) build validation name).state = state ↔
      Verdict installed build validation name state := by
  have states : ∀ recorded : Recorded, recorded ≠ .null → recordOf installed name = some recorded →
      (moduleDrift (recordedModules installed) build validation name).state =
        recordedState (entryFields recorded)
          ((OrderedDict.get? id build.moduleState name).map BuiltState.hash)
          (liveVerdict validation name) (validation.bind (·.checkedAt)) := by
    intro recorded notNull isRecord
    unfold recordOf at isRecord
    unfold moduleDrift
    rw [isRecord]
    cases recorded with
    | null => exact absurd rfl notNull
    | scalar => rfl
    | entry fields => rfl
  cases isRecord : recordOf installed name with
  | none =>
    have isMissing : (moduleDrift (recordedModules installed) build validation name).state =
        .missing := by
      unfold recordOf at isRecord
      unfold moduleDrift
      rw [isRecord]
    rw [isMissing]
    cases state <;> simp [Verdict, Unrecorded, RecordedClean, isRecord]
  | some recorded =>
    cases recorded with
    | null =>
      have isMissing : (moduleDrift (recordedModules installed) build validation name).state =
          .missing := by
        unfold recordOf at isRecord
        unfold moduleDrift
        rw [isRecord]
      rw [isMissing]
      cases state <;> simp [Verdict, Unrecorded, RecordedClean, isRecord]
    | scalar =>
      rw [states .scalar (by simp) isRecord, recordedState_eq]
      cases state <;>
        simp [Verdict, Unrecorded, RecordedClean, isRecord, entryFields, EntryClean]
    | entry fields =>
      have isInstalled : installedAt installed name = fields.installedAt := by
        simp [installedAt, isRecord]
      rw [states (.entry fields) (by simp) isRecord, recordedState_eq]
      cases state <;>
        simp [Verdict, Unrecorded, RecordedClean, isRecord, entryFields, liveFailure_iff,
          isInstalled]

end Rows

section Report

/-- A module of the build that has to be run. -/
def Due (installed : Option InstalledManifest) (build : BuildManifest)
    (validation : Option Validation) (name : String) : Prop :=
  ∃ state : ModuleState, Verdict installed build validation name state ∧ state.actionable = true

/-- What a drift report says of a unit. -/
structure Classified (installed : Option InstalledManifest) (build : BuildManifest)
    (validation : Option Validation) (report : DriftReport) : Prop where
  /-- The modules of the build in order, and then what only the unit has. -/
  rows : ∃ extras : List String, report.modules.map ModuleDrift.name = build.modules ++ extras ∧
    extras.Nodup ∧
    ∀ name, name ∈ extras ↔ recordOf installed name ≠ none ∧ name ∉ build.modules
  once : build.modules.Nodup → (report.modules.map ModuleDrift.name).Nodup
  verdicts : ∀ row ∈ report.modules, row.name ∈ build.modules →
    Verdict installed build validation row.name row.state
  extra : ∀ row ∈ report.modules, row.name ∉ build.modules → row.state = .extra
  noTargets : report.targets = [] ↔ ∀ name ∈ build.modules, ¬ Due installed build validation name
  /-- The targets keep the order of the build. -/
  targets : (∃ name ∈ build.modules, Due installed build validation name) →
    ∃ wanted : String → Bool,
      (∀ name, wanted name = true ↔
        Due installed build validation name ∨ name ∈ build.alwaysModules) ∧
      report.targets = build.modules.filter wanted

/-- The names only the unit has, as `classify` lists them. -/
def extraNames (installed : Option InstalledManifest) (build : BuildManifest) : List String :=
  (((recordedModules installed).map Prod.fst).filter fun name =>
    name ∉ build.modules).mergeSort fun name other => decide (name ≤ other)

theorem classify_modules : (classify installed build validation).modules =
    build.modules.map (moduleDrift (recordedModules installed) build validation) ++
      (extraNames installed build).map (extraDrift (recordedModules installed)) := rfl

theorem recordedModules_distinct :
    OrderedDict.Distinct id (recordedModules installed) := by
  unfold recordedModules
  split
  · exact OrderedDict.distinct_nil.setAll _
  · exact OrderedDict.distinct_nil

theorem mem_recordedModules {name : String} :
    name ∈ (recordedModules installed).map Prod.fst ↔ recordOf installed name ≠ none := by
  unfold recordOf OrderedDict.get?
  rw [ne_eq, Option.map_eq_none_iff, OrderedDict.find?_eq_none]
  simp only [List.mem_map, id_eq, not_forall, not_not]
  exact ⟨fun ⟨entry, member, named⟩ => ⟨entry, member, named⟩,
    fun ⟨entry, member, named⟩ => ⟨entry, member, named⟩⟩

theorem mem_extraNames {name : String} :
    name ∈ extraNames installed build ↔ recordOf installed name ≠ none ∧ name ∉ build.modules := by
  unfold extraNames
  rw [List.mem_mergeSort, List.mem_filter, mem_recordedModules]
  simp

theorem extraNames_nodup : (extraNames installed build).Nodup := by
  have distinct : ((recordedModules installed).map Prod.fst).Nodup := recordedModules_distinct
  exact (List.mergeSort_perm _ _).nodup_iff.mpr (distinct.filter _)

theorem names_build : (build.modules.map
    (moduleDrift (recordedModules installed) build validation)).map ModuleDrift.name =
      build.modules := by
  rw [List.map_map]
  exact (List.map_congr_left fun name _ => moduleDrift_name _ name).trans (List.map_id _)

theorem names_extra : ((extraNames installed build).map
    (extraDrift (recordedModules installed))).map ModuleDrift.name =
      extraNames installed build := by
  rw [List.map_map]
  exact (List.map_congr_left fun name _ => rfl).trans (List.map_id _)

theorem due_iff {name : String} : Due installed build validation name ↔
    (moduleDrift (recordedModules installed) build validation name).state.actionable = true := by
  constructor
  · rintro ⟨state, verdict, actionable⟩
    rwa [(moduleDrift_state name state).mpr verdict]
  · exact fun actionable => ⟨_, (moduleDrift_state name _).mp rfl, actionable⟩

theorem mem_drifted_iff {name : String} :
    name ∈ (classify installed build validation).drifted ↔
      name ∈ build.modules ∧ Due installed build validation name := by
  rw [mem_drifted, due_iff, actionable_iff]

/-- The modules that close every run, as `targets` collects them. -/
def closingNames (report : DriftReport) : List String :=
  (report.modules.filter fun row => row.name ∈ report.always && row.state != .extra).map
    ModuleDrift.name

theorem mem_closingNames {name : String} :
    name ∈ closingNames (classify installed build validation) ↔
      name ∈ build.modules ∧ name ∈ build.alwaysModules := by
  unfold closingNames
  rw [classify_modules]
  constructor
  · intro closing
    obtain ⟨row, isRow, rfl⟩ := List.mem_map.mp closing
    obtain ⟨member, kept⟩ := List.mem_filter.mp isRow
    rcases List.mem_append.mp member with fromBuild | extra
    · obtain ⟨module, isModule, rfl⟩ := List.mem_map.mp fromBuild
      rw [moduleDrift_name] at kept ⊢
      have always : module ∈ build.alwaysModules := by
        simpa [classify] using (Bool.and_eq_true_iff.mp kept).1
      exact ⟨isModule, always⟩
    · obtain ⟨module, -, rfl⟩ := List.mem_map.mp extra
      simp [extraDrift] at kept
  · rintro ⟨isModule, always⟩
    have notExtra : (moduleDrift (recordedModules installed) build validation name).state ≠
        .extra := moduleDrift_ne_extra _ name
    refine List.mem_map.mpr ⟨_, List.mem_filter.mpr
      ⟨List.mem_append_left _ (List.mem_map_of_mem isModule), ?_⟩, moduleDrift_name _ name⟩
    rw [moduleDrift_name]
    simpa [classify, always] using notExtra

theorem targets_eq_filter (drifts : (classify installed build validation).drifted ≠ []) :
    (classify installed build validation).targets = build.modules.filter fun name =>
      name ∈ (classify installed build validation).drifted || name ∈ build.alwaysModules := by
  let report := classify installed build validation
  let wanted := report.drifted ++ closingNames report
  have isTargets : report.targets =
      (report.modules.map ModuleDrift.name).filter fun name => name ∈ wanted := by
    unfold DriftReport.targets
    rw [if_neg drifts, List.filter_map]
    rfl
  have noExtra : (extraNames installed build).filter (fun name => name ∈ wanted) = [] := by
    refine List.filter_eq_nil_iff.mpr fun name isExtra => ?_
    have notBuilt := (mem_extraNames.mp isExtra).2
    simp only [decide_eq_true_eq]
    rintro isWanted
    rcases List.mem_append.mp isWanted with drifted | closing
    · exact notBuilt (mem_drifted.mp drifted).1
    · exact notBuilt (mem_closingNames.mp closing).1
  change report.targets = _
  rw [isTargets, classify_modules, List.map_append, names_build, names_extra, List.filter_append,
    noExtra, List.append_nil]
  refine List.filter_congr fun name isModule => ?_
  have closing : name ∈ closingNames report ↔ name ∈ build.alwaysModules :=
    mem_closingNames.trans (and_iff_right isModule)
  simp [wanted, report, closing]

theorem targets_eq_nil : (classify installed build validation).targets = [] ↔
    (classify installed build validation).drifted = [] := by
  constructor
  · intro noTargets
    refine List.eq_nil_iff_forall_not_mem.mpr fun name drifted => ?_
    have target := drifted_subset_targets drifted
    rw [noTargets] at target
    cases target
  · intro noDrift
    unfold DriftReport.targets
    rw [if_pos noDrift]

/-- The report lists the modules of the build and then what only the unit has, gives
each module the verdict that is due, and targets what is due and what closes a run. -/
theorem classify_classified (installed : Option InstalledManifest) (build : BuildManifest)
    (validation : Option Validation) :
    Classified installed build validation (classify installed build validation) where
  rows := by
    refine ⟨extraNames installed build, ?_, extraNames_nodup, fun name => mem_extraNames⟩
    rw [classify_modules, List.map_append, names_build, names_extra]
  once distinct := by
    rw [classify_modules, List.map_append, names_build, names_extra]
    refine List.nodup_append.mpr ⟨distinct, extraNames_nodup, ?_⟩
    rintro name isModule _ isExtra rfl
    exact (mem_extraNames.mp isExtra).2 isModule
  verdicts row isRow isModule := by
    rw [classify_modules] at isRow
    rcases List.mem_append.mp isRow with fromBuild | extra
    · obtain ⟨name, -, rfl⟩ := List.mem_map.mp fromBuild
      rw [moduleDrift_name]
      exact (moduleDrift_state name _).mp rfl
    · obtain ⟨name, isExtra, rfl⟩ := List.mem_map.mp extra
      exact absurd isModule (mem_extraNames.mp isExtra).2
  extra row isRow notBuilt := by
    rw [classify_modules] at isRow
    rcases List.mem_append.mp isRow with fromBuild | extra
    · obtain ⟨name, isModule, rfl⟩ := List.mem_map.mp fromBuild
      rw [moduleDrift_name] at notBuilt
      exact absurd isModule notBuilt
    · obtain ⟨name, -, rfl⟩ := List.mem_map.mp extra
      rfl
  noTargets := by
    rw [targets_eq_nil, List.eq_nil_iff_forall_not_mem]
    exact ⟨fun none name isModule due => none name (mem_drifted_iff.mpr ⟨isModule, due⟩),
      fun none name drifted => none name (mem_drifted_iff.mp drifted).1 (mem_drifted_iff.mp drifted).2⟩
  targets := by
    rintro ⟨due, isModule, isDue⟩
    have drifts : (classify installed build validation).drifted ≠ [] :=
      List.ne_nil_of_mem (mem_drifted_iff.mpr ⟨isModule, isDue⟩)
    refine ⟨fun name => (moduleDrift (recordedModules installed) build validation
      name).state.actionable || name ∈ build.alwaysModules, fun name => ?_, ?_⟩
    · rw [due_iff, Bool.or_eq_true, decide_eq_true_eq]
    · rw [targets_eq_filter drifts]
      refine List.filter_congr fun name isModule => ?_
      have drifted : name ∈ (classify installed build validation).drifted ↔
          (moduleDrift (recordedModules installed) build validation name).state.actionable = true :=
        mem_drifted_iff.trans ((and_iff_right isModule).trans due_iff)
      simp [drifted]

end Report

end MastProvisioning.Driver
