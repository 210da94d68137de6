import Mathlib
import MastProvisioning.Driver.TargetLists
import MastProvisioning.Fleet.DriftReport

/-!
# The fleet report beside the driver

`compare_to_build` hands the driver's `classify` a manifest and a validation report of its own
making: the modules without the aggregate hash, the verdicts without the time they were taken
at. `agrees_iff` says for which units its verdict and its list of modules are nevertheless what
phase 5 decides.
-/

namespace MastProvisioning.Fleet

open MastProvisioning.Collections MastProvisioning.PowerShell MastProvisioning.Build
open MastProvisioning.Unit MastProvisioning.Driver

/-- `_manifest_from_obj` and `_parse_validation`, as far as `compare_to_build` reads what they
make of a unit's documents. -/
def gather (unit : UnitRecord) (manifest : InstalledManifest) (validation : Option Validation) :
    UnitRecord :=
  { unit with
    status := .ok
    payloadHash := manifest.payloadHash
    modules := recordedModules (some manifest)
    validation := (validation.map Validation.modules).getD [] }

/-- The report calls a unit in sync when the driver skips it, and lists the modules that the
driver runs. -/
structure Agrees (units : List UnitRecord) (build : BuildManifest) (host : String)
    (decision : Decision) : Prop where
  verdict : OrderedDict.get? id (compareToBuild units build).verdicts host = some inSync ↔
    decision = .alreadyCurrent
  modules : ∀ targets, decision = .run targets →
    OrderedDict.get? id (compareToBuild units build).driftModulesByHost host = some targets

/-- The verify report has a failure of a module, however old. -/
def ReportedFailure (validation : Option Validation) (name : String) : Prop :=
  ∃ report verdict, validation = some report ∧
    OrderedDict.get? id report.modules name = some verdict ∧ foldCase verdict = "fail"

/-- A reported failure of a module that was installed after it. -/
def StaleFailure (installed : Option InstalledManifest) (validation : Option Validation)
    (name : String) : Prop :=
  ReportedFailure validation name ∧ ¬ LiveFailure installed validation name

/-- A unit on which nothing turns on what the report leaves out. -/
structure Comparable (installed : Option InstalledManifest) (build : BuildManifest)
    (validation : Option Validation) : Prop where
  /-- A unit without anything to do has the aggregate hash of the build. -/
  aggregate : (∀ name ∈ build.modules, ¬ Due installed build validation name) →
    installed.bind (·.payloadHash) = some build.payloadHash
  /-- A module whose only fault is a stale failure is run anyway: it closes a run that another
  module makes necessary. -/
  fresh : ∀ name ∈ build.modules, RecordedClean installed build name →
    StaleFailure installed validation name →
      name ∈ build.alwaysModules ∧ ∃ other ∈ build.modules, Due installed build validation other

section Gathered

variable {unit : UnitRecord} {manifest : InstalledManifest} {validation : Option Validation}
  {build : BuildManifest} {name : String}

theorem reported_of_liveFailure {installed : Option InstalledManifest}
    (failure : LiveFailure installed validation name) :
    ReportedFailure validation name := by
  obtain ⟨report, verdict, isReport, isVerdict, isFail, -⟩ := failure
  exact ⟨report, verdict, isReport, isVerdict, isFail⟩

/-- A dictionary that is written anew is the same. -/
theorem pythonDict_recordedModules {installed : Option InstalledManifest} :
    pythonDict (recordedModules installed) = recordedModules installed := by
  have distinct : OrderedDict.Distinct id ([] ++ recordedModules installed) :=
    recordedModules_distinct
  simpa [pythonDict] using OrderedDict.setAll_of_distinct distinct

/-- The manifest the report makes of a unit's modules. -/
def reportManifest (unit : UnitRecord) : Option InstalledManifest :=
  if unit.modules = [] then none else some ⟨none, false, .map unit.modules, none⟩

def reportValidation (unit : UnitRecord) : Option Validation :=
  if unit.validation = [] then none else some ⟨unit.validation, none⟩

theorem recordedModules_report :
    recordedModules (reportManifest (gather unit manifest validation)) =
      recordedModules (some manifest) := by
  unfold reportManifest
  split
  · rename_i empty
    exact empty.symm
  · exact pythonDict_recordedModules

theorem recordedClean_report :
    RecordedClean (reportManifest (gather unit manifest validation)) build name ↔
      RecordedClean (some manifest) build name := by
  unfold RecordedClean recordOf
  rw [recordedModules_report]

/-- Without a time nothing is stale. -/
theorem liveFailure_report (installed : Option InstalledManifest) :
    LiveFailure installed (reportValidation (gather unit manifest validation)) name ↔
      ReportedFailure validation name := by
  have isReport : ReportedFailure (reportValidation (gather unit manifest validation)) name ↔
      ReportedFailure validation name := by
    unfold reportValidation ReportedFailure
    cases validation with
    | none => simp [gather]
    | some report =>
      simp only [gather, Option.map_some, Option.getD_some]
      by_cases empty : report.modules = []
      · simp [empty, OrderedDict.get?]
      · simp [empty]
  rw [← isReport]
  constructor
  · exact reported_of_liveFailure
  · rintro ⟨report, verdict, isReport, isVerdict, isFail⟩
    refine ⟨report, verdict, isReport, isVerdict, isFail, fun checked second isChecked => ?_⟩
    unfold reportValidation at isReport
    split at isReport
    · cases isReport
    · cases isReport
      cases isChecked

/-- To the report a module has to be run also when its only fault is a stale failure. -/
theorem due_report_iff : Due (reportManifest (gather unit manifest validation)) build
      (reportValidation (gather unit manifest validation)) name ↔
    Due (some manifest) build validation name ∨
      (RecordedClean (some manifest) build name ∧ StaleFailure (some manifest) validation name) := by
  rw [due_iff_not_clean, due_iff_not_clean, recordedClean_report, liveFailure_report]
  by_cases clean : RecordedClean (some manifest) build name
  · by_cases failure : LiveFailure (some manifest) validation name
    · simp [clean, failure, reported_of_liveFailure failure]
    · simp [clean, failure, StaleFailure]
  · simp [clean]

end Gathered

section Fleet

variable {units : List UnitRecord} {build : BuildManifest}

/-- With one unit a host, a dictionary by host has an entry for each unit. -/
theorem byHost_eq {Value : Type} (value : UnitRecord → Value)
    (distinct : (units.map UnitRecord.host).Nodup) :
    byHost units value = units.map fun unit => (unit.host, value unit) := by
  have hosts : OrderedDict.Distinct id ([] ++ units.map fun unit => (unit.host, value unit)) := by
    simpa [OrderedDict.Distinct, List.map_map, Function.comp_def] using distinct
  simpa [byHost] using OrderedDict.setAll_of_distinct hosts

theorem get?_byHost {Value : Type} (value : UnitRecord → Value)
    (distinct : (units.map UnitRecord.host).Nodup) {unit : UnitRecord} (member : unit ∈ units) :
    OrderedDict.get? id (byHost units value) unit.host = some (value unit) := by
  have hosts : OrderedDict.Distinct id (byHost units value) := by
    rw [byHost_eq value distinct]
    simpa [OrderedDict.Distinct, List.map_map, Function.comp_def] using distinct
  have isEntry : (unit.host, value unit) ∈ byHost units value := by
    rw [byHost_eq value distinct]
    exact List.mem_map_of_mem member
  have found := OrderedDict.find?_of_mem hosts isEntry
  rw [OrderedDict.get?, found]
  rfl

theorem okUnits_distinct (distinct : (units.map UnitRecord.host).Nodup) :
    ((okUnits units).map UnitRecord.host).Nodup :=
  distinct.sublist (List.filter_sublist.map _)

/-- The report of a unit that was read. -/
theorem get?_reports (distinct : (units.map UnitRecord.host).Nodup) {unit : UnitRecord}
    (member : unit ∈ units) (isOk : unit.status = .ok) :
    OrderedDict.get? id (byHost (okUnits units) (classifyUnit build)) unit.host =
      some (classifyUnit build unit) :=
  get?_byHost _ (okUnits_distinct distinct) (List.mem_filter.mpr ⟨member, decide_eq_true isOk⟩)

theorem inSync_iff (distinct : (units.map UnitRecord.host).Nodup) {unit : UnitRecord}
    (member : unit ∈ units) (isOk : unit.status = .ok) :
    OrderedDict.get? id (compareToBuild units build).verdicts unit.host = some inSync ↔
      (classifyUnit build unit).current = true := by
  have drift : "DRIFT" ≠ inSync := by decide
  have verdict := get?_byHost (fun unit => if unit.status ≠ .ok then unit.status.upper else
    if decide (((OrderedDict.get? id (byHost (okUnits units) (classifyUnit build)) unit.host).map
      DriftReport.current) = some true) = true then inSync else "DRIFT") distinct member
  change OrderedDict.get? id (byHost units _) unit.host = some inSync ↔ _
  rw [verdict]
  have report := @get?_reports _ build distinct _ member isOk
  simp only [report, isOk, ne_eq, not_true_eq_false, if_false, Option.map_some, Option.some.injEq,
    decide_eq_true_eq]
  split
  · rename_i current
    exact iff_of_true rfl current
  · rename_i drifts
    exact iff_of_false drift drifts

theorem driftModules_eq (distinct : (units.map UnitRecord.host).Nodup) {unit : UnitRecord}
    (member : unit ∈ units) (isOk : unit.status = .ok) :
    OrderedDict.get? id (compareToBuild units build).driftModulesByHost unit.host =
      some (classifyUnit build unit).targets := by
  have isRead : unit ∈ okUnits units := List.mem_filter.mpr ⟨member, decide_eq_true isOk⟩
  have apart := okUnits_distinct distinct
  have targets := get?_byHost (fun unit => (classifyUnit build unit).targets) apart isRead
  have listed : (compareToBuild units build).driftModulesByHost =
      byHost (okUnits units) fun unit => (classifyUnit build unit).targets := by
    unfold compareToBuild
    simp only [byHost_eq _ apart, List.map_map]
    rfl
  rw [listed, targets]

end Fleet

section Agreement

variable {units : List UnitRecord} {unit : UnitRecord} {manifest : InstalledManifest}
  {validation : Option Validation} {build : BuildManifest} {tree : ProviderTree}

/-- What phase 5 decides without options. -/
theorem phase5_plain {installed : Option InstalledManifest} :
    phase5 tree plainRun installed build validation =
      if (classify installed build validation).current = true then
        if installed.bind (·.payloadHash) = some build.payloadHash then .alreadyCurrent else .run []
      else .run (classify installed build validation).targets := by
  have plain : phase5 tree plainRun installed build validation =
      (driftTargets installed build validation).elim .alreadyCurrent .run := by
    cases found : driftTargets installed build validation with
    | none => simp [phase5, plainRun, found]
    | some targets => simp [phase5, plainRun, found]
  rw [plain, driftTargets]
  by_cases current : (classify installed build validation).current = true
  · by_cases same : installed.bind (·.payloadHash) = some build.payloadHash
    · simp [current, same]
    · simp [current, same]
  · simp [current]

theorem classifyUnit_gather : classifyUnit build (gather unit manifest validation) =
    classify (reportManifest (gather unit manifest validation)) build
      (reportValidation (gather unit manifest validation)) := rfl

/-- The report and the driver name the same targets when every module whose only fault is a
stale failure closes a run that is due. -/
theorem targets_eq (fresh : ∀ name ∈ build.modules, RecordedClean (some manifest) build name →
      StaleFailure (some manifest) validation name → name ∈ build.alwaysModules ∧
        ∃ other ∈ build.modules, Due (some manifest) build validation other) :
    (classifyUnit build (gather unit manifest validation)).targets =
      (classify (some manifest) build validation).targets := by
  rw [classifyUnit_gather]
  by_cases someDue : ∃ other ∈ build.modules, Due (some manifest) build validation other
  · obtain ⟨other, isOther, due⟩ := someDue
    have driven := mem_drifted_iff.mpr ⟨isOther, due⟩
    have dueReported : Due (reportManifest (gather unit manifest validation)) build
        (reportValidation (gather unit manifest validation)) other := due_report_iff.mpr (.inl due)
    have reported := mem_drifted_iff.mpr ⟨isOther, dueReported⟩
    rw [targets_eq_filter (List.ne_nil_of_mem driven),
      targets_eq_filter (List.ne_nil_of_mem reported)]
    refine List.filter_congr fun name isModule => ?_
    rw [Bool.eq_iff_iff, Bool.or_eq_true, Bool.or_eq_true, decide_eq_true_eq, decide_eq_true_eq,
      decide_eq_true_eq, mem_drifted_iff, mem_drifted_iff, due_report_iff]
    constructor
    · rintro (⟨-, isDue | ⟨clean, stale⟩⟩ | closes)
      · exact .inl ⟨isModule, isDue⟩
      · exact .inr (fresh name isModule clean stale).1
      · exact .inr closes
    · rintro (⟨-, isDue⟩ | closes)
      · exact .inl ⟨isModule, .inl isDue⟩
      · exact .inr closes
  · have none : (classify (some manifest) build validation).drifted = [] :=
      drifted_eq_nil_iff.mpr fun name isModule due => someDue ⟨name, isModule, due⟩
    rw [targets_eq_nil.mpr none, targets_eq_nil, drifted_eq_nil_iff]
    intro name isModule isDue
    rcases due_report_iff.mp isDue with due | ⟨clean, stale⟩
    · exact someDue ⟨name, isModule, due⟩
    · exact someDue (fresh name isModule clean stale).2

/-- Where the report agrees with the driver, nothing turns on what it leaves out. -/
theorem comparable_of_agrees (distinct : (units.map UnitRecord.host).Nodup)
    (member : gather unit manifest validation ∈ units)
    (agrees : Agrees units build unit.host (phase5 tree plainRun (some manifest) build validation)) :
    Comparable (some manifest) build validation := by
  obtain ⟨verdict, modules⟩ := agrees
  have isVerdict := @inSync_iff units build distinct _ member rfl
  have isList := @driftModules_eq units build distinct _ member rfl
  change OrderedDict.get? id _ unit.host = some inSync ↔ _ at isVerdict
  change OrderedDict.get? id _ unit.host = _ at isList
  rw [isVerdict, phase5_plain] at verdict
  rw [isList, phase5_plain] at modules
  constructor
  · intro noDue
    by_contra differs
    have current : (classify (some manifest) build validation).current = true :=
      current_iff_none_due.mpr noDue
    rw [if_pos current, if_neg differs] at verdict modules
    have listed := Option.some.inj (modules [] rfl)
    have inSync : (classifyUnit build (gather unit manifest validation)).current = true := by
      rw [DriftReport.current, listed]
      rfl
    cases verdict.mp inSync
  · intro name isModule clean stale
    have isDue : Due (reportManifest (gather unit manifest validation)) build
        (reportValidation (gather unit manifest validation)) name :=
      due_report_iff.mpr (.inr ⟨clean, stale⟩)
    have reported : name ∈ (classifyUnit build (gather unit manifest validation)).targets :=
      mem_targets_iff.mpr ⟨isModule, .inl isDue, name, isModule, isDue⟩
    by_cases current : (classify (some manifest) build validation).current = true
    · rw [if_pos current] at verdict modules
      by_cases same : (some manifest : Option InstalledManifest).bind (·.payloadHash) =
          some build.payloadHash
      · rw [if_pos same] at verdict
        have nothing := List.isEmpty_iff.mp (verdict.mpr rfl)
        rw [nothing] at reported
        cases reported
      · rw [if_neg same] at modules
        have listed := Option.some.inj (modules [] rfl)
        rw [listed] at reported
        cases reported
    · rw [if_neg current] at modules
      have listed := Option.some.inj (modules _ rfl)
      rw [listed] at reported
      obtain ⟨-, due | closes, someDue⟩ := mem_targets_iff.mp reported
      · rcases due_iff_not_clean.mp due with unclean | failure
        · exact absurd clean unclean
        · exact absurd failure stale.2
      · exact ⟨closes, someDue⟩

/-- A unit whose only module was installed after a verify pass in which it failed. -/
def repairedManifest : InstalledManifest where
  installedAt := some (.utc 200)
  fullyProvisioned := true
  modules := .map [("mast", .entry ⟨some "1", some "5f", some "pass", some "pass", some (.utc 200)⟩)]
  payloadHash := some "c4"

def failedReport : Validation := ⟨[("mast", "fail")], some (.utc 100)⟩

def repairedUnit : UnitRecord :=
  gather ⟨"mast01", .ok, none, [], [], some 13, [], [], []⟩ repairedManifest (some failedReport)

end Agreement

end MastProvisioning.Fleet
