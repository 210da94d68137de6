import MastProvisioning.Unit.InstalledManifest

/-!
# What the driver decides to run

`drift.py` compares a unit's installed manifest with the manifest of the build,
module by module; phase 5 of `driver.py` decides from the result whether to skip
the unit, run the modules that drifted or run everything; `payload.py` decides
which staged entries such a run need not carry. Python compares names exactly.
-/

namespace MastProvisioning.Driver

open MastProvisioning.Collections MastProvisioning.PowerShell MastProvisioning.Build
open MastProvisioning.Unit

/-- `ModuleState`. -/
inductive ModuleState
  | upToDate
  | needsUpdate
  | missing
  | extra
  | needsRepair
deriving DecidableEq, Repr

/-- `ACTIONABLE`: the states that mean "run this module". -/
def ModuleState.actionable : ModuleState → Bool
  | .needsUpdate | .missing | .needsRepair => true
  | .upToDate | .extra => false

/-- `ModuleDrift`. -/
structure ModuleDrift where
  name : String
  state : ModuleState
  installedVersion : Option String
  builtVersion : Option String
  installedHash : Option String
  builtHash : Option String
  provide : Option String
  verify : Option String
deriving DecidableEq, Repr

/-- `DriftReport`. -/
structure DriftReport where
  modules : List ModuleDrift
  always : List String
deriving DecidableEq, Repr

/-- `DriftReport.drifted`. -/
def DriftReport.drifted (report : DriftReport) : List String :=
  (report.modules.filter fun row => row.state.actionable).map ModuleDrift.name

/-- `DriftReport.targets`. -/
def DriftReport.targets (report : DriftReport) : List String :=
  if report.drifted = [] then []
  else
    let wanted := report.drifted ++ (report.modules.filter fun row =>
      row.name ∈ report.always && row.state != .extra).map ModuleDrift.name
    (report.modules.filter fun row => row.name ∈ wanted).map ModuleDrift.name

/-- `DriftReport.current`. -/
def DriftReport.current (report : DriftReport) : Bool :=
  report.targets.isEmpty

/-- `validation.json`, the report of the live verify commands. -/
structure Validation where
  modules : List (String × String)
  checkedAt : Option Stamp
deriving DecidableEq, Repr

/-- `_validation_is_stale`. -/
def validationIsStale (checkedAt installedAt : Option Stamp) : Bool :=
  match checkedAt, installedAt with
  | some (.utc checked), some (.utc installed) => decide (checked < installed)
  | _, _ => false

/-- `_entry_field` of an entry: a value that is not an object has no fields. -/
def entryFields : Recorded → ModuleEntry
  | .entry fields => fields
  | _ => ⟨none, none, none, none, none⟩

/-- The dictionary Python makes of a JSON object. -/
def pythonDict {Value : Type} (entries : List (String × Value)) : List (String × Value) :=
  OrderedDict.setAll id [] entries

/-- The module map of an installed manifest, empty when it has none. -/
def recordedModules (installed : Option InstalledManifest) : List (String × Recorded) :=
  match moduleMap installed with
  | some entries => pythonDict entries
  | none => []

/-- A provide or verify outcome that leaves a module's state unknown. -/
def unknownOutcome (outcome : Option String) : Bool :=
  outcome = some "fail" || outcome = some "skipped"

/-- The live verdict on a module, empty when the report has none. -/
def liveVerdict (validation : Option Validation) (name : String) : String :=
  match validation with
  | some report => (OrderedDict.get? id report.modules name).getD ""
  | none => ""

/-- The state `classify` gives a module that has a record. -/
def recordedState (entry : ModuleEntry) (builtHash : Option String) (verdict : String)
    (checkedAt : Option Stamp) : ModuleState :=
  if unknownOutcome entry.provide || unknownOutcome entry.verify || entry.hash = none
      || entry.hash = some "" || entry.hash ≠ builtHash then .needsUpdate
  else if foldCase verdict = "fail" && !validationIsStale checkedAt entry.installedAt then
    .needsRepair
  else .upToDate

/-- The row of `classify` for a module of the build. -/
def moduleDrift (installed : List (String × Recorded)) (build : BuildManifest)
    (validation : Option Validation) (name : String) : ModuleDrift :=
  let built := OrderedDict.get? id build.moduleState name
  let builtHash := built.map BuiltState.hash
  let builtVersion := built.map BuiltState.version
  match OrderedDict.get? id installed name with
  | none | some .null => ⟨name, .missing, none, builtVersion, none, builtHash, none, none⟩
  | some recorded =>
    let entry := entryFields recorded
    ⟨name,
      recordedState entry builtHash (liveVerdict validation name) (validation.bind (·.checkedAt)),
      entry.version, builtVersion, entry.hash, builtHash, entry.provide, entry.verify⟩

/-- The row of `classify` for a module the build no longer ships. -/
def extraDrift (installed : List (String × Recorded)) (name : String) : ModuleDrift :=
  let entry := ((OrderedDict.get? id installed name).map entryFields).getD
    ⟨none, none, none, none, none⟩
  ⟨name, .extra, entry.version, none, entry.hash, none, entry.provide, entry.verify⟩

/-- `classify`. -/
def classify (installed : Option InstalledManifest) (build : BuildManifest)
    (validation : Option Validation) : DriftReport :=
  let recorded := recordedModules installed
  let extras := ((recorded.map Prod.fst).filter fun name => name ∉ build.modules).mergeSort
    fun name other => decide (name ≤ other)
  { modules := build.modules.map (moduleDrift recorded build validation)
      ++ extras.map (extraDrift recorded)
    always := build.alwaysModules }

/-- What a driver run was asked to do. -/
structure RunOptions where
  force : Bool
  /-- `--modules`, each item possibly a comma-separated list. -/
  modules : List String
deriving DecidableEq, Repr

/-- What the driver reads of the provider tree: the modules that close every run
and the execution order. -/
structure ProviderTree where
  alwaysModules : List String
  order : List (String × Int)
deriving DecidableEq, Repr

/-- The position of a module in the execution order. -/
def ProviderTree.position (tree : ProviderTree) (name : String) : Int :=
  (OrderedDict.get? id tree.order name).getD 0

/-- `_filter_targets`. -/
def filterTargets (tree : ProviderTree) (requested targets fullSet : List String) : List String :=
  let named := requested.flatMap splitNames
  let wanted := if targets = [] then fullSet else targets
  let real := wanted.filter fun name => name ∈ named
  if real = [] then []
  else
    (real ++ tree.alwaysModules.filter fun name => name ∉ real).mergeSort fun name other =>
      decide (tree.position name < tree.position other) ||
        (tree.position name == tree.position other && decide (name ≤ other))

/-- The outcome of phase 5. -/
inductive Decision
  | alreadyCurrent
  | noRequestedModuleDrift
  /-- Run the execute script for these modules; for all of them when none is named. -/
  | run (targetModules : List String)
deriving DecidableEq, Repr

/-- The targets phase 5 starts from; `none` when the unit is current. -/
def driftTargets (installed : Option InstalledManifest) (build : BuildManifest)
    (validation : Option Validation) : Option (List String) :=
  let report := classify installed build validation
  let aggregateMatches := (installed.bind (·.payloadHash)) = some build.payloadHash
  if report.current then if aggregateMatches then none else some []
  else some report.targets

/-- Phase 5 of `_process_unit`. The driver built the unit's full set, so the full
set it filters is the build's. -/
def phase5 (tree : ProviderTree) (options : RunOptions) (installed : Option InstalledManifest)
    (build : BuildManifest) (validation : Option Validation) : Decision :=
  match if options.force then some [] else driftTargets installed build validation with
  | none => .alreadyCurrent
  | some targets =>
    if options.modules = [] then .run targets
    else
      let filtered := filterTargets tree options.modules targets build.modules
      if filtered = [] then .noRequestedModuleDrift else .run filtered

/-- `exclusions`: the recorded entries no target claims. -/
def exclusions (build : BuildManifest) (targets : List String) : List (Bucket × String) :=
  let never := (build.payloadAlways.slots).map Prod.snd
  let claimed := build.modulePayload.flatMap fun entry =>
    entry.2.slots.map fun slot => (slot, entry.1)
  if targets = [] then []
  else
    (claimed.map Prod.fst).dedup.filter fun slot =>
      slot.2 ∉ never && !claimed.any fun claim => claim.1 == slot && claim.2 ∈ targets

end MastProvisioning.Driver
