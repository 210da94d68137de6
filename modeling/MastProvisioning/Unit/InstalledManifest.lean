import MastProvisioning.Build.Manifest

/-!
# The cumulative installed manifest

`mast-installed-manifest.ps1`: the outcome of each command of a run is collected
per module, and the outcomes are merged into the record the unit already has. The
aggregate `payload_hash` is published only when every module of the build is
present, matches the build's hash, installed and did not fail its verify.
-/

namespace MastProvisioning.Unit

open MastProvisioning.Collections MastProvisioning.PowerShell MastProvisioning.Build

/-- What became of a module's commands of one kind. -/
inductive Outcome
  | pass
  | fail
  /-- The payload declares no command of that kind. -/
  | none
  /-- The payload declares one and this run did not run it. -/
  | skipped
deriving DecidableEq, Repr

/-- The text an outcome is recorded as. -/
def Outcome.text : Outcome → String
  | .pass => "pass"
  | .fail => "fail"
  | .none => "none"
  | .skipped => "skipped"

theorem Outcome.text_injective {outcome other : Outcome} (same : outcome.text = other.text) :
    outcome = other := by
  cases outcome <;> cases other <;> first | rfl | exact absurd same (by decide)

/-- The outcomes of one module. -/
structure ModuleOutcome where
  provide : Outcome
  verify : Outcome
deriving DecidableEq, Repr

/-- A module without commands so far. -/
def ModuleOutcome.fresh : ModuleOutcome := ⟨.none, .none⟩

/-- Change the outcome of one kind. -/
def ModuleOutcome.change (outcome : ModuleOutcome) (verify : Bool) (step : Outcome → Outcome) :
    ModuleOutcome :=
  if verify then { outcome with verify := step outcome.verify }
  else { outcome with provide := step outcome.provide }

/-- A time stamp of the manifest and the verify report: a second, when it is in
their format. -/
inductive Stamp
  | utc (second : Int)
  | unparseable (text : String)
deriving DecidableEq, Repr

/-- A module's entry. A field is `none` when the entry does not have it. -/
structure ModuleEntry where
  version : Option String
  hash : Option String
  provide : Option String
  verify : Option String
  installedAt : Option Stamp
deriving DecidableEq, Repr

/-- A value under a module's name. Only an object is module state. -/
inductive Recorded
  | null
  /-- A number, a text, a list. -/
  | scalar
  | entry (fields : ModuleEntry)
deriving DecidableEq, Repr

/-- The `modules` field: a map, or whatever else an older manifest has there. -/
inductive ModulesField
  | absent
  | notMap
  | map (entries : List (String × Recorded))
deriving DecidableEq, Repr

/-- `installed-manifest.json`. -/
structure InstalledManifest where
  installedAt : Option Stamp
  fullyProvisioned : Bool
  modules : ModulesField
  payloadHash : Option String
deriving DecidableEq, Repr

/-- The module map of a manifest that has one. -/
def moduleMap (installed : Option InstalledManifest) : Option (List (String × Recorded)) :=
  installed.bind fun manifest =>
    match manifest.modules with
    | .map entries => some entries
    | _ => none

section Outcomes

variable (fold : Char → Char)

/-- `New-MastModuleOutcomeMap`. -/
def newModuleOutcomeMap (commands : List Command) : List (String × ModuleOutcome) :=
  commands.foldl (fun map command =>
    if isBlank command.module then map
    else OrderedDict.upsert (foldText fold) map (baseName fold command.module) .fresh fun outcome =>
      outcome.change (isVerify fold command.module) fun _ => .skipped) []

/-- What a command's result makes of the outcome so far: a failure is never taken back. -/
def Outcome.record (outcome : Outcome) (success : Bool) : Outcome :=
  if !success then .fail else if outcome ≠ .fail then .pass else outcome

/-- `Add-MastModuleOutcome`. -/
def addModuleOutcome (outcomes : List (String × ModuleOutcome)) (commandModule : String)
    (success : Bool) : List (String × ModuleOutcome) :=
  OrderedDict.upsert (foldText fold) outcomes (baseName fold commandModule) .fresh fun outcome =>
    outcome.change (isVerify fold commandModule) fun before => before.record success

end Outcomes

section Merge

variable (fold : Char → Char)

/-- `-eq` on texts. -/
def psEq (text other : String) : Bool :=
  foldText fold text == foldText fold other

/-- `Test-MastModuleEntry`. -/
def testModuleEntry : Recorded → Bool
  | .entry _ => true
  | _ => false

/-- The entries carried forward from the previous manifest. -/
def carriedForward (previous : Option InstalledManifest) : List (String × Recorded) :=
  match moduleMap previous with
  | some entries =>
    OrderedDict.setAll (foldText fold) [] (entries.filter fun entry => testModuleEntry entry.2)
  | none => []

/-- The build's version and hash of a module, empty when it has none. -/
def builtState (buildData : BuildManifest) (name : String) : BuiltState :=
  (OrderedDict.get? (foldText fold) buildData.moduleState name).getD ⟨"", ""⟩

/-- The entry of a module this run touched. -/
def touchedEntry (buildData : BuildManifest) (installedAt : Stamp) (name : String)
    (outcome : ModuleOutcome) : ModuleEntry where
  version := some (builtState fold buildData name).version
  hash := some (builtState fold buildData name).hash
  provide := some outcome.provide.text
  verify := some outcome.verify.text
  installedAt := some installedAt

/-- The merged map: the previous entries, overwritten for every module touched. -/
def mergedModules (previous : Option InstalledManifest) (buildData : BuildManifest)
    (outcomes : List (String × ModuleOutcome)) (installedAt : Stamp) : List (String × Recorded) :=
  OrderedDict.setAll (foldText fold) (carriedForward fold previous)
    (outcomes.map fun outcome =>
      (outcome.1, .entry (touchedEntry fold buildData installedAt outcome.1 outcome.2)))

/-- `Get-MastEntryField` as text; a missing field is the empty text. -/
def fieldText (field : Option String) : String := field.getD ""

/-- Whether a module's entry lets the unit count as fully provisioned. -/
def entryClean (buildData : BuildManifest) (name : String) : Recorded → Bool
  | .entry entry =>
    fieldText entry.hash ≠ "" && psEq fold (fieldText entry.hash) (builtState fold buildData name).hash
      && psEq fold (fieldText entry.provide) Outcome.pass.text
      && !psEq fold (fieldText entry.verify) Outcome.fail.text
      && !psEq fold (fieldText entry.verify) Outcome.skipped.text
  | _ => false

/-- `fully_provisioned` for a merged map. -/
def fullyProvisioned (buildData : BuildManifest) (modules : List (String × Recorded)) : Bool :=
  !buildData.modules.isEmpty && buildData.modules.all fun name =>
    match OrderedDict.get? (foldText fold) modules name with
    | some recorded => entryClean fold buildData name recorded
    | none => false

/-- `Merge-MastInstalledManifest`. -/
def mergeInstalledManifest (previous : Option InstalledManifest) (buildData : BuildManifest)
    (outcomes : List (String × ModuleOutcome)) (installedAt : Stamp) : InstalledManifest :=
  let modules := mergedModules fold previous buildData outcomes installedAt
  let fully := fullyProvisioned fold buildData modules
  { installedAt := some installedAt
    fullyProvisioned := fully
    modules := .map modules
    payloadHash := if fully then some buildData.payloadHash else none }

/-- Whether `ConvertFrom-Json` accepts the object keys of a manifest: no key is
empty and no two are equal when case is ignored. -/
def keysReadable (names : List String) : Bool :=
  decide ("" ∉ names) && decide (names.map (foldText fold)).Nodup

/-- The previous manifest as execute reads it; one it cannot parse counts as none. -/
def readPrevious (installed : Option InstalledManifest) : Option InstalledManifest :=
  match moduleMap installed with
  | some entries => if keysReadable fold (entries.map Prod.fst) then installed else none
  | none => installed

end Merge

variable {fold : Char → Char} {previous : Option InstalledManifest} {buildData : BuildManifest}
  {outcomes : List (String × ModuleOutcome)} {installedAt : Stamp}

theorem carriedForward_distinct :
    OrderedDict.Distinct (foldText fold) (carriedForward fold previous) := by
  unfold carriedForward
  split
  · exact OrderedDict.distinct_nil.setAll _
  · exact OrderedDict.distinct_nil

theorem mergedModules_distinct :
    OrderedDict.Distinct (foldText fold)
      (mergedModules fold previous buildData outcomes installedAt) :=
  carriedForward_distinct.setAll _

/-- The merged entry of a module: the one this run made, or the one carried forward. -/
theorem find?_mergedModules (distinct : OrderedDict.Distinct (foldText fold) outcomes)
    (name : String) :
    OrderedDict.find? (foldText fold)
        (mergedModules fold previous buildData outcomes installedAt) name =
      ((OrderedDict.find? (foldText fold) outcomes name).map fun outcome =>
        (outcome.1, .entry (touchedEntry fold buildData installedAt outcome.1 outcome.2))).or
      (OrderedDict.find? (foldText fold) (carriedForward fold previous) name) := by
  have mapped : OrderedDict.Distinct (foldText fold) (outcomes.map fun outcome =>
      (outcome.1, Recorded.entry (touchedEntry fold buildData installedAt outcome.1 outcome.2))) := by
    simpa [OrderedDict.Distinct, Function.comp_def] using distinct
  unfold mergedModules
  rw [OrderedDict.find?_setAll mapped]
  simp [OrderedDict.find?, List.find?_map, Function.comp_def]

/-- An entry of a manifest whose keys are distinct is carried forward. -/
theorem find?_carriedForward {entries : List (String × Recorded)}
    (isMap : moduleMap previous = some entries)
    (distinct : OrderedDict.Distinct (foldText fold) entries) (name : String) :
    OrderedDict.find? (foldText fold) (carriedForward fold previous) name =
      (OrderedDict.find? (foldText fold) entries name).filter
        fun entry => testModuleEntry entry.2 := by
  simp only [carriedForward, isMap]
  rw [OrderedDict.find?_setAll (distinct.filter _), OrderedDict.find?_filter distinct]
  simp

theorem keysReadable_iff {names : List String} :
    keysReadable fold names = true ↔ "" ∉ names ∧ (names.map (foldText fold)).Nodup := by
  simp [keysReadable]

/-- A manifest is read back as it is or not at all. -/
theorem readPrevious_eq (installed : Option InstalledManifest) :
    readPrevious fold installed = installed ∨ readPrevious fold installed = none := by
  unfold readPrevious
  split
  · split
    · exact .inl rfl
    · exact .inr rfl
  · exact .inl rfl

theorem readPrevious_readPrevious (installed : Option InstalledManifest) :
    readPrevious fold (readPrevious fold installed) = readPrevious fold installed := by
  have either : readPrevious fold installed = installed ∨ readPrevious fold installed = none :=
    readPrevious_eq installed
  rcases either with readable | unreadable
  · rw [readable, readable]
  · rw [unreadable]
    rfl

end MastProvisioning.Unit
