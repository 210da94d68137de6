import MastProvisioning.Unit.InstalledManifest

/-!
# What the merge of a manifest comes to

`Merge-MastInstalledManifest` with everything it reads and writes: the facts beside
an entry, the identity of the build, the revisions of the clones. `merge_spec` says
what each module has in the merged record, when the record is complete, and that the
order of two runs over different modules does not show. `mergeManifest_forget` is
the connection to `mergeInstalledManifest`, which leaves the facts out.
-/

namespace MastProvisioning.Unit

open MastProvisioning.Collections MastProvisioning.PowerShell MastProvisioning.Build

/-- The properties of an object, or an ordered map: no two of its names are one to
PowerShell. -/
structure PropertyMap (fold : Char → Char) (Value : Type) where
  entries : List (String × Value)
  distinct : OrderedDict.Distinct (foldText fold) entries

namespace PropertyMap

variable {fold : Char → Char} {Value : Type}

/-- The map without entries. -/
def empty : PropertyMap fold Value := ⟨[], OrderedDict.distinct_nil⟩

/-- The value under a name. A name with wildcard characters, which `Match` would take
for a pattern, is no module's. -/
def get? (map : PropertyMap fold Value) (name : String) : Option Value :=
  OrderedDict.get? (foldText fold) map.entries name

/-- Write entries one after the other. -/
def setAll (map : PropertyMap fold Value) (entries : List (String × Value)) :
    PropertyMap fold Value :=
  ⟨OrderedDict.setAll (foldText fold) map.entries entries, map.distinct.setAll entries⟩

/-- Lookups do not depend on the spelling of a name. -/
theorem get?_congr (map : PropertyMap fold Value) {name other : String}
    (same : foldText fold name = foldText fold other) : map.get? name = map.get? other := by
  unfold get? OrderedDict.get? OrderedDict.find?
  rw [same]

/-- What is under a name once entries made from a map are written over another. -/
theorem get?_setAll_map {Other : Type} (map : PropertyMap fold Value)
    (written : PropertyMap fold Other) (make : String → Other → Value) (name : String) :
    (map.setAll (written.entries.map fun entry => (entry.1, make entry.1 entry.2))).get? name =
      ((OrderedDict.find? (foldText fold) written.entries name).map fun entry =>
        make entry.1 entry.2).or (map.get? name) := by
  have mapped : OrderedDict.Distinct (foldText fold)
      (written.entries.map fun entry => (entry.1, make entry.1 entry.2)) := by
    simpa [OrderedDict.Distinct, Function.comp_def] using written.distinct
  unfold get? setAll OrderedDict.get?
  simp only
  rw [OrderedDict.find?_setAll mapped]
  have found : OrderedDict.find? (foldText fold)
      (written.entries.map fun entry => (entry.1, make entry.1 entry.2)) name =
      (OrderedDict.find? (foldText fold) written.entries name).map fun entry =>
        (entry.1, make entry.1 entry.2) := by
    simp [OrderedDict.find?, List.find?_map, Function.comp_def]
  rw [found]
  cases OrderedDict.find? (foldText fold) written.entries name <;> simp

end PropertyMap

/-- A module's entry with what its scripts observed. -/
structure ModuleRecord (Facts : Type) extends ModuleEntry where
  facts : Option Facts

/-- A value under a module's name in a manifest. -/
inductive PropertyValue (Facts : Type)
  | null
  /-- A number, a text, a list. -/
  | scalar
  | object (record : ModuleRecord Facts)

/-- The module state in a value, by `Test-MastModuleEntry`. -/
def PropertyValue.record? {Facts : Type} : PropertyValue Facts → Option (ModuleRecord Facts)
  | .object record => some record
  | _ => none

/-- The `modules` property of a manifest. -/
inductive ModulesValue (fold : Char → Char) (Facts : Type)
  | absent
  /-- A list of names in a legacy manifest, or any other value that is no object. -/
  | other
  | object (properties : PropertyMap fold (PropertyValue Facts))

/-- `installed-manifest.json` with everything in it. -/
structure UnitManifest (fold : Char → Char) (Facts Repos : Type) where
  installedAt : Option Stamp
  fullyProvisioned : Bool
  modules : ModulesValue fold Facts
  repos : Option Repos
  builtAt : Option String
  gitSha : Option String
  hostname : Option String
  payloadHash : Option String

/-- A module's entry in `module_state`. -/
structure BuildFields where
  version : Option String
  hash : Option String
deriving DecidableEq, Repr

/-- `build-manifest.json` as the unit reads it. -/
structure BuildData (fold : Char → Char) where
  modules : Option (List String)
  moduleState : Option (PropertyMap fold BuildFields)
  builtAt : Option String
  gitSha : Option String
  hostname : Option String
  payloadHash : Option String

section Merge

variable {fold : Char → Char} {Facts Repos : Type}

/-- The modules a build declares. -/
def BuildData.declared (build : BuildData fold) : List String := build.modules.getD []

/-- The build's version and hash of a module, empty when it has none. -/
def BuildData.built (build : BuildData fold) (name : String) : BuiltState :=
  match build.moduleState.bind fun state => state.get? name with
  | some fields => ⟨fieldText fields.version, fieldText fields.hash⟩
  | none => ⟨"", ""⟩

/-- The entries of a manifest that are module state. -/
def moduleRecords (previous : Option (UnitManifest fold Facts Repos)) :
    List (String × ModuleRecord Facts) :=
  match previous.map UnitManifest.modules with
  | some (.object properties) =>
    properties.entries.filterMap fun property => property.2.record?.map (Prod.mk property.1)
  | _ => []

/-- The entries carried forward from the previous manifest. -/
def carriedRecords (previous : Option (UnitManifest fold Facts Repos)) :
    PropertyMap fold (ModuleRecord Facts) :=
  PropertyMap.empty.setAll (moduleRecords previous)

/-- The entry of a module this run touched. -/
def touchedRecord (build : BuildData fold) (installedAt : Stamp)
    (facts : Option (PropertyMap fold Facts)) (name : String) (outcome : ModuleOutcome) :
    ModuleRecord Facts where
  version := some (build.built name).version
  hash := some (build.built name).hash
  provide := some outcome.provide.text
  verify := some outcome.verify.text
  installedAt := some installedAt
  facts := facts.bind fun observed => observed.get? name

/-- Whether an entry lets its unit count as fully provisioned. -/
def recordClean (build : BuildData fold) (name : String) (record : ModuleRecord Facts) : Bool :=
  fieldText record.hash ≠ "" && psEq fold (fieldText record.hash) (build.built name).hash
    && psEq fold (fieldText record.provide) Outcome.pass.text
    && !psEq fold (fieldText record.verify) Outcome.fail.text
    && !psEq fold (fieldText record.verify) Outcome.skipped.text

/-- `fully_provisioned` for a merged map. -/
def complete (build : BuildData fold) (modules : PropertyMap fold (ModuleRecord Facts)) : Bool :=
  !build.declared.isEmpty && build.declared.all fun name =>
    match modules.get? name with
    | some record => recordClean build name record
    | none => false

/-- The merged module map. -/
def mergedRecords (previous : Option (UnitManifest fold Facts Repos)) (build : BuildData fold)
    (outcomes : PropertyMap fold ModuleOutcome) (installedAt : Stamp)
    (facts : Option (PropertyMap fold Facts)) : PropertyMap fold (ModuleRecord Facts) :=
  (carriedRecords previous).setAll
    (outcomes.entries.map fun outcome =>
      (outcome.1, touchedRecord build installedAt facts outcome.1 outcome.2))

/-- A map of entries as the next run reads it. -/
def PropertyMap.asProperties (modules : PropertyMap fold (ModuleRecord Facts)) :
    PropertyMap fold (PropertyValue Facts) where
  entries := modules.entries.map fun entry => (entry.1, .object entry.2)
  distinct := by simpa [OrderedDict.Distinct, Function.comp_def] using modules.distinct

/-- `Merge-MastInstalledManifest`. -/
def mergeManifest (previous : Option (UnitManifest fold Facts Repos)) (build : BuildData fold)
    (outcomes : PropertyMap fold ModuleOutcome) (installedAt : Stamp) (repos : Option Repos)
    (facts : Option (PropertyMap fold Facts)) : UnitManifest fold Facts Repos :=
  let modules := mergedRecords previous build outcomes installedAt facts
  let fully := complete build modules
  { installedAt := some installedAt
    fullyProvisioned := fully
    modules := .object modules.asProperties
    repos := repos
    builtAt := build.builtAt
    gitSha := build.gitSha
    hostname := build.hostname
    payloadHash := if fully then build.payloadHash else none }

end Merge

/-- The entry a manifest has of a module. -/
def UnitManifest.record? {fold : Char → Char} {Facts Repos : Type}
    (manifest : UnitManifest fold Facts Repos) (name : String) : Option (ModuleRecord Facts) :=
  match manifest.modules with
  | .object properties => (properties.get? name).bind PropertyValue.record?
  | _ => none

/-- A module whose entry is installed and clean for a build. -/
def Settled {fold : Char → Char} {Facts : Type} (build : BuildData fold) (name : String)
    (record : ModuleRecord Facts) : Prop :=
  fieldText record.hash ≠ "" ∧
  foldText fold (fieldText record.hash) = foldText fold (build.built name).hash ∧
  foldText fold (fieldText record.provide) = foldText fold Outcome.pass.text ∧
  foldText fold (fieldText record.verify) ≠ foldText fold Outcome.fail.text ∧
  foldText fold (fieldText record.verify) ≠ foldText fold Outcome.skipped.text

/-- What a merge owes its inputs. -/
structure MergeSpec {fold : Char → Char} {Facts Repos : Type}
    (previous : Option (UnitManifest fold Facts Repos)) (build : BuildData fold)
    (outcomes : PropertyMap fold ModuleOutcome) (merged : UnitManifest fold Facts Repos) : Prop where
  /-- The entries are the previous ones and those of the touched modules. -/
  present : ∀ name, (merged.record? name).isSome ↔
    (previous.bind (·.record? name)).isSome ∨ (outcomes.get? name).isSome
  /-- Nothing else is in the module map. -/
  onlyRecords : ∃ properties, merged.modules = .object properties ∧
    ∀ property ∈ properties.entries, property.2.record?.isSome
  untouched : ∀ name, outcomes.get? name = none →
    merged.record? name = previous.bind (·.record? name)
  touched : ∀ name outcome, outcomes.get? name = some outcome → ∃ record,
    merged.record? name = some record ∧ record.hash = some (build.built name).hash ∧
    record.version = some (build.built name).version ∧
    record.provide = some outcome.provide.text ∧ record.verify = some outcome.verify.text
  fully : merged.fullyProvisioned = true ↔ build.declared ≠ [] ∧
    ∀ name ∈ build.declared, ∃ record, merged.record? name = some record ∧ Settled build name record
  payloadHash : ∀ hash, merged.payloadHash = some hash ↔
    merged.fullyProvisioned = true ∧ build.payloadHash = some hash

section Results

variable {fold : Char → Char} {Facts Repos : Type}
  {previous : Option (UnitManifest fold Facts Repos)} {build : BuildData fold}
  {outcomes : PropertyMap fold ModuleOutcome} {installedAt : Stamp} {repos : Option Repos}
  {facts : Option (PropertyMap fold Facts)}

theorem get?_carriedRecords (name : String) :
    (carriedRecords previous).get? name = previous.bind (·.record? name) := by
  have written (entries : List (String × ModuleRecord Facts))
      (distinct : OrderedDict.Distinct (foldText fold) entries) :
      ((PropertyMap.empty : PropertyMap fold (ModuleRecord Facts)).setAll entries).get? name =
        OrderedDict.get? (foldText fold) entries name := by
    unfold PropertyMap.get? PropertyMap.setAll PropertyMap.empty OrderedDict.get?
    simp only
    rw [OrderedDict.find?_setAll distinct]
    simp [OrderedDict.find?]
  cases previous with
  | none => exact written [] OrderedDict.distinct_nil
  | some manifest =>
    unfold carriedRecords moduleRecords UnitManifest.record?
    cases isModules : manifest.modules with
    | object properties =>
      simp only [Option.map_some, Option.bind_some, isModules]
      rw [written _ (properties.distinct.filterMap _), OrderedDict.get?_filterMap properties.distinct]
      rfl
    | _ =>
      simp only [Option.map_some, Option.bind_some, isModules]
      exact written [] OrderedDict.distinct_nil

theorem built_congr {name other : String} (same : foldText fold name = foldText fold other) :
    build.built name = build.built other := by
  unfold BuildData.built
  cases build.moduleState with
  | none => rfl
  | some state => simp [state.get?_congr same]

theorem touchedRecord_congr {name other : String} (same : foldText fold name = foldText fold other)
    (outcome : ModuleOutcome) :
    touchedRecord build installedAt facts name outcome =
      touchedRecord build installedAt facts other outcome := by
  unfold touchedRecord
  rw [built_congr same]
  cases facts with
  | none => rfl
  | some observed => simp [observed.get?_congr same]

/-- The merged entry of a module: the one this run made, or the previous one. -/
theorem get?_mergedRecords (name : String) :
    (mergedRecords previous build outcomes installedAt facts).get? name =
      ((outcomes.get? name).map (touchedRecord build installedAt facts name)).or
        (previous.bind (·.record? name)) := by
  unfold mergedRecords
  rw [PropertyMap.get?_setAll_map, get?_carriedRecords]
  congr 1
  unfold PropertyMap.get? OrderedDict.get?
  cases found : OrderedDict.find? (foldText fold) outcomes.entries name with
  | none => rfl
  | some entry =>
    have same : foldText fold entry.1 = foldText fold name := (OrderedDict.mem_of_find? found).2
    simp [touchedRecord_congr same]

theorem record?_mergeManifest (name : String) :
    (mergeManifest previous build outcomes installedAt repos facts).record? name =
      (mergedRecords previous build outcomes installedAt facts).get? name := by
  unfold mergeManifest UnitManifest.record? PropertyMap.get? OrderedDict.get? OrderedDict.find?
    PropertyMap.asProperties
  simp only [List.find?_map, Function.comp_def]
  cases (mergedRecords previous build outcomes installedAt facts).entries.find?
    fun entry => foldText fold entry.1 = foldText fold name <;> rfl

theorem recordClean_iff {name : String} {record : ModuleRecord Facts} :
    recordClean build name record = true ↔ Settled build name record := by
  simp [recordClean, Settled, psEq, and_assoc]

theorem complete_iff {modules : PropertyMap fold (ModuleRecord Facts)} :
    complete build modules = true ↔ build.declared ≠ [] ∧ ∀ name ∈ build.declared,
      ∃ record, modules.get? name = some record ∧ Settled build name record := by
  unfold complete
  rw [Bool.and_eq_true, List.all_eq_true]
  refine and_congr (by simp) (forall_congr' fun name => imp_congr Iff.rfl ?_)
  cases modules.get? name with
  | none => simp
  | some record => simp [recordClean_iff]

theorem mergeManifest_spec (previous : Option (UnitManifest fold Facts Repos))
    (build : BuildData fold) (outcomes : PropertyMap fold ModuleOutcome) (installedAt : Stamp)
    (repos : Option Repos) (facts : Option (PropertyMap fold Facts)) :
    MergeSpec previous build outcomes
      (mergeManifest previous build outcomes installedAt repos facts) where
  present name := by
    rw [record?_mergeManifest, get?_mergedRecords]
    cases outcomes.get? name <;> simp
  onlyRecords := by
    refine ⟨_, rfl, fun property member => ?_⟩
    obtain ⟨entry, _, rfl⟩ := List.mem_map.mp member
    rfl
  untouched name absent := by
    rw [record?_mergeManifest, get?_mergedRecords, absent]
    rfl
  touched name outcome isTouched := by
    refine ⟨touchedRecord build installedAt facts name outcome, ?_, rfl, rfl, rfl, rfl⟩
    rw [record?_mergeManifest, get?_mergedRecords, isTouched]
    rfl
  fully := by
    simp only [record?_mergeManifest]
    exact complete_iff
  payloadHash hash := by
    unfold mergeManifest
    cases complete build (mergedRecords previous build outcomes installedAt facts) <;> simp

/-- An entry without the time of its run. -/
def ModuleRecord.timeless (record : ModuleRecord Facts) : ModuleRecord Facts :=
  { record with installedAt := none }

theorem touchedRecord_timeless (name : String) (outcome : ModuleOutcome) (other : Stamp) :
    (touchedRecord build installedAt facts name outcome).timeless =
      (touchedRecord build other facts name outcome).timeless := rfl

/-- The record after two runs over different modules. -/
theorem record?_mergeManifest_twice {second : PropertyMap fold ModuleOutcome} {later : Stamp}
    {reposLater : Option Repos} {factsLater : Option (PropertyMap fold Facts)} (name : String) :
    (mergeManifest (some (mergeManifest previous build outcomes installedAt repos facts)) build
        second later reposLater factsLater).record? name =
      ((second.get? name).map (touchedRecord build later factsLater name)).or
        (((outcomes.get? name).map (touchedRecord build installedAt facts name)).or
          (previous.bind (·.record? name))) := by
  rw [record?_mergeManifest, get?_mergedRecords, Option.bind_some, record?_mergeManifest,
    get?_mergedRecords]

/-- A merge carries every module entry over or makes it from this run and the build,
says truthfully whether the build is installed, and does not depend on the order of
two runs over different modules but for the time stamps. -/
theorem merge_spec (previous : Option (UnitManifest fold Facts Repos)) (build : BuildData fold)
    (outcomes : PropertyMap fold ModuleOutcome) (installedAt : Stamp) (repos : Option Repos)
    (facts : Option (PropertyMap fold Facts)) :
    MergeSpec previous build outcomes
        (mergeManifest previous build outcomes installedAt repos facts) ∧
      ∀ (others : PropertyMap fold ModuleOutcome) (otherTime thenTime lastTime : Stamp)
        (otherRepos : Option Repos) (otherFacts : Option (PropertyMap fold Facts)),
        (∀ name, outcomes.get? name = none ∨ others.get? name = none) → ∀ name,
          ((mergeManifest (some (mergeManifest previous build outcomes installedAt repos facts)) build
            others otherTime otherRepos otherFacts).record? name).map ModuleRecord.timeless =
          ((mergeManifest (some (mergeManifest previous build others thenTime otherRepos otherFacts))
            build outcomes lastTime repos facts).record? name).map ModuleRecord.timeless := by
  refine ⟨mergeManifest_spec previous build outcomes installedAt repos facts, ?_⟩
  intro others otherTime thenTime lastTime otherRepos otherFacts disjoint name
  rw [record?_mergeManifest_twice, record?_mergeManifest_twice]
  rcases disjoint name with absent | absent
  · rw [absent]
    cases others.get? name with
    | none => rfl
    | some outcome => exact congrArg some (touchedRecord_timeless name outcome thenTime)
  · rw [absent]
    cases outcomes.get? name with
    | none => rfl
    | some outcome => exact congrArg some (touchedRecord_timeless name outcome lastTime)

end Results

section Forget

variable {fold : Char → Char} {Facts Repos : Type}

/-- A value without the facts. -/
def PropertyValue.forget : PropertyValue Facts → Recorded
  | .null => .null
  | .scalar => .scalar
  | .object record => .entry record.toModuleEntry

/-- A modules property without the facts. -/
def ModulesValue.forget : ModulesValue fold Facts → ModulesField
  | .absent => .absent
  | .other => .notMap
  | .object properties => .map (properties.entries.map fun property => (property.1, property.2.forget))

/-- A manifest without the facts, the clones and the identity of its build. -/
def UnitManifest.forget (manifest : UnitManifest fold Facts Repos) : InstalledManifest where
  installedAt := manifest.installedAt
  fullyProvisioned := manifest.fullyProvisioned
  modules := manifest.modules.forget
  payloadHash := manifest.payloadHash

/-- A build manifest says of modules what a build's data says. -/
structure SameBuild (build : BuildData fold) (manifest : BuildManifest) : Prop where
  modules : build.declared = manifest.modules
  built : ∀ name, build.built name = builtState fold manifest name
  payloadHash : build.payloadHash = some manifest.payloadHash

variable {previous : Option (UnitManifest fold Facts Repos)} {build : BuildData fold}
  {outcomes : PropertyMap fold ModuleOutcome} {installedAt : Stamp} {repos : Option Repos}
  {facts : Option (PropertyMap fold Facts)} {manifest : BuildManifest}

theorem setAll_map {Value Other : Type} (make : Value → Other) (dict entries : List (String × Value)) :
    OrderedDict.setAll (foldText fold) (dict.map fun entry => (entry.1, make entry.2))
        (entries.map fun entry => (entry.1, make entry.2)) =
      (OrderedDict.setAll (foldText fold) dict entries).map fun entry => (entry.1, make entry.2) := by
  have setMap (dict : List (String × Value)) (key : String) (value : Value) :
      OrderedDict.set (foldText fold) (dict.map fun entry => (entry.1, make entry.2)) key (make value) =
        (OrderedDict.set (foldText fold) dict key value).map fun entry => (entry.1, make entry.2) := by
    induction dict with
    | nil => rfl
    | cons head rest ih =>
      simp only [List.map_cons, OrderedDict.set]
      split
      · rfl
      · rw [ih, List.map_cons]
  unfold OrderedDict.setAll
  induction entries generalizing dict with
  | nil => rfl
  | cons entry rest ih => simp only [List.map_cons, List.foldl_cons, setMap, ih]

theorem carriedRecords_forget :
    (carriedRecords previous).entries.map (fun entry => (entry.1, Recorded.entry entry.2.toModuleEntry)) =
      carriedForward fold (previous.map UnitManifest.forget) := by
  have entered (entries : List (String × ModuleRecord Facts)) :
      (OrderedDict.setAll (foldText fold) [] entries).map
          (fun entry => (entry.1, Recorded.entry entry.2.toModuleEntry)) =
        OrderedDict.setAll (foldText fold) []
          (entries.map fun entry => (entry.1, Recorded.entry entry.2.toModuleEntry)) :=
    (setAll_map (fun record => Recorded.entry record.toModuleEntry) [] entries).symm
  have carried : (carriedRecords previous).entries =
      OrderedDict.setAll (foldText fold) [] (moduleRecords previous) := rfl
  rw [carried, entered]
  unfold moduleRecords carriedForward moduleMap
  cases previous with
  | none => rfl
  | some manifest =>
    simp only [Option.map_some, Option.bind_some, UnitManifest.forget]
    cases manifest.modules with
    | object properties =>
      simp only [ModulesValue.forget]
      congr 1
      induction properties.entries with
      | nil => rfl
      | cons property rest ih =>
        obtain ⟨name, value⟩ := property
        cases value <;>
          simpa [PropertyValue.record?, PropertyValue.forget, testModuleEntry] using ih
    | _ => rfl

/-- Without the facts the merge is the one the driver's side of the model uses. -/
theorem mergeManifest_forget (same : SameBuild build manifest) :
    (mergeManifest previous build outcomes installedAt repos facts).forget =
      mergeInstalledManifest fold (previous.map UnitManifest.forget) manifest outcomes.entries
        installedAt := by
  have touched (name : String) (outcome : ModuleOutcome) :
      (touchedRecord build installedAt facts name outcome).toModuleEntry =
        touchedEntry fold manifest installedAt name outcome := by
    simp only [touchedRecord, touchedEntry, same.built]
  have modules : (mergedRecords previous build outcomes installedAt facts).entries.map
      (fun entry => (entry.1, Recorded.entry entry.2.toModuleEntry)) =
      mergedModules fold (previous.map UnitManifest.forget) manifest outcomes.entries installedAt := by
    unfold mergedRecords mergedModules PropertyMap.setAll
    rw [← carriedRecords_forget]
    simp only
    rw [← setAll_map (fun record : ModuleRecord Facts => Recorded.entry record.toModuleEntry)]
    simp [Function.comp_def, touched]
  have looked (name : String) :
      OrderedDict.get? (foldText fold)
          (mergedModules fold (previous.map UnitManifest.forget) manifest outcomes.entries installedAt)
          name =
        ((mergedRecords previous build outcomes installedAt facts).get? name).map
          fun record => .entry record.toModuleEntry := by
    rw [← modules]
    unfold PropertyMap.get? OrderedDict.get? OrderedDict.find?
    simp [List.find?_map, Function.comp_def]
  have fully : complete build (mergedRecords previous build outcomes installedAt facts) =
      fullyProvisioned fold manifest
        (mergedModules fold (previous.map UnitManifest.forget) manifest outcomes.entries installedAt) := by
    unfold complete fullyProvisioned
    rw [same.modules]
    congr 1
    refine congrArg _ (funext fun name => ?_)
    rw [looked]
    cases (mergedRecords previous build outcomes installedAt facts).get? name with
    | none => rfl
    | some record => simp [recordClean, entryClean, same.built]
  unfold mergeManifest mergeInstalledManifest UnitManifest.forget ModulesValue.forget
  have listed : (mergedRecords previous build outcomes installedAt facts).asProperties.entries.map
      (fun property => (property.1, property.2.forget)) =
      mergedModules fold (previous.map UnitManifest.forget) manifest outcomes.entries installedAt := by
    rw [← modules]
    simp [PropertyMap.asProperties, Function.comp_def, PropertyValue.forget]
  simp only [listed, fully, same.payloadHash]
  rfl

end Forget

end MastProvisioning.Unit
