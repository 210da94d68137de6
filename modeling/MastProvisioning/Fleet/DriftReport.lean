import Mathlib
import MastProvisioning.Fleet.RepoComparison
import MastProvisioning.Driver.Drift

/-!
# The result of the fleet drift report

`fleet-drift-report.py` compares what the units of the fleet recorded: their modules with
the build or with each other, their repositories with a base, their bootstrap version with
the list of elements. `_render_result` and the exit code of `main` each look at a part of
what the comparisons found.
-/

namespace MastProvisioning.Fleet

open MastProvisioning.Collections MastProvisioning.PowerShell MastProvisioning.Build
open MastProvisioning.Unit MastProvisioning.Driver

/-- What became of reading a unit. -/
inductive UnitStatus where
  | ok
  | unreachable
  | noManifest
  | parseError
  | error
  deriving DecidableEq, Repr

/-- `status.upper()`. -/
def UnitStatus.upper : UnitStatus → String
  | .ok => "OK"
  | .unreachable => "UNREACHABLE"
  | .noManifest => "NO-MANIFEST"
  | .parseError => "PARSE-ERROR"
  | .error => "ERROR"

/-- `UnitRecord`, with the fields the comparisons read. -/
structure UnitRecord where
  host : String
  status : UnitStatus
  payloadHash : Option String
  moduleVersions : List (String × String)
  modules : List (String × Recorded)
  bootstrapVersion : Option Int
  repos : List (String × RepoRow)
  facts : List (String × List (String × String))
  validation : List (String × String)
  deriving DecidableEq, Repr

/-- A dictionary by host, written unit after unit. -/
def byHost {Value : Type} (units : List UnitRecord) (value : UnitRecord → Value) :
    List (String × Value) :=
  OrderedDict.setAll id [] (units.map fun unit => (unit.host, value unit))

/-- `sorted(...)`. -/
def sortNames (names : List String) : List String :=
  names.insertionSort (· ≤ ·)

/-- `sorted(set(...))`. -/
def sortedSet (names : List String) : List String :=
  sortNames names.dedup

theorem mem_sortNames {names : List String} {name : String} :
    name ∈ sortNames names ↔ name ∈ names :=
  List.mem_insertionSort _

theorem sortNames_eq_nil {names : List String} : sortNames names = [] ↔ names = [] := by
  rw [← List.length_eq_zero_iff, sortNames, List.length_insertionSort, List.length_eq_zero_iff]

def okUnits (units : List UnitRecord) : List UnitRecord :=
  units.filter fun unit => unit.status = .ok

/-- The verdict of a unit that has what it should. -/
def inSync : String := "IN SYNC"

section Modules

/-- What a comparison of the modules found. -/
structure ModuleComparison where
  baselineHash : Option String
  modules : List String
  driftModulesByHost : List (String × List String)
  verdicts : List (String × String)
  deriving DecidableEq, Repr

/-- The verdicts of units, `current` telling of those that were read. -/
def verdictsOf (units : List UnitRecord) (current : UnitRecord → Bool) : List (String × String) :=
  byHost units fun unit =>
    if unit.status ≠ .ok then unit.status.upper else if current unit then inSync else "DRIFT"

/-- The versions the units that were read have of a module. -/
def versionCells (units : List UnitRecord) (name : String) : List (String × Option String) :=
  byHost (okUnits units) fun unit => OrderedDict.get? id unit.moduleVersions name

/-- The hosts whose version of a module is not the base. -/
def versionDiffers (units : List UnitRecord) (reference : Option UnitRecord) (name : String) :
    List String :=
  let cells := versionCells units name
  let base := baseline (cells.map Prod.snd)
    (reference.bind fun unit => OrderedDict.get? id unit.moduleVersions name)
  (cells.filter fun cell => cell.2 ≠ base).map Prod.fst

/-- `compare`. -/
def compare (units : List UnitRecord) (reference : Option UnitRecord) : ModuleComparison :=
  let readable := okUnits units
  let names := sortedSet (readable.flatMap (·.moduleVersions.map Prod.fst)
    ++ (reference.map (·.moduleVersions.map Prod.fst)).getD [])
  let baselineHash := baseline (readable.map (·.payloadHash)) (reference.bind (·.payloadHash))
  let drift := fun host => names.filter fun name => host ∈ versionDiffers units reference name
  { baselineHash := baselineHash
    modules := names
    driftModulesByHost := byHost readable fun unit => drift unit.host
    verdicts := verdictsOf units fun unit =>
      unit.payloadHash = baselineHash && (drift unit.host).isEmpty }

/-- The manifest and the validation `compare_to_build` hands to `classify`. -/
def classifyUnit (build : BuildManifest) (unit : UnitRecord) : DriftReport :=
  classify
    (if unit.modules = [] then none else some ⟨none, false, .map unit.modules, none⟩) build
    (if unit.validation = [] then none else some ⟨unit.validation, none⟩)

/-- `compare_to_build`. -/
def compareToBuild (units : List UnitRecord) (build : BuildManifest) : ModuleComparison :=
  let reports := byHost (okUnits units) (classifyUnit build)
  let extras := sortedSet (reports.flatMap fun entry =>
    (entry.2.modules.filter fun row => row.state = .extra).map ModuleDrift.name)
  { baselineHash := some build.payloadHash
    modules := build.modules ++ extras.filter fun name => name ∉ build.modules
    driftModulesByHost := reports.map fun entry => (entry.1, entry.2.targets)
    verdicts := verdictsOf units fun unit =>
      ((OrderedDict.get? id reports unit.host).map DriftReport.current) = some true }

end Modules

section Repos

/-- A row of the repository matrix. -/
structure RepoMatrixRow where
  dir : String
  baseline : Option String
  pinnedRev : String
  cells : List (String × Option String)
  states : List (String × RepoState)
  deriving DecidableEq, Repr

/-- Every unit that should have the repository agrees, and some unit has it. -/
def RepoMatrixRow.consistent (row : RepoMatrixRow) : Bool :=
  (row.states.all fun state => state.2 = .na || state.2 = .ok)
    && row.states.any fun state => state.2 = .ok

/-- What the comparison of the repositories found. -/
structure ReposComparison where
  dirs : List String
  matrix : List RepoMatrixRow
  consistentCount : Nat
  divergentDirs : List String
  anyData : Bool
  deriving DecidableEq, Repr

/-- The row of the matrix for a folder. -/
def repoMatrixRow (units : List UnitRecord) (reference : Option UnitRecord)
    (want : List String) (dir : String) : RepoMatrixRow :=
  let readable := okUnits units
  let rowOf := fun unit : UnitRecord => OrderedDict.get? id unit.repos dir
  let cells := byHost readable fun unit => (rowOf unit).bind RepoRow.sha
  let base := Fleet.baseline (cells.map Prod.snd)
    ((reference.bind rowOf).bind RepoRow.resolvedSha)
  { dir := dir
    baseline := base
    pinnedRev := ";".intercalate (sortedSet
      ((readable.filterMap fun unit => (rowOf unit).map RepoRow.rev).filter (· ≠ "")))
    cells := cells
    states := byHost readable fun unit => repoState (dir ∈ want) base (rowOf unit) }

/-- `compare_repos`. -/
def compareRepos (units : List UnitRecord) (reference : Option UnitRecord)
    (want : List String) : ReposComparison :=
  let readable := okUnits units
  let dirs := sortedSet (readable.flatMap (·.repos.map Prod.fst)
    ++ (reference.map (·.repos.map Prod.fst)).getD [] ++ want)
  let matrix := dirs.map (repoMatrixRow units reference want)
  { dirs := dirs
    matrix := matrix
    consistentCount := (matrix.filter RepoMatrixRow.consistent).length
    divergentDirs := (matrix.filter fun row => !row.consistent).map RepoMatrixRow.dir
    anyData := readable.any fun unit => unit.repos ≠ [] }

end Repos

section Bootstrap

/-- An element of `bootstrap-elements.json`, with the fields the report reads. -/
structure BootstrapElement where
  id : String
  since : Int
  reassert : String
  deriving DecidableEq, Repr

/-- `bootstrap-elements.json`; empty when there is no such file. -/
structure ElementsDoc where
  currentVersion : Option Int
  elements : List BootstrapElement
  deriving DecidableEq, Repr

/-- The classification of an element id; the last element of that id decides. -/
def kindOf (elements : List BootstrapElement) (element : String) : String :=
  let kinds := OrderedDict.setAll id [] (elements.map fun entry => (entry.id, entry.reassert))
  match OrderedDict.get? id kinds element with
  | some kind => if kind = "" then "unclassified" else kind
  | none => "unclassified"

/-- `_split_by_kind`. -/
def splitByKind (missing : List String) (elements : List BootstrapElement) :
    List (String × List String) :=
  missing.foldl (fun out element =>
    OrderedDict.upsert id out (kindOf elements element) [] (· ++ [element])) []

/-- The elements `_split_by_kind` put under a kind. -/
def ofKind (byKind : List (String × List String)) (kind : String) : List String :=
  (OrderedDict.get? id byKind kind).getD []

/-- `SELF_HEALING_KINDS`. -/
def selfHealingKinds : List String := ["routine"]

inductive BootstrapState where
  | unstamped
  | outdated
  | current
  deriving DecidableEq, Repr

/-- The last re-assertion of the bootstrap a unit tells of. -/
structure ReassertNote where
  state : String
  at_ : String
  appliedCount : Option String
  deriving DecidableEq, Repr

structure BootstrapGap where
  state : BootstrapState
  version : Option Int
  missing : List String
  byKind : List (String × List String)
  selfHealing : List String
  needsConsole : List String
  reassert : Option ReassertNote
  deriving DecidableEq, Repr

/-- The state of a unit's bootstrap and the elements it may be missing. -/
def bootstrapState (doc : ElementsDoc) : Option Int → BootstrapState × List String
  | none => (.unstamped, doc.elements.map BootstrapElement.id)
  | some version =>
    if doc.currentVersion.any fun current => version < current then
      (.outdated, (doc.elements.filter fun element => version < element.since).map
        BootstrapElement.id)
    else (.current, [])

def reassertNote (facts : List (String × List (String × String))) : Option ReassertNote :=
  let reported := (OrderedDict.get? id facts "bootstrap-reassert").getD []
  match OrderedDict.get? id reported "reassert_state" with
  | none => none
  | some state =>
    if state = "" then none
    else some ⟨state, (OrderedDict.get? id reported "reassert_at").getD "",
      OrderedDict.get? id reported "reassert_applied_count"⟩

def bootstrapGap (doc : ElementsDoc) (unit : UnitRecord) : BootstrapGap :=
  let (state, missing) := bootstrapState doc unit.bootstrapVersion
  let byKind := splitByKind missing doc.elements
  { state := state
    version := unit.bootstrapVersion
    missing := missing
    byKind := byKind
    selfHealing := selfHealingKinds.flatMap (ofKind byKind)
    needsConsole := ofKind byKind "console"
    reassert := reassertNote unit.facts }

/-- `bootstrap_gaps`. -/
def bootstrapGaps (units : List UnitRecord) (doc : ElementsDoc) :
    List (String × BootstrapGap) :=
  byHost units (bootstrapGap doc)

end Bootstrap

section Result

/-- What the report was given to compare. -/
structure FleetState where
  units : List UnitRecord
  reference : Option UnitRecord
  build : Option BuildManifest
  expected : List String
  elements : ElementsDoc
  deriving DecidableEq, Repr

variable (fleet : FleetState)

/-- The comparison of the modules `main` chooses. -/
def FleetState.cmp : ModuleComparison :=
  match fleet.build with
  | some build =>
    if build.moduleState ≠ [] then compareToBuild fleet.units build
    else compare fleet.units fleet.reference
  | none => compare fleet.units fleet.reference

def FleetState.repos : ReposComparison :=
  compareRepos fleet.units fleet.reference fleet.expected

def FleetState.boot : List (String × BootstrapGap) :=
  bootstrapGaps fleet.units fleet.elements

/-- `cmp["verdicts"].get(host)`. -/
def FleetState.verdict (host : String) : Option String :=
  OrderedDict.get? id fleet.cmp.verdicts host

/-- `boot["by_host"].get(host)`. -/
def FleetState.gap (host : String) : Option BootstrapGap :=
  OrderedDict.get? id fleet.boot host

/-- `str(v).lower() == VALIDATION_UNVERIFIABLE` for a verdict of the tier-2 pass. -/
def UnitRecord.unverifiable (unit : UnitRecord) : Bool :=
  unit.validation.any fun entry => foldCase entry.2 = "unverifiable"

/-- A line of the result block. -/
inductive ResultLine where
  | allClear
  | payloadDrift (hosts : List String)
  | bootstrapBehind (hosts : List String)
  | consoleVisit (hosts : List String)
  | selfHeals
  | repoDivergence (dirs : List String)
  | tier2Unknown (hosts : List String)
  deriving DecidableEq, Repr

/-- `", ".join(names)` after their number and what they are. -/
def counted (names : List String) (noun : String) : String :=
  toString names.length ++ " " ++ noun ++ ": " ++ ", ".intercalate names

def ResultLine.text : ResultLine → String
  | .allClear => "RESULT: all units in sync and bootstrap current"
  | .payloadDrift hosts => "RESULT: payload drift/gaps on " ++ counted hosts "unit(s)"
  | .bootstrapBehind hosts => "RESULT: bootstrap outdated/unstamped on " ++ counted hosts "unit(s)"
  | .consoleVisit hosts => "RESULT: needs a console visit: " ++ ", ".intercalate hosts
  | .selfHeals => "RESULT: every bootstrap gap self-heals on the next provisioning cycle"
  | .repoDivergence dirs => "RESULT: upstream repo divergence on " ++ counted dirs "repo(s)"
  | .tier2Unknown hosts =>
    "RESULT: tier-2 could not verify " ++ counted hosts "unit(s)"
      ++ " -- checks passed but at least one could not be run (usually no route to origin); "
      ++ "currency is UNKNOWN on these, not confirmed"

def FleetState.moduleProblems : List String :=
  (fleet.units.filter fun unit => fleet.verdict unit.host ≠ some inSync).map UnitRecord.host

def FleetState.bootProblems : List String :=
  (fleet.units.filter fun unit =>
    (fleet.gap unit.host).map BootstrapGap.state ≠ some .current).map UnitRecord.host

def FleetState.repoProblems : List String :=
  if fleet.repos.anyData then
    sortNames fleet.repos.divergentDirs
  else []

def FleetState.tier2Unknown : List String :=
  sortNames ((fleet.units.filter UnitRecord.unverifiable).map UnitRecord.host)

/-- The units with a bootstrap gap that only a person at the console can close. -/
def FleetState.visits : List String :=
  sortNames (fleet.bootProblems.filter fun host =>
    (fleet.gap host).any fun gap => gap.needsConsole ≠ [])

/-- Lines about a list of problems, when there are any. -/
def reported (problems : List String) (lines : List ResultLine) : List ResultLine :=
  if problems = [] then [] else lines

/-- The lines about the units with a bootstrap problem. -/
def FleetState.bootLines : List ResultLine :=
  [.bootstrapBehind fleet.bootProblems,
    if fleet.visits = [] then .selfHeals else .consoleVisit fleet.visits]

/-- `_render_result`, before its lines are made text. -/
def FleetState.resultLines : List ResultLine :=
  if fleet.moduleProblems = [] ∧ fleet.bootProblems = [] ∧ fleet.repoProblems = []
      ∧ fleet.tier2Unknown = [] then [.allClear]
  else
    reported fleet.moduleProblems [.payloadDrift fleet.moduleProblems]
      ++ reported fleet.bootProblems fleet.bootLines
      ++ reported fleet.repoProblems [.repoDivergence fleet.repoProblems]
      ++ reported fleet.tier2Unknown [.tier2Unknown fleet.tier2Unknown]

/-- `_render_result`. -/
def FleetState.renderResult : List String :=
  "" :: fleet.resultLines.map ResultLine.text

/-- The exit code of `main`. -/
def FleetState.exitCode : Nat :=
  if fleet.units = [] then 1
  else if (fleet.units.all fun unit => fleet.verdict unit.host = some inSync)
      ∧ fleet.units.all fun unit => (fleet.gap unit.host).map BootstrapGap.state = some .current
  then 0 else 2

end Result

section Findings

variable (fleet : FleetState)

/-- A unit was not read, or its modules are not what they should be. -/
def FleetState.ModuleDrift (unit : UnitRecord) : Prop :=
  fleet.verdict unit.host ≠ some inSync

/-- A unit's bootstrap is behind, or its version is not known. -/
def FleetState.BootstrapBehind (unit : UnitRecord) : Prop :=
  (fleet.gap unit.host).map BootstrapGap.state ≠ some .current

/-- A unit's copy of a repository is not the base, not the pin that was asked for, or could
not be verified. -/
def FleetState.RepoDiverges (unit : UnitRecord) (row : RepoMatrixRow) : Prop :=
  unit ∈ okUnits fleet.units ∧ row ∈ fleet.repos.matrix ∧
    ∃ state ∈ [RepoState.differs, .unpinned, .unverified], (unit.host, state) ∈ row.states

/-- The elements a unit may be missing. -/
def FleetState.missing (unit : UnitRecord) : List String :=
  ((fleet.gap unit.host).map BootstrapGap.missing).getD []

/-- An element a unit may be missing is of a kind. -/
def FleetState.Misses (kind : String) (unit : UnitRecord) : Prop :=
  ∃ element ∈ fleet.missing unit, kindOf fleet.elements.elements element = kind

/-- The result block and the exit code say what the comparisons found. -/
structure FleetState.Agrees : Prop where
  allClear : fleet.exitCode = 0 ↔ .allClear ∈ fleet.resultLines
  modules : ∀ unit ∈ fleet.units, fleet.ModuleDrift unit →
    ∃ hosts, .payloadDrift hosts ∈ fleet.resultLines ∧ unit.host ∈ hosts
  bootstrap : ∀ unit ∈ fleet.units, fleet.BootstrapBehind unit →
    ∃ hosts, .bootstrapBehind hosts ∈ fleet.resultLines ∧ unit.host ∈ hosts
  repos : ∀ unit row, fleet.RepoDiverges unit row →
    ∃ dirs, .repoDivergence dirs ∈ fleet.resultLines ∧ row.dir ∈ dirs
  tier2 : ∀ unit ∈ fleet.units, unit.unverifiable = true →
    ∃ hosts, .tier2Unknown hosts ∈ fleet.resultLines ∧ unit.host ∈ hosts
  selfHeals : .selfHeals ∈ fleet.resultLines →
    ∀ unit ∈ fleet.units, ∀ element ∈ fleet.missing unit,
      kindOf fleet.elements.elements element ∈ selfHealingKinds

/-- Some repository is not the same on the units, on a fleet that records them. -/
def FleetState.RepoFinding : Prop :=
  (∃ unit ∈ okUnits fleet.units, unit.repos ≠ []) ∧
    ∃ row ∈ fleet.repos.matrix, row.consistent = false

end Findings

section Kinds

variable {elements : List BootstrapElement}

theorem ofKind_upsert (out : List (String × List String)) (element kind : String) :
    ofKind (OrderedDict.upsert id out (kindOf elements element) [] (· ++ [element])) kind =
      ofKind out kind ++ [element].filter fun element => kindOf elements element = kind := by
  by_cases same : kindOf elements element = kind
  · simp [ofKind, OrderedDict.get?_upsert, same]
  · simp [ofKind, OrderedDict.get?_upsert, same]

/-- `_split_by_kind` puts under a kind the elements of that kind, in their order. -/
theorem ofKind_splitByKind (missing : List String) (kind : String) :
    ofKind (splitByKind missing elements) kind =
      missing.filter fun element => kindOf elements element = kind := by
  have folded : ∀ out, ofKind (missing.foldl (fun out element =>
      OrderedDict.upsert id out (kindOf elements element) [] (· ++ [element])) out) kind =
      ofKind out kind ++ missing.filter fun element => kindOf elements element = kind := by
    induction missing with
    | nil => simp
    | cons element rest hypothesis =>
      intro out
      rw [List.foldl_cons, hypothesis, ofKind_upsert, List.append_assoc, ← List.filter_append,
        List.singleton_append]
  exact folded []

/-- A unit whose bootstrap is current misses nothing. -/
theorem missing_of_current {doc : ElementsDoc} {unit : UnitRecord}
    (current : (bootstrapGap doc unit).state = .current) :
    (bootstrapGap doc unit).missing = [] := by
  simp only [bootstrapGap, bootstrapState] at current ⊢
  cases isVersion : unit.bootstrapVersion with
  | none => simp [isVersion] at current
  | some version =>
    simp only [isVersion] at current ⊢
    split at current
    · cases current
    · rename_i notBehind
      rw [if_neg notBehind]

theorem needsConsole_eq_nil {doc : ElementsDoc} {unit : UnitRecord} :
    (bootstrapGap doc unit).needsConsole = [] ↔
      ∀ element ∈ (bootstrapGap doc unit).missing, kindOf doc.elements element ≠ "console" := by
  have split : (bootstrapGap doc unit).needsConsole = (bootstrapGap doc unit).missing.filter
      fun element => kindOf doc.elements element = "console" := ofKind_splitByKind _ _
  rw [split, List.filter_eq_nil_iff]
  simp

end Kinds

section Problems

variable {fleet : FleetState}

/-- What a dictionary by host has is what some unit of that host has. -/
theorem mem_byHost {Value : Type} {units : List UnitRecord} {value : UnitRecord → Value}
    {entry : String × Value} (member : entry ∈ byHost units value) :
    ∃ unit ∈ units, entry = (unit.host, value unit) := by
  rcases OrderedDict.mem_setAll member with isUnit | none
  · obtain ⟨unit, isMember, rfl⟩ := List.mem_map.mp isUnit
    exact ⟨unit, isMember, rfl⟩
  · cases none

theorem gap_eq_some {host : String} {gap : BootstrapGap} (found : fleet.gap host = some gap) :
    ∃ unit, gap = bootstrapGap fleet.elements unit := by
  obtain ⟨entry, isEntry, rfl⟩ := Option.map_eq_some_iff.mp found
  obtain ⟨unit, -, rfl⟩ := mem_byHost (OrderedDict.mem_of_find? isEntry).1
  exact ⟨unit, rfl⟩

theorem moduleProblems_eq_nil :
    fleet.moduleProblems = [] ↔ ∀ unit ∈ fleet.units, ¬ fleet.ModuleDrift unit := by
  simp [FleetState.moduleProblems, FleetState.ModuleDrift]

theorem bootProblems_eq_nil :
    fleet.bootProblems = [] ↔ ∀ unit ∈ fleet.units, ¬ fleet.BootstrapBehind unit := by
  simp [FleetState.bootProblems, FleetState.BootstrapBehind]

theorem tier2Unknown_eq_nil :
    fleet.tier2Unknown = [] ↔ ∀ unit ∈ fleet.units, unit.unverifiable = false := by
  rw [FleetState.tier2Unknown, sortNames_eq_nil, List.map_eq_nil_iff, List.filter_eq_nil_iff]
  simp

theorem mem_repoProblems {dir : String} :
    dir ∈ fleet.repoProblems ↔ (∃ unit ∈ okUnits fleet.units, unit.repos ≠ []) ∧
      ∃ row ∈ fleet.repos.matrix, row.consistent = false ∧ row.dir = dir := by
  have recorded : fleet.repos.anyData = true ↔ ∃ unit ∈ okUnits fleet.units, unit.repos ≠ [] := by
    simp [FleetState.repos, compareRepos]
  have divergent : dir ∈ fleet.repos.divergentDirs ↔
      ∃ row ∈ fleet.repos.matrix, row.consistent = false ∧ row.dir = dir := by
    simp [FleetState.repos, compareRepos, and_assoc]
  unfold FleetState.repoProblems
  split
  · rename_i any
    rw [mem_sortNames, divergent, ← recorded]
    simp [any]
  · rename_i noData
    rw [← recorded]
    simp [noData]

theorem repoProblems_eq_nil : fleet.repoProblems = [] ↔ ¬ fleet.RepoFinding := by
  rw [List.eq_nil_iff_forall_not_mem]
  simp only [mem_repoProblems, FleetState.RepoFinding]
  constructor
  · rintro nowhere ⟨recorded, row, isRow, divergent⟩
    exact nowhere row.dir ⟨recorded, row, isRow, divergent, rfl⟩
  · rintro nothing dir ⟨recorded, row, isRow, divergent, -⟩
    exact nothing ⟨recorded, row, isRow, divergent⟩

/-- A unit that diverges has a record of the repository, and its row is not consistent. -/
theorem dir_mem_repoProblems {unit : UnitRecord} {row : RepoMatrixRow}
    (diverges : fleet.RepoDiverges unit row) : row.dir ∈ fleet.repoProblems := by
  obtain ⟨-, isRow, state, isBad, isState⟩ := diverges
  rw [mem_repoProblems]
  constructor
  · obtain ⟨dir, -, rfl⟩ := List.mem_map.mp isRow
    obtain ⟨other, isOther, same⟩ := mem_byHost isState
    refine ⟨other, isOther, fun noRepos => ?_⟩
    have isNone : OrderedDict.get? id other.repos dir = none := by
      rw [noRepos]
      rfl
    simp only [isNone, repoState, Prod.mk.injEq] at same
    rw [same.2] at isBad
    split at isBad <;> simp at isBad
  · refine ⟨row, isRow, ?_, rfl⟩
    rw [RepoMatrixRow.consistent, Bool.and_eq_false_iff]
    left
    rw [List.all_eq_false]
    refine ⟨_, isState, ?_⟩
    fin_cases isBad <;> simp

end Problems

section Lines

variable {fleet : FleetState}

theorem mem_visits {host : String} : host ∈ fleet.visits ↔ host ∈ fleet.bootProblems ∧
    ∃ gap, fleet.gap host = some gap ∧ gap.needsConsole ≠ [] := by
  unfold FleetState.visits
  cases found : fleet.gap host <;> simp [mem_sortNames, found]

theorem mem_bootProblems {host : String} : host ∈ fleet.bootProblems ↔
    ∃ unit ∈ fleet.units, fleet.BootstrapBehind unit ∧ unit.host = host := by
  simp [FleetState.bootProblems, FleetState.BootstrapBehind, and_assoc]

/-- Only a unit that is behind misses anything. -/
theorem behind_of_misses {unit : UnitRecord} {element : String}
    (misses : element ∈ fleet.missing unit) : fleet.BootstrapBehind unit := by
  intro current
  obtain ⟨gap, found, isCurrent⟩ := Option.map_eq_some_iff.mp current
  obtain ⟨recorded, rfl⟩ := gap_eq_some found
  rw [FleetState.missing, found, Option.map_some, Option.getD_some,
    missing_of_current isCurrent] at misses
  cases misses

/-- A unit is on the list of console visits exactly when it misses an element of that kind. -/
theorem visits_eq_nil :
    fleet.visits = [] ↔ ∀ unit ∈ fleet.units, ¬ fleet.Misses "console" unit := by
  rw [List.eq_nil_iff_forall_not_mem]
  constructor
  · rintro noVisit unit isUnit ⟨element, missing, console⟩
    have behind := behind_of_misses missing
    cases found : fleet.gap unit.host with
    | none => simp [FleetState.missing, found] at missing
    | some gap =>
      obtain ⟨recorded, rfl⟩ := gap_eq_some found
      refine noVisit unit.host (mem_visits.mpr
        ⟨mem_bootProblems.mpr ⟨unit, isUnit, behind, rfl⟩, _, found, fun none => ?_⟩)
      apply needsConsole_eq_nil.mp none element _ console
      simpa [FleetState.missing, found] using missing
  · intro noConsole host isVisit
    obtain ⟨isProblem, gap, found, needs⟩ := mem_visits.mp isVisit
    obtain ⟨unit, isUnit, -, rfl⟩ := mem_bootProblems.mp isProblem
    obtain ⟨recorded, rfl⟩ := gap_eq_some found
    apply needs
    rw [needsConsole_eq_nil]
    intro element missing console
    exact noConsole unit isUnit ⟨element, by simpa [FleetState.missing, found] using missing,
      console⟩

theorem mem_reported {problems : List String} {lines : List ResultLine} {line : ResultLine} :
    line ∈ reported problems lines ↔ problems ≠ [] ∧ line ∈ lines := by
  unfold reported
  split <;> simp [*]

/-- A line stands in the result when its problems do, and the all-clear when none do. -/
theorem mem_resultLines {line : ResultLine} : line ∈ fleet.resultLines ↔
    (line = .allClear ∧ fleet.moduleProblems = [] ∧ fleet.bootProblems = [] ∧
      fleet.repoProblems = [] ∧ fleet.tier2Unknown = []) ∨
    (fleet.moduleProblems ≠ [] ∧ line = .payloadDrift fleet.moduleProblems) ∨
    (fleet.bootProblems ≠ [] ∧ line ∈ fleet.bootLines) ∨
    (fleet.repoProblems ≠ [] ∧ line = .repoDivergence fleet.repoProblems) ∨
    (fleet.tier2Unknown ≠ [] ∧ line = .tier2Unknown fleet.tier2Unknown) := by
  unfold FleetState.resultLines
  split
  · rename_i clear
    obtain ⟨modules, boot, repos, tier2⟩ := clear
    simp [modules, boot, repos, tier2]
  · rename_i problem
    simp [mem_reported, problem]

theorem mem_bootLines {line : ResultLine} : line ∈ fleet.bootLines ↔
    line = .bootstrapBehind fleet.bootProblems ∨ (fleet.visits = [] ∧ line = .selfHeals) ∨
      (fleet.visits ≠ [] ∧ line = .consoleVisit fleet.visits) := by
  unfold FleetState.bootLines
  by_cases noVisit : fleet.visits = [] <;> simp [noVisit]

theorem allClear_mem : .allClear ∈ fleet.resultLines ↔ fleet.moduleProblems = [] ∧
    fleet.bootProblems = [] ∧ fleet.repoProblems = [] ∧ fleet.tier2Unknown = [] := by
  simp [mem_resultLines, mem_bootLines]

theorem selfHeals_mem : .selfHeals ∈ fleet.resultLines ↔
    fleet.bootProblems ≠ [] ∧ fleet.visits = [] := by
  simp [mem_resultLines, mem_bootLines]

theorem exitCode_eq_zero (nonempty : fleet.units ≠ []) :
    fleet.exitCode = 0 ↔ fleet.moduleProblems = [] ∧ fleet.bootProblems = [] := by
  have unfolded : fleet.exitCode = 0 ↔
      (∀ unit ∈ fleet.units, fleet.verdict unit.host = some inSync) ∧
        ∀ unit ∈ fleet.units, (fleet.gap unit.host).map BootstrapGap.state = some .current := by
    simp only [FleetState.exitCode, if_neg nonempty, List.all_eq_true, decide_eq_true_eq]
    split
    · rename_i clean
      exact iff_of_true rfl clean
    · rename_i notClean
      exact iff_of_false (by decide) notClean
  simp only [unfolded, moduleProblems_eq_nil, bootProblems_eq_nil, FleetState.ModuleDrift,
    FleetState.BootstrapBehind, not_not]

end Lines

/-- A fleet of one unit whose tier-2 pass could not run every check. -/
def unverifiedFleet : FleetState :=
  ⟨[⟨"mast01", .ok, none, [], [], some 13, [], [], [("mast", "unverifiable")]⟩],
    none, none, [], ⟨some 13, []⟩⟩

/-- A fleet of one unit that could not be read, with an element that a provider applies. -/
def unstampedFleet : FleetState :=
  ⟨[⟨"mast02", .unreachable, none, [], [], none, [], [], []⟩], none, none, [],
    ⟨some 13, [⟨"ntp-clock-sync", 1, "provider"⟩]⟩⟩

end MastProvisioning.Fleet
