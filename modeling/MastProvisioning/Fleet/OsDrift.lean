import MastProvisioning.Collections.Aligned
import MastProvisioning.Collections.Newest
import MastProvisioning.Collections.OrderedDict
import MastProvisioning.Fleet.OsBaselines
import MastProvisioning.PowerShell.SettingsFile

/-!
# The patch level of a unit

`os_drift.py`: what a probe found on a unit against the newest baseline of its build, and
what stands in the way of an update. The baselines are read file by file and sorted by the
date of their release; the last one is the reference.

Baselines of one date would be told apart by the order of their files. No two of one build
have one date when proposals have written them.
-/

namespace MastProvisioning.Fleet.OsDrift

open MastProvisioning.Collections MastProvisioning.Semantics
open MastProvisioning.PowerShell.SettingsFile (isSpace)
open OsBaselines

section Probe

structure ProbeDotnet where
  release : Option Int
  mscorlibVersion : Option String
deriving DecidableEq, Repr

structure ProbeLockdown where
  noAutoUpdate : Option Int
  taskState : Option String
  /-- `edge_update.off` -/
  edgeUpdateOff : Bool
deriving DecidableEq, Repr

/-- `OsProbe`, with the fields that are read. -/
structure OsProbe where
  currentBuild : Nat
  ubr : Nat
  rollupInstalled : Option String
  dotnet : ProbeDotnet
  pendingReboot : List String
  freeCBytes : Int
  componentStore : String
  winre : Option String
  secureBoot : Option Bool
  lockdown : ProbeLockdown
deriving DecidableEq, Repr

end Probe

section Verdicts

inductive OsPatchState where
  | upToDate
  | behind
  | ahead
  | noBaseline
  | unknownBuild
deriving DecidableEq, Repr

inductive DotnetState where
  | upToDate
  | behind
  | ahead
  | otherLine
  | unknown
deriving DecidableEq, Repr

inductive Blocker where
  | pendingReboot
  | componentStore
  | lowDisk
deriving DecidableEq, Repr

inductive Finding where
  | lockdownOff
  | edgeUpdateOn
  | winreDisabled
deriving DecidableEq, Repr

structure OsPatchAssessment where
  state : OsPatchState
  build : Nat
  ubr : Nat
  baselineId : Option String
  targetUbr : Option Nat
  lcuInstalled : Option String
  dotnet : DotnetState
  dotnetVersion : Option String
  dotnetTarget : Option String
  blockers : List Blocker
  findings : List Finding
  pendingReboot : List String
  secureBoot : Option Bool
deriving DecidableEq, Repr

end Verdicts

section Versions

/-- White space, as Python strips it. -/
def isBlank (character : Char) : Bool :=
  isSpace character || (decide (0x1C ≤ character.toNat) && decide (character.toNat ≤ 0x1F))

/-- `.strip()`. -/
def strip (text : List Char) : List Char :=
  (text.dropWhile isBlank).rdropWhile isBlank

/-- Digits, with single underscores between them. -/
def parseDigits (text : List Char) : Option Nat :=
  if (text.splitOn '_').all (· ≠ []) then parseNumber (text.filter (· ≠ '_')) else none

/-- `int(...)` of a text. -/
def parseInt (text : List Char) : Except String Int :=
  let number := match strip text with
    | '-' :: digits => (parseDigits digits).map fun value => -(value : Int)
    | '+' :: digits => (parseDigits digits).map Int.ofNat
    | digits => (parseDigits digits).map Int.ofNat
  match number with
  | some value => .ok value
  | none => .error ("invalid literal for int() with base 10: '" ++ String.ofList text ++ "'")

/-- `_version`. -/
def version (text : String) : Except String (List Int) :=
  (text.toList.splitOn '.').mapM parseInt

/-- `DOTNET_481_MIN_RELEASE` -/
def dotnet481MinRelease : Int := 533320

/-- `DOTNET_48_PREFIX` -/
def dotnet48Prefix : List Char := ['4', '.', '8', '.']

/-- `_dotnet_target`: the parts of the .NET updates' builds, the first of the 4.8 line. -/
def dotnetTarget (baseline : Baseline) : Option String :=
  let parts := (baseline.files.filter fun file => file.role = .dotnet).flatMap fun file =>
    (file.fixedBuild.toList.splitOn '&').map strip
  (parts.find? fun part => dotnet48Prefix.isPrefixOf part).map String.ofList

/-- A text that is there and is not empty. -/
def given (text : Option String) : Option String :=
  text.filter (· ≠ "")

/-- `_dotnet_state`. -/
def dotnetState (probe : OsProbe) (target : Option String) : Except String DotnetState :=
  match given probe.dotnet.mscorlibVersion, given target, probe.dotnet.release with
  | some installed, some target, some release =>
    if release ≥ dotnet481MinRelease ∨ ¬dotnet48Prefix.isPrefixOf installed.toList then
      .ok .otherLine
    else do
      let own ← version installed
      let wanted ← version target
      return if own = wanted then .upToDate else if own < wanted then .behind else .ahead
  | _, _, _ => .ok .unknown

end Versions

section Assessing

/-- `MIN_FREE_C_BYTES` -/
def minFreeCBytes : Int := 20 * 1024 ^ 3

/-- `SERVICING_REBOOT_REASONS` -/
def servicingRebootReasons : List String := ["CBS RebootPending", "WindowsUpdate RebootRequired"]

/-- `_blockers`. -/
def blockers (probe : OsProbe) : List Blocker :=
  (if probe.pendingReboot.any servicingRebootReasons.contains then [.pendingReboot] else []) ++
  (if probe.componentStore ≠ "healthy" then [.componentStore] else []) ++
  (if probe.freeCBytes < minFreeCBytes then [.lowDisk] else [])

/-- `_findings`. -/
def findings (probe : OsProbe) : List Finding :=
  (if probe.lockdown.noAutoUpdate ≠ some 1 ∨ probe.lockdown.taskState = none then [.lockdownOff]
    else []) ++
  (if probe.lockdown.edgeUpdateOff then [] else [.edgeUpdateOn]) ++
  (if probe.winre ≠ none ∧ probe.winre ≠ some "Enabled" then [.winreDisabled] else [])

/-- The baselines of each build, in the order their files are read in. -/
def groupBaselines (files : List Baseline) : List (Nat × List Baseline) :=
  files.foldl (fun out baseline => OrderedDict.upsert id out baseline.build [] (· ++ [baseline])) []

/-- `load_baselines`. -/
def loadBaselines (files : List Baseline) : List (Nat × List Baseline) :=
  (groupBaselines files).map fun entry =>
    (entry.1, entry.2.mergeSort fun first second =>
      decide (first.msrcReleaseDate ≤ second.msrcReleaseDate))

/-- The last baseline of a build. -/
def reference (baselines : List (Nat × List Baseline)) (build : Nat) : Option Baseline :=
  ((OrderedDict.get? id baselines build).getD []).getLast?

/-- What is said of every unit. -/
def common (probe : OsProbe) (state : OsPatchState) : OsPatchAssessment where
  state
  build := probe.currentBuild
  ubr := probe.ubr
  baselineId := none
  targetUbr := none
  lcuInstalled := probe.rollupInstalled
  dotnet := .unknown
  dotnetVersion := none
  dotnetTarget := none
  blockers := blockers probe
  findings := findings probe
  pendingReboot := probe.pendingReboot
  secureBoot := probe.secureBoot

/-- A unit against a baseline. -/
def assessAgainst (probe : OsProbe) (baseline : Baseline) : Except String OsPatchAssessment := do
  let target := dotnetTarget baseline
  let dotnet ← dotnetState probe target
  return { common probe (if probe.ubr = baseline.targetUbr then .upToDate
        else if probe.ubr < baseline.targetUbr then .behind else .ahead) with
      baselineId := some baseline.baselineId
      targetUbr := some baseline.targetUbr
      dotnet
      dotnetVersion := probe.dotnet.mscorlibVersion
      dotnetTarget := target }

/-- `assess`; the error is the `ValueError` of a version that is none. -/
def assess (probe : OsProbe) (builds : List DeclaredBuild) (baselines : List (Nat × List Baseline)) :
    Except String OsPatchAssessment :=
  if builds.any fun declared => declared.build = probe.currentBuild then
    match reference baselines probe.currentBuild with
    | some baseline => assessAgainst probe baseline
    | none => .ok (common probe .noBaseline)
  else .ok (common probe .unknownBuild)

/-- What the report has of a unit's probe: nothing, the error that kept it from an answer,
or its output, as it is validated. -/
structure ProbedUnit where
  host : String
  osProbe : Option (Except String OsProbe)
  osProbeError : String

/-- What the report says of a unit that was probed. -/
def assessUnit (builds : List DeclaredBuild) (baselines : List (Nat × List Baseline))
    (unit : ProbedUnit) : Except String OsPatchAssessment :=
  match unit.osProbe with
  | none => .error ("probe failed: " ++ unit.osProbeError)
  | some output =>
    match output.bind fun probe => assess probe builds baselines with
    | .ok assessment => .ok assessment
    | .error message => .error ("probe output rejected: " ++ message)

/-- `assess_os_patch`. -/
def assessOsPatch (units : List ProbedUnit) (builds : List DeclaredBuild) (files : List Baseline) :
    List (String × Except String OsPatchAssessment) :=
  let probed := units.filter fun unit => unit.osProbe.isSome || unit.osProbeError ≠ ""
  OrderedDict.setAll id [] (probed.map fun unit =>
    (unit.host, assessUnit builds (loadBaselines files) unit))

end Assessing

section Reference

variable {files : List Baseline} {baseline : Baseline} {build : Nat}

theorem getD_groupBaselines :
    (OrderedDict.get? id (groupBaselines files) build).getD [] =
      files.filter fun baseline => baseline.build = build := by
  induction files using List.reverseRecOn with
  | nil => rfl
  | append_singleton files last ih =>
    have grouped : groupBaselines (files ++ [last]) =
        OrderedDict.upsert id (groupBaselines files) last.build [] (· ++ [last]) := by
      rw [groupBaselines, List.foldl_append]
      rfl
    rw [grouped, OrderedDict.get?_upsert, List.filter_append, List.filter_singleton]
    by_cases here : last.build = build
    · simp [here, ih]
    · simp [here, ih]

theorem getD_loadBaselines :
    (OrderedDict.get? id (loadBaselines files) build).getD [] =
      (files.filter fun baseline => baseline.build = build).mergeSort fun first second =>
        decide (first.msrcReleaseDate ≤ second.msrcReleaseDate) := by
  have sorted : OrderedDict.find? id (loadBaselines files) build =
      (OrderedDict.find? id (groupBaselines files) build).map fun entry =>
        (entry.1, entry.2.mergeSort fun first second =>
          decide (first.msrcReleaseDate ≤ second.msrcReleaseDate)) := by
    rw [OrderedDict.find?, loadBaselines, List.find?_map]
    rfl
  rw [← getD_groupBaselines, OrderedDict.get?, OrderedDict.get?, sorted]
  cases OrderedDict.find? id (groupBaselines files) build with
  | none => simp
  | some entry => rfl

/-- The reference is the one baseline of the build with the latest date. -/
theorem reference_iff (apart : ∀ first ∈ files, ∀ second ∈ files, first.build = second.build →
    first.msrcReleaseDate = second.msrcReleaseDate → first = second) :
    reference (loadBaselines files) build = some baseline ↔
      (baseline ∈ files ∧ baseline.build = build) ∧
      ∀ other ∈ files, other.build = build → other.msrcReleaseDate ≤ baseline.msrcReleaseDate := by
  rw [reference, getD_loadBaselines, Newest.getLast?_mergeSort]
  · simp only [List.mem_filter, decide_eq_true_eq, and_imp]
  · intro first isFirst second isSecond
    rw [List.mem_filter, decide_eq_true_eq] at isFirst isSecond
    exact apart first isFirst.1 second isSecond.1 (isFirst.2.trans isSecond.2.symm)

/-- A build with a baseline has a reference. -/
theorem reference_isSome (member : baseline ∈ files) (ofBuild : baseline.build = build) :
    ∃ last, reference (loadBaselines files) build = some last := by
  rw [reference, getD_loadBaselines]
  apply Option.isSome_iff_exists.mp
  rw [List.getLast?_isSome]
  apply List.ne_nil_of_mem (a := baseline)
  rw [List.mem_mergeSort, List.mem_filter]
  exact ⟨member, decide_eq_true ofBuild⟩

end Reference

section Committed

variable {Place : Type} {machine : Machine Place} {baseline : Baseline}

/-- A baseline as a proposal writes it: its file is named by the build and the month, its
target is what its one cumulative update fixes to, and its files are where the cache has files
of their names. -/
structure Proposed (key : BaselineKey) (baseline : Baseline) : Prop where
  place : key = (baseline.build, baseline.baselineId)
  month : baseline.baselineId =
    toString baseline.build ++ "-" ++ String.ofList (baseline.msrcReleaseDate.toList.take 7)
  target : ∃ lcu, baseline.files.filter (fun file => file.role = .lcu) = [lcu] ∧
    matchFixedBuild lcu.fixedBuild = some (baseline.build, baseline.targetUbr)
  keyed : ∀ file ∈ baseline.files, file.path = assetKey baseline.build file.filename

/-- Every baseline there is was written by a proposal. -/
def Committed (machine : Machine Place) : Prop :=
  ∀ key baseline, machine.baselines key = some baseline → Proposed key baseline

/-- Two baselines of one build and one date are one: they would be in one file. -/
theorem Committed.eq_of_date (committed : Committed machine) {key key' : BaselineKey}
    {first second : Baseline} (isFirst : machine.baselines key = some first)
    (isSecond : machine.baselines key' = some second) (sameBuild : first.build = second.build)
    (sameDate : first.msrcReleaseDate = second.msrcReleaseDate) : first = second := by
  have one := committed key first isFirst
  have two := committed key' second isSecond
  have sameKey : key = key' := by
    rw [one.place, two.place, one.month, two.month, sameBuild, sameDate]
  rw [sameKey, isSecond] at isFirst
  exact (Option.some.inj isFirst).symm

/-- The files that are read, in any order, are those of the baselines. -/
def Listed (files : List Baseline) (machine : Machine Place) : Prop :=
  ∀ baseline, baseline ∈ files ↔ ∃ key, machine.baselines key = some baseline

/-- The newest baseline of a build. -/
structure Newest (machine : Machine Place) (build : Nat) (baseline : Baseline) : Prop where
  there : ∃ key, machine.baselines key = some baseline
  ofBuild : baseline.build = build
  latest : ∀ key other, machine.baselines key = some other → other.build = build →
    other ≠ baseline → other.msrcReleaseDate < baseline.msrcReleaseDate

/-- The reference is the newest baseline of the build, in whatever order the files are read. -/
theorem Committed.reference_iff (committed : Committed machine) {files : List Baseline}
    (listed : Listed files machine) {build : Nat} :
    reference (loadBaselines files) build = some baseline ↔ Newest machine build baseline := by
  have apart : ∀ first ∈ files, ∀ second ∈ files, first.build = second.build →
      first.msrcReleaseDate = second.msrcReleaseDate → first = second := by
    intro first isFirst second isSecond sameBuild sameDate
    obtain ⟨key, there⟩ := (listed first).mp isFirst
    obtain ⟨key', there'⟩ := (listed second).mp isSecond
    exact committed.eq_of_date there there' sameBuild sameDate
  rw [OsDrift.reference_iff apart]
  constructor
  · rintro ⟨⟨member, ofBuild⟩, latest⟩
    refine ⟨(listed baseline).mp member, ofBuild, fun key other there sameBuild different => ?_⟩
    have isFile := (listed other).mpr ⟨key, there⟩
    apply lt_of_le_of_ne (latest other isFile sameBuild)
    exact fun sameDate => different (apart other isFile baseline member
      (sameBuild.trans ofBuild.symm) sameDate)
  · rintro ⟨there, ofBuild, latest⟩
    refine ⟨⟨(listed baseline).mpr there, ofBuild⟩, fun other isFile sameBuild => ?_⟩
    obtain ⟨key, otherThere⟩ := (listed other).mp isFile
    by_cases same : other = baseline
    · rw [same]
    · exact (latest key other otherThere sameBuild same).le

end Committed

section Proposing

variable {Place : Type} [DecidableEq Place] {layout : Layout Place} {digests : Digests}
  {proposal : Proposal} {machine : Machine Place} {cache : Cache Place} {baseline : Baseline}

theorem targetUbr_ok {fix : MsrcFix} {build ubr : Nat} (isTarget : targetUbr fix build = .ok ubr) :
    matchFixedBuild fix.fixedBuild = some (build, ubr) := by
  unfold targetUbr at isTarget
  split at isTarget
  · rename_i fixed revision found
    split at isTarget
    · rename_i same
      rw [found, same, Except.ok.inj isTarget]
    · cases isTarget
  · cases isTarget

/-- The cumulative updates of a list that was fetched are those that were resolved. -/
theorem filter_lcu {files : List BaselineFile} {resolved : List Resolved} {build : Nat} {lcu : Resolved}
    (described : files.map describe = resolved.map (announced build))
    (only : resolved.filter (fun update => update.role = .lcu) = [lcu]) :
    ∃ file, files.filter (fun file => file.role = .lcu) = [file] ∧
      file.fixedBuild = lcu.fix.fixedBuild := by
  have filtered : (files.filter fun file => file.role = .lcu).map describe = [announced build lcu] := by
    have left : (files.filter fun file => file.role = .lcu).map describe =
        (files.map describe).filter fun file => file.role = .lcu := by
      rw [List.filter_map]
      rfl
    have right : (resolved.map (announced build)).filter (fun file => file.role = .lcu) =
        (resolved.filter fun update => update.role = .lcu).map (announced build) := by
      rw [List.filter_map]
      rfl
    rw [left, described, right, only, List.map_singleton]
  obtain ⟨file, single, same⟩ := List.map_eq_singleton_iff.mp filtered
  exact ⟨file, single, congrArg BaselineFile.fixedBuild same⟩

/-- A file that was fetched is where the cache has files of its name. -/
theorem keyed_of_describe {files : List BaselineFile} {resolved : List Resolved} {build : Nat}
    (described : files.map describe = resolved.map (announced build)) :
    ∀ file ∈ files, file.path = assetKey build file.filename := by
  intro file isFile
  have isDescribed : describe file ∈ resolved.map (announced build) :=
    described ▸ List.mem_map_of_mem isFile
  obtain ⟨update, -, same⟩ := List.mem_map.mp isDescribed
  calc
    file.path = (announced build update).path := (congrArg BaselineFile.path same).symm
    _ = assetKey build (describe file).filename :=
      congrArg (assetKey build) (congrArg BaselineFile.filename same)

theorem propose_proposed (proposed : (propose layout digests proposal cache).2 = .ok baseline) :
    Proposed (keyOf proposal) baseline := by
  obtain ⟨resolved, found, key, -, fetched, -⟩ := propose_ok proposed
  unfold propose at proposed
  rw [found] at proposed
  simp only at proposed
  split at proposed
  · rename_i lcu only
    split at proposed
    · cases proposed
    · rename_i ubr isTarget
      simp only [fetched, Except.map, Except.ok.injEq] at proposed
      obtain ⟨file, single, fixes⟩ := filter_lcu (describe_fetchFrom fetched) only
      refine ⟨key.symm, ?_, ⟨file, single, ?_⟩, ?_⟩
      · rw [← proposed]
        rfl
      · rw [fixes, targetUbr_ok isTarget, ← proposed]
      · rw [← proposed]
        exact keyed_of_describe (describe_fetchFrom fetched)
  · cases proposed

variable (layout digests proposal machine) in
/-- What a proposal does to the baselines: nothing, or it writes its own where none is. -/
theorem baselines_run :
    (run layout digests proposal machine).1.baselines = machine.baselines ∨
      ∃ baseline, machine.baselines (keyOf proposal) = none ∧ Proposed (keyOf proposal) baseline ∧
        (run layout digests proposal machine).1.baselines =
          Function.update machine.baselines (keyOf proposal) (some baseline) := by
  cases proposed : (propose layout digests proposal machine.cache).2 with
  | error message => exact .inl (run_of_failed proposed).1
  | ok baseline =>
    have isProposed := propose_proposed proposed
    rw [run_of_proposed proposed]
    simp only [writeBaseline, ← isProposed.place]
    split
    · split <;> exact .inl rfl
    · rename_i absent
      split
      · exact .inr ⟨baseline, absent, isProposed, rfl⟩
      · exact .inl rfl

theorem Committed.run (committed : Committed machine) :
    Committed (run layout digests proposal machine).1 := by
  rcases baselines_run layout digests proposal machine with same | ⟨written, -, isProposed, after⟩
  · intro key baseline there
    rw [same] at there
    exact committed key baseline there
  · intro key baseline there
    rw [after] at there
    by_cases here : key = keyOf proposal
    · rw [here, Function.update_self, Option.some.injEq] at there
      rw [here, ← there]
      exact isProposed
    · rw [Function.update_of_ne here] at there
      exact committed key baseline there

end Proposing

section Runs

variable {Place : Type} [DecidableEq Place] {layout : Layout Place} {digests : Digests}
  {start final : Machine Place} {trace : List (System.Taken (Machine Place) Proposal)}
  {files later : List Baseline} {builds : List DeclaredBuild} {probe : OsProbe}
  {assessment : OsPatchAssessment}

/-- In a run from a repository without baselines every one was written by a proposal. -/
theorem committed_of_run (taken : (proposals layout digests).Run start trace final)
    (fresh : ∀ key, start.baselines key = none) : Committed final := by
  have initially : Committed start := by
    intro key baseline there
    rw [fresh key] at there
    cases there
  have preserved : ∀ machine proposal, Committed machine → True →
      (proposals layout digests).Enabled machine proposal →
      Committed ((proposals layout digests).next machine proposal) :=
    fun machine proposal committed _ _ => committed.run
  exact taken.invariantFrom initially preserved fun _ _ => trivial

theorem kept_after {machine : Machine Place} (labels : List Proposal) {key : BaselineKey}
    {baseline : Baseline} (there : machine.baselines key = some baseline) :
    ((proposals layout digests).after machine labels).baselines key = some baseline := by
  induction labels generalizing machine with
  | nil => exact there
  | cons label labels ih => exact ih (baseline_kept there)

theorem follows_proposals {machine : Machine Place} (labels : List Proposal) :
    (proposals layout digests).Follows machine labels := by
  induction labels generalizing machine with
  | nil => trivial
  | cons label labels ih => exact ⟨trivial, ih⟩

theorem assess_known (declared : ∃ build ∈ builds, build.build = probe.currentBuild) :
    assess probe builds (loadBaselines files) =
      match reference (loadBaselines files) probe.currentBuild with
      | some baseline => assessAgainst probe baseline
      | none => .ok (common probe .noBaseline) := by
  have known : builds.any (fun declared => declared.build = probe.currentBuild) = true := by
    simpa using declared
  rw [assess, if_pos known]

theorem assess_unknown (undeclared : ¬∃ build ∈ builds, build.build = probe.currentBuild) :
    assess probe builds (loadBaselines files) = .ok (common probe .unknownBuild) := by
  have unknown : ¬builds.any (fun declared => declared.build = probe.currentBuild) = true := by
    simpa using undeclared
  rw [assess, if_neg unknown]

/-- What is said of a unit against a baseline. -/
theorem assessAgainst_ok {baseline : Baseline}
    (assessed : assessAgainst probe baseline = .ok assessment) :
    (assessment.state = .upToDate ↔ probe.ubr = baseline.targetUbr) ∧
      assessment.baselineId = some baseline.baselineId := by
  obtain ⟨dotnet, -, rest⟩ := bind_eq_ok.mp assessed
  obtain rfl := Except.ok.inj rest
  refine ⟨?_, rfl⟩
  simp only [common]
  split
  · rename_i same
    exact iff_of_true rfl same
  · rename_i different
    split
    · exact iff_of_false (by rintro ⟨⟩) different
    · exact iff_of_false (by rintro ⟨⟩) different

/-- In every run of proposals a unit of a declared build is up to date, in whatever order the
baselines are read, exactly when its build and revision are what the one cumulative update of
the newest baseline fixes to. -/
theorem upToDate_iff (taken : (proposals layout digests).Run start trace final)
    (fresh : ∀ key, start.baselines key = none) (listed : Listed files final)
    (declared : ∃ build ∈ builds, build.build = probe.currentBuild)
    (assessed : assess probe builds (loadBaselines files) = .ok assessment) :
    assessment.state = .upToDate ↔
      ∃ baseline lcu, Newest final probe.currentBuild baseline ∧
        baseline.files.filter (fun file => file.role = .lcu) = [lcu] ∧
        matchFixedBuild lcu.fixedBuild = some (probe.currentBuild, probe.ubr) := by
  have committed := committed_of_run taken fresh
  rw [assess_known declared] at assessed
  cases isReference : reference (loadBaselines files) probe.currentBuild with
  | none =>
    rw [isReference] at assessed
    obtain rfl := Except.ok.inj assessed
    apply iff_of_false (by rintro ⟨⟩)
    rintro ⟨baseline, -, newest, -⟩
    rw [(committed.reference_iff listed).mpr newest] at isReference
    cases isReference
  | some baseline =>
    have newest := (committed.reference_iff listed).mp isReference
    obtain ⟨key, there⟩ := newest.there
    obtain ⟨lcu, only, fixes⟩ := (committed key baseline there).target
    rw [isReference] at assessed
    rw [(assessAgainst_ok assessed).1]
    constructor
    · intro same
      exact ⟨baseline, lcu, newest, only, by rw [fixes, newest.ofBuild, same]⟩
    · rintro ⟨other, otherLcu, otherNewest, otherOnly, otherFixes⟩
      have same := (committed.reference_iff listed).mpr otherNewest
      rw [isReference, Option.some.injEq] at same
      subst same
      rw [only, List.singleton_inj] at otherOnly
      subst otherOnly
      rw [fixes, Option.some.injEq, Prod.mk.injEq] at otherFixes
      exact otherFixes.2.symm

/-- What more proposals change in what is said of a unit: nothing, or they have written a
baseline of its build that is later than all there were, and the unit is measured against it. -/
theorem assess_later (taken : (proposals layout digests).Run start trace final)
    (fresh : ∀ key, start.baselines key = none) (labels : List Proposal)
    (listed : Listed files final)
    (listedLater : Listed later ((proposals layout digests).after final labels)) :
    assess probe builds (loadBaselines later) = assess probe builds (loadBaselines files) ∨
      ∃ key baseline, final.baselines key = none ∧
        ((proposals layout digests).after final labels).baselines key = some baseline ∧
        baseline.build = probe.currentBuild ∧
        (∀ key other, final.baselines key = some other → other.build = probe.currentBuild →
          other.msrcReleaseDate < baseline.msrcReleaseDate) ∧
        assess probe builds (loadBaselines later) = assessAgainst probe baseline := by
  have committed := committed_of_run taken fresh
  have committedLater := committed_of_run (taken.extend (follows_proposals labels)) fresh
  by_cases declared : ∃ build ∈ builds, build.build = probe.currentBuild
  · rw [assess_known declared, assess_known declared]
    cases isReference : reference (loadBaselines later) probe.currentBuild with
    | none =>
      left
      cases before : reference (loadBaselines files) probe.currentBuild with
      | none => rfl
      | some baseline =>
        have newest := (committed.reference_iff listed).mp before
        obtain ⟨key, there⟩ := newest.there
        obtain ⟨now, isNow⟩ := reference_isSome (listedLater baseline |>.mpr
          ⟨key, kept_after labels there⟩) newest.ofBuild
        rw [isReference] at isNow
        cases isNow
    | some baseline =>
      have newest := (committedLater.reference_iff listedLater).mp isReference
      obtain ⟨key, there⟩ := newest.there
      cases before : final.baselines key with
      | some existing =>
        left
        have same : ((proposals layout digests).after final labels).baselines key = some existing :=
          kept_after labels before
        rw [there, Option.some.injEq] at same
        subst same
        have already : Newest final probe.currentBuild baseline := by
          refine ⟨⟨key, before⟩, newest.ofBuild, fun key' other otherThere => ?_⟩
          exact newest.latest key' other (kept_after labels otherThere)
        rw [(committed.reference_iff listed).mpr already]
      | none =>
        refine .inr ⟨key, baseline, before, there, newest.ofBuild, ?_, rfl⟩
        intro key' other otherThere ofBuild
        apply newest.latest key' other (kept_after labels otherThere) ofBuild
        rintro rfl
        have place := (committedLater key _ there).place
        have place' := (committed key' _ otherThere).place
        rw [place, ← place', otherThere] at before
        cases before
  · exact .inl (by rw [assess_unknown declared, assess_unknown declared])

end Runs

section Samples

/-- The machine on which the cumulative update was proposed. -/
def patchedMachine : Machine String :=
  (proposals plainLayout sampleDigests).after emptyMachine [lcuProposal]

/-- The baseline the proposal wrote. -/
def patchedBaseline : Baseline where
  baselineId := "19044-2026-09"
  build := 19044
  targetUbr := 7725
  msrcRelease := "2026-Sep"
  msrcReleaseDate := "2026-09-08T07:00:00Z"
  proposedUtc := "2026-09-29T12:00:00Z"
  files := [sampleFile .lcu "lcu.msu" []]

theorem patched : patchedMachine.baselines (keyOf lcuProposal) = some patchedBaseline := by
  decide +kernel

theorem listed_patched : Listed [patchedBaseline] patchedMachine := by
  intro baseline
  rw [List.mem_singleton]
  constructor
  · rintro rfl
    exact ⟨_, patched⟩
  · rintro ⟨key, there⟩
    have step := baselines_run plainLayout sampleDigests lcuProposal emptyMachine
    change patchedMachine.baselines = emptyMachine.baselines ∨ ∃ baseline,
      emptyMachine.baselines (keyOf lcuProposal) = none ∧ Proposed (keyOf lcuProposal) baseline ∧
        patchedMachine.baselines =
          Function.update emptyMachine.baselines (keyOf lcuProposal) (some baseline) at step
    rcases step with same | ⟨written, -, -, after⟩
    · rw [same] at there
      cases there
    · have only := patched
      rw [after, Function.update_self] at only
      rw [after, Option.some.inj only] at there
      by_cases here : key = keyOf lcuProposal
      · rw [here, Function.update_self] at there
        exact (Option.some.inj there).symm
      · rw [Function.update_of_ne here] at there
        cases there

/-- A unit of the build, at a revision. -/
def sampleProbe (ubr : Nat) : OsProbe where
  currentBuild := 19044
  ubr
  rollupInstalled := none
  dotnet := ⟨some 528372, some "4.8.4644.0"⟩
  pendingReboot := ["PendingFileRenameOperations"]
  freeCBytes := 64 * 1024 ^ 3
  componentStore := "healthy"
  winre := some "Enabled"
  secureBoot := some true
  lockdown := ⟨some 1, some "Disabled", true⟩

theorem patched_run : (proposals plainLayout sampleDigests).Run emptyMachine
    ((proposals plainLayout sampleDigests).steps emptyMachine [lcuProposal]) patchedMachine :=
  System.Run.ofLabels trivial (follows_proposals _)

/-- The unit that has the update. -/
theorem upToDate_iff_patched : ∃ assessment,
    assess (sampleProbe 7725) [lcuProposal.declared] (loadBaselines [patchedBaseline]) =
      .ok assessment ∧
    (assessment.state = .upToDate ↔
      ∃ baseline lcu, Newest patchedMachine 19044 baseline ∧
        baseline.files.filter (fun file => file.role = .lcu) = [lcu] ∧
        matchFixedBuild lcu.fixedBuild = some (19044, 7725)) := by
  have answered : (assess (sampleProbe 7725) [lcuProposal.declared]
      (loadBaselines [patchedBaseline])).toOption.isSome = true := by
    decide +kernel
  cases assessed : assess (sampleProbe 7725) [lcuProposal.declared]
      (loadBaselines [patchedBaseline]) with
  | error message =>
    rw [assessed] at answered
    cases answered
  | ok assessment =>
    refine ⟨assessment, rfl, upToDate_iff patched_run (fun _ => rfl) listed_patched ?_ assessed⟩
    exact ⟨_, List.mem_singleton_self _, rfl⟩

/-- A unit is measured against the first baseline of its build once there is one. -/
theorem assess_later_patched :
    assess (sampleProbe 7000) [lcuProposal.declared] (loadBaselines [patchedBaseline]) =
        assess (sampleProbe 7000) [lcuProposal.declared] (loadBaselines []) ∨
      ∃ key baseline, emptyMachine.baselines key = none ∧
        patchedMachine.baselines key = some baseline ∧ baseline.build = 19044 ∧
        (∀ key other, emptyMachine.baselines key = some other → other.build = 19044 →
          other.msrcReleaseDate < baseline.msrcReleaseDate) ∧
        assess (sampleProbe 7000) [lcuProposal.declared] (loadBaselines [patchedBaseline]) =
          assessAgainst (sampleProbe 7000) baseline := by
  apply assess_later (.initial trivial) (fun _ => rfl) [lcuProposal] _ listed_patched
  intro baseline
  constructor
  · rintro ⟨⟩
  · rintro ⟨key, ⟨⟩⟩

end Samples

end MastProvisioning.Fleet.OsDrift
