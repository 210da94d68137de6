import Mathlib.Data.List.Induction
import MastProvisioning.Driver.Drift
import MastProvisioning.Unit.Execute

/-!
# The verify-only pass

`run-verify-only.ps1` runs a payload's verify commands without installing anything and writes
what came of them, module by module, to `validation.json`. The loop fills the report one command
at a time; `verifyReport_spec` says what the report comes to, which does not depend on the order
the commands were run in.
-/

namespace MastProvisioning.Unit

open MastProvisioning.Collections MastProvisioning.PowerShell MastProvisioning.Build

/-- How the child process of a check ended. -/
inductive CheckExit
  | missing
  | code (number : Int)
  /-- Starting it or handling its output raised. -/
  | raised
deriving DecidableEq, Repr

/-- What a check says of its module. -/
inductive CheckVerdict
  | pass
  | unverifiable
  | fail
deriving DecidableEq, Repr

def CheckVerdict.text : CheckVerdict → String
  | .pass => "pass"
  | .unverifiable => "unverifiable"
  | .fail => "fail"

/-- `$MastVerifyUnverifiableExit`. -/
def unverifiableExit : Int := 2

def CheckExit.verdict : CheckExit → CheckVerdict
  | .code number =>
    if number = 0 then .pass else if number = unverifiableExit then .unverifiable else .fail
  | .missing | .raised => .fail

/-- What the loop keeps: `$moduleResults`, `$failCount` and `$unverifiableCount`. -/
structure VerifyTally where
  results : List (String × String)
  failures : Nat
  unverifiable : Nat
deriving DecidableEq, Repr

section Operations

variable (fold : Char → Char)

/-- The verify commands of a payload, in the order they are run in. -/
def verifyCommands (modules : String) (commands : List Command) : Except String (List Command) :=
  let verifies := (commands.filter fun command => isVerify fold command.module).mergeSort
    fun command other => decide (command.order ≤ other.order)
  if verifies = [] then .error "No *-verify commands found in commands.json"
  else .ok (filterCommands fold modules verifies)

/-- `$moduleResults[$moduleName] = $verdict`. -/
def setResult (results : List (String × String)) (name verdict : String) :
    List (String × String) :=
  OrderedDict.upsert (foldText fold) results name verdict fun _ => verdict

/-- One turn of the loop. -/
def VerifyTally.record (tally : VerifyTally) (command : Command) (exit : CheckExit) : VerifyTally :=
  let name := baseName fold command.module
  let before := OrderedDict.get? (foldText fold) tally.results name
  match exit.verdict with
  | .pass =>
    { tally with
      results := if before.isSome then tally.results
        else setResult fold tally.results name CheckVerdict.pass.text }
  | .unverifiable =>
    { tally with
      unverifiable := tally.unverifiable + 1
      results := if before = some CheckVerdict.fail.text then tally.results
        else setResult fold tally.results name CheckVerdict.unverifiable.text }
  | .fail =>
    { tally with
      failures := tally.failures + 1
      results := setResult fold tally.results name CheckVerdict.fail.text }

/-- The loop over the commands that were run. -/
def verifyTally (runs : List (Command × CheckExit)) : VerifyTally :=
  runs.foldl (fun tally run => tally.record fold run.1 run.2) ⟨[], 0, 0⟩

/-- `validation.json`. -/
def verifyReport (runs : List (Command × CheckExit)) (second : Int) : Driver.Validation :=
  ⟨(verifyTally fold runs).results, some (.utc second)⟩

/-- The exit code of the script. -/
def verifyExitCode (runs : List (Command × CheckExit)) : Nat :=
  if 0 < (verifyTally fold runs).failures then 1 else 0

end Operations

section Meaning

variable (fold : Char → Char)

/-- The verdicts of the checks of a module. -/
def verdictsOn (runs : List (Command × CheckExit)) (name : String) : List CheckVerdict :=
  (runs.filter fun run => owns fold name run.1).map fun run => run.2.verdict

/-- The worst of some verdicts: a failure before what could not be checked. -/
def worst (verdicts : List CheckVerdict) : Option CheckVerdict :=
  if .fail ∈ verdicts then some .fail
  else if .unverifiable ∈ verdicts then some .unverifiable
  else if verdicts = [] then none
  else some .pass

end Meaning

section Verdicts

theorem CheckVerdict.text_injective {verdict other : CheckVerdict}
    (same : verdict.text = other.text) : verdict = other := by
  cases verdict <;> cases other <;> first | rfl | exact absurd same (by decide)

theorem worst_eq_none {verdicts : List CheckVerdict} : worst verdicts = none ↔ verdicts = [] := by
  unfold worst
  split
  · rename_i failed
    exact iff_of_false (by simp) (List.ne_nil_of_mem failed)
  · split
    · rename_i unknown
      exact iff_of_false (by simp) (List.ne_nil_of_mem unknown)
    · split
      · rename_i nothing
        exact iff_of_true rfl nothing
      · rename_i some
        exact iff_of_false (by simp) some

theorem worst_eq_fail {verdicts : List CheckVerdict} :
    worst verdicts = some .fail ↔ .fail ∈ verdicts := by
  unfold worst
  split
  · rename_i failed
    exact iff_of_true rfl failed
  · rename_i unfailed
    refine iff_of_false ?_ unfailed
    split
    · simp
    · split <;> simp

/-- One more verdict: the worse of the two stands. -/
theorem worst_snoc (verdicts : List CheckVerdict) (verdict : CheckVerdict) :
    worst (verdicts ++ [verdict]) =
      match verdict with
      | .fail => some .fail
      | .unverifiable => if worst verdicts = some .fail then some .fail else some .unverifiable
      | .pass => if (worst verdicts).isSome then worst verdicts else some .pass := by
  cases verdict with
  | fail => simp [worst]
  | unverifiable =>
    simp only [worst_eq_fail]
    simp [worst]
  | pass =>
    by_cases nothing : verdicts = []
    · subst nothing
      rfl
    · have isSome : (worst verdicts).isSome = true := by
        rw [Option.isSome_iff_ne_none]
        exact mt worst_eq_none.mp nothing
      rw [if_pos isSome]
      simp [worst, nothing]

end Verdicts

section Loop

variable {fold : Char → Char} {runs : List (Command × CheckExit)}

theorem get?_setResult (results : List (String × String)) (name other verdict : String) :
    OrderedDict.get? (foldText fold) (setResult fold results name verdict) other =
      if foldText fold name = foldText fold other then some verdict
      else OrderedDict.get? (foldText fold) results other := by
  rw [setResult, OrderedDict.get?_upsert]

theorem verifyTally_snoc (command : Command) (exit : CheckExit) :
    verifyTally fold (runs ++ [(command, exit)]) =
      (verifyTally fold runs).record fold command exit := by
  simp [verifyTally]

theorem verdictsOn_snoc (command : Command) (exit : CheckExit) (name : String) :
    verdictsOn fold (runs ++ [(command, exit)]) name =
      verdictsOn fold runs name ++ if owns fold name command then [exit.verdict] else [] := by
  have last : verdictsOn fold [(command, exit)] name =
      if owns fold name command then [exit.verdict] else [] := by
    cases own : owns fold name command <;> simp [verdictsOn, own]
  rw [← last, verdictsOn, List.filter_append, List.map_append]
  rfl

/-- A turn of the loop leaves the other modules alone. -/
theorem get?_record_other (tally : VerifyTally) {command : Command} (exit : CheckExit)
    {name : String} (other : owns fold name command = false) :
    OrderedDict.get? (foldText fold) (tally.record fold command exit).results name =
      OrderedDict.get? (foldText fold) tally.results name := by
  have apart : foldText fold (baseName fold command.module) ≠ foldText fold name := by
    intro same
    rw [owns, psEq_iff.mpr same] at other
    cases other
  unfold VerifyTally.record
  cases exit.verdict with
  | pass =>
    simp only []
    split
    · rfl
    · rw [get?_setResult, if_neg apart]
  | unverifiable =>
    simp only []
    split
    · rfl
    · rw [get?_setResult, if_neg apart]
  | fail =>
    simp only []
    rw [get?_setResult, if_neg apart]

/-- A turn of the loop makes of its module's verdict the worse of it and the check's. -/
theorem get?_record_own (tally : VerifyTally) {command : Command} (exit : CheckExit)
    {name : String} (own : owns fold name command = true) {verdicts : List CheckVerdict}
    (before : OrderedDict.get? (foldText fold) tally.results name =
      (worst verdicts).map CheckVerdict.text) :
    OrderedDict.get? (foldText fold) (tally.record fold command exit).results name =
      (worst (verdicts ++ [exit.verdict])).map CheckVerdict.text := by
  have same : foldText fold (baseName fold command.module) = foldText fold name := psEq_iff.mp own
  have found : OrderedDict.get? (foldText fold) tally.results (baseName fold command.module) =
      (worst verdicts).map CheckVerdict.text := by
    rw [← before, OrderedDict.get?, OrderedDict.get?, OrderedDict.find?_congr same]
  rw [worst_snoc]
  unfold VerifyTally.record
  simp only [found]
  cases exit.verdict with
  | pass =>
    simp only [Option.isSome_map]
    split
    · exact before
    · rw [get?_setResult, if_pos same]
      rfl
  | unverifiable =>
    have isFail : (worst verdicts).map CheckVerdict.text = some CheckVerdict.fail.text ↔
        worst verdicts = some .fail := by
      rw [Option.map_eq_some_iff]
      constructor
      · rintro ⟨verdict, isVerdict, sameText⟩
        rw [isVerdict, CheckVerdict.text_injective sameText]
      · exact fun failed => ⟨_, failed, rfl⟩
    simp only [isFail]
    split
    · rename_i failed
      rw [before, failed]
    · rw [get?_setResult, if_pos same]
      rfl
  | fail =>
    simp only []
    rw [get?_setResult, if_pos same]
    rfl

/-- The report has under each module the worst verdict of its checks. -/
theorem get?_results (runs : List (Command × CheckExit)) (name : String) :
    OrderedDict.get? (foldText fold) (verifyTally fold runs).results name =
      (worst (verdictsOn fold runs name)).map CheckVerdict.text := by
  induction runs using List.reverseRecOn with
  | nil => rfl
  | append_singleton runs run hypothesis =>
    obtain ⟨command, exit⟩ := run
    rw [verifyTally_snoc, verdictsOn_snoc]
    cases own : owns fold name command with
    | true => exact get?_record_own _ exit own hypothesis
    | false =>
      rw [get?_record_other _ exit own, hypothesis]
      simp

/-- The counts are those of the checks. -/
theorem verifyTally_counts (runs : List (Command × CheckExit)) :
    (verifyTally fold runs).failures = (runs.map fun run => run.2.verdict).count .fail ∧
      (verifyTally fold runs).unverifiable =
        (runs.map fun run => run.2.verdict).count .unverifiable := by
  induction runs using List.reverseRecOn with
  | nil => exact ⟨rfl, rfl⟩
  | append_singleton runs run hypothesis =>
    obtain ⟨command, exit⟩ := run
    obtain ⟨failures, unverifiable⟩ := hypothesis
    rw [verifyTally_snoc, List.map_append, List.count_append, List.count_append, ← failures,
      ← unverifiable]
    unfold VerifyTally.record
    cases isVerdict : exit.verdict <;> simp [isVerdict]

/-- A module without checks has no entry; any other has the worst verdict of its checks. -/
theorem results_eq_none {name : String} :
    OrderedDict.get? (foldText fold) (verifyTally fold runs).results name = none ↔
      ∀ run ∈ runs, owns fold name run.1 = false := by
  rw [get?_results, Option.map_eq_none_iff, worst_eq_none, verdictsOn, List.map_eq_nil_iff,
    List.filter_eq_nil_iff]
  simp only [Bool.not_eq_true]

theorem results_eq_fail {name : String} :
    OrderedDict.get? (foldText fold) (verifyTally fold runs).results name =
        some CheckVerdict.fail.text ↔
      ∃ run ∈ runs, owns fold name run.1 = true ∧ run.2.verdict = .fail := by
  have failed : (worst (verdictsOn fold runs name)).map CheckVerdict.text =
      some CheckVerdict.fail.text ↔ .fail ∈ verdictsOn fold runs name := by
    rw [← worst_eq_fail, Option.map_eq_some_iff]
    constructor
    · rintro ⟨verdict, isVerdict, sameText⟩
      rw [isVerdict, CheckVerdict.text_injective sameText]
    · exact fun isFail => ⟨_, isFail, rfl⟩
  rw [get?_results, failed, verdictsOn, List.mem_map]
  constructor
  · rintro ⟨run, member, isFail⟩
    obtain ⟨isRun, own⟩ := List.mem_filter.mp member
    exact ⟨run, isRun, own, isFail⟩
  · rintro ⟨run, isRun, own, isFail⟩
    exact ⟨run, List.mem_filter.mpr ⟨isRun, own⟩, isFail⟩

/-- The order the commands are run in does not show in the report or the exit code. -/
theorem verifyTally_perm {other : List (Command × CheckExit)} (perm : runs.Perm other) :
    (∀ name, OrderedDict.get? (foldText fold) (verifyTally fold runs).results name =
      OrderedDict.get? (foldText fold) (verifyTally fold other).results name) ∧
    (verifyTally fold runs).failures = (verifyTally fold other).failures ∧
    (verifyTally fold runs).unverifiable = (verifyTally fold other).unverifiable := by
  have verdicts := perm.map fun run => run.2.verdict
  refine ⟨fun name => ?_, ?_, ?_⟩
  · have onName : (verdictsOn fold runs name).Perm (verdictsOn fold other name) :=
      (perm.filter _).map _
    have sameWorst : worst (verdictsOn fold runs name) = worst (verdictsOn fold other name) := by
      unfold worst
      simp only [onName.mem_iff, ← List.length_eq_zero_iff, onName.length_eq]
    rw [get?_results, get?_results, sameWorst]
  · rw [(verifyTally_counts runs).1, (verifyTally_counts other).1, verdicts.count_eq]
  · rw [(verifyTally_counts runs).2, (verifyTally_counts other).2, verdicts.count_eq]

/-- What a pass reports of the checks it ran, in whatever order: under each module the worst of
its verdicts, nothing of a module it did not check, the number of failures and of checks that
could not be made, and exit code 1 exactly when some module is reported as failed. -/
theorem verifyReport_spec (fold : Char → Char) (runs : List (Command × CheckExit)) :
    (∀ name, OrderedDict.get? (foldText fold) (verifyTally fold runs).results name =
      (worst (verdictsOn fold runs name)).map CheckVerdict.text) ∧
    (verifyTally fold runs).failures = (runs.map fun run => run.2.verdict).count .fail ∧
    (verifyTally fold runs).unverifiable =
      (runs.map fun run => run.2.verdict).count .unverifiable ∧
    (verifyExitCode fold runs = 1 ↔ ∃ name, OrderedDict.get? (foldText fold)
      (verifyTally fold runs).results name = some CheckVerdict.fail.text) ∧
    ∀ other, runs.Perm other → verifyExitCode fold other = verifyExitCode fold runs ∧
      ∀ name, OrderedDict.get? (foldText fold) (verifyTally fold other).results name =
        OrderedDict.get? (foldText fold) (verifyTally fold runs).results name := by
  obtain ⟨failures, unverifiable⟩ := @verifyTally_counts fold runs
  refine ⟨get?_results runs, failures, unverifiable, ?_, fun other perm => ?_⟩
  · have exits : verifyExitCode fold runs = 1 ↔ 0 < (verifyTally fold runs).failures := by
      unfold verifyExitCode
      split
      · rename_i failed
        exact iff_of_true rfl failed
      · rename_i unfailed
        exact iff_of_false (by decide) unfailed
    rw [exits, failures, List.count_pos_iff, List.mem_map]
    constructor
    · rintro ⟨run, member, isFail⟩
      exact ⟨baseName fold run.1.module,
        results_eq_fail.mpr ⟨run, member, psEq_refl _, isFail⟩⟩
    · rintro ⟨name, failed⟩
      obtain ⟨run, member, -, isFail⟩ := results_eq_fail.mp failed
      exact ⟨run, member, isFail⟩
  · obtain ⟨results, sameFailures, -⟩ := @verifyTally_perm fold _ _ perm
    refine ⟨?_, fun name => (results name).symm⟩
    rw [verifyExitCode, verifyExitCode, sameFailures]

end Loop

end MastProvisioning.Unit
