import MastProvisioning.Unit.ExecuteHistory
import MastProvisioning.Unit.ManifestMerge

/-!
# What a recorded outcome says of the commands

A whole execute run over a filtered list of commands, from the seeded outcomes to the
written manifest and the exit code. The loop takes the exit code of a verify that
could not run every check for a success of any command, a provide command too:
`recordsWhatRan_iff` says for which runs the record means what ran.
-/

namespace MastProvisioning.Unit

open MastProvisioning.Collections MastProvisioning.PowerShell MastProvisioning.Build

/-- A command and how it ended: its exit code, none when it is missing or there was no
process, and whether anything raised. -/
structure CommandRun where
  command : Command
  exitCode : Option Int
  raises : Bool
deriving DecidableEq, Repr

/-- It exited 0. -/
def CommandRun.clean (run : CommandRun) : Bool := run.exitCode = some 0 && !run.raises

/-- It exited with the code of a verify that could not run every check. -/
def CommandRun.unverifiable (run : CommandRun) : Bool := run.exitCode = some 2 && !run.raises

/-- It failed, whatever kind of command it is. -/
def CommandRun.broke (run : CommandRun) : Bool := !run.clean && !run.unverifiable

section Run

variable (fold : Char → Char)

/-- A command of a module, of one of the two kinds. -/
def CommandRun.ofKind (run : CommandRun) (name : String) (verify : Bool) : Bool :=
  owns fold name run.command && isVerify fold run.command.module == verify

/-- What the loop records; `none` when a command without a module ends it, since
neither the result nor the failure to record it can be recorded. -/
def loopResults : List CommandRun → Option (List (Command × Bool))
  | [] => some []
  | run :: rest =>
    if run.command.module = "" then none
    else (loopResults rest).map (History.recordedResults run.command run.exitCode run.raises ++ ·)

theorem addModuleOutcome_distinct {outcomes : List (String × ModuleOutcome)}
    (distinct : OrderedDict.Distinct (foldText fold) outcomes) (label : String) (success : Bool) :
    OrderedDict.Distinct (foldText fold) (addModuleOutcome fold outcomes label success) :=
  distinct.upsert _ _ _

/-- `$moduleOutcomes` at the end of the loop. -/
def runOutcomes (runs : List CommandRun) (results : List (Command × Bool)) :
    PropertyMap fold ModuleOutcome :=
  ⟨outcomesAfter fold (runs.map CommandRun.command) results, outcomesAfter_distinct _ _⟩

/-- What an execute run leaves: the manifest, when it is written, and the exit code. A
module without a name has no facts path, and the record is not written. -/
def executeRun {Facts Repos : Type} (previous : Option (UnitManifest fold Facts Repos))
    (build : BuildData fold) (installedAt : Stamp) (repos : Option Repos)
    (facts : Option (PropertyMap fold Facts)) (runs : List CommandRun) :
    Option (UnitManifest fold Facts Repos) × Nat :=
  match loopResults runs with
  | none => (none, 1)
  | some results =>
    let outcomes := runOutcomes fold runs results
    let written := if (outcomes.get? "").isSome then none
      else some (mergeManifest previous build outcomes installedAt repos facts)
    (written, if results.any fun result => !result.2 then 1 else 0)

end Run

/-- The record and the exit code mean what the commands did. -/
structure RecordsWhatRan (fold : Char → Char) {Facts Repos : Type} (runs : List CommandRun)
    (merged : UnitManifest fold Facts Repos) (exitCode : Nat) : Prop where
  recorded : ∀ name, runs.any (fun run => owns fold name run.command) = true →
    ∃ record, merged.record? name = some record ∧
      (record.provide = some Outcome.pass.text ↔
        (∃ run ∈ runs, run.ofKind fold name false = true) ∧
        ∀ run ∈ runs, run.ofKind fold name false = true → run.clean = true) ∧
      (record.verify = some Outcome.pass.text →
        ∀ run ∈ runs, run.ofKind fold name true = true → run.clean = true ∨ run.unverifiable = true) ∧
      ((∃ run ∈ runs, run.ofKind fold name false = true ∧ run.clean = false) →
        record.provide = some Outcome.fail.text) ∧
      ((∃ run ∈ runs, run.ofKind fold name true = true ∧ run.broke = true) →
        record.verify = some Outcome.fail.text)
  exitCode : exitCode = 0 ↔ ∀ name, runs.any (fun run => owns fold name run.command) = true →
    ∀ record, merged.record? name = some record →
      record.provide ≠ some Outcome.fail.text ∧ record.verify ≠ some Outcome.fail.text

/-- What becomes of an outcome once the results of its kind are recorded. -/
theorem foldl_record {seed : Outcome} (unfailed : seed ≠ .fail) (results : List Bool) :
    results.foldl Outcome.record seed =
      if results = [] then seed else if results.all id then .pass else .fail := by
  induction results using List.reverseRecOn with
  | nil => rfl
  | append_singleton earlier success ih =>
    rw [List.foldl_append, ih]
    by_cases none : earlier = []
    · subst none
      cases success <;> simp [Outcome.record, unfailed]
    · cases success with
      | false => simp [Outcome.record]
      | true =>
        by_cases clean : earlier.all id = true
        · simp_all [Outcome.record]
        · simp_all [Outcome.record]

section Outcomes

variable {fold : Char → Char} {runs : List CommandRun} {results : List (Command × Bool)}

/-- Recording results changes the outcome of a module by its own results, each kind by
its own. -/
theorem get?_recorded (outcomes : List (String × ModuleOutcome)) (results : List (Command × Bool))
    (name : String) :
    OrderedDict.get? (foldText fold)
        (results.foldl (fun outcomes result => addModuleOutcome fold outcomes result.1.module result.2)
          outcomes) name =
      if results.any (fun result => owns fold name result.1) ||
          (OrderedDict.get? (foldText fold) outcomes name).isSome then
        let seed := (OrderedDict.get? (foldText fold) outcomes name).getD .fresh
        some ⟨(resultsOf fold results name false).foldl Outcome.record seed.provide,
          (resultsOf fold results name true).foldl Outcome.record seed.verify⟩
      else none := by
  induction results using List.reverseRecOn with
  | nil =>
    rw [List.foldl_nil]
    cases OrderedDict.get? (foldText fold) outcomes name <;> simp [resultsOf]
  | append_singleton earlier result ih =>
    obtain ⟨command, success⟩ := result
    rw [List.foldl_append, List.foldl_cons, List.foldl_nil, get?_addModuleOutcome, ih]
    simp only [resultsOf_snoc, List.any_append, List.any_cons, List.any_nil, Bool.or_false]
    by_cases own : owns fold name command = true
    · simp only [own, if_true, Bool.true_and, Bool.or_true, Bool.true_or]
      have absent (none : (earlier.any (fun result => owns fold name result.1) ||
          (OrderedDict.get? (foldText fold) outcomes name).isSome) = false) (verify : Bool) :
          resultsOf fold earlier name verify = [] := by
        simp only [Bool.or_eq_false_iff, List.any_eq_false] at none
        simp only [resultsOf, List.map_eq_nil_iff, List.filter_eq_nil_iff]
        intro other member owned
        simp [none.1 other member] at owned
      by_cases some : (earlier.any (fun result => owns fold name result.1) ||
          (OrderedDict.get? (foldText fold) outcomes name).isSome) = true
      · rw [if_pos some]
        cases isVerify fold command.module <;> simp [ModuleOutcome.change]
      · have none := Bool.not_eq_true _ ▸ some
        have unseeded : OrderedDict.get? (foldText fold) outcomes name = Option.none := by
          simpa using (Bool.or_eq_false_iff.mp none).2
        rw [if_neg some, absent none, absent none, unseeded]
        cases isVerify fold command.module <;> simp [ModuleOutcome.change, ModuleOutcome.fresh]
    · have other : owns fold name command = false := by simpa using own
      simp only [other, Bool.false_and, Bool.or_false, Bool.false_eq_true, if_false]

/-- No command of the kind has reported. -/
def Outcome.Unrun (outcome : Outcome) : Prop := outcome = .none ∨ outcome = .skipped

theorem Outcome.Unrun.ne_pass {outcome : Outcome} (unrun : outcome.Unrun) : outcome ≠ .pass := by
  rcases unrun with rfl | rfl <;> decide

theorem Outcome.Unrun.ne_fail {outcome : Outcome} (unrun : outcome.Unrun) : outcome ≠ .fail := by
  rcases unrun with rfl | rfl <;> decide

/-- The outcome of one kind. -/
def ModuleOutcome.kind (outcome : ModuleOutcome) (verify : Bool) : Outcome :=
  if verify then outcome.verify else outcome.provide

theorem ModuleOutcome.fresh_unrun (verify : Bool) : (ModuleOutcome.fresh.kind verify).Unrun := by
  cases verify <;> exact .inl rfl

/-- No seeded outcome says that a command ran. -/
theorem newModuleOutcomeMap_unrun (commands : List Command) {name : String} {outcome : ModuleOutcome}
    (seeded : OrderedDict.get? (foldText fold) (newModuleOutcomeMap fold commands) name = some outcome)
    (verify : Bool) : (outcome.kind verify).Unrun := by
  induction commands using List.reverseRecOn generalizing outcome with
  | nil => cases seeded
  | append_singleton earlier command ih =>
    simp only [newModuleOutcomeMap, List.foldl_append, List.foldl_cons, List.foldl_nil] at ih seeded
    split at seeded
    · exact ih seeded
    · rw [OrderedDict.get?_upsert] at seeded
      split at seeded
      · obtain rfl := Option.some.inj seeded
        have before : ((((OrderedDict.get? (foldText fold) (newModuleOutcomeMap fold earlier)
            name).getD .fresh)).kind verify).Unrun := by
          cases found : OrderedDict.get? (foldText fold) (newModuleOutcomeMap fold earlier) name with
          | none => exact ModuleOutcome.fresh_unrun verify
          | some old => exact ih found
        simp only [newModuleOutcomeMap] at before
        cases verify <;> cases isVerify fold command.module <;>
          first | exact before | exact .inr rfl
      · exact ih seeded

/-- Only a module with a command is seeded. -/
theorem newModuleOutcomeMap_owned (commands : List Command) {name : String} {outcome : ModuleOutcome}
    (seeded : OrderedDict.get? (foldText fold) (newModuleOutcomeMap fold commands) name = some outcome) :
    commands.any (owns fold name) = true := by
  induction commands using List.reverseRecOn generalizing outcome with
  | nil => cases seeded
  | append_singleton earlier command ih =>
    simp only [newModuleOutcomeMap, List.foldl_append, List.foldl_cons, List.foldl_nil] at ih seeded
    rw [List.any_append, Bool.or_eq_true]
    split at seeded
    · exact .inl (ih seeded)
    · rw [OrderedDict.get?_upsert] at seeded
      split at seeded
      · rename_i own
        exact .inr (by simpa using owns_iff.mpr own)
      · exact .inl (ih seeded)

theorem succeeds_iff_not_broke {run : CommandRun} :
    (exitSucceeds run.exitCode && !run.raises) = !run.broke := by
  obtain ⟨command, exitCode, raises⟩ := run
  cases raises with
  | true => simp [CommandRun.broke, CommandRun.clean, CommandRun.unverifiable]
  | false =>
    cases exitCode with
    | none => rfl
    | some code => simp [CommandRun.broke, CommandRun.clean, CommandRun.unverifiable, exitSucceeds]

/-- The results of one kind of a module's commands, once the loop is done. -/
theorem resultsOf_loop (loop : loopResults runs = some results) (name : String) (verify : Bool) :
    (resultsOf fold results name verify = [] ↔ ∀ run ∈ runs, run.ofKind fold name verify = false) ∧
    ((resultsOf fold results name verify).all id = true ↔
      ∀ run ∈ runs, run.ofKind fold name verify = true → run.broke = false) := by
  induction runs generalizing results with
  | nil =>
    obtain rfl := Option.some.inj loop
    simp [resultsOf]
  | cons run rest ih =>
    unfold loopResults at loop
    split at loop
    · cases loop
    · obtain ⟨later, isLater, rfl⟩ := Option.map_eq_some_iff.mp loop
      obtain ⟨empty, clean⟩ := ih isLater
      rw [resultsOf_append]
      by_cases kind : run.ofKind fold name verify = true
      · obtain ⟨own, isKind⟩ := Bool.and_eq_true_iff.mp kind
        obtain rfl : isVerify fold run.command.module = verify := by simpa using isKind
        rw [History.resultsOf_recordedResults own]
        have ended : ((exitSucceeds run.exitCode :: if run.raises then [false] else []).all id) =
            (exitSucceeds run.exitCode && !run.raises) := by
          cases run.raises <;> simp
        refine ⟨by simp [kind], ?_⟩
        rw [List.all_append, Bool.and_eq_true, ended, succeeds_iff_not_broke, clean]
        simp [kind]
      · have other : owns fold name run.command = false ∨ isVerify fold run.command.module ≠ verify := by
          have isOther := (Bool.and_eq_false_iff.mp (Bool.eq_false_iff.mpr kind))
          exact isOther.imp id (by simp)
        rw [History.resultsOf_recordedResults_other other, List.nil_append, empty, clean]
        simp [kind]

/-- The label of a command of a finished loop is not empty. -/
theorem labelled_of_loop (loop : loopResults runs = some results) :
    ∀ run ∈ runs, run.command.module ≠ "" := by
  induction runs generalizing results with
  | nil => simp
  | cons run rest ih =>
    unfold loopResults at loop
    split at loop
    · cases loop
    · rename_i labelled
      obtain ⟨later, isLater, _⟩ := Option.map_eq_some_iff.mp loop
      exact List.forall_mem_cons.mpr ⟨labelled, ih isLater⟩

theorem loopResults_isSome (labelled : ∀ run ∈ runs, run.command.module ≠ "") :
    ∃ results, loopResults runs = some results := by
  induction runs with
  | nil => exact ⟨[], rfl⟩
  | cons run rest ih =>
    obtain ⟨here, later⟩ := List.forall_mem_cons.mp labelled
    obtain ⟨results, loop⟩ := ih later
    exact ⟨_, by rw [loopResults, if_neg here, loop]; rfl⟩

theorem any_owns_results (loop : loopResults runs = some results) (name : String) :
    results.any (fun result => owns fold name result.1) =
      runs.any (fun run => owns fold name run.command) := by
  induction runs generalizing results with
  | nil =>
    obtain rfl := Option.some.inj loop
    rfl
  | cons run rest ih =>
    unfold loopResults at loop
    split at loop
    · cases loop
    · obtain ⟨later, isLater, rfl⟩ := Option.map_eq_some_iff.mp loop
      rw [List.any_append, List.any_cons, ih isLater]
      cases run.raises <;> simp [History.recordedResults]

/-- What is recorded for a kind of a module's commands. -/
structure KindRecorded (fold : Char → Char) (runs : List CommandRun) (name : String) (verify : Bool)
    (outcome : Outcome) : Prop where
  unrun : (∀ run ∈ runs, run.ofKind fold name verify = false) → outcome.Unrun
  pass : (∃ run ∈ runs, run.ofKind fold name verify = true) →
    (∀ run ∈ runs, run.ofKind fold name verify = true → run.broke = false) → outcome = .pass
  fail : (∃ run ∈ runs, run.ofKind fold name verify = true ∧ run.broke = true) → outcome = .fail

/-- A touched module has an outcome that says what its commands did. -/
theorem runOutcomes_recorded (loop : loopResults runs = some results) {name : String}
    (touched : runs.any (fun run => owns fold name run.command) = true) :
    ∃ outcome, (runOutcomes fold runs results).get? name = some outcome ∧
      ∀ verify, KindRecorded fold runs name verify (outcome.kind verify) := by
  let seed := (OrderedDict.get? (foldText fold)
    (newModuleOutcomeMap fold (runs.map CommandRun.command)) name).getD .fresh
  have unrun (verify : Bool) : (seed.kind verify).Unrun := by
    cases found : OrderedDict.get? (foldText fold)
        (newModuleOutcomeMap fold (runs.map CommandRun.command)) name with
    | none =>
      have isFresh : seed = .fresh := by simp only [seed, found, Option.getD_none]
      rw [isFresh]
      exact ModuleOutcome.fresh_unrun verify
    | some old =>
      have isOld : seed = old := by simp only [seed, found, Option.getD_some]
      rw [isOld]
      exact newModuleOutcomeMap_unrun _ found verify
  have recorded (verify : Bool) : KindRecorded fold runs name verify
      ((resultsOf fold results name verify).foldl Outcome.record (seed.kind verify)) := by
    rw [foldl_record (unrun verify).ne_fail]
    obtain ⟨empty, clean⟩ := resultsOf_loop loop name verify
    refine ⟨fun none => ?_, fun some all => ?_, fun broken => ?_⟩
    · rw [if_pos (empty.mpr none)]
      exact unrun verify
    · obtain ⟨run, member, kind⟩ := some
      have nonempty : resultsOf fold results name verify ≠ [] := fun isEmpty => by
        rw [empty.mp isEmpty run member] at kind
        cases kind
      rw [if_neg nonempty, if_pos (clean.mpr all)]
    · obtain ⟨run, member, kind, isBroken⟩ := broken
      have nonempty : resultsOf fold results name verify ≠ [] := fun isEmpty => by
        rw [empty.mp isEmpty run member] at kind
        cases kind
      rw [if_neg nonempty, if_neg fun all => ?_]
      rw [clean.mp all run member kind] at isBroken
      cases isBroken
  refine ⟨⟨(resultsOf fold results name false).foldl Outcome.record seed.provide,
    (resultsOf fold results name true).foldl Outcome.record seed.verify⟩, ?_, fun verify => ?_⟩
  · unfold PropertyMap.get? runOutcomes outcomesAfter
    simp only
    rw [get?_recorded, any_owns_results loop, touched, Bool.true_or, if_pos rfl]
  · have holds := recorded verify
    cases verify <;> exact holds

/-- The run writes its manifest when every command has a module. -/
theorem executeRun_written {Facts Repos : Type} {previous : Option (UnitManifest fold Facts Repos)}
    {build : BuildData fold} {installedAt : Stamp} {repos : Option Repos}
    {facts : Option (PropertyMap fold Facts)} {merged : UnitManifest fold Facts Repos} :
    (executeRun fold previous build installedAt repos facts runs).1 = some merged ↔
      (∀ run ∈ runs, baseName fold run.command.module ≠ "") ∧
      ∃ results, loopResults runs = some results ∧
        merged = mergeManifest previous build (runOutcomes fold runs results) installedAt repos facts := by
  have blank (name : String) : foldText fold name = foldText fold "" ↔ name = "" := by
    constructor
    · intro same
      have isEmpty : name.toList.map fold = [] := by
        simpa [foldText] using congrArg String.toList same
      simpa using isEmpty
    · rintro rfl
      rfl
  cases loop : loopResults runs with
  | none => simp [executeRun, loop]
  | some results =>
    have unnamed : ((runOutcomes fold runs results).get? "").isSome =
        runs.any fun run => owns fold "" run.command := by
      unfold PropertyMap.get? runOutcomes outcomesAfter
      simp only
      rw [get?_recorded, any_owns_results loop]
      cases seeded : OrderedDict.get? (foldText fold)
          (newModuleOutcomeMap fold (runs.map CommandRun.command)) "" with
      | none => cases runs.any fun run => owns fold "" run.command <;> rfl
      | some outcome =>
        have owned := newModuleOutcomeMap_owned _ seeded
        rw [List.any_map] at owned
        have isOwned : (runs.any fun run => owns fold "" run.command) = true := owned
        simp [isOwned]
    have named : (runs.any fun run => owns fold "" run.command) = false ↔
        ∀ run ∈ runs, baseName fold run.command.module ≠ "" := by
      simp [List.any_eq_false, owns_iff, blank]
    unfold executeRun
    simp only [loop, unnamed, Option.some.injEq, exists_eq_left', ← named]
    cases runs.any fun run => owns fold "" run.command <;> simp [eq_comm]

/-- Something is recorded as failed when a command broke. -/
theorem any_failed_results (loop : loopResults runs = some results) :
    (results.any fun result => !result.2) = runs.any CommandRun.broke := by
  induction runs generalizing results with
  | nil =>
    obtain rfl := Option.some.inj loop
    rfl
  | cons run rest ih =>
    unfold loopResults at loop
    split at loop
    · cases loop
    · obtain ⟨later, isLater, rfl⟩ := Option.map_eq_some_iff.mp loop
      rw [List.any_append, List.any_cons, ih isLater]
      congr 1
      have failed : ((History.recordedResults run.command run.exitCode run.raises).any
          fun result => !result.2) = !(exitSucceeds run.exitCode && !run.raises) := by
        cases run.raises <;> simp [History.recordedResults]
      rw [failed, succeeds_iff_not_broke, Bool.not_not]

theorem CommandRun.ofKind_own (fold : Char → Char) (run : CommandRun) :
    run.ofKind fold (baseName fold run.command.module) (isVerify fold run.command.module) = true := by
  simp [CommandRun.ofKind, owns_iff]

theorem CommandRun.owns_of_ofKind {run : CommandRun} {name : String} {verify : Bool}
    (kind : run.ofKind fold name verify = true) (member : run ∈ runs) :
    runs.any (fun other => owns fold name other.command) = true :=
  List.any_eq_true.mpr ⟨run, member, (Bool.and_eq_true_iff.mp kind).1⟩

theorem CommandRun.broke_eq_false_iff {run : CommandRun} :
    run.broke = false ↔ run.clean = true ∨ run.unverifiable = true := by
  cases isClean : run.clean <;> cases isUnverifiable : run.unverifiable <;>
    simp [CommandRun.broke, isClean, isUnverifiable]

theorem CommandRun.clean_of_unverifiable {run : CommandRun} (unverifiable : run.unverifiable = true) :
    run.clean = false := by
  simp only [CommandRun.unverifiable, Bool.and_eq_true, decide_eq_true_eq] at unverifiable
  simp [CommandRun.clean, unverifiable.1]

/-- Commands of one module are of one kind under each of its spellings. -/
theorem CommandRun.ofKind_congr {run : CommandRun} {name other : String} {verify : Bool}
    (same : foldText fold name = foldText fold other) :
    run.ofKind fold name verify = run.ofKind fold other verify := by
  unfold CommandRun.ofKind owns psEq
  rw [same]

theorem recorded_text {outcome other : Outcome} : (some outcome.text = some other.text) ↔
    outcome = other :=
  ⟨fun same => Outcome.text_injective (Option.some.inj same), fun same => by rw [same]⟩

end Outcomes

section Claim

variable {fold : Char → Char} {Facts Repos : Type}

/-- A run whose commands have modules records what ran, and its exit code says so,
exactly when a provide command that exits with the code of an unverifiable verify is
not the worst of its module. -/
theorem recordsWhatRan_iff (previous : Option (UnitManifest fold Facts Repos))
    (build : BuildData fold) (installedAt : Stamp) (repos : Option Repos)
    (facts : Option (PropertyMap fold Facts)) (runs : List CommandRun) :
    (∃ merged, (executeRun fold previous build installedAt repos facts runs).1 = some merged ∧
        RecordsWhatRan fold runs merged
          (executeRun fold previous build installedAt repos facts runs).2) ↔
      (∀ run ∈ runs, baseName fold run.command.module ≠ "") ∧
      ∀ run ∈ runs, isVerify fold run.command.module = false → run.unverifiable = true →
        ∃ other ∈ runs, other.ofKind fold (baseName fold run.command.module) false = true ∧
          other.broke = true := by
  constructor
  · rintro ⟨merged, written, records⟩
    obtain ⟨named, results, loop, rfl⟩ := executeRun_written.mp written
    refine ⟨named, fun run member provides unverifiable => ?_⟩
    by_contra unbroken
    have kind : run.ofKind fold (baseName fold run.command.module) false = true :=
      provides ▸ run.ofKind_own fold
    have touched := CommandRun.owns_of_ofKind kind member
    obtain ⟨outcome, isOutcome, recorded⟩ := runOutcomes_recorded loop touched
    have passes : outcome.provide = .pass := (recorded false).pass ⟨run, member, kind⟩
      fun other isOther otherKind => by
        by_contra broken
        exact unbroken ⟨other, isOther, otherKind, by simpa using broken⟩
    obtain ⟨record, isRecord, meansPass, _⟩ := records.recorded _ touched
    obtain ⟨made, isMade, _, _, isProvide, _⟩ :=
      (mergeManifest_spec previous build (runOutcomes fold runs results) installedAt repos facts).touched
        _ outcome isOutcome
    obtain rfl := Option.some.inj (isRecord.symm.trans isMade)
    have clean := (meansPass.mp (by rw [isProvide, passes])).2 run member kind
    rw [CommandRun.clean_of_unverifiable unverifiable] at clean
    cases clean
  · rintro ⟨named, worst⟩
    have labelled : ∀ run ∈ runs, run.command.module ≠ "" := fun run member isEmpty =>
      named run member (by rw [isEmpty]; rfl)
    obtain ⟨results, loop⟩ := loopResults_isSome labelled
    have spec := mergeManifest_spec previous build (runOutcomes fold runs results) installedAt repos facts
    refine ⟨_, executeRun_written.mpr ⟨named, results, loop, rfl⟩, fun name touched => ?_, ?_⟩
    · obtain ⟨outcome, isOutcome, recorded⟩ := runOutcomes_recorded loop touched
      obtain ⟨record, isRecord, _, _, isProvide, isVerify⟩ := spec.touched _ outcome isOutcome
      have fails (dirty : ∃ run ∈ runs, run.ofKind fold name false = true ∧ run.clean = false) :
          outcome.provide = .fail := by
        obtain ⟨run, member, kind, isDirty⟩ := dirty
        refine (recorded false).fail ?_
        by_cases broken : run.broke = true
        · exact ⟨run, member, kind, broken⟩
        · have unverifiable : run.unverifiable = true := by
            have either := CommandRun.broke_eq_false_iff.mp (Bool.eq_false_iff.mpr broken)
            simpa [isDirty] using either
          obtain ⟨own, provides⟩ := Bool.and_eq_true_iff.mp kind
          obtain ⟨other, isOther, otherKind, isBroken⟩ :=
            worst run member (by simpa using provides) unverifiable
          rw [CommandRun.ofKind_congr (owns_iff.mp own)] at otherKind
          exact ⟨other, isOther, otherKind, isBroken⟩
      refine ⟨record, isRecord, ?_, fun passed run member kind => ?_, fun dirty => ?_, fun broken => ?_⟩
      · rw [isProvide, recorded_text]
        constructor
        · intro passes
          have unfailed : outcome.provide ≠ .fail := by rw [passes]; decide
          refine ⟨?_, fun run member kind => ?_⟩
          · by_contra none
            have unrun := (recorded false).unrun fun run member =>
              Bool.eq_false_iff.mpr fun kind => none ⟨run, member, kind⟩
            exact unrun.ne_pass passes
          · by_contra dirty
            exact unfailed (fails ⟨run, member, kind, Bool.eq_false_iff.mpr dirty⟩)
        · rintro ⟨some, clean⟩
          refine (recorded false).pass some fun run member kind => ?_
          exact CommandRun.broke_eq_false_iff.mpr (.inl (clean run member kind))
      · rw [isVerify, recorded_text] at passed
        by_contra broken
        have isBroken : run.broke = true := by
          by_contra unbroken
          exact broken (CommandRun.broke_eq_false_iff.mp (Bool.eq_false_iff.mpr unbroken))
        have failed := (recorded true).fail ⟨run, member, kind, isBroken⟩
        cases passed.symm.trans failed
      · rw [isProvide, recorded_text]
        exact fails dirty
      · rw [isVerify, recorded_text]
        exact (recorded true).fail broken
    · have isExit : (executeRun fold previous build installedAt repos facts runs).2 =
          if runs.any CommandRun.broke then 1 else 0 := by
        simp only [executeRun, loop, any_failed_results loop]
      rw [isExit]
      constructor
      · intro succeeded name touched record isRecord
        have unbroken : ∀ run ∈ runs, run.broke = false := by
          by_contra broken
          push Not at broken
          obtain ⟨run, member, isBroken⟩ := broken
          rw [if_pos (List.any_eq_true.mpr ⟨run, member, by simpa using isBroken⟩)] at succeeded
          cases succeeded
        obtain ⟨outcome, isOutcome, recorded⟩ := runOutcomes_recorded loop touched
        obtain ⟨made, isMade, _, _, isProvide, isVerify⟩ := spec.touched _ outcome isOutcome
        obtain rfl := Option.some.inj (isRecord.symm.trans isMade)
        have unfailed (verify : Bool) : outcome.kind verify ≠ .fail := by
          by_cases some : ∃ run ∈ runs, run.ofKind fold name verify = true
          · rw [(recorded verify).pass some fun run member _ => unbroken run member]
            decide
          · refine ((recorded verify).unrun fun run member => Bool.eq_false_iff.mpr fun kind => ?_).ne_fail
            exact some ⟨run, member, kind⟩
        rw [isProvide, isVerify, Ne, Ne, recorded_text, recorded_text]
        exact ⟨unfailed false, unfailed true⟩
      · intro unfailed
        refine if_neg fun broken => ?_
        obtain ⟨run, member, isBroken⟩ := List.any_eq_true.mp broken
        have kind := run.ofKind_own fold
        have touched := CommandRun.owns_of_ofKind kind member
        obtain ⟨outcome, isOutcome, recorded⟩ := runOutcomes_recorded loop touched
        obtain ⟨made, isMade, _, _, isProvide, isVerify⟩ := spec.touched _ outcome isOutcome
        obtain ⟨provideUnfailed, verifyUnfailed⟩ := unfailed _ touched made isMade
        have failed := (recorded _).fail ⟨run, member, kind, isBroken⟩
        cases isKind : Build.isVerify fold run.command.module with
        | false =>
          rw [isKind] at failed
          exact provideUnfailed (isProvide.trans (congrArg (some ·.text) failed))
        | true =>
          rw [isKind] at failed
          exact verifyUnfailed (isVerify.trans (congrArg (some ·.text) failed))

/-- A provide command that exits with the code of an unverifiable verify. -/
def unverifiableProvide : List CommandRun :=
  [⟨⟨10, "Install git", "provide-git.ps1", "git"⟩, some 2, false⟩]

/-- The build of one module. -/
def gitBuild : BuildData Char.toLower where
  modules := some ["git"]
  moduleState := some ⟨[("git", ⟨some "1.0", some "h-git"⟩)], by simp [OrderedDict.Distinct]⟩
  builtAt := none
  gitSha := none
  hostname := none
  payloadHash := some "aggregate-hash"

/-- A first run of just that command. -/
def unverifiableRun : Option (UnitManifest Char.toLower Unit Unit) × Nat :=
  executeRun Char.toLower none gitBuild (.utc 0) none none unverifiableProvide

/-- Such a command is recorded as passed, though it did not exit 0. -/
theorem unverifiableProvide_passes : ¬ ∃ merged, unverifiableRun.1 = some merged ∧
    RecordsWhatRan Char.toLower unverifiableProvide merged unverifiableRun.2 := by
  rintro ⟨merged, written, records⟩
  have passes : (unverifiableRun.1.bind (·.record? "git")).map (·.provide) =
      some (some Outcome.pass.text) := by decide
  obtain ⟨record, isRecord, meansPass, _⟩ := records.recorded "git" (by decide)
  rw [written, Option.bind_some, isRecord] at passes
  have clean := (meansPass.mp (Option.some.inj passes)).2
    ⟨⟨10, "Install git", "provide-git.ps1", "git"⟩, some 2, false⟩ (by decide) (by decide)
  cases clean

end Claim

end MastProvisioning.Unit
