import Mathlib.Data.List.Induction
import MastProvisioning.Unit.InstalledManifest

/-!
# The execute loop

`execute-mast-provisioning.ps1` filters the payload's commands by `-Modules`, runs
what remains in order and collects one outcome per module. `get?_outcomesAfter`
says what the collected outcome of a module is in terms of the results of its own
commands: no result leaves the seeded value, one failure makes it a failure.
-/

namespace MastProvisioning.Unit

open MastProvisioning.Collections MastProvisioning.PowerShell MastProvisioning.Build

section Definitions

variable (fold : Char → Char)

/-- The commands a run executes; a blank `-Modules` means all of them. -/
def filterCommands (modules : String) (commands : List Command) : List Command :=
  if isBlank modules then commands
  else commands.filter fun command =>
    (splitNames modules).any fun name => psEq fold name (baseName fold command.module)

/-- Exit codes of a child process that count as success: 0, and the code of a
verify that could not run every check. A missing exit code is a failure. -/
def exitSucceeds : Option Int → Bool
  | some code => code = 0 || code = 2
  | none => false

/-- The collected outcomes once some of the commands have a result. -/
def outcomesAfter (commands : List Command) (results : List (Command × Bool)) :
    List (String × ModuleOutcome) :=
  results.foldl (fun outcomes result => addModuleOutcome fold outcomes result.1.module result.2)
    (newModuleOutcomeMap fold commands)

/-- Whether a command belongs to a module, as PowerShell compares names. -/
def owns (name : String) (command : Command) : Bool :=
  psEq fold (baseName fold command.module) name

/-- The results of a module's commands of one kind. -/
def resultsOf (results : List (Command × Bool)) (name : String) (verify : Bool) : List Bool :=
  (results.filter fun result =>
    owns fold name result.1 && isVerify fold result.1.module == verify).map Prod.snd

/-- Whether a list of commands has one of a kind for a module. -/
def declares (commands : List Command) (name : String) (verify : Bool) : Bool :=
  commands.any fun command => owns fold name command && isVerify fold command.module == verify

/-- What is recorded for one kind of command, given whether there is one and the
results so far. -/
def kindOutcome (declared : Bool) (results : List Bool) : Outcome :=
  if results = [] then if declared then .skipped else .none
  else if results.all id then .pass else .fail

end Definitions

theorem kindOutcome_snoc (declared : Bool) (results : List Bool) (success : Bool) :
    kindOutcome declared (results ++ [success]) = (kindOutcome declared results).record success := by
  by_cases none : results = []
  · subst none
    cases success <;> cases declared <;> rfl
  · have some : results ++ [success] ≠ [] := by simp
    cases success with
    | false => simp [kindOutcome, Outcome.record]
    | true =>
      by_cases clean : results.all id = true
      · simp_all [kindOutcome, Outcome.record]
      · simp_all [kindOutcome, Outcome.record]

/-- A kind of command passed when it was run and every result was a success. -/
theorem kindOutcome_pass {declared : Bool} {results : List Bool}
    (pass : kindOutcome declared results = .pass) : results ≠ [] ∧ results.all id = true := by
  unfold kindOutcome at pass
  split at pass
  · split at pass <;> cases pass
  · rename_i ran
    split at pass
    · rename_i all
      exact ⟨ran, all⟩
    · cases pass

variable {fold : Char → Char}

theorem mem_of_filterCommands {modules : String} {commands : List Command} {command : Command}
    (member : command ∈ filterCommands fold modules commands) : command ∈ commands := by
  unfold filterCommands at member
  split at member
  · exact member
  · exact List.mem_of_mem_filter member

theorem psEq_iff {text other : String} :
    psEq fold text other = true ↔ foldText fold text = foldText fold other := by
  simp [psEq]

theorem psEq_refl (text : String) : psEq fold text text = true := by simp [psEq]

theorem psEq_trans {text middle other : String} (first : psEq fold text middle = true)
    (second : psEq fold middle other = true) : psEq fold text other = true :=
  psEq_iff.mpr ((psEq_iff.mp first).trans (psEq_iff.mp second))

theorem Outcome.foldText_text (keeps : KeepsLower fold) (outcome : Outcome) :
    foldText fold outcome.text = outcome.text :=
  foldText_of_lower keeps (by cases outcome <;> decide)

theorem Outcome.eq_pass_of_psEq (keeps : KeepsLower fold) {outcome : Outcome}
    (pass : psEq fold outcome.text Outcome.pass.text = true) : outcome = .pass := by
  have same := psEq_iff.mp pass
  rw [outcome.foldText_text keeps, Outcome.foldText_text keeps] at same
  exact Outcome.text_injective same

/-- Every module of a fully provisioned build has an entry with the build's hash
that passed. -/
theorem clean_of_fullyProvisioned {buildData : BuildManifest} {modules : List (String × Recorded)}
    (fully : fullyProvisioned fold buildData modules = true) {name : String}
    (isModule : name ∈ buildData.modules) :
    ∃ entry, OrderedDict.get? (foldText fold) modules name = some (.entry entry) ∧
      psEq fold (fieldText entry.hash) (builtState fold buildData name).hash = true ∧
      psEq fold (fieldText entry.provide) Outcome.pass.text = true := by
  unfold fullyProvisioned at fully
  have accepted := List.all_eq_true.mp (Bool.and_eq_true_iff.mp fully).2 name isModule
  split at accepted
  · rename_i recorded found
    cases recorded with
    | entry entry =>
      simp only [entryClean, Bool.and_eq_true] at accepted
      exact ⟨entry, found, accepted.1.1.1.2, accepted.1.1.2⟩
    | _ => cases accepted
  · cases accepted

theorem owns_iff {name : String} {command : Command} :
    owns fold name command = true ↔
      foldText fold (baseName fold command.module) = foldText fold name := psEq_iff

theorem get?_addModuleOutcome (outcomes : List (String × ModuleOutcome)) (command : Command)
    (success : Bool) (name : String) :
    OrderedDict.get? (foldText fold) (addModuleOutcome fold outcomes command.module success) name =
      if owns fold name command then
        some (((OrderedDict.get? (foldText fold) outcomes name).getD .fresh).change
          (isVerify fold command.module) fun before => before.record success)
      else OrderedDict.get? (foldText fold) outcomes name := by
  unfold addModuleOutcome
  rw [OrderedDict.get?_upsert]
  simp only [owns_iff]

theorem declares_snoc (commands : List Command) (command : Command) (name : String)
    (verify : Bool) :
    declares fold (commands ++ [command]) name verify =
      (declares fold commands name verify ||
        (owns fold name command && isVerify fold command.module == verify)) := by
  simp [declares]

theorem declares_of_not_any {commands : List Command} {name : String}
    (absent : commands.any (owns fold name) = false) (verify : Bool) :
    declares fold commands name verify = false := by
  simp only [declares, List.any_eq_false] at absent ⊢
  intro command member
  simp [absent command member]

/-- The seeded outcome of a module: each kind of command it has is skipped until
one of them reports. -/
theorem get?_newModuleOutcomeMap {commands : List Command}
    (labelled : ∀ command ∈ commands, isBlank command.module = false) (name : String) :
    OrderedDict.get? (foldText fold) (newModuleOutcomeMap fold commands) name =
      if commands.any (owns fold name) then
        some ⟨kindOutcome (declares fold commands name false) [],
          kindOutcome (declares fold commands name true) []⟩
      else none := by
  induction commands using List.reverseRecOn with
  | nil => rfl
  | append_singleton earlier command ih =>
    have visible : isBlank command.module = false := labelled command (by simp)
    have seeded := ih fun other member => labelled other (by simp [member])
    have unfolded : newModuleOutcomeMap fold (earlier ++ [command]) =
        OrderedDict.upsert (foldText fold) (newModuleOutcomeMap fold earlier)
          (baseName fold command.module) .fresh fun outcome =>
            outcome.change (isVerify fold command.module) fun _ => .skipped := by
      simp [newModuleOutcomeMap, visible]
    rw [unfolded, OrderedDict.get?_upsert, seeded]
    simp only [← owns_iff, declares_snoc, List.any_append, List.any_cons, List.any_nil,
      Bool.or_false]
    by_cases own : owns fold name command = true
    · cases before : earlier.any (owns fold name) with
      | true => cases isVerify fold command.module <;> simp [own, kindOutcome, ModuleOutcome.change]
      | false =>
        simp only [declares_of_not_any before]
        cases isVerify fold command.module <;>
          simp [own, kindOutcome, ModuleOutcome.change, ModuleOutcome.fresh]
    · simp [own]

theorem resultsOf_append (results more : List (Command × Bool)) (name : String) (verify : Bool) :
    resultsOf fold (results ++ more) name verify =
      resultsOf fold results name verify ++ resultsOf fold more name verify := by
  simp [resultsOf]

theorem resultsOf_snoc (results : List (Command × Bool)) (command : Command) (success : Bool)
    (name : String) (verify : Bool) :
    resultsOf fold (results ++ [(command, success)]) name verify =
      if owns fold name command && isVerify fold command.module == verify then
        resultsOf fold results name verify ++ [success]
      else resultsOf fold results name verify := by
  unfold resultsOf
  cases same : owns fold name command && isVerify fold command.module == verify <;>
    simp [same, List.filter_append]

/-- The collected outcome of a module whose commands run: what its own results make
of the seeded outcome. -/
theorem get?_outcomesAfter {commands : List Command} {results : List (Command × Bool)}
    (labelled : ∀ command ∈ commands, isBlank command.module = false)
    (ran : ∀ result ∈ results, result.1 ∈ commands) (name : String) :
    OrderedDict.get? (foldText fold) (outcomesAfter fold commands results) name =
      if commands.any (owns fold name) then
        some ⟨kindOutcome (declares fold commands name false) (resultsOf fold results name false),
          kindOutcome (declares fold commands name true) (resultsOf fold results name true)⟩
      else none := by
  induction results using List.reverseRecOn with
  | nil => exact get?_newModuleOutcomeMap labelled name
  | append_singleton earlier result ih =>
    obtain ⟨command, success⟩ := result
    have before := ih fun other member => ran other (by simp [member])
    have member : command ∈ commands := ran (command, success) (by simp)
    have unfolded : outcomesAfter fold commands (earlier ++ [(command, success)]) =
        addModuleOutcome fold (outcomesAfter fold commands earlier) command.module success := by
      simp [outcomesAfter]
    rw [unfolded, get?_addModuleOutcome, before]
    simp only [resultsOf_snoc]
    by_cases own : owns fold name command = true
    · have some : commands.any (owns fold name) = true := List.any_eq_true.mpr ⟨command, member, own⟩
      cases isVerify fold command.module <;>
        simp [own, some, kindOutcome_snoc, ModuleOutcome.change]
    · simp [own]

theorem outcomesAfter_distinct (commands : List Command) (results : List (Command × Bool)) :
    OrderedDict.Distinct (foldText fold) (outcomesAfter fold commands results) := by
  have seeded : OrderedDict.Distinct (foldText fold) (newModuleOutcomeMap fold commands) := by
    induction commands using List.reverseRecOn with
    | nil => exact OrderedDict.distinct_nil
    | append_singleton earlier command ih =>
      simp only [newModuleOutcomeMap, List.foldl_append, List.foldl_cons, List.foldl_nil] at ih ⊢
      split
      · exact ih
      · exact ih.upsert _ _ _
  induction results using List.reverseRecOn with
  | nil => exact seeded
  | append_singleton earlier result ih =>
    simp only [outcomesAfter, List.foldl_append, List.foldl_cons, List.foldl_nil] at ih ⊢
    exact ih.upsert _ _ _

/-- The modules a run touches are spelled as the labels of its commands spell them. -/
theorem outcomesAfter_key {commands : List Command} {results : List (Command × Bool)}
    (ran : ∀ result ∈ results, result.1 ∈ commands) {entry : String × ModuleOutcome}
    (member : entry ∈ outcomesAfter fold commands results) :
    ∃ command ∈ commands, baseName fold command.module = entry.1 := by
  have seeded : ∀ seeded ⊆ commands, ∀ entry ∈ newModuleOutcomeMap fold seeded,
      ∃ command ∈ commands, baseName fold command.module = entry.1 := by
    intro seeded
    induction seeded using List.reverseRecOn with
    | nil => simp [newModuleOutcomeMap]
    | append_singleton earlier command ih =>
      intro subset entry isEntry
      have before := ih fun other isOther => subset (List.mem_append_left _ isOther)
      simp only [newModuleOutcomeMap, List.foldl_append, List.foldl_cons, List.foldl_nil]
        at before isEntry
      split at isEntry
      · exact before entry isEntry
      · rcases OrderedDict.key_mem_upsert isEntry with isKey | ⟨old, isOld, same⟩
        · exact ⟨command, subset (by simp), isKey.symm⟩
        · exact same ▸ before old isOld
  induction results using List.reverseRecOn generalizing entry with
  | nil => exact seeded commands (List.Subset.refl _) entry member
  | append_singleton earlier result ih =>
    simp only [outcomesAfter, List.foldl_append, List.foldl_cons, List.foldl_nil] at ih member
    rcases OrderedDict.key_mem_upsert member with isKey | ⟨old, isOld, same⟩
    · exact ⟨result.1, ran result (by simp), isKey.symm⟩
    · exact same ▸ ih (fun other isOther => ran other (by simp [isOther])) isOld

end MastProvisioning.Unit
