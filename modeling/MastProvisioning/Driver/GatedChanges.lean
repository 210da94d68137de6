import MastProvisioning.Driver.AvailabilityProtocol

/-!
# What may change a unit

The dry-run and the maintenance gate stand in front of the marking, the transfer and the
execute. The stand-down is made earlier, as soon as a session is open, and whatever stops the
cycle later: a dry run, the wrong hour or nothing to run. `changes_when_allowed_iff` says
that it is the only step a cycle takes on the unit before both gates are passed.
-/

namespace MastProvisioning.Driver

open MastProvisioning.Semantics MastProvisioning.Semantics.Command

/-- Every step that changes the unit comes after both gates. -/
def ChangesAfterGates (steps : List Step) : Prop :=
  ∀ early step late, steps = early ++ step :: late → step.changesUnit = true → gates ⊆ early

/-- What a cycle owes the unit: changes after both gates only, and none in a dry run or in a
cycle that skips the unit. -/
structure ChangesWhenAllowed (config : Config) (rows : List Activity) (steps : List Step) :
    Prop where
  gated : ChangesAfterGates steps
  dryRun : config.dryRun = true → ∀ step ∈ steps, step.changesUnit = false
  skipped : (∃ row ∈ rows, SkipsAtGate row) → ∀ step ∈ steps, step.changesUnit = false

/-- The stand-down finds nothing to stop or to delete, as far as it gets. -/
def Answers.standsNothingDown (answers : Answers) (machine : Machine) : Prop :=
  ∀ entry ∈ standDownNames.take answers.standDown.ran, machine.standsDown entry = false

section Steps

theorem changesUnit_of_gates {step : Step} (isGate : step ∈ gates) : step.changesUnit = false := by
  simp only [gates, List.mem_cons, List.not_mem_nil, or_false] at isGate
  rcases isGate with rfl | rfl
  · rfl
  · rfl

theorem StandDownStep.changesUnit {step : Step} (standsDown : StandDownStep step) :
    step.changesUnit = true := by
  obtain ⟨name, rfl | rfl⟩ := standsDown
  · rfl
  · rfl

/-- Once the gates are passed any step may follow. -/
theorem changesAfterGates_append (more : List Step) : ChangesAfterGates (gates ++ more) := by
  intro early step late equal changes
  rcases List.append_eq_append_iff.mp equal with ⟨passed, rfl, -⟩ | ⟨unpassed, isGates, ahead⟩
  · exact List.subset_append_left gates passed
  · cases unpassed with
    | nil =>
      rw [List.append_nil] at isGates
      exact isGates ▸ List.Subset.refl gates
    | cons first rest =>
      obtain ⟨rfl, -⟩ := List.cons.inj ahead
      have isGate : step ∈ gates := isGates ▸ List.mem_append_right early List.mem_cons_self
      cases changes.symm.trans (changesUnit_of_gates isGate)

theorem changesAfterGates_of_unchanged {steps : List Step}
    (unchanged : ∀ step ∈ steps, step.changesUnit = false) : ChangesAfterGates steps := by
  rintro early step late rfl changes
  have member : step ∈ early ++ step :: late := List.mem_append_right early List.mem_cons_self
  cases changes.symm.trans (unchanged step member)

/-- A stand-down that takes a step takes it before the gates. -/
theorem eq_nil_of_changesAfterGates {early late : List Step}
    (standsDown : ∀ step ∈ early, StandDownStep step) (gated : ChangesAfterGates (early ++ late)) :
    early = [] := by
  cases early with
  | nil => rfl
  | cons first rest =>
    have changes := (standsDown first List.mem_cons_self).changesUnit
    have before : gates ⊆ [] := gated [] first (rest ++ late) rfl changes
    cases before (List.mem_cons_self : Step.passedDryRun ∈ gates)

end Steps

section FromMarking

variable {config : Config} {unit : UnitEntry} {answers : Answers} {executed : List String}
  {record : Record} {steps : List Step} {payloadHash gitSha : String}

/-- The steps taken so far stay the first, and no row says that the unit was skipped. -/
def GoesOn (record : Record) (steps : List Step) (cycle : Cycle) : Prop :=
  steps <+: cycle.machine.steps ∧
    ∃ rows, cycle.record = record.logged rows ∧ ∀ row ∈ rows, ¬ SkipsAtGate row

/-- What has gone on goes on after more rows of other kinds and more steps. -/
theorem GoesOn.later {cycle after : Cycle} (goesOn : GoesOn record steps cycle)
    (logs : ∃ rows, after.record = cycle.record.logged rows ∧ ∀ row ∈ rows, ¬ SkipsAtGate row)
    (longer : cycle.machine.steps <+: after.machine.steps) : GoesOn record steps after := by
  obtain ⟨first, rows, isRows, others⟩ := goesOn
  obtain ⟨more, isMore, othersMore⟩ := logs
  refine ⟨first.trans longer, rows ++ more, ?_, ?_⟩
  · rw [isMore, isRows]
    simp [Record.logged, List.foldl_append]
  · intro row member
    exact (List.mem_append.mp member).elim (others row) (othersMore row)

theorem GoesOn.stepped {cycle after : Cycle} (goesOn : GoesOn record steps cycle)
    (same : after.record = cycle.record) (longer : cycle.machine.steps <+: after.machine.steps) :
    GoesOn record steps after :=
  goesOn.later ⟨[], same, by simp⟩ longer

theorem Leaves.longer {allowed : Step → Prop} {before after : Cycle}
    (leaves : Leaves allowed before after) : before.machine.steps <+: after.machine.steps := by
  obtain ⟨more, isMore, -⟩ := leaves.steps
  exact ⟨more, isMore.symm⟩

theorem not_skipsAtGate_of_failure {row : Activity} (fails : row.outcome.isFailure = true) :
    ¬ SkipsAtGate row := by
  rintro (isSkip | ⟨isSkip, -⟩)
  · rw [isSkip] at fails
    cases fails
  · rw [isSkip] at fails
    cases fails

theorem Logs.others {hostname : String} {holds : Activity → Prop} {before after : Cycle}
    (logs : Logs hostname holds before after) (keeps : ∀ row, holds row → ¬ SkipsAtGate row) :
    ∃ rows, after.record = before.record.logged rows ∧ ∀ row ∈ rows, ¬ SkipsAtGate row := by
  obtain ⟨row, isRow, -, holdsRow⟩ := logs
  exact ⟨[row], isRow, by simpa using keeps row holdsRow⟩

theorem Settles.others {hostname : String} {goesOn : Prop} {ok : Bool} {before after : Cycle}
    (settles : Settles hostname before goesOn ok after) :
    ∃ rows, after.record = before.record.logged rows ∧ ∀ row ∈ rows, ¬ SkipsAtGate row := by
  rcases settles with ⟨-, -, same⟩ | ⟨-, -, logs⟩
  · exact ⟨[], same, by simp⟩
  · exact logs.others fun row failure => not_skipsAtGate_of_failure failure.1

theorem Executed.others {hostname : String} {ok : Bool} {before after : Cycle}
    (executed : Executed hostname answers before ok after) :
    ∃ rows, after.record = before.record.logged rows ∧ ∀ row ∈ rows, ¬ SkipsAtGate row := by
  rcases executed with ⟨-, -, same⟩ | ⟨-, -, -, logs⟩ | ⟨-, -, -, logs⟩
  · exact ⟨[], same, by simp⟩
  · apply logs.others
    rintro row ⟨isSkip, isHeld⟩ (isOutside | ⟨-, reason⟩)
    · cases isSkip.symm.trans isOutside
    · rw [isHeld] at reason
      revert reason
      decide
  · exact logs.others fun row failure => not_skipsAtGate_of_failure failure.1

theorem transfer_goesOn :
    Preserves .reliable (GoesOn record steps) (transfer unit answers payloadHash gitSha) := by
  intro cycle goesOn
  have started : cycle.machine.steps <+: cycle.transferring.machine.steps :=
    List.prefix_append _ _
  apply transfer_meets.mono
  · rintro ok after ⟨settles, leaves⟩
    exact goesOn.later settles.others (started.trans leaves.longer)
  · rintro after ⟨⟨-, same⟩, leaves⟩
    exact goesOn.stepped same (started.trans leaves.longer)

theorem execute_goesOn :
    Preserves .reliable (GoesOn record steps) (execute unit answers payloadHash gitSha) := by
  intro cycle goesOn
  apply execute_meets.mono
  · rintro ok after ⟨executed, leaves⟩
    exact goesOn.later executed.others leaves.longer
  · rintro after ⟨⟨-, same⟩, leaves⟩
    exact goesOn.stepped same leaves.longer

theorem smoke_goesOn {modules : List String} :
    Preserves .reliable (GoesOn record steps) (smoke unit answers modules payloadHash gitSha) := by
  intro cycle goesOn
  apply smoke_meets.mono
  · rintro ok after ⟨settles, leaves⟩
    exact goesOn.later settles.others leaves.longer
  · rintro after ⟨⟨-, same⟩, leaves⟩
    exact goesOn.stepped same leaves.longer

theorem writeAvailability_goesOn (sent : Sent) (availability : Availability) :
    Preserves .reliable (GoesOn record steps) (writeAvailability answers sent availability) := by
  apply Preserves.bind
  · apply Preserves.update
    intro cycle goesOn
    refine goesOn.stepped rfl ?_
    unfold Machine.sendAvailability
    split
    · exact List.prefix_append _ _
    · exact List.prefix_refl _
  · exact fun _ => .require _ _

theorem executePhases_goesOn : Preserves .reliable (GoesOn record steps)
    (executePhases unit answers executed payloadHash gitSha) := by
  have finished : Preserves .reliable (GoesOn record steps)
      (logRow unit .ok "updated" payloadHash gitSha) := by
    apply Preserves.update
    intro cycle goesOn
    refine goesOn.later ⟨[⟨unit.hostname, .ok, "updated", payloadHash, gitSha⟩], rfl, ?_⟩
      (List.prefix_refl _)
    simp [SkipsAtGate]
  refine .bind (.update fun _ => id) fun _ => .bind execute_goesOn fun _ => .ite ?_ ?_
  · refine .bind smoke_goesOn fun _ => .ite ?_ (.pure ())
    exact .bind (writeAvailability_goesOn _ _) fun _ => .bind (.update fun _ => id) fun _ => finished
  · refine .bind (.query _) fun _ => .ite ?_ (.pure ())
    exact .bind (writeAvailability_goesOn _ _) fun _ => .update fun _ => id

theorem transferPhases_goesOn : Preserves .reliable (GoesOn record steps)
    (transferPhases config unit answers executed payloadHash gitSha) := by
  refine .bind (writeAvailability_goesOn _ _) fun _ => .bind (.update fun _ => id) fun _ => ?_
  exact .bind transfer_goesOn fun _ => .ite executePhases_goesOn (.pure ())

end FromMarking

section WholeCycle

variable (config : Config) (unit : UnitEntry) (answers : Answers) (record : Record)
  (availability : AvailabilityFile) (services : List Service)

/-- A cycle comes to the gates without a step exactly when it stands nothing down. -/
theorem atGates_steps :
    ((Cycle.start record availability services).atGates answers).machine.steps = [] ↔
      (answers.reachesStandDown → answers.standsNothingDown ⟨availability, services, []⟩) := by
  unfold Cycle.atGates
  split
  · rename_i reaches
    obtain ⟨-, more, isMore, -, none⟩ :=
      standDownScript_steps answers.standDown ⟨availability, services, []⟩
    have isScript : (standDownScript answers.standDown ⟨availability, services, []⟩).steps = more :=
      isMore
    constructor
    · intro isEmpty _
      exact none.mp (isScript.symm.trans isEmpty)
    · intro nothing
      exact isScript.trans (none.mpr (nothing reaches))
  · rename_i stops
    exact ⟨fun _ reaches => absurd reaches stops, fun _ => rfl⟩

/-- Where a cycle ends that got to the marking, and where one that stopped on the way. -/
theorem cycleEnd_goesOn :
    Arrives (answers.reachesMarking config unit)
      (Closed answers (GoesOn record.checked
        (((Cycle.start record availability services).atGates answers).machine.steps ++ gates)))
      record.checked ((Cycle.start record availability services).atGates answers)
      (cycleEnd config unit answers record availability services) := by
  apply Meets.ended
  apply processUnit_gates
  intro _ _ _ _ payloadHash gitSha cycle has same
  apply transferPhases_goesOn
  exact ⟨has.steps ▸ List.prefix_refl _, [], same, by simp⟩

/-- A cycle changes the unit only when it is allowed to exactly when it does not get to the
stand-down or the stand-down finds nothing to remove. -/
theorem changes_when_allowed_iff :
    ChangesWhenAllowed config
        (newRows record (cycleEnd config unit answers record availability services).record)
        (cycleEnd config unit answers record availability services).machine.steps ↔
      (answers.reachesStandDown → answers.standsNothingDown ⟨availability, services, []⟩) := by
  rw [← atGates_steps answers record availability services]
  have standsDown := (atGates_machine answers record availability services).2
  have arrives := cycleEnd_goesOn config unit answers record availability services
  generalize (Cycle.start record availability services).atGates answers = before at *
  generalize cycleEnd config unit answers record availability services = after at *
  rcases arrives with ⟨reaches, middle, late, ⟨⟨more, isMore⟩, rows, isRows, others⟩, isLate,
    fails, isReleased⟩ | ⟨-, passed, rows, isGates, has, isRows, -⟩
  · obtain ⟨-, finalSteps⟩ := released_machine answers middle
    obtain ⟨rest, isSteps⟩ : ∃ rest,
        after.machine.steps = before.machine.steps ++ (gates ++ rest) := by
      rw [isReleased, finalSteps, ← isMore, List.append_assoc, List.append_assoc]
      exact ⟨_, rfl⟩
    have isLogged : after.record = record.checked.logged (rows ++ late) := by
      rw [isLate, isRows]
      simp [Record.logged, List.foldl_append]
    rw [isSteps, isLogged, newRows_logged]
    constructor
    · exact fun allowed => eq_nil_of_changesAfterGates standsDown allowed.gated
    · intro isEmpty
      rw [isEmpty, List.nil_append]
      refine ⟨changesAfterGates_append rest, fun isDry => ?_, ?_⟩
      · cases isDry.symm.trans reaches.1.1.2.2.1
      · rintro ⟨row, member, skips⟩
        rcases List.mem_append.mp member with member | member
        · exact absurd skips (others row member)
        · exact absurd skips (not_skipsAtGate_of_failure (fails row member))
  · rw [has.steps]
    constructor
    · exact fun allowed => eq_nil_of_changesAfterGates standsDown allowed.gated
    · intro isEmpty
      rw [isEmpty, List.nil_append]
      have unchanged : ∀ step ∈ passed, step.changesUnit = false := fun step member =>
        changesUnit_of_gates (isGates.subset member)
      exact ⟨changesAfterGates_of_unchanged unchanged, fun _ => unchanged, fun _ => unchanged⟩

end WholeCycle

/-- A dry run. -/
def Config.dry : Config :=
  { Config.plain with dryRun := true }

/-- A dry run of a unit whose service is running stops and deletes it. -/
theorem dryRun_stands_down : ¬ ChangesWhenAllowed Config.dry
    (newRows ⟨[], [], 0, 0⟩ (cycleEnd Config.dry ⟨"mast04", none, none, false⟩ .ordinary
      ⟨[], [], 0, 0⟩ .absent [⟨"mast-unit", true, true⟩]).record)
    (cycleEnd Config.dry ⟨"mast04", none, none, false⟩ .ordinary ⟨[], [], 0, 0⟩ .absent
      [⟨"mast-unit", true, true⟩]).machine.steps := by
  intro allowed
  have stops := allowed.dryRun rfl (.stopService "mast-unit") (by decide +kernel)
  cases stops

end MastProvisioning.Driver
