import MastProvisioning.Driver.Gates

/-!
# The availability file over one cycle

The driver marks the unit unavailable, holds the lease, and hands the unit back with
a last write. Neither write's exit status is looked at, and a marking that took
effect though its call raised is never taken back. `keepsProtocol_iff` says for
which calls the file ends as it should, and that transfer and execute are reached
only under the lease.
-/

namespace MastProvisioning.Driver

open MastProvisioning.Collections MastProvisioning.Semantics MastProvisioning.Unit
open MastProvisioning.Semantics.Command

/-- The file says that the unit is taken, by this run. -/
def AvailabilityFile.HeldBy (runId : String) : AvailabilityFile → Prop
  | .record availability => availability.available = false ∧ availability.leaseOwner = some runId
  | _ => False

/-- The marking took effect on the unit. -/
def Marked (runId : String) (machine : Machine) : Prop :=
  ∃ payloadHash, .writeAvailability (.provisioning runId payloadHash) ∈ machine.steps

/-- The rows a cycle logged. -/
def newRows (before after : Record) : List Activity :=
  after.activity.drop before.activity.length

/-- The unit finished, or was refused because another run holds the lease. -/
def HandedBack (rows : List Activity) : Prop :=
  ∃ row ∈ rows, HandsBack row

/-- What a cycle owes the availability file: the lease while it transfers and
executes, and at its end the file as it was when the marking never reached the unit,
an available unit when it finished or was refused, and otherwise the released record
when that was written, but not the record of the lease. -/
structure KeepsProtocol (runId : String) (initial : AvailabilityFile) (rows : List Activity)
    (machine : Machine) : Prop where
  reached : ∀ found, .transfer found ∈ machine.steps ∨ .execute found ∈ machine.steps →
    found.HeldBy runId
  unmarked : ¬ Marked runId machine → machine.availability = initial
  handedBack : Marked runId machine → HandedBack rows → machine.availability = .record .returned
  released : Marked runId machine → ¬ HandedBack rows →
    .writeAvailability .released ∈ machine.steps → machine.availability = .record .released
  notLeased : Marked runId machine → ¬ HandedBack rows → ∀ payloadHash,
    machine.availability ≠ .record (.provisioning runId payloadHash)

/-- How the phases after the marking close. -/
inductive Closing
  | finished
  | refused
  | failed
deriving DecidableEq, Repr

/-- How they close, by what comes of the transfer, the execute and the smoke check. -/
def Answers.closes (unit : UnitEntry) (executed : List String) (answers : Answers) :
    Closing → Prop
  | .finished => answers.transfers unit ∧ answers.executes 0 ∧ answers.smokes executed
  | .refused => answers.transfers unit ∧ answers.refuses
  | .failed => ¬ (answers.transfers unit ∧
      (answers.executes 0 ∧ answers.smokes executed ∨ answers.refuses))

/-- The write that hands the unit back, when one is made. -/
def Answers.sent (answers : Answers) : Closing → Option Sent
  | .finished => some answers.returned
  | .refused => some answers.handedBack
  | .failed => none

/-- The last write of the availability file that takes effect after the marking: the
release, made unless the unit was handed back, or else the handing back. -/
def Answers.last (answers : Answers) (closing : Closing) : Option Availability :=
  match answers.sent closing with
  | some sent =>
    if !sent.returned && answers.release.landed then some .released
    else if sent.landed then some .returned
    else none
  | none => if answers.release.landed then some .released else none

/-- The marking call returns exactly when the marking took effect, and then a last
write takes effect, the handing back when the unit was refused. (When the marking
returned without effect although the file already named this run, no later write
may take effect.) -/
def Answers.WritesLand (config : Config) (unit : UnitEntry) (answers : Answers)
    (initial : AvailabilityFile) : Prop :=
  answers.reachesMarking config unit → ∀ file targetModules closing,
    answers.builds file → answers.decides config unit file targetModules →
    answers.closes unit (executedModules config unit targetModules) closing →
    (answers.marking.landed = true → answers.marking.returned = true ∧
      answers.last closing ≠ none ∧
      (closing = .refused → answers.last closing = some .returned)) ∧
    (answers.marking.landed = false → answers.marking.returned = true →
      initial.HeldBy config.runId ∧ answers.last closing = none)

/-- A step of the phases after the marking, the transfer's start apart. -/
def MarkedStep (found : AvailabilityFile) (step : Step) : Prop :=
  WriteStep step ∨ ExecuteStep found step ∨ step = .writeAvailability .returned

/-- What the phases after the marking leave, before the release. -/
structure LeftBy (unit : UnitEntry) (executed : List String) (answers : Answers) (record : Record)
    (marked : Cycle) (closing : Closing) (after : Cycle) : Prop where
  closes : answers.closes unit executed closing
  availability : after.machine.availability =
    if (answers.sent closing).any Sent.landed then .record .returned
    else marked.machine.availability
  leaseHeld : after.leaseHeld = !(answers.sent closing).any Sent.returned
  rows : ∃ rows, after.record = record.logged rows ∧
    (HandedBack rows ↔ closing = .refused ∨ (closing = .finished ∧ answers.returned.returned = true))
  steps : ∃ more, after.machine.steps = marked.transferring.machine.steps ++ more ∧
    ∀ step ∈ more, MarkedStep marked.machine.availability step

section AfterMarking

variable {config : Config} {unit : UnitEntry} {answers : Answers} {executed : List String}
  {cycle marked middle : Cycle} {record : Record} {payloadHash gitSha : String}

theorem not_handedBack_nil : ¬ HandedBack [] := by
  rintro ⟨_, member, _⟩
  cases member

theorem handedBack_singleton {row : Activity} : HandedBack [row] ↔ HandsBack row := by
  simp [HandedBack]

/-- The phases that go wrong leave the marking as it is, and the lease held. -/
theorem LeftBy.failed
    (stops : ¬ (answers.transfers unit ∧
      (answers.executes 0 ∧ answers.smokes executed ∨ answers.refuses)))
    (leaves : Leaves (MarkedStep marked.machine.availability) marked.transferring middle)
    (held : marked.leaseHeld = true) (rows : List Activity)
    (isRows : middle.record = record.logged rows) (keeps : ¬ HandedBack rows) :
    LeftBy unit executed answers record marked .failed middle where
  closes := stops
  availability := leaves.availability
  leaseHeld := leaves.leaseHeld.trans held
  rows := ⟨rows, isRows, by simp [keeps]⟩
  steps := leaves.steps

/-- A write that hands the unit back, whether it takes effect and comes back or not. -/
theorem LeftBy.handing {closing : Closing} {sent : Sent} (isSent : answers.sent closing = some sent)
    (closes : answers.closes unit executed closing)
    (leaves : Leaves (MarkedStep marked.machine.availability) marked.transferring middle)
    {after : Cycle} (rows : List Activity) (isRows : after.record = record.logged rows)
    (handsBack : HandedBack rows ↔
      closing = .refused ∨ (closing = .finished ∧ answers.returned.returned = true))
    (isMachine : after.machine = middle.machine.sendAvailability sent .returned)
    (isLease : after.leaseHeld = !sent.returned) :
    LeftBy unit executed answers record marked closing after where
  closes := closes
  availability := by
    rw [isSent, isMachine, Machine.sendAvailability]
    cases landed : sent.landed with
    | true => simp [landed]
    | false =>
      have kept : middle.machine.availability = marked.machine.availability := leaves.availability
      simpa [landed] using kept
  leaseHeld := by rw [isSent, isLease]; rfl
  rows := ⟨rows, isRows, handsBack⟩
  steps := by
    obtain ⟨more, isMore, allowed⟩ := leaves.steps
    rw [isMachine, Machine.sendAvailability]
    cases sent.landed with
    | true =>
      refine ⟨more ++ [.writeAvailability .returned], by simp [isMore], fun step member => ?_⟩
      rcases List.mem_append.mp member with member | member
      · exact allowed step member
      · exact .inr (.inr (List.mem_singleton.mp member))
    | false => exact ⟨more, by simpa using isMore, allowed⟩

theorem executePhases_left (transfers : answers.transfers unit)
    (leaves : Leaves (MarkedStep marked.machine.availability) marked.transferring cycle)
    (held : marked.leaseHeld = true) (same : cycle.record = record) :
    Meets .reliable (executePhases unit answers executed payloadHash gitSha) cycle
      (fun _ after => ∃ closing, LeftBy unit executed answers record marked closing after)
      (fun after => ∃ closing, LeftBy unit executed answers record marked closing after) := by
  have found : cycle.machine.availability = marked.machine.availability := leaves.availability
  have continues {after : Cycle} (executes : Leaves (ExecuteStep cycle.machine.availability)
      { cycle with executeRefused := false } after) :
      Leaves (MarkedStep marked.machine.availability) marked.transferring after := by
    refine leaves.trans ⟨executes.availability, executes.leaseHeld, ?_⟩
    obtain ⟨more, isMore, allowed⟩ := executes.steps
    exact ⟨more, isMore, fun step member => .inr (.inl (found ▸ allowed step member))⟩
  refine .update_bind (Meets.bind (execute_meets.mono (fun _ _ => id) ?_) ?_)
  · rintro after ⟨⟨stops, quiet⟩, executes⟩
    refine ⟨.failed, .failed (fun closes => stops ?_) (continues executes) held []
      (quiet.trans same) not_handedBack_nil⟩
    exact closes.2.imp And.left id
  rintro ok middle ⟨verdict, executes⟩
  have before := continues executes
  rcases verdict with ⟨rfl, done, quiet⟩ | ⟨rfl, refuses, isRefused, row, isRow, _, isSkip⟩ |
    ⟨rfl, stops, kept, row, isRow, _, failure⟩
  · have unlogged : middle.record = record := quiet.trans same
    have notRefused : ¬ answers.refuses := by
      rintro ⟨held, _⟩
      exact absurd (Answers.executes_unique done held) (by decide)
    have untaken {after : Cycle} (smokes : Leaves (fun _ => False) middle after) :
        Leaves (MarkedStep marked.machine.availability) marked.transferring after :=
      before.trans (smokes.mono (by simp))
    refine Meets.bind (smoke_meets.mono (fun _ _ => id) ?_) ?_
    · rintro after ⟨⟨stops, quiet⟩, smokes⟩
      refine ⟨.failed, .failed (fun closes => ?_) (untaken smokes) held [] (quiet.trans unlogged)
        not_handedBack_nil⟩
      exact closes.2.elim (fun done => stops done.2) notRefused
    rintro passed last ⟨⟨rfl, passes, quiet⟩ | ⟨rfl, stops, row, isRow, _, failure⟩, smokes⟩
    · have finishes : answers.closes unit executed .finished := ⟨transfers, done, passes⟩
      refine writeAvailability_bind (fun returned => .update_bind (.update ⟨.finished, ?_⟩))
        fun missing => ⟨.finished, ?_⟩
      · refine .handing rfl finishes (untaken smokes)
          [⟨unit.hostname, .ok, "updated", payloadHash, gitSha⟩] ?_ ?_ rfl (by simp [returned])
        · simp [Record.logged, RowOutcome.isFailure, quiet, unlogged]
        · simp [handedBack_singleton, HandsBack, returned]
      · refine .handing rfl finishes (untaken smokes) [] (quiet.trans unlogged) ?_ rfl ?_
        · simp [not_handedBack_nil, missing]
        · have kept := (untaken smokes).leaseHeld
          simp [missing, kept, Cycle.transferring, held]
    · refine .pure ⟨.failed, .failed (fun closes => ?_) (untaken smokes) held [row] ?_ ?_⟩
      · exact closes.2.elim (fun done => stops done.2) notRefused
      · rw [isRow, unlogged]
      · rw [handedBack_singleton]
        exact not_handsBack_of_failure failure.1
  · have refused : answers.closes unit executed .refused := ⟨transfers, refuses⟩
    have isHanding : HandedBack [row] ↔ Closing.refused = .refused ∨
        (Closing.refused = .finished ∧ answers.returned.returned = true) := by
      simp [handedBack_singleton, HandsBack, isSkip]
    refine .query_bind (.ite (fun _ => ?_) fun notRefused => absurd isRefused notRefused) (by simp)
    refine writeAvailability_bind (fun returned => .update ⟨.refused, ?_⟩)
      fun missing => ⟨.refused, ?_⟩
    · exact .handing rfl refused before [row] (by simp [isRow, same]) isHanding rfl
        (by simp [returned])
    · refine .handing rfl refused before [row] (by simp [isRow, same]) isHanding rfl ?_
      have kept := before.leaseHeld
      simp [missing, kept, Cycle.transferring, held]
  · refine .query_bind (.ite (fun isRefused => ?_) fun _ => .pure ⟨.failed, ?_⟩) (by simp)
    · cases kept.symm.trans isRefused
    · refine .failed (fun closes => stops (closes.2.imp And.left id)) before held [row] ?_ ?_
      · rw [isRow, same]
      · rw [handedBack_singleton]
        exact not_handsBack_of_failure failure.1

/-- The unit after the marking call. -/
def Cycle.marking (config : Config) (answers : Answers) (payloadHash : String) (cycle : Cycle) :
    Cycle :=
  { cycle with machine :=
      cycle.machine.sendAvailability answers.marking (.provisioning config.runId payloadHash) }

/-- What the phases from the marking on leave: the marking call raised, or they close
in one of the three ways. -/
def LeftFromMarking (config : Config) (unit : UnitEntry) (executed : List String)
    (answers : Answers) (record : Record) (before after : Cycle) : Prop :=
  ∃ payloadHash cycle, Passed gates before cycle ∧
    ((answers.marking.returned = false ∧ after.record = record ∧
        after.leaseHeld = cycle.leaseHeld ∧
        after.machine = (cycle.marking config answers payloadHash).machine) ∨
      (answers.marking.returned = true ∧ ∃ closing, LeftBy unit executed answers record
        { cycle.marking config answers payloadHash with leaseHeld := true } closing after))

theorem transferPhases_left {before : Cycle} :
    FromMarking config unit answers executed record before
      (LeftFromMarking config unit executed answers record before) := by
  intro payloadHash gitSha cycle has same
  let marked : Cycle := { cycle.marking config answers payloadHash with leaseHeld := true }
  have closed (marks : answers.marking.returned = true) {after : Cycle}
      (left : ∃ closing, LeftBy unit executed answers record marked closing after) :
      LeftFromMarking config unit executed answers record before after :=
    ⟨payloadHash, cycle, has, .inr ⟨marks, left⟩⟩
  have widen {after : Cycle} (leaves : Leaves WriteStep marked.transferring after) :
      Leaves (MarkedStep marked.machine.availability) marked.transferring after :=
    leaves.mono fun _ => .inl
  refine writeAvailability_bind (fun marks => .update_bind ?_) fun missing => ?_
  · refine Meets.bind (transfer_meets.mono (fun _ _ => id) ?_) ?_
    · rintro after ⟨⟨stops, quiet⟩, leaves⟩
      exact closed marks ⟨.failed, .failed (fun closes => stops closes.1) (widen leaves) rfl []
        (quiet.trans same) not_handedBack_nil⟩
    · rintro ok middle ⟨⟨rfl, transfers, quiet⟩ | ⟨rfl, stops, row, isRow, _, failure⟩, leaves⟩
      · exact (executePhases_left transfers (widen leaves) rfl (quiet.trans same)).mono
          (fun _ _ => closed marks) fun _ => closed marks
      · refine .pure (closed marks ⟨.failed, .failed (fun closes => stops closes.1) (widen leaves) rfl
          [row] ?_ ?_⟩)
        · rw [isRow]
          exact congrArg (·.logged [row]) same
        · rw [handedBack_singleton]
          exact not_handsBack_of_failure failure.1
  · exact ⟨payloadHash, cycle, has, .inl ⟨missing, same, rfl, rfl⟩⟩

end AfterMarking

/-- What one cycle leaves of the unit and of the driver's record. -/
def cycleEnd (config : Config) (unit : UnitEntry) (answers : Answers) (record : Record)
    (availability : AvailabilityFile) (services : List Service) : Cycle :=
  ((processUnit config unit answers).run (.start record availability services)).2

/-- A step on the way to the marking. -/
def GateStep (step : Step) : Prop :=
  StandDownStep step ∨ step ∈ gates

section WholeCycle

variable {config : Config} {unit : UnitEntry} {answers : Answers} {executed : List String}
  {record : Record} {availability : AvailabilityFile} {services : List Service}
  {before after cycle : Cycle} {passed : List Step}

theorem GateStep.not_protocol {step : Step} (isGate : GateStep step) :
    (∀ found, step ≠ .transfer found) ∧ (∀ found, step ≠ .execute found) ∧
      ∀ written, step ≠ .writeAvailability written := by
  rcases isGate with ⟨_, rfl | rfl⟩ | isGate
  · simp
  · simp
  · rcases List.mem_cons.mp isGate with rfl | isLast
    · simp
    · obtain rfl := List.mem_singleton.mp isLast
      simp

/-- The stand-down leaves the availability file alone. -/
theorem atGates_machine (answers : Answers) (record : Record) (availability : AvailabilityFile)
    (services : List Service) :
    ((Cycle.start record availability services).atGates answers).machine.availability =
        availability ∧
      ∀ step ∈ ((Cycle.start record availability services).atGates answers).machine.steps,
        StandDownStep step := by
  unfold Cycle.atGates
  split
  · obtain ⟨same, more, isMore, allowed, _⟩ := standDownScript_steps answers.standDown
      (Cycle.start record availability services).machine
    refine ⟨same, fun step member => allowed step ?_⟩
    have isScript : step ∈ (standDownScript answers.standDown
      (Cycle.start record availability services).machine).steps := member
    rw [isMore] at isScript
    simpa [Cycle.start] using isScript
  · exact ⟨rfl, fun step member => by cases member⟩

/-- Up to the marking nothing of the protocol has happened. -/
theorem Passed.gateSteps
    (has : Passed passed ((Cycle.start record availability services).atGates answers) cycle)
    (isGates : passed <+: gates) :
    cycle.machine.availability = availability ∧ ∀ step ∈ cycle.machine.steps, GateStep step := by
  obtain ⟨same, standDown⟩ := atGates_machine answers record availability services
  refine ⟨has.availability.trans same, fun step member => ?_⟩
  rw [has.steps] at member
  rcases List.mem_append.mp member with member | member
  · exact .inl (standDown step member)
  · exact .inr (isGates.subset member)

/-- The file after the marking call. -/
def markedFile (config : Config) (answers : Answers) (availability : AvailabilityFile)
    (payloadHash : String) : AvailabilityFile :=
  if answers.marking.landed then .record (.provisioning config.runId payloadHash)
  else availability

/-- What a cycle comes to whose marking call returned. -/
structure CycleCloses (config : Config) (answers : Answers) (initial : AvailabilityFile)
    (record : Record) (payloadHash : String) (closing : Closing) (after : Cycle) : Prop where
  file : after.machine.availability = ((answers.last closing).map AvailabilityFile.record).getD
    (markedFile config answers initial payloadHash)
  transfers : .transfer (markedFile config answers initial payloadHash) ∈ after.machine.steps
  found : ∀ found, .transfer found ∈ after.machine.steps ∨ .execute found ∈ after.machine.steps →
    found = markedFile config answers initial payloadHash
  marked : Marked config.runId after.machine ↔ answers.marking.landed = true
  released : .writeAvailability .released ∈ after.machine.steps →
    answers.last closing = some .released
  rows : HandedBack (newRows record after.record) ↔
    closing = .refused ∨ (closing = .finished ∧ answers.returned.returned = true)

theorem newRows_logged {rows : List Activity} :
    newRows record (record.checked.logged rows) = rows := by
  rw [newRows, Record.logged_activity]
  exact List.drop_left

theorem handedBack_append {rows : List Activity} {more : List Activity}
    (fails : ∀ row ∈ more, row.outcome.isFailure = true) :
    HandedBack (rows ++ more) ↔ HandedBack rows := by
  constructor
  · rintro ⟨row, member, handsBack⟩
    rcases List.mem_append.mp member with member | member
    · exact ⟨row, member, handsBack⟩
    · exact absurd handsBack (not_handsBack_of_failure (fails row member))
  · rintro ⟨row, member, handsBack⟩
    exact ⟨row, List.mem_append_left more member, handsBack⟩

/-- The marking as a step, when it takes effect. -/
def markingSteps (config : Config) (answers : Answers) (payloadHash : String) : List Step :=
  if answers.marking.landed then [.writeAvailability (.provisioning config.runId payloadHash)] else []

theorem marking_machine (config : Config) (answers : Answers) (cycle : Cycle)
    (payloadHash : String) :
    (cycle.marking config answers payloadHash).machine.availability =
        markedFile config answers cycle.machine.availability payloadHash ∧
      (cycle.marking config answers payloadHash).machine.steps =
        cycle.machine.steps ++ markingSteps config answers payloadHash := by
  unfold Cycle.marking markedFile markingSteps Machine.sendAvailability
  cases answers.marking.landed <;> simp

/-- The release as a step, when it is made and takes effect. -/
theorem released_machine (answers : Answers) (middle : Cycle) :
    (middle.released answers).availability =
        (if middle.leaseHeld && answers.release.landed then .record .released
          else middle.machine.availability) ∧
      (middle.released answers).steps = middle.machine.steps ++
        (if middle.leaseHeld && answers.release.landed then [.writeAvailability .released] else []) := by
  unfold Cycle.released Machine.sendAvailability
  cases middle.leaseHeld <;> cases answers.release.landed <;> simp

/-- A step of the phases after the marking that writes the availability file hands
the unit back; one that starts the execute finds the file as it was. -/
theorem MarkedStep.of_execute {found other : AvailabilityFile}
    (isMarked : MarkedStep found (.execute other)) : other = found := by
  rcases isMarked with ⟨_, isWrite⟩ | (isExecute | ⟨_, isWrite⟩ | isTask | isTask) | isWrite
  · cases isWrite
  · exact Step.execute.inj isExecute
  · cases isWrite
  · cases isTask
  · cases isTask
  · cases isWrite

theorem MarkedStep.not_transfer {found other : AvailabilityFile} :
    ¬ MarkedStep found (.transfer other) := by
  rintro (⟨_, isWrite⟩ | (isExecute | ⟨_, isWrite⟩ | isTask | isTask) | isWrite)
  · cases isWrite
  · cases isExecute
  · cases isWrite
  · cases isTask
  · cases isTask
  · cases isWrite

theorem MarkedStep.of_write {found : AvailabilityFile} {written : Availability}
    (isMarked : MarkedStep found (.writeAvailability written)) : written = .returned := by
  rcases isMarked with ⟨_, isWrite⟩ | (isExecute | ⟨_, isWrite⟩ | isTask | isTask) | isWrite
  · cases isWrite
  · cases isExecute
  · cases isWrite
  · cases isTask
  · cases isTask
  · exact Step.writeAvailability.inj isWrite

theorem provisioning_ne_released {runId payloadHash : String} :
    Availability.provisioning runId payloadHash ≠ .released := by
  simp [Availability.provisioning, Availability.released]

/-- The last write, by what was sent: the release while the lease is held. -/
theorem last_eq {closing : Closing} {held : Bool}
    (isHeld : held = !(answers.sent closing).any Sent.returned) :
    answers.last closing = if held && answers.release.landed then some .released
      else if (answers.sent closing).any Sent.landed then some .returned else none := by
  subst isHeld
  unfold Answers.last
  cases answers.sent closing with
  | none => simp
  | some sent => simp

/-- What the phases after the marking leave, and the release makes of it. -/
theorem LeftBy.cycleCloses {payloadHash : String} {closing : Closing} {marked middle : Cycle}
    {rows : List Activity} {early : List Step}
    (left : LeftBy unit executed answers record.checked marked closing middle)
    (isMarked : marked.machine.availability = markedFile config answers availability payloadHash)
    (markedSteps : marked.machine.steps = early ++ markingSteps config answers payloadHash)
    (isGate : ∀ step ∈ early, GateStep step)
    (isRows : after.record = middle.record.logged rows)
    (fails : ∀ row ∈ rows, row.outcome.isFailure = true)
    (isReleased : after.machine = middle.released answers) :
    CycleCloses config answers availability record payloadHash closing after := by
  obtain ⟨finalFile, finalSteps⟩ := released_machine answers middle
  obtain ⟨logged, isLogged, handsBack⟩ := left.rows
  obtain ⟨more, isMore, allowed⟩ := left.steps
  rw [isMarked] at allowed
  have isLast := last_eq left.leaseHeld
  -- every step of the cycle, in order
  have steps : after.machine.steps = early ++ markingSteps config answers payloadHash ++
      [.transfer (markedFile config answers availability payloadHash)] ++ more ++
      (if middle.leaseHeld && answers.release.landed then [.writeAvailability .released] else []) := by
    rw [isReleased, finalSteps, isMore, ← isMarked, ← markedSteps]
    rfl
  have kinds : ∀ step ∈ after.machine.steps, GateStep step ∨
      step ∈ markingSteps config answers payloadHash ∨
      step = .transfer (markedFile config answers availability payloadHash) ∨
      MarkedStep (markedFile config answers availability payloadHash) step ∨
      (step = .writeAvailability .released ∧
        (middle.leaseHeld && answers.release.landed) = true) := by
    intro step member
    rw [steps] at member
    simp only [List.mem_append, List.mem_singleton] at member
    rcases member with (((member | member) | member) | member) | member
    · exact .inl (isGate step member)
    · exact .inr (.inl member)
    · exact .inr (.inr (.inl member))
    · exact .inr (.inr (.inr (.inl (allowed step member))))
    · split at member
      · exact .inr (.inr (.inr (.inr ⟨List.mem_singleton.mp member, ‹_›⟩)))
      · cases member
  have marking {step : Step} (member : step ∈ markingSteps config answers payloadHash) :
      answers.marking.landed = true ∧
        step = .writeAvailability (.provisioning config.runId payloadHash) := by
    unfold markingSteps at member
    split at member
    · exact ⟨‹_›, List.mem_singleton.mp member⟩
    · cases member
  refine ⟨?_, by simp [steps], ?_, ⟨?_, ?_⟩, ?_, ?_⟩
  · rw [isReleased, finalFile, left.availability, isMarked, isLast]
    split
    · rfl
    · split <;> rfl
  · rintro other (member | member)
    · rcases kinds _ member with isGate | isMarking | isTransfer | isLater | ⟨isRelease, _⟩
      · exact absurd rfl (isGate.not_protocol.1 other)
      · cases (marking isMarking).2
      · exact Step.transfer.inj isTransfer
      · exact absurd isLater MarkedStep.not_transfer
      · cases isRelease
    · rcases kinds _ member with isGate | isMarking | isTransfer | isLater | ⟨isRelease, _⟩
      · exact absurd rfl (isGate.not_protocol.2.1 other)
      · cases (marking isMarking).2
      · cases isTransfer
      · exact isLater.of_execute
      · cases isRelease
  · rintro ⟨otherHash, member⟩
    rcases kinds _ member with isGate | isMarking | isTransfer | isLater | ⟨isRelease, _⟩
    · exact absurd rfl (isGate.not_protocol.2.2 _)
    · exact (marking isMarking).1
    · cases isTransfer
    · cases isLater.of_write
    · exact absurd (Step.writeAvailability.inj isRelease) provisioning_ne_released
  · intro landed
    exact ⟨payloadHash, by simp [steps, markingSteps, landed]⟩
  · intro member
    rcases kinds _ member with isGate | isMarking | isTransfer | isLater | ⟨_, isReleased⟩
    · exact absurd rfl (isGate.not_protocol.2.2 _)
    · have same := Step.writeAvailability.inj (marking isMarking).2
      exact absurd same.symm provisioning_ne_released
    · cases isTransfer
    · cases isLater.of_write
    · rw [isLast, if_pos isReleased]
  · have isFinal : after.record = record.checked.logged (logged ++ rows) := by
      rw [isRows, isLogged]
      simp [Record.logged, List.foldl_append]
    rw [isFinal, newRows_logged, handedBack_append fails, handsBack]

/-- A last write names no lease. -/
theorem last_leaseOwner {closing : Closing} {written : Availability}
    (isLast : answers.last closing = some written) : written.leaseOwner = none := by
  rw [last_eq rfl] at isLast
  split at isLast
  · obtain rfl := Option.some.inj isLast
    rfl
  · split at isLast
    · obtain rfl := Option.some.inj isLast
      rfl
    · cases isLast

/-- After a handing back that came back, no release is made. -/
theorem last_of_returned (returned : answers.returned.returned = true)
    (isLast : answers.last .finished ≠ none) : answers.last .finished = some .returned := by
  simp only [Answers.last, Answers.sent, returned] at isLast ⊢
  simpa using isLast

/-- A cycle whose phases after the marking closed keeps the protocol exactly when the
marking and the last write took effect. -/
theorem CycleCloses.protocol_iff {payloadHash : String} {closing : Closing}
    (closes : CycleCloses config answers availability record payloadHash closing after) :
    KeepsProtocol config.runId availability (newRows record after.record) after.machine ↔
      (answers.marking.landed = true → answers.last closing ≠ none ∧
        (closing = .refused → answers.last closing = some .returned)) ∧
      (answers.marking.landed = false →
        availability.HeldBy config.runId ∧ answers.last closing = none) := by
  cases landed : answers.marking.landed with
  | true =>
    have isMarked : Marked config.runId after.machine := closes.marked.mpr landed
    have file {written : Availability} (isLast : answers.last closing = some written) :
        after.machine.availability = .record written := by rw [closes.file, isLast]; rfl
    have leased : markedFile config answers availability payloadHash =
        .record (.provisioning config.runId payloadHash) := by rw [markedFile, if_pos landed]
    constructor
    · refine fun keeps => ⟨fun _ => ⟨fun isNone => ?_, fun isRefused => ?_⟩, by simp⟩
      · have unwritten := closes.file
        rw [isNone] at unwritten
        have isLease : after.machine.availability =
            .record (.provisioning config.runId payloadHash) := unwritten.trans leased
        by_cases handed : HandedBack (newRows record after.record)
        · cases isLease.symm.trans (keeps.handedBack isMarked handed)
        · exact keeps.notLeased isMarked handed payloadHash isLease
      · have isReturned := keeps.handedBack isMarked (closes.rows.mpr (.inl isRefused))
        rw [closes.file] at isReturned
        cases isLast : answers.last closing with
        | none =>
          rw [isLast] at isReturned
          cases leased.symm.trans isReturned
        | some written =>
          rw [isLast] at isReturned
          exact congrArg some (AvailabilityFile.record.inj isReturned)
    · rintro ⟨lands, _⟩
      obtain ⟨written, isRefused⟩ := lands rfl
      refine ⟨fun found reached => ?_, fun unmarked => absurd isMarked unmarked, fun _ handed => ?_,
        fun _ _ released => file (closes.released released), fun _ _ otherHash isLease => ?_⟩
      · rw [closes.found found reached, leased]
        exact ⟨rfl, rfl⟩
      · rcases closes.rows.mp handed with rfl | ⟨rfl, returned⟩
        · exact file (isRefused rfl)
        · exact file (last_of_returned returned written)
      · obtain ⟨last, isLast⟩ := Option.ne_none_iff_exists'.mp written
        have isWritten := file isLast
        obtain rfl := AvailabilityFile.record.inj (isLease.symm.trans isWritten)
        cases last_leaseOwner isLast
  | false =>
    have unmarked : ¬ Marked config.runId after.machine := fun isMarked => by
      cases landed.symm.trans (closes.marked.mp isMarked)
    have untouched : markedFile config answers availability payloadHash = availability := by
      simp [markedFile, landed]
    constructor
    · intro keeps
      have held := keeps.reached _ (.inl closes.transfers)
      rw [untouched] at held
      refine ⟨by simp, fun _ => ⟨held, ?_⟩⟩
      cases isLast : answers.last closing with
      | none => rfl
      | some written =>
        have same := keeps.unmarked unmarked
        rw [closes.file, isLast] at same
        rw [← same] at held
        cases (last_leaseOwner isLast).symm.trans held.2
    · rintro ⟨_, silent⟩
      obtain ⟨held, isLast⟩ := silent rfl
      refine ⟨fun found reached => ?_, fun _ => ?_, fun isMarked => absurd isMarked unmarked,
        fun isMarked => absurd isMarked unmarked, fun isMarked => absurd isMarked unmarked⟩
      · rw [closes.found found reached, untouched]
        exact held
      · rw [closes.file, isLast]
        exact untouched

/-- The phases after the marking close in some way. -/
theorem closes_total : ∃ closing, answers.closes unit executed closing := by
  by_cases transfers : answers.transfers unit
  · by_cases done : answers.executes 0 ∧ answers.smokes executed
    · exact ⟨.finished, transfers, done⟩
    · by_cases refuses : answers.refuses
      · exact ⟨.refused, transfers, refuses⟩
      · exact ⟨.failed, fun closes => closes.2.elim done refuses⟩
  · exact ⟨.failed, fun closes => transfers closes.1⟩

/-- They close in one way only. -/
theorem closes_unique {closing other : Closing} (closes : answers.closes unit executed closing)
    (also : answers.closes unit executed other) : closing = other := by
  have exclusive (done : answers.executes 0) (refuses : answers.refuses) : False :=
    absurd (Answers.executes_unique done refuses.1) (by decide)
  cases closing <;> cases other
  · rfl
  · exact absurd also.2 (exclusive closes.2.1)
  · exact absurd ⟨closes.1, .inl closes.2⟩ also
  · exact absurd closes.2 (exclusive also.2.1)
  · rfl
  · exact absurd ⟨closes.1, .inr closes.2⟩ also
  · exact absurd ⟨also.1, .inl also.2⟩ closes
  · exact absurd ⟨also.1, .inr also.2⟩ closes
  · rfl

/-- A cycle that never got to the marking keeps the protocol. -/
theorem keepsProtocol_of_gate {initial : AvailabilityFile} {rows : List Activity}
    {machine : Machine} {runId : String} (isInitial : machine.availability = initial)
    (isGate : ∀ step ∈ machine.steps, GateStep step) :
    KeepsProtocol runId initial rows machine := by
  have unmarked : ¬ Marked runId machine := fun ⟨_, member⟩ =>
    (isGate _ member).not_protocol.2.2 _ rfl
  refine ⟨?_, fun _ => isInitial, fun isMarked => absurd isMarked unmarked,
    fun isMarked => absurd isMarked unmarked, fun isMarked => absurd isMarked unmarked⟩
  rintro found (member | member)
  · exact absurd rfl ((isGate _ member).not_protocol.1 found)
  · exact absurd rfl ((isGate _ member).not_protocol.2.1 found)

/-- What a cycle leaves before the release, for the modules it decided on. -/
def LeftInCycle (config : Config) (unit : UnitEntry) (answers : Answers) (record : Record)
    (before middle : Cycle) : Prop :=
  ∃ file targetModules, answers.builds file ∧ answers.decides config unit file targetModules ∧
    LeftFromMarking config unit (executedModules config unit targetModules) answers record before
      middle

theorem cycleEnd_arrives (config : Config) (unit : UnitEntry) (answers : Answers)
    (record : Record) (availability : AvailabilityFile) (services : List Service) :
    Arrives (answers.reachesMarking config unit)
      (Closed answers (LeftInCycle config unit answers record.checked
        ((Cycle.start record availability services).atGates answers)))
      record.checked ((Cycle.start record availability services).atGates answers)
      (cycleEnd config unit answers record availability services) := by
  refine (processUnit_gates fun file targetModules decides builds payloadHash gitSha cycle has same => ?_).ended
  exact (transferPhases_left payloadHash gitSha cycle has same).mono
    (fun _ _ left => ⟨file, targetModules, builds, decides, left⟩)
    fun _ left => ⟨file, targetModules, builds, decides, left⟩

/-- A marking call that raised: the file is as it was exactly when the marking did not
take effect. -/
theorem keepsProtocol_of_raised {payloadHash : String} {rows : List Activity} {early : List Step}
    {machine : Machine} (fails : ¬ HandedBack rows)
    (isMarked : machine.availability = markedFile config answers availability payloadHash)
    (markedSteps : machine.steps = early ++ markingSteps config answers payloadHash)
    (isGate : ∀ step ∈ early, GateStep step) :
    KeepsProtocol config.runId availability rows machine ↔ answers.marking.landed = false := by
  cases landed : answers.marking.landed with
  | true =>
    refine ⟨fun keeps => ?_, by simp⟩
    have marked : Marked config.runId machine :=
      ⟨payloadHash, by simp [markedSteps, markingSteps, landed]⟩
    refine absurd ?_ (keeps.notLeased marked fails payloadHash)
    rw [isMarked, markedFile, if_pos landed]
  | false =>
    refine ⟨fun _ => rfl, fun _ => keepsProtocol_of_gate ?_ ?_⟩
    · rw [isMarked, markedFile, if_neg (by simp [landed])]
    · rw [markedSteps, markingSteps, if_neg (by simp [landed]), List.append_nil]
      exact isGate

/-- The availability file is kept by the protocol over one cycle when, and only when,
the marking call returns exactly when the marking took effect and a last write of the
right kind takes effect after it. -/
theorem keepsProtocol_iff (config : Config) (unit : UnitEntry) (answers : Answers)
    (record : Record) (availability : AvailabilityFile) (services : List Service) :
    KeepsProtocol config.runId availability
        (newRows record (cycleEnd config unit answers record availability services).record)
        (cycleEnd config unit answers record availability services).machine ↔
      answers.WritesLand config unit availability := by
  rcases cycleEnd_arrives config unit answers record availability services with
    ⟨reaches, middle, rows, ⟨file, targetModules, builds, decides, payloadHash, cycle, has, left⟩,
      isRows, fails, isReleased⟩ | ⟨stops, passed, rows, isGates, has, isRows, _⟩
  · obtain ⟨isFound, isGate⟩ := has.gateSteps (List.prefix_refl _)
    obtain ⟨isMarked, markedSteps⟩ := marking_machine config answers cycle payloadHash
    rw [isFound] at isMarked
    obtain ⟨closing, closes⟩ :
        ∃ closing, answers.closes unit (executedModules config unit targetModules) closing :=
      closes_total
    rcases left with ⟨missing, isRecord, isLease, isMachine⟩ | ⟨returned, closing, left⟩
    · have isFree : middle.leaseHeld = false :=
        isLease.trans (has.leaseHeld.trans (Cycle.atGates_leaseHeld answers _))
      have unreleased : (cycleEnd config unit answers record availability services).machine =
          (cycle.marking config answers payloadHash).machine := by
        rw [isReleased, Cycle.released, isFree, ← isMachine]
        rfl
      have onlyFails : ¬ HandedBack
          (newRows record (cycleEnd config unit answers record availability services).record) := by
        rw [isRows, isRecord, newRows_logged]
        rintro ⟨row, member, handsBack⟩
        exact not_handsBack_of_failure (fails row member) handsBack
      rw [unreleased, keepsProtocol_of_raised onlyFails isMarked markedSteps isGate]
      constructor
      · intro unlanded _ _ _ _ _ _ _
        exact ⟨fun landed => (by simp [unlanded] at landed), fun _ returned => by
          simp [missing] at returned⟩
      · intro lands
        by_contra landed
        have isLanded : answers.marking.landed = true := by simpa using landed
        have returned := ((lands reaches file targetModules closing builds decides closes).1 isLanded).1
        cases missing.symm.trans returned
    · have ends : CycleCloses config answers availability record payloadHash closing
          (cycleEnd config unit answers record availability services) :=
        left.cycleCloses isMarked markedSteps isGate isRows fails isReleased
      rw [ends.protocol_iff]
      constructor
      · rintro ⟨lands, silent⟩ _ otherFile otherModules other alsoBuilds alsoDecides alsoCloses
        obtain rfl := Answers.builds_unique builds alsoBuilds
        obtain rfl := Answers.decides_unique decides alsoDecides
        obtain rfl := closes_unique left.closes alsoCloses
        exact ⟨fun landed => ⟨returned, lands landed⟩, fun unlanded _ => silent unlanded⟩
      · intro lands
        have holds := lands reaches file targetModules closing builds decides left.closes
        exact ⟨fun landed => (holds.1 landed).2, fun unlanded => holds.2 unlanded returned⟩
  · obtain ⟨isFound, isGate⟩ := has.gateSteps isGates
    exact ⟨fun _ reaches => absurd reaches stops, fun _ => keepsProtocol_of_gate isFound isGate⟩

/-- A marking that takes effect though the call raises. -/
def lostResponse : Answers :=
  { Answers.ordinary with marking := ⟨true, false⟩ }

/-- Where such a cycle leaves a unit that was available. -/
def lostResponseEnd : Cycle :=
  cycleEnd Config.plain ⟨"mast04", none, none, false⟩ lostResponse ⟨[], [], 0, 0⟩
    (.record .returned) []

/-- The unit keeps the record of a lease that nobody holds. -/
theorem lostResponse_leased : ¬ KeepsProtocol Config.plain.runId (.record .returned)
    (newRows ⟨[], [], 0, 0⟩ lostResponseEnd.record) lostResponseEnd.machine := by
  intro keeps
  have isMarked : Marked Config.plain.runId lostResponseEnd.machine := ⟨"built", by decide +kernel⟩
  have notHanded : ¬ HandedBack (newRows ⟨[], [], 0, 0⟩ lostResponseEnd.record) := by
    have isRow : newRows ⟨[], [], 0, 0⟩ lostResponseEnd.record =
        [⟨"mast04", .fail, "exception:RuntimeError", "built", "sha"⟩] := by decide +kernel
    rw [isRow, handedBack_singleton]
    exact not_handsBack_of_failure rfl
  exact keeps.notLeased isMarked notHanded "built" (by decide +kernel)

end WholeCycle

end MastProvisioning.Driver
