import MastProvisioning.Driver.AvailabilityProtocol
import MastProvisioning.Driver.Accounting
import MastProvisioning.Tools.ManifestReaders

/-!
# What the driver reads of a pull

The pull script prints its result as JSON behind a marker; what comes back may be any
text. `_transfer` takes the first line with the marker and lets nothing pass that does
not say that the copy is complete and as large as what was measured. It asks of a count
only that it is an `int`, which `true` and `false` are as well.

The JSON parser and what Python prints for a value are parameters.
-/

namespace MastProvisioning.Driver

open MastProvisioning.Collections MastProvisioning.Semantics
open MastProvisioning.Semantics.Command

/-- A JSON value as Python has it. -/
inductive Json
  | null
  | bool (value : Bool)
  | int (value : Int)
  | float (text : String) (isZero : Bool)
  | text (value : String)
  | list (items : List Json)
  | object (fields : List (String × Json))

namespace Json

/-- The truth value of a value. -/
def truthy : Json → Bool
  | null => false
  | bool value => value
  | int value => value ≠ 0
  | float _ isZero => !isZero
  | text value => value ≠ ""
  | list items => !items.isEmpty
  | object fields => !fields.isEmpty

/-- A value that can be a key of a dictionary. -/
def hashable : Json → Bool
  | list _ | object _ => false
  | _ => true

/-- `dict.get`. -/
def field (fields : List (String × Json)) (key : String) : Json :=
  (OrderedDict.get? id (pythonDict fields) key).getD null

/-- The number of an `isinstance(value, int)`: a truth value is one. -/
def asInt : Json → Option Int
  | bool value => some (if value then 1 else 0)
  | int value => some value
  | _ => none

/-- A text, if the value is one. -/
def asText : Json → Option String
  | text value => some value
  | _ => none

/-- `value is True`. -/
def isTrue : Json → Bool
  | bool value => value
  | _ => false

end Json

/-- What `json.loads` does with a text. -/
inductive Parsed
  | value (json : Json)
  | undecodable
  /-- It raises something other than a `JSONDecodeError`. -/
  | raised

section Reading

variable (parse : List Char → Parsed) (print : Json → String)

/-- `_parse_json_or_none`; `none` when it raises. -/
def parseJsonOrNone (text : List Char) : Option Json :=
  let stripped := Tools.ManifestReaders.Report.strip text
  if stripped.isEmpty then some .null
  else
    match parse (if stripped.head? = some '\uFEFF' then stripped.tail else stripped) with
    | .value json => some json
    | .undecodable => some .null
    | .raised => none

/-- The marker of the pull script's result. -/
def pullMarker : List Char := "PULLRESULT ".toList

/-- What is behind the marker in the first line that starts with it. -/
def markerLine (marker out : List Char) : Option (List Char) :=
  ((Tools.ManifestReaders.Report.splitlines out).find? fun line =>
    marker.isPrefixOf line).map fun line => line.drop marker.length

/-- `_marker_json`; `none` when it raises. -/
def markerJson (marker out : List Char) : Option Json :=
  match markerLine marker out with
  | some line => parseJsonOrNone parse line
  | none => some .null

/-- The fields `_transfer` reads of an object. -/
def readResult (fields : List (String × Json)) : PullResult where
  outcome := (Json.field fields "outcome").asText
  rc := print (Json.field fields "rc")
  landedBytes := (Json.field fields "landed_bytes").asInt
  landedFiles := (Json.field fields "landed_files").asInt
  completed := (Json.field fields "completed").isTrue

/-- What the pull comes to when the unit printed `out`. A value without `get` and a key
that cannot be looked up raise. -/
def pullReply (size : Int × Int) (out : List Char) : Pull :=
  match markerJson parse pullMarker out with
  | none => .raised
  | some reply =>
    if !reply.truthy then .finished none
    else
      match reply with
      | .object fields =>
        if !(Json.field fields "outcome").hashable then .raised
        else if (pullFailure size (some (readResult print fields))).isNone
            && !(Json.field fields "rc").hashable then .raised
        else .finished (some (readResult print fields))
      | _ => .raised

end Reading

section Verdict

variable {parse : List Char → Parsed} {print : Json → String} {size : Int × Int} {out : List Char}

/-- The first line with the marker holds an object. -/
def RepliesWith (parse : List Char → Parsed) (out : List Char) (fields : List (String × Json)) :
    Prop :=
  ∃ line, markerLine pullMarker out = some line ∧
    parseJsonOrNone parse line = some (.object fields)

/-- The object says that the copy is complete, with these counts. -/
structure Reports (fields : List (String × Json)) (bytes files : Json) : Prop where
  outcome : Json.field fields "outcome" = .text "OK"
  completed : Json.field fields "completed" = .bool true
  bytes : Json.field fields "landed_bytes" = bytes
  files : Json.field fields "landed_files" = files

/-- The reply reports the counts that were measured, as integers. -/
def Genuine (parse : List Char → Parsed) (size : Int × Int) (out : List Char) : Prop :=
  ∃ fields, RepliesWith parse out fields ∧ Reports fields (.int size.1) (.int size.2)

/-- The reply has a truth value for a count, and it is the number that was measured. -/
def TruthValueCount (parse : List Char → Parsed) (size : Int × Int) (out : List Char) : Prop :=
  ∃ fields bytes files, RepliesWith parse out fields ∧ Reports fields bytes files ∧
    bytes.asInt = some size.1 ∧ files.asInt = some size.2 ∧
    (∃ value, bytes = .bool value ∨ files = .bool value) ∧
    (Json.field fields "rc").hashable = true

theorem asText_eq_some {json : Json} {value : String} :
    json.asText = some value ↔ json = .text value := by
  cases json <;> simp [Json.asText]

theorem isTrue_iff {json : Json} : json.isTrue = true ↔ json = .bool true := by
  cases json <;> simp [Json.isTrue]

theorem asInt_cases {json : Json} {value : Int} (isInt : json.asInt = some value) :
    json = .int value ∨ ∃ truth, json = .bool truth := by
  cases json <;> simp_all [Json.asInt]

/-- When a result is taken for a finished transfer. -/
theorem pullFailure_eq_none {result : PullResult} : pullFailure size (some result) = none ↔
    result.outcome = some "OK" ∧ result.completed = true ∧ result.landedBytes = some size.1 ∧
      result.landedFiles = some size.2 := by
  obtain ⟨outcome, rc, bytes, files, completed⟩ := result
  unfold pullFailure
  by_cases isOk : outcome = some "OK"
  · cases bytes with
    | none => simp [isOk]
    | some bytes =>
      cases files with
      | none => simp [isOk]
      | some files =>
        cases completed with
        | false => simp [isOk]
        | true =>
          by_cases same : bytes = size.1 ∧ files = size.2
          · simp [isOk, same]
          · have differs : bytes ≠ size.1 ∨ files ≠ size.2 := by
              by_contra both
              exact same (by simpa using both)
            simp [isOk, differs, same]
  · simp [isOk]

theorem readResult_passes {fields : List (String × Json)} :
    pullFailure size (some (readResult print fields)) = none ↔
      ∃ bytes files, Reports fields bytes files ∧ bytes.asInt = some size.1 ∧
        files.asInt = some size.2 := by
  rw [pullFailure_eq_none]
  simp only [readResult, asText_eq_some, isTrue_iff]
  constructor
  · rintro ⟨outcome, completed, bytes, files⟩
    exact ⟨_, _, ⟨outcome, completed, rfl, rfl⟩, bytes, files⟩
  · rintro ⟨_, _, ⟨outcome, completed, rfl, rfl⟩, bytes, files⟩
    exact ⟨outcome, completed, bytes, files⟩

/-- A reply that is taken for a finished transfer is genuine, or has a truth value for
a count. -/
theorem genuine_or_truthValue {result : Option PullResult}
    (isReply : pullReply parse print size out = .finished result)
    (passes : pullFailure size result = none) :
    Genuine parse size out ∨ TruthValueCount parse size out := by
  unfold pullReply at isReply
  cases isJson : markerJson parse pullMarker out with
  | none => rw [isJson] at isReply; cases isReply
  | some reply =>
    rw [isJson] at isReply
    dsimp only at isReply
    split at isReply
    · obtain rfl := Pull.finished.inj isReply
      cases passes
    cases reply with
    | object fields =>
      dsimp only at isReply
      split at isReply
      · cases isReply
      split at isReply
      · cases isReply
      rename_i hashes
      obtain rfl := Pull.finished.inj isReply
      have isHashable : (Json.field fields "rc").hashable = true := by simpa [passes] using hashes
      obtain ⟨bytes, files, reports, isBytes, isFiles⟩ := readResult_passes.mp passes
      have replies : RepliesWith parse out fields := by
        unfold markerJson at isJson
        cases isLine : markerLine pullMarker out with
        | none => rw [isLine] at isJson; cases isJson
        | some line =>
          rw [isLine] at isJson
          exact ⟨line, isLine, isJson⟩
      have truthValue : (∃ value, bytes = .bool value ∨ files = .bool value) →
          TruthValueCount parse size out := fun isTruth =>
        ⟨fields, bytes, files, replies, reports, isBytes, isFiles, isTruth, isHashable⟩
      rcases asInt_cases isBytes with rfl | ⟨value, isValue⟩
      · rcases asInt_cases isFiles with rfl | ⟨value, isValue⟩
        · exact .inl ⟨fields, replies, reports⟩
        · exact .inr (truthValue ⟨value, .inr isValue⟩)
      · exact .inr (truthValue ⟨value, .inl isValue⟩)
    | _ => cases isReply

/-- A truth value that equals the count is taken for it. -/
theorem TruthValueCount.passes (truthValue : TruthValueCount parse size out) :
    ∃ result, pullReply parse print size out = .finished (some result) ∧
      pullFailure size (some result) = none := by
  obtain ⟨fields, bytes, files, ⟨line, isLine, isJson⟩, reports, isBytes, isFiles, -, hashes⟩ :=
    truthValue
  have passes : pullFailure size (some (readResult print fields)) = none :=
    readResult_passes.mpr ⟨bytes, files, reports, isBytes, isFiles⟩
  have nonempty : fields.isEmpty = false := by
    cases fields with
    | nil =>
      have outcome := reports.outcome
      cases outcome
    | cons entry rest => rfl
  have isHashable : (Json.field fields "outcome").hashable = true := by
    rw [reports.outcome]
    rfl
  refine ⟨readResult print fields, ?_, passes⟩
  unfold pullReply markerJson
  rw [isLine]
  dsimp only
  rw [isJson]
  simp [Json.truthy, nonempty, isHashable, hashes]

/-- A genuine reply has no truth value for a count. -/
theorem TruthValueCount.not_genuine (truthValue : TruthValueCount parse size out) :
    ¬ Genuine parse size out := by
  obtain ⟨fields, bytes, files, ⟨line, isLine, isJson⟩, reports, -, -, ⟨value, isValue⟩, -⟩ :=
    truthValue
  rintro ⟨others, ⟨other, isOther, isOtherJson⟩, counts⟩
  obtain rfl := Option.some.inj (isLine.symm.trans isOther)
  obtain rfl := Json.object.inj (Option.some.inj (isJson.symm.trans isOtherJson))
  rcases isValue with rfl | rfl
  · cases reports.bytes.symm.trans counts.bytes
  · cases reports.files.symm.trans counts.files

/-- What a cycle owes that transfers nothing: no execute, one row of failure for its
unit, and the exit code that goes with it. -/
structure FailsUnit (unit : UnitEntry) (record : Record) (ended : Cycle) : Prop where
  unexecuted : ∀ found, .execute found ∉ ended.machine.steps
  row : ∃ row : Activity, row.unit = unit.hostname ∧ row.outcome.isFailure = true ∧
    ended.record.activity = record.activity ++ [row]
  exitCode : ended.record.exitCode = exitUnitFail

/-- A transfer is taken for complete only on a genuine reply, and on any other the unit
fails. `size` is what was measured with the exclusions the unit is asked to pull with. -/
def FailsClosed (parse : List Char → Parsed) (print : Json → String) (size : Int × Int)
    (out : List Char) : Prop :=
  ∀ (config : Config) (unit : UnitEntry) (answers : Answers), answers.stagingSize = some size →
    answers.pull = pullReply parse print size out →
    (∀ cycle payloadHash gitSha after,
      (transfer unit answers payloadHash gitSha).run cycle = (.done true, after) →
        Genuine parse size out) ∧
    (answers.reachesMarking config unit → ¬ Genuine parse size out →
      ∀ record availability services,
        FailsUnit unit record (cycleEnd config unit answers record availability services))

end Verdict

section Untransferred

variable {config : Config} {unit : UnitEntry} {answers : Answers} {executed : List String}
  {cycle before : Cycle} {record : Record} {payloadHash gitSha : String}

/-- Only failures were logged and nothing was executed. -/
def OnlyFails (record : Record) (after : Cycle) : Prop :=
  (∃ rows, after.record = record.logged rows ∧ ∀ row ∈ rows, row.outcome.isFailure = true) ∧
    ∀ found, .execute found ∉ after.machine.steps

theorem not_execute_sendAvailability {machine : Machine} (sent : Sent) (written : Availability)
    (unexecuted : ∀ found, .execute found ∉ machine.steps) :
    ∀ found, .execute found ∉ (machine.sendAvailability sent written).steps := by
  intro found
  unfold Machine.sendAvailability
  split
  · simpa [Machine.setAvailability, Machine.step] using unexecuted found
  · exact unexecuted found

/-- The phases from the marking on, when the transfer is not taken for complete. -/
theorem transferPhases_onlyFails (stops : ¬ answers.transfers unit)
    (same : cycle.record = record) (unexecuted : ∀ found, .execute found ∉ cycle.machine.steps) :
    Meets .reliable (transferPhases config unit answers executed payloadHash gitSha) cycle
      (fun _ => OnlyFails record) (OnlyFails record) := by
  have quiet {after : Cycle} (isRecord : after.record = record)
      (none : ∀ found, .execute found ∉ after.machine.steps) : OnlyFails record after :=
    ⟨⟨[], isRecord, by simp⟩, none⟩
  have marked := not_execute_sendAvailability answers.marking
    (.provisioning config.runId payloadHash) unexecuted
  refine writeAvailability_bind (fun _ => .update_bind ?_) fun _ => quiet same marked
  have untouched {after : Cycle} (leaves : Leaves WriteStep
      (Cycle.transferring { cycle.marking config answers payloadHash with leaseHeld := true })
      after) : ∀ found, .execute found ∉ after.machine.steps := by
    obtain ⟨more, isMore, allowed⟩ := leaves.steps
    intro found member
    rw [isMore] at member
    rcases List.mem_append.mp member with member | member
    · have earlier : .execute found ∈ (cycle.marking config answers payloadHash).machine.steps := by
        simpa [Cycle.transferring, Machine.step] using member
      exact marked found earlier
    · obtain ⟨_, isWrite⟩ := allowed _ member
      cases isWrite
  refine Meets.bind (transfer_meets.mono (fun _ _ => id) ?_) ?_
  · rintro after ⟨⟨_, isRecord⟩, leaves⟩
    exact quiet (isRecord.trans same) (untouched leaves)
  · rintro ok middle ⟨⟨_, transfers, _⟩ | ⟨rfl, _, row, isRow, _, failure⟩, leaves⟩
    · exact absurd transfers stops
    · exact .pure ⟨⟨[row], by rw [isRow]; exact congrArg (·.logged [row]) same,
        by simpa using failure.1⟩, untouched leaves⟩

/-- A cycle that gets to the marking and does not transfer fails its unit. -/
theorem cycleEnd_failsUnit (reaches : answers.reachesMarking config unit)
    (stops : ¬ answers.transfers unit) (record : Record) (availability : AvailabilityFile)
    (services : List Service) :
    FailsUnit unit record (cycleEnd config unit answers record availability services) := by
  let start := Cycle.start record availability services
  have arrives : Arrives (answers.reachesMarking config unit)
      (Closed answers (OnlyFails record.checked)) record.checked (start.atGates answers)
      (cycleEnd config unit answers record availability services) := by
    refine (processUnit_gates fun _ _ _ _ payloadHash gitSha cycle has same => ?_).ended
    refine transferPhases_onlyFails stops same fun found member => ?_
    have isGate := (has.gateSteps (List.prefix_refl _)).2 _ member
    exact absurd rfl (isGate.not_protocol.2.1 found)
  rcases arrives with ⟨_, middle, more, ⟨⟨rows, isRows, failing⟩, unexecuted⟩, isMore,
    moreFailing, isReleased⟩ | ⟨unreached, _⟩
  · have encodes : answers.address ≠ .malformed := ((reachesMarking_iff answers).mp reaches).1.1
    have relay : answers.reachesRelay config unit := reaches.1
    have regular : answers.Regular config unit := by
      refine ⟨encodes, fun _ => ?_, fun _ file builds => ?_, fun _ relayed => .inr (reaches.2 relayed),
        fun _ _ transfers => absurd transfers stops⟩
      · rw [relay.1.1.2]
        decide
      · obtain ⟨other, _, isBuilt, hashed, _⟩ := relay.1.2.1
        rwa [Answers.builds_unique builds isBuilt]
    have isLogged : (cycleEnd config unit answers record availability services).record =
        record.checked.logged (rows ++ more) := by
      rw [isMore, isRows]
      simp [Record.logged, List.foldl_append]
    rcases (processUnit_ends config unit answers start).run with
      ⟨_, _, _, others, isOthers, accounts⟩ | ⟨_, _, malformed, _⟩
    · obtain ⟨row, rfl, isUnit, _⟩ := accounts.mpr regular
      have isActivity : (cycleEnd config unit answers record availability services).record.activity =
          record.checked.activity ++ [row] := by
        exact (congrArg Record.activity isOthers).trans (Record.logged_activity _ _)
      have isRow : rows ++ more = [row] := by
        rw [isLogged, Record.logged_activity] at isActivity
        exact List.append_cancel_left isActivity
      have fails : row.outcome.isFailure = true := by
        have member : row ∈ rows ++ more := by rw [isRow]; exact List.mem_singleton_self row
        exact (List.mem_append.mp member).elim (failing row) (moreFailing row)
      refine ⟨?_, ⟨row, isUnit, fails, isActivity⟩, ?_⟩
      · rw [isReleased]
        unfold Cycle.released
        split
        · exact not_execute_sendAvailability _ _ unexecuted
        · exact unexecuted
      · rw [isLogged, isRow, (Record.logged_row row).2, if_pos fails]
    · exact absurd malformed encodes
  · exact absurd reaches unreached

end Untransferred

/-- What the pull script of a unit prints that says `true` for both counts. -/
def truthfulText : List Char :=
  ("\x7b\"outcome\":\"OK\",\"rc\":1,\"landed_bytes\":true,\"landed_files\":true," ++
    "\"completed\":true\x7d").toList

/-- The object it denotes. -/
def truthfulReply : Json :=
  .object [("outcome", .text "OK"), ("rc", .int 1), ("landed_bytes", .bool true),
    ("landed_files", .bool true), ("completed", .bool true)]

end MastProvisioning.Driver
