import MastProvisioning.PowerShell.Text

/-!
# The BIOS power policy

A unit must power itself back on when mains returns, and the setting for it lives in
the BIOS. `mast-firmware.ps1` reads the setup varstore, a block of bytes without names,
and compares it with a baseline, which names a few of its bytes by their offset. The
one outcome the check must never produce is a quiet pass on a machine that it could
not read.
-/

namespace MastProvisioning.Unit.Firmware

open PowerShell

/-- What `Get-MastFirmwareSetup` finds. -/
structure Setup where
  available : Bool
  reason : String
  bytes : List UInt8
  sha256 : String
  baseboardProduct : String
  biosVersion : String

def Setup.length (setup : Setup) : Nat := setup.bytes.length

/-- A byte of the varstore that the baseline names. -/
structure BaselineField where
  name : String
  offset : Int
  expect : Int
  meaning : String
  /-- Empty when there is none. -/
  remedy : String

/-- What `$f` is while `$null` is iterated over. -/
def BaselineField.null : BaselineField := ⟨"", 0, 0, "", ""⟩

/-- The entry of `firmware-baseline.json` for a board and its BIOS. -/
structure Baseline where
  setupLength : Option Int
  setupSha256 : String
  fields : Option (List BaselineField)
  /-- What `FromBase64String` makes of `setup_base64`; nothing when it throws. -/
  setupBytes : Option (List UInt8)

/-- The fields the entry declares. -/
def Baseline.declared (baseline : Baseline) : List BaselineField :=
  baseline.fields.getD []

/-- `@($Baseline.fields)`: one null for an entry without fields. -/
def Baseline.listed (baseline : Baseline) : List BaselineField :=
  baseline.fields.getD [.null]

inductive Status
  | unavailable
  | unknownBaseline
  | fieldDrift
  | blobDrift
  | match
  deriving DecidableEq

/-- A field that was read. -/
structure FieldReport where
  name : String
  offset : Int
  expect : Int
  actual : Int
  ok : Bool
  deriving DecidableEq

/-- What `Test-MastFirmwarePolicy` returns. -/
structure Policy where
  status : Status
  needsAttention : Bool
  messages : List String
  fields : List FieldReport
  baselineMatched : Bool
  baseboardProduct : String
  biosVersion : String
  sha256 : String

section Evaluation

variable (setup : Setup)

/-- The field lies outside of the varstore. -/
def Setup.outside (field : BaselineField) : Bool :=
  field.offset < 0 || field.offset ≥ setup.length

/-- `[int]$Setup.Bytes[$offset]`. -/
def Setup.actual (field : BaselineField) : Int :=
  (setup.bytes.getD field.offset.toNat 0).toNat

def Setup.right (field : BaselineField) : Bool :=
  setup.actual field == field.expect

/-- What is said of a field that cannot be read. -/
def skipped (field : BaselineField) : String :=
  "baseline field '" ++ field.name ++ "' offset " ++ toString field.offset ++
    " is outside this " ++ toString setup.length ++ "-byte varstore; skipped."

/-- What is said of a field that is wrong. -/
def drifted (field : BaselineField) : List String :=
  (field.name ++ " = " ++ toString (setup.actual field) ++ ", expected " ++
      toString field.expect ++ " (" ++ field.meaning ++ ").") ::
    if field.remedy = "" then [] else ["  Fix: " ++ field.remedy]

/-- The variables of the loop over the fields. -/
structure Reading where
  messages : List String
  fields : List FieldReport
  fieldDrift : Bool

def report (field : BaselineField) : FieldReport :=
  ⟨field.name, field.offset, field.expect, setup.actual field, setup.right field⟩

/-- One round of the loop. -/
def readField (reading : Reading) (field : BaselineField) : Reading :=
  if setup.outside field then
    { reading with messages := reading.messages ++ [skipped setup field] }
  else
    { messages := reading.messages ++ if setup.right field then [] else drifted setup field
      fields := reading.fields ++ [report setup field]
      fieldDrift := reading.fieldDrift || !setup.right field }

def readFields (fields : List BaselineField) : Reading :=
  fields.foldl (readField setup) ⟨[], [], false⟩

/-- How many bytes differ from the recorded ones; nothing when they cannot be compared. -/
def diffCount (baseline : Baseline) : Option Nat :=
  match baseline.setupBytes with
  | some reference =>
    if reference.length = setup.length then
      some ((reference.zip setup.bytes).countP fun pair => pair.1 != pair.2)
    else none
  | none => none

def detail (baseline : Baseline) : String :=
  match diffCount setup baseline with
  | some 0 =>
    "hash differs but the recorded bytes match -- the baseline entry is internally inconsistent"
  | some count => toString count ++ " byte(s) differ"
  | none => "byte count unknown"

/-- The varstore has not the size the baseline describes. -/
def Setup.resized (baseline : Baseline) : Bool :=
  baseline.setupLength.getD 0 > 0 && (setup.length : Int) != baseline.setupLength.getD 0

/-- An answer before any field is read. -/
def unread (status : Status) (needsAttention : Bool) (messages : List String) : Policy where
  status := status
  needsAttention := needsAttention
  messages := messages
  fields := []
  baselineMatched := false
  baseboardProduct := setup.baseboardProduct
  biosVersion := setup.biosVersion
  sha256 := setup.sha256

/-- What follows from the fields that were read. -/
def judge (baseline : Baseline) (reading : Reading) : Policy :=
  let hashMatches := foldCase baseline.setupSha256 == foldCase setup.sha256
  let out : Policy :=
    { unread setup .match false [] with
      fields := reading.fields
      baselineMatched := hashMatches }
  if !baseline.listed.isEmpty && reading.fields.isEmpty then
    { out with
      status := .unknownBaseline
      needsAttention := true
      messages := reading.messages ++
        ["No baseline field could be read from this varstore; power policy NOT verified."] }
  else if reading.fieldDrift then
    { out with
      status := .fieldDrift
      needsAttention := true
      messages := reading.messages }
  else if !hashMatches then
    { out with
      status := .blobDrift
      messages :=
        ["BIOS setup differs from the baseline for this board (" ++ detail setup baseline ++
            "); every known power-policy field is still correct.",
          "Some other BIOS setting was changed. Not blocking, but worth knowing before this " ++
            "unit ships."] }
  else out

/-- `Test-MastFirmwarePolicy`. -/
def testFirmwarePolicy (baseline : Option Baseline) : Policy :=
  if !setup.available then
    unread setup .unavailable false
      ["BIOS setup varstore not readable (" ++ setup.reason ++ "); power policy not verified."]
  else
    match baseline with
    | none =>
      unread setup .unknownBaseline true
        ["no firmware baseline for board '" ++ setup.baseboardProduct ++ "' BIOS '" ++
            setup.biosVersion ++ "' -- this BIOS cannot be verified.",
          "Check BIOS setup by hand: Advanced -> APM Configuration -> \"Restore AC Power Loss\" " ++
            "must be \"S0 State\"",
          "so the unit powers itself back on when mains returns. Then re-baseline this board " ++
            "(see README)."]
    | some baseline =>
      if setup.resized baseline then
        unread setup .unknownBaseline true
          ["BIOS setup is " ++ toString setup.length ++ " bytes but the baseline for '" ++
              setup.baseboardProduct ++ "' BIOS '" ++ setup.biosVersion ++ "' describes " ++
              toString (baseline.setupLength.getD 0) ++
              " -- the baseline does not apply to this firmware.",
            "Power policy NOT verified. Check Advanced -> APM Configuration by hand, then " ++
              "re-baseline (see README)."]
      else judge setup baseline (readFields setup baseline.listed)

end Evaluation

section Reading

variable {setup : Setup}

/-- What one round of the loop adds. -/
theorem readField_eq (reading : Reading) (field : BaselineField) :
    readField setup reading field =
      { messages := reading.messages ++
          if setup.outside field then [skipped setup field]
          else if setup.right field then [] else drifted setup field
        fields := reading.fields ++ if setup.outside field then [] else [report setup field]
        fieldDrift := reading.fieldDrift || (!setup.outside field && !setup.right field) } := by
  unfold readField
  cases setup.outside field <;> simp

/-- What the loop adds, from the state it is in. -/
theorem foldl_readField (fields : List BaselineField) (reading : Reading) :
    fields.foldl (readField setup) reading =
      { messages := reading.messages ++ fields.flatMap fun field =>
          if setup.outside field then [skipped setup field]
          else if setup.right field then [] else drifted setup field
        fields := reading.fields ++
          (fields.filter fun field => !setup.outside field).map (report setup)
        fieldDrift := reading.fieldDrift ||
          fields.any fun field => !setup.outside field && !setup.right field } := by
  induction fields generalizing reading with
  | nil => simp
  | cons field rest ih =>
    rw [List.foldl_cons, ih, readField_eq]
    cases isOutside : setup.outside field <;> simp [isOutside, Bool.or_assoc]

theorem readFields_fields (fields : List BaselineField) :
    (readFields setup fields).fields =
      (fields.filter fun field => !setup.outside field).map (report setup) := by
  rw [readFields, foldl_readField]
  rfl

theorem readFields_fieldDrift (fields : List BaselineField) :
    (readFields setup fields).fieldDrift =
      fields.any fun field => !setup.outside field && !setup.right field := by
  rw [readFields, foldl_readField]
  rfl

/-- A field that lies outside is said to be skipped. -/
theorem skipped_mem_readFields {fields : List BaselineField} {field : BaselineField}
    (member : field ∈ fields) (isOutside : setup.outside field = true) :
    skipped setup field ∈ (readFields setup fields).messages := by
  rw [readFields, foldl_readField]
  apply List.mem_append_right
  apply List.mem_flatMap_of_mem member
  simp [isOutside]

end Reading

section Honesty

variable {setup : Setup} {baseline : Baseline} {field : BaselineField}

/-- The field lies in the varstore. -/
def Setup.Readable (setup : Setup) (field : BaselineField) : Prop :=
  0 ≤ field.offset ∧ field.offset < setup.length

/-- The field was read, and has the value it should have. -/
def Setup.Right (setup : Setup) (field : BaselineField) : Prop :=
  ∃ position : Nat, (position : Int) = field.offset ∧
    ∃ byte, setup.bytes[position]? = some byte ∧ (byte.toNat : Int) = field.expect

/-- The answer says that the field was not read: it names the field, or it says that
nothing at all is verified. -/
def Policy.Unverified (policy : Policy) (setup : Setup) (field : BaselineField) : Prop :=
  skipped setup field ∈ policy.messages ∨ policy.status = .unknownBaseline

/-- What an operator may take from the answer. -/
structure Honest (setup : Setup) (baseline : Baseline) (policy : Policy) : Prop where
  passes : policy.needsAttention = false → ∀ field ∈ baseline.declared, setup.Right field
  reported : ∀ field ∈ baseline.declared, ¬setup.Readable field → policy.Unverified setup field
  uncounted : ∀ field ∈ baseline.declared, ¬setup.Readable field →
    ∀ read ∈ policy.fields, read.ok = true → read.offset ≠ field.offset

/-- A field is left out while others are read and found right. -/
structure PartlyRead (setup : Setup) (baseline : Baseline) : Prop where
  sized : setup.resized baseline = false
  some_skipped : ∃ field ∈ baseline.declared, ¬setup.Readable field
  some_read : ∃ field ∈ baseline.declared, setup.Readable field
  right : ∀ field ∈ baseline.declared, setup.Readable field → setup.Right field

theorem outside_eq_false : setup.outside field = false ↔ setup.Readable field := by
  unfold Setup.outside Setup.Readable
  simp only [Bool.or_eq_false_iff, decide_eq_false_iff_not]
  omega

theorem outside_eq_true : setup.outside field = true ↔ ¬setup.Readable field := by
  rw [← outside_eq_false, Bool.not_eq_false]

/-- A byte of the varstore is compared as it stands there. -/
theorem right_eq_true (readable : setup.Readable field) :
    setup.right field = true ↔ setup.Right field := by
  obtain ⟨position, isOffset⟩ := Int.eq_ofNat_of_zero_le readable.1
  have inside : position < setup.bytes.length := by
    have below := readable.2
    rw [isOffset] at below
    exact Int.ofNat_lt.mp below
  have isActual : setup.actual field = setup.bytes[position].toNat := by
    simp [Setup.actual, isOffset, inside]
  rw [Setup.right, beq_iff_eq, isActual]
  constructor
  · intro equal
    exact ⟨position, isOffset.symm, _, List.getElem?_eq_getElem inside, equal⟩
  · rintro ⟨other, isOther, byte, isByte, equal⟩
    have same : other = position := by omega
    rw [same, List.getElem?_eq_getElem inside, Option.some.injEq] at isByte
    rw [isByte, equal]

theorem Setup.Right.readable (right : setup.Right field) : setup.Readable field := by
  obtain ⟨position, isOffset, byte, isByte, -⟩ := right
  obtain ⟨inside, -⟩ := List.getElem?_eq_some_iff.mp isByte
  unfold Setup.Readable Setup.length
  omega

/-- Only a field that lies in the varstore has an entry. -/
theorem readable_of_mem {fields : List BaselineField} {read : FieldReport}
    (member : read ∈ (readFields setup fields).fields) :
    ∃ field ∈ fields, setup.Readable field ∧ read = report setup field := by
  rw [readFields_fields] at member
  obtain ⟨field, kept, rfl⟩ := List.mem_map.mp member
  obtain ⟨isField, inside⟩ := List.mem_filter.mp kept
  exact ⟨field, isField, outside_eq_false.mp (by simpa using inside), rfl⟩

/-- An answer before any field is read counts none. -/
theorem honest_unread {status : Status} {messages : List String}
    (unverified : status = .unknownBaseline) :
    Honest setup baseline (unread setup status true messages) where
  passes := fun quiet => absurd quiet (by simp [unread])
  reported := fun _ _ _ => .inr unverified
  uncounted := fun _ _ _ read member => absurd member (by simp [unread])

/-- No attention is asked for when something was read, unless there was nothing to read,
and nothing that was read is wrong. -/
theorem judge_quiet {reading : Reading} :
    (judge setup baseline reading).needsAttention = false ↔
      (baseline.listed = [] ∨ reading.fields ≠ []) ∧ reading.fieldDrift = false := by
  unfold judge
  simp only [Bool.and_eq_true, Bool.not_eq_true', List.isEmpty_iff, List.isEmpty_eq_false_iff]
  by_cases nothing : baseline.listed ≠ [] ∧ reading.fields = []
  · rw [if_pos nothing]
    simp [nothing]
  · rw [if_neg nothing]
    have some : baseline.listed = [] ∨ reading.fields ≠ [] := by
      by_contra none
      exact nothing (by simpa using none)
    cases reading.fieldDrift
    · simp only [Bool.false_eq_true, if_false, some, and_self, iff_true]
      split <;> rfl
    · simp

/-- An answer that asks for attention has what was said of the fields. -/
theorem judge_messages {reading : Reading} {message : String}
    (attention : (judge setup baseline reading).needsAttention = true)
    (said : message ∈ reading.messages) :
    message ∈ (judge setup baseline reading).messages := by
  revert attention
  unfold judge
  dsimp only
  split
  · intro _
    exact List.mem_append_left _ said
  split
  · intro _
    exact said
  split
  · intro quiet
    cases quiet
  · intro quiet
    cases quiet

theorem judge_fields {reading : Reading} :
    (judge setup baseline reading).fields = reading.fields := by
  unfold judge
  dsimp only
  split
  · rfl
  split
  · rfl
  split <;> rfl

/-- An entry that declares a field lists what it declares. -/
theorem listed_of_declared (declared : field ∈ baseline.declared) :
    baseline.listed = baseline.declared := by
  unfold Baseline.declared Baseline.listed at *
  cases isFields : baseline.fields with
  | none => simp [isFields] at declared
  | some fields => rfl

/-- No attention is asked for exactly when nothing is wrong that was read, and something
was if there is anything to read. -/
theorem quiet_iff (declared : field ∈ baseline.declared) :
    (judge setup baseline (readFields setup baseline.listed)).needsAttention = false ↔
      (∃ other ∈ baseline.declared, setup.Readable other) ∧
        ∀ other ∈ baseline.declared, setup.Readable other → setup.Right other := by
  rw [judge_quiet, listed_of_declared declared]
  apply and_congr
  · have notEmpty : baseline.declared ≠ [] := List.ne_nil_of_mem declared
    simp only [notEmpty, false_or, readFields_fields, ne_eq, List.map_eq_nil_iff,
      List.filter_eq_nil_iff, not_forall, Bool.not_eq_true', outside_eq_false, not_not,
      exists_prop]
  · rw [readFields_fieldDrift, List.any_eq_false]
    apply forall₂_congr
    intro other _
    rw [Bool.and_eq_true, Bool.not_eq_true', Bool.not_eq_true', outside_eq_false, not_and]
    apply imp_congr_right
    intro readable
    rw [Bool.not_eq_false, right_eq_true readable]

/-- A present varstore is never passed unread, and what could not be read is said to be
unread, exactly when no field is left out beside others that are read and right. -/
theorem honest_iff (available : setup.available = true) :
    Honest setup baseline (testFirmwarePolicy setup (some baseline)) ↔
      ¬PartlyRead setup baseline := by
  cases sized : setup.resized baseline with
  | true =>
    have isAnswer : Honest setup baseline (testFirmwarePolicy setup (some baseline)) := by
      simp only [testFirmwarePolicy, available, sized, Bool.not_true, Bool.false_eq_true, if_false,
        if_true]
      exact honest_unread rfl
    simp only [isAnswer, true_iff]
    intro partly
    exact absurd partly.sized (by simp [sized])
  | false =>
    have isAnswer : testFirmwarePolicy setup (some baseline) =
        judge setup baseline (readFields setup baseline.listed) := by
      simp only [testFirmwarePolicy, available, sized, Bool.not_true, Bool.false_eq_true, if_false]
    rw [isAnswer]
    constructor
    · intro honest partly
      obtain ⟨field, declared, unreadable⟩ := partly.some_skipped
      have quiet := (quiet_iff declared).mpr ⟨partly.some_read, partly.right⟩
      exact unreadable (honest.passes quiet field declared).readable
    · intro whole
      have passes : (judge setup baseline (readFields setup baseline.listed)).needsAttention =
          false → ∀ field ∈ baseline.declared, setup.Right field := by
        intro quiet field declared
        obtain ⟨someRead, right⟩ := (quiet_iff declared).mp quiet
        by_contra wrong
        have unreadable : ¬setup.Readable field := fun readable =>
          wrong (right field declared readable)
        exact whole ⟨sized, ⟨field, declared, unreadable⟩, someRead, right⟩
      constructor
      · exact passes
      · intro field declared unreadable
        left
        apply judge_messages
        · by_contra quiet
          exact unreadable (passes (Bool.not_eq_true _ ▸ quiet) field declared).readable
        · apply skipped_mem_readFields _ (outside_eq_true.mpr unreadable)
          rwa [listed_of_declared declared]
      · intro field declared unreadable read member _ sameOffset
        rw [judge_fields] at member
        obtain ⟨other, -, readable, rfl⟩ := readable_of_mem member
        apply unreadable
        unfold Setup.Readable at readable ⊢
        rwa [← sameOffset]

end Honesty

/-- A varstore of two bytes. -/
def short : Setup where
  available := true
  reason := ""
  bytes := [1, 0]
  sha256 := "aa"
  baseboardProduct := "PE2100U-C7136ES"
  biosVersion := "1.03.00"

def powerLoss : BaselineField where
  name := "Restore AC Power Loss"
  offset := 5
  expect := 1
  meaning := "1 = S0 State (power on when mains returns), 0 = S5 State (stay off)"
  remedy := ""

def wakeSource : BaselineField where
  name := "Power On By Ring"
  offset := 1
  expect := 0
  meaning := "0 = Disabled, 1 = Enabled"
  remedy := ""

/-- A baseline that states no length. -/
def unsized : Baseline where
  setupLength := none
  setupSha256 := "aa"
  fields := some [powerLoss, wakeSource]
  setupBytes := none

/-- The power-loss setting is not in the varstore, and the answer is a clean bill. -/
theorem powerLoss_passes :
    ¬Honest short unsized (testFirmwarePolicy short (some unsized)) := by
  intro honest
  have right := honest.passes rfl powerLoss List.mem_cons_self
  have inside : (5 : Int) < 2 := right.readable.2
  omega

/-- The same baseline with the length it describes. -/
def sized : Baseline := { unsized with setupLength := some 3399 }

theorem honest_sized : Honest short sized (testFirmwarePolicy short (some sized)) :=
  (honest_iff rfl).mpr fun partly => absurd partly.sized (by decide)

end MastProvisioning.Unit.Firmware
