import MastProvisioning.Build.Manifest

/-!
# Recording what a build stages

The blocks of `build-mast.ps1` that stage something say so, one entry of the staging root at a
time: for a module, or for every run. A record takes a name once, whatever its letter case, and
refuses a path. The build compares the record with the staging root and ends when an entry of
the root was never named.
-/

namespace MastProvisioning.Build

open MastProvisioning.Collections MastProvisioning.PowerShell

/-- What is recorded of the staging root so far. -/
structure PayloadRecord where
  modules : List (String × PayloadNames)
  always : PayloadNames
deriving DecidableEq, Repr

/-- A call of `Add-MastAlwaysStagedPayload` or of `Add-MastStagedPayload`; a parameter that is
not passed is empty. -/
inductive RecordCall
  | always (file dir : String)
  | staged (module file dir : String)
deriving DecidableEq, Repr

/-- An entry of the staging root. -/
structure RootEntry where
  name : String
  isDir : Bool
  bytes : Nat
deriving DecidableEq, Repr

section Operations

variable (fold : Char → Char)

/-- Names are added once; `-contains` ignores case. -/
def addName (names : List String) (name : String) : List String :=
  if names.any fun other => foldText fold other = foldText fold name then names
  else names ++ [name]

def PayloadNames.bucket (names : PayloadNames) : Bucket → List String
  | .files => names.files
  | .dirs => names.dirs

def PayloadNames.add (names : PayloadNames) : Bucket → String → PayloadNames
  | .files, name => { names with files := addName fold names.files name }
  | .dirs, name => { names with dirs := addName fold names.dirs name }

/-- The bucket and the name, when exactly one of `-File` and `-Dir` is passed. -/
def pickName (file dir : String) : Option (Bucket × String) :=
  if isBlank file = isBlank dir then none
  else if file ≠ "" then some (.files, file)
  else some (.dirs, dir)

/-- `-match '[\\/]'`. -/
def hasSeparator (name : String) : Bool :=
  name.toList.any fun character => character == '\\' || character == '/'

/-- `Add-MastAlwaysStagedPayload`. -/
def addAlwaysStagedPayload (payload : PayloadNames) (file dir : String) :
    Except String PayloadNames :=
  match pickName file dir with
  | none => .error "Add-MastAlwaysStagedPayload: pass exactly one of -File and -Dir"
  | some (bucket, name) =>
    if hasSeparator name then
      .error ("Add-MastAlwaysStagedPayload: '" ++ name ++
        "' must be a staging-root leaf name, not a path")
    else .ok (payload.add fold bucket name)

/-- `Add-MastStagedPayload`. -/
def addStagedPayload (map : List (String × PayloadNames)) (module file dir : String) :
    Except String (List (String × PayloadNames)) :=
  if isBlank module then .error "Add-MastStagedPayload: -Module is required"
  else
    match pickName file dir with
    | none =>
      .error ("[" ++ module ++ "] Add-MastStagedPayload: pass exactly one of -File and -Dir")
    | some (bucket, name) =>
      if hasSeparator name then
        .error ("[" ++ module ++ "] Add-MastStagedPayload: '" ++ name ++
          "' must be a staging-root leaf name, not a path")
      else
        .ok (OrderedDict.upsert (foldText fold) map module ⟨[], []⟩ fun names =>
          names.add fold bucket name)

def PayloadRecord.call (record : PayloadRecord) : RecordCall → Except String PayloadRecord
  | .always file dir => do
    let always ← addAlwaysStagedPayload fold record.always file dir
    .ok { record with always }
  | .staged module file dir => do
    let modules ← addStagedPayload fold record.modules module file dir
    .ok { record with modules }

/-- The calls of a build, one after the other. -/
def recordAll (calls : List RecordCall) : Except String PayloadRecord :=
  calls.foldlM (PayloadRecord.call fold) ⟨[], ⟨[], []⟩⟩

/-- `Get-MastUnattributedStagedEntries`. -/
def unattributedStagedEntries (record : PayloadRecord) (root : List RootEntry) : List RootEntry :=
  let claimed := (record.modules.map Prod.snd ++ [record.always]).flatMap fun names =>
    names.files ++ names.dirs
  root.filter fun entry =>
    !claimed.any fun name => foldText fold name = foldText fold entry.name

end Operations

section Meaning

variable (fold : Char → Char)

/-- Whom a call names an entry for, a module or every run; its bucket and its name. -/
def RecordCall.claim : RecordCall → Option (Option String × Bucket × String)
  | .always file dir => (pickName file dir).map (Prod.mk none)
  | .staged module file dir => (pickName file dir).map (Prod.mk (some module))

/-- Why a call throws. -/
def RecordCall.refusal : RecordCall → Option String
  | .always file dir =>
    match addAlwaysStagedPayload id ⟨[], []⟩ file dir with
    | .error message => some message
    | .ok _ => none
  | .staged module file dir =>
    match addStagedPayload id [] module file dir with
    | .error message => some message
    | .ok _ => none

/-- A record with one more name. -/
def PayloadRecord.add (record : PayloadRecord) (bucket : Bucket) (name : String) :
    Option String → PayloadRecord
  | none => { record with always := record.always.add fold bucket name }
  | some module =>
    { record with
      modules := OrderedDict.upsert (foldText fold) record.modules module ⟨[], []⟩ fun names =>
        names.add fold bucket name }

/-- The names recorded for a module, or for every run. -/
def PayloadRecord.namesOf (record : PayloadRecord) : Option String → PayloadNames
  | none => record.always
  | some module => (OrderedDict.get? (foldText fold) record.modules module).getD ⟨[], []⟩

/-- A name is recorded, in whatever letter case. -/
def PayloadRecord.Names (record : PayloadRecord) (owner : Option String) (bucket : Bucket)
    (name : String) : Prop :=
  ∃ other ∈ (record.namesOf fold owner).bucket bucket, foldText fold other = foldText fold name

/-- A call has named it. -/
def Called (calls : List RecordCall) (owner : Option String) (bucket : Bucket) (name : String) :
    Prop :=
  ∃ call ∈ calls, ∃ other spelled, call.claim = some (other, bucket, spelled) ∧
    other.map (foldText fold) = owner.map (foldText fold) ∧
    foldText fold spelled = foldText fold name

/-- A record without two modules of one name and with every name once, none of them a path. -/
structure PayloadRecord.Sound (record : PayloadRecord) : Prop where
  modules : OrderedDict.Distinct (foldText fold) record.modules
  once : ∀ owner bucket,
    (((record.namesOf fold owner).bucket bucket).map (foldText fold)).Nodup
  leaves : ∀ owner bucket, ∀ name ∈ (record.namesOf fold owner).bucket bucket,
    hasSeparator name = false

end Meaning

section Names

variable {fold : Char → Char} {names : List String}

theorem exists_addName (added name : String) :
    (∃ other ∈ addName fold names added, foldText fold other = foldText fold name) ↔
      (∃ other ∈ names, foldText fold other = foldText fold name) ∨
        foldText fold added = foldText fold name := by
  unfold addName
  split
  · rename_i known
    obtain ⟨other, member, same⟩ := List.any_eq_true.mp known
    have same : foldText fold other = foldText fold added := of_decide_eq_true same
    constructor
    · exact .inl
    · rintro (found | isAdded)
      · exact found
      · exact ⟨other, member, same.trans isAdded⟩
  · simp [or_and_right, exists_or]

theorem nodup_addName (once : (names.map (foldText fold)).Nodup) (added : String) :
    ((addName fold names added).map (foldText fold)).Nodup := by
  unfold addName
  split
  · exact once
  · rename_i unknown
    rw [List.map_append, List.nodup_append]
    refine ⟨once, List.nodup_singleton _, ?_⟩
    rintro folded member _ last rfl
    obtain ⟨other, isOther, rfl⟩ := List.mem_map.mp member
    apply unknown
    exact List.any_eq_true.mpr ⟨other, isOther, decide_eq_true (List.mem_singleton.mp last)⟩

theorem mem_addName {added name : String} (member : name ∈ addName fold names added) :
    name ∈ names ∨ name = added := by
  unfold addName at member
  split at member
  · exact .inl member
  · simpa using member

theorem bucket_add (names : PayloadNames) (bucket other : Bucket) (name : String) :
    (names.add fold bucket name).bucket other =
      if bucket = other then addName fold (names.bucket other) name else names.bucket other := by
  cases bucket <;> cases other <;> rfl

theorem namesOf_add (record : PayloadRecord) (bucket : Bucket) (name : String)
    (owner other : Option String) :
    (record.add fold bucket name owner).namesOf fold other =
      if owner.map (foldText fold) = other.map (foldText fold) then
        (record.namesOf fold other).add fold bucket name
      else record.namesOf fold other := by
  cases owner with
  | none =>
    cases other with
    | none => rfl
    | some other => rfl
  | some module =>
    cases other with
    | none => rfl
    | some other =>
      simp only [PayloadRecord.namesOf, PayloadRecord.add, OrderedDict.get?_upsert, Option.map_some,
        Option.some.injEq]
      split
      · rfl
      · rfl

theorem names_add (record : PayloadRecord) (bucket kind : Bucket) (added name : String)
    (owner other : Option String) :
    (record.add fold bucket added owner).Names fold other kind name ↔
      record.Names fold other kind name ∨
        (owner.map (foldText fold) = other.map (foldText fold) ∧ bucket = kind ∧
          foldText fold added = foldText fold name) := by
  unfold PayloadRecord.Names
  rw [namesOf_add]
  split
  · rename_i same
    rw [bucket_add]
    split
    · rename_i isKind
      rw [exists_addName]
      simp [same, isKind]
    · rename_i otherKind
      simp [otherKind]
  · rename_i different
    simp [different]

theorem PayloadRecord.Sound.add {record : PayloadRecord} (sound : record.Sound fold)
    (bucket : Bucket) {name : String} (isLeaf : hasSeparator name = false) (owner : Option String) :
    (record.add fold bucket name owner).Sound fold where
  modules := by
    cases owner with
    | none => exact sound.modules
    | some module => exact sound.modules.upsert _ _ _
  once := by
    intro other kind
    rw [namesOf_add]
    split
    · rw [bucket_add]
      split
      · exact nodup_addName (sound.once other kind) name
      · exact sound.once other kind
    · exact sound.once other kind
  leaves := by
    intro other kind spelled member
    rw [namesOf_add] at member
    split at member
    · rw [bucket_add] at member
      split at member
      · rcases mem_addName member with old | rfl
        · exact sound.leaves other kind spelled old
        · exact isLeaf
      · exact sound.leaves other kind spelled member
    · exact sound.leaves other kind spelled member

end Names

section Calls

variable {fold : Char → Char}

/-- A call throws whatever is recorded so far. -/
theorem call_of_refusal {call : RecordCall} {message : String}
    (refused : call.refusal = some message) (record : PayloadRecord) :
    record.call fold call = .error message := by
  cases call with
  | always file dir =>
    simp only [RecordCall.refusal, addAlwaysStagedPayload] at refused
    simp only [PayloadRecord.call, addAlwaysStagedPayload]
    rcases picked : pickName file dir with - | ⟨bucket, name⟩
    · simp only [picked, Option.some.injEq] at refused
      subst refused
      rfl
    · cases isPath : hasSeparator name with
      | true =>
        simp only [picked, isPath, if_true, Option.some.injEq] at refused
        subst refused
        simp only [isPath, if_true]
        rfl
      | false => simp [picked, isPath] at refused
  | staged module file dir =>
    simp only [RecordCall.refusal, addStagedPayload] at refused
    simp only [PayloadRecord.call, addStagedPayload]
    cases blank : isBlank module with
    | true =>
      simp only [blank, if_true, Option.some.injEq] at refused
      subst refused
      rfl
    | false =>
      rcases picked : pickName file dir with - | ⟨bucket, name⟩
      · simp only [blank, picked, Bool.false_eq_true, if_false, Option.some.injEq] at refused
        subst refused
        rfl
      · cases isPath : hasSeparator name with
        | true =>
          simp only [blank, picked, isPath, Bool.false_eq_true, if_false, if_true,
            Option.some.injEq] at refused
          subst refused
          simp only [isPath, if_true, Bool.false_eq_true, if_false]
          rfl
        | false => simp [blank, picked, isPath] at refused

/-- A call that does not throw records what it names. -/
theorem call_of_accepted {call : RecordCall} (accepted : call.refusal = none) :
    ∃ owner bucket name, call.claim = some (owner, bucket, name) ∧ hasSeparator name = false ∧
      ∀ record : PayloadRecord, record.call fold call = .ok (record.add fold bucket name owner) := by
  cases call with
  | always file dir =>
    simp only [RecordCall.refusal, addAlwaysStagedPayload] at accepted
    rcases picked : pickName file dir with - | ⟨bucket, name⟩
    · simp [picked] at accepted
    · cases isPath : hasSeparator name with
      | true => simp [picked, isPath] at accepted
      | false =>
        refine ⟨none, bucket, name, by simp [RecordCall.claim, picked], isPath, fun record => ?_⟩
        simp only [PayloadRecord.call, addAlwaysStagedPayload, picked, isPath]
        rfl
  | staged module file dir =>
    simp only [RecordCall.refusal, addStagedPayload] at accepted
    cases blank : isBlank module with
    | true => simp [blank] at accepted
    | false =>
      rcases picked : pickName file dir with - | ⟨bucket, name⟩
      · simp [blank, picked] at accepted
      · cases isPath : hasSeparator name with
        | true => simp [blank, picked, isPath] at accepted
        | false =>
          refine ⟨some module, bucket, name, by simp [RecordCall.claim, picked], isPath,
            fun record => ?_⟩
          simp only [PayloadRecord.call, addStagedPayload, blank, picked, isPath]
          rfl

theorem called_cons {call : RecordCall} {calls : List RecordCall} {owner other : Option String}
    {bucket kind : Bucket} {name spelled : String}
    (isClaim : call.claim = some (owner, bucket, spelled)) :
    Called fold (call :: calls) other kind name ↔
      (owner.map (foldText fold) = other.map (foldText fold) ∧ bucket = kind ∧
        foldText fold spelled = foldText fold name) ∨ Called fold calls other kind name := by
  simp only [Called, List.mem_cons, or_and_right, exists_or, exists_eq_left, isClaim,
    Option.some.injEq, Prod.mk.injEq]
  apply or_congr_left
  constructor
  · rintro ⟨_, _, ⟨rfl, rfl, rfl⟩, same, sameName⟩
    exact ⟨same, rfl, sameName⟩
  · rintro ⟨same, rfl, sameName⟩
    exact ⟨owner, spelled, ⟨rfl, rfl, rfl⟩, same, sameName⟩

/-- What calls leave of a record: what it was before with what they name, or the message of the
first that throws. -/
theorem foldlM_calls (calls : List RecordCall) (record : PayloadRecord) :
    (∃ final, calls.foldlM (PayloadRecord.call fold) record = .ok final ∧
      (∀ call ∈ calls, call.refusal = none) ∧ (record.Sound fold → final.Sound fold) ∧
      ∀ owner bucket name, final.Names fold owner bucket name ↔
        record.Names fold owner bucket name ∨ Called fold calls owner bucket name) ∨
    ∃ early call late message, calls = early ++ call :: late ∧
      (∀ call ∈ early, call.refusal = none) ∧ call.refusal = some message ∧
      calls.foldlM (PayloadRecord.call fold) record = .error message := by
  induction calls generalizing record with
  | nil => exact .inl ⟨record, rfl, by simp, id, by simp [Called]⟩
  | cons call calls hypothesis =>
    rw [List.foldlM_cons]
    cases refusal : call.refusal with
    | some message =>
      refine .inr ⟨[], call, calls, message, rfl, by simp, refusal, ?_⟩
      rw [call_of_refusal refusal]
      rfl
    | none =>
      obtain ⟨owner, bucket, name, isClaim, isLeaf, adds⟩ := call_of_accepted refusal
      rw [adds record]
      rcases hypothesis (record.add fold bucket name owner) with
        ⟨final, isFinal, accepted, sound, names⟩ | ⟨early, first, late, message, rfl, accepted, refused, fails⟩
      · refine .inl ⟨final, isFinal, ?_, fun before => sound (before.add bucket isLeaf owner), ?_⟩
        · exact List.forall_mem_cons.mpr ⟨refusal, accepted⟩
        · intro other kind spelled
          rw [names, names_add, called_cons isClaim, or_assoc]
      · refine .inr ⟨call :: early, first, late, message, rfl, ?_, refused, fails⟩
        exact List.forall_mem_cons.mpr ⟨refusal, accepted⟩

theorem sound_empty : PayloadRecord.Sound fold ⟨[], ⟨[], []⟩⟩ where
  modules := OrderedDict.distinct_nil
  once := by
    rintro (- | module) (- | -) <;> exact List.nodup_nil
  leaves := by
    rintro (- | module) (- | -) name member <;> cases member

/-- The names the completeness check looks for are those recorded for anything. -/
theorem mem_recorded {record : PayloadRecord} (sound : record.Sound fold) (name : String) :
    (∃ names ∈ record.modules.map Prod.snd ++ [record.always], name ∈ names.files ++ names.dirs) ↔
      ∃ owner bucket, name ∈ (record.namesOf fold owner).bucket bucket := by
  have buckets (names : PayloadNames) :
      name ∈ names.files ++ names.dirs ↔ ∃ bucket, name ∈ names.bucket bucket := by
    rw [List.mem_append]
    constructor
    · rintro (inFiles | inDirs)
      · exact ⟨.files, inFiles⟩
      · exact ⟨.dirs, inDirs⟩
    · rintro ⟨- | -, member⟩
      · exact .inl member
      · exact .inr member
  constructor
  · rintro ⟨names, isRecorded, member⟩
    obtain ⟨bucket, inBucket⟩ := (buckets names).mp member
    rcases List.mem_append.mp isRecorded with ofModule | ofAlways
    · obtain ⟨⟨module, recorded⟩, isEntry, rfl⟩ := List.mem_map.mp ofModule
      refine ⟨some module, bucket, ?_⟩
      have found := OrderedDict.find?_of_mem sound.modules isEntry
      rw [PayloadRecord.namesOf, OrderedDict.get?, found]
      exact inBucket
    · obtain rfl := List.mem_singleton.mp ofAlways
      exact ⟨none, bucket, inBucket⟩
  · rintro ⟨owner, bucket, member⟩
    have inNames := (buckets _).mpr ⟨bucket, member⟩
    cases owner with
    | none => exact ⟨record.always, by simp, inNames⟩
    | some module =>
      rw [PayloadRecord.namesOf, OrderedDict.get?] at inNames
      cases found : OrderedDict.find? (foldText fold) record.modules module with
      | none =>
        rw [found] at inNames
        cases inNames
      | some entry =>
        rw [found] at inNames
        refine ⟨entry.2, List.mem_append_left _ (List.mem_map_of_mem ?_), inNames⟩
        exact (OrderedDict.mem_of_find? found).1

/-- The completeness check passes when every entry of the root is recorded for something. -/
theorem unattributed_eq_nil {record : PayloadRecord} (sound : record.Sound fold)
    (root : List RootEntry) : unattributedStagedEntries fold record root = [] ↔
      ∀ entry ∈ root, ∃ owner bucket, record.Names fold owner bucket entry.name := by
  unfold unattributedStagedEntries
  rw [List.filter_eq_nil_iff]
  refine forall₂_congr fun entry _ => ?_
  simp only [Bool.not_eq_true', Bool.not_eq_false, List.any_eq_true, List.mem_flatMap,
    decide_eq_true_eq]
  constructor
  · rintro ⟨name, recorded, same⟩
    obtain ⟨owner, bucket, member⟩ := (mem_recorded sound name).mp recorded
    exact ⟨owner, bucket, name, member, same⟩
  · rintro ⟨owner, bucket, name, member, same⟩
    exact ⟨name, (mem_recorded sound name).mpr ⟨owner, bucket, member⟩, same⟩

/-- The first call that throws ends the build with its message. Otherwise the record names, up
to letter case, what was called and nothing else, every name once; and the completeness check
passes exactly when every entry of the root was called for something. -/
theorem records_what_was_called (fold : Char → Char) (calls : List RecordCall) :
    (∃ record, recordAll fold calls = .ok record ∧ (∀ call ∈ calls, call.refusal = none) ∧
      record.Sound fold ∧
      (∀ owner bucket name, record.Names fold owner bucket name ↔
        Called fold calls owner bucket name) ∧
      ∀ root, unattributedStagedEntries fold record root = [] ↔
        ∀ entry ∈ root, ∃ owner bucket, Called fold calls owner bucket entry.name) ∨
    ∃ early call late message, calls = early ++ call :: late ∧
      (∀ call ∈ early, call.refusal = none) ∧ call.refusal = some message ∧
      recordAll fold calls = .error message := by
  rcases @foldlM_calls fold calls ⟨[], ⟨[], []⟩⟩ with ⟨record, recorded, accepted, sound, names⟩ | refused
  · have isSound := sound sound_empty
    have called (owner : Option String) (bucket : Bucket) (name : String) :
        record.Names fold owner bucket name ↔ Called fold calls owner bucket name := by
      rw [names, or_iff_right]
      rintro ⟨other, member, -⟩
      cases owner <;> cases bucket <;> cases member
    refine .inl ⟨record, recorded, accepted, isSound, called, fun root => ?_⟩
    rw [unattributed_eq_nil isSound]
    simp only [called]
  · exact .inr refused

end Calls

end MastProvisioning.Build
