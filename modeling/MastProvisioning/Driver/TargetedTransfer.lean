import Mathlib
import MastProvisioning.Build.PayloadRecording
import MastProvisioning.Driver.EmbeddedValues

/-!
# What a targeted transfer carries

`payload.exclusions` inverts what the build recorded, with names compared exactly, and leaves
out what no target claims. `robocopy` compares names without their case, and in lists of their
own for files and for directories. `carries_exactly_iff` says for which builds every transfer
carries what is recorded for every run and for its targets, and nothing else.
-/

namespace MastProvisioning.Driver

open MastProvisioning.Collections MastProvisioning.PowerShell MastProvisioning.Build

section Operations

variable (fold : Char → Char)

/-- The names of one bucket. -/
def namesIn (bucket : Bucket) (slots : List (Bucket × String)) : List String :=
  (slots.filter fun slot => slot.1 = bucket).map Prod.snd

/-- The bucket an entry of the root is looked for in. -/
def entryBucket (entry : RootEntry) : Bucket :=
  if entry.isDir then .dirs else .files

/-- `robocopy` copies an entry of the root in a run for these targets. -/
def carried (src : String) (build : BuildManifest) (targets : List String) (entry : RootEntry) :
    Bool :=
  let slots := exclusions build targets
  let args := robocopyExclusionArgs src (joinBars (namesIn .files slots))
    (joinBars (namesIn .dirs slots))
  !(switchList (if entry.isDir then "/XD" else "/XF") args).any fun path =>
    foldText fold path = foldText fold (joinPath src entry.name)

end Operations

/-- A module recorded the entry. -/
def Records (build : BuildManifest) (module : String) (slot : Bucket × String) : Prop :=
  ∃ entry ∈ build.modulePayload, entry.1 = module ∧ slot ∈ entry.2.slots

/-- A build that passed the completeness check. The names it recorded are those of files and
directories of Windows, which neither begin nor end with white space. -/
structure AcceptedBuild (fold : Char → Char) where
  manifest : BuildManifest
  src : String
  root : List RootEntry
  isShare : src.toList.head? ≠ some '/'
  named : ∀ entry ∈ root, entry.name ≠ ""
  names : ∀ module slot, Records manifest module slot →
    ∃ name : WindowsName, name.text = slot.2 ∧ name.Trimmed
  complete : unattributedStagedEntries fold ⟨manifest.modulePayload, manifest.payloadAlways⟩ root = []

namespace AcceptedBuild

variable {fold : Char → Char} (build : AcceptedBuild fold)

/-- Recorded for every run, in whatever letter case. -/
def AlwaysShips (name : String) : Prop :=
  ∃ slot ∈ build.manifest.payloadAlways.slots, foldText fold slot.2 = foldText fold name

/-- Recorded for a module, in whatever letter case. -/
def Needs (module name : String) : Prop :=
  ∃ slot, Records build.manifest module slot ∧ foldText fold slot.2 = foldText fold name

/-- What a run for these targets is to find on the unit. -/
def Ships (targets : List String) (entry : RootEntry) : Prop :=
  build.AlwaysShips entry.name ∨ ∃ module ∈ targets, build.Needs module entry.name

/-- A slot of the entry's kind that has its name, in whatever letter case. -/
def Covers (fold : Char → Char) (slot : Bucket × String) (entry : RootEntry) : Prop :=
  slot.1 = entryBucket entry ∧ foldText fold slot.2 = foldText fold entry.name

/-- What is recorded of an entry agrees. If it is recorded for every run, the modules spell it
as it is spelled there. If it is not, it is recorded as the kind of entry it is, and a module
that needs it has recorded every spelling of it. -/
structure OneName (entry : RootEntry) : Prop where
  always : build.AlwaysShips entry.name → ∀ module slot, Records build.manifest module slot →
    Covers fold slot entry → ∃ bucket, (bucket, slot.2) ∈ build.manifest.payloadAlways.slots
  kind : ¬ build.AlwaysShips entry.name → (∃ module, build.Needs module entry.name) →
    ∃ module slot, Records build.manifest module slot ∧ Covers fold slot entry
  agreed : ¬ build.AlwaysShips entry.name → ∀ module, build.Needs module entry.name →
    ∀ other slot, Records build.manifest other slot → Covers fold slot entry →
      Records build.manifest module slot

end AcceptedBuild

/-- A build whose manifest has what its calls recorded. The calls spell a name in one way and
name an entry as the kind of entry it is. -/
structure CalledBuild (fold : Char → Char) where
  calls : List RecordCall
  record : PayloadRecord
  recorded : recordAll fold calls = .ok record
  manifest : BuildManifest
  written : manifest.modulePayload = record.modules ∧ manifest.payloadAlways = record.always
  src : String
  root : List RootEntry
  isShare : src.toList.head? ≠ some '/'
  named : ∀ entry ∈ root, entry.name ≠ ""
  complete : unattributedStagedEntries fold record root = []
  windows : ∀ call ∈ calls, ∀ owner bucket name, call.claim = some (owner, bucket, name) →
    ∃ windows : WindowsName, windows.text = name ∧ windows.Trimmed
  names : ∀ call ∈ calls, ∀ owner bucket name, call.claim = some (owner, bucket, name) →
    ∀ other ∈ calls, ∀ module kind spelled, other.claim = some (module, kind, spelled) →
      foldText fold name = foldText fold spelled → name = spelled
  modules : ∀ call ∈ calls, ∀ module bucket name, call.claim = some (some module, bucket, name) →
    ∀ other ∈ calls, ∀ spelled kind dir, other.claim = some (some spelled, kind, dir) →
      foldText fold module = foldText fold spelled → module = spelled
  kinds : ∀ call ∈ calls, ∀ owner bucket name, call.claim = some (owner, bucket, name) →
    ∀ entry ∈ root, foldText fold name = foldText fold entry.name → bucket = entryBucket entry

/-- A call has named an entry for every run, or for one of the targets. -/
def CalledBuild.CalledFor {fold : Char → Char} (build : CalledBuild fold) (targets : List String)
    (entry : RootEntry) : Prop :=
  ∃ call ∈ build.calls, ∃ owner bucket name, call.claim = some (owner, bucket, name) ∧
    foldText fold name = foldText fold entry.name ∧ ∀ module, owner = some module → module ∈ targets

section Exclusions

variable {build : BuildManifest} {targets : List String} {slot : Bucket × String}

/-- What is left out: recorded, not for every run, and for no target. -/
theorem mem_exclusions : slot ∈ exclusions build targets ↔ targets ≠ [] ∧
    (∃ module, Records build module slot) ∧ (∀ bucket, (bucket, slot.2) ∉ build.payloadAlways.slots) ∧
      ∀ module ∈ targets, ¬ Records build module slot := by
  have claims (module : String) :
      (slot, module) ∈ (build.modulePayload.flatMap fun entry =>
        entry.2.slots.map fun slot => (slot, entry.1)) ↔ Records build module slot := by
    simp only [List.mem_flatMap, List.mem_map, Prod.mk.injEq, Records]
    constructor
    · rintro ⟨entry, member, other, isSlot, rfl, isModule⟩
      exact ⟨entry, member, isModule, isSlot⟩
    · rintro ⟨entry, member, isModule, isSlot⟩
      exact ⟨entry, member, slot, isSlot, rfl, isModule⟩
  have never : slot.2 ∉ build.payloadAlways.slots.map Prod.snd ↔
      ∀ bucket, (bucket, slot.2) ∉ build.payloadAlways.slots := by
    simp only [List.mem_map, Prod.exists, exists_eq_right, not_exists]
  unfold exclusions
  split
  · rename_i everything
    simp [everything]
  · rename_i targeted
    rw [List.mem_filter, List.mem_dedup, Bool.and_eq_true, decide_eq_true_eq, never,
      Bool.not_eq_true', List.any_eq_false]
    constructor
    · rintro ⟨isClaim, isNever, unclaimed⟩
      obtain ⟨⟨_, module⟩, member, rfl⟩ := List.mem_map.mp isClaim
      refine ⟨targeted, ⟨module, (claims module).mp member⟩, isNever, ?_⟩
      intro target isTarget records
      apply unclaimed _ ((claims target).mpr records)
      simpa using isTarget
    · rintro ⟨-, ⟨module, records⟩, isNever, unclaimed⟩
      refine ⟨List.mem_map.mpr ⟨_, (claims module).mpr records, rfl⟩, isNever, ?_⟩
      rintro ⟨other, target⟩ member both
      simp only [Bool.and_eq_true, beq_iff_eq, decide_eq_true_eq] at both
      obtain ⟨rfl, isTarget⟩ := both
      exact unclaimed target isTarget ((claims target).mp member)

theorem mem_namesIn {bucket : Bucket} {slots : List (Bucket × String)} {name : String} :
    name ∈ namesIn bucket slots ↔ (bucket, name) ∈ slots := by
  simp only [namesIn, List.mem_map, List.mem_filter, decide_eq_true_eq, Prod.exists]
  constructor
  · rintro ⟨kind, other, ⟨member, rfl⟩, rfl⟩
    exact member
  · exact fun member => ⟨bucket, name, ⟨member, rfl⟩, rfl⟩

end Exclusions

section Arguments

variable {fold : Char → Char} {src : String} {names files dirs : List String}

/-- Trimmed names of Windows are split as they were joined. -/
theorem splitBars_of_names
    (allowed : ∀ name ∈ names, ∃ windows : WindowsName, windows.text = name ∧ windows.Trimmed) :
    splitBars (joinBars names) = names := by
  obtain ⟨windows, rfl, trimmed⟩ : ∃ windows : List WindowsName,
      windows.map WindowsName.text = names ∧ ∀ name ∈ windows, name.Trimmed := by
    induction names with
    | nil => exact ⟨[], rfl, by simp⟩
    | cons name names hypothesis =>
      obtain ⟨first, rfl, isTrimmed⟩ := allowed name List.mem_cons_self
      obtain ⟨rest, rfl, trimmed⟩ := hypothesis fun other member =>
        allowed other (List.mem_cons_of_mem _ member)
      exact ⟨first :: rest, rfl, List.forall_mem_cons.mpr ⟨isTrimmed, trimmed⟩⟩
  exact (splitBars_joinNames windows).mpr trimmed

theorem joinPath_no_switch (isShare : src.toList.head? ≠ some '/') (name : String) :
    (joinPath src name).toList.head? ≠ some '/' := by
  rw [joinPath, String.append_assoc, String.toList_append]
  cases path : src.toList with
  | nil => simp
  | cons character rest => simpa [path] using isShare

/-- The list of a switch ends at the next switch. -/
theorem takeWhile_paths (isShare : src.toList.head? ≠ some '/') (rest : List String)
    (isSwitch : rest = [] ∨ ∃ more, rest = "/XF" :: more) :
    (names.map (joinPath src) ++ rest).takeWhile (fun argument =>
      argument.toList.head? ≠ some '/') = names.map (joinPath src) := by
  induction names with
  | nil =>
    rcases isSwitch with rfl | ⟨more, rfl⟩
    · rfl
    · rfl
  | cons name names hypothesis =>
    rw [List.map_cons, List.cons_append, List.takeWhile_cons_of_pos, hypothesis]
    exact decide_eq_true (joinPath_no_switch isShare name)

/-- No path is taken for a switch. -/
theorem dropWhile_paths (isShare : src.toList.head? ≠ some '/') {switch : String}
    (isSwitch : switch.toList.head? = some '/') (rest : List String) :
    (names.map (joinPath src) ++ rest).dropWhile (· ≠ switch) = rest.dropWhile (· ≠ switch) := by
  induction names with
  | nil => rfl
  | cons name names hypothesis =>
    rw [List.map_cons, List.cons_append, List.dropWhile_cons_of_pos, hypothesis]
    rw [decide_eq_true_eq]
    rintro rfl
    exact joinPath_no_switch isShare name isSwitch

theorem switchList_head (isShare : src.toList.head? ≠ some '/') (switch : String)
    (rest : List String) (isSwitch : rest = [] ∨ ∃ more, rest = "/XF" :: more) :
    switchList switch (switch :: (names.map (joinPath src) ++ rest)) =
      names.map (joinPath src) := by
  rw [switchList, List.dropWhile_cons_of_neg (by simp), List.drop_succ_cons, List.drop_zero]
  exact takeWhile_paths isShare rest isSwitch

/-- `robocopy` finds the directories after one switch and the files after the other. -/
theorem switchList_args (isShare : src.toList.head? ≠ some '/') (isDir : Bool)
    (ofFiles : splitBars (joinBars files) = files) (ofDirs : splitBars (joinBars dirs) = dirs) :
    switchList (if isDir then "/XD" else "/XF")
        (robocopyExclusionArgs src (joinBars files) (joinBars dirs)) =
      (if isDir then dirs else files).map (joinPath src) := by
  unfold robocopyExclusionArgs
  simp only [ofFiles, ofDirs]
  have filesAlone : switchList "/XF" (if files ≠ [] then "/XF" :: files.map (joinPath src) else []) =
      files.map (joinPath src) := by
    split
    · have found := @switchList_head _ files isShare "/XF" [] (.inl rfl)
      rwa [List.append_nil] at found
    · rename_i none
      rw [not_not.mp none]
      rfl
  cases isDir with
  | true =>
    simp only [if_true]
    split
    · rw [List.cons_append]
      apply switchList_head isShare
      split
      · exact .inr ⟨_, rfl⟩
      · exact .inl rfl
    · rename_i none
      rw [not_not.mp none, List.nil_append]
      split
      · have passed := @dropWhile_paths _ files isShare "/XD" rfl []
        rw [List.append_nil] at passed
        rw [switchList, List.dropWhile_cons_of_pos (by decide), passed]
        rfl
      · rfl
  | false =>
    simp only [Bool.false_eq_true, if_false]
    split
    · apply Eq.trans _ filesAlone
      rw [switchList, List.cons_append, List.dropWhile_cons_of_pos (by decide),
        dropWhile_paths isShare rfl]
      rfl
    · rw [List.nil_append, filesAlone]

theorem foldText_joinPath (name other : String) :
    foldText fold (joinPath src name) = foldText fold (joinPath src other) ↔
      foldText fold name = foldText fold other := by
  simp only [joinPath, foldText_append]
  constructor
  · intro same
    have lists := congrArg String.toList same
    simp only [String.toList_append, List.append_assoc] at lists
    exact String.toList_inj.mp (List.append_cancel_left (List.append_cancel_left lists))
  · intro same
    rw [same]

end Arguments

namespace AcceptedBuild

variable {fold : Char → Char} {build : AcceptedBuild fold} {targets : List String}
variable {entry : RootEntry}

theorem namesIn_splits (bucket : Bucket) :
    splitBars (joinBars (namesIn bucket (exclusions build.manifest targets))) =
      namesIn bucket (exclusions build.manifest targets) := by
  apply splitBars_of_names
  intro name member
  obtain ⟨-, ⟨module, records⟩, -⟩ := mem_exclusions.mp (mem_namesIn.mp member)
  exact build.names module _ records

/-- An entry is copied unless a name of its kind that is left out is its name. -/
theorem carried_iff : carried fold build.src build.manifest targets entry = true ↔
    ∀ slot ∈ exclusions build.manifest targets, ¬ Covers fold slot entry := by
  unfold carried
  simp only [switchList_args build.isShare _ (namesIn_splits _) (namesIn_splits _)]
  have listed : (if entry.isDir then namesIn .dirs (exclusions build.manifest targets)
      else namesIn .files (exclusions build.manifest targets)) =
        namesIn (entryBucket entry) (exclusions build.manifest targets) := by
    unfold entryBucket
    split <;> rfl
  rw [listed, Bool.not_eq_true', List.any_eq_false]
  simp only [List.forall_mem_map, decide_eq_true_eq, foldText_joinPath, mem_namesIn, Covers]
  constructor
  · rintro other ⟨bucket, name⟩ member ⟨rfl, same⟩
    exact other name member same
  · intro other name member same
    exact other _ member ⟨rfl, same⟩

/-- An entry of the root is recorded for every run or for a module. -/
theorem recorded_of_complete (member : entry ∈ build.root) :
    build.AlwaysShips entry.name ∨ ∃ module, build.Needs module entry.name := by
  have found := List.filter_eq_nil_iff.mp build.complete entry member
  simp only [Bool.not_eq_true', Bool.not_eq_false, List.any_eq_true, List.mem_flatMap,
    decide_eq_true_eq] at found
  obtain ⟨name, ⟨names, isRecorded, inNames⟩, same⟩ := found
  have nonempty : name ≠ "" := by
    rintro rfl
    apply build.named entry member
    have lengths := congrArg (fun text => text.toList.length) same
    simp only [foldText, String.toList_ofList, List.length_map] at lengths
    exact String.toList_eq_nil_iff.mp (List.length_eq_zero_iff.mp lengths.symm)
  have isSlot : ∃ bucket, (bucket, name) ∈ names.slots := by
    unfold PayloadNames.slots
    rcases List.mem_append.mp inNames with inFiles | inDirs
    · exact ⟨.files, List.mem_append_left _ (List.mem_map_of_mem (by simp [inFiles, nonempty]))⟩
    · exact ⟨.dirs, List.mem_append_right _ (List.mem_map_of_mem (by simp [inDirs, nonempty]))⟩
  obtain ⟨bucket, isSlot⟩ := isSlot
  rcases List.mem_append.mp isRecorded with ofModule | ofAlways
  · obtain ⟨⟨module, recorded⟩, isEntry, rfl⟩ := List.mem_map.mp ofModule
    exact .inr ⟨module, (bucket, name), ⟨_, isEntry, rfl, isSlot⟩, same⟩
  · obtain rfl := List.mem_singleton.mp ofAlways
    exact .inl ⟨(bucket, name), isSlot, same⟩

/-- A module that recorded nothing. -/
theorem exists_unrecorded (build : AcceptedBuild fold) :
    ∃ module, ∀ slot, ¬ Records build.manifest module slot := by
  obtain ⟨module, fresh⟩ :=
    Infinite.exists_notMem_finset (build.manifest.modulePayload.map Prod.fst).toFinset
  refine ⟨module, ?_⟩
  rintro slot ⟨recorded, member, rfl, -⟩
  exact fresh (List.mem_toFinset.mpr (List.mem_map_of_mem member))

theorem not_always_of_covers {slot : Bucket × String} (covers : Covers fold slot entry)
    (notAlways : ¬ build.AlwaysShips entry.name) (bucket : Bucket) :
    (bucket, slot.2) ∉ build.manifest.payloadAlways.slots :=
  fun member => notAlways ⟨_, member, covers.2⟩

theorem carried_iff_ships_of_oneName (member : entry ∈ build.root) (agrees : build.OneName entry)
    (targeted : targets ≠ []) :
    carried fold build.src build.manifest targets entry = true ↔ build.Ships targets entry := by
  rw [carried_iff]
  by_cases always : build.AlwaysShips entry.name
  · refine iff_of_true ?_ (.inl always)
    intro slot excluded covers
    obtain ⟨-, ⟨module, records⟩, never, -⟩ := mem_exclusions.mp excluded
    obtain ⟨bucket, isAlways⟩ := agrees.always always module slot records covers
    exact never bucket isAlways
  · rw [Ships, or_iff_right always]
    constructor
    · intro kept
      by_contra none
      obtain ⟨module, slot, records, covers⟩ := agrees.kind always
        ((recorded_of_complete member).resolve_left always)
      apply kept slot _ covers
      refine mem_exclusions.mpr ⟨targeted, ⟨module, records⟩, not_always_of_covers covers always, ?_⟩
      exact fun target isTarget claims => none ⟨target, isTarget, slot, claims, covers.2⟩
    · rintro ⟨target, isTarget, needs⟩ slot excluded covers
      obtain ⟨-, ⟨module, records⟩, -, unclaimed⟩ := mem_exclusions.mp excluded
      exact unclaimed target isTarget (agrees.agreed always target needs module slot records covers)

theorem oneName_of_carried_iff_ships
    (exact : ∀ targets, targets ≠ [] →
      (carried fold build.src build.manifest targets entry = true ↔ build.Ships targets entry)) :
    build.OneName entry := by
  obtain ⟨fresh, unrecorded⟩ := exists_unrecorded build
  have forNone := exact [fresh] (by simp)
  rw [carried_iff] at forNone
  have noNeed : ¬ build.Needs fresh entry.name := fun ⟨slot, records, _⟩ => unrecorded slot records
  constructor
  · intro always module slot records covers
    by_contra never
    apply forNone.mpr (.inl always) slot _ covers
    refine mem_exclusions.mpr ⟨by simp, ⟨module, records⟩, not_exists.mp never, ?_⟩
    rintro target isTarget
    rw [List.mem_singleton.mp isTarget]
    exact unrecorded slot
  · intro notAlways _
    have dropped : ¬ build.Ships [fresh] entry := by
      simp [Ships, notAlways, noNeed]
    obtain ⟨slot, excluded, covers⟩ : ∃ slot ∈ exclusions build.manifest [fresh],
        Covers fold slot entry := by
      by_contra none
      exact dropped (forNone.mp fun slot excluded covers => none ⟨slot, excluded, covers⟩)
    obtain ⟨-, ⟨module, records⟩, -⟩ := mem_exclusions.mp excluded
    exact ⟨module, slot, records, covers⟩
  · intro notAlways module needs other slot records covers
    by_contra unclaimed
    have kept := carried_iff.mp ((exact [module] (by simp)).mpr
      (.inr ⟨module, List.mem_singleton_self _, needs⟩))
    apply kept slot _ covers
    refine mem_exclusions.mpr ⟨by simp, ⟨other, records⟩, not_always_of_covers covers notAlways, ?_⟩
    rintro target isTarget
    rwa [List.mem_singleton.mp isTarget]

/-- Every transfer that is not a full one carries, of every entry of the root, exactly what is
recorded for every run and for its targets, if and only if what is recorded of every entry
agrees. -/
theorem carries_exactly_iff (build : AcceptedBuild fold) :
    (∀ targets, targets ≠ [] → ∀ entry ∈ build.root,
      (carried fold build.src build.manifest targets entry = true ↔ build.Ships targets entry)) ↔
      ∀ entry ∈ build.root, build.OneName entry := by
  constructor
  · intro exact entry member
    exact oneName_of_carried_iff_ships fun targets targeted => exact targets targeted entry member
  · intro agrees targets targeted entry member
    exact carried_iff_ships_of_oneName member (agrees entry member) targeted

end AcceptedBuild

section Called

variable {fold : Char → Char} {record : PayloadRecord} {calls : List RecordCall}

/-- A call records a name and a module as it spells them. -/
structure SpelledBy (fold : Char → Char) (calls : List RecordCall) (record : PayloadRecord) :
    Prop where
  always : ∀ bucket, ∀ name ∈ record.always.bucket bucket,
    ∃ call ∈ calls, call.claim = some (none, bucket, name)
  modules : ∀ entry ∈ record.modules, ∃ call ∈ calls, ∃ bucket name,
    call.claim = some (some entry.1, bucket, name)
  names : ∀ entry ∈ record.modules, ∀ bucket, ∀ name ∈ entry.2.bucket bucket,
    ∃ call ∈ calls, ∃ module, call.claim = some (some module, bucket, name) ∧
      foldText fold module = foldText fold entry.1

theorem mem_upsert {Value : Type} {dict : List (String × Value)} {key : String} {fresh : Value}
    {change : Value → Value} {entry : String × Value}
    (member : entry ∈ OrderedDict.upsert (foldText fold) dict key fresh change) :
    entry ∈ dict ∨ (foldText fold key = foldText fold entry.1 ∧
      ((∃ old, (entry.1, old) ∈ dict ∧ entry.2 = change old) ∨
        entry.1 = key ∧ entry.2 = change fresh)) := by
  induction dict with
  | nil =>
    obtain rfl := List.mem_singleton.mp member
    exact .inr ⟨rfl, .inr ⟨rfl, rfl⟩⟩
  | cons head rest hypothesis =>
    unfold OrderedDict.upsert at member
    split at member
    · rename_i same
      rcases List.mem_cons.mp member with rfl | later
      · exact .inr ⟨same.symm, .inl ⟨head.2, List.mem_cons_self, rfl⟩⟩
      · exact .inl (List.mem_cons_of_mem _ later)
    · rcases List.mem_cons.mp member with rfl | later
      · exact .inl List.mem_cons_self
      · rcases hypothesis later with old | ⟨same, ⟨old, isOld, changed⟩ | isFresh⟩
        · exact .inl (List.mem_cons_of_mem _ old)
        · exact .inr ⟨same, .inl ⟨old, List.mem_cons_of_mem _ isOld, changed⟩⟩
        · exact .inr ⟨same, .inr isFresh⟩

theorem mem_bucket_add {names : PayloadNames} {bucket kind : Bucket} {added name : String}
    (member : name ∈ (names.add fold bucket added).bucket kind) :
    name ∈ names.bucket kind ∨ (bucket = kind ∧ name = added) := by
  rw [bucket_add] at member
  split at member
  · rename_i isKind
    exact (mem_addName member).imp_right fun same => ⟨isKind, same⟩
  · exact .inl member

theorem SpelledBy.add (spelled : SpelledBy fold calls record) {call : RecordCall}
    (member : call ∈ calls) {owner : Option String} {bucket : Bucket} {name : String}
    (claim : call.claim = some (owner, bucket, name)) :
    SpelledBy fold calls (record.add fold bucket name owner) := by
  cases owner with
  | none =>
    refine ⟨?_, spelled.modules, spelled.names⟩
    intro kind other isName
    rcases mem_bucket_add isName with old | ⟨rfl, rfl⟩
    · exact spelled.always kind other old
    · exact ⟨call, member, claim⟩
  | some module =>
    refine ⟨spelled.always, ?_, ?_⟩
    · intro entry isEntry
      rcases mem_upsert isEntry with old | ⟨-, ⟨old, isOld, -⟩ | ⟨rfl, -⟩⟩
      · exact spelled.modules entry old
      · exact spelled.modules (entry.1, old) isOld
      · exact ⟨call, member, bucket, name, claim⟩
    · intro entry isEntry kind other isName
      rcases mem_upsert isEntry with old | ⟨same, ⟨old, isOld, changed⟩ | ⟨rfl, changed⟩⟩
      · exact spelled.names entry old kind other isName
      · rw [changed] at isName
        rcases mem_bucket_add isName with before | ⟨rfl, rfl⟩
        · exact spelled.names (entry.1, old) isOld kind other before
        · exact ⟨call, member, module, claim, same⟩
      · rw [changed] at isName
        rcases mem_bucket_add isName with before | ⟨rfl, rfl⟩
        · cases kind <;> cases before
        · exact ⟨call, member, _, claim, same⟩

theorem spelledBy_foldlM {before final : PayloadRecord} {rest : List RecordCall}
    (spelled : SpelledBy fold calls before) (among : ∀ call ∈ rest, call ∈ calls)
    (recorded : rest.foldlM (PayloadRecord.call fold) before = .ok final) :
    SpelledBy fold calls final := by
  induction rest generalizing before with
  | nil =>
    cases recorded
    exact spelled
  | cons call rest hypothesis =>
    obtain ⟨isCall, later⟩ := List.forall_mem_cons.mp among
    rw [List.foldlM_cons] at recorded
    cases refusal : call.refusal with
    | some message =>
      rw [call_of_refusal refusal] at recorded
      cases recorded
    | none =>
      obtain ⟨owner, bucket, name, claim, -, adds⟩ := call_of_accepted refusal
      rw [adds before] at recorded
      exact hypothesis (spelled.add isCall claim) later recorded

theorem spelledBy_recordAll (recorded : recordAll fold calls = .ok record) :
    SpelledBy fold calls record := by
  apply spelledBy_foldlM _ (fun _ member => member) recorded
  constructor
  · rintro (- | -) name member <;> cases member
  · simp
  · simp

theorem mem_slots {names : PayloadNames} {bucket : Bucket} {name : String} :
    (bucket, name) ∈ names.slots ↔ name ∈ names.bucket bucket ∧ name ≠ "" := by
  cases bucket <;> simp [PayloadNames.slots, PayloadNames.bucket]

end Called

namespace CalledBuild

variable {fold : Char → Char} (build : CalledBuild fold)

theorem nonempty {call : RecordCall} (member : call ∈ build.calls) {owner : Option String}
    {bucket : Bucket} {name : String} (claim : call.claim = some (owner, bucket, name)) :
    name ≠ "" := by
  obtain ⟨windows, rfl, -⟩ := build.windows call member owner bucket name claim
  exact windows.nonempty

/-- The record names what is called. -/
theorem names_of_claim {call : RecordCall} (member : call ∈ build.calls) {owner : Option String}
    {bucket : Bucket} {name : String} (claim : call.claim = some (owner, bucket, name)) :
    build.record.Names fold owner bucket name := by
  have recorded := build.recorded
  rcases @foldlM_calls fold build.calls ⟨[], ⟨[], []⟩⟩ with ⟨final, isFinal, -, -, names⟩ | failed
  · rw [recordAll, isFinal] at recorded
    cases recorded
    exact (names owner bucket name).mpr (.inr ⟨call, member, owner, name, claim, rfl, rfl⟩)
  · obtain ⟨_, _, _, _, -, -, -, fails⟩ := failed
    rw [recordAll, fails] at recorded
    cases recorded

theorem always_iff {bucket : Bucket} {name : String} :
    (bucket, name) ∈ build.manifest.payloadAlways.slots ↔
      ∃ call ∈ build.calls, call.claim = some (none, bucket, name) := by
  have spelled := spelledBy_recordAll build.recorded
  rw [build.written.2, mem_slots]
  constructor
  · exact fun listed => spelled.always bucket name listed.1
  · rintro ⟨call, member, claim⟩
    obtain ⟨other, isOther, same⟩ := build.names_of_claim member claim
    obtain ⟨first, isFirst, firstClaim⟩ := spelled.always bucket other isOther
    obtain rfl := build.names first isFirst _ _ _ firstClaim call member _ _ _ claim same
    exact ⟨isOther, build.nonempty member claim⟩

theorem records_iff {module : String} {bucket : Bucket} {name : String} :
    Records build.manifest module (bucket, name) ↔
      ∃ call ∈ build.calls, call.claim = some (some module, bucket, name) := by
  have spelled := spelledBy_recordAll build.recorded
  unfold Records
  rw [build.written.1]
  constructor
  · rintro ⟨entry, isEntry, rfl, listed⟩
    obtain ⟨call, member, owner, claim, same⟩ :=
      spelled.names entry isEntry bucket name (mem_slots.mp listed).1
    obtain ⟨first, isFirst, _, _, firstClaim⟩ := spelled.modules entry isEntry
    obtain rfl := build.modules call member _ _ _ claim first isFirst _ _ _ firstClaim same
    exact ⟨call, member, claim⟩
  · rintro ⟨call, member, claim⟩
    obtain ⟨other, isOther, same⟩ := build.names_of_claim member claim
    rw [PayloadRecord.namesOf, OrderedDict.get?] at isOther
    cases found : OrderedDict.find? (foldText fold) build.record.modules module with
    | none =>
      rw [found] at isOther
      cases bucket <;> cases isOther
    | some entry =>
      rw [found] at isOther
      obtain ⟨isEntry, sameModule⟩ := OrderedDict.mem_of_find? found
      obtain ⟨first, isFirst, _, _, firstClaim⟩ := spelled.modules entry isEntry
      have isModule := build.modules first isFirst _ _ _ firstClaim call member _ _ _ claim sameModule
      obtain ⟨naming, isNaming, owner, nameClaim, -⟩ :=
        spelled.names entry isEntry bucket other isOther
      obtain rfl := build.names naming isNaming _ _ _ nameClaim call member _ _ _ claim same
      exact ⟨entry, isEntry, isModule, mem_slots.mpr ⟨isOther, build.nonempty member claim⟩⟩

/-- The build passes the completeness check. -/
def accepted : AcceptedBuild fold where
  manifest := build.manifest
  src := build.src
  root := build.root
  isShare := build.isShare
  named := build.named
  names := by
    rintro module ⟨bucket, name⟩ records
    obtain ⟨call, member, claim⟩ := build.records_iff.mp records
    exact build.windows call member _ _ _ claim
  complete := by
    rw [build.written.1, build.written.2]
    exact build.complete

/-- One call for every recorded slot. -/
theorem claim_of_records {module : String} {slot : Bucket × String}
    (records : Records build.accepted.manifest module slot) :
    ∃ call ∈ build.calls, call.claim = some (some module, slot.1, slot.2) :=
  build.records_iff.mp records

/-- Recorded names that differ in letter case are one name. -/
theorem oneName {entry : RootEntry} (member : entry ∈ build.root) :
    build.accepted.OneName entry where
  always := by
    rintro ⟨⟨bucket, name⟩, listed, isName⟩ module slot records covers
    obtain ⟨call, isCall, claim⟩ := build.claim_of_records records
    obtain ⟨other, isOther, otherClaim⟩ := build.always_iff.mp listed
    obtain rfl : name = slot.2 := build.names other isOther _ _ _ otherClaim call isCall _ _ _ claim
      (isName.trans covers.2.symm)
    exact ⟨bucket, listed⟩
  kind := by
    rintro - ⟨module, slot, records, isName⟩
    obtain ⟨call, isCall, claim⟩ := build.claim_of_records records
    exact ⟨module, slot, records, build.kinds call isCall _ _ _ claim entry member isName, isName⟩
  agreed := by
    rintro - module ⟨slot, records, isName⟩ other ⟨bucket, spelled⟩ otherRecords covers
    obtain ⟨call, isCall, claim⟩ := build.claim_of_records records
    obtain ⟨second, isSecond, otherClaim⟩ := build.claim_of_records otherRecords
    obtain rfl : slot.2 = spelled := build.names call isCall _ _ _ claim second isSecond _ _ _
      otherClaim (isName.trans covers.2.symm)
    have isKind := build.kinds call isCall _ _ _ claim entry member isName
    obtain rfl : bucket = slot.1 := covers.1.trans isKind.symm
    exact records

theorem ships_iff {targets : List String} {entry : RootEntry} :
    build.accepted.Ships targets entry ↔ build.CalledFor targets entry := by
  constructor
  · rintro (⟨⟨bucket, name⟩, listed, isName⟩ | ⟨module, isTarget, slot, records, isName⟩)
    · obtain ⟨call, member, claim⟩ := build.always_iff.mp listed
      exact ⟨call, member, none, bucket, name, claim, isName, by simp⟩
    · obtain ⟨call, member, claim⟩ := build.claim_of_records records
      refine ⟨call, member, _, _, _, claim, isName, ?_⟩
      rintro other isModule
      cases isModule
      exact isTarget
  · rintro ⟨call, member, owner, bucket, name, claim, isName, isTarget⟩
    cases owner with
    | none => exact .inl ⟨(bucket, name), build.always_iff.mpr ⟨call, member, claim⟩, isName⟩
    | some module =>
      refine .inr ⟨module, isTarget module rfl, (bucket, name), ?_, isName⟩
      exact build.records_iff.mpr ⟨call, member, claim⟩

/-- A transfer for targets carries what the build's calls named for every run and for them. A
transfer without targets carries everything, and so does one for every module. -/
theorem carries_what_was_called (targets : List String) {entry : RootEntry}
    (member : entry ∈ build.root) :
    (targets ≠ [] → (carried fold build.src build.manifest targets entry = true ↔
      build.CalledFor targets entry)) ∧
    (targets = [] ∨ (∀ call ∈ build.calls, ∀ module bucket name,
        call.claim = some (some module, bucket, name) → module ∈ targets) →
      carried fold build.src build.manifest targets entry = true) := by
  have ships (targeted : targets ≠ []) :=
    (build.accepted.carried_iff_ships_of_oneName member (build.oneName member) targeted).trans
      build.ships_iff
  refine ⟨ships, ?_⟩
  rintro (rfl | everything)
  · exact (@AcceptedBuild.carried_iff fold build.accepted _ _).mpr (by simp [exclusions])
  · apply (@AcceptedBuild.carried_iff fold build.accepted _ _).mpr
    intro slot excluded _
    obtain ⟨-, ⟨module, records⟩, -, unclaimed⟩ := mem_exclusions.mp excluded
    obtain ⟨call, isCall, claim⟩ := build.claim_of_records records
    exact unclaimed module (everything call isCall module _ _ claim) records

/-- Two entries, one of them for every run. -/
def sampleCalls : List RecordCall :=
  [.always "commands.json" "", .staged "imdisk" "" "mast-indexes"]

theorem sampleCalls_claim {call : RecordCall} (member : call ∈ sampleCalls) :
    call.claim = some (none, .files, "commands.json") ∨
      call.claim = some (some "imdisk", .dirs, "mast-indexes") := by
  revert call
  decide +kernel

theorem windowsName_of_all {name : String} (nonempty : name ≠ "")
    (legal : (name.toList.all fun character => decide (0x20 ≤ character.toNat) &&
      !("\\/:*?\"<>|".toList.contains character)) = true)
    (trimmed : trimName name.toList = name.toList) :
    ∃ windows : WindowsName, windows.text = name ∧ windows.Trimmed := by
  refine ⟨⟨name, nonempty, fun character member => ?_⟩, rfl, trimmed⟩
  simpa only [Bool.and_eq_true, decide_eq_true_eq, Bool.not_eq_true', List.contains_eq_mem,
    decide_eq_false_iff_not] using List.all_eq_true.mp legal character member

/-- A build of two calls. -/
def sampleCalled : CalledBuild Char.toLower where
  calls := sampleCalls
  record := ⟨[("imdisk", ⟨[], ["mast-indexes"]⟩)], ⟨["commands.json"], []⟩⟩
  recorded := by decide +kernel
  manifest := ⟨"", ["imdisk"], [], [], [("imdisk", ⟨[], ["mast-indexes"]⟩)], ⟨["commands.json"], []⟩⟩
  written := ⟨rfl, rfl⟩
  src := "\\\\provider\\staging"
  root := [⟨"commands.json", false, 100⟩, ⟨"mast-indexes", true, 5000⟩]
  isShare := by decide +kernel
  named := by decide +kernel
  complete := by decide +kernel
  windows := by
    intro call member owner bucket name claim
    rcases sampleCalls_claim member with isClaim | isClaim
    · cases isClaim.symm.trans claim
      exact windowsName_of_all (by decide) (by decide +kernel) (by decide +kernel)
    · cases isClaim.symm.trans claim
      exact windowsName_of_all (by decide) (by decide +kernel) (by decide +kernel)
  names := by
    intro call member owner bucket name claim other isOther module kind spelled otherClaim
    rcases sampleCalls_claim member with isClaim | isClaim <;>
      rcases sampleCalls_claim isOther with isOtherClaim | isOtherClaim <;>
      cases isClaim.symm.trans claim <;> cases isOtherClaim.symm.trans otherClaim <;>
      decide +kernel
  modules := by
    intro call member module bucket name claim other isOther spelled kind dir otherClaim
    have ofModule {call : RecordCall} (isCall : call ∈ sampleCalls) {module : String}
        {bucket : Bucket} {name : String} (claim : call.claim = some (some module, bucket, name)) :
        module = "imdisk" := by
      rcases sampleCalls_claim isCall with isClaim | isClaim
      · cases isClaim.symm.trans claim
      · cases isClaim.symm.trans claim
        rfl
    rw [ofModule member claim, ofModule isOther otherClaim]
    exact fun _ => rfl
  kinds := by
    intro call member owner bucket name claim
    rcases sampleCalls_claim member with isClaim | isClaim <;>
      cases isClaim.symm.trans claim <;> decide +kernel

/-- A run for another module leaves the indexes behind. -/
theorem carries_what_was_called_sample :
    carried Char.toLower sampleCalled.src sampleCalled.manifest ["jupyter"]
      ⟨"mast-indexes", true, 5000⟩ = true ↔
        sampleCalled.CalledFor ["jupyter"] ⟨"mast-indexes", true, 5000⟩ :=
  (carries_what_was_called sampleCalled ["jupyter"] (by decide +kernel)).1 (by decide)

end CalledBuild

end MastProvisioning.Driver
