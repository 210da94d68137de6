import MastProvisioning.Blobstore.BootstrapPayload
import MastProvisioning.Blobstore.Restoring
import MastProvisioning.Fleet.OsDrift

/-!
# What is recorded on the relay

The three kinds of snapshots together: payloads of hosts under the hash of what was built,
bootstrap payloads under the hash of their lines, baselines of the operating system under
their ids. They are recorded while baselines are proposed and while the relay is seeded,
collected and repaired, in any order.

The ids are made in three places and by three rules. Each names one thing: so nothing is
ever refused because it differs, and what was recorded is there to be staged again.
-/

namespace MastProvisioning.Fleet.RelayRecords

open MastProvisioning.Semantics MastProvisioning.Collections MastProvisioning.Storage
open MastProvisioning.Blobstore MastProvisioning.Blobstore.BootstrapPayload
open OsBaselines (Baseline BaselineFile BaselineKey Cache Digests Layout Machine Proposal assetKey)
open OsDrift (Committed Proposed)

/-- The machine that proposes and syncs, and the relay. -/
structure Estate (Place : Type) where
  machine : Machine Place
  relay : Relay

/-- What a sync reads of the cache beside the bytes: how a path prints, and the time of a
file. -/
structure CacheView (Place : Type) where
  printed : String → String
  mtime : Place → Int

/-- What is run, with what becomes of its system calls on the relay. -/
inductive Action (Place : Type)
  | propose (proposal : Proposal)
  | provision (build : PayloadBuild) (faults : List Fault)
  | bootstrap (host : BuildHost) (faults : List Fault)
  | baseline (view : CacheView Place) (build : Nat) (baselineId : String) (faults : List Fault)
  | seed (names : List FileName) (faults : List Fault)
  | gc (dryRun : Bool) (faults : List Fault)
  | repair (digest : String) (source : FileName) (faults : List Fault)

section Definitions

variable {Place : Type} [DecidableEq Place] (layout : Layout Place) (digests : Digests)
  (dumps : Manifest → Bytes)

/-- The entry of a baseline's file: it is named by its own file name. -/
def entryOf (file : BaselineFile) : Entry :=
  ⟨[file.filename], file.size, file.sha256, by simp⟩

/-- `snapshot_files`, for one file. -/
def snapshotFile (view : CacheView Place) (cache : Cache Place) (file : BaselineFile) :
    Except String SourceFile :=
  match cache (layout.dest file.path) with
  | none => .error (file.filename ++ " is not in the asset cache at " ++ view.printed file.path ++
      "; propose fetches it")
  | some bytes => .ok
    { entry := entryOf file
      source := view.printed file.path
      found := some ⟨bytes, view.mtime (layout.dest file.path)⟩ }

/-- `snapshot_files`. -/
def snapshotFiles (view : CacheView Place) (cache : Cache Place) :
    List BaselineFile → Except String (List SourceFile)
  | [] => .ok []
  | file :: rest =>
    match snapshotFile layout view cache file with
    | .error message => .error message
    | .ok source => (snapshotFiles view cache rest).map (source :: ·)

/-- `_snapshot`, up to the sync. -/
def baselineSync (view : CacheView Place) (machine : Machine Place) (build : Nat)
    (baselineId : String) : Except String SnapshotSync :=
  match machine.baselines (build, baselineId) with
  | none => .error "the baseline is not there"
  | some baseline => (snapshotFiles layout view machine.cache baseline.files).map fun files =>
      { kind := .windowsOsBaseline, snapshotId := baseline.baselineId, files }

/-- What an action does on the relay, if it comes to that. -/
def Action.job (estate : Estate Place) : Action Place → Option (Job × List Fault)
  | .propose _ => none
  | .provision build faults => some (.payload (build.payload digests.sha256), faults)
  | .bootstrap host faults =>
    match payloadFiles digests.sha256 host with
    | .error _ => none
    | .ok files => some (.snapshot (snapshotSync digests.sha256 files), faults)
  | .baseline view build baselineId faults =>
    match baselineSync layout view estate.machine build baselineId with
    | .error _ => none
    | .ok sync => some (.snapshot sync, faults)
  | .seed names faults => some (.seed names, faults)
  | .gc dryRun faults => some (.gc dryRun, faults)
  | .repair digest source faults => some (.repair digest source, faults)

def Action.machineAfter (machine : Machine Place) : Action Place → Machine Place
  | .propose proposal => (OsBaselines.run layout digests proposal machine).1
  | _ => machine

def Action.relayAfter (estate : Estate Place) (action : Action Place) : Relay :=
  match action.job layout digests estate with
  | none => estate.relay
  | some (job, faults) => job.relayAfter digests.sha256 dumps estate.relay faults

/-- Actions one after another, on a machine whose baselines were proposed and a relay that
starts empty. -/
def recording : System (Estate Place) (Action Place) where
  Initial estate := Committed estate.machine ∧ estate.relay = Volume.empty
  Enabled _ _ := True
  next estate action :=
    ⟨action.machineAfter layout digests estate.machine, action.relayAfter layout digests dumps estate⟩

/-- The snapshot an action has recorded when it reports success. -/
def Action.Recorded (estate : Estate Place) (action : Action Place) (kind : SnapshotKind)
    (snapshotId : String) (wanted : Wanted) : Prop :=
  ∃ job faults, action.job layout digests estate = some (job, faults) ∧
    job.Recorded digests.sha256 dumps estate.relay faults kind snapshotId ∧ job.wanted = wanted

/-- An action ends because the snapshot that is there differs. -/
def Action.Refused (estate : Estate Place) (action : Action Place) : Prop :=
  ∃ job faults, action.job layout digests estate = some (job, faults) ∧
    job.Refused digests.sha256 dumps estate.relay faults

/-- The staging tree of a payload is synced as it was hashed, and only files outside are
adopted. -/
def Action.Honest : Action Place → Prop
  | .provision build _ => ∀ entry ∈ (build.manifest digests.sha256).files,
      digests.sha256 (build.sources entry.path).bytes = entry.sha256
  | .seed names _ => ∀ name ∈ names, ∃ path, name = .slot (.outside path)
  | _ => True

/-- What an action is to record: what was staged, what goes on a medium, or what the cache
holds. -/
inductive Carried (estate : Estate Place) : Action Place → Path → Bytes → Prop
  | provision (build : PayloadBuild) (faults : List Fault) (file : Build.StagedFile)
      (isFile : file ∈ build.staging.payloadFiles) :
    Carried estate (.provision build faults) file.path file.content
  | bootstrap (host : BuildHost) (faults : List Fault) (files : List SourceFile) (path : Path)
      (bytes : Bytes) (read : payloadFiles digests.sha256 host = .ok files)
      (staged : stage files (fun _ => none) path = some bytes) :
    Carried estate (.bootstrap host faults) path bytes
  | baseline (view : CacheView Place) (build : Nat) (baselineId : String) (faults : List Fault)
      (baseline : Baseline) (file : BaselineFile) (bytes : Bytes)
      (there : estate.machine.baselines (build, baselineId) = some baseline)
      (isFile : file ∈ baseline.files)
      (cached : estate.machine.cache (layout.dest file.path) = some bytes) :
    Carried estate (.baseline view build baselineId faults) [file.filename] bytes

/-- What the ids name: three rules, one for each kind. -/
inductive Names (machine : Machine Place) : SnapshotKind → String → Wanted → Prop
  | payload (build : PayloadBuild) :
    Names machine .provisioningPayload (build.staging.payloadHash digests.sha256)
      (wantedBy (build.manifest digests.sha256).payload)
  | bootstrap (host : BuildHost) (files : List SourceFile)
      (read : payloadFiles digests.sha256 host = .ok files) :
    Names machine .bootstrapPayload (payloadHash digests.sha256 files)
      (wantedBy (files.map SourceFile.entry))
  | baseline (key : BaselineKey) (baseline : Baseline) (there : machine.baselines key = some baseline) :
    Names machine .windowsOsBaseline baseline.baselineId (wantedBy (baseline.files.map entryOf))

end Definitions

section Ids

variable {Place : Type} {machine : Machine Place}

theorem dash_not_in_number (number : Nat) : '-' ∉ (toString number).toList := by
  intro member
  rw [show toString number = number.repr from rfl, Nat.toList_repr] at member
  have isDigit := Nat.isDigit_of_mem_toDigits (by decide) (by decide) member
  exact absurd isDigit (by decide)

theorem number_injective {number other : Nat} (same : toString number = toString other) :
    number = other := by
  have digits : Nat.toDigits 10 number = Nat.toDigits 10 other := by
    rw [← Nat.toList_repr, ← Nat.toList_repr]
    exact congrArg String.toList same
  calc
    number = Nat.ofDigitChars 10 (Nat.toDigits 10 number) 0 := Nat.ofDigitChars_ten_toDigits.symm
    _ = Nat.ofDigitChars 10 (Nat.toDigits 10 other) 0 := by rw [digits]
    _ = other := Nat.ofDigitChars_ten_toDigits

/-- The build stands before the first dash of an id. -/
theorem build_of_id {build other : Nat} {month more : String}
    (same : toString build ++ "-" ++ month = toString other ++ "-" ++ more) : build = other := by
  have sameText := congrArg String.toList same
  simp only [String.toList_append, List.append_assoc] at sameText
  obtain ⟨digits, -⟩ := line_injective (dash_not_in_number build) (dash_not_in_number other) sameText
  exact number_injective (String.toList_inj.mp digits)

/-- Two baselines of one id are one, whatever builds they are of. -/
theorem eq_of_id (committed : Committed machine) {key other : BaselineKey} {first second : Baseline}
    (isFirst : machine.baselines key = some first) (isSecond : machine.baselines other = some second)
    (same : first.baselineId = second.baselineId) : first = second := by
  have one := committed key first isFirst
  have two := committed other second isSecond
  have sameBuild : first.build = second.build := by
    apply build_of_id
    rw [← one.month, ← two.month, same]
  rw [one.place] at isFirst
  rw [two.place, ← sameBuild, ← same, isFirst] at isSecond
  exact Option.some.inj isSecond

end Ids

section Naming

variable {Place : Type} {digests : Digests} {machine : Machine Place}

/-- Each id names one thing. -/
def naming (digests : Digests) (machine : Machine Place) (committed : Committed machine)
    (injective : Function.Injective digests.sha256)
    (hex : ∀ bytes, '\n' ∉ (digests.sha256 bytes).toList ∧ ' ' ∉ (digests.sha256 bytes).toList) :
    Naming where
  Names := Names digests machine
  unique := by
    intro kind snapshotId wanted other names namesOther
    generalize isId : snapshotId = otherId at namesOther
    cases names with
    | payload build =>
      cases namesOther with
      | payload otherBuild => exact wantedBy_payload_eq injective (fun bytes => (hex bytes).1) isId
    | bootstrap host files read =>
      cases namesOther with
      | bootstrap otherHost others readOther =>
        exact wantedBy_eq_of_hash injective hex (payload_of_payloadFiles read)
          (payload_of_payloadFiles readOther) isId
    | baseline key baseline there =>
      cases namesOther with
      | baseline otherKey otherBaseline thereOther => rw [eq_of_id committed there thereOther isId]

end Naming

section Actions

variable {Place : Type} [DecidableEq Place] {layout : Layout Place} {digests : Digests}
  {dumps : Manifest → Bytes} {estate : Estate Place} {action : Action Place} {job : Job}
  {faults : List Fault}

omit [DecidableEq Place] in
/-- The files of a baseline are recorded under the digests it says. -/
theorem entries_snapshotFiles {view : CacheView Place} {cache : Cache Place} {files : List BaselineFile}
    {sources : List SourceFile} (read : snapshotFiles layout view cache files = .ok sources) :
    sources.map SourceFile.entry = files.map entryOf := by
  induction files generalizing sources with
  | nil =>
    obtain rfl := Except.ok.inj read
    rfl
  | cons file rest ih =>
    rw [snapshotFiles] at read
    split at read
    · cases read
    · rename_i source isSource
      cases later : snapshotFiles layout view cache rest with
      | error message =>
        rw [later] at read
        cases read
      | ok more =>
        rw [later] at read
        obtain rfl := Except.ok.inj read
        have isEntry : source.entry = entryOf file := by
          unfold snapshotFile at isSource
          split at isSource
          · cases isSource
          · rw [← Except.ok.inj isSource]
        rw [List.map_cons, List.map_cons, isEntry, ih later]

variable (layout digests estate) in
/-- What an action comes to on the relay. -/
inductive ComesTo : Action Place → Job → Prop
  | provision (build : PayloadBuild) (faults : List Fault) :
    ComesTo (.provision build faults) (.payload (build.payload digests.sha256))
  | bootstrap (host : BuildHost) (faults : List Fault) (files : List SourceFile)
      (read : payloadFiles digests.sha256 host = .ok files) :
    ComesTo (.bootstrap host faults) (.snapshot (snapshotSync digests.sha256 files))
  | baseline (view : CacheView Place) (build : Nat) (baselineId : String) (faults : List Fault)
      (baseline : Baseline) (sources : List SourceFile)
      (there : estate.machine.baselines (build, baselineId) = some baseline)
      (read : snapshotFiles layout view estate.machine.cache baseline.files = .ok sources) :
    ComesTo (.baseline view build baselineId faults)
      (.snapshot ⟨.windowsOsBaseline, baseline.baselineId, sources⟩)
  | seed (names : List FileName) (faults : List Fault) : ComesTo (.seed names faults) (.seed names)
  | gc (dryRun : Bool) (faults : List Fault) : ComesTo (.gc dryRun faults) (.gc dryRun)
  | repair (digest : String) (source : FileName) (faults : List Fault) :
    ComesTo (.repair digest source faults) (.repair digest source)

omit [DecidableEq Place] in
theorem comesTo_of_job (isJob : action.job layout digests estate = some (job, faults)) :
    ComesTo layout digests estate action job := by
  cases action with
  | propose proposal => cases isJob
  | provision build faults =>
    obtain ⟨rfl, -⟩ := Prod.mk.inj (Option.some.inj isJob)
    exact .provision build faults
  | bootstrap host faults =>
    unfold Action.job at isJob
    dsimp only at isJob
    split at isJob
    · cases isJob
    · rename_i files read
      obtain ⟨rfl, -⟩ := Prod.mk.inj (Option.some.inj isJob)
      exact .bootstrap host faults files read
  | baseline view build baselineId faults =>
    unfold Action.job at isJob
    dsimp only at isJob
    split at isJob
    · cases isJob
    · rename_i sync isSync
      obtain ⟨rfl, -⟩ := Prod.mk.inj (Option.some.inj isJob)
      unfold baselineSync at isSync
      split at isSync
      · cases isSync
      · rename_i baseline there
        cases read : snapshotFiles layout view estate.machine.cache baseline.files with
        | error message =>
          rw [read] at isSync
          cases isSync
        | ok sources =>
          rw [read] at isSync
          obtain rfl := Except.ok.inj isSync
          exact .baseline view build baselineId faults baseline sources there read
  | seed names faults =>
    obtain ⟨rfl, -⟩ := Prod.mk.inj (Option.some.inj isJob)
    exact .seed names faults
  | gc dryRun faults =>
    obtain ⟨rfl, -⟩ := Prod.mk.inj (Option.some.inj isJob)
    exact .gc dryRun faults
  | repair digest source faults =>
    obtain ⟨rfl, -⟩ := Prod.mk.inj (Option.some.inj isJob)
    exact .repair digest source faults

omit [DecidableEq Place] in
theorem mem_snapshotFiles {view : CacheView Place} {cache : Cache Place} {files : List BaselineFile}
    {sources : List SourceFile} (read : snapshotFiles layout view cache files = .ok sources)
    {file : BaselineFile} (isFile : file ∈ files) :
    ∃ source ∈ sources, snapshotFile layout view cache file = .ok source := by
  induction files generalizing sources with
  | nil => cases isFile
  | cons first rest ih =>
    rw [snapshotFiles] at read
    split at read
    · cases read
    · rename_i source isSource
      cases later : snapshotFiles layout view cache rest with
      | error message =>
        rw [later] at read
        cases read
      | ok more =>
        rw [later] at read
        obtain rfl := Except.ok.inj read
        rcases List.mem_cons.mp isFile with rfl | isLater
        · exact ⟨source, List.mem_cons_self, isSource⟩
        · obtain ⟨other, member, isOther⟩ := ih later isLater
          exact ⟨other, List.mem_cons_of_mem _ member, isOther⟩

omit [DecidableEq Place] in
/-- When the files of a baseline are checked, the cache holds them with their digests. -/
theorem cached_of_checked {view : CacheView Place} {cache : Cache Place} {files : List BaselineFile}
    {sources : List SourceFile} (read : snapshotFiles layout view cache files = .ok sources)
    (checked : ∀ source ∈ sources, source.actual digests.sha256 = source.entry.sha256)
    {file : BaselineFile} (isFile : file ∈ files) :
    ∃ bytes, cache (layout.dest file.path) = some bytes ∧ digests.sha256 bytes = file.sha256 := by
  obtain ⟨source, member, isSource⟩ := mem_snapshotFiles read isFile
  unfold snapshotFile at isSource
  split at isSource
  · cases isSource
  · rename_i bytes cached
    have same := checked source member
    rw [← Except.ok.inj isSource] at same
    exact ⟨bytes, cached, same⟩

omit [DecidableEq Place] in
/-- A baseline that is recorded wants what the cache holds: two files of one name are one file
of the cache. -/
theorem wanted_baseline (injective : Function.Injective digests.sha256) {view : CacheView Place}
    {cache : Cache Place} {baseline : Baseline} {sources : List SourceFile}
    (keyed : ∀ file ∈ baseline.files, file.path = assetKey baseline.build file.filename)
    (read : snapshotFiles layout view cache baseline.files = .ok sources)
    (checked : ∀ source ∈ sources, source.actual digests.sha256 = source.entry.sha256)
    {path : Path} {bytes : Bytes} :
    wantedBy (sources.map SourceFile.entry) path = some (digests.sha256 bytes) ↔
      ∃ file ∈ baseline.files, path = [file.filename] ∧ cache (layout.dest file.path) = some bytes := by
  rw [entries_snapshotFiles read]
  have found : ∀ digest, wantedBy (baseline.files.map entryOf) path = some digest →
      ∃ file ∈ baseline.files, path = [file.filename] ∧ file.sha256 = digest := by
    intro digest isWanted
    obtain ⟨entry, member, rfl, rfl⟩ := entry_of_wantedBy isWanted
    obtain ⟨file, isFile, rfl⟩ := List.mem_map.mp member
    exact ⟨file, isFile, rfl, rfl⟩
  constructor
  · intro isWanted
    obtain ⟨file, isFile, isPath, digest⟩ := found _ isWanted
    obtain ⟨held, cached, hashes⟩ := cached_of_checked read checked isFile
    refine ⟨file, isFile, isPath, ?_⟩
    rw [cached, injective (hashes.trans digest)]
  · rintro ⟨file, isFile, rfl, cached⟩
    have isSome : (wantedBy (baseline.files.map entryOf) [file.filename]).isSome := by
      apply wantedBy_isSome.mpr
      rw [List.map_map]
      exact List.mem_map_of_mem (f := Entry.path ∘ entryOf) isFile
    obtain ⟨digest, isWanted⟩ := Option.isSome_iff_exists.mp isSome
    obtain ⟨other, isOther, sameName, rfl⟩ := found digest isWanted
    obtain ⟨held, cachedOther, hashes⟩ := cached_of_checked read checked isOther
    rw [keyed other isOther, ← List.singleton_inj.mp sameName, ← keyed file isFile, cached,
      Option.some.injEq] at cachedOther
    rw [isWanted, ← hashes, cachedOther]

omit [DecidableEq Place] in
/-- What an action has recorded is what it was to record. -/
theorem ComesTo.wanted_iff (comesTo : ComesTo layout digests estate action job)
    (injective : Function.Injective digests.sha256) (committed : Committed estate.machine) {kind : SnapshotKind}
    {snapshotId : String} {path : Path} {bytes : Bytes}
    (recorded : job.Recorded digests.sha256 dumps estate.relay faults kind snapshotId) :
    job.wanted path = some (digests.sha256 bytes) ↔ Carried layout digests estate action path bytes := by
  cases comesTo with
  | provision build faults =>
    refine wantedBy_payload.trans ⟨?_, ?_⟩
    · rintro ⟨file, isFile, rfl, same⟩
      rw [← injective same]
      exact .provision build faults file isFile
    · rintro ⟨_, _, file, isFile⟩
      exact ⟨file, isFile, rfl, rfl⟩
  | bootstrap host faults files read =>
    refine (wantedBy_iff_stage injective (payload_of_payloadFiles read)).trans ⟨?_, ?_⟩
    · exact .bootstrap host faults files path bytes read
    · intro carried
      cases carried with
      | bootstrap _ _ others _ _ readOther staged =>
        rw [read, Except.ok.injEq] at readOther
        exact readOther ▸ staged
  | baseline view build baselineId faults baseline sources there read =>
    have checked := SnapshotSync.checked recorded.1
    refine (wanted_baseline injective (committed _ baseline there).keyed read checked).trans ⟨?_, ?_⟩
    · rintro ⟨file, isFile, rfl, cached⟩
      exact .baseline view build baselineId faults baseline file bytes there isFile cached
    · intro carried
      cases carried with
      | baseline _ _ _ _ other file _ thereOther isFile cached =>
        rw [there, Option.some.injEq] at thereOther
        exact ⟨file, thereOther ▸ isFile, rfl, cached⟩
  | seed names faults => exact recorded.elim
  | gc dryRun faults => exact recorded.elim
  | repair digest source faults => exact recorded.elim

omit [DecidableEq Place] in
/-- What an action does on the relay is allowed by the ids of every machine that has the
baselines of this one. -/
theorem ComesTo.allows {later : Machine Place} (comesTo : ComesTo layout digests estate action job)
    (committed : Committed later) (injective : Function.Injective digests.sha256)
    (hex : ∀ bytes, '\n' ∉ (digests.sha256 bytes).toList ∧ ' ' ∉ (digests.sha256 bytes).toList)
    (kept : ∀ key baseline, estate.machine.baselines key = some baseline →
      later.baselines key = some baseline) :
    (naming digests later committed injective hex).Allows job := by
  cases comesTo with
  | provision build faults => exact ⟨_, rfl, .payload build⟩
  | bootstrap host faults files read => exact .bootstrap host files read
  | baseline view build baselineId faults baseline sources there read =>
    change Names digests later .windowsOsBaseline baseline.baselineId
      (wantedBy (sources.map SourceFile.entry))
    rw [entries_snapshotFiles read]
    exact .baseline (build, baselineId) baseline (kept _ baseline there)
  | seed names faults => trivial
  | gc dryRun faults => trivial
  | repair digest source faults => trivial

omit [DecidableEq Place] in
theorem ComesTo.honest (comesTo : ComesTo layout digests estate action job)
    (honest : action.Honest digests) : job.Honest digests.sha256 := by
  cases comesTo with
  | provision build faults => exact honest
  | bootstrap host faults files read => trivial
  | baseline view build baselineId faults baseline sources there read => trivial
  | seed names faults => exact honest
  | gc dryRun faults => trivial
  | repair digest source faults => trivial

/-- A proposal replaces no baseline, and no other action touches any. -/
theorem machineAfter_kept {machine : Machine Place} {key : BaselineKey} {baseline : Baseline}
    (there : machine.baselines key = some baseline) :
    (action.machineAfter layout digests machine).baselines key = some baseline := by
  cases action with
  | propose proposal => exact OsBaselines.baseline_kept there
  | _ => exact there

theorem committed_after {machine : Machine Place} (committed : Committed machine) :
    Committed (action.machineAfter layout digests machine) := by
  cases action with
  | propose proposal => exact committed.run
  | _ => exact committed

/-- What is done on the relay when an action is taken. -/
def jobTaken (layout : Layout Place) (digests : Digests) (taken : System.Taken (Estate Place) (Action Place)) :
    Option (System.Taken Relay (Job × List Fault)) :=
  (taken.2.job layout digests taken.1).map fun job => (taken.1.relay, job)

end Actions

section Runs

variable {Place : Type} [DecidableEq Place] {layout : Layout Place} {digests : Digests}
  {dumps : Manifest → Bytes} {start final : Estate Place}
  {trace : List (System.Taken (Estate Place) (Action Place))}

theorem committed_of_run (run : (recording layout digests dumps).Run start trace final) :
    Committed final.machine := by
  induction run with
  | initial valid => exact valid.1
  | step prior enabled ih => exact committed_after ih

/-- What is done on the relay in a run is a run of its own, under the ids of every machine that
comes later, by induction on the run: the ids name at its end what they named all along. -/
theorem jobs_of_run {later : Machine Place} (committed : Committed later)
    (injective : Function.Injective digests.sha256)
    (hex : ∀ bytes, '\n' ∉ (digests.sha256 bytes).toList ∧ ' ' ∉ (digests.sha256 bytes).toList)
    (run : (recording layout digests dumps).Run start trace final)
    (kept : ∀ key baseline, final.machine.baselines key = some baseline →
      later.baselines key = some baseline) :
    (keeping digests.sha256 dumps (naming digests later committed injective hex)).Run Volume.empty
      (trace.filterMap (jobTaken layout digests)) final.relay := by
  induction run with
  | initial valid =>
    rw [valid.2]
    exact .initial rfl
  | @step trace estate action prior enabled ih =>
    have keptBefore : ∀ key baseline, estate.machine.baselines key = some baseline →
        later.baselines key = some baseline :=
      fun key baseline there => kept key baseline (machineAfter_kept there)
    have before := ih keptBefore
    rw [List.filterMap_append]
    change (keeping digests.sha256 dumps _).Run Volume.empty
      (trace.filterMap (jobTaken layout digests) ++ [(estate, action)].filterMap (jobTaken layout digests))
      (action.relayAfter layout digests dumps estate)
    cases isJob : action.job layout digests estate with
    | none =>
      have nothing : [(estate, action)].filterMap (jobTaken layout digests) = [] := by
        simp [jobTaken, isJob]
      rw [nothing, List.append_nil, Action.relayAfter, isJob]
      exact before
    | some job =>
      have one : [(estate, action)].filterMap (jobTaken layout digests) = [(estate.relay, job)] := by
        simp [jobTaken, isJob]
      have relayAfter : action.relayAfter layout digests dumps estate =
          job.1.relayAfter digests.sha256 dumps estate.relay job.2 := by
        rw [Action.relayAfter, isJob]
      rw [one, relayAfter]
      exact before.step ((comesTo_of_job isJob).allows committed injective hex keptBefore)

omit [DecidableEq Place] in
theorem mem_jobs {taken : System.Taken (Estate Place) (Action Place)} (member : taken ∈ trace) {job : Job}
    {faults : List Fault} (isJob : taken.2.job layout digests taken.1 = some (job, faults)) :
    (taken.1.relay, (job, faults)) ∈ trace.filterMap (jobTaken layout digests) := by
  apply List.mem_filterMap.mpr
  refine ⟨taken, member, ?_⟩
  rw [jobTaken, isJob]
  rfl

/-- Nothing is refused, and what was recorded is there. -/
theorem records_of_run (injective : Function.Injective digests.sha256)
    (hex : ∀ bytes, '\n' ∉ (digests.sha256 bytes).toList ∧ ' ' ∉ (digests.sha256 bytes).toList)
    (run : (recording layout digests dumps).Run start trace final) :
    ∀ taken ∈ trace, ¬taken.2.Refused layout digests dumps taken.1 ∧
      ∀ kind snapshotId wanted, taken.2.Recorded layout digests dumps taken.1 kind snapshotId wanted →
        Matches final.relay (.snapshot kind snapshotId) wanted := by
  intro taken member
  have jobs := jobs_of_run (committed_of_run run) injective hex run fun _ _ => id
  constructor
  · rintro ⟨job, faults, isJob, refused⟩
    exact notRefused_of_run jobs _ (mem_jobs member isJob) refused
  · rintro kind snapshotId wanted ⟨job, faults, isJob, recorded, rfl⟩
    exact matches_of_run jobs (mem_jobs member isJob) recorded

/-- The relay is intact after a run whose syncs send what was hashed. -/
theorem intact_after (injective : Function.Injective digests.sha256)
    (hex : ∀ bytes, '\n' ∉ (digests.sha256 bytes).toList ∧ ' ' ∉ (digests.sha256 bytes).toList)
    (run : (recording layout digests dumps).Run start trace final)
    (honest : ∀ taken ∈ trace, taken.2.Honest digests) : Intact digests.sha256 final.relay := by
  have jobs := jobs_of_run (committed_of_run run) injective hex run fun _ _ => id
  apply intact_of_run injective jobs
  intro done member
  obtain ⟨taken, isTaken, isDone⟩ := List.mem_filterMap.mp member
  obtain ⟨⟨job, faults⟩, isJob, rfl⟩ := Option.map_eq_some_iff.mp isDone
  exact (comesTo_of_job isJob).honest (honest taken isTaken)

theorem committed_of_taken (run : (recording layout digests dumps).Run start trace final) :
    ∀ taken ∈ trace, Committed taken.1.machine := by
  induction run with
  | initial => exact List.forall_mem_nil _
  | step prior enabled ih =>
    exact List.forall_mem_append.mpr ⟨ih, List.forall_mem_singleton.mpr (committed_of_run prior)⟩

/-- What was recorded reads back, byte for byte and at any later time, as what was staged, what
goes on a medium or what the cache held. -/
theorem content_of_run (injective : Function.Injective digests.sha256)
    (hex : ∀ bytes, '\n' ∉ (digests.sha256 bytes).toList ∧ ' ' ∉ (digests.sha256 bytes).toList)
    (run : (recording layout digests dumps).Run start trace final)
    (honest : ∀ taken ∈ trace, taken.2.Honest digests) :
    ∀ taken ∈ trace, ∀ kind snapshotId wanted,
      taken.2.Recorded layout digests dumps taken.1 kind snapshotId wanted →
      ∀ path bytes, content final.relay (.snapshot kind snapshotId) path = some bytes ↔
        Carried layout digests taken.1 taken.2 path bytes := by
  rintro taken member kind snapshotId wanted ⟨job, faults, isJob, recorded, rfl⟩ path bytes
  have jobs := jobs_of_run (committed_of_run run) injective hex run fun _ _ => id
  have holds := matches_of_run jobs (mem_jobs member isJob) recorded
  rw [(intact_after injective hex run honest).content_iff injective holds]
  exact (comesTo_of_job isJob).wanted_iff injective (committed_of_taken run taken member) recorded

end Runs

section Samples

/-- Digests that spell out the bytes. -/
def spelledDigests : Digests where
  sha1 := OsBaselines.sampleDigests.sha1
  sha256 := spelled

/-- The relay before anything is recorded. -/
def bareEstate : Estate String where
  machine := OsBaselines.emptyMachine
  relay := Volume.empty

/-- The cache of the build host. -/
def hostView : CacheView String where
  printed := printed "C:\\MAST\\provider-assets"
  mtime := fun _ => 7

/-- A payload for a medium, then a month of updates, and a gc. -/
def firstMonth : List (Action String) :=
  [.bootstrap field [], .propose OsBaselines.lcuProposal, .baseline hostView 19044 "19044-2026-09" [],
    .gc false []]

abbrev sampleRecording : System (Estate String) (Action String) :=
  recording OsBaselines.plainLayout spelledDigests fun _ => []

theorem firstMonth_run :
    sampleRecording.Run bareEstate (sampleRecording.steps bareEstate firstMonth)
      (sampleRecording.after bareEstate firstMonth) := by
  apply System.Run.ofLabels
  · refine ⟨?_, rfl⟩
    rintro key baseline ⟨⟩
  · exact ⟨trivial, trivial, trivial, trivial, trivial⟩

theorem records_of_run_firstMonth :
    ∀ taken ∈ sampleRecording.steps bareEstate firstMonth,
      ¬taken.2.Refused OsBaselines.plainLayout spelledDigests (fun _ => []) taken.1 ∧
        ∀ kind snapshotId wanted,
          taken.2.Recorded OsBaselines.plainLayout spelledDigests (fun _ => []) taken.1 kind snapshotId
            wanted →
          Matches (sampleRecording.after bareEstate firstMonth).relay (.snapshot kind snapshotId) wanted :=
  records_of_run spelled_injective spelled_plain firstMonth_run

theorem payloadHash_fieldFiles :
    payloadHash spelled fieldFiles = spelled (Build.utf8 "1  bootstrap.cmd\n2  npcap.exe") := by
  have sorted : ((fieldFiles.map payloadLine).mergeSort fun line other => decide (line ≤ other)) =
      fieldFiles.map payloadLine := List.mergeSort_of_pairwise (by decide +kernel)
  rw [payloadHash]
  simp only [sorted]
  decide +kernel

theorem field_recorded :
    (Action.bootstrap field []).Recorded OsBaselines.plainLayout spelledDigests (fun _ => []) bareEstate
      .bootstrapPayload (payloadHash spelled fieldFiles)
      (wantedBy (fieldFiles.map SourceFile.entry)) := by
  refine ⟨.snapshot (snapshotSync spelled fieldFiles), [], ?_, ⟨?_, rfl, rfl⟩, rfl⟩
  · rw [Action.job]
    rw [show payloadFiles spelledDigests.sha256 field = _ from field_files]
    rfl
  · rw [snapshotSync, payloadHash_fieldFiles]
    decide +kernel

/-- The payload reads back after the month's updates and the gc. -/
theorem content_of_run_field :
    content (sampleRecording.after bareEstate firstMonth).relay
      (.snapshot .bootstrapPayload (payloadHash spelled fieldFiles)) ["bootstrap.cmd"] = some [1] := by
  have honest : ∀ taken ∈ sampleRecording.steps bareEstate firstMonth, taken.2.Honest spelledDigests := by
    intro taken member
    have isAction := System.label_of_mem_steps member
    simp only [firstMonth, List.mem_cons, List.not_mem_nil, or_false] at isAction
    rcases isAction with isAction | isAction | isAction | isAction <;> rw [isAction] <;> trivial
  have taken : (bareEstate, Action.bootstrap field []) ∈ sampleRecording.steps bareEstate firstMonth :=
    List.mem_cons_self
  refine (content_of_run spelled_injective spelled_plain firstMonth_run honest _ taken _ _ _ field_recorded
    _ _).mpr ?_
  exact .bootstrap field [] fieldFiles _ _ field_files rfl

end Samples

end MastProvisioning.Fleet.RelayRecords
