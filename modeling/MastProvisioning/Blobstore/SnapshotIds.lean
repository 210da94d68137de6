import MastProvisioning.Semantics.System
import MastProvisioning.Blobstore.PayloadNames

/-!
# What an id names

Snapshots are recorded under ids that their callers make: the hash of a payload, the id of a
baseline. A naming says what may be recorded under an id, and that it is one thing. The
relay keeps a naming when what is there under an id is what the id names.

Whatever is synced in whatever order, seeded, collected and repaired in between, done, failed
or cut off: the relay keeps the naming, a snapshot that was recorded stays, and no sync is
refused on account of a snapshot that differs.
-/

namespace MastProvisioning.Blobstore

open MastProvisioning.Semantics MastProvisioning.Semantics.Command
open MastProvisioning.Collections MastProvisioning.Storage
open MastProvisioning.Build (relativePath)

section Syncing

variable (sha256 : Bytes → String) (dumps : Manifest → Bytes)

/-- A file of a snapshot: its entry, where its bytes are on the machine that syncs, and what
is there, if it is a file. -/
structure SourceFile where
  entry : Entry
  source : String
  found : Option Source

/-- What the file hashes to. -/
def SourceFile.actual (file : SourceFile) : String :=
  (file.found.map fun source => sha256 source.bytes).getD "absent"

/-- What `sync_snapshot` is called with. -/
structure SnapshotSync where
  kind : SnapshotKind
  snapshotId : String
  files : List SourceFile

def SnapshotSync.manifest (sync : SnapshotSync) : Manifest where
  payloadHash := none
  files := sync.files.map SourceFile.entry

/-- `{f.sha256: f.source for f in files}`. -/
def SnapshotSync.sources (sync : SnapshotSync) : List (String × Source) :=
  OrderedDict.setAll id [] (sync.files.filterMap fun file =>
    file.found.map fun source => (file.entry.sha256, source))

/-- A file is sent only under the digest it has. -/
def checkFile (file : SourceFile) : Command Relay Unit :=
  require (file.actual sha256 = file.entry.sha256)
    (relativePath file.entry.path ++ ": " ++ (file.source ++ " is " ++ file.actual sha256 ++
      ", not " ++ file.entry.sha256))

/-- `sync_snapshot`. -/
def syncSnapshot (sync : SnapshotSync) : Command Relay SnapshotState := do
  forEach sync.files (checkFile sha256)
  let missing ← cmdWant sync.manifest
  whenever (!missing.isEmpty) (uploadBlobs sync.sources missing)
  cmdSnapshot dumps sync.kind sync.snapshotId sync.manifest

/-- What is done on the relay, one thing at a time. -/
inductive Job
  | payload (build : Payload)
  | snapshot (sync : SnapshotSync)
  | seed (names : List FileName)
  | gc (dryRun : Bool)
  | repair (digest : String) (source : FileName)

def Job.relayAfter (relay : Relay) (faults : List Fault) : Job → Relay
  | .payload build => (syncPayload dumps build ⟨relay, faults⟩).2.state
  | .snapshot sync => (syncSnapshot sha256 dumps sync ⟨relay, faults⟩).2.state
  | .seed names => (cmdSeed sha256 names ⟨relay, faults⟩).2.state
  | .gc dryRun => (cmdGc dryRun ⟨relay, faults⟩).2.state
  | .repair digest source => (cmdRepair sha256 digest source ⟨relay, faults⟩).2.state

/-- What a job is to record. -/
def Job.wanted : Job → Wanted
  | .payload build => wantedBy build.manifest.payload
  | .snapshot sync => wantedBy sync.manifest.files
  | _ => fun _ => none

/-- The snapshot a job has recorded when it reports success. -/
def Job.Recorded (relay : Relay) (faults : List Fault) (kind : SnapshotKind) (snapshotId : String) :
    Job → Prop
  | .payload build => (syncPayload dumps build ⟨relay, faults⟩).1.isDone = true ∧
      kind = .provisioningPayload ∧ build.manifest.payloadHash = some snapshotId
  | .snapshot sync => (syncSnapshot sha256 dumps sync ⟨relay, faults⟩).1.isDone = true ∧
      kind = sync.kind ∧ snapshotId = sync.snapshotId
  | _ => False

/-- A sync ends because the snapshot that is there differs. -/
def Job.Refused (relay : Relay) (faults : List Fault) : Job → Prop
  | .payload build =>
    (syncPayload dumps build ⟨relay, faults⟩).1 = .raised "exists and differs from this manifest"
  | .snapshot sync =>
    (syncSnapshot sha256 dumps sync ⟨relay, faults⟩).1 =
      .raised "exists and differs from this manifest"
  | _ => False

end Syncing

/-- What may be recorded under an id: one thing. -/
structure Naming where
  Names : SnapshotKind → String → Wanted → Prop
  unique : ∀ kind snapshotId wanted other, Names kind snapshotId wanted →
    Names kind snapshotId other → wanted = other

namespace Naming

variable {naming : Naming} {sha256 : Bytes → String} {dumps : Manifest → Bytes}
  {relay after : Relay} {faults : List Fault} {kind : SnapshotKind} {snapshotId : String}

/-- What is there under an id is what the id names. -/
def Keeps (naming : Naming) (relay : Relay) : Prop :=
  ∀ kind snapshotId wanted, naming.Names kind snapshotId wanted → Exists relay kind snapshotId →
    Matches relay (.snapshot kind snapshotId) wanted

/-- A job records under an id what the id names. -/
def Allows (naming : Naming) : Job → Prop
  | .payload build => ∃ payloadHash, build.manifest.payloadHash = some payloadHash ∧
      naming.Names .provisioningPayload payloadHash (wantedBy build.manifest.payload)
  | .snapshot sync => naming.Names sync.kind sync.snapshotId (wantedBy sync.manifest.files)
  | _ => True

/-- A step that does not move trees nor what they are linked to. -/
theorem Keeps.congr (keeps : naming.Keeps relay) (nodes : NodesKept relay after)
    (blobs : ∀ tree path digest ino, relay.node? tree path = some (.file ino) →
      relay.slot? (.blob digest) = some ino → after.slot? (.blob digest) = some ino) :
    naming.Keeps after := by
  intro kind snapshotId wanted names isThere
  have holds := keeps kind snapshotId wanted names fun absent => isThere ((nodes _ []).trans absent)
  apply holds.congr _ (nodes _)
  intro path digest isWanted
  obtain ⟨ino, isBlob, isFile⟩ := holds.linked path digest isWanted
  rw [isBlob]
  exact blobs _ path digest ino isFile isBlob

/-- A command, an upload apart, keeps the blobs that trees are linked to. -/
theorem blob_kept {order : Order} (noUpload : ∀ blobs, order ≠ .upload blobs) {tree : Tree} {path : Path}
    {digest : String} {ino : Nat} (isFile : relay.node? tree path = some (.file ino))
    (isBlob : relay.slot? (.blob digest) = some ino) :
    (order.relayAfter sha256 dumps relay faults).slot? (.blob digest) = some ino := by
  cases order with
  | seed names =>
    exact ((cmdSeed_names names relay .refl).final faults).blobs digest ino trivial isBlob
  | want manifest =>
    have read : Preserves .interrupted (NamesKept (fun _ _ => True) relay) (cmdWant manifest) :=
      .query _
    exact ((read relay .refl).final faults).blobs digest ino trivial isBlob
  | upload blobs => exact absurd rfl (noUpload blobs)
  | assemble host manifest =>
    have kept : Preserves .interrupted (TreesKept (fun _ => False) relay)
        (cmdAssemble dumps host manifest) :=
      cmdAssemble_keepsTrees id (fun _ _ => id) fun _ _ => False.elim
    exact (((kept relay .refl).final faults).blob digest).trans isBlob
  | snapshot kind snapshotId manifest =>
    have kept : Preserves .interrupted (TreesKept (fun _ => False) relay)
        (cmdSnapshot dumps kind snapshotId manifest) :=
      snapshot_keepsTrees id False.elim _
    exact (((kept relay .refl).final faults).blob digest).trans isBlob
  | gc dryRun =>
    exact ((cmdGc_names dryRun relay .refl).final faults).blobs digest ino ⟨tree, path, isFile⟩ isBlob
  | repair digest' source =>
    exact (((cmdRepair_names digest' source).final faults).2 _).trans isBlob

/-- A command, an upload apart, that records what the ids name keeps the naming. -/
theorem Keeps.order {order : Order} (keeps : naming.Keeps relay)
    (noUpload : ∀ blobs, order ≠ .upload blobs)
    (named : ∀ kind snapshotId wanted, order.Records kind snapshotId = some wanted →
      naming.Names kind snapshotId wanted) :
    naming.Keeps (order.relayAfter sha256 dumps relay faults) := by
  intro kind snapshotId wanted names isThere
  by_cases wasThere : Exists relay kind snapshotId
  · have holds := keeps kind snapshotId wanted names wasThere
    apply holds.congr _ (order.treeKept wasThere)
    intro path digest isWanted
    obtain ⟨ino, isBlob, isFile⟩ := holds.linked path digest isWanted
    rw [isBlob]
    exact blob_kept noUpload isFile isBlob
  · cases records : order.Records kind snapshotId with
    | none => exact absurd isThere (order.stillAbsent wasThere records)
    | some recorded =>
      cases isDone : order.isDone dumps relay faults with
      | false => exact absurd isThere (order.records_failed wasThere records isDone)
      | true =>
        rw [naming.unique kind snapshotId wanted recorded names (named _ _ _ records)]
        exact order.records_done records isDone

/-- Uploading what is missing keeps the naming. -/
theorem Keeps.uploading (keeps : naming.Keeps relay) (sources : List (String × Source))
    (manifest : Manifest) :
    Meets .interrupted
      (whenever (!(missingDigests relay manifest).isEmpty)
        (uploadBlobs sources (missingDigests relay manifest))) relay
      (fun _ after => naming.Keeps after ∧ NodesKept relay after)
      fun after => naming.Keeps after ∧ NodesKept relay after := by
  have uploaded : ∀ after, (∀ digest ino, relay.slot? (.blob digest) = some ino →
      BlobKept relay digest ino after) ∧ NodesKept relay after →
      naming.Keeps after ∧ NodesKept relay after := by
    rintro after ⟨kept, nodes⟩
    exact ⟨keeps.congr nodes fun _ _ digest ino _ isBlob => (kept digest ino isBlob).slot, nodes⟩
  refine whenever_meets (fun _ => ?_) fun _ => ⟨keeps, fun _ _ => rfl⟩
  exact ((uploadMissing_keeps sources manifest).and (uploadBlobs_nodes relay fun _ _ => rfl)).mono
    (fun _ => uploaded) uploaded

theorem checkFiles_meets (files : List SourceFile) :
    Meets .interrupted (forEach files (checkFile sha256) : Command Relay Unit) relay
      (fun _ after => after = relay) fun after => after = relay := by
  have same : Preserves .interrupted (· = relay) (forEach files (checkFile sha256)) :=
    .forEach fun file _ => .require _ _
  exact same relay rfl

theorem checkFile_notRefusal (file : SourceFile) : Raises NotRefusal (checkFile sha256 file) := by
  refine .require fun _ same => ?_
  have colon : ':' ∈ "exists and differs from this manifest".toList := by
    rw [← same]
    simp
  exact absurd colon (by decide)

/-- What is kept while a sync asks, uploads and records. -/
abbrev StillThere (naming : Naming) (relay after : Relay) : Prop :=
  naming.Keeps after ∧ ∀ kind snapshotId, Exists relay kind snapshotId → Exists after kind snapshotId

variable (sha256 dumps) in
theorem stillThere_order (order : Order) (keeps : naming.Keeps relay)
    (noUpload : ∀ blobs, order ≠ .upload blobs)
    (named : ∀ kind snapshotId wanted, order.Records kind snapshotId = some wanted →
      naming.Names kind snapshotId wanted) :
    naming.StillThere relay (order.relayAfter sha256 dumps relay faults) :=
  ⟨keeps.order noUpload named, fun _ _ isThere absent =>
    isThere ((order.treeKept isThere []).symm.trans absent)⟩

theorem stillThere_upload (keeps : naming.Keeps relay) (sources : List (String × Source))
    (manifest : Manifest) :
    Meets .interrupted
      (whenever (!(missingDigests relay manifest).isEmpty)
        (uploadBlobs sources (missingDigests relay manifest))) relay
      (fun _ => naming.StillThere relay) (naming.StillThere relay) := by
  apply (keeps.uploading sources manifest).mono
  · rintro _ after ⟨still, nodes⟩
    exact ⟨still, fun _ _ isThere absent => isThere ((nodes _ []).symm.trans absent)⟩
  · rintro after ⟨still, nodes⟩
    exact ⟨still, fun _ _ isThere absent => isThere ((nodes _ []).symm.trans absent)⟩

theorem StillThere.trans {middle : Relay} (first : naming.StillThere relay middle)
    (second : naming.StillThere middle after) : naming.StillThere relay after :=
  ⟨second.1, fun _ _ isThere => second.2 _ _ (first.2 _ _ isThere)⟩

theorem StillThere.refl (keeps : naming.Keeps relay) : naming.StillThere relay relay :=
  ⟨keeps, fun _ _ => id⟩

/-- A sync keeps the naming when its last command does. -/
theorem stillThere_sync {Value : Type} {command : Command Relay Value} (keeps : naming.Keeps relay)
    (sources : List (String × Source)) (manifest : Manifest)
    (last : ∀ middle, naming.Keeps middle → ∀ faults,
      naming.StillThere middle (command ⟨middle, faults⟩).2.state) :
    Meets .interrupted (do
        let missing ← cmdWant manifest
        whenever (!missing.isEmpty) (uploadBlobs sources missing)
        command) relay
      (fun _ => naming.StillThere relay) (naming.StillThere relay) := by
  refine .query_bind ?_ fun _ => .refl keeps
  refine (stillThere_upload keeps sources manifest).bind fun _ middle still => ?_
  exact .ofFinal fun faults => StillThere.trans still (last middle still.1 faults)

/-- A sync is not refused when its last command is not. -/
theorem notRefused_sync {Value : Type} {command : Command Relay Value} (keeps : naming.Keeps relay)
    (sources : List (String × Source)) (manifest : Manifest)
    (last : ∀ middle, naming.Keeps middle → RaisesFrom NotRefusal middle command) :
    RaisesFrom NotRefusal relay (do
      let missing ← cmdWant manifest
      whenever (!missing.isEmpty) (uploadBlobs sources missing)
      command) := by
  refine .bind (call_notRefusal (by decide)).from_
    (.query ⟨rfl, rfl⟩ fun _ => trivial : Meets _ _ _ (fun missing after =>
      missing = missingDigests relay manifest ∧ after = relay) fun _ => True) ?_
  rintro _ _ ⟨rfl, rfl⟩
  refine .bind (whenever_notRefusal (.bind (.require fun _ => by decide) fun _ =>
    .forEach fun blob => call_notRefusal (by decide))).from_ (stillThere_upload keeps sources manifest) ?_
  exact fun _ middle still => last middle still.1

/-- A job that is allowed keeps the naming and every snapshot. -/
theorem stillThere_job {job : Job} (keeps : naming.Keeps relay) (allowed : naming.Allows job) :
    naming.StillThere relay (job.relayAfter sha256 dumps relay faults) := by
  cases job with
  | payload build =>
    obtain ⟨payloadHash, isHash, names⟩ := allowed
    have last : ∀ middle, naming.Keeps middle → ∀ faults, naming.StillThere middle
        (cmdAssemble dumps build.host build.manifest ⟨middle, faults⟩).2.state := by
      intro middle still faults
      apply stillThere_order sha256 dumps (.assemble build.host build.manifest) still
      · exact fun _ => nofun
      · intro kind snapshotId wanted records
        obtain ⟨⟨rfl, same⟩, rfl⟩ := Order.Records_assemble.mp records
        rw [isHash, Option.some.injEq] at same
        exact same ▸ names
    have synced : Meets .interrupted (syncPayload dumps build) relay
        (fun _ => naming.StillThere relay) (naming.StillThere relay) :=
      .require_bind (fun _ => stillThere_sync keeps build.sources build.manifest last)
        fun _ => .refl keeps
    exact synced.final faults
  | snapshot sync =>
    have last : ∀ middle, naming.Keeps middle → ∀ faults, naming.StillThere middle
        (cmdSnapshot dumps sync.kind sync.snapshotId sync.manifest ⟨middle, faults⟩).2.state := by
      intro middle still faults
      apply stillThere_order sha256 dumps (.snapshot sync.kind sync.snapshotId sync.manifest) still
      · exact fun _ => nofun
      · intro kind snapshotId wanted records
        obtain ⟨⟨rfl, rfl⟩, rfl⟩ := Order.Records_snapshot.mp records
        exact allowed
    have synced : Meets .interrupted (syncSnapshot sha256 dumps sync) relay
        (fun _ => naming.StillThere relay) (naming.StillThere relay) := by
      refine ((checkFiles_meets sync.files).mono (fun _ _ => id) ?_).bind ?_
      · rintro after rfl
        exact .refl keeps
      · rintro _ after rfl
        exact stillThere_sync keeps sync.sources sync.manifest last
    exact synced.final faults
  | seed names =>
    exact stillThere_order sha256 dumps (.seed names) keeps (fun _ => nofun) fun _ _ _ => nofun
  | gc dryRun =>
    exact stillThere_order sha256 dumps (.gc dryRun) keeps (fun _ => nofun) fun _ _ _ => nofun
  | repair digest source =>
    exact stillThere_order sha256 dumps (.repair digest source) keeps (fun _ => nofun)
      fun _ _ _ => nofun

/-- A job that is allowed is not refused. -/
theorem notRefused_job {job : Job} (keeps : naming.Keeps relay) (allowed : naming.Allows job) :
    ¬job.Refused sha256 dumps relay faults := by
  intro refused
  cases job with
  | payload build =>
    obtain ⟨payloadHash, isHash, names⟩ := allowed
    have notRefused : RaisesFrom NotRefusal relay (syncPayload dumps build) := by
      refine .bind (Raises.require fun _ => by decide).from_
        (.require (fun _ => rfl) (fun _ => trivial) : Meets _ _ _ (fun _ after => after = relay)
          fun _ => True) ?_
      rintro ⟨⟩ after rfl
      apply notRefused_sync keeps
      exact fun middle still => cmdAssemble_notRefusal isHash (still _ _ _ names)
    exact notRefused faults _ refused rfl
  | snapshot sync =>
    have notRefused : RaisesFrom NotRefusal relay (syncSnapshot sha256 dumps sync) := by
      refine .bind (Raises.forEach fun file => checkFile_notRefusal file).from_
        (checkFiles_meets sync.files) ?_
      rintro _ after rfl
      apply notRefused_sync keeps
      exact fun middle still => snapshot_notRefusal (still _ _ _ allowed)
    exact notRefused faults _ refused rfl
  | seed names => exact refused
  | gc dryRun => exact refused
  | repair digest source => exact refused

theorem snapshot_exists {manifest : Manifest}
    (isDone : (snapshot dumps kind snapshotId manifest ⟨relay, faults⟩).1.isDone = true) :
    Exists (snapshot dumps kind snapshotId manifest ⟨relay, faults⟩).2.state kind snapshotId := by
  obtain ⟨state, isState⟩ := Outcome.isDone_iff.mp isDone
  have ran : Meets .reliable (snapshot dumps kind snapshotId manifest) relay _ _ := snapshot_meets
  obtain ⟨-, recorded⟩ :=
    (snapshot_strict kind snapshotId manifest).meets ran (Prod.ext isState rfl)
  rcases recorded with ⟨-, same, isThere, -⟩ | ⟨-, -, recorded⟩
  · rw [same]
    exact Option.isSome_iff_ne_none.mp isThere
  · exact fun absent => by cases absent.symm.trans recorded.root

/-- A job that is allowed has recorded what the id names. -/
theorem Allows.names {job : Job} (allowed : naming.Allows job)
    (recorded : job.Recorded sha256 dumps relay faults kind snapshotId) :
    naming.Names kind snapshotId job.wanted := by
  cases job with
  | payload build =>
    obtain ⟨-, rfl, isHash⟩ := recorded
    obtain ⟨payloadHash, same, names⟩ := allowed
    rw [isHash, Option.some.injEq] at same
    exact same ▸ names
  | snapshot sync =>
    obtain ⟨-, rfl, rfl⟩ := recorded
    exact allowed
  | seed names => exact recorded.elim
  | gc dryRun => exact recorded.elim
  | repair digest source => exact recorded.elim

/-- A job that reports success has left its snapshot. -/
theorem exists_of_recorded {job : Job} (recorded : job.Recorded sha256 dumps relay faults kind snapshotId) :
    Exists (job.relayAfter sha256 dumps relay faults) kind snapshotId := by
  have always : ∀ {Value : Type} {command : Command Relay Value} {state : Relay},
      Meets .interrupted command state (fun _ _ => True) fun _ => True :=
    .ofFinal fun _ => trivial
  cases job with
  | payload build =>
    obtain ⟨isDone, rfl, isHash⟩ := recorded
    have left : Meets .interrupted (syncPayload dumps build) relay
        (fun _ after => Exists after .provisioningPayload snapshotId) fun _ => True := by
      refine always.bind fun _ _ _ => always.bind fun _ _ _ => always.bind fun _ _ _ => ?_
      refine always.bind fun _ _ _ => always.bind fun _ _ _ => always.bind fun _ _ _ =>
        always.bind fun _ written _ => ?_
      rw [isHash]
      have last : Meets .interrupted
          (snapshot dumps .provisioningPayload snapshotId (snapshotManifest build.manifest)) written
          (fun _ after => Exists after .provisioningPayload snapshotId) fun _ => True :=
        .ofDone fun faults => snapshot_exists
      exact last.bind fun _ _ isThere => .pure isThere
    exact left.whenDone isDone
  | snapshot sync =>
    obtain ⟨isDone, rfl, rfl⟩ := recorded
    have left : Meets .interrupted (syncSnapshot sha256 dumps sync) relay
        (fun _ after => Exists after sync.kind sync.snapshotId) fun _ => True := by
      refine always.bind fun _ _ _ => always.bind fun _ _ _ => always.bind fun _ _ _ => ?_
      exact .ofDone fun faults => snapshot_exists
    exact left.whenDone isDone
  | seed names => exact recorded.elim
  | gc dryRun => exact recorded.elim
  | repair digest source => exact recorded.elim

end Naming

section Runs

variable (sha256 : Bytes → String) (dumps : Manifest → Bytes) (naming : Naming)

/-- Jobs that record what the ids name, one after another on a relay that starts empty; each
is done, fails or is cut off. -/
def keeping : System Relay (Job × List Fault) where
  Initial relay := relay = Volume.empty
  Enabled _ job := naming.Allows job.1
  next relay job := job.1.relayAfter sha256 dumps relay job.2

variable {sha256 dumps naming} {start relay : Relay} {trace : List (System.Taken Relay (Job × List Fault))}

theorem keeps_empty : naming.Keeps Volume.empty :=
  fun _ _ _ _ isThere => absurd rfl isThere

/-- The relay keeps the naming after every run. -/
theorem keeps_of_run (run : (keeping sha256 dumps naming).Run start trace relay) :
    naming.Keeps relay := by
  have initially : ∀ relay, (keeping sha256 dumps naming).Initial relay → naming.Keeps relay := by
    rintro relay rfl
    exact keeps_empty
  exact run.always initially fun relay job keeps allowed => (Naming.stillThere_job keeps allowed).1

/-- No job of a run is refused on account of a snapshot that differs. -/
theorem notRefused_of_run (run : (keeping sha256 dumps naming).Run start trace relay) :
    ∀ taken ∈ trace, ¬taken.2.1.Refused sha256 dumps taken.1 taken.2.2 := by
  have initially : ∀ relay, (keeping sha256 dumps naming).Initial relay → naming.Keeps relay := by
    rintro relay rfl
    exact keeps_empty
  have preserved : ∀ relay job, naming.Keeps relay → True →
      (keeping sha256 dumps naming).Enabled relay job →
      naming.Keeps ((keeping sha256 dumps naming).next relay job) :=
    fun relay job keeps _ allowed => (Naming.stillThere_job keeps allowed).1
  have safe : ∀ relay job, naming.Keeps relay → True →
      (keeping sha256 dumps naming).Enabled relay job →
      ¬job.1.Refused sha256 dumps relay job.2 :=
    fun relay job keeps _ allowed => Naming.notRefused_job keeps allowed
  exact run.everyStep initially preserved safe fun _ _ => trivial

/-- A snapshot that a job of a run has recorded is there at its end, by induction on the run:
every job leaves the snapshots. -/
theorem exists_of_run (run : (keeping sha256 dumps naming).Run start trace relay)
    {taken : System.Taken Relay (Job × List Fault)} (member : taken ∈ trace) {kind : SnapshotKind}
    {snapshotId : String}
    (recorded : taken.2.1.Recorded sha256 dumps taken.1 taken.2.2 kind snapshotId) :
    Exists relay kind snapshotId := by
  induction run with
  | initial => cases member
  | @step trace relay job prior allowed ih =>
    have keeps := keeps_of_run prior
    rcases List.mem_append.mp member with before | here
    · exact (Naming.stillThere_job keeps allowed).2 _ _ (ih before)
    · rw [List.mem_singleton.mp here] at recorded
      exact Naming.exists_of_recorded recorded

/-- What a job of a run has recorded is what is there at its end. -/
theorem matches_of_run (run : (keeping sha256 dumps naming).Run start trace relay)
    {taken : System.Taken Relay (Job × List Fault)} (member : taken ∈ trace) {kind : SnapshotKind}
    {snapshotId : String}
    (recorded : taken.2.1.Recorded sha256 dumps taken.1 taken.2.2 kind snapshotId) :
    Matches relay (.snapshot kind snapshotId) taken.2.1.wanted := by
  have names := (run.enabled taken member).names recorded
  exact keeps_of_run run kind snapshotId _ names (exists_of_run run member recorded)

end Runs

end MastProvisioning.Blobstore
