import MastProvisioning.Semantics.System
import MastProvisioning.Blobstore.Snapshots

/-!
# The archive of snapshots over whole runs

Any sequence of the blobstore's commands, each done, failed or cut off at any system
call. `Archive` remembers beside the relay what each snapshot was recorded with. As
long as the commands are `Guarded`, a snapshot stays what it was recorded with.
-/

namespace MastProvisioning.Blobstore

open MastProvisioning.Semantics MastProvisioning.Semantics.Command
open MastProvisioning.Collections MastProvisioning.Storage

/-- The relay, and what each snapshot was recorded with. -/
structure Archive where
  relay : Relay
  recorded : SnapshotKind → String → Option Wanted

/-- A command and what becomes of its system calls. -/
structure Attempt where
  order : Order
  faults : List Fault

/-- The bytes at a path of a tree. -/
def content (relay : Relay) (tree : Tree) (path : Path) : Option Bytes :=
  (inoOf relay (.node tree path)).map fun ino => (relay.inodes ino).bytes

section Definitions

variable (sha256 : Bytes → String) (dumps : Manifest → Bytes)

/-- The relay after an attempt. -/
def Attempt.relayAfter (relay : Relay) (attempt : Attempt) : Relay :=
  attempt.order.relayAfter sha256 dumps relay attempt.faults

/-- What a snapshot was recorded with stands; a new one was recorded with what the
command recorded it with. -/
def Attempt.recordedAfter (archive : Archive) (attempt : Attempt) (kind : SnapshotKind)
    (snapshotId : String) : Option Wanted :=
  if Exists archive.relay kind snapshotId then archive.recorded kind snapshotId
  else if Exists (attempt.relayAfter sha256 dumps archive.relay) kind snapshotId then
    attempt.order.Records kind snapshotId
  else none

/-- The store under any sequence of commands, from one without snapshots. -/
def store : System Archive Attempt where
  Initial archive := BlobsDistinct archive.relay ∧ ∀ kind snapshotId,
    ¬ Exists archive.relay kind snapshotId ∧ archive.recorded kind snapshotId = none
  Enabled _ _ := True
  next archive attempt :=
    ⟨attempt.relayAfter sha256 dumps archive.relay, attempt.recordedAfter sha256 dumps archive⟩

/-- Each snapshot holds what it was recorded with, and no file is two blobs. -/
structure Archive.Sound (archive : Archive) : Prop where
  distinct : BlobsDistinct archive.relay
  recorded : ∀ kind snapshotId wanted, archive.recorded kind snapshotId = some wanted →
    Exists archive.relay kind snapshotId ∧ Matches archive.relay (.snapshot kind snapshotId) wanted
  all : ∀ kind snapshotId, Exists archive.relay kind snapshotId →
    (archive.recorded kind snapshotId).isSome

/-- What an attempt does to the snapshots. -/
structure Permanent (archive : Archive) (attempt : Attempt) : Prop where
  /-- Only a repair changes the bytes at a path of a snapshot, to those of its digest. -/
  contents : ∀ kind snapshotId path, (archive.recorded kind snapshotId).isSome →
    content (attempt.relayAfter sha256 dumps archive.relay) (.snapshot kind snapshotId) path =
        content archive.relay (.snapshot kind snapshotId) path ∨
      ∃ digest source ino bytes, attempt.order = .repair digest source ∧
        archive.relay.slot? (.blob digest) = some ino ∧
        archive.relay.node? (.snapshot kind snapshotId) path = some (.file ino) ∧
        content (attempt.relayAfter sha256 dumps archive.relay) (.snapshot kind snapshotId) path =
          some bytes ∧
        sha256 bytes = digest
  /-- Recording an id again changes nothing. -/
  unchanged : ∀ kind snapshotId manifest, (archive.recorded kind snapshotId).isSome →
    attempt.order = .snapshot kind snapshotId manifest →
    attempt.relayAfter sha256 dumps archive.relay = archive.relay
  /-- It is done when the files are the same. -/
  same : ∀ kind snapshotId manifest,
    archive.recorded kind snapshotId = some (wantedBy manifest.files) →
    attempt = ⟨.snapshot kind snapshotId manifest, []⟩ →
    attempt.order.isDone dumps archive.relay attempt.faults = true
  /-- It is refused when they are others. -/
  refused : ∀ kind snapshotId wanted other, archive.recorded kind snapshotId = some wanted →
    attempt.order.Records kind snapshotId = some other → other ≠ wanted →
    attempt.order.isDone dumps archive.relay attempt.faults = false
  /-- Where recording a snapshot fails, there is none. -/
  failed : ∀ kind snapshotId wanted, archive.recorded kind snapshotId = none →
    attempt.order.Records kind snapshotId = some wanted →
    attempt.order.isDone dumps archive.relay attempt.faults = false →
    ¬ Exists (attempt.relayAfter sha256 dumps archive.relay) kind snapshotId

end Definitions

section Steps

variable {sha256 : Bytes → String} {dumps : Manifest → Bytes} {archive : Archive}
  {attempt : Attempt} {kind : SnapshotKind} {snapshotId : String}

/-- A file of a recorded snapshot is a blob. -/
theorem Archive.Sound.blob {path : Path} {ino : Nat} {wanted : Wanted} (sound : archive.Sound)
    (isRecorded : archive.recorded kind snapshotId = some wanted)
    (isFile : archive.relay.node? (.snapshot kind snapshotId) path = some (.file ino)) :
    ∃ digest, wanted path = some digest ∧ archive.relay.slot? (.blob digest) = some ino := by
  obtain ⟨-, holds⟩ := sound.recorded kind snapshotId wanted isRecorded
  obtain ⟨digest, isWanted⟩ := Option.isSome_iff_exists.mp (holds.only path ino isFile)
  obtain ⟨other, isBlob, isOther⟩ := holds.linked path digest isWanted
  obtain rfl : other = ino := by
    rw [isFile] at isOther
    exact (Node.file.inj (Option.some.inj isOther)).symm
  exact ⟨digest, isWanted, isBlob⟩

/-- No command gives a file a second digest. -/
theorem Guarded.distinct {relay : Relay} {order : Order} {faults : List Fault}
    (guarded : Guarded sha256 relay order faults) (distinct : BlobsDistinct relay) :
    BlobsDistinct (order.relayAfter sha256 dumps relay faults) := by
  let none : Tree → Prop := fun _ => False
  cases order with
  | seed names =>
    have seeded : Meets .interrupted (cmdSeed sha256 names) relay _ _ :=
      cmdSeed_distinct distinct (guarded.seeds names rfl)
    exact (seeded.final faults).distinct
  | want manifest =>
    have read : Preserves .interrupted BlobsDistinct (cmdWant manifest) := .query _
    exact (read relay distinct).final faults
  | upload blobs => exact (rsyncBlobs_distinct blobs relay distinct).final faults
  | assemble host manifest =>
    have same : Preserves .interrupted (TreesKept none relay) (cmdAssemble dumps host manifest) :=
      cmdAssemble_keepsTrees id (fun _ _ => id) fun _ _ => False.elim
    exact distinct.congr ((same relay .refl).final faults).blob
  | snapshot kind snapshotId manifest =>
    have same : Preserves .interrupted (TreesKept none relay)
        (cmdSnapshot dumps kind snapshotId manifest) :=
      snapshot_keepsTrees id False.elim manifest
    exact distinct.congr ((same relay .refl).final faults).blob
  | gc dryRun => exact (cmdGc_distinct dryRun relay distinct).final faults
  | repair digest source =>
    exact distinct.congr fun _ => ((cmdRepair_names digest source).final faults).2 _

/-- What a snapshot was recorded with, it still holds after a command. -/
theorem Archive.Sound.stillHolds {wanted : Wanted} (sound : archive.Sound)
    (guarded : Guarded sha256 archive.relay attempt.order attempt.faults)
    (isRecorded : archive.recorded kind snapshotId = some wanted) :
    Exists (attempt.relayAfter sha256 dumps archive.relay) kind snapshotId ∧
      Matches (attempt.relayAfter sha256 dumps archive.relay) (.snapshot kind snapshotId) wanted := by
  obtain ⟨isThere, holds⟩ := sound.recorded kind snapshotId wanted isRecorded
  have nodes : ∀ path,
      (attempt.relayAfter sha256 dumps archive.relay).node? (.snapshot kind snapshotId) path =
        archive.relay.node? (.snapshot kind snapshotId) path := attempt.order.treeKept isThere
  refine ⟨fun absent => isThere ((nodes []).symm.trans absent), holds.congr ?_ nodes⟩
  intro path digest isWanted
  obtain ⟨ino, isBlob, isFile⟩ := holds.linked path digest isWanted
  rw [isBlob]
  exact guarded.blobKept ⟨kind, snapshotId, path, isFile⟩ isBlob

/-- The archive stays sound. -/
theorem Archive.Sound.next (sound : archive.Sound)
    (guarded : Guarded sha256 archive.relay attempt.order attempt.faults) :
    Archive.Sound ((store sha256 dumps).next archive attempt) := by
  have held : ∀ kind snapshotId, Exists archive.relay kind snapshotId →
      Exists (attempt.relayAfter sha256 dumps archive.relay) kind snapshotId := by
    intro kind snapshotId isThere
    obtain ⟨wanted, isRecorded⟩ := Option.isSome_iff_exists.mp (sound.all kind snapshotId isThere)
    exact (sound.stillHolds guarded isRecorded).1
  have new : ∀ kind snapshotId, ¬ Exists archive.relay kind snapshotId →
      Exists (attempt.relayAfter sha256 dumps archive.relay) kind snapshotId →
      ∃ wanted, attempt.order.Records kind snapshotId = some wanted ∧
        Matches (attempt.relayAfter sha256 dumps archive.relay) (.snapshot kind snapshotId)
          wanted := by
    intro kind snapshotId absent isThere
    cases records : attempt.order.Records kind snapshotId with
    | none => exact absurd isThere (attempt.order.stillAbsent absent records)
    | some wanted =>
      cases isDone : attempt.order.isDone dumps archive.relay attempt.faults with
      | false => exact absurd isThere (attempt.order.records_failed absent records isDone)
      | true => exact ⟨wanted, rfl, attempt.order.records_done records isDone⟩
  refine ⟨guarded.distinct sound.distinct, ?_, ?_⟩
  · intro kind snapshotId wanted isRecorded
    change attempt.recordedAfter sha256 dumps archive kind snapshotId = some wanted at isRecorded
    unfold Attempt.recordedAfter at isRecorded
    split at isRecorded
    · exact sound.stillHolds guarded isRecorded
    · rename_i absent
      split at isRecorded
      · rename_i isThere
        obtain ⟨other, records, holds⟩ := new kind snapshotId absent isThere
        obtain rfl := Option.some.inj (records.symm.trans isRecorded)
        exact ⟨isThere, holds⟩
      · cases isRecorded
  · intro kind snapshotId isThere
    change Exists (attempt.relayAfter sha256 dumps archive.relay) kind snapshotId at isThere
    change (attempt.recordedAfter sha256 dumps archive kind snapshotId).isSome
    unfold Attempt.recordedAfter
    split
    · exact sound.all kind snapshotId ‹_›
    · rename_i absent
      obtain ⟨wanted, records, -⟩ := new kind snapshotId absent isThere
      rw [records]
      rfl

/-- A tree holds only one set of files. -/
theorem Matches.unique {relay : Relay} {tree : Tree} {wanted other : Wanted}
    (distinct : BlobsDistinct relay) (first : Matches relay tree wanted)
    (second : Matches relay tree other) : wanted = other := by
  funext path
  have agree : ∀ {one two : Wanted}, Matches relay tree one → Matches relay tree two →
      ∀ digest, one path = some digest → two path = some digest := by
    intro one two isOne isTwo digest isWanted
    obtain ⟨ino, isBlob, isFile⟩ := isOne.linked path digest isWanted
    obtain ⟨another, isAlso⟩ := Option.isSome_iff_exists.mp (isTwo.only path ino isFile)
    obtain ⟨same, isOther, isSame⟩ := isTwo.linked path another isAlso
    obtain rfl : ino = same := by
      rw [isFile] at isSame
      exact Node.file.inj (Option.some.inj isSame)
    rw [distinct digest another ino isBlob isOther]
    exact isAlso
  cases isWanted : wanted path with
  | some digest => exact (agree first second digest isWanted).symm
  | none =>
    cases isOther : other path with
    | none => rfl
    | some digest =>
      rw [agree second first digest isOther] at isWanted
      cases isWanted

/-- The bytes at a path of a snapshot, after a command. -/
theorem Archive.Sound.content_cases {path : Path} {wanted : Wanted} (sound : archive.Sound)
    (guarded : Guarded sha256 archive.relay attempt.order attempt.faults)
    (isRecorded : archive.recorded kind snapshotId = some wanted) :
    content (attempt.relayAfter sha256 dumps archive.relay) (.snapshot kind snapshotId) path =
        content archive.relay (.snapshot kind snapshotId) path ∨
      ∃ digest source ino bytes, attempt.order = .repair digest source ∧
        archive.relay.slot? (.blob digest) = some ino ∧
        archive.relay.node? (.snapshot kind snapshotId) path = some (.file ino) ∧
        content (attempt.relayAfter sha256 dumps archive.relay) (.snapshot kind snapshotId) path =
          some bytes ∧
        sha256 bytes = digest := by
  obtain ⟨isThere, -⟩ := sound.recorded kind snapshotId wanted isRecorded
  have same : (attempt.relayAfter sha256 dumps archive.relay).node? (.snapshot kind snapshotId) path =
      archive.relay.node? (.snapshot kind snapshotId) path := attempt.order.treeKept isThere path
  unfold content inoOf
  simp only [same]
  rcases isNode : archive.relay.node? (.snapshot kind snapshotId) path with _ | _ | ino
  · exact .inl rfl
  · exact .inl rfl
  · obtain ⟨held, -, isHeld⟩ := sound.blob isRecorded isNode
    rcases guarded.bytes_or_restored isNode isHeld with kept | ⟨digest, source, isRepair, isBlob, hashes⟩
    · exact .inl (congrArg some kept)
    · exact .inr ⟨digest, source, ino, _, isRepair, isBlob, rfl, rfl, hashes⟩

/-- What a guarded command does to the snapshots of a sound archive. -/
theorem Archive.Sound.permanent (sound : archive.Sound)
    (guarded : Guarded sha256 archive.relay attempt.order attempt.faults) :
    Permanent sha256 dumps archive attempt where
  contents kind snapshotId path isSome := by
    obtain ⟨wanted, isRecorded⟩ := Option.isSome_iff_exists.mp isSome
    exact sound.content_cases guarded isRecorded
  unchanged kind snapshotId manifest isSome isSnapshot := by
    obtain ⟨wanted, isRecorded⟩ := Option.isSome_iff_exists.mp isSome
    obtain ⟨isThere, -⟩ := sound.recorded kind snapshotId wanted isRecorded
    unfold Attempt.relayAfter
    rw [isSnapshot]
    exact (snapshot_again isThere).final attempt.faults
  same := by
    rintro kind snapshotId manifest isRecorded rfl
    obtain ⟨isThere, holds⟩ := sound.recorded kind snapshotId _ isRecorded
    exact Outcome.isDone_iff.mpr ⟨.existing, cmdSnapshot_same isThere holds⟩
  refused kind snapshotId wanted other isRecorded records different := by
    by_contra isDone
    have now : Matches (attempt.relayAfter sha256 dumps archive.relay) _ other :=
      attempt.order.records_done records (Bool.not_eq_false _ ▸ isDone)
    have still : Matches (attempt.relayAfter sha256 dumps archive.relay) _ wanted :=
      (sound.stillHolds guarded isRecorded).2
    exact different (Matches.unique (guarded.distinct sound.distinct) now still)
  failed kind snapshotId wanted isNone records fails := by
    have absent : ¬ Exists archive.relay kind snapshotId := by
      intro isThere
      have isSome := sound.all kind snapshotId isThere
      rw [isNone] at isSome
      cases isSome
    exact attempt.order.records_failed absent records fails

/-- From a store without snapshots, under any commands, done, failed or cut off, that
are guarded: every command leaves each recorded snapshot what it was recorded with;
and a snapshot that is not there can be recorded, whatever attempts have failed. -/
theorem snapshots_permanent {start archive : Archive}
    {trace : List (System.Taken Archive Attempt)} (run : (store sha256 dumps).Run start trace archive)
    (guarded : ∀ taken ∈ trace,
      Guarded sha256 taken.1.relay taken.2.order taken.2.faults) :
    (∀ taken ∈ trace, Permanent sha256 dumps taken.1 taken.2) ∧
      ∀ kind snapshotId manifest, archive.recorded kind snapshotId = none →
        manifest.files ≠ [] → Held archive.relay (wantedBy manifest.files) →
        PrefixFree (wantedBy manifest.files) →
        (cmdSnapshot dumps kind snapshotId manifest ⟨archive.relay, []⟩).1 = .done .created := by
  have initially : ∀ archive, (store sha256 dumps).Initial archive → archive.Sound := by
    rintro archive ⟨distinct, empty⟩
    refine ⟨distinct, ?_, ?_⟩
    · intro kind snapshotId wanted isRecorded
      rw [(empty kind snapshotId).2] at isRecorded
      cases isRecorded
    · exact fun kind snapshotId isThere => absurd isThere (empty kind snapshotId).1
  have preserved : ∀ archive attempt, Archive.Sound archive →
      Guarded sha256 archive.relay attempt.order attempt.faults →
      (store sha256 dumps).Enabled archive attempt →
      Archive.Sound ((store sha256 dumps).next archive attempt) :=
    fun _ _ sound guarded _ => sound.next guarded
  refine ⟨run.everyStep initially preserved (fun _ _ sound guarded _ => sound.permanent guarded)
    guarded, ?_⟩
  intro kind snapshotId manifest isNone nonempty held prefixFree
  have sound : archive.Sound := run.invariant initially preserved guarded
  refine cmdSnapshot_new (fun isThere => ?_) nonempty held prefixFree
  have isSome := sound.all kind snapshotId isThere
  rw [isNone] at isSome
  cases isSome

end Steps

section Samples

/-- A store in which nothing is held. -/
def emptyArchive : Archive := ⟨Volume.empty, fun _ _ => none⟩

/-- The files of an image. -/
def image : Manifest := ⟨none, [⟨["install.wim"], 1, "2c26", by decide⟩]⟩

/-- Upload the image, taken from a file of some age. -/
def uploadImage (mtime : Int) : Attempt := ⟨.upload [("2c26", ⟨[1], mtime⟩)], []⟩

/-- Record the image. -/
def recordImage : Attempt := ⟨.snapshot .windowsOsBaseline "w11" image, []⟩

/-- A store whose hash function has every file hash to the digest of the image. -/
abbrev imageStore : System Archive Attempt := store (fun _ => "2c26") fun _ => []

theorem imageStore_follows (archive : Archive) (attempts : List Attempt) :
    imageStore.Follows archive attempts := by
  induction attempts generalizing archive with
  | nil => trivial
  | cons attempt rest ih => exact ⟨trivial, ih _⟩

theorem emptyArchive_initial : imageStore.Initial emptyArchive := by
  refine ⟨?_, fun kind snapshotId => ⟨fun isThere => isThere rfl, rfl⟩⟩
  intro digest other ino isBlob
  cases isBlob

theorem snapshots_permanent_image :
    imageStore.Follows emptyArchive [uploadImage 10, recordImage, recordImage] ∧
      ∀ taken ∈ imageStore.steps emptyArchive [uploadImage 10, recordImage, recordImage],
        Permanent (fun _ => "2c26") (fun _ => []) taken.1 taken.2 := by
  refine ⟨imageStore_follows _ _,
    (snapshots_permanent (.ofLabels emptyArchive_initial (imageStore_follows _ _)) ?_).1⟩
  simp only [System.steps, List.mem_cons, List.not_mem_nil, or_false, forall_eq_or_imp, forall_eq]
  have recording : ∀ archive : Archive, Exists archive.relay .windowsOsBaseline "w11" ∨
      archive.relay.slot? (.record .windowsOsBaseline "w11") = none →
      Guarded (fun _ => "2c26") archive.relay recordImage.order recordImage.faults := by
    intro archive safe
    constructor
    · rintro - ino ⟨absent, isRecord⟩
      rcases safe with isThere | isNone
      · exact absurd isThere absent
      · rw [isNone] at isRecord
        cases isRecord
    · rintro names ⟨⟩
    · rintro blobs ⟨⟩
    · rintro digest source ⟨⟩
  refine ⟨?_, recording _ (.inr (by decide +kernel)), recording _ (.inl (by decide +kernel))⟩
  constructor
  · rintro - ino ⟨⟩
  · rintro names ⟨⟩
  · rintro blobs - blob - ino isBlob
    cases isBlob
  · rintro digest source ⟨⟩

/-- The image is uploaded again from a newer file after it was recorded: recording it
once more is refused. -/
theorem recorded_again_refused :
    ¬ ∀ taken ∈ imageStore.steps emptyArchive
        ([uploadImage 10, recordImage, uploadImage 20] ++ [recordImage]),
      Permanent (fun _ => "2c26") (fun _ => []) taken.1 taken.2 := by
  intro permanent
  have last := permanent _ (imageStore.last_mem_steps _ _ _)
  have isDone := last.same .windowsOsBaseline "w11" image rfl rfl
  exact absurd isDone (by decide +kernel)

end Samples

end MastProvisioning.Blobstore
