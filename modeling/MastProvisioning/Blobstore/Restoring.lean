import MastProvisioning.Blobstore.Archive
import MastProvisioning.Blobstore.References
import MastProvisioning.Blobstore.SnapshotIds
import MastProvisioning.Blobstore.SourceWindow

/-!
# What a snapshot reads back as

A store is intact when every blob has the bytes its digest says and the names are as the
commands leave them. Jobs that send what was hashed keep it intact, wherever they are cut
off; and in an intact store a snapshot reads back byte for byte as what was recorded.
-/

namespace MastProvisioning.Blobstore

open MastProvisioning.Semantics MastProvisioning.Semantics.Command
open MastProvisioning.Collections MastProvisioning.Storage

/-- Every blob has the bytes its name says, and the names are as the commands leave them. -/
structure Intact (sha256 : Bytes → String) (relay : Relay) : Prop where
  linked : Linked relay
  addressed : ContentAddressed sha256 relay

/-- A job sends what was hashed, and adopts files outside only. A snapshot is checked before
anything is sent. -/
def Job.Honest (sha256 : Bytes → String) : Job → Prop
  | .payload build => ∀ entry ∈ build.manifest.files,
      sha256 (build.staging entry.path).bytes = entry.sha256
  | .seed names => ∀ name ∈ names, ∃ path, name = .slot (.outside path)
  | _ => True

section Commands

variable {relay after : Relay} {mode : Mode} {sha256 : Bytes → String} {dumps : Manifest → Bytes}
  {faults : List Fault} {pending : List String}

theorem intact_empty : Intact sha256 Volume.empty := by
  have noSlot : ∀ slot ino, (Volume.empty : Relay).slot? slot ≠ some ino := by
    rintro slot ino ⟨⟩
  refine ⟨⟨?_, ?_, ?_⟩, ?_⟩
  · rintro tree path ino ⟨⟩
  · exact fun digest _ ino isBlob => absurd isBlob (noSlot _ _)
  · exact fun slot ino _ isText => absurd isText (noSlot _ _)
  · exact fun digest ino isBlob => absurd isBlob (noSlot _ _)

/-- A command that names no blob and writes texts only. -/
theorem Intact.recorded (intact : Intact sha256 relay) (order : Order)
    (linked : Linked (order.relayAfter sha256 dumps relay faults))
    (blobs : ∀ digest, (order.relayAfter sha256 dumps relay faults).slot? (.blob digest) =
      relay.slot? (.blob digest))
    (texts : ∀ ino, order.Writes relay ino →
      ∃ slot : Slot, slot.holdsText ∧ relay.slot? slot = some ino) :
    Intact sha256 (order.relayAfter sha256 dumps relay faults) := by
  refine ⟨linked, fun digest ino isBlob => ?_⟩
  rw [blobs] at isBlob
  rw [order.bytesKept.bytes ino (Volume.slot?_lt isBlob)]
  · exact intact.addressed digest ino isBlob
  · intro writes
    obtain ⟨slot, holdsText, isText⟩ := texts ino writes
    exact (intact.linked.texts slot ino holdsText isText).1 digest isBlob

theorem Intact.assembled (intact : Intact sha256 relay) (host : String) (manifest : Manifest) :
    Intact sha256 (cmdAssemble dumps host manifest ⟨relay, faults⟩).2.state := by
  have kept : Preserves .interrupted (TreesKept (fun _ => False) relay)
      (cmdAssemble dumps host manifest) :=
    cmdAssemble_keepsTrees id (fun _ _ => id) fun _ _ => False.elim
  have linked : Preserves .interrupted Linked (cmdAssemble dumps host manifest) :=
    cmdAssemble_linked host manifest
  apply intact.recorded (.assemble host manifest)
  · exact (linked relay intact.linked).final faults
  · exact ((kept relay .refl).final faults).blob
  · rintro ino (isHost | ⟨payloadHash, -, -, isRecord⟩)
    · exact ⟨_, rfl, isHost⟩
    · exact ⟨_, rfl, isRecord⟩

theorem Intact.snapshot (intact : Intact sha256 relay) (kind : SnapshotKind) (snapshotId : String)
    (manifest : Manifest) :
    Intact sha256 (cmdSnapshot dumps kind snapshotId manifest ⟨relay, faults⟩).2.state := by
  have kept : Preserves .interrupted (TreesKept (fun _ => False) relay)
      (cmdSnapshot dumps kind snapshotId manifest) :=
    snapshot_keepsTrees id False.elim _
  have linked : Preserves .interrupted Linked (cmdSnapshot dumps kind snapshotId manifest) :=
    snapshot_linked kind snapshotId manifest
  apply intact.recorded (.snapshot kind snapshotId manifest)
  · exact (linked relay intact.linked).final faults
  · exact ((kept relay .refl).final faults).blob
  · exact fun ino writes => ⟨_, rfl, writes.2⟩

/-- A file is adopted under the digest of its bytes. -/
theorem cmdSeed_addressed (names : List FileName) :
    Preserves mode (ContentAddressed sha256) (cmdSeed sha256 names) := by
  refine .foldEach fun name _ count relay addressed => .query_bind ?_ fun _ => addressed
  cases inoOf relay name with
  | none => exact .pure addressed
  | some ino =>
    refine .query_bind (.query_bind (.ite (fun _ => .pure addressed) fun _ => ?_)
      fun _ => addressed) fun _ => addressed
    refine .call ?_ (fun _ => addressed) fun _ => addressed
    intro counted after done
    split at done
    · rename_i linkedTo isLinked
      obtain ⟨-, rfl⟩ := Prod.mk.inj (Option.some.inj done)
      obtain ⟨-, allocated, change⟩ := Volume.linkSlot_change isLinked
      intro digest other isBlob
      rw [change.slot] at isBlob
      split at isBlob
      · rename_i same
        rw [← Option.some.inj isBlob, change.inodes ino allocated]
        exact (Slot.blob.inj same).symm
      · rw [change.inodes other (Volume.slot?_lt isBlob)]
        exact addressed digest other isBlob
    · obtain ⟨-, rfl⟩ := Prod.mk.inj (Option.some.inj done)
      exact addressed

/-- A gc removes blobs that no tree is linked to, and writes nothing. -/
theorem cmdGc_intact (dryRun : Bool) : Preserves mode (Intact sha256) (cmdGc dryRun) := by
  refine .bind (.query _) fun _ => .foldEach fun digest _ count relay intact => ?_
  refine .query_bind ?_ fun _ => intact
  cases isBlob : relay.slot? (.blob digest) with
  | none => exact .exit intact
  | some ino =>
    refine .query_bind (.ite (fun one => ?_) fun _ => .pure intact) fun _ => intact
    have unlinked := ((Volume.nlink_eq_one isBlob).mp one).2
    refine Meets.bind (whenever_meets (fun _ => .change ?_ (fun _ => intact) fun _ => intact)
      fun _ => intact) fun _ _ kept => .pure kept
    intro after done
    have change := Volume.unlinkSlot_change done
    refine ⟨intact.linked.dropped ?_ change, ?_⟩
    · rintro other isOther
      rw [isBlob] at isOther
      exact Option.some.inj isOther ▸ unlinked
    · intro other held isHeld
      rw [change.slot] at isHeld
      split at isHeld
      · cases isHeld
      · rw [change.inodes held (Volume.slot?_lt isHeld)]
        exact intact.addressed other held isHeld

/-- A repair overwrites an intact blob with the bytes it has. -/
theorem Intact.repaired (injective : Function.Injective sha256) (intact : Intact sha256 relay)
    (digest : String) (source : FileName) :
    Intact sha256 (cmdRepair sha256 digest source ⟨relay, faults⟩).2.state := by
  have names : Meets .interrupted (cmdRepair sha256 digest source) relay _ _ :=
    cmdRepair_names digest source
  have slots := (names.final faults).2
  have linked : Preserves .interrupted Linked (cmdRepair sha256 digest source) :=
    cmdRepair_linked digest source
  have bytes : Meets .interrupted (cmdRepair sha256 digest source) relay _ _ := cmdRepair_bytes
  refine ⟨(linked relay intact.linked).final faults, fun other ino isBlob => ?_⟩
  rw [slots] at isBlob
  by_cases written : relay.slot? (.blob digest) = some ino
  · have sameSource : ∀ file, inoOf relay source = some file →
        sha256 (relay.inodes file).bytes = digest →
        (relay.inodes file).bytes = (relay.inodes ino).bytes := by
      intro file _ hashes
      exact injective (hashes.trans (intact.addressed digest ino written).symm)
    have same : Meets .interrupted (cmdRepair sha256 digest source) relay _ _ :=
      cmdRepair_same written sameSource
    rw [same.final faults]
    exact intact.addressed other ino isBlob
  · rw [(bytes.final faults).bytes ino (Volume.slot?_lt isBlob) written]
    exact intact.addressed other ino isBlob

/-- The store is intact, and the blobs that are to be sent are linked to no tree. -/
structure Sending (sha256 : Bytes → String) (pending : List String) (relay : Relay) : Prop where
  intact : Intact sha256 relay
  unlinked : ∀ digest ∈ pending, ∀ ino, relay.slot? (.blob digest) = some ino →
    ∀ tree path, relay.node? tree path ≠ some (.file ino)

theorem Sending.sent {digest : String} {source : Source} (sending : Sending sha256 pending relay)
    (isPending : digest ∈ pending) (hashes : sha256 source.bytes = digest) :
    Sending sha256 pending (rsyncFile relay digest source) := by
  have addressed := sending.intact.addressed.sent hashes
  rcases rsyncFile_cases relay digest source with same | replaced
  · rw [same]
    exact sending
  rw [replaced] at addressed ⊢
  have change : Volume.SlotChange relay
      (relay.replaceSlot (.blob digest) ⟨source.bytes, source.mtime⟩) (.blob digest) _ :=
    (Volume.replaceSlot_change _).1
  refine ⟨⟨sending.intact.linked.replaced change (by simp) ?_, addressed⟩, ?_⟩
  · rintro other ino ⟨⟩ isBlob
    exact sending.unlinked digest isPending ino isBlob
  · intro other isOther ino isBlob tree path isFile
    rw [change.node] at isFile
    rw [change.slot] at isBlob
    split at isBlob
    · exact Nat.lt_irrefl _ (Option.some.inj isBlob ▸ Volume.file_lt isFile)
    · exact sending.unlinked other isOther ino isBlob tree path isFile

/-- Uploading what is missing from sources that are named by their digests. -/
theorem uploadMissing_intact {sources : List (String × Source)} (manifest : Manifest)
    (intact : Intact sha256 relay) (hashes : ∀ source ∈ sources, sha256 source.2.bytes = source.1) :
    Meets .interrupted
      (whenever (!(missingDigests relay manifest).isEmpty)
        (uploadBlobs sources (missingDigests relay manifest))) relay
      (fun _ => Intact sha256) (Intact sha256) := by
  have sends : Preserves .interrupted (Sending sha256 (missingDigests relay manifest))
      (uploadBlobs sources (missingDigests relay manifest)) := by
    refine .bind (.require _ _) fun _ => .forEach fun blob member => .change ?_
    rintro volume after sending ⟨⟩
    have isSource := List.mem_filter.mp member
    exact sending.sent (by simpa using isSource.2) (hashes blob isSource.1)
  have unlinked : Sending sha256 (missingDigests relay manifest) relay := by
    refine ⟨intact, fun digest member ino isBlob => ?_⟩
    rw [(mem_missingDigests.mp member).2] at isBlob
    cases isBlob
  refine whenever_meets (fun _ => ?_) fun _ => intact
  exact (sends relay unlinked).mono (fun _ _ sent => sent.intact) fun _ sent => sent.intact

end Commands

section Jobs

variable {relay : Relay} {sha256 : Bytes → String} {dumps : Manifest → Bytes} {faults : List Fault}

/-- A sync keeps the store intact when its last command does. -/
theorem intact_sync {Value : Type} {command : Command Relay Value}
    {sources : List (String × Source)} (manifest : Manifest) (intact : Intact sha256 relay)
    (hashes : ∀ source ∈ sources, sha256 source.2.bytes = source.1)
    (last : ∀ middle, Intact sha256 middle → ∀ faults,
      Intact sha256 (command ⟨middle, faults⟩).2.state) :
    Meets .interrupted (do
        let missing ← cmdWant manifest
        whenever (!missing.isEmpty) (uploadBlobs sources missing)
        command) relay
      (fun _ => Intact sha256) (Intact sha256) := by
  refine .query_bind ?_ fun _ => intact
  refine (uploadMissing_intact manifest intact hashes).bind fun _ middle still => ?_
  exact .ofFinal (last middle still)

theorem mem_sources {build : Payload} {source : String × Source} (member : source ∈ build.sources) :
    ∃ entry ∈ build.manifest.files, source = (entry.sha256, build.staging entry.path) := by
  rcases OrderedDict.mem_setAll member with found | impossible
  · obtain ⟨entry, isEntry, rfl⟩ := List.mem_map.mp found
    exact ⟨entry, isEntry, rfl⟩
  · cases impossible

/-- What a snapshot is synced from has the digests it is recorded under, once it is checked. -/
theorem SnapshotSync.hashes {sync : SnapshotSync}
    (checked : ∀ file ∈ sync.files, file.actual sha256 = file.entry.sha256) {source : String × Source}
    (member : source ∈ sync.sources) : sha256 source.2.bytes = source.1 := by
  rcases OrderedDict.mem_setAll member with found | impossible
  · obtain ⟨file, isFile, isSource⟩ := List.mem_filterMap.mp found
    obtain ⟨here, isFound, rfl⟩ := Option.map_eq_some_iff.mp isSource
    have same := checked file isFile
    rw [SourceFile.actual, isFound] at same
    exact same
  · cases impossible

/-- Every file of a snapshot is checked, and nothing is changed. -/
theorem checkFiles_checks (files : List SourceFile) :
    Meets .interrupted (forEach files (checkFile sha256) : Command Relay Unit) relay
      (fun _ after => after = relay ∧ ∀ file ∈ files, file.actual sha256 = file.entry.sha256)
      fun after => after = relay := by
  let checking : List SourceFile → Relay → Prop := fun rest after => after = relay ∧
    ∀ file ∈ files, file ∈ rest ∨ file.actual sha256 = file.entry.sha256
  have initially : checking files relay := ⟨rfl, fun file member => .inl member⟩
  refine (Meets.forEach initially ?_).mono ?_ fun _ => id
  · rintro file rest after - ⟨rfl, checked⟩
    refine .require (fun isSame => ⟨rfl, fun other member => ?_⟩) fun _ => rfl
    rcases checked other member with here | already
    · rcases List.mem_cons.mp here with rfl | later
      · exact .inr (of_decide_eq_true isSame)
      · exact .inl later
    · exact .inr already
  · rintro _ after ⟨same, checked⟩
    exact ⟨same, fun file member => (checked file member).resolve_left List.not_mem_nil⟩

/-- Every file of a snapshot that was recorded was checked. -/
theorem SnapshotSync.checked {sync : SnapshotSync}
    (isDone : (syncSnapshot sha256 dumps sync ⟨relay, faults⟩).1.isDone = true) :
    ∀ file ∈ sync.files, file.actual sha256 = file.entry.sha256 := by
  have checks : Meets .interrupted (syncSnapshot sha256 dumps sync) relay
      (fun _ _ => ∀ file ∈ sync.files, file.actual sha256 = file.entry.sha256) fun _ => True := by
    refine ((checkFiles_checks sync.files).mono (fun _ _ => id) fun _ _ => trivial).bind ?_
    rintro _ after ⟨-, checked⟩
    exact .ofDone fun _ _ => checked
  exact checks.whenDone isDone

/-- Jobs that send what was hashed keep the store intact, done, failed or cut off. -/
theorem intact_job {job : Job} (injective : Function.Injective sha256) (intact : Intact sha256 relay)
    (honest : job.Honest sha256) : Intact sha256 (job.relayAfter sha256 dumps relay faults) := by
  cases job with
  | payload build =>
    have hashes : ∀ source ∈ build.sources, sha256 source.2.bytes = source.1 := by
      intro source member
      obtain ⟨entry, isEntry, rfl⟩ := mem_sources member
      exact honest entry isEntry
    have synced : Meets .interrupted (syncPayload dumps build) relay (fun _ => Intact sha256)
        (Intact sha256) := by
      refine .require_bind (fun _ => ?_) fun _ => intact
      exact intact_sync build.manifest intact hashes fun _ still _ => still.assembled _ _
    exact synced.final faults
  | snapshot sync =>
    have synced : Meets .interrupted (syncSnapshot sha256 dumps sync) relay
        (fun _ => Intact sha256) (Intact sha256) := by
      refine ((checkFiles_checks sync.files).mono (fun _ _ => id) ?_).bind ?_
      · rintro after rfl
        exact intact
      · rintro _ after ⟨rfl, checked⟩
        exact intact_sync sync.manifest intact (fun _ => SnapshotSync.hashes checked)
          fun _ still _ => still.snapshot _ _ _
    exact synced.final faults
  | seed names =>
    have linked : Preserves .interrupted Linked (cmdSeed sha256 names) := cmdSeed_linked honest
    exact ⟨(linked relay intact.linked).final faults,
      (cmdSeed_addressed names relay intact.addressed).final faults⟩
  | gc dryRun => exact (cmdGc_intact dryRun relay intact).final faults
  | repair digest source => exact intact.repaired injective digest source

/-- In an intact store a tree reads back as what it is to hold. -/
theorem Intact.content_iff {tree : Tree} {wanted : Wanted} {path : Path} {bytes : Bytes}
    (injective : Function.Injective sha256) (intact : Intact sha256 relay)
    (holds : Matches relay tree wanted) :
    content relay tree path = some bytes ↔ wanted path = some (sha256 bytes) := by
  have reads : ∀ digest, wanted path = some digest →
      ∃ found, content relay tree path = some found ∧ sha256 found = digest := by
    intro digest isWanted
    obtain ⟨ino, isBlob, isFile⟩ := holds.linked path digest isWanted
    refine ⟨(relay.inodes ino).bytes, ?_, intact.addressed digest ino isBlob⟩
    simp [content, inoOf, isFile]
  constructor
  · intro isContent
    have isWanted : (wanted path).isSome := by
      obtain ⟨ino, isIno, -⟩ := Option.map_eq_some_iff.mp isContent
      unfold inoOf at isIno
      dsimp only at isIno
      split at isIno
      · rename_i isFile
        exact holds.only path _ isFile
      · cases isIno
    obtain ⟨digest, isDigest⟩ := Option.isSome_iff_exists.mp isWanted
    obtain ⟨found, isFound, hashes⟩ := reads digest isDigest
    rw [isContent, Option.some.injEq] at isFound
    rw [isDigest, isFound, hashes]
  · intro isWanted
    obtain ⟨found, isFound, hashes⟩ := reads _ isWanted
    rw [isFound, injective hashes]

end Jobs

section Runs

variable {sha256 : Bytes → String} {dumps : Manifest → Bytes} {naming : Naming} {start relay : Relay}
  {trace : List (System.Taken Relay (Job × List Fault))}

/-- The store is intact after every run of jobs that send what was hashed. -/
theorem intact_of_run (injective : Function.Injective sha256)
    (run : (keeping sha256 dumps naming).Run start trace relay)
    (honest : ∀ taken ∈ trace, taken.2.1.Honest sha256) : Intact sha256 relay := by
  have initially : ∀ relay, (keeping sha256 dumps naming).Initial relay → Intact sha256 relay := by
    rintro relay rfl
    exact intact_empty
  have preserved : ∀ relay job, Intact sha256 relay → job.1.Honest sha256 →
      (keeping sha256 dumps naming).Enabled relay job →
      Intact sha256 ((keeping sha256 dumps naming).next relay job) :=
    fun relay job intact honest _ => intact_job injective intact honest
  exact run.invariant initially preserved honest

end Runs

end MastProvisioning.Blobstore
