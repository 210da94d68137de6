import MastProvisioning.Blobstore.Assemble

/-!
# Syncing a payload to the relay

`relay.py`: ask the relay what it lacks, upload it from the staging tree, assemble.
Each step fails closed. Shipping the script itself is left out.
-/

namespace MastProvisioning.Blobstore

open MastProvisioning.Semantics MastProvisioning.Semantics.Command
open MastProvisioning.Collections MastProvisioning.Storage

/-- A payload to sync: its host, its manifest and the files in the staging tree. -/
structure Payload where
  host : String
  manifest : Manifest
  staging : Path → Source

/-- `{e["sha256"]: staging / e["path"] for e in entries}`. -/
def Payload.sources (payload : Payload) : List (String × Source) :=
  OrderedDict.setAll id [] (payload.manifest.files.map fun entry =>
    (entry.sha256, payload.staging entry.path))

/-- `by_hash`. -/
def byHash (sources : List (String × Source)) (missing : List String) : List (String × Source) :=
  sources.filter fun source => source.1 ∈ missing

/-- `upload_blobs`. -/
def uploadBlobs (sources : List (String × Source)) (missing : List String) :
    Command Relay Unit := do
  require ((byHash sources missing).length = missing.length)
    "manifest does not name every missing hash"
  rsyncBlobs (byHash sources missing)

/-- `sync_payload`. -/
def syncPayload (dumps : Manifest → Bytes) (payload : Payload) : Command Relay Assembled := do
  require (!payload.manifest.files.isEmpty) "no file list to assemble from"
  let missing ← cmdWant payload.manifest
  whenever (!missing.isEmpty) (uploadBlobs payload.sources missing)
  cmdAssemble dumps payload.host payload.manifest

section Uploading

variable {relay after : Relay} {mode : Mode} {digest : String} {ino : Nat}

/-- The trees are as they were, and so is one blob. -/
structure BlobKept (relay : Relay) (digest : String) (ino : Nat) (after : Relay) : Prop where
  node : ∀ tree path, after.node? tree path = relay.node? tree path
  slot : after.slot? (.blob digest) = some ino
  content : after.inodes ino = relay.inodes ino

/-- A held file that has the size and time of the source is skipped. -/
def SameStat (relay : Relay) (ino : Nat) (source : Source) : Prop :=
  (relay.inodes ino).bytes.length = source.bytes.length ∧ (relay.inodes ino).mtime = source.mtime

theorem rsyncFile_cases (relay : Relay) (digest : String) (source : Source) :
    rsyncFile relay digest source = relay ∨
      rsyncFile relay digest source =
        relay.replaceSlot (.blob digest) ⟨source.bytes, source.mtime⟩ := by
  unfold rsyncFile
  split
  · split
    · exact .inl rfl
    · exact .inr rfl
  · exact .inr rfl

theorem BlobKept.sent {blob : String × Source} (kept : BlobKept relay digest ino after)
    (same : blob.1 = digest → SameStat relay ino blob.2) :
    BlobKept relay digest ino (rsyncFile after blob.1 blob.2) := by
  by_cases isDigest : blob.1 = digest
  · have skipped : rsyncFile after blob.1 blob.2 = after := by
      obtain ⟨size, time⟩ := same isDigest
      unfold rsyncFile
      rw [isDigest, kept.slot]
      dsimp only
      rw [kept.content, if_pos ⟨size, time⟩]
    rw [skipped]
    exact kept
  · rcases rsyncFile_cases after blob.1 blob.2 with skipped | replaced
    · rw [skipped]
      exact kept
    · have change : Volume.SlotChange after
          (after.replaceSlot (.blob blob.1) ⟨blob.2.bytes, blob.2.mtime⟩) (.blob blob.1) _ :=
        (Volume.replaceSlot_change _).1
      rw [replaced]
      refine ⟨fun tree path => (change.node tree path).trans (kept.node tree path), ?_, ?_⟩
      · rw [change.slot, if_neg fun equal => isDigest (Slot.blob.inj equal).symm]
        exact kept.slot
      · exact (change.inodes ino (Volume.slot?_lt kept.slot)).trans kept.content

/-- Uploading leaves a blob alone that has the size and time of what is sent for it. -/
theorem uploadBlobs_keeps {sources : List (String × Source)} {missing : List String}
    (same : ∀ blob ∈ byHash sources missing, blob.1 = digest → SameStat relay ino blob.2) :
    Preserves mode (BlobKept relay digest ino) (uploadBlobs sources missing) := by
  refine .bind (.require _ _) fun _ => .forEach fun blob member => .change ?_
  rintro volume after kept ⟨⟩
  exact kept.sent (same blob member)

/-- Uploading changes no tree. -/
theorem uploadBlobs_nodes {sources : List (String × Source)} {missing : List String} :
    Preserves mode (fun after => ∀ tree path, after.node? tree path = relay.node? tree path)
      (uploadBlobs sources missing) := by
  refine .bind (.require _ _) fun _ => .forEach fun blob member => .change ?_
  rintro volume after kept ⟨⟩ tree path
  rcases rsyncFile_cases volume blob.1 blob.2 with skipped | replaced
  · rw [skipped]
    exact kept tree path
  · rw [replaced]
    exact ((Volume.replaceSlot_change _).1.node tree path).trans (kept tree path)

theorem mem_missingDigests {manifest : Manifest} :
    digest ∈ missingDigests relay manifest ↔
      digest ∈ manifest.files.map Entry.sha256 ∧ relay.slot? (.blob digest) = none := by
  simp [missingDigests, List.mem_insertionSort, List.mem_dedup]

end Uploading

section Syncing

variable {relay after : Relay} {dumps : Manifest → Bytes} {payload : Payload}

/-- A payload is on the relay. -/
structure Synced (relay : Relay) (payload : Payload) (payloadHash : String) : Prop where
  nonempty : payload.manifest.files ≠ []
  hash : payload.manifest.payloadHash = some payloadHash
  allHeld : AllHeld relay payload.manifest.files
  host : Matches relay (.host payload.host) (wantedBy payload.manifest.files)
  snapshot : Matches relay (.snapshot .provisioningPayload payloadHash)
    (wantedBy payload.manifest.payload)
  root : (relay.node? (.snapshot .provisioningPayload payloadHash) []).isSome

/-- A tree that holds a manifest can take its files again. -/
theorem Matches.placeable {tree : Tree} {files : List Entry}
    (same : Matches relay tree (wantedBy files)) : Placeable relay tree files := by
  intro entry member
  have isWanted := wantedBy_isSome.mpr (List.mem_map_of_mem member)
  obtain ⟨digest, isDigest⟩ := Option.isSome_iff_exists.mp isWanted
  obtain ⟨ino, -, isFile⟩ := same.linked entry.path digest isDigest
  refine ⟨by simp [isFile], ?_⟩
  intro above other isPrefix different isAbove
  rw [Volume.directory_of_prefix isPrefix different isFile] at isAbove
  cases isAbove

theorem Synced.assemblable {payloadHash : String} (synced : Synced relay payload payloadHash) :
    Assemblable relay payload.host payload.manifest payloadHash where
  placeable := synced.host.placeable
  allHeld := synced.allHeld
  prefixFree := synced.host.prefixFree
  recordable :=
    { existing := fun _ => synced.snapshot
      created := fun absent => by
        have isThere := synced.root
        rw [absent] at isThere
        cases isThere }

theorem AllHeld.nothing_missing (allHeld : AllHeld relay payload.manifest.files) :
    missingDigests relay payload.manifest = [] := by
  rw [List.eq_nil_iff_forall_not_mem]
  intro digest member
  obtain ⟨isNamed, missing⟩ := mem_missingDigests.mp member
  obtain ⟨entry, isEntry, rfl⟩ := List.mem_map.mp isNamed
  have held := allHeld entry isEntry
  rw [missing] at held
  cases held

/-- Syncing again what is on the relay succeeds. -/
theorem Synced.again {payloadHash : String} (synced : Synced relay payload payloadHash) :
    ∃ result, ((syncPayload dumps payload).run relay).1 = .done result := by
  have succeeds : Meets .reliable (syncPayload dumps payload) relay (fun _ _ => True)
      fun _ => False := by
    refine .require_bind (fun _ => .query_bind ?_ (by simp)) ?_
    · have nothing : whenever (!(missingDigests relay payload.manifest).isEmpty)
          (uploadBlobs payload.sources (missingDigests relay payload.manifest)) = done () := by
        rw [synced.allHeld.nothing_missing]
        rfl
      rw [nothing]
      have assembled : Meets .reliable (cmdAssemble dumps payload.host payload.manifest) relay
          (fun _ _ => True) fun _ => False :=
        cmdAssemble_meets.mono (fun _ _ _ => trivial)
          fun _ fails => fails ⟨payloadHash, synced.hash, synced.assemblable⟩
      exact assembled
    · intro isEmpty
      exact absurd (by simpa using isEmpty) synced.nonempty
  rcases succeeds.run with ⟨result, isDone, -⟩ | ⟨_, _, impossible⟩
  · exact ⟨result, isDone⟩
  · exact impossible.elim

end Syncing

end MastProvisioning.Blobstore
