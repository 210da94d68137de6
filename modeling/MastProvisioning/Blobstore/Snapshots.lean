import MastProvisioning.Semantics.System
import MastProvisioning.Blobstore.Contents

/-!
# Snapshots over whole runs

What becomes of a recorded snapshot under every command of the blobstore, done,
failed or cut off at any system call. Its tree does not change. The bytes of its
files change with a repair, and with a text that the blobstore writes in place when
that text's file was adopted as a blob.
-/

namespace MastProvisioning.Blobstore

open MastProvisioning.Semantics MastProvisioning.Semantics.Command
open MastProvisioning.Collections MastProvisioning.Storage

variable {relay : Relay} {sha256 : Bytes → String} {dumps : Manifest → Bytes}
  {faults : List Fault} {order : Order} {kind : SnapshotKind} {snapshotId : String}

/-- A file of a snapshot is linked to an inode. -/
def InSnapshot (relay : Relay) (ino : Nat) : Prop :=
  ∃ kind snapshotId path, relay.node? (.snapshot kind snapshotId) path = some (.file ino)

/-- There is a snapshot under an id. -/
abbrev Exists (relay : Relay) (kind : SnapshotKind) (snapshotId : String) : Prop :=
  relay.node? (.snapshot kind snapshotId) [] ≠ none

/-- The files whose bytes a command writes in place. -/
def Order.Writes (relay : Relay) (ino : Nat) : Order → Prop
  | .assemble host manifest => relay.slot? (.hostManifest host) = some ino ∨
    ∃ payloadHash, manifest.payloadHash = some payloadHash ∧
      ¬ Exists relay .provisioningPayload payloadHash ∧
      relay.slot? (.record .provisioningPayload payloadHash) = some ino
  | .snapshot kind snapshotId _ =>
    ¬ Exists relay kind snapshotId ∧ relay.slot? (.record kind snapshotId) = some ino
  | .repair digest _ => relay.slot? (.blob digest) = some ino
  | _ => False

section Steps

/-- Recording a snapshot that is there changes nothing, whatever it is recorded with. -/
theorem snapshot_again {manifest : Manifest} (isThere : Exists relay kind snapshotId) :
    Meets .interrupted (snapshot dumps kind snapshotId manifest) relay
      (fun _ after => after = relay) fun after => after = relay := by
  have isSome : (relay.node? (.snapshot kind snapshotId) []).isSome :=
    Option.isSome_iff_ne_none.mpr isThere
  refine .query_bind (.ite (fun _ => ?_) fun notThere => absurd isSome notThere) fun _ => rfl
  exact .query_bind (.require_bind (fun _ => .pure rfl) fun _ => rfl) fun _ => rfl

/-- Assembling writes no record when the snapshot of the payload is there. -/
theorem cmdAssemble_bytes_again {host : String} {manifest : Manifest} {payloadHash : String}
    {written : Nat → Prop} (isHash : manifest.payloadHash = some payloadHash)
    (isThere : Exists relay .provisioningPayload payloadHash)
    (isHost : ∀ ino, relay.slot? (.hostManifest host) = some ino → written ino) :
    BytesKept written relay (cmdAssemble dumps host manifest ⟨relay, faults⟩).2.state := by
  let same := TreesKept (· = .snapshot .provisioningPayload payloadHash) relay
  have kept : Preserves .interrupted (fun after => BytesKept written relay after ∧ same after)
      (cmdAssemble dumps host manifest) := by
    refine cmdAssemble_keeps manifest ?_ ?_ ?_
    · rintro volume after ⟨bytes, trees⟩ step
      exact ⟨bytes.treeStep step, trees.treeStep (by simp) step⟩
    · rintro volume after ⟨bytes, trees⟩ step
      exact ⟨bytes.textStep rfl isHost step, trees.textStep (by simp) step⟩
    · rintro otherHash isOther volume ⟨bytes, trees⟩
      obtain rfl := Option.some.inj (isHash.symm.trans isOther)
      have stillThere : Exists volume .provisioningPayload payloadHash :=
        fun absent => isThere ((trees.node _ [] rfl).symm.trans absent)
      exact (snapshot_again stillThere).mono (fun _ _ unchanged => unchanged ▸ ⟨bytes, trees⟩)
        fun _ unchanged => unchanged ▸ ⟨bytes, trees⟩
  exact ((kept relay ⟨.refl, .refl⟩).final faults).1

/-- A command changes the bytes only of the files it writes in place. -/
theorem Order.bytesKept (order : Order) :
    BytesKept (fun ino => order.Writes relay ino) relay
      (order.relayAfter sha256 dumps relay faults) := by
  cases order with
  | seed names => exact (cmdSeed_bytes names relay .refl).final faults
  | want manifest =>
    have read : Preserves .interrupted (BytesKept (fun _ => False) relay) (cmdWant manifest) :=
      .query _
    exact (read relay .refl).final faults
  | upload blobs => exact (rsyncBlobs_bytes blobs relay .refl).final faults
  | assemble host manifest =>
    by_cases recorded : ∃ payloadHash, manifest.payloadHash = some payloadHash ∧
        Exists relay .provisioningPayload payloadHash
    · obtain ⟨payloadHash, isHash, isThere⟩ := recorded
      exact cmdAssemble_bytes_again isHash isThere fun _ => .inl
    · refine (cmdAssemble_bytes (fun _ => .inl) (fun payloadHash isHash _ isRecord => ?_)
        relay .refl).final faults
      exact .inr ⟨payloadHash, isHash, fun isThere => recorded ⟨_, isHash, isThere⟩, isRecord⟩
  | snapshot kind snapshotId manifest =>
    by_cases isThere : Exists relay kind snapshotId
    · have unchanged : (Order.snapshot kind snapshotId manifest).relayAfter sha256 dumps relay
          faults = relay := (snapshot_again isThere).final faults
      rw [unchanged]
      exact .refl
    · exact (snapshot_bytes manifest (fun _ isRecord => ⟨isThere, isRecord⟩) relay .refl).final faults
  | gc dryRun => exact (cmdGc_bytes dryRun relay .refl).final faults
  | repair digest source => exact cmdRepair_bytes.final faults

/-- No command changes the tree of a snapshot. -/
theorem Order.treeKept (order : Order) (isThere : Exists relay kind snapshotId) (path : Path) :
    (order.relayAfter sha256 dumps relay faults).node? (.snapshot kind snapshotId) path =
      relay.node? (.snapshot kind snapshotId) path := by
  let kept : Tree → Prop := (· = .snapshot kind snapshotId)
  have isKept : ∀ otherKind otherId, kept (.snapshot otherKind otherId) →
      relay.node? (.snapshot otherKind otherId) [] ≠ none := by
    rintro otherKind otherId same
    exact (show Tree.snapshot otherKind otherId = .snapshot kind snapshotId from same) ▸ isThere
  cases order with
  | seed names => exact ((cmdSeed_names names relay .refl).final faults).nodes _ _
  | want manifest =>
    have read : Preserves .interrupted (NamesKept (fun _ _ => False) relay) (cmdWant manifest) :=
      .query _
    exact ((read relay .refl).final faults).nodes _ _
  | upload blobs => exact ((rsyncBlobs_nodes blobs relay .refl).final faults).nodes _ _
  | assemble host manifest =>
    have same : Preserves .interrupted (TreesKept kept relay) (cmdAssemble dumps host manifest) :=
      cmdAssemble_keepsTrees (by simp [kept]) (by simp [kept]) fun _ _ => isKept _ _
    exact ((same relay .refl).final faults).node _ path rfl
  | snapshot otherKind otherId manifest =>
    have same : Preserves .interrupted (TreesKept kept relay)
        (cmdSnapshot dumps otherKind otherId manifest) :=
      snapshot_keepsTrees (by simp [kept]) (isKept _ _) manifest
    exact ((same relay .refl).final faults).node _ path rfl
  | gc dryRun => exact ((cmdGc_names dryRun relay .refl).final faults).nodes _ _
  | repair digest source => exact ((cmdRepair_names digest source).final faults).1 _ _

/-- What a command must not do: write a text in place whose file was adopted as a
blob, adopt a blob that has other bytes than its digest's under a second digest,
replace a blob that a snapshot is linked to, or be cut off while it rewrites such a
blob with other bytes. -/
structure Guarded (sha256 : Bytes → String) (relay : Relay) (order : Order) (faults : List Fault) :
    Prop where
  texts : (∀ digest source, order ≠ .repair digest source) →
    ∀ ino, order.Writes relay ino → ∀ digest, relay.slot? (.blob digest) ≠ some ino
  seeds : ∀ names, order = .seed names → ∀ name ∈ names, ∀ ino digest,
    inoOf relay name = some ino → relay.slot? (.blob digest) = some ino →
      sha256 (relay.inodes ino).bytes = digest
  uploads : ∀ blobs, order = .upload blobs → ∀ blob ∈ blobs, ∀ ino,
    relay.slot? (.blob blob.1) = some ino → InSnapshot relay ino → SameStat relay ino blob.2
  repairs : ∀ digest source, order = .repair digest source → faults = [] ∨
    ∀ ino, relay.slot? (.blob digest) = some ino → InSnapshot relay ino →
      ∀ file, inoOf relay source = some file → sha256 (relay.inodes file).bytes = digest →
        (relay.inodes file).bytes = (relay.inodes ino).bytes

/-- A blob that a snapshot is linked to stays in the store. -/
theorem Guarded.blobKept {digest : String} {ino : Nat} (guarded : Guarded sha256 relay order faults)
    (isLinked : InSnapshot relay ino) (isBlob : relay.slot? (.blob digest) = some ino) :
    (order.relayAfter sha256 dumps relay faults).slot? (.blob digest) = some ino := by
  let none : Tree → Prop := fun _ => False
  cases order with
  | seed names => exact ((cmdSeed_names names relay .refl).final faults).blobs _ _ trivial isBlob
  | want manifest =>
    have read : Preserves .interrupted (NamesKept (fun _ _ => True) relay) (cmdWant manifest) :=
      .query _
    exact ((read relay .refl).final faults).blobs _ _ trivial isBlob
  | upload blobs =>
    have sent : Preserves .interrupted (BlobKept relay digest ino) (rsyncBlobs blobs) := by
      refine .forEach fun blob member => .change ?_
      rintro volume after kept ⟨⟩
      refine kept.sent fun same => ?_
      exact guarded.uploads blobs rfl blob member ino (same ▸ isBlob) isLinked
    exact ((sent relay ⟨fun _ _ => rfl, isBlob, rfl⟩).final faults).slot
  | assemble host manifest =>
    have same : Preserves .interrupted (TreesKept none relay) (cmdAssemble dumps host manifest) :=
      cmdAssemble_keepsTrees id (fun _ _ => id) fun _ _ => False.elim
    exact (((same relay .refl).final faults).blob digest).trans isBlob
  | snapshot otherKind otherId manifest =>
    have same : Preserves .interrupted (TreesKept none relay)
        (cmdSnapshot dumps otherKind otherId manifest) :=
      snapshot_keepsTrees id False.elim manifest
    exact (((same relay .refl).final faults).blob digest).trans isBlob
  | gc dryRun =>
    obtain ⟨kind, snapshotId, path, isFile⟩ := isLinked
    exact ((cmdGc_names dryRun relay .refl).final faults).blobs _ _ ⟨_, path, isFile⟩ isBlob
  | repair digest source =>
    exact (((cmdRepair_names digest source).final faults).2 _).trans isBlob

/-- The bytes of a snapshot's file stay, unless a repair restores them. -/
theorem Guarded.bytes_or_restored {path : Path} {ino : Nat} {held : String}
    (guarded : Guarded sha256 relay order faults)
    (isFile : relay.node? (.snapshot kind snapshotId) path = some (.file ino))
    (isHeld : relay.slot? (.blob held) = some ino) :
    ((order.relayAfter sha256 dumps relay faults).inodes ino).bytes = (relay.inodes ino).bytes ∨
      ∃ digest source, order = .repair digest source ∧ relay.slot? (.blob digest) = some ino ∧
        sha256 ((order.relayAfter sha256 dumps relay faults).inodes ino).bytes = digest := by
  have isLinked : InSnapshot relay ino := ⟨kind, snapshotId, path, isFile⟩
  have kept : ¬ order.Writes relay ino →
      ((order.relayAfter sha256 dumps relay faults).inodes ino).bytes = (relay.inodes ino).bytes :=
    order.bytesKept.bytes ino (Volume.file_lt isFile)
  by_cases isRepair : ∃ digest source, order = .repair digest source
  · obtain ⟨digest, source, rfl⟩ := isRepair
    by_cases isBlob : relay.slot? (.blob digest) = some ino
    · rcases guarded.repairs digest source rfl with rfl | same
      · rcases (cmdRepair_restores : Meets .reliable (cmdRepair sha256 digest source) relay _ _).run
          with ⟨_, -, restored⟩ | ⟨_, -, unchanged⟩
        · exact .inr ⟨digest, source, rfl, isBlob, restored ino isBlob⟩
        · have unchangedAfter : (Order.repair digest source).relayAfter sha256 dumps relay [] =
              relay := unchanged
          exact .inl (by rw [unchangedAfter])
      · have rewritten : Meets .interrupted (cmdRepair sha256 digest source) relay _ _ :=
          cmdRepair_same isBlob (same ino isBlob isLinked)
        exact .inl (rewritten.final faults)
    · exact .inl (kept isBlob)
  · refine .inl (kept fun isWritten => guarded.texts ?_ ino isWritten held isHeld)
    rintro digest source rfl
    exact isRepair ⟨digest, source, rfl⟩

end Steps

section Recording

/-- A snapshot takes its name last: where recording it stopped, it is not there. -/
theorem snapshot_stopped {manifest : Manifest} (absent : ¬ Exists relay kind snapshotId) :
    Meets .interrupted (snapshot dumps kind snapshotId manifest) relay (fun _ _ => True)
      fun after => ¬ Exists after kind snapshotId := by
  let same := TreesKept (· = .snapshot kind snapshotId) relay
  have still : ∀ after, same after → ¬ Exists after kind snapshotId := by
    intro after kept isThere
    exact absent fun notThere => isThere ((kept.node _ [] rfl).trans notThere)
  have trees : ∀ volume after, same volume → TreeStep (.building kind snapshotId) volume after →
      same after := fun _ _ => TreesKept.treeStep (by simp)
  have texts : ∀ volume after, same volume → TextStep (.record kind snapshotId) volume after →
      same after := fun _ _ => TreesKept.textStep (by simp)
  have notThere : relay.node? (.snapshot kind snapshotId) [] = none := by simpa using absent
  refine .query_bind ?_ fun _ => absent
  rw [notThere]
  refine .query_bind ?_ fun _ => absent
  have cleared : Preserves .interrupted same
      (whenever (relay.node? (.building kind snapshotId) []).isSome
        (removeTree false (.building kind snapshotId))) :=
    whenever_preserves (removeTree_keeps trees _)
  refine ((cleared relay .refl).mono (fun _ _ kept => kept) still).bind fun _ middle kept => ?_
  have built : Preserves .interrupted same
      (onException (forEach (pathDigests manifest.files) (linkWanted (.building kind snapshotId)))
        (removeTree true (.building kind snapshotId))) :=
    .onException (.forEach fun entry _ => linkWanted_keeps trees entry) (removeTree_keeps trees _)
  refine ((built middle kept).mono (fun _ _ kept => kept) still).bind fun _ full kept => ?_
  have written : Preserves .interrupted same
      (writeText (.record kind snapshotId) (dumps manifest)) := writeText_keeps _ texts
  refine ((written full kept).mono (fun _ _ kept => kept) still).bind fun _ recorded kept => ?_
  have renamed : Meets .interrupted
      (change "rename" fun relay : Relay =>
        relay.moveTree (.building kind snapshotId) (.snapshot kind snapshotId)) recorded
      (fun _ _ => True) fun after => ¬ Exists after kind snapshotId :=
    .change (fun _ _ => trivial) (fun _ => still _ kept) fun _ => still _ kept
  exact renamed.bind fun _ _ _ => .pure trivial

theorem cmdAssemble_stopped {host : String} {manifest : Manifest} {payloadHash : String}
    (absent : ¬ Exists relay .provisioningPayload payloadHash)
    (isHash : manifest.payloadHash = some payloadHash) :
    Meets .interrupted (cmdAssemble dumps host manifest) relay (fun _ _ => True)
      fun after => ¬ Exists after .provisioningPayload payloadHash := by
  let same := TreesKept (· = .snapshot .provisioningPayload payloadHash) relay
  have still : ∀ after, same after → ¬ Exists after .provisioningPayload payloadHash := by
    intro after kept isThere
    exact absent fun notThere => isThere ((kept.node _ [] rfl).trans notThere)
  have keeps : ∀ {Value : Type} {command : Command Relay Value} {middle : Relay},
      Preserves .interrupted same command → same middle →
      Meets .interrupted command middle (fun _ after => same after)
        fun after => ¬ Exists after .provisioningPayload payloadHash :=
    fun preserves holds => (preserves _ holds).mono (fun _ _ kept => kept) still
  have steps : ∀ volume after, same volume → TreeStep (.host host) volume after → same after :=
    fun _ _ => TreesKept.treeStep (by simp)
  refine (keeps (makeDirs_keeps steps _) .refl).bind fun _ rooted kept => ?_
  refine (keeps (.forEach fun entry _ => linkEntry_keeps steps entry) kept).bind
    fun _ linked kept => ?_
  refine (keeps (pruneTo_keeps steps _) kept).bind fun removed pruned kept => ?_
  refine (keeps (writeText_keeps _ fun _ _ => TreesKept.textStep (by simp)) kept).bind
    fun _ written kept => ?_
  rw [isHash]
  exact (snapshot_stopped (still _ kept)).bind fun _ _ _ => .pure trivial

/-- A snapshot that was recorded holds what it was recorded with. -/
theorem cmdSnapshot_done {manifest : Manifest}
    (isDone : (cmdSnapshot dumps kind snapshotId manifest ⟨relay, faults⟩).1.isDone = true) :
    Matches (cmdSnapshot dumps kind snapshotId manifest ⟨relay, faults⟩).2.state
      (.snapshot kind snapshotId) (wantedBy manifest.files) := by
  obtain ⟨state, isState⟩ := Outcome.isDone_iff.mp isDone
  have strict : Strict (cmdSnapshot dumps kind snapshotId manifest) :=
    snapshot_strict kind snapshotId manifest
  have ran : Meets .reliable (cmdSnapshot dumps kind snapshotId manifest) relay _ _ := snapshot_meets
  obtain ⟨-, recorded⟩ := strict.meets ran (Prod.ext isState rfl)
  rcases recorded with ⟨-, same, -, holds⟩ | ⟨-, -, recorded⟩
  · rw [same]
    exact holds
  · exact recorded.same

/-- The snapshot of a payload that was assembled holds the payload. -/
theorem cmdAssemble_done {host : String} {manifest : Manifest} {payloadHash : String}
    (isHash : manifest.payloadHash = some payloadHash)
    (isDone : (cmdAssemble dumps host manifest ⟨relay, faults⟩).1.isDone = true) :
    Matches (cmdAssemble dumps host manifest ⟨relay, faults⟩).2.state
      (.snapshot .provisioningPayload payloadHash) (wantedBy manifest.payload) := by
  obtain ⟨value, isValue⟩ := Outcome.isDone_iff.mp isDone
  have ran : Meets .reliable (cmdAssemble dumps host manifest) relay _ _ := cmdAssemble_meets
  obtain ⟨_, isOther, -, assembled⟩ :=
    (cmdAssemble_strict host manifest).meets ran (Prod.ext isValue rfl)
  obtain rfl := Option.some.inj (isHash.symm.trans isOther)
  exact assembled.snapshot

/-- Recording a snapshot with the files it holds is done. -/
theorem cmdSnapshot_same {manifest : Manifest} (isThere : Exists relay kind snapshotId)
    (same : Matches relay (.snapshot kind snapshotId) (wantedBy manifest.files)) :
    (cmdSnapshot dumps kind snapshotId manifest ⟨relay, []⟩).1 = .done .existing := by
  have ran : Meets .reliable (snapshot dumps kind snapshotId manifest) relay _ _ := snapshot_meets
  rcases ran.run with ⟨state, isDone, -, ⟨rfl, -⟩ | ⟨-, absent, -⟩⟩ | ⟨_, -, fails⟩
  · exact isDone
  · exact absurd absent isThere
  · exact absurd ⟨fun _ => same, fun absent => absurd absent isThere⟩ fails

/-- A snapshot that is not there is recorded, whatever earlier attempts have left. -/
theorem cmdSnapshot_new {manifest : Manifest} (absent : ¬ Exists relay kind snapshotId)
    (nonempty : manifest.files ≠ []) (held : Held relay (wantedBy manifest.files))
    (prefixFree : PrefixFree (wantedBy manifest.files)) :
    (cmdSnapshot dumps kind snapshotId manifest ⟨relay, []⟩).1 = .done .created := by
  have ran : Meets .reliable (snapshot dumps kind snapshotId manifest) relay _ _ := snapshot_meets
  rcases ran.run with ⟨state, isDone, -, ⟨-, -, isThere, -⟩ | ⟨rfl, -⟩⟩ | ⟨_, -, fails⟩
  · exact absurd (Option.isSome_iff_ne_none.mp isThere) absent
  · exact isDone
  · refine absurd ⟨fun isThere => ?_, fun _ => ⟨nonempty, held, prefixFree⟩⟩ fails
    exact absurd (Option.isSome_iff_ne_none.mp isThere) absent

/-- What a command records a snapshot with. -/
def Order.Records (kind : SnapshotKind) (snapshotId : String) : Order → Option Wanted
  | .assemble _ manifest =>
    if kind = .provisioningPayload ∧ manifest.payloadHash = some snapshotId then
      some (wantedBy manifest.payload)
    else none
  | .snapshot otherKind otherId manifest =>
    if kind = otherKind ∧ snapshotId = otherId then some (wantedBy manifest.files) else none
  | _ => none

/-- Whether a command that records snapshots was done. -/
def Order.isDone (dumps : Manifest → Bytes) (relay : Relay) (faults : List Fault) : Order → Bool
  | .assemble host manifest => (cmdAssemble dumps host manifest ⟨relay, faults⟩).1.isDone
  | .snapshot kind snapshotId manifest =>
    (cmdSnapshot dumps kind snapshotId manifest ⟨relay, faults⟩).1.isDone
  | _ => false

/-- A command that does not record a snapshot makes none. -/
theorem Order.stillAbsent (absent : ¬ Exists relay kind snapshotId)
    (other : order.Records kind snapshotId = none) :
    ¬ Exists (order.relayAfter sha256 dumps relay faults) kind snapshotId := by
  have notThere : relay.node? (.snapshot kind snapshotId) [] = none := by simpa using absent
  let kept : Tree → Prop := (· = .snapshot kind snapshotId)
  have still : ∀ after : Relay, after.node? (.snapshot kind snapshotId) [] =
      relay.node? (.snapshot kind snapshotId) [] → ¬ Exists after kind snapshotId :=
    fun after same isThere => isThere (same.trans notThere)
  refine still _ ?_
  cases order with
  | seed names => exact ((cmdSeed_names names relay .refl).final faults).nodes _ _
  | want manifest =>
    have read : Preserves .interrupted (NamesKept (fun _ _ => False) relay) (cmdWant manifest) :=
      .query _
    exact ((read relay .refl).final faults).nodes _ _
  | upload blobs => exact ((rsyncBlobs_nodes blobs relay .refl).final faults).nodes _ _
  | assemble host manifest =>
    have same : Preserves .interrupted (TreesKept kept relay) (cmdAssemble dumps host manifest) := by
      refine cmdAssemble_keepsTrees (by simp [kept]) (by simp [kept]) ?_
      rintro payloadHash isHash isKept
      obtain ⟨rfl, rfl⟩ := Tree.snapshot.inj isKept
      simp [Order.Records, isHash] at other
    exact ((same relay .refl).final faults).node _ [] rfl
  | snapshot otherKind otherId manifest =>
    have same : Preserves .interrupted (TreesKept kept relay)
        (cmdSnapshot dumps otherKind otherId manifest) := by
      refine snapshot_keepsTrees (by simp [kept]) ?_ manifest
      rintro isKept
      obtain ⟨rfl, rfl⟩ := Tree.snapshot.inj isKept
      simp [Order.Records] at other
    exact ((same relay .refl).final faults).node _ [] rfl
  | gc dryRun => exact ((cmdGc_names dryRun relay .refl).final faults).nodes _ _
  | repair digest source => exact ((cmdRepair_names digest source).final faults).1 _ _

theorem Order.Records_assemble {host : String} {manifest : Manifest} {wanted : Wanted} :
    (Order.assemble host manifest).Records kind snapshotId = some wanted ↔
      (kind = .provisioningPayload ∧ manifest.payloadHash = some snapshotId) ∧
        wantedBy manifest.payload = wanted := by
  simp [Order.Records]

theorem Order.Records_snapshot {manifest : Manifest} {otherKind : SnapshotKind} {otherId : String}
    {wanted : Wanted} :
    (Order.snapshot otherKind otherId manifest).Records kind snapshotId = some wanted ↔
      (kind = otherKind ∧ snapshotId = otherId) ∧ wantedBy manifest.files = wanted := by
  simp [Order.Records]

/-- What was recorded is what the command records. -/
theorem Order.records_done {wanted : Wanted} (records : order.Records kind snapshotId = some wanted)
    (isDone : order.isDone dumps relay faults = true) :
    Matches (order.relayAfter sha256 dumps relay faults) (.snapshot kind snapshotId) wanted := by
  cases order with
  | assemble host manifest =>
    obtain ⟨⟨rfl, isHash⟩, rfl⟩ := Records_assemble.mp records
    exact cmdAssemble_done isHash isDone
  | snapshot otherKind otherId manifest =>
    obtain ⟨⟨rfl, rfl⟩, rfl⟩ := Records_snapshot.mp records
    exact cmdSnapshot_done isDone
  | seed names => cases records
  | want manifest => cases records
  | upload blobs => cases records
  | gc dryRun => cases records
  | repair digest source => cases records

/-- A command that fails to record a snapshot leaves none. -/
theorem Order.records_failed {wanted : Wanted} (absent : ¬ Exists relay kind snapshotId)
    (records : order.Records kind snapshotId = some wanted)
    (fails : order.isDone dumps relay faults = false) :
    ¬ Exists (order.relayAfter sha256 dumps relay faults) kind snapshotId := by
  cases order with
  | assemble host manifest =>
    obtain ⟨⟨rfl, isHash⟩, -⟩ := Records_assemble.mp records
    exact (cmdAssemble_stopped absent isHash).stopped fails
  | snapshot otherKind otherId manifest =>
    obtain ⟨⟨rfl, rfl⟩, -⟩ := Records_snapshot.mp records
    exact (snapshot_stopped absent).stopped fails
  | seed names => cases records
  | want manifest => cases records
  | upload blobs => cases records
  | gc dryRun => cases records
  | repair digest source => cases records

end Recording

end MastProvisioning.Blobstore
