import MastProvisioning.Blobstore.Frames
import MastProvisioning.Blobstore.Sync

/-!
# What the blobstore's commands do to the bytes of files

Only two things change the bytes of a file that is there: a text that the blobstore
writes in place, and a repair, which rewrites its blob in place. A repair that is not
cut off leaves the blob with bytes of its digest.
-/

namespace MastProvisioning.Blobstore

open MastProvisioning.Semantics MastProvisioning.Semantics.Command
open MastProvisioning.Collections MastProvisioning.Storage

section Contents

variable {relay after next : Relay} {mode : Mode} {written : Nat → Prop}
  {sha256 : Bytes → String} {dumps : Manifest → Bytes}

/-- No file's bytes have changed but for some, and the texts are where they were or
are new. -/
structure BytesKept (written : Nat → Prop) (relay after : Relay) : Prop where
  bytes : ∀ ino, ino < relay.fresh → ¬ written ino →
    (after.inodes ino).bytes = (relay.inodes ino).bytes
  fresh : relay.fresh ≤ after.fresh
  texts : ∀ slot ino, slot.holdsText → after.slot? slot = some ino →
    relay.slot? slot = some ino ∨ relay.fresh ≤ ino

namespace BytesKept

theorem refl : BytesKept written relay relay :=
  ⟨fun _ _ _ => rfl, Nat.le_refl _, fun _ _ _ isText => .inl isText⟩

theorem sameFiles (kept : BytesKept written relay after) (same : SameFiles after next) :
    BytesKept written relay next where
  bytes ino earlier unwritten := by
    rw [same.inodes]
    exact kept.bytes ino earlier unwritten
  fresh := by
    rw [same.fresh]
    exact kept.fresh
  texts slot ino holdsText isText := kept.texts slot ino holdsText ((same.slot slot).symm.trans isText)

theorem slotChange {slot : Slot} {value : Option Nat} (kept : BytesKept written relay after)
    (change : Volume.SlotChange after next slot value)
    (new : slot.holdsText → ∀ ino, value = some ino → relay.fresh ≤ ino) :
    BytesKept written relay next where
  bytes ino earlier unwritten := by
    rw [change.inodes ino (Nat.lt_of_lt_of_le earlier kept.fresh)]
    exact kept.bytes ino earlier unwritten
  fresh := Nat.le_trans kept.fresh change.fresh
  texts other ino holdsText isText := by
    rw [change.slot] at isText
    split at isText
    · rename_i same
      exact .inr (new (same ▸ holdsText) ino isText)
    · exact kept.texts other ino holdsText isText

theorem contentChange {ino : Nat} (kept : BytesKept written relay after)
    (isWritten : written ino ∨ relay.fresh ≤ ino) (change : Volume.ContentChange after next ino) :
    BytesKept written relay next where
  bytes other earlier unwritten := by
    have different : other ≠ ino := by
      rintro rfl
      exact isWritten.elim unwritten fun later => Nat.not_lt.mpr later earlier
    rw [change.inodes other different]
    exact kept.bytes other earlier unwritten
  fresh := by
    rw [change.fresh]
    exact kept.fresh
  texts slot other holdsText isText :=
    kept.texts slot other holdsText ((change.slot slot).symm.trans isText)

theorem treeStep {tree : Tree} (kept : BytesKept written relay after)
    (step : TreeStep tree after next) : BytesKept written relay next := by
  obtain ⟨path, value, change, -⟩ := step
  exact kept.sameFiles change.sameFiles

theorem textStep {slot : Slot} (holdsText : slot.holdsText)
    (isWritten : ∀ ino, relay.slot? slot = some ino → written ino)
    (kept : BytesKept written relay after) (step : TextStep slot after next) :
    BytesKept written relay next := by
  rcases step with change | ⟨ino, isText, change⟩
  · refine kept.slotChange change fun _ ino same => ?_
    rw [← Option.some.inj same]
    exact kept.fresh
  · refine kept.contentChange ?_ change
    exact (kept.texts slot ino holdsText isText).imp_left (isWritten ino)

end BytesKept

theorem snapshot_bytes {kind : SnapshotKind} {snapshotId : String} (manifest : Manifest)
    (isWritten : ∀ ino, relay.slot? (.record kind snapshotId) = some ino → written ino) :
    Preserves mode (BytesKept written relay) (snapshot dumps kind snapshotId manifest) :=
  snapshot_keeps manifest (fun _ _ => .treeStep) (fun _ _ => .textStep rfl isWritten)
    fun _ _ kept _ moved => kept.sameFiles ⟨moved.slot, moved.inodes, moved.fresh⟩

theorem cmdAssemble_bytes {host : String} {manifest : Manifest}
    (isHost : ∀ ino, relay.slot? (.hostManifest host) = some ino → written ino)
    (isRecord : ∀ payloadHash, manifest.payloadHash = some payloadHash → ∀ ino,
      relay.slot? (.record .provisioningPayload payloadHash) = some ino → written ino) :
    Preserves mode (BytesKept written relay) (cmdAssemble dumps host manifest) :=
  cmdAssemble_keeps manifest (fun _ _ => .treeStep) (fun _ _ => .textStep rfl isHost)
    fun _ isHash => snapshot_bytes _ (isRecord _ isHash)

theorem cmdSeed_bytes (names : List FileName) :
    Preserves mode (BytesKept written relay) (cmdSeed sha256 names) := by
  refine .foldEach fun name _ count => .bind (.query _) fun file => ?_
  cases file with
  | none => exact .pure _
  | some ino =>
    refine .bind (.query _) fun digest => .bind (.query _) fun dest => .ite (.pure _) (.call ?_)
    intro volume counted after kept done
    split at done
    · rename_i linked isLinked
      obtain ⟨-, rfl⟩ := Prod.mk.inj (Option.some.inj done)
      exact kept.slotChange (Volume.linkSlot_change isLinked).2.2 fun impossible => by cases impossible
    · obtain ⟨-, rfl⟩ := Prod.mk.inj (Option.some.inj done)
      exact kept

theorem rsyncBlobs_bytes (blobs : List (String × Source)) :
    Preserves mode (BytesKept written relay) (rsyncBlobs blobs) := by
  refine .forEach fun blob _ => .change ?_
  rintro volume after kept ⟨⟩
  rcases rsyncFile_cases volume blob.1 blob.2 with skipped | replaced
  · rw [skipped]
    exact kept
  · rw [replaced]
    exact kept.slotChange (Volume.replaceSlot_change _).1 fun impossible => by cases impossible

theorem cmdGc_bytes (dryRun : Bool) :
    Preserves mode (BytesKept written relay) (cmdGc dryRun) := by
  refine .bind (.query _) fun _ => .foldEach fun digest _ count => .bind (.query _) fun blob => ?_
  cases blob with
  | none => exact .exit _
  | some ino =>
    refine .bind (.query _) fun _ => .ite (.bind (whenever_preserves (.change ?_)) fun _ => .pure _)
      (.pure _)
    intro volume after kept done
    exact kept.slotChange (Volume.unlinkSlot_change done) fun impossible => by cases impossible

theorem overwrite_bytes {ino : Nat} (isWritten : written ino) (good : Bytes) :
    Preserves mode (BytesKept written relay) (overwrite ino good) := by
  refine .bind (.forEach fun piece _ => .change ?_) fun _ => .change ?_
  · rintro volume after kept ⟨⟩
    exact kept.contentChange (.inl isWritten) Volume.setContent_change
  · rintro volume after kept ⟨⟩
    exact kept.contentChange (.inl isWritten) Volume.setContent_change

end Contents

section Repairing

variable {relay after : Relay} {mode : Mode} {sha256 : Bytes → String} {ino : Nat} {good : Bytes}

theorem chunksFrom_succ {fuel offset : Nat} {bytes : Bytes} (nonempty : bytes ≠ []) :
    chunksFrom (fuel + 1) offset bytes = (offset, bytes.take READ_CHUNK) ::
      chunksFrom fuel (offset + READ_CHUNK) (bytes.drop READ_CHUNK) := by
  cases bytes with
  | nil => contradiction
  | cons byte rest => rfl

/-- The pieces of a file are what it holds from their offsets on. -/
theorem mem_chunksFrom {fuel offset : Nat} {piece : Nat × Bytes}
    (member : piece ∈ chunksFrom fuel offset (good.drop offset)) :
    piece.2 = (good.drop piece.1).take READ_CHUNK := by
  induction fuel generalizing offset with
  | zero => cases member
  | succ fuel ih =>
    by_cases rest : good.drop offset = []
    · rw [rest] at member
      cases member
    · rw [chunksFrom_succ rest, List.drop_drop] at member
      rcases List.mem_cons.mp member with rfl | later
      · rfl
      · exact ih later

/-- Writing into a file what it holds there. -/
theorem splice_same (offset count : Nat) :
    good.take offset ++ (good.drop offset).take count ++
      good.drop (offset + ((good.drop offset).take count).length) = good := by
  have rest : (good.drop offset).take count ++
      (good.drop offset).drop ((good.drop offset).take count).length = good.drop offset := by
    rw [List.length_take, List.take_eq_take_min, List.take_append_drop]
  rw [List.append_assoc, ← List.drop_drop, rest, List.take_append_drop]

/-- Overwriting a file with what it holds leaves its bytes, wherever it is cut off. -/
theorem overwrite_same :
    Preserves mode (fun after : Relay => (after.inodes ino).bytes = good) (overwrite ino good) := by
  refine .bind (.forEach fun piece member => .change ?_) fun _ => .change ?_
  · rintro volume after same ⟨⟩
    have fromStart : piece ∈ chunksFrom good.length 0 (good.drop 0) := by simpa using member
    simp only [Volume.write, Volume.setContent, Function.update_self, same]
    rw [mem_chunksFrom fromStart, splice_same]
  · rintro volume after same ⟨⟩
    simp [Volume.truncate, Volume.setContent, same]

/-- The beginning of a file has been overwritten. -/
structure Overwriting (good : Bytes) (ino offset : Nat) (after : Relay) : Prop where
  reached : min offset good.length ≤ (after.inodes ino).bytes.length
  same : (after.inodes ino).bytes.take (min offset good.length) = good.take offset

/-- One more piece is written. -/
theorem Overwriting.write {offset : Nat} (progress : Overwriting good ino offset after)
    (before : offset < good.length) :
    Overwriting good ino (offset + READ_CHUNK)
      (after.write ino offset ((good.drop offset).take READ_CHUNK)) := by
  obtain ⟨reached, same⟩ := progress
  have here : min offset good.length = offset := by omega
  rw [here] at reached same
  have chunk : ((good.drop offset).take READ_CHUNK).length =
      min (offset + READ_CHUNK) good.length - offset := by
    rw [List.length_take, List.length_drop]
    omega
  have start : (good.take offset ++ (good.drop offset).take READ_CHUNK).length =
      min (offset + READ_CHUNK) good.length := by
    rw [List.length_append, chunk, List.length_take]
    omega
  refine ⟨?_, ?_⟩ <;> simp only [Volume.write, Volume.setContent, Function.update_self, same]
  · rw [List.length_append, start]
    omega
  · rw [← start, List.take_left, List.take_add]

/-- Overwriting a file leaves it with the bytes it was overwritten with. -/
theorem overwrite_meets : Meets .reliable (overwrite ino good) relay
    (fun _ after => (after.inodes ino).bytes = good) fun _ => False := by
  let overwriting : List (Nat × Bytes) → Relay → Prop := fun rest after => ∃ offset fuel,
    rest = chunksFrom fuel offset (good.drop offset) ∧ good.length ≤ offset + fuel ∧
      Overwriting good ino offset after
  have initially : overwriting (chunksFrom good.length 0 good) relay :=
    ⟨0, good.length, by simp, by simp, by simp, by simp⟩
  have written : Meets .reliable
      (forEach (chunksFrom good.length 0 good) fun piece =>
        change "write" fun relay : Relay => some (relay.write ino piece.1 piece.2))
      relay (fun _ after => (after.inodes ino).bytes.take good.length = good) fun _ => False := by
    refine (Meets.forEach initially ?_).mono ?_ (fun _ => id)
    · rintro piece rest middle - ⟨offset, fuel, isRest, enough, progress⟩
      refine .change ?_ (by simp) (by simp)
      rintro after ⟨⟩
      cases fuel with
      | zero => cases isRest
      | succ fuel =>
        have more : good.drop offset ≠ [] := by
          intro nothing
          rw [nothing] at isRest
          cases isRest
        have before : offset < good.length := by simpa using more
        rw [chunksFrom_succ more, List.drop_drop] at isRest
        obtain ⟨rfl, rfl⟩ := List.cons.inj isRest
        exact ⟨offset + READ_CHUNK, fuel, rfl, by unfold READ_CHUNK; omega, progress.write before⟩
    · rintro _ after ⟨offset, fuel, isRest, enough, progress⟩
      have finished : good.length ≤ offset := by
        cases fuel with
        | zero => simpa using enough
        | succ fuel =>
          by_contra early
          have more : good.drop offset ≠ [] := by
            simpa using Nat.lt_of_not_le early
          rw [chunksFrom_succ more] at isRest
          cases isRest
      have same := progress.same
      rw [Nat.min_eq_right finished, List.take_of_length_le finished] at same
      exact same
  refine written.bind fun _ middle same => .change ?_ (by simp) (by simp)
  rintro after ⟨⟩
  simpa [Volume.truncate, Volume.setContent] using same

variable {digest : String} {source : FileName} {finished : Nat → Relay → Prop}
  {failed : Relay → Prop}

/-- A repair either stops before it writes, or overwrites the blob with a source of
its digest. -/
theorem cmdRepair_rule (stopped : failed relay)
    (rewrites : ∀ ino file, relay.slot? (.blob digest) = some ino → inoOf relay source = some file →
      sha256 (relay.inodes file).bytes = digest →
      Meets mode
        (do
          overwrite ino (relay.inodes file).bytes
          let actual ← query fun relay => sha256 (relay.inodes ino).bytes
          require (actual = digest) "repair: still does not hash to its name after the rewrite"
          query fun relay => relay.nlink ino)
        relay finished failed) :
    Meets mode (cmdRepair sha256 digest source) relay finished failed := by
  refine .query_bind ?_ fun _ => stopped
  cases isBlob : relay.slot? (.blob digest) with
  | none => exact .exit stopped
  | some ino =>
    refine .query_bind ?_ fun _ => stopped
    cases isFile : inoOf relay source with
    | none => exact .exit stopped
    | some file =>
      refine .require_bind (fun hashes => ?_) fun _ => stopped
      exact rewrites ino file isBlob isFile (by simpa using hashes)

/-- What overwriting keeps, the rest of a repair keeps. -/
theorem rewrite_preserves {Inv : Relay → Prop} (overwriting : Preserves mode Inv (overwrite ino good))
    (message : String) :
    Preserves mode Inv (do
      overwrite ino good
      let actual ← query fun relay => sha256 (relay.inodes ino).bytes
      require (actual = digest) message
      query fun relay => relay.nlink ino) :=
  .bind overwriting fun _ => .bind (.query _) fun _ => .bind (.require _ _) fun _ => .query _

theorem cmdRepair_bytes : Meets mode (cmdRepair sha256 digest source) relay
    (fun _ => BytesKept (fun ino => relay.slot? (.blob digest) = some ino) relay)
    (BytesKept (fun ino => relay.slot? (.blob digest) = some ino) relay) :=
  cmdRepair_rule .refl fun _ _ isBlob _ _ => rewrite_preserves (overwrite_bytes isBlob _) _ relay .refl

/-- A repair that is not cut off restores the blob or changes nothing. -/
theorem cmdRepair_restores : Meets .reliable (cmdRepair sha256 digest source) relay
    (fun _ after => ∀ ino, relay.slot? (.blob digest) = some ino →
      sha256 (after.inodes ino).bytes = digest)
    fun after => after = relay := by
  refine cmdRepair_rule rfl fun ino file isBlob isFile hashes => ?_
  refine (overwrite_meets.mono (fun _ _ same => same) (fun _ => False.elim)).bind ?_
  rintro ⟨⟩ after same
  have restored : sha256 (after.inodes ino).bytes = digest := by rw [same, hashes]
  refine .query_bind (.require_bind (fun _ => .query ?_ (by simp)) ?_) (by simp)
  · intro other isOther
    rw [isBlob] at isOther
    exact Option.some.inj isOther ▸ restored
  · intro differs
    simp [restored] at differs

/-- Repairing a blob from a file with the same bytes changes no bytes, wherever it is
cut off. -/
theorem cmdRepair_same (isBlob : relay.slot? (.blob digest) = some ino)
    (same : ∀ file, inoOf relay source = some file → sha256 (relay.inodes file).bytes = digest →
      (relay.inodes file).bytes = (relay.inodes ino).bytes) :
    Meets mode (cmdRepair sha256 digest source) relay
      (fun _ after => (after.inodes ino).bytes = (relay.inodes ino).bytes)
      fun after => (after.inodes ino).bytes = (relay.inodes ino).bytes := by
  refine cmdRepair_rule rfl fun other file isOther isFile hashes => ?_
  rw [isBlob] at isOther
  obtain rfl := Option.some.inj isOther
  rw [same file isFile hashes]
  exact rewrite_preserves overwrite_same _ relay rfl

end Repairing

section Names

variable {relay after : Relay} {mode : Mode} {sha256 : Bytes → String} {digest : String} {ino : Nat}

/-- Nothing has changed in any tree. -/
abbrev NodesKept (relay after : Relay) : Prop :=
  ∀ tree path, after.node? tree path = relay.node? tree path

/-- No tree has changed, nor has any blob of some kind. -/
structure NamesKept (kept : String → Nat → Prop) (relay after : Relay) : Prop where
  nodes : NodesKept relay after
  blobs : ∀ digest ino, kept digest ino → relay.slot? (.blob digest) = some ino →
    after.slot? (.blob digest) = some ino

variable {kept : String → Nat → Prop}

theorem NamesKept.refl : NamesKept kept relay relay := ⟨fun _ _ => rfl, fun _ _ _ => id⟩

theorem NamesKept.slotChange {next : Relay} {slot : Slot} {value : Option Nat}
    (same : NamesKept kept relay after) (change : Volume.SlotChange after next slot value)
    (apart : ∀ digest ino, kept digest ino → relay.slot? (.blob digest) = some ino →
      slot ≠ .blob digest) : NamesKept kept relay next where
  nodes tree path := (change.node tree path).trans (same.nodes tree path)
  blobs digest ino isKept isBlob := by
    rw [change.slot, if_neg (apart digest ino isKept isBlob).symm]
    exact same.blobs digest ino isKept isBlob

/-- Seeding changes no tree and no blob that is held. -/
theorem cmdSeed_names (names : List FileName) :
    Preserves mode (NamesKept (fun _ _ => True) relay) (cmdSeed sha256 names) := by
  refine .foldEach fun name _ count => .bind (.query _) fun file => ?_
  cases file with
  | none => exact .pure _
  | some ino =>
    refine .bind (.query _) fun digest => .bind (.query _) fun dest => .ite (.pure _) (.call ?_)
    rintro volume counted after same done
    split at done
    · rename_i linked isLinked
      obtain ⟨-, rfl⟩ := Prod.mk.inj (Option.some.inj done)
      obtain ⟨free, -, change⟩ := Volume.linkSlot_change isLinked
      refine same.slotChange change fun other held _ isBlob isSame => ?_
      rw [isSame, same.blobs other held trivial isBlob] at free
      cases free
    · obtain ⟨-, rfl⟩ := Prod.mk.inj (Option.some.inj done)
      exact same

theorem rsyncBlobs_nodes (blobs : List (String × Source)) :
    Preserves mode (NamesKept (fun _ _ => False) relay) (rsyncBlobs blobs) := by
  refine .forEach fun blob _ => .change ?_
  rintro volume after same ⟨⟩
  rcases rsyncFile_cases volume blob.1 blob.2 with skipped | replaced
  · rw [skipped]
    exact same
  · rw [replaced]
    exact same.slotChange (Volume.replaceSlot_change _).1 fun _ _ impossible => impossible.elim

/-- A gc changes no tree and no blob that a tree is linked to. -/
theorem cmdGc_names (dryRun : Bool) :
    Preserves mode
      (NamesKept (fun _ ino => ∃ tree path, relay.node? tree path = some (.file ino)) relay)
      (cmdGc dryRun) := by
  refine .bind (.query _) fun _ => .foldEach fun digest _ count volume same => ?_
  refine .query_bind ?_ fun _ => same
  cases isBlob : volume.slot? (.blob digest) with
  | none => exact .exit same
  | some ino =>
    refine .query_bind (.ite (fun one => ?_) fun _ => .pure same) fun _ => same
    have unlinked := ((Volume.nlink_eq_one isBlob).mp one).2
    refine Meets.bind (whenever_meets (fun _ => .change ?_ (fun _ => same) fun _ => same)
      fun _ => same) fun _ _ kept => .pure kept
    intro after done
    refine same.slotChange (Volume.unlinkSlot_change done) ?_
    rintro other held isLinked isHeld ⟨⟩
    obtain ⟨tree, path, isFile⟩ := isLinked
    have here := same.blobs digest held ⟨tree, path, isFile⟩ isHeld
    rw [isBlob] at here
    rw [← same.nodes, ← Option.some.inj here] at isFile
    exact unlinked tree path isFile

/-- Overwriting a file moves no name. -/
theorem overwrite_names (ino : Nat) (good : Bytes) :
    Preserves mode (fun after => NodesKept relay after ∧ ∀ slot, after.slot? slot = relay.slot? slot)
      (overwrite ino good) := by
  have steps : ∀ volume after : Relay,
      (NodesKept relay volume ∧ ∀ slot, volume.slot? slot = relay.slot? slot) →
      Volume.ContentChange volume after ino →
      NodesKept relay after ∧ ∀ slot, after.slot? slot = relay.slot? slot := by
    rintro volume after ⟨nodes, slots⟩ change
    exact ⟨fun tree path => (change.node tree path).trans (nodes tree path),
      fun slot => (change.slot slot).trans (slots slot)⟩
  refine .bind (.forEach fun piece _ => .change ?_) fun _ => .change ?_
  · rintro volume after holds ⟨⟩
    exact steps volume _ holds Volume.setContent_change
  · rintro volume after holds ⟨⟩
    exact steps volume _ holds Volume.setContent_change

/-- A repair moves no name. -/
theorem cmdRepair_names (digest : String) (source : FileName) :
    Meets mode (cmdRepair sha256 digest source) relay
      (fun _ after => NodesKept relay after ∧ ∀ slot, after.slot? slot = relay.slot? slot)
      fun after => NodesKept relay after ∧ ∀ slot, after.slot? slot = relay.slot? slot := by
  have holds : NodesKept relay relay ∧ ∀ slot, relay.slot? slot = relay.slot? slot :=
    ⟨fun _ _ => rfl, fun _ => rfl⟩
  exact cmdRepair_rule holds fun _ _ _ _ _ => rewrite_preserves (overwrite_names _ _) _ relay holds

/-- No file is a blob under two digests. -/
def BlobsDistinct (relay : Relay) : Prop :=
  ∀ digest other ino, relay.slot? (.blob digest) = some ino → relay.slot? (.blob other) = some ino →
    digest = other

theorem BlobsDistinct.congr (distinct : BlobsDistinct relay)
    (same : ∀ digest, after.slot? (.blob digest) = relay.slot? (.blob digest)) :
    BlobsDistinct after := by
  intro digest other ino isBlob isOther
  rw [same] at isBlob isOther
  exact distinct digest other ino isBlob isOther

/-- A blob is removed, or takes a file that was no blob. -/
theorem BlobsDistinct.slotChange {value : Option Nat} (distinct : BlobsDistinct relay)
    (change : Volume.SlotChange relay after (.blob digest) value)
    (new : ∀ ino, value = some ino → ∀ other, relay.slot? (.blob other) = some ino → other = digest) :
    BlobsDistinct after := by
  intro first second ino isFirst isSecond
  rw [change.slot] at isFirst isSecond
  split at isFirst
  · rename_i same
    obtain rfl := Slot.blob.inj same
    split at isSecond
    · rename_i same
      exact (Slot.blob.inj same).symm
    · exact (new ino isFirst second isSecond).symm
  · split at isSecond
    · rename_i same
      obtain rfl := Slot.blob.inj same
      exact new ino isSecond first isFirst
    · exact distinct first second ino isFirst isSecond

theorem rsyncBlobs_distinct (blobs : List (String × Source)) :
    Preserves mode BlobsDistinct (rsyncBlobs blobs) := by
  refine .forEach fun blob _ => .change ?_
  rintro volume after distinct ⟨⟩
  rcases rsyncFile_cases volume blob.1 blob.2 with skipped | replaced
  · rw [skipped]
    exact distinct
  · rw [replaced]
    refine distinct.slotChange (Volume.replaceSlot_change _).1 ?_
    rintro ino ⟨⟩ other isBlob
    exact absurd (Volume.slot?_lt isBlob) (Nat.lt_irrefl _)

theorem cmdGc_distinct (dryRun : Bool) : Preserves mode BlobsDistinct (cmdGc dryRun) := by
  refine .bind (.query _) fun _ => .foldEach fun digest _ count => .bind (.query _) fun blob => ?_
  cases blob with
  | none => exact .exit _
  | some ino =>
    refine .bind (.query _) fun links => .ite ?_ (.pure _)
    refine .bind (whenever_preserves (.change ?_)) fun _ => .pure _
    intro volume after distinct done
    exact distinct.slotChange (Volume.unlinkSlot_change done) (by simp)

/-- What seeding has done so far: every new blob has bytes of its digest. -/
structure Seeding (sha256 : Bytes → String) (relay after : Relay) : Prop where
  bytes : ∀ ino, ino < relay.fresh → after.inodes ino = relay.inodes ino
  fresh : relay.fresh ≤ after.fresh
  names : NamesKept (fun _ _ => True) relay after
  new : ∀ slot ino, after.slot? slot = some ino → relay.slot? slot = some ino ∨
    ino < relay.fresh ∧ slot = .blob (sha256 (relay.inodes ino).bytes)
  distinct : BlobsDistinct after

theorem inoOf_lt {name : FileName} (isFile : inoOf relay name = some ino) : ino < relay.fresh := by
  cases name with
  | slot slot => exact Volume.slot?_lt isFile
  | node tree path =>
    unfold inoOf at isFile
    dsimp only at isFile
    split at isFile
    · rename_i other isNode
      exact Option.some.inj isFile ▸ Volume.file_lt isNode
    · cases isFile

/-- A file that seeding comes by was there, or is a blob that seeding added. -/
theorem Seeding.inoOf_cases {name : FileName} (seeding : Seeding sha256 relay after)
    (isFile : inoOf after name = some ino) :
    inoOf relay name = some ino ∨
      ino < relay.fresh ∧ after.slot? (.blob (sha256 (relay.inodes ino).bytes)) = some ino := by
  cases name with
  | slot slot =>
    refine (seeding.new slot ino isFile).imp id ?_
    rintro ⟨earlier, rfl⟩
    exact ⟨earlier, isFile⟩
  | node tree path =>
    refine .inl ?_
    simp only [inoOf] at isFile ⊢
    rwa [seeding.names.nodes] at isFile

/-- The digest that seeding finds for a file is that of every blob the file is. -/
theorem Seeding.digest_eq {name : FileName} {other : String} (seeding : Seeding sha256 relay after)
    (sound : ∀ ino digest, inoOf relay name = some ino →
      relay.slot? (.blob digest) = some ino → sha256 (relay.inodes ino).bytes = digest)
    (isFile : inoOf after name = some ino) (isBlob : after.slot? (.blob other) = some ino) :
    other = sha256 (relay.inodes ino).bytes := by
  rcases seeding.inoOf_cases isFile with earlier | ⟨-, isNew⟩
  · rcases seeding.new _ ino isBlob with held | ⟨-, same⟩
    · exact (sound ino other earlier held).symm
    · exact Slot.blob.inj same
  · exact seeding.distinct other _ ino isBlob isNew

/-- Seeding files that are no blobs of other bytes gives no file two digests. -/
theorem cmdSeed_distinct {names : List FileName} (distinct : BlobsDistinct relay)
    (sound : ∀ name ∈ names, ∀ ino digest, inoOf relay name = some ino →
      relay.slot? (.blob digest) = some ino → sha256 (relay.inodes ino).bytes = digest) :
    Meets mode (cmdSeed sha256 names) relay (fun _ => Seeding sha256 relay)
      (Seeding sha256 relay) := by
  have seeds : Preserves mode (Seeding sha256 relay) (cmdSeed sha256 names) := by
    refine .foldEach fun name member count volume seeding => .query_bind ?_ fun _ => seeding
    cases isFile : inoOf volume name with
    | none => exact .pure seeding
    | some ino =>
      have earlier : ino < relay.fresh := by
        rcases seeding.inoOf_cases isFile with found | ⟨earlier, -⟩
        · exact inoOf_lt found
        · exact earlier
      refine .query_bind (.query_bind (.ite (fun _ => .pure seeding) fun _ => ?_)
        fun _ => seeding) fun _ => seeding
      refine .call ?_ (fun _ => seeding) fun _ => seeding
      intro counted after done
      rw [seeding.bytes ino earlier] at done
      split at done
      · rename_i linked isLinked
        obtain ⟨-, rfl⟩ := Prod.mk.inj (Option.some.inj done)
        obtain ⟨free, -, change⟩ := Volume.linkSlot_change isLinked
        refine ⟨?_, Nat.le_trans seeding.fresh change.fresh, ?_, ?_, ?_⟩
        · intro other isEarlier
          rw [change.inodes other (Nat.lt_of_lt_of_le isEarlier seeding.fresh)]
          exact seeding.bytes other isEarlier
        · refine seeding.names.slotChange change fun other held _ isBlob isSame => ?_
          rw [isSame, seeding.names.blobs other held trivial isBlob] at free
          cases free
        · intro slot other isSlot
          rw [change.slot] at isSlot
          split at isSlot
          · rename_i same
            obtain rfl := Option.some.inj isSlot
            exact .inr ⟨earlier, same⟩
          · exact seeding.new slot other isSlot
        · refine seeding.distinct.slotChange change ?_
          rintro _ ⟨⟩ other isBlob
          exact seeding.digest_eq (sound name member) isFile isBlob
      · obtain ⟨-, rfl⟩ := Prod.mk.inj (Option.some.inj done)
        exact seeding
  exact seeds relay ⟨fun _ _ => rfl, Nat.le_refl _, .refl, fun _ _ => .inl, distinct⟩

end Names

end MastProvisioning.Blobstore
