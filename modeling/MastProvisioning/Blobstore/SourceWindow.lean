import MastProvisioning.Semantics.System
import MastProvisioning.Blobstore.Snapshots

/-!
# Between hashing and sending

`relay.py` once more, with the machine that syncs: its files may be rewritten at any
time, also while a sync is under way. A sync names blobs by digests that were taken
earlier, of the staging tree by the build or of the cache by `sync_snapshot` itself;
what it sends is what rsync reads from the farm of links.
-/

namespace MastProvisioning.Blobstore

open MastProvisioning.Semantics MastProvisioning.Semantics.Command
open MastProvisioning.Collections MastProvisioning.Storage

/-- The files of the machine that syncs. -/
abbrev LocalFiles := Volume String Empty

/-- What may happen to a local file. -/
inductive Edit
  /-- Write to the file in place. -/
  | rewrite (path : String) (content : Inode)
  /-- Put another file in its place. -/
  | replace (path : String) (content : Inode)
  | remove (path : String)

def Edit.apply (files : LocalFiles) : Edit → LocalFiles
  | .rewrite path content =>
    match files.slot? path with
    | some ino => files.setContent ino content
    | none => files
  | .replace path content => files.replaceSlot path content
  | .remove path => (files.unlinkSlot path).getD files

/-- A file of a manifest, with the bytes its digest was taken of. -/
structure HashedFile where
  path : Path
  size : Nat
  source : String
  hashed : Bytes
  named : path ≠ []

/-- `SnapshotFile`. -/
structure SnapshotFile where
  path : Path
  sha256 : String
  size : Nat
  source : String
  named : path ≠ []

/-- What the last command of a sync records. -/
inductive Target
  | payload (host : String) (payloadHash : Option String)
  | snapshot (kind : SnapshotKind) (snapshotId : String)

/-- A blob in the farm that is uploaded: the inode is that of the source, or of a copy. -/
structure FarmFile where
  digest : String
  file : HashedFile
  ino : Nat

/-- How far a sync has come. -/
inductive SyncStage
  | ended (reported : Bool)
  /-- `sync_snapshot` hashes its files. -/
  | checking (target : Target) (checked : List HashedFile) (rest : List SnapshotFile)
  | asking (target : Target) (files : List HashedFile)
  /-- `upload_blobs` links the farm. -/
  | linking (target : Target) (files : List HashedFile) (rest : List (String × HashedFile))
    (farm : List FarmFile)
  /-- rsync reads it. -/
  | sending (target : Target) (files : List HashedFile) (rest : List FarmFile)
  | sent (target : Target) (files : List HashedFile)

/-- The relay, the local files and the sync under way. -/
structure SyncState where
  relay : Relay
  files : LocalFiles
  stage : SyncStage

/-- What happens next. -/
inductive SyncEvent
  | edit (edit : Edit)
  | startPayload (host : String) (payloadHash : Option String) (files : List HashedFile)
  | startSnapshot (kind : SnapshotKind) (snapshotId : String) (files : List SnapshotFile)
  /-- The sync goes on; `linked` is whether the file system allows a link, `faults` are
  those of the last command. -/
  | advance (linked : Bool) (faults : List Fault)
  /-- A command fails or times out. -/
  | fail

section Syncing

variable (sha256 : Bytes → String) (dumps : Manifest → Bytes)

/-- The entry of a file. -/
def HashedFile.entry (file : HashedFile) : Entry :=
  ⟨file.path, file.size, sha256 file.hashed, file.named⟩

/-- The manifest of a sync. -/
def Target.manifest (files : List HashedFile) : Target → Manifest
  | .payload _ payloadHash => ⟨payloadHash, files.map (HashedFile.entry sha256)⟩
  | .snapshot _ _ => ⟨none, files.map (HashedFile.entry sha256)⟩

/-- The last command of a sync. -/
def Target.order (target : Target) (files : List HashedFile) : Order :=
  match target with
  | .payload host _ => .assemble host (target.manifest sha256 files)
  | .snapshot kind snapshotId => .snapshot kind snapshotId (target.manifest sha256 files)

/-- `sources`, by digest. -/
def sourcesOf (files : List HashedFile) : List (String × HashedFile) :=
  OrderedDict.setAll id [] (files.map fun file => (sha256 file.hashed, file))

/-- The next step of the sync. -/
def SyncState.advance (state : SyncState) (linked : Bool) (faults : List Fault) : SyncState :=
  match state.stage with
  | .ended _ => state
  | .checking target checked [] => { state with stage := .asking target checked }
  | .checking target checked (file :: rest) =>
    match state.files.slot? file.source with
    | none => { state with stage := .ended false }
    | some ino =>
      let actual := (state.files.inodes ino).bytes
      if sha256 actual = file.sha256 then
        { state with
          stage := .checking target
            (checked ++ [⟨file.path, file.size, file.source, actual, file.named⟩]) rest }
      else { state with stage := .ended false }
  | .asking target files =>
    let missing := missingDigests state.relay (target.manifest sha256 files)
    if missing = [] then { state with stage := .sent target files }
    else
      let byHash := (sourcesOf sha256 files).filter fun source => source.1 ∈ missing
      if byHash.length = missing.length then
        { state with stage := .linking target files byHash [] }
      else { state with stage := .ended false }
  | .linking target files [] farm => { state with stage := .sending target files farm }
  | .linking target files ((digest, file) :: rest) farm =>
    match state.files.slot? file.source with
    | none => { state with stage := .ended false }
    | some ino =>
      if linked then
        { state with stage := .linking target files rest (farm ++ [⟨digest, file, ino⟩]) }
      else
        { state with
          files := state.files.allocate (state.files.inodes ino)
          stage := .linking target files rest (farm ++ [⟨digest, file, state.files.fresh⟩]) }
  | .sending target files [] => { state with stage := .sent target files }
  | .sending target files (next :: rest) =>
    let content := state.files.inodes next.ino
    { state with
      relay := rsyncFile state.relay next.digest ⟨content.bytes, content.mtime⟩
      stage := .sending target files rest }
  | .sent target files =>
    { state with
      relay := (target.order sha256 files).relayAfter sha256 dumps state.relay faults
      stage := .ended ((target.order sha256 files).isDone dumps state.relay faults) }

/-- Every blob has the bytes its name says. -/
def ContentAddressed (relay : Relay) : Prop :=
  ∀ digest ino, relay.slot? (.blob digest) = some ino → sha256 (relay.inodes ino).bytes = digest

/-- No text of the store is a blob. -/
def TextsApart (relay : Relay) : Prop :=
  ∀ slot ino, slot.holdsText → relay.slot? slot = some ino →
    ∀ digest, relay.slot? (.blob digest) ≠ some ino

/-- Syncs one after another, while the local files are rewritten. -/
def syncing : System SyncState SyncEvent where
  Initial state := ContentAddressed sha256 state.relay ∧ TextsApart state.relay ∧
    ∃ reported, state.stage = .ended reported
  Enabled state
    | .startPayload _ _ _ => ∃ reported, state.stage = .ended reported
    | .startSnapshot _ _ _ => ∃ reported, state.stage = .ended reported
    | _ => True
  next state
    | .edit edit => { state with files := edit.apply state.files }
    | .startPayload host payloadHash files =>
      if files = [] then { state with stage := .ended false }
      else { state with stage := .asking (.payload host payloadHash) files }
    | .startSnapshot kind snapshotId files =>
      { state with stage := .checking (.snapshot kind snapshotId) [] files }
    | .advance linked faults => state.advance sha256 dumps linked faults
    | .fail => { state with stage := .ended false }

end Syncing

/-- What rsync reads for a file is what was hashed for it. -/
def Unchanged (state : SyncState) : SyncEvent → Prop
  | .advance _ _ => ∀ target files next rest, state.stage = .sending target files (next :: rest) →
    (state.files.inodes next.ino).bytes = next.file.hashed
  | _ => True

section Addressing

variable {sha256 : Bytes → String} {dumps : Manifest → Bytes} {relay : Relay}

/-- Sending the bytes of a digest keeps the store content-addressed. -/
theorem ContentAddressed.sent {digest : String} {source : Source}
    (addressed : ContentAddressed sha256 relay) (hashes : sha256 source.bytes = digest) :
    ContentAddressed sha256 (rsyncFile relay digest source) := by
  rcases rsyncFile_cases relay digest source with skipped | replaced
  · rw [skipped]
    exact addressed
  · obtain ⟨change, content⟩ :
        Volume.SlotChange relay (relay.replaceSlot (.blob digest) ⟨source.bytes, source.mtime⟩)
          (.blob digest) (some relay.fresh) ∧ _ := Volume.replaceSlot_change _
    rw [replaced]
    intro other ino isBlob
    rw [change.slot] at isBlob
    split at isBlob
    · rename_i same
      obtain rfl := Option.some.inj isBlob
      rw [content, Slot.blob.inj same]
      exact hashes
    · rw [change.inodes ino (Volume.slot?_lt isBlob)]
      exact addressed other ino isBlob

theorem TextsApart.sent {digest : String} {source : Source} (apart : TextsApart relay) :
    TextsApart (rsyncFile relay digest source) := by
  rcases rsyncFile_cases relay digest source with skipped | replaced
  · rw [skipped]
    exact apart
  · obtain ⟨change, -⟩ :
        Volume.SlotChange relay (relay.replaceSlot (.blob digest) ⟨source.bytes, source.mtime⟩)
          (.blob digest) (some relay.fresh) ∧ _ := Volume.replaceSlot_change _
    rw [replaced]
    intro slot ino holdsText isText other isBlob
    have notBlob : slot ≠ .blob digest := by
      rintro rfl
      cases holdsText
    rw [change.slot, if_neg notBlob] at isText
    rw [change.slot] at isBlob
    split at isBlob
    · exact absurd (Volume.slot?_lt isText) (Option.some.inj isBlob ▸ Nat.lt_irrefl _)
    · exact apart slot ino holdsText isText other isBlob

/-- The last command of a sync leaves the names of the blobs. -/
theorem Target.blob_kept (target : Target) (files : List HashedFile) (faults : List Fault)
    (digest : String) :
    ((target.order sha256 files).relayAfter sha256 dumps relay faults).slot? (.blob digest) =
      relay.slot? (.blob digest) := by
  let none : Tree → Prop := fun _ => False
  cases target with
  | payload host payloadHash =>
    have same : Preserves .interrupted (TreesKept none relay)
        (cmdAssemble dumps host ((Target.payload host payloadHash).manifest sha256 files)) :=
      cmdAssemble_keepsTrees id (fun _ _ => id) fun _ _ => False.elim
    exact ((same relay .refl).final faults).blob digest
  | snapshot kind snapshotId =>
    have same : Preserves .interrupted (TreesKept none relay) (cmdSnapshot dumps kind snapshotId
        ((Target.snapshot kind snapshotId).manifest sha256 files)) :=
      snapshot_keepsTrees id False.elim _
    exact ((same relay .refl).final faults).blob digest

/-- The last command of a sync writes texts only. -/
theorem Target.writes_text {target : Target} {files : List HashedFile} {ino : Nat}
    (writes : (target.order sha256 files).Writes relay ino) :
    ∃ slot : Slot, slot.holdsText ∧ relay.slot? slot = some ino := by
  cases target with
  | payload host payloadHash =>
    rcases writes with isHost | ⟨payloadHash, -, -, isRecord⟩
    · exact ⟨_, rfl, isHost⟩
    · exact ⟨_, rfl, isRecord⟩
  | snapshot kind snapshotId => exact ⟨_, rfl, writes.2⟩

theorem ContentAddressed.recorded (addressed : ContentAddressed sha256 relay)
    (apart : TextsApart relay) (target : Target) (files : List HashedFile) (faults : List Fault) :
    ContentAddressed sha256
      ((target.order sha256 files).relayAfter sha256 dumps relay faults) := by
  intro digest ino isBlob
  rw [target.blob_kept] at isBlob
  rw [(Order.bytesKept _).bytes ino (Volume.slot?_lt isBlob)]
  · exact addressed digest ino isBlob
  · intro writes
    obtain ⟨slot, holdsText, isText⟩ := Target.writes_text writes
    exact apart slot ino holdsText isText digest isBlob

theorem TextsApart.recorded (apart : TextsApart relay) (target : Target) (files : List HashedFile)
    (faults : List Fault) :
    TextsApart ((target.order sha256 files).relayAfter sha256 dumps relay faults) := by
  intro slot ino holdsText isText digest isBlob
  rw [target.blob_kept] at isBlob
  rcases (Order.bytesKept _).texts slot ino holdsText isText with earlier | isNew
  · exact apart slot ino holdsText earlier digest isBlob
  · exact absurd (Volume.slot?_lt isBlob) (Nat.not_lt.mpr isNew)

end Addressing

section Runs

variable {sha256 : Bytes → String} {dumps : Manifest → Bytes} {state : SyncState}

/-- What a sync is about to send is named by what was hashed. -/
def SyncStage.Named (sha256 : Bytes → String) : SyncStage → Prop
  | .linking _ _ rest farm =>
    (∀ source ∈ rest, sha256 source.2.hashed = source.1) ∧
      ∀ next ∈ farm, sha256 next.file.hashed = next.digest
  | .sending _ _ rest => ∀ next ∈ rest, sha256 next.file.hashed = next.digest
  | _ => True

/-- The store is content-addressed, and the sync under way keeps it so. -/
structure SyncState.Sound (sha256 : Bytes → String) (state : SyncState) : Prop where
  addressed : ContentAddressed sha256 state.relay
  apart : TextsApart state.relay
  named : state.stage.Named sha256

theorem mem_sourcesOf {files : List HashedFile} {source : String × HashedFile}
    (member : source ∈ sourcesOf sha256 files) : sha256 source.2.hashed = source.1 := by
  rcases OrderedDict.mem_setAll member with found | impossible
  · obtain ⟨file, -, rfl⟩ := List.mem_map.mp found
    rfl
  · cases impossible

/-- A step of the client keeps the store content-addressed when rsync reads what was
hashed. -/
theorem SyncState.Sound.advance {linked : Bool} {faults : List Fault} (sound : state.Sound sha256)
    (unchanged : Unchanged state (.advance linked faults)) :
    (state.advance sha256 dumps linked faults).Sound sha256 := by
  obtain ⟨addressed, apart, named⟩ := sound
  unfold SyncState.advance
  split
  · exact ⟨addressed, apart, named⟩
  · exact ⟨addressed, apart, trivial⟩
  · split
    · exact ⟨addressed, apart, trivial⟩
    · dsimp only
      split
      · exact ⟨addressed, apart, trivial⟩
      · exact ⟨addressed, apart, trivial⟩
  · dsimp only
    split
    · exact ⟨addressed, apart, trivial⟩
    · split
      · refine ⟨addressed, apart, fun source member => ?_, by simp⟩
        exact mem_sourcesOf (List.mem_filter.mp member).1
      · exact ⟨addressed, apart, trivial⟩
  · rename_i isStage
    rw [isStage] at named
    exact ⟨addressed, apart, named.2⟩
  · rename_i target files digest file rest farm isStage
    rw [isStage] at named
    obtain ⟨sources, linkedSoFar⟩ := named
    have more : ∀ ino, ∀ next ∈ farm ++ [FarmFile.mk digest file ino],
        sha256 next.file.hashed = next.digest := by
      intro ino next member
      rcases List.mem_append.mp member with earlier | last
      · exact linkedSoFar next earlier
      · rw [List.mem_singleton.mp last]
        exact sources _ List.mem_cons_self
    have others : ∀ source ∈ rest, sha256 source.2.hashed = source.1 :=
      fun source member => sources source (List.mem_cons_of_mem _ member)
    split
    · exact ⟨addressed, apart, trivial⟩
    · split
      · exact ⟨addressed, apart, others, more _⟩
      · exact ⟨addressed, apart, others, more _⟩
  · exact ⟨addressed, apart, trivial⟩
  · rename_i target files next rest isStage
    rw [isStage] at named
    have hashes : sha256 (state.files.inodes next.ino).bytes = next.digest := by
      rw [unchanged target files next rest isStage]
      exact named next List.mem_cons_self
    exact ⟨addressed.sent hashes, apart.sent,
      fun later member => named later (List.mem_cons_of_mem _ member)⟩
  · rename_i target files isStage
    exact ⟨addressed.recorded apart target files faults, apart.recorded target files faults, trivial⟩

/-- Syncs of payloads and snapshots one after another, done, failed or cut off, while the
local files are rewritten: the store stays content-addressed as long as rsync reads for
each file what was hashed for it. -/
theorem store_stays_addressed {start : SyncState}
    {trace : List (System.Taken SyncState SyncEvent)} (run : (syncing sha256 dumps).Run start trace state)
    (unchanged : ∀ taken ∈ trace, Unchanged taken.1 taken.2) :
    ContentAddressed sha256 state.relay := by
  have initially : ∀ state, (syncing sha256 dumps).Initial state → state.Sound sha256 := by
    rintro state ⟨addressed, apart, reported, isEnded⟩
    exact ⟨addressed, apart, by rw [isEnded]; trivial⟩
  have preserved : ∀ state event, SyncState.Sound sha256 state → Unchanged state event →
      (syncing sha256 dumps).Enabled state event →
      SyncState.Sound sha256 ((syncing sha256 dumps).next state event) := by
    intro state event sound unchanged _
    cases event with
    | edit edit => exact ⟨sound.addressed, sound.apart, sound.named⟩
    | startPayload host payloadHash files =>
      dsimp only [syncing]
      split
      · exact ⟨sound.addressed, sound.apart, trivial⟩
      · exact ⟨sound.addressed, sound.apart, trivial⟩
    | startSnapshot kind snapshotId files => exact ⟨sound.addressed, sound.apart, trivial⟩
    | advance linked faults => exact sound.advance unchanged
    | fail => exact ⟨sound.addressed, sound.apart, trivial⟩
  exact (run.invariant initially preserved unchanged).addressed

end Runs

section Samples

/-- A hash function that tells two files apart. -/
def sampleHash (bytes : Bytes) : String := if bytes = [1] then "6b86" else "d474"

/-- A staging tree with one file, and an empty relay. -/
def oneStaged : SyncState :=
  ⟨Volume.empty, Volume.empty.replaceSlot "staging/tools.zip" ⟨[1], 0⟩, .ended true⟩

/-- The syncs of that machine. -/
abbrev sampleSyncing : System SyncState SyncEvent := syncing sampleHash fun _ => []

/-- The payload of the file, as it was hashed. -/
def syncTools : SyncEvent :=
  .startPayload "mast01" (some "5feb") [⟨["tools.zip"], 1, "staging/tools.zip", [1], by decide⟩]

/-- The sync goes on. -/
def onwards : SyncEvent := .advance true []

theorem oneStaged_initial : sampleSyncing.Initial oneStaged := by
  refine ⟨?_, ?_, true, rfl⟩
  · intro digest ino isBlob
    cases isBlob
  · intro slot ino _ isText
    cases isText

theorem store_stays_addressed_tools :
    ContentAddressed sampleHash (sampleSyncing.after oneStaged
      [syncTools, onwards, onwards, onwards, onwards, onwards, onwards]).relay := by
  have follows : sampleSyncing.Follows oneStaged
      [syncTools, onwards, onwards, onwards, onwards, onwards, onwards] :=
    ⟨⟨true, rfl⟩, trivial, trivial, trivial, trivial, trivial, trivial, trivial⟩
  refine store_stays_addressed (.ofLabels oneStaged_initial follows) ?_
  simp only [System.steps, List.mem_cons, List.not_mem_nil, or_false, forall_eq_or_imp, forall_eq]
  refine ⟨trivial, ?_, ?_, ?_, ?_, ?_, ?_⟩
  all_goals
    rintro target files next rest isStage
    cases isStage
  rfl

/-- A sync during which the file is rewritten, after it was hashed. -/
def rewriting : List SyncEvent :=
  [syncTools, onwards, .edit (.rewrite "staging/tools.zip" ⟨[2], 1⟩), onwards, onwards, onwards,
    onwards, onwards]

/-- The sync reports success, and the blob has other bytes than its name says. -/
theorem rewritten_before_upload :
    sampleSyncing.Follows oneStaged rewriting ∧
      (sampleSyncing.after oneStaged rewriting).stage = .ended true ∧
      ¬ ContentAddressed sampleHash (sampleSyncing.after oneStaged rewriting).relay := by
  refine ⟨⟨⟨true, rfl⟩, trivial, trivial, trivial, trivial, trivial, trivial, trivial, trivial⟩, rfl, ?_⟩
  intro addressed
  have stored := addressed "6b86" 0 (by decide +kernel)
  exact absurd stored (by decide +kernel)

end Samples

end MastProvisioning.Blobstore
