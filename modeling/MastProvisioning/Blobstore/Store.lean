import Mathlib
import MastProvisioning.Storage.TreeCommands

/-!
# The blobstore on the staging relay

`blobstore.py`: blobs are named by their SHA-256, a host's payload and each snapshot
are trees of hard links to blobs. The names of the relay's volume are the blobs, the
two JSON files beside the trees and the files of directories that are seeded; the
trees are those of hosts, the snapshots and the ones being built.

Ids and hosts are names of their own here: no id ends in `.json` or looks like the
name a snapshot has while it is built. The hash function and the JSON text of a
manifest are parameters.
-/

namespace MastProvisioning.Blobstore

open MastProvisioning.Semantics MastProvisioning.Semantics.Command
open MastProvisioning.Collections MastProvisioning.Storage

/-- `SnapshotKind`. -/
inductive SnapshotKind
  | provisioningPayload
  | bootstrapPayload
  | windowsOsBaseline
deriving DecidableEq, Repr

/-- The places for files outside the trees. -/
inductive Slot
  | blob (digest : String)
  | hostManifest (host : String)
  | record (kind : SnapshotKind) (id : String)
  /-- A file outside `--root`. -/
  | outside (path : String)
deriving DecidableEq, Repr

/-- The trees. -/
inductive Tree
  | host (host : String)
  | snapshot (kind : SnapshotKind) (id : String)
  /-- `.{id}.building`. -/
  | building (kind : SnapshotKind) (id : String)
deriving DecidableEq, Repr

/-- The volume of the relay. -/
abbrev Relay := Volume Slot Tree

/-- A file of a manifest. -/
structure Entry where
  path : Path
  size : Nat
  sha256 : String
  named : path ≠ []

/-- A manifest. -/
structure Manifest where
  payloadHash : Option String
  files : List Entry

/-- `BUILD_MANIFEST`. -/
def BUILD_MANIFEST : Path := ["build-manifest.json"]

/-- `READ_CHUNK`. -/
def READ_CHUNK : Nat := 1024 * 1024

/-- A name of a file, in a slot or in a tree. -/
inductive FileName
  | slot (slot : Slot)
  | node (tree : Tree) (path : Path)
deriving DecidableEq, Repr

/-- The inode of a file. -/
def inoOf (relay : Relay) : FileName → Option Nat
  | .slot slot => relay.slot? slot
  | .node tree path =>
    match relay.node? tree path with
    | some (.file ino) => some ino
    | _ => none

/-- `{e["path"]: e["sha256"] for e in files}`. -/
def pathDigests (files : List Entry) : List (Path × String) :=
  OrderedDict.setAll id [] (files.map fun entry => (entry.path, entry.sha256))

/-- The digest of a blob. -/
def Slot.digest? : Slot → Option String
  | .blob digest => some digest
  | _ => none

/-- The digests of the blobs, sorted. -/
def blobDigests (relay : Relay) : List String :=
  (relay.slots.filterMap fun entry => entry.1.digest?).insertionSort (· ≤ ·)

/-- Run a command if a condition holds. -/
def whenever (condition : Bool) (command : Command Relay Unit) : Command Relay Unit :=
  if condition then command else done ()

/-- `write_text`: the file is emptied and then written. -/
def writeText (slot : Slot) (text : Bytes) : Command Relay Unit := do
  change "open" fun relay => some (relay.openWrite slot)
  change "write" fun relay => (relay.slot? slot).map fun ino => relay.write ino 0 text

/-- What `cmd_seed` counts. -/
structure Seeded where
  added : Nat
  linked : Nat
  failed : Nat
deriving DecidableEq, Repr

/-- `cmd_seed` for one file. -/
def seedFile (sha256 : Bytes → String) (count : Seeded) (name : FileName) :
    Command Relay Seeded := do
  let file ← query fun relay => inoOf relay name
  match file with
  | none => pure count
  | some ino =>
    let digest ← query fun relay => sha256 (relay.inodes ino).bytes
    let dest ← query fun relay => relay.slot? (.blob digest)
    if dest.isSome then pure { count with linked := count.linked + 1 }
    else
      call "link" fun relay =>
        match relay.linkSlot ino (.blob digest) with
        | some after => some ({ count with added := count.added + 1 }, after)
        | none => some ({ count with failed := count.failed + 1 }, relay)

/-- `cmd_seed` of the files that walking the directories comes by; the exit code is 1
when one of them could not be linked. -/
def cmdSeed (sha256 : Bytes → String) (names : List FileName) : Command Relay Seeded :=
  foldEach names ⟨0, 0, 0⟩ (seedFile sha256)

/-- What `cmd_want` prints. -/
def missingDigests (relay : Relay) (manifest : Manifest) : List String :=
  (((manifest.files.map Entry.sha256).filter fun digest =>
    relay.slot? (.blob digest) = none).dedup).insertionSort (· ≤ ·)

/-- `cmd_want`. -/
def cmdWant (manifest : Manifest) : Command Relay (List String) :=
  query fun relay => missingDigests relay manifest

/-- The paths of the files in a tree. -/
def presentFiles (relay : Relay) (tree : Tree) : List Path :=
  (relay.walk tree).filterMap fun entry =>
    match entry.2 with
    | .file _ => some entry.1
    | .directory => none

/-- `tree_matches`. -/
def treeMatches (relay : Relay) (tree : Tree) (wanted : List (Path × String)) : Bool :=
  (presentFiles relay tree).all (fun path => path ∈ wanted.map Prod.fst) &&
    (wanted.map Prod.fst).all (fun path => path ∈ presentFiles relay tree) &&
    wanted.all fun entry =>
      match relay.slot? (.blob entry.2) with
      | some ino => relay.node? tree entry.1 = some (.file ino)
      | none => false

/-- One file of a snapshot that is being built. -/
def linkWanted (tree : Tree) (entry : Path × String) : Command Relay Unit := do
  let held ← query fun relay => (relay.slot? (.blob entry.2)).isSome
  require held ("snapshot: blobstore is missing " ++ entry.2)
  makeDirs tree entry.1.dropLast
  change "link" fun relay => relay.link (.blob entry.2) tree entry.1

/-- What `snapshot` returns. -/
inductive SnapshotState
  | created
  | existing
deriving DecidableEq, Repr

/-- `snapshot`. -/
def snapshot (dumps : Manifest → Bytes) (kind : SnapshotKind) (snapshotId : String)
    (manifest : Manifest) : Command Relay SnapshotState := do
  let final ← query fun relay => (relay.node? (.snapshot kind snapshotId) []).isSome
  if final then
    let same ← query fun relay =>
      treeMatches relay (.snapshot kind snapshotId) (pathDigests manifest.files)
    require same "exists and differs from this manifest"
    pure .existing
  else
    let leftover ← query fun relay => (relay.node? (.building kind snapshotId) []).isSome
    whenever leftover (removeTree false (.building kind snapshotId))
    onException
      (forEach (pathDigests manifest.files) (linkWanted (.building kind snapshotId)))
      (removeTree true (.building kind snapshotId))
    writeText (.record kind snapshotId) (dumps manifest)
    change "rename" fun relay =>
      relay.moveTree (.building kind snapshotId) (.snapshot kind snapshotId)
    pure .created

/-- One entry of `prune_to`. -/
def pruneEntry (tree : Tree) (wanted : List Path) (entry : Path × Node) : Command Relay Unit :=
  match entry.2 with
  | .file _ =>
    if entry.1 ∈ wanted then pure ()
    else change "unlink" fun relay => relay.unlink tree entry.1
  | .directory => do
    let entries ← query fun relay => relay.hasEntries tree entry.1
    whenever (!entries) (change "rmdir" fun relay => relay.rmdir tree entry.1)

/-- `prune_to`; the result is the number of files it removed. -/
def pruneTo (tree : Tree) (wanted : List Path) : Command Relay Nat := do
  let listing ← query fun relay => relay.walk tree
  forEach listing (pruneEntry tree wanted)
  pure (listing.filter fun entry => entry.2 ≠ .directory ∧ entry.1 ∉ wanted).length

/-- `cmd_assemble` for one file of the manifest. -/
def linkEntry (tree : Tree) (entry : Entry) : Command Relay Unit := do
  let blob ← query fun relay => relay.slot? (.blob entry.sha256)
  require blob.isSome ("assemble: blobstore is missing " ++ entry.sha256)
  makeDirs tree entry.path.dropLast
  let dest ← query fun relay => relay.node? tree entry.path
  if dest.isSome ∧ dest = blob.map Node.file then pure ()
  else
    whenever dest.isSome (change "unlink" fun relay => relay.unlink tree entry.path)
    change "link" fun relay => relay.link (.blob entry.sha256) tree entry.path

/-- What `cmd_assemble` prints. -/
structure Assembled where
  files : Nat
  bytes : Nat
  pruned : Nat
  snapshot : SnapshotState
deriving DecidableEq, Repr

/-- The manifest of the snapshot of a payload. -/
def snapshotManifest (manifest : Manifest) : Manifest :=
  { manifest with files := manifest.files.filter fun entry => entry.path ≠ BUILD_MANIFEST }

/-- `cmd_assemble`. -/
def cmdAssemble (dumps : Manifest → Bytes) (host : String) (manifest : Manifest) :
    Command Relay Assembled := do
  makeDirs (.host host) []
  forEach manifest.files (linkEntry (.host host))
  let removed ← pruneTo (.host host) (manifest.files.map Entry.path)
  writeText (.hostManifest host) (dumps manifest)
  match manifest.payloadHash with
  | none => exit "payload_hash"
  | some payloadHash =>
    let state ← snapshot dumps .provisioningPayload payloadHash (snapshotManifest manifest)
    pure ⟨manifest.files.length, (manifest.files.map Entry.size).sum, removed, state⟩

/-- `cmd_snapshot`. -/
def cmdSnapshot (dumps : Manifest → Bytes) (kind : SnapshotKind) (snapshotId : String)
    (manifest : Manifest) : Command Relay SnapshotState :=
  snapshot dumps kind snapshotId manifest

/-- What `cmd_gc` counts. -/
structure Collected where
  freed : Nat
  kept : Nat
deriving DecidableEq, Repr

/-- `cmd_gc` for one blob. -/
def collectBlob (dryRun : Bool) (count : Collected) (digest : String) :
    Command Relay Collected := do
  let blob ← query fun relay => relay.slot? (.blob digest)
  match blob with
  | none => exit "stat"
  | some ino =>
    let links ← query fun relay => relay.nlink ino
    if links = 1 then
      whenever (!dryRun) (change "unlink" fun relay => relay.unlinkSlot (.blob digest))
      pure { count with freed := count.freed + 1 }
    else pure { count with kept := count.kept + 1 }

/-- `cmd_gc`. -/
def cmdGc (dryRun : Bool) : Command Relay Collected := do
  let digests ← query blobDigests
  foldEach digests ⟨0, 0⟩ (collectBlob dryRun)

/-- The pieces `copyfileobj` copies, with the offsets it writes them at. -/
def chunksFrom : Nat → Nat → Bytes → List (Nat × Bytes)
  | 0, _, _ => []
  | _ + 1, _, [] => []
  | fuel + 1, offset, bytes =>
    (offset, bytes.take READ_CHUNK) ::
      chunksFrom fuel (offset + READ_CHUNK) (bytes.drop READ_CHUNK)

/-- `copyfileobj` and `truncate`: the file is overwritten in place. -/
def overwrite (ino : Nat) (good : Bytes) : Command Relay Unit := do
  forEach (chunksFrom good.length 0 good) fun piece =>
    change "write" fun relay => some (relay.write ino piece.1 piece.2)
  change "truncate" fun relay => some (relay.truncate ino good.length)

/-- `cmd_repair`; the result is the number of links it prints. -/
def cmdRepair (sha256 : Bytes → String) (digest : String) (source : FileName) :
    Command Relay Nat := do
  let blob ← query fun relay => relay.slot? (.blob digest)
  match blob with
  | none => exit "repair: the blobstore does not hold it; seed it instead"
  | some ino =>
    let good ← query fun relay => (inoOf relay source).map fun file => (relay.inodes file).bytes
    match good with
    | none => exit "open"
    | some good =>
      require (sha256 good = digest) "repair: the source does not hash to the digest"
      overwrite ino good
      let actual ← query fun relay => sha256 (relay.inodes ino).bytes
      require (actual = digest) "repair: still does not hash to its name after the rewrite"
      query fun relay => relay.nlink ino

/-- A file that is uploaded. -/
structure Source where
  bytes : Bytes
  mtime : Int
deriving DecidableEq, Repr

/-- What rsync does for one file: skip it when size and time are those of the file
there, else send it to a new file and rename that over. -/
def rsyncFile (relay : Relay) (digest : String) (source : Source) : Relay :=
  match relay.slot? (.blob digest) with
  | some ino =>
    if (relay.inodes ino).bytes.length = source.bytes.length ∧ (relay.inodes ino).mtime = source.mtime
    then relay
    else relay.replaceSlot (.blob digest) ⟨source.bytes, source.mtime⟩
  | none => relay.replaceSlot (.blob digest) ⟨source.bytes, source.mtime⟩

/-- The transfer of `upload_blobs`. -/
def rsyncBlobs (blobs : List (String × Source)) : Command Relay Unit :=
  forEach blobs fun blob => change "rsync" fun relay => some (rsyncFile relay blob.1 blob.2)

/-- A command that a client issues. -/
inductive Order
  /-- Seed the files that walking some directories comes by. -/
  | seed (names : List FileName)
  | want (manifest : Manifest)
  | upload (blobs : List (String × Source))
  | assemble (host : String) (manifest : Manifest)
  | snapshot (kind : SnapshotKind) (snapshotId : String) (manifest : Manifest)
  | gc (dryRun : Bool)
  | repair (digest : String) (source : FileName)

/-- The relay after a command, wherever it ended. -/
def Order.relayAfter (sha256 : Bytes → String) (dumps : Manifest → Bytes) (relay : Relay)
    (faults : List Fault) : Order → Relay
  | .seed names => (cmdSeed sha256 names ⟨relay, faults⟩).2.state
  | .want manifest => (cmdWant manifest ⟨relay, faults⟩).2.state
  | .upload blobs => (rsyncBlobs blobs ⟨relay, faults⟩).2.state
  | .assemble host manifest => (cmdAssemble dumps host manifest ⟨relay, faults⟩).2.state
  | .snapshot kind snapshotId manifest =>
    (cmdSnapshot dumps kind snapshotId manifest ⟨relay, faults⟩).2.state
  | .gc dryRun => (cmdGc dryRun ⟨relay, faults⟩).2.state
  | .repair digest source => (cmdRepair sha256 digest source ⟨relay, faults⟩).2.state

end MastProvisioning.Blobstore
