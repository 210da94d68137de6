import Mathlib
import MastProvisioning.Blobstore.Assemble
import MastProvisioning.Blobstore.Frames

/-!
# What a failed assemble leaves behind

`cmdAssemble` replaces the links of a host's tree one by one, prunes it, writes the
host's manifest and only then records the snapshot. Nothing of this is taken back when a
later step fails. `failureChangesNothing_iff` says when a failure leaves what is served
as it was: when what was done before it had been done already.
-/

namespace MastProvisioning.Blobstore

open MastProvisioning.Semantics MastProvisioning.Semantics.Command
open MastProvisioning.Collections MastProvisioning.Storage

/-- What is read at a path of a tree: a directory, or the bytes of a file. -/
def served (relay : Relay) (tree : Tree) (path : Path) : Option (Option Bytes) :=
  (relay.node? tree path).map fun node =>
    match node with
    | .directory => none
    | .file ino => some (relay.inodes ino).bytes

/-- The text of the host's `payload-manifest.json`. -/
def manifestText (relay : Relay) (host : String) : Option Bytes :=
  (relay.slot? (.hostManifest host)).map fun ino => (relay.inodes ino).bytes

/-- What is served to a host is the same. -/
structure SameServed (relay after : Relay) (host : String) : Prop where
  tree : ∀ path, served after (.host host) path = served relay (.host host) path
  manifest : manifestText after host = manifestText relay host

/-- An assemble that ends in an error leaves what is served as it was. -/
def FailureChangesNothing (dumps : Manifest → Bytes) (relay : Relay) (host : String)
    (manifest : Manifest) : Prop :=
  ∀ message after, (cmdAssemble dumps host manifest).run relay = (.raised message, after) →
    SameServed relay after host

/-- The file of the record that is overwritten before the rename of an empty payload's
snapshot fails. -/
def overwrittenRecord (relay : Relay) (manifest : Manifest) : Option Nat :=
  match manifest.payloadHash with
  | none => none
  | some payloadHash =>
    if manifest.payload = [] ∧ relay.node? (.snapshot .provisioningPayload payloadHash) [] = none then
      relay.slot? (.record .provisioningPayload payloadHash)
    else none

/-- The bytes of a file once the texts have been written. -/
def textsWritten (dumps : Manifest → Bytes) (relay : Relay) (host : String) (manifest : Manifest)
    (ino : Nat) : Bytes :=
  if overwrittenRecord relay manifest = some ino then dumps (snapshotManifest manifest)
  else if relay.slot? (.hostManifest host) = some ino then dumps manifest
  else (relay.inodes ino).bytes

/-- The tree is there, and each of its paths in the manifest reads as the blob it will be
linked to. -/
structure InPlace (bytes : Nat → Bytes) (relay : Relay) (tree : Tree) (files : List Entry) : Prop where
  root : (relay.node? tree []).isSome
  linked : ∀ path digest ino, wantedBy files path = some digest →
    relay.slot? (.blob digest) = some ino → served relay tree path = some (some (bytes ino))

/-- The tree of a host and its manifest are what assembling makes of them. -/
structure AsAssembled (dumps : Manifest → Bytes) (relay : Relay) (host : String)
    (manifest : Manifest) : Prop where
  inPlace : InPlace (textsWritten dumps relay host manifest) relay (.host host) manifest.files
  named : ∀ path ino, relay.node? (.host host) path = some (.file ino) →
    path ∈ manifest.files.map Entry.path
  nonempty : ∀ path, path ≠ [] → relay.node? (.host host) path = some .directory →
    relay.hasEntries (.host host) path = true
  manifest : ∃ ino, relay.slot? (.hostManifest host) = some ino ∧
    (relay.inodes ino).bytes = textsWritten dumps relay host manifest ino

/-- The snapshot of a payload can be recorded. -/
def SnapshotRecordable (relay : Relay) (manifest : Manifest) : Prop :=
  ∃ payloadHash, manifest.payloadHash = some payloadHash ∧
    Recordable relay .provisioningPayload payloadHash manifest.payload

/-- Where assembling stops, what it did before had been done already. -/
structure StopsWhereDone (dumps : Manifest → Bytes) (relay : Relay) (host : String)
    (manifest : Manifest) : Prop where
  linking : ∀ count < manifest.files.length,
    Linkable relay (.host host) (manifest.files.take count) →
      ¬ Linkable relay (.host host) (manifest.files.take (count + 1)) →
        InPlace (fun ino => (relay.inodes ino).bytes) relay (.host host) (manifest.files.take count)
  recording : Linkable relay (.host host) manifest.files → ¬ SnapshotRecordable relay manifest →
    AsAssembled dumps relay host manifest

section Served

variable {relay after : Relay} {tree : Tree} {path : Path}

theorem served_file {ino : Nat} (isFile : relay.node? tree path = some (.file ino)) :
    served relay tree path = some (some (relay.inodes ino).bytes) := by
  rw [served, isFile]
  rfl

theorem served_directory (isDirectory : relay.node? tree path = some .directory) :
    served relay tree path = some none := by
  rw [served, isDirectory]
  rfl

theorem file_of_served {bytes : Bytes} (isServed : served relay tree path = some (some bytes)) :
    ∃ ino, relay.node? tree path = some (.file ino) ∧ (relay.inodes ino).bytes = bytes := by
  obtain ⟨node, isNode, isBytes⟩ := Option.map_eq_some_iff.mp isServed
  cases node with
  | directory => cases isBytes
  | file ino => exact ⟨ino, isNode, Option.some.inj isBytes⟩

theorem directory_of_served (isServed : served relay tree path = some none) :
    relay.node? tree path = some .directory := by
  obtain ⟨node, isNode, isBytes⟩ := Option.map_eq_some_iff.mp isServed
  cases node with
  | directory => exact isNode
  | file ino => cases isBytes

end Served

section Pruning

variable {relay after : Relay} {tree : Tree} {wanted : List Path}

/-- What pruning keeps: a wanted file, or a directory that is not empty. -/
def KeptByPruning (relay : Relay) (tree : Tree) (wanted : List Path) (entry : Path × Node) : Prop :=
  match entry.2 with
  | .file _ => entry.1 ∈ wanted
  | .directory => relay.hasEntries tree entry.1 = true

/-- Pruning one entry keeps it or removes it. -/
theorem pruneEntry_step (entry : Path × Node) : Meets .reliable (pruneEntry tree wanted entry) relay
    (fun _ after => KeptByPruning relay tree wanted entry ∧ after = relay ∨
      ¬ KeptByPruning relay tree wanted entry ∧
        Volume.NodeChange relay after tree entry.1 none)
    fun _ => True := by
  obtain ⟨path, node⟩ := entry
  cases node with
  | file ino =>
    refine .ite (fun isWanted => .pure (.inl ⟨isWanted, rfl⟩)) fun notWanted => ?_
    exact .change (fun after done => .inr ⟨notWanted, (Volume.unlink_change done).2⟩)
      (fun _ => trivial) (by simp)
  | directory =>
    refine .query_bind (whenever_meets (fun empty => ?_) fun entries => ?_) (by simp)
    · have isEmpty : ¬ relay.hasEntries tree path = true := by simpa using empty
      exact .change (fun after done => .inr ⟨isEmpty, (Volume.rmdir_change done).2.2⟩)
        (fun _ => trivial) (by simp)
    · have isKept : relay.hasEntries tree path = true := by simpa using entries
      exact .inl ⟨isKept, rfl⟩

/-- Where there is nothing to prune, pruning does nothing. -/
theorem pruneTo_idle (kept : ∀ entry ∈ relay.walk tree, KeptByPruning relay tree wanted entry) :
    Meets .reliable (pruneTo tree wanted) relay (fun _ after => after = relay) fun _ => True := by
  refine .query_bind ?_ (by simp)
  have idle : Meets .reliable (forEach (relay.walk tree) (pruneEntry tree wanted)) relay
      (fun _ after => after = relay) fun _ => True := by
    let same (_ : List (Path × Node)) (after : Relay) : Prop := after = relay
    have initially : same (relay.walk tree) relay := rfl
    refine Meets.forEach initially fun entry rest middle suffix isSame => ?_
    obtain rfl := Eq.symm isSame
    refine (pruneEntry_step entry).mono ?_ fun _ => id
    rintro ⟨⟩ after (⟨_, unchanged⟩ | ⟨removed, _⟩)
    · exact unchanged
    · exact absurd (kept entry (suffix.subset List.mem_cons_self)) removed
  exact idle.bind fun _ _ isSame => .pure isSame

/-- A directory that was empty from the beginning. -/
def EmptyBelow (relay : Relay) (tree : Tree) (path : Path) : Prop :=
  path ≠ [] ∧ relay.node? tree path = some .directory ∧ relay.hasEntries tree path = false

/-- Pruning removes the empty directories, and never the root. -/
theorem pruneTo_empties : Meets .reliable (pruneTo tree wanted) relay
    (fun _ after => after.node? tree [] = relay.node? tree [] ∧
      ∀ path, EmptyBelow relay tree path → after.node? tree path = none)
    fun _ => True := by
  refine .query_bind ?_ (by simp)
  let sweeping (rest : List (Path × Node)) (after : Relay) : Prop :=
    after.node? tree [] = relay.node? tree [] ∧
      (∀ path, relay.node? tree path = none → after.node? tree path = none) ∧
      ∀ path, EmptyBelow relay tree path → path ∉ rest.map Prod.fst → after.node? tree path = none
  have initially : sweeping (relay.walk tree) relay := by
    refine ⟨rfl, fun _ => id, fun path ⟨named, isDirectory, _⟩ unvisited => ?_⟩
    exact absurd (List.mem_map_of_mem (Volume.mem_walk.mpr ⟨named, isDirectory⟩)) unvisited
  have swept : Meets .reliable (forEach (relay.walk tree) (pruneEntry tree wanted)) relay
      (fun _ after => sweeping [] after) fun _ => True := by
    refine Meets.forEach initially fun entry rest middle suffix ⟨top, fewer, gone⟩ => ?_
    obtain ⟨named, isThere⟩ := Volume.mem_walk.mp (suffix.subset List.mem_cons_self)
    refine (pruneEntry_step entry).mono ?_ fun _ => id
    rintro ⟨⟩ after (⟨kept, rfl⟩ | ⟨_, change⟩)
    · refine ⟨top, fewer, fun path isEmpty later => ?_⟩
      by_cases here : path = entry.1
      · -- An empty directory stays empty and is not kept.
        obtain ⟨_, isDirectory, noEntries⟩ := isEmpty
        have isNode : entry.2 = .directory := by
          rw [here, isThere] at isDirectory
          exact Option.some.inj isDirectory
        unfold KeptByPruning at kept
        rw [isNode] at kept
        obtain ⟨name, node, isChild⟩ := Volume.hasEntries_iff.mp kept
        have unmade : relay.node? tree (entry.1 ++ [name]) = none := by
          by_contra isSome
          obtain ⟨other, isOther⟩ := Option.ne_none_iff_exists'.mp isSome
          rw [here, Volume.hasEntries_iff.mpr ⟨name, other, isOther⟩] at noEntries
          cases noEntries
        rw [fewer _ unmade] at isChild
        cases isChild
      · refine gone path isEmpty fun member => ?_
        rcases List.mem_cons.mp member with same | member
        · exact here same
        · exact later member
    · refine ⟨?_, fun path absent => ?_, fun path isEmpty later => ?_⟩
      · rw [change.node, if_neg fun same => named same.2.symm]
        exact top
      · rw [change.node]
        split
        · rfl
        · exact fewer path absent
      · rw [change.node]
        split
        · rfl
        · rename_i elsewhere
          refine gone path isEmpty fun member => ?_
          rcases List.mem_cons.mp member with same | member
          · exact elsewhere ⟨rfl, same⟩
          · exact later member
  refine swept.bind fun _ after ⟨top, _, gone⟩ => .pure ⟨top, fun path isEmpty => ?_⟩
  exact gone path isEmpty (by simp)

end Pruning

section Writing

variable {relay after : Relay} {slot : Slot} {text : Bytes}

/-- A text has been written: into the file that was in its slot, or into a new one. -/
structure TextPut (relay after : Relay) (slot : Slot) (text : Bytes) : Prop where
  written : TextWritten relay after slot
  fresh : relay.fresh ≤ after.fresh
  here : (after.slot? slot).isSome
  kept : ∀ ino, relay.slot? slot = some ino → after.slot? slot = some ino
  bytes : ∀ ino, ino < relay.fresh →
    (after.inodes ino).bytes = if relay.slot? slot = some ino then text else (relay.inodes ino).bytes

theorem writeText_put : Meets .reliable (writeText slot text) relay
    (fun _ after => TextPut relay after slot text) fun _ => False := by
  have opened : Meets .reliable (change "open" fun relay => some (relay.openWrite slot)) relay
      (fun _ after => after = relay.openWrite slot) fun _ => False :=
    .change (fun _ done => (Option.some.inj done).symm) (by simp) (by simp)
  have wrote : Meets .reliable (writeText slot text) relay (fun _ after => ∃ ino,
      (relay.openWrite slot).slot? slot = some ino ∧
        after = (relay.openWrite slot).write ino 0 text) fun _ => True := by
    refine (opened.mono (fun _ _ => id) fun _ => False.elim).bind ?_
    rintro ⟨⟩ _ rfl
    refine .change (fun after done => ?_) (fun _ => trivial) (by simp)
    obtain ⟨ino, isOpen, isAfter⟩ := Option.map_eq_some_iff.mp done
    exact ⟨ino, isOpen, isAfter.symm⟩
  refine (writeText_meets.and wrote).mono ?_ fun _ fails => fails.1
  rintro ⟨⟩ after ⟨written, ino, isOpen, rfl⟩
  have content : ((relay.openWrite slot).write ino 0 text).inodes ino =
      ⟨text ++ ((relay.openWrite slot).inodes ino).bytes.drop text.length,
        (relay.openWrite slot).clock⟩ := by
    simp [Volume.write, Volume.setContent]
  have change : Volume.ContentChange (relay.openWrite slot)
      ((relay.openWrite slot).write ino 0 text) ino := Volume.setContent_change
  cases isThere : relay.slot? slot with
  | some old =>
    have isEmptied := Volume.openWrite_of_some isThere
    have same : (relay.openWrite slot).slot? slot = relay.slot? slot := by
      rw [isEmptied]
      exact Volume.setContent_change.slot slot
    obtain rfl : old = ino := Option.some.inj (isThere.symm.trans (same.symm.trans isOpen))
    refine ⟨written, by rw [change.fresh, isEmptied]; exact Nat.le_refl _, ?_, ?_, ?_⟩
    · rw [change.slot, isOpen]
      rfl
    · intro other isOther
      rw [change.slot, same]
      exact isOther
    · intro other earlier
      by_cases here : old = other
      · rw [isThere, if_pos (congrArg some here), ← here, content, isEmptied]
        simp [Volume.setContent]
      · have apart : relay.slot? slot ≠ some other := fun same =>
          here (Option.some.inj (isThere.symm.trans same))
        rw [if_neg apart, written.inodes other earlier apart]
  | none =>
    have isMade := Volume.openWrite_of_none isThere
    have made : Volume.SlotChange relay (relay.replaceSlot slot ⟨[], relay.clock⟩) slot _ :=
      (Volume.replaceSlot_change _).1
    refine ⟨written, ?_, ?_, by simp [isThere], fun other earlier => ?_⟩
    · rw [change.fresh, isMade]
      exact made.fresh
    · rw [change.slot, isOpen]
      rfl
    · have apart : relay.slot? slot ≠ some other := by simp [isThere]
      rw [if_neg apart, written.inodes other earlier apart]

end Writing

section Recording

variable {relay after : Relay} {kind : SnapshotKind} {snapshotId : String}
  {dumps : Manifest → Bytes} {manifest : Manifest}

/-- What recording a snapshot leaves when it fails: of an empty one, the record is
written. -/
structure SnapshotFailed (dumps : Manifest → Bytes) (relay after : Relay) (kind : SnapshotKind)
    (snapshotId : String) (manifest : Manifest) : Prop where
  nodes : ∀ tree path, tree ≠ .building kind snapshotId → after.node? tree path = relay.node? tree path
  slot : ∀ slot, slot ≠ .record kind snapshotId → after.slot? slot = relay.slot? slot
  bytes : ∀ ino, ino < relay.fresh → (after.inodes ino).bytes =
    if manifest.files = [] ∧ relay.node? (.snapshot kind snapshotId) [] = none ∧
        relay.slot? (.record kind snapshotId) = some ino then
      dumps manifest
    else (relay.inodes ino).bytes

/-- Nothing but one tree has changed. -/
structure OnlyTree (tree : Tree) (relay after : Relay) : Prop where
  nodes : ∀ other path, other ≠ tree → after.node? other path = relay.node? other path
  files : SameFiles relay after

theorem OnlyTree.step {tree : Tree} {middle : Relay} (only : OnlyTree tree relay middle)
    (step : TreeStep tree middle after) : OnlyTree tree relay after := by
  obtain ⟨path, value, change, -⟩ := step
  refine ⟨fun other below different => ?_, only.files.trans change.sameFiles⟩
  rw [change.node, if_neg fun same => different same.1]
  exact only.nodes other below different

theorem snapshot_fails : Meets .reliable (snapshot dumps kind snapshotId manifest) relay
    (fun _ _ => True) fun after => SnapshotFailed dumps relay after kind snapshotId manifest := by
  refine .query_bind (.ite (fun isThere => ?_) fun notThere => ?_) (by simp)
  · have exists_ : relay.node? (.snapshot kind snapshotId) [] ≠ none :=
      Option.isSome_iff_ne_none.mp isThere
    refine .query_bind (.require_bind (fun _ => .pure trivial) fun _ => ?_) (by simp)
    exact ⟨fun _ _ _ => rfl, fun _ _ => rfl, fun _ _ => by rw [if_neg fun all => exists_ all.2.1]⟩
  have absent : relay.node? (.snapshot kind snapshotId) [] = none := by simpa using notThere
  let building : Tree := .building kind snapshotId
  let only : Relay → Prop := OnlyTree building relay
  have initially : only relay := ⟨fun _ _ _ => rfl, .refl⟩
  have steps : ∀ middle after, only middle → TreeStep building middle after → only after :=
    fun _ _ holds => holds.step
  refine .query_bind ?_ (by simp)
  have cleared : Meets .reliable
      (whenever (relay.node? building []).isSome (removeTree false building)) relay
      (fun _ after => TreeGone relay after building ∧ only after) fun _ => False :=
    (clearBuilding_meets.and (whenever_preserves (removeTree_keeps steps _) relay initially)).mono
      (fun _ _ => id) fun _ fails => fails.1
  refine (cleared.mono (fun _ _ => id) fun _ => False.elim).bind ?_
  rintro ⟨⟩ middle ⟨gone, holds⟩
  have nothing : ∀ path, middle.node? building path = none := by
    intro path
    rw [gone.node, if_pos rfl]
  have built : Meets .reliable
      (onException (forEach (pathDigests manifest.files) (linkWanted building))
        (removeTree true building)) middle
      (fun _ full => Placed middle full building (wantedBy manifest.files) ∧ only full)
      fun after => manifest.files ≠ [] ∧ only after := by
    have keeps : Preserves .reliable only
        (forEach (pathDigests manifest.files) (linkWanted building)) :=
      .forEach fun entry _ => linkWanted_keeps steps entry
    refine Meets.onException ((linkAll_meets nothing).and (keeps middle holds)) (fun stopped ⟨fails, kept⟩ => ?_) (by simp)
    have nonempty : manifest.files ≠ [] := by
      intro isNil
      refine fails ⟨?_, ?_⟩
      · rw [isNil]
        exact fun _ _ wanted => by cases wanted
      · rw [isNil]
        exact fun _ _ wanted => by cases wanted
    exact (removeTree_keeps steps true stopped kept).mono (fun _ _ kept => ⟨nonempty, kept⟩)
      fun _ kept => ⟨nonempty, kept⟩
  refine (built.mono (fun _ _ => id) ?_).bind ?_
  · rintro stopped ⟨nonempty, kept⟩
    refine ⟨kept.nodes, fun slot _ => kept.files.slot slot, fun ino _ => ?_⟩
    rw [if_neg fun all => nonempty all.1, kept.files.inodes]
  rintro ⟨⟩ full ⟨placed, kept⟩
  refine (writeText_put.mono (fun _ _ => id) fun _ => False.elim).bind ?_
  rintro ⟨⟩ recorded put
  have different : Tree.snapshot kind snapshotId ≠ building := by simp [building]
  have renamed : Meets .reliable
      (change "rename" fun relay : Relay => relay.moveTree building (.snapshot kind snapshotId))
      recorded (fun _ _ => True) fun after => after = recorded ∧ manifest.files = [] := by
    refine .change (fun _ _ => trivial) (fun fails => ⟨rfl, ?_⟩) (by simp)
    by_contra nonempty
    obtain ⟨entry, member⟩ := List.exists_mem_of_ne_nil _ nonempty
    have isBuilt : recorded.node? building [] = some .directory := by
      rw [put.written.node]
      exact placed.above [] entry.path wantedBy_root
        (wantedBy_isSome.mpr (List.mem_map_of_mem member)) List.nil_prefix
    have free : recorded.node? (.snapshot kind snapshotId) [] = none := by
      rw [put.written.node, kept.nodes _ _ different, absent]
    obtain ⟨after, done⟩ := Volume.moveTree_isSome isBuilt free
    rw [fails] at done
    cases done
  refine (renamed.mono (fun _ _ => id) ?_).bind fun _ _ _ => .pure trivial
  rintro _ ⟨rfl, isNil⟩
  refine ⟨fun tree path other => ?_, fun slot other => ?_, fun ino earlier => ?_⟩
  · rw [put.written.node, kept.nodes tree path other]
  · rw [put.written.slot slot other, kept.files.slot]
  · rw [put.bytes ino (by rwa [kept.files.fresh]), kept.files.slot, kept.files.inodes]
    simp [isNil, absent]

end Recording

section Stopping

variable {relay full trimmed after : Relay} {tree : Tree} {host : String} {files : List Entry}
  {dumps : Manifest → Bytes} {manifest : Manifest}

/-- The root of a tree has been made and files have been linked into it. -/
structure PutInto (relay full : Relay) (tree : Tree) (files : List Entry) : Prop where
  top : full.node? tree [] = some .directory
  linked : ∀ path digest, wantedBy files path = some digest →
    ∃ ino, relay.slot? (.blob digest) = some ino ∧ full.node? tree path = some (.file ino)
  above : ∀ path key, wantedBy files path = none → (wantedBy files key).isSome → path <+: key →
    full.node? tree path = some .directory
  kept : ∀ path, path ≠ [] → (∀ key, (wantedBy files key).isSome → ¬ path <+: key) →
    full.node? tree path = relay.node? tree path
  files : SameFiles relay full

/-- What pruning has made of a tree. -/
structure PrunedTo (full trimmed : Relay) (tree : Tree) (wanted : List Path) : Prop where
  pruned : Pruned full trimmed tree wanted
  top : trimmed.node? tree [] = full.node? tree []
  empties : ∀ path, EmptyBelow full tree path → trimmed.node? tree path = none
  idle : (∀ entry ∈ full.walk tree, KeptByPruning full tree wanted entry) → trimmed = full

theorem pruneTo_prunedTo {wanted : List Path} : Meets .reliable (pruneTo tree wanted) full
    (fun _ trimmed => PrunedTo full trimmed tree wanted) fun _ => False := by
  have idle : Meets .reliable (pruneTo tree wanted) full (fun _ trimmed =>
      (∀ entry ∈ full.walk tree, KeptByPruning full tree wanted entry) → trimmed = full)
      fun _ => True := by
    by_cases kept : ∀ entry ∈ full.walk tree, KeptByPruning full tree wanted entry
    · exact (pruneTo_idle kept).mono (fun _ _ same _ => same) fun _ => id
    · exact pruneTo_empties.mono (fun _ _ _ isKept => absurd isKept kept) fun _ => id
  refine ((pruneTo_meets.and pruneTo_empties).and idle).mono ?_ fun _ fails => fails.1.1
  exact fun _ trimmed ⟨⟨pruned, top, empties⟩, isIdle⟩ => ⟨pruned, top, empties, isIdle⟩

theorem Rooted.linkable_iff {root : Relay} (rooted : Rooted relay root tree) :
    Linkable root tree files ↔ Linkable relay tree files := by
  have held : AllHeld root files ↔ AllHeld relay files := by
    unfold AllHeld
    simp only [rooted.files.slot]
  exact ⟨fun linkable => ⟨rooted.placeable_iff.mp linkable.placeable, held.mp linkable.allHeld,
      linkable.prefixFree⟩,
    fun linkable => ⟨rooted.placeable_iff.mpr linkable.placeable, held.mpr linkable.allHeld,
      linkable.prefixFree⟩⟩

/-- Files linked below a root that has been made. -/
theorem PutInto.of_placed {root : Relay} (rooted : Rooted relay root tree)
    (top : root.node? tree [] = some .directory) (placed : Placed root full tree (wantedBy files)) :
    PutInto relay full tree files where
  top := by
    by_cases onWay : ∃ key, (wantedBy files key).isSome
    · obtain ⟨key, isKey⟩ := onWay
      exact placed.above [] key wantedBy_root isKey List.nil_prefix
    · rw [placed.kept [] fun key isKey _ => onWay ⟨key, isKey⟩, top]
  linked path digest isWanted := by
    obtain ⟨ino, isBlob, isFile⟩ := placed.linked path digest isWanted
    exact ⟨ino, (rooted.files.slot _).symm.trans isBlob, isFile⟩
  above := placed.above
  kept path named apart := by
    rw [placed.kept path apart, rooted.kept tree path fun _ => named]
  files := rooted.files.trans placed.files

/-- Linking stopped at a file that cannot be linked. -/
def StoppedLinking (relay after : Relay) (tree : Tree) (files : List Entry) : Prop :=
  ∃ count < files.length, Linkable relay tree (files.take count) ∧
    ¬ Linkable relay tree (files.take (count + 1)) ∧ PutInto relay after tree (files.take count)

/-- The payload is in the host's tree and its manifest is written, but the snapshot is
not recorded. -/
structure StoppedRecording (dumps : Manifest → Bytes) (relay full trimmed after : Relay)
    (host : String) (manifest : Manifest) : Prop where
  linkable : Linkable relay (.host host) manifest.files
  put : PutInto relay full (.host host) manifest.files
  prunedTo : PrunedTo full trimmed (.host host) (manifest.files.map Entry.path)
  nodes : ∀ path, after.node? (.host host) path = trimmed.node? (.host host) path
  slot : (after.slot? (.hostManifest host)).isSome
  sameSlot : ∀ ino, relay.slot? (.hostManifest host) = some ino →
    after.slot? (.hostManifest host) = some ino
  bytes : ∀ ino, ino < relay.fresh →
    (after.inodes ino).bytes = textsWritten dumps relay host manifest ino

theorem cmdAssemble_stops : Meets .reliable (cmdAssemble dumps host manifest) relay
    (fun _ _ => True) fun after => StoppedLinking relay after (.host host) manifest.files ∨
      ∃ full trimmed, StoppedRecording dumps relay full trimmed after host manifest := by
  have made : Meets .reliable (makeDirs (.host host) []) relay
      (fun _ root => Rooted relay root (.host host) ∧
        root.node? (.host host) [] = some .directory) fun _ => False := by
    refine (makeRoot_meets.and makeDirs_meets).mono ?_ fun _ fails => fails.1
    exact fun _ root ⟨rooted, _, made⟩ => ⟨rooted, made.made [] List.nil_prefix⟩
  refine (made.mono (fun _ _ => id) fun _ => False.elim).bind ?_
  rintro ⟨⟩ root ⟨rooted, top⟩
  refine (linkEntries_stops.mono (fun _ _ => id) ?_).bind ?_
  · rintro after ⟨count, isShort, linkable, stops, placed⟩
    exact .inl ⟨count, isShort, rooted.linkable_iff.mp linkable,
      fun further => stops (rooted.linkable_iff.mpr further), .of_placed rooted top placed⟩
  rintro ⟨⟩ full ⟨linkableRoot, placed⟩
  have linkable := rooted.linkable_iff.mp linkableRoot
  have put : PutInto relay full (.host host) manifest.files := .of_placed rooted top placed
  refine (pruneTo_prunedTo.mono (fun _ _ => id) fun _ => False.elim).bind ?_
  intro removed trimmed prunedTo
  refine (writeText_put.mono (fun _ _ => id) fun _ => False.elim).bind ?_
  rintro ⟨⟩ middle text
  have same : SameFiles relay trimmed := put.files.trans prunedTo.pruned.files
  have written : ∀ ino, ino < relay.fresh → (middle.inodes ino).bytes =
      if relay.slot? (.hostManifest host) = some ino then dumps manifest
      else (relay.inodes ino).bytes := by
    intro ino earlier
    rw [text.bytes ino (by rwa [same.fresh]), same.slot, same.inodes]
  have kept : ∀ ino, relay.slot? (.hostManifest host) = some ino →
      middle.slot? (.hostManifest host) = some ino := by
    intro ino isSlot
    exact text.kept ino ((same.slot _).trans isSlot)
  cases hasHash : manifest.payloadHash with
  | none =>
    refine .exit (.inr ⟨full, trimmed, linkable, put, prunedTo, text.written.node _, text.here, kept, ?_⟩)
    intro ino earlier
    have unrecorded : overwrittenRecord relay manifest = none := by
      unfold overwrittenRecord
      rw [hasHash]
    rw [written ino earlier, textsWritten, unrecorded]
    exact (if_neg (by simp)).symm
  | some payloadHash =>
    refine (snapshot_fails.mono (fun _ _ => id) fun after failed => .inr ⟨full, trimmed,
      linkable, put, prunedTo, ?_, ?_, ?_, ?_⟩).bind fun _ _ _ => .pure trivial
    · intro path
      rw [failed.nodes _ path (by simp), text.written.node]
    · rw [failed.slot _ (by simp)]
      exact text.here
    · intro ino isSlot
      rw [failed.slot _ (by simp)]
      exact kept ino isSlot
    · intro ino earlier
      have isRecord : middle.slot? (.record .provisioningPayload payloadHash) =
          relay.slot? (.record .provisioningPayload payloadHash) := by
        rw [text.written.slot _ (by simp), same.slot]
      have isSnapshot : middle.node? (.snapshot .provisioningPayload payloadHash) [] =
          relay.node? (.snapshot .provisioningPayload payloadHash) [] := by
        rw [text.written.node, prunedTo.pruned.others _ _ (by simp), placed.others _ _ (by simp),
          rooted.kept _ _ (by simp)]
      have later : ino < middle.fresh :=
        Nat.lt_of_lt_of_le (by rwa [same.fresh]) text.fresh
      rw [failed.bytes ino later, isRecord, isSnapshot, written ino earlier, textsWritten]
      by_cases empty : manifest.payload = [] ∧
          relay.node? (.snapshot .provisioningPayload payloadHash) [] = none
      · have recorded : overwrittenRecord relay manifest =
            relay.slot? (.record .provisioningPayload payloadHash) := by
          unfold overwrittenRecord
          rw [hasHash]
          exact if_pos empty
        rw [recorded]
        simp [empty]
      · have unrecorded : overwrittenRecord relay manifest = none := by
          unfold overwrittenRecord
          rw [hasHash]
          exact if_neg empty
        rw [unrecorded, if_neg fun all => empty ⟨all.1, all.2.1⟩]
        exact (if_neg (by simp)).symm

/-- What is served where files were linked and it had been what they are. -/
theorem PutInto.same_served {bytes : Nat → Bytes} (put : PutInto relay full tree files)
    (inPlace : InPlace bytes relay tree files)
    (nodes : ∀ path, after.node? tree path = full.node? tree path)
    (isBytes : ∀ ino, ino < relay.fresh → (after.inodes ino).bytes = bytes ino)
    (others : ∀ path ino, relay.node? tree path = some (.file ino) →
      (wantedBy files path).isSome ∨ bytes ino = (relay.inodes ino).bytes) (path : Path) :
    served after tree path = served relay tree path := by
  cases isWanted : wantedBy files path with
  | some digest =>
    obtain ⟨ino, isBlob, isFile⟩ := put.linked path digest isWanted
    rw [inPlace.linked path digest ino isWanted isBlob, served_file ((nodes path).trans isFile),
      isBytes ino (Volume.slot?_lt isBlob)]
  | none =>
    by_cases onWay : ∃ key, (wantedBy files key).isSome ∧ path <+: key
    · obtain ⟨key, isKey, isPrefix⟩ := onWay
      obtain ⟨digest, isDigest⟩ := Option.isSome_iff_exists.mp isKey
      obtain ⟨ino, isBlob, _⟩ := put.linked key digest isDigest
      obtain ⟨_, isThere, _⟩ := file_of_served (inPlace.linked key digest ino isDigest isBlob)
      have proper : path ≠ key := by
        rintro rfl
        rw [isWanted] at isDigest
        cases isDigest
      rw [served_directory ((nodes path).trans (put.above path key isWanted isKey isPrefix)),
        served_directory (Volume.directory_of_prefix isPrefix proper isThere)]
    · by_cases isRoot : path = []
      · obtain ⟨node, isNode⟩ := Option.isSome_iff_exists.mp inPlace.root
        obtain rfl := Volume.root_directory isNode
        rw [isRoot, served_directory ((nodes []).trans put.top), served_directory isNode]
      · have apart : ∀ key, (wantedBy files key).isSome → ¬ path <+: key :=
          fun key isKey isPrefix => onWay ⟨key, isKey, isPrefix⟩
        have isKept := (nodes path).trans (put.kept path isRoot apart)
        cases isNode : relay.node? tree path with
        | none => simp [served, isKept, isNode]
        | some node =>
          rw [isNode] at isKept
          cases node with
          | directory => rw [served_directory isKept, served_directory isNode]
          | file ino =>
            have same := (others path ino isNode).resolve_left (by simp [isWanted])
            rw [served_file isKept, served_file isNode, isBytes ino (Volume.file_lt isNode), same]

/-- When it is served as before, it had been in place. -/
theorem PutInto.inPlace {bytes : Nat → Bytes} (put : PutInto relay full tree files)
    (nodes : ∀ path, (wantedBy files path).isSome ∨ path = [] →
      after.node? tree path = full.node? tree path)
    (isBytes : ∀ ino, ino < relay.fresh → (after.inodes ino).bytes = bytes ino)
    (same : ∀ path, served after tree path = served relay tree path) :
    InPlace bytes relay tree files where
  root := by
    have isRoot := same []
    rw [served_directory ((nodes [] (.inr rfl)).trans put.top)] at isRoot
    rw [directory_of_served isRoot.symm]
    rfl
  linked path digest ino isWanted isBlob := by
    obtain ⟨other, isOther, isFile⟩ := put.linked path digest isWanted
    obtain rfl := Option.some.inj (isBlob.symm.trans isOther)
    rw [← same path, served_file ((nodes path (.inl (by simp [isWanted]))).trans isFile),
      isBytes ino (Volume.slot?_lt isBlob)]

theorem StoppedLinking.sameServed (stopped : StoppedLinking relay after (.host host) manifest.files)
    (done : StopsWhereDone dumps relay host manifest) : SameServed relay after host := by
  obtain ⟨count, isShort, linkable, stops, put⟩ := stopped
  refine ⟨put.same_served (done.linking count isShort linkable stops) (fun _ => rfl) (fun ino _ => ?_)
    fun _ _ _ => .inr rfl, ?_⟩
  · rw [put.files.inodes]
  · rw [manifestText, manifestText, put.files.slot, put.files.inodes]

/-- Where the tree is what was linked into it, pruning keeps all of it. -/
theorem PutInto.kept_all (put : PutInto relay full (.host host) manifest.files)
    (assembled : AsAssembled dumps relay host manifest) :
    ∀ entry ∈ full.walk (.host host),
      KeptByPruning full (.host host) (manifest.files.map Entry.path) entry := by
  rintro ⟨path, node⟩ member
  obtain ⟨named, isNode⟩ := Volume.mem_walk.mp member
  have isThere {below : Path} (above : ∃ key, (wantedBy manifest.files key).isSome ∧ below <+: key) :
      ∃ node, full.node? (.host host) below = some node := by
    obtain ⟨key, isKey, isPrefix⟩ := above
    cases isWanted : wantedBy manifest.files below with
    | some digest =>
      obtain ⟨ino, _, isFile⟩ := put.linked below digest isWanted
      exact ⟨_, isFile⟩
    | none => exact ⟨_, put.above below key isWanted isKey isPrefix⟩
  by_cases onWay : ∃ key, (wantedBy manifest.files key).isSome ∧ path <+: key
  · obtain ⟨key, isKey, isPrefix⟩ := onWay
    cases node with
    | file ino =>
      by_contra unnamed
      have isWanted : wantedBy manifest.files path = none := by
        by_contra isSome
        exact unnamed (wantedBy_isSome.mp (Option.isSome_iff_ne_none.mpr isSome))
      rw [put.above path key isWanted isKey isPrefix] at isNode
      cases isNode
    | directory =>
      have proper : path ≠ key := by
        rintro rfl
        obtain ⟨digest, isDigest⟩ := Option.isSome_iff_exists.mp isKey
        obtain ⟨ino, _, isFile⟩ := put.linked path digest isDigest
        rw [isFile] at isNode
        cases isNode
      obtain ⟨rest, rfl⟩ := isPrefix
      cases rest with
      | nil => exact absurd (List.append_nil path).symm proper
      | cons name rest =>
        have isChild : path ++ [name] <+: path ++ name :: rest := ⟨rest, by simp⟩
        obtain ⟨child, isSome⟩ := isThere ⟨_, isKey, isChild⟩
        exact Volume.hasEntries_iff.mpr ⟨name, child, isSome⟩
  · have apart : ∀ key, (wantedBy manifest.files key).isSome → ¬ path <+: key :=
      fun key isKey isPrefix => onWay ⟨key, isKey, isPrefix⟩
    rw [put.kept path named apart] at isNode
    cases node with
    | file ino => exact assembled.named path ino isNode
    | directory =>
      obtain ⟨name, child, isChild⟩ :=
        Volume.hasEntries_iff.mp (assembled.nonempty path named isNode)
      refine Volume.hasEntries_iff.mpr ⟨name, ?_⟩
      by_cases above : ∃ key, (wantedBy manifest.files key).isSome ∧ path ++ [name] <+: key
      · exact isThere above
      · refine ⟨child, ?_⟩
        rw [put.kept _ (by simp) fun key isKey isPrefix => above ⟨key, isKey, isPrefix⟩]
        exact isChild

theorem StoppedRecording.sameServed
    (stopped : StoppedRecording dumps relay full trimmed after host manifest)
    (assembled : AsAssembled dumps relay host manifest) : SameServed relay after host := by
  have unpruned : trimmed = full := stopped.prunedTo.idle (stopped.put.kept_all assembled)
  refine ⟨stopped.put.same_served assembled.inPlace (fun path => ?_) stopped.bytes fun path ino isFile =>
    .inl (wantedBy_isSome.mpr (assembled.named path ino isFile)), ?_⟩
  · rw [stopped.nodes, unpruned]
  · obtain ⟨ino, isSlot, isText⟩ := assembled.manifest
    have isBytes := stopped.bytes ino (Volume.slot?_lt isSlot)
    rw [manifestText, manifestText, stopped.sameSlot ino isSlot, isSlot, Option.map_some,
      Option.map_some, isBytes, isText]

theorem StoppedRecording.asAssembled
    (stopped : StoppedRecording dumps relay full trimmed after host manifest)
    (same : SameServed relay after host) : AsAssembled dumps relay host manifest := by
  have put := stopped.put
  have file (path : Path) (ino : Nat) : after.node? (.host host) path = some (.file ino) ↔
      full.node? (.host host) path = some (.file ino) ∧ path ∈ manifest.files.map Entry.path := by
    rw [stopped.nodes]
    exact stopped.prunedTo.pruned.file path ino
  have inPlace : InPlace (textsWritten dumps relay host manifest) relay (.host host)
      manifest.files := by
    refine put.inPlace (fun path isHere => ?_) stopped.bytes same.tree
    rcases isHere with isWanted | rfl
    · obtain ⟨digest, isDigest⟩ := Option.isSome_iff_exists.mp isWanted
      obtain ⟨ino, _, isFile⟩ := put.linked path digest isDigest
      rw [isFile, file path ino]
      exact ⟨isFile, wantedBy_isSome.mp isWanted⟩
    · rw [stopped.nodes, stopped.prunedTo.top]
  refine ⟨inPlace, fun path ino isFile => ?_, fun path named isDirectory => ?_, ?_⟩
  · have isServed := (same.tree path).trans (served_file isFile)
    obtain ⟨other, isOther, _⟩ := file_of_served isServed
    exact ((file path other).mp isOther).2
  · by_contra empty
    have notPrefix : ∀ key, (wantedBy manifest.files key).isSome → ¬ path <+: key := by
      rintro key isKey ⟨rest, rfl⟩
      obtain ⟨digest, isDigest⟩ := Option.isSome_iff_exists.mp isKey
      obtain ⟨ino, isBlob, _⟩ := put.linked _ digest isDigest
      obtain ⟨other, isFile, _⟩ := file_of_served (inPlace.linked _ digest ino isDigest isBlob)
      cases rest with
      | nil =>
        rw [List.append_nil, isDirectory] at isFile
        cases isFile
      | cons name rest =>
        refine empty (Volume.hasEntries_iff.mpr ⟨name, ?_⟩)
        cases rest with
        | nil => exact ⟨_, isFile⟩
        | cons next rest =>
          have isChild : path ++ [name] <+: path ++ name :: next :: rest := ⟨next :: rest, by simp⟩
          exact ⟨_, Volume.directory_of_prefix isChild (by simp) isFile⟩
    have isEmpty : EmptyBelow full (.host host) path := by
      refine ⟨named, by rw [put.kept path named notPrefix, isDirectory], ?_⟩
      by_contra entries
      obtain ⟨name, child, isChild⟩ := Volume.hasEntries_iff.mp (by simpa using entries)
      rw [put.kept _ (by simp) fun key isKey isPrefix =>
        notPrefix key isKey ((List.prefix_append path [name]).trans isPrefix)] at isChild
      exact empty (Volume.hasEntries_iff.mpr ⟨name, child, isChild⟩)
    have isServed := (same.tree path).trans (served_directory isDirectory)
    have gone := stopped.prunedTo.empties path isEmpty
    rw [← stopped.nodes] at gone
    rw [directory_of_served isServed] at gone
    cases gone
  · have isText := same.manifest
    obtain ⟨ino, isSlot⟩ := Option.isSome_iff_exists.mp stopped.slot
    rw [manifestText, isSlot, Option.map_some] at isText
    obtain ⟨old, isOld, isBytes⟩ := Option.map_eq_some_iff.mp isText.symm
    obtain rfl := Option.some.inj (isSlot.symm.trans (stopped.sameSlot old isOld))
    exact ⟨ino, isOld, isBytes.trans (stopped.bytes ino (Volume.slot?_lt isOld))⟩

/-- A failed assemble leaves what is served as it was when, and only when, all that it
did before it stopped had been done already. -/
theorem failureChangesNothing_iff (dumps : Manifest → Bytes) (relay : Relay) (host : String)
    (manifest : Manifest) :
    FailureChangesNothing dumps relay host manifest ↔
      StopsWhereDone dumps relay host manifest := by
  have linkable_front {short long : Nat} (isShort : short ≤ long)
      (linkable : Linkable relay (.host host) (manifest.files.take long)) :
      Linkable relay (.host host) (manifest.files.take short) :=
    linkable.ofPrefix (List.take_prefix_take_left isShort)
  have assembles : Meets .reliable (cmdAssemble dumps host manifest) relay _ _ := cmdAssemble_meets
  rcases (assembles.and cmdAssemble_stops).run with
    ⟨result, isDone, ⟨payloadHash, isHash, assemblable, _⟩, _⟩ | ⟨message, isRaised, fails, stopped⟩
  · have linkable : Linkable relay (.host host) manifest.files :=
      ⟨assemblable.placeable, assemblable.allHeld, assemblable.prefixFree⟩
    refine ⟨fun _ => ⟨fun _ _ _ stops => ?_, fun _ unrecordable => ?_⟩, fun _ _ _ isRun => ?_⟩
    · exact absurd (linkable.ofPrefix (List.take_prefix _ _)) stops
    · exact absurd ⟨payloadHash, isHash, assemblable.recordable⟩ unrecordable
    · rw [isRun] at isDone
      cases isDone
  have unrecordable (linkable : Linkable relay (.host host) manifest.files) :
      ¬ SnapshotRecordable relay manifest := fun ⟨payloadHash, isHash, recordable⟩ =>
    fails ⟨payloadHash, isHash, linkable.placeable, linkable.allHeld, linkable.prefixFree, recordable⟩
  have only (done : StopsWhereDone dumps relay host manifest) :
      FailureChangesNothing dumps relay host manifest := by
    intro other after isRun
    rw [isRun] at stopped
    rcases stopped with linking | ⟨full, trimmed, recording⟩
    · exact linking.sameServed done
    · exact recording.sameServed (done.recording recording.linkable (unrecordable recording.linkable))
  refine ⟨fun keeps => ?_, only⟩
  have same := keeps message _ (Prod.ext isRaised rfl)
  rcases stopped with ⟨count, isShort, linkable, stops, put⟩ | ⟨full, trimmed, recording⟩
  · refine ⟨fun other isOther otherLinkable otherStops => ?_, fun linkable => ?_⟩
    · rcases Nat.lt_trichotomy other count with before | rfl | behind
      · exact absurd (linkable_front before linkable) otherStops
      · refine put.inPlace (fun _ _ => rfl) (fun ino _ => ?_) same.tree
        rw [put.files.inodes]
      · exact absurd (linkable_front behind otherLinkable) stops
    · exact absurd (linkable.ofPrefix (List.take_prefix _ _)) stops
  · exact ⟨fun count _ _ stops => absurd (recording.linkable.ofPrefix (List.take_prefix _ _)) stops,
      fun _ _ => recording.asAssembled same⟩

end Stopping

/-- A payload with another file `tools`, and a file whose blob is not held. -/
def incompletePayload : Manifest :=
  ⟨some "d473", [⟨["tools"], 1, "fcde", tools_named⟩, ⟨["setup.exe"], 1, "4e07", by decide⟩]⟩

/-- Assembling it over the payload before it fails, and `tools` is the new one. -/
theorem incompletePayload_mixes :
    ¬ FailureChangesNothing (fun _ => []) afterFlat "mast01" incompletePayload := by
  intro keeps
  have fails : ((cmdAssemble (fun _ => []) "mast01" incompletePayload).run afterFlat).1 =
      .raised "assemble: blobstore is missing 4e07" := by decide +kernel
  let ended := (cmdAssemble (fun _ => []) "mast01" incompletePayload).run afterFlat
  have same := (keeps _ ended.2 (Prod.ext fails rfl)).tree ["tools"]
  have before : served afterFlat (.host "mast01") ["tools"] = some (some [1]) := by decide +kernel
  have after : served ended.2 (.host "mast01") ["tools"] = some (some [2]) := by decide +kernel
  rw [before, after] at same
  cases same

end MastProvisioning.Blobstore
