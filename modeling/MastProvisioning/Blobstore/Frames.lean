import MastProvisioning.Blobstore.Recording

/-!
# What the blobstore's commands leave alone

Every change that recording a snapshot or assembling a payload makes is a step on a
tree it works on (`TreeStep`), a step on a text it writes (`TextStep`), or the rename
of a tree that was built. What all of these keep, the command keeps, wherever it is
cut off. `TreesKept` is such a property: the trees a command does not work on.
-/

namespace MastProvisioning.Blobstore

open MastProvisioning.Semantics MastProvisioning.Semantics.Command
open MastProvisioning.Collections MastProvisioning.Storage

/-- Whether a slot is for a text that the blobstore writes. -/
def Slot.holdsText : Slot → Bool
  | .hostManifest _ | .record _ _ => true
  | .blob _ | .outside _ => false

/-- One change to a tree: something is removed, or a directory is made, or a blob is
linked to a path. -/
def TreeStep (tree : Tree) (relay after : Relay) : Prop :=
  ∃ path value, Volume.NodeChange relay after tree path value ∧
    ∀ ino, value = some (.file ino) → ∃ digest, relay.slot? (.blob digest) = some ino

/-- One change to a text: a new file takes its slot, or its file gets other contents. -/
def TextStep (slot : Slot) (relay after : Relay) : Prop :=
  Volume.SlotChange relay after slot (some relay.fresh) ∨
    ∃ ino, relay.slot? slot = some ino ∧ Volume.ContentChange relay after ino

section Steps

variable {mode : Mode} {dumps : Manifest → Bytes} {Inv : Relay → Prop} {tree : Tree}

section Trees

variable (steps : ∀ relay after, Inv relay → TreeStep tree relay after → Inv after)
include steps

theorem mkdir_keeps (relay : Relay) (path : Path) (after : Relay) (holds : Inv relay)
    (done : relay.mkdir tree path = some after) : Inv after :=
  steps relay after holds ⟨path, _, (Volume.mkdir_change done).2, by simp⟩

theorem unlink_keeps (relay : Relay) (path : Path) (after : Relay) (holds : Inv relay)
    (done : relay.unlink tree path = some after) : Inv after :=
  steps relay after holds ⟨path, _, (Volume.unlink_change done).2, by simp⟩

theorem rmdir_keeps (relay : Relay) (path : Path) (after : Relay) (holds : Inv relay)
    (done : relay.rmdir tree path = some after) : Inv after :=
  steps relay after holds ⟨path, _, (Volume.rmdir_change done).2.2, by simp⟩

theorem link_keeps {digest : String} {path : Path} (relay after : Relay) (holds : Inv relay)
    (done : relay.link (.blob digest) tree path = some after) : Inv after := by
  obtain ⟨-, -, ino, isBlob, change⟩ := Volume.link_change done
  refine steps relay after holds ⟨path, _, change, fun other same => ⟨digest, ?_⟩⟩
  rw [isBlob, ← Node.file.inj (Option.some.inj same)]

theorem makeDirs_keeps (path : Path) : Preserves mode Inv (makeDirs tree path) :=
  makeDirs_preserves (mkdir_keeps steps)

theorem removeTree_keeps (tolerant : Bool) : Preserves mode Inv (removeTree tolerant tree) :=
  removeTree_preserves (unlink_keeps steps) (rmdir_keeps steps)

theorem linkWanted_keeps (entry : Path × String) : Preserves mode Inv (linkWanted tree entry) :=
  .bind (.query _) fun _ => .bind (.require _ _) fun _ => .bind (makeDirs_keeps steps _) fun _ =>
    .change (link_keeps steps)

theorem linkEntry_keeps (entry : Entry) : Preserves mode Inv (linkEntry tree entry) := by
  refine .bind (.query _) fun _ => .bind (.require _ _) fun _ =>
    .bind (makeDirs_keeps steps _) fun _ => ?_
  refine .bind (.query _) fun _ => .ite (.pure _) (.bind (whenever_preserves (.change ?_)) fun _ => ?_)
  · exact fun relay after => unlink_keeps steps relay _ after
  · exact .change (link_keeps steps)

theorem pruneTo_keeps (wanted : List Path) : Preserves mode Inv (pruneTo tree wanted) := by
  refine .bind (.query _) fun _ => .bind (.forEach fun entry _ => ?_) fun _ => .pure _
  unfold pruneEntry
  split
  · exact .ite (.pure _) (.change fun relay => unlink_keeps steps relay _)
  · exact .bind (.query _) fun _ => whenever_preserves (.change fun relay => rmdir_keeps steps relay _)

end Trees

theorem writeText_keeps {slot : Slot} (text : Bytes)
    (steps : ∀ relay after, Inv relay → TextStep slot relay after → Inv after) :
    Preserves mode Inv (writeText slot text) := by
  refine .bind (.change ?_) fun _ => .change ?_
  · rintro relay after holds ⟨⟩
    refine steps relay _ holds ?_
    cases isThere : relay.slot? slot with
    | some ino =>
      rw [Volume.openWrite_of_some isThere]
      exact .inr ⟨ino, isThere, Volume.setContent_change⟩
    | none =>
      rw [Volume.openWrite_of_none isThere]
      exact .inl (Volume.replaceSlot_change _).1
  · intro relay after holds done
    obtain ⟨ino, isThere, rfl⟩ := Option.map_eq_some_iff.mp done
    exact steps relay _ holds (.inr ⟨ino, isThere, Volume.setContent_change⟩)

/-- What the steps of recording a snapshot keep, recording it keeps. -/
theorem snapshot_keeps {kind : SnapshotKind} {snapshotId : String} (manifest : Manifest)
    (trees : ∀ relay after, Inv relay → TreeStep (.building kind snapshotId) relay after → Inv after)
    (texts : ∀ relay after, Inv relay → TextStep (.record kind snapshotId) relay after → Inv after)
    (renames : ∀ relay after, Inv relay → relay.node? (.snapshot kind snapshotId) [] = none →
      Volume.TreeMoved relay after (.building kind snapshotId) (.snapshot kind snapshotId) →
      Inv after) :
    Preserves mode Inv (snapshot dumps kind snapshotId manifest) := by
  refine .bind (.query _) fun _ => .ite ?_ ?_
  · exact .bind (.query _) fun _ => .bind (.require _ _) fun _ => .pure _
  · refine .bind (.query _) fun _ =>
      .bind (whenever_preserves (removeTree_keeps trees _)) fun _ => ?_
    refine .bind (.onException (.forEach fun entry _ => linkWanted_keeps trees entry)
      (removeTree_keeps trees _)) fun _ => ?_
    refine .bind (writeText_keeps _ texts) fun _ => .bind (.change ?_) fun _ => .pure _
    intro relay after holds done
    obtain ⟨-, free, moved⟩ := Volume.moveTree_change done
    exact renames relay after holds free moved

/-- What the steps of assembling a payload keep, assembling it keeps. -/
theorem cmdAssemble_keeps {host : String} (manifest : Manifest)
    (hostTrees : ∀ relay after, Inv relay → TreeStep (.host host) relay after → Inv after)
    (hostTexts : ∀ relay after, Inv relay → TextStep (.hostManifest host) relay after → Inv after)
    (recording : ∀ payloadHash, manifest.payloadHash = some payloadHash → Preserves mode Inv
      (snapshot dumps .provisioningPayload payloadHash (snapshotManifest manifest))) :
    Preserves mode Inv (cmdAssemble dumps host manifest) := by
  refine .bind (makeDirs_keeps hostTrees _) fun _ =>
    .bind (.forEach fun entry _ => linkEntry_keeps hostTrees entry) fun _ =>
    .bind (pruneTo_keeps hostTrees _) fun _ => .bind (writeText_keeps _ hostTexts) fun _ => ?_
  split
  · exact .exit _
  · exact .bind (recording _ ‹_›) fun _ => .pure _

end Steps

section Keeping

variable {relay after next : Relay} {mode : Mode} {dumps : Manifest → Bytes}
  {kept : Tree → Prop}

/-- Some trees are as they were, and so are the names of the blobs. -/
structure TreesKept (kept : Tree → Prop) (relay after : Relay) : Prop where
  node : ∀ tree path, kept tree → after.node? tree path = relay.node? tree path
  blob : ∀ digest, after.slot? (.blob digest) = relay.slot? (.blob digest)

namespace TreesKept

theorem refl : TreesKept kept relay relay := ⟨fun _ _ _ => rfl, fun _ => rfl⟩

theorem treeStep {tree : Tree} (notKept : ¬ kept tree) (same : TreesKept kept relay after)
    (step : TreeStep tree after next) : TreesKept kept relay next := by
  obtain ⟨path, value, change, -⟩ := step
  refine ⟨fun other below isKept => ?_, fun digest => (change.slot _).trans (same.blob digest)⟩
  have different : ¬ (other = tree ∧ below = path) := by
    rintro ⟨rfl, -⟩
    exact notKept isKept
  rw [change.node, if_neg different]
  exact same.node other below isKept

theorem textStep {slot : Slot} (notBlob : ∀ digest, slot ≠ .blob digest)
    (same : TreesKept kept relay after) (step : TextStep slot after next) :
    TreesKept kept relay next := by
  rcases step with change | ⟨ino, -, change⟩
  · refine ⟨fun tree path isKept => (change.node tree path).trans (same.node tree path isKept),
      fun digest => ?_⟩
    rw [change.slot, if_neg fun isBlob => notBlob digest isBlob.symm]
    exact same.blob digest
  · exact ⟨fun tree path isKept => (change.node tree path).trans (same.node tree path isKept),
      fun digest => (change.slot _).trans (same.blob digest)⟩

/-- A tree that is being built takes the name of another. -/
theorem renamed {source target : Tree} (notSource : ¬ kept source) (notTarget : ¬ kept target)
    (same : TreesKept kept relay after) (moved : Volume.TreeMoved after next source target) :
    TreesKept kept relay next where
  node tree path isKept := by
    have isNeither : tree ≠ target ∧ tree ≠ source :=
      ⟨fun isTarget => notTarget (isTarget ▸ isKept), fun isSource => notSource (isSource ▸ isKept)⟩
    rw [moved.node, if_neg isNeither.1, if_neg isNeither.2]
    exact same.node tree path isKept
  blob digest := (moved.slot _).trans (same.blob digest)

end TreesKept

/-- Recording a snapshot keeps the trees that were there, but for the one it builds. -/
theorem snapshot_keepsTrees {kind : SnapshotKind} {snapshotId : String}
    (notBuilding : ¬ kept (.building kind snapshotId))
    (isThere : kept (.snapshot kind snapshotId) → relay.node? (.snapshot kind snapshotId) [] ≠ none)
    (manifest : Manifest) :
    Preserves mode (TreesKept kept relay) (snapshot dumps kind snapshotId manifest) := by
  refine snapshot_keeps manifest (fun _ _ => TreesKept.treeStep notBuilding)
    (fun _ _ => TreesKept.textStep (by simp)) ?_
  intro volume after same free moved
  refine same.renamed notBuilding (fun isKept => ?_) moved
  exact isThere isKept ((same.node _ [] isKept).symm.trans free)

/-- Assembling keeps the trees that were there, but for the host's and the one it
builds. -/
theorem cmdAssemble_keepsTrees {host : String} (notHost : ¬ kept (.host host))
    (notBuilding : ∀ kind snapshotId, ¬ kept (.building kind snapshotId))
    {manifest : Manifest} (isThere : ∀ payloadHash, manifest.payloadHash = some payloadHash →
      kept (.snapshot .provisioningPayload payloadHash) →
      relay.node? (.snapshot .provisioningPayload payloadHash) [] ≠ none) :
    Preserves mode (TreesKept kept relay) (cmdAssemble dumps host manifest) :=
  cmdAssemble_keeps manifest (fun _ _ => TreesKept.treeStep notHost)
    (fun _ _ => TreesKept.textStep (by simp))
    fun payloadHash isHash => snapshot_keepsTrees (notBuilding _ _) (isThere payloadHash isHash) _

end Keeping

end MastProvisioning.Blobstore
