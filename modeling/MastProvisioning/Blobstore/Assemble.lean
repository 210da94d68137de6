import MastProvisioning.Blobstore.Recording

/-!
# Assembling the payload of a host

`cmdAssemble` links the manifest's files over whatever tree is there and prunes
afterwards. It fails where an earlier payload has a directory at a path of the
manifest or a file on the way to one: what is in the way is not removed first.
-/

namespace MastProvisioning.Blobstore

open MastProvisioning.Semantics MastProvisioning.Semantics.Command
open MastProvisioning.Collections MastProvisioning.Storage

variable {relay after : Relay} {host : String} {dumps : Manifest → Bytes} {manifest : Manifest}

/-- No path of a manifest is a directory of another. -/
def Manifest.WellFormed (manifest : Manifest) : Prop :=
  ∀ entry ∈ manifest.files, ∀ other ∈ manifest.files, entry.path <+: other.path →
    entry.path = other.path

theorem Manifest.wellFormed_iff :
    manifest.WellFormed ↔ PrefixFree (wantedBy manifest.files) := by
  unfold Manifest.WellFormed PrefixFree
  simp only [wantedBy_isSome, List.mem_map]
  constructor
  · rintro wellFormed path other ⟨entry, isEntry, rfl⟩ ⟨another, isAnother, rfl⟩
    exact wellFormed entry isEntry another isAnother
  · intro prefixFree entry isEntry other isOther
    exact prefixFree _ _ ⟨entry, isEntry, rfl⟩ ⟨other, isOther, rfl⟩

/-- The files that go into the snapshot of a payload. -/
abbrev Manifest.payload (manifest : Manifest) : List Entry := (snapshotManifest manifest).files

theorem mem_payload {entry : Entry} :
    entry ∈ manifest.payload ↔ entry ∈ manifest.files ∧ entry.path ≠ BUILD_MANIFEST := by
  simp [Manifest.payload, snapshotManifest]

theorem Manifest.WellFormed.payload (wellFormed : manifest.WellFormed) :
    PrefixFree (wantedBy manifest.payload) :=
  wellFormed_iff.mp fun entry isEntry other isOther =>
    wellFormed entry (mem_payload.mp isEntry).1 other (mem_payload.mp isOther).1

theorem AllHeld.payload (allHeld : AllHeld relay manifest.files) :
    AllHeld relay manifest.payload :=
  fun entry member => allHeld entry (mem_payload.mp member).1

/-- When a payload can be assembled. -/
structure Assemblable (relay : Relay) (host : String) (manifest : Manifest) (payloadHash : String) :
    Prop where
  placeable : Placeable relay (.host host) manifest.files
  allHeld : AllHeld relay manifest.files
  prefixFree : PrefixFree (wantedBy manifest.files)
  recordable : Recordable relay .provisioningPayload payloadHash manifest.payload

/-- A payload has been assembled. -/
structure AssembledTo (relay after : Relay) (host : String) (manifest : Manifest)
    (payloadHash : String) : Prop where
  same : Matches after (.host host) (wantedBy manifest.files)
  snapshot : Matches after (.snapshot .provisioningPayload payloadHash) (wantedBy manifest.payload)
  root : (after.node? (.snapshot .provisioningPayload payloadHash) []).isSome
  existing : (relay.node? (.snapshot .provisioningPayload payloadHash) []).isSome → ∀ path,
    after.node? (.snapshot .provisioningPayload payloadHash) path =
      relay.node? (.snapshot .provisioningPayload payloadHash) path
  kept : ∀ tree path, tree ≠ .host host → tree ≠ .snapshot .provisioningPayload payloadHash →
    tree ≠ .building .provisioningPayload payloadHash → after.node? tree path = relay.node? tree path
  slot : ∀ slot, slot ≠ .hostManifest host → slot ≠ .record .provisioningPayload payloadHash →
    after.slot? slot = relay.slot? slot

/-- Whether a snapshot can be recorded depends on its tree and on the blobs. -/
theorem Recordable.congr {kind : SnapshotKind} {snapshotId : String} {files : List Entry}
    (recordable : Recordable relay kind snapshotId files)
    (blobs : ∀ digest, after.slot? (.blob digest) = relay.slot? (.blob digest))
    (nodes : ∀ path, after.node? (.snapshot kind snapshotId) path =
      relay.node? (.snapshot kind snapshotId) path) : Recordable after kind snapshotId files where
  existing isThere := by
    rw [nodes] at isThere
    exact (recordable.existing isThere).congr (fun _ digest _ => blobs digest) nodes
  created absent := by
    rw [nodes] at absent
    obtain ⟨nonempty, held, prefixFree⟩ := recordable.created absent
    refine ⟨nonempty, ?_, prefixFree⟩
    intro path digest isWanted
    rw [blobs]
    exact held path digest isWanted

/-- The root of a host's tree is there. -/
structure Rooted (relay after : Relay) (tree : Tree) : Prop where
  kept : ∀ other path, (other = tree → path ≠ []) → after.node? other path = relay.node? other path
  files : SameFiles relay after

theorem makeRoot_meets {tree : Tree} : Meets .reliable (makeDirs tree []) relay
    (fun _ after => Rooted relay after tree) fun _ => False := by
  refine makeDirs_meets.mono ?_ ?_
  · rintro _ after ⟨-, made⟩
    refine ⟨fun other path named => made.kept other path fun same part isPrefix => ?_, made.files⟩
    rw [List.prefix_nil.mp isPrefix]
    simpa using named same
  · rintro _ ⟨part, ino, isPrefix, isFile⟩
    rw [List.prefix_nil.mp isPrefix] at isFile
    have isDirectory := Volume.root_directory isFile
    cases isDirectory

theorem Rooted.open_iff {tree : Tree} {path : Path} (rooted : Rooted relay after tree)
    (named : path ≠ []) : Open after tree path ↔ Open relay tree path := by
  have notFile : ∀ (volume : Relay) ino, volume.node? tree [] ≠ some (.file ino) := by
    intro volume ino isFile
    have isDirectory := Volume.root_directory isFile
    cases isDirectory
  have same : ∀ part ino, after.node? tree part = some (.file ino) ↔
      relay.node? tree part = some (.file ino) := by
    intro part ino
    by_cases isRoot : part = []
    · simp [isRoot, notFile]
    · rw [rooted.kept tree part fun _ => isRoot]
  constructor
  · intro isOpen
    refine ⟨?_, ?_⟩
    · rw [← rooted.kept tree path fun _ => named]
      exact isOpen.notDirectory
    · exact fun above ino isPrefix different isFile =>
        isOpen.clear above ino isPrefix different ((same above ino).mpr isFile)
  · intro isOpen
    refine ⟨?_, ?_⟩
    · rw [rooted.kept tree path fun _ => named]
      exact isOpen.notDirectory
    · exact fun above ino isPrefix different isFile =>
        isOpen.clear above ino isPrefix different ((same above ino).mp isFile)

theorem Rooted.placeable_iff {tree : Tree} {files : List Entry} (rooted : Rooted relay after tree) :
    Placeable after tree files ↔ Placeable relay tree files :=
  forall₂_congr fun entry _ => rooted.open_iff entry.named

/-- A payload that is being assembled, up to its snapshot: the tree of the host holds
it and its manifest has been written. -/
structure HostAssembled (relay after : Relay) (host : String) (manifest : Manifest) : Prop where
  same : Matches after (.host host) (wantedBy manifest.files)
  kept : ∀ tree path, tree ≠ .host host → after.node? tree path = relay.node? tree path
  slot : ∀ slot, slot ≠ .hostManifest host → after.slot? slot = relay.slot? slot

theorem assembleHost_meets {next : Nat → Command Relay Assembled}
    {finished : Assembled → Relay → Prop} {failed : Prop}
    (onFail : ¬ (Placeable relay (.host host) manifest.files ∧ AllHeld relay manifest.files ∧
      PrefixFree (wantedBy manifest.files)) → failed)
    (onDone : ∀ removed middle, Placeable relay (.host host) manifest.files →
      AllHeld relay manifest.files → HostAssembled relay middle host manifest →
      Meets .reliable (next removed) middle finished fun _ => failed) :
    Meets .reliable
      (do
        makeDirs (.host host) []
        forEach manifest.files (linkEntry (.host host))
        let removed ← pruneTo (.host host) (manifest.files.map Entry.path)
        writeText (.hostManifest host) (dumps manifest)
        next removed)
      relay finished fun _ => failed := by
  refine (makeRoot_meets.mono (fun _ _ rooted => rooted) (fun _ => False.elim)).bind ?_
  rintro ⟨⟩ root rooted
  have linked : Meets .reliable (forEach manifest.files (linkEntry (.host host))) root
      (fun _ after => Placeable root (.host host) manifest.files ∧ AllHeld root manifest.files ∧
        Placed root after (.host host) (wantedBy manifest.files)) fun _ => failed := by
    refine linkEntries_meets.mono (fun _ _ placed => placed) fun _ fails => onFail ?_
    rintro ⟨placeable, allHeld, prefixFree⟩
    refine fails ⟨rooted.placeable_iff.mpr placeable, fun entry member => ?_, prefixFree⟩
    rw [rooted.files.slot]
    exact allHeld entry member
  refine linked.bind ?_
  rintro ⟨⟩ full ⟨placeable, allHeld, placed⟩
  refine (pruneTo_meets.mono (fun _ _ pruned => pruned) (fun _ => False.elim)).bind ?_
  intro removed trimmed pruned
  refine (writeText_meets.mono (fun _ _ written => written) (fun _ => False.elim)).bind ?_
  rintro ⟨⟩ middle written
  refine onDone removed middle (rooted.placeable_iff.mp placeable) ?_ ⟨?_, ?_, ?_⟩
  · intro entry member
    rw [← rooted.files.slot]
    exact allHeld entry member
  · exact (placed.matches_pruned pruned).congr (fun _ digest _ => written.blob (by simp) digest)
      (written.node _)
  · intro tree path different
    rw [written.node, pruned.others tree path different, placed.others tree path different,
      rooted.kept tree path fun same => absurd same different]
  · intro slot different
    rw [written.slot slot different, pruned.files.slot, placed.files.slot, rooted.files.slot]

/-- Assembling succeeds exactly when the payload can be assembled. -/
theorem cmdAssemble_meets : Meets .reliable (cmdAssemble dumps host manifest) relay
    (fun _ after => ∃ payloadHash, manifest.payloadHash = some payloadHash ∧
      Assemblable relay host manifest payloadHash ∧
      AssembledTo relay after host manifest payloadHash)
    fun _ => ¬ ∃ payloadHash, manifest.payloadHash = some payloadHash ∧
      Assemblable relay host manifest payloadHash := by
  refine assembleHost_meets ?_ ?_
  · rintro fails ⟨payloadHash, -, assemblable⟩
    exact fails ⟨assemblable.placeable, assemblable.allHeld, assemblable.prefixFree⟩
  intro removed middle placeable allHeld assembled
  have blobs : ∀ digest, middle.slot? (.blob digest) = relay.slot? (.blob digest) :=
    fun digest => assembled.slot _ (by simp)
  cases hasHash : manifest.payloadHash with
  | none =>
    refine .exit ?_
    rintro ⟨payloadHash, isHash, -⟩
    cases isHash
  | some payloadHash =>
    have snapshotNodes : ∀ path, middle.node? (.snapshot .provisioningPayload payloadHash) path =
        relay.node? (.snapshot .provisioningPayload payloadHash) path :=
      fun path => assembled.kept _ path (by simp)
    refine (snapshot_meets.mono (fun _ _ recorded => recorded) ?_).bind ?_
    · rintro after fails ⟨_, ⟨⟩, assemblable⟩
      exact fails (assemblable.recordable.congr blobs snapshotNodes)
    · rintro state after ⟨recordable, recorded⟩
      have recordableFirst := recordable.congr (fun digest => (blobs digest).symm)
        fun path => (snapshotNodes path).symm
      refine .pure ⟨payloadHash, rfl, ⟨placeable, allHeld, assembled.same.prefixFree, recordableFirst⟩, ?_⟩
      rcases recorded with ⟨-, rfl, isThere, same⟩ | ⟨-, absent, recorded⟩
      · refine ⟨assembled.same, same, isThere, fun _ => snapshotNodes, ?_, ?_⟩
        · exact fun tree path notHost _ _ => assembled.kept tree path notHost
        · exact fun slot notManifest _ => assembled.slot slot notManifest
      · refine ⟨?_, recorded.same, by simp [recorded.root], ?_, ?_, ?_⟩
        · exact assembled.same.congr (fun _ _ _ => recorded.slot _ (by simp))
            fun path => recorded.kept _ path (by simp) (by simp)
        · intro isThere
          rw [← snapshotNodes, absent] at isThere
          cases isThere
        · intro tree path notHost notFinal notBuilding
          rw [recorded.kept tree path notFinal notBuilding, assembled.kept tree path notHost]
        · intro slot notManifest notRecord
          rw [recorded.slot slot notRecord, assembled.slot slot notManifest]

/-- There is a snapshot of the payload already and it matches, or there is none and
the payload has a file besides the build manifest. -/
def SnapshotReady (relay : Relay) (manifest : Manifest) : Prop :=
  ∃ payloadHash, manifest.payloadHash = some payloadHash ∧
    if (relay.node? (.snapshot .provisioningPayload payloadHash) []).isSome then
      treeMatches relay (.snapshot .provisioningPayload payloadHash)
        (pathDigests manifest.payload) = true
    else manifest.payload ≠ []

/-- Assembling a payload succeeds, and the host's tree then holds exactly its files. -/
def AssemblesExactly (dumps : Manifest → Bytes) (relay : Relay) (host : String)
    (manifest : Manifest) : Prop :=
  ∃ result after, (cmdAssemble dumps host manifest).run relay = (.done result, after) ∧
    Matches after (.host host) (wantedBy manifest.files)

theorem recordable_iff {payloadHash : String} (wellFormed : manifest.WellFormed)
    (allHeld : AllHeld relay manifest.files) :
    Recordable relay .provisioningPayload payloadHash manifest.payload ↔
      if (relay.node? (.snapshot .provisioningPayload payloadHash) []).isSome then
        treeMatches relay (.snapshot .provisioningPayload payloadHash)
          (pathDigests manifest.payload) = true
      else manifest.payload ≠ [] := by
  constructor
  · intro recordable
    split
    · exact treeMatches_iff.mpr (recordable.existing ‹_›)
    · rename_i notThere
      exact (recordable.created (by simpa using notThere)).1
  · intro ready
    refine ⟨fun isThere => ?_, fun absent => ⟨?_, allHeld.payload.held, wellFormed.payload⟩⟩
    · rw [if_pos isThere] at ready
      exact treeMatches_iff.mp ready
    · rwa [absent, if_neg (by simp)] at ready

/-- A well-formed payload whose blobs are held is assembled exactly when none of its
paths is a directory in the host's tree, none of its directories is a file there, and
its snapshot can be recorded. -/
theorem assemblesExactly_iff (dumps : Manifest → Bytes) (relay : Relay) (host : String)
    (manifest : Manifest) (wellFormed : manifest.WellFormed)
    (allHeld : AllHeld relay manifest.files) :
    AssemblesExactly dumps relay host manifest ↔
      Placeable relay (.host host) manifest.files ∧ SnapshotReady relay manifest := by
  have ran : Meets .reliable (cmdAssemble dumps host manifest) relay _ _ := cmdAssemble_meets
  constructor
  · rintro ⟨result, after, isRun, -⟩
    rcases ran.run with ⟨_, -, payloadHash, isHash, assemblable, -⟩ | ⟨_, raised, -⟩
    · exact ⟨assemblable.placeable, payloadHash, isHash,
        (recordable_iff wellFormed allHeld).mp assemblable.recordable⟩
    · rw [isRun] at raised
      cases raised
  · rintro ⟨placeable, payloadHash, isHash, ready⟩
    have assemblable : Assemblable relay host manifest payloadHash :=
      ⟨placeable, allHeld, Manifest.wellFormed_iff.mp wellFormed,
        (recordable_iff wellFormed allHeld).mpr ready⟩
    rcases ran.run with ⟨result, isDone, _, -, -, assembled⟩ | ⟨_, -, fails⟩
    · exact ⟨result, _, Prod.ext isDone rfl, assembled.same⟩
    · exact absurd ⟨payloadHash, isHash, assemblable⟩ fails

section Samples

/-- A store that holds two blobs, and no trees. -/
def twoBlobs : Relay :=
  (Volume.empty.replaceSlot (.blob "2c26") ⟨[1], 0⟩).replaceSlot (.blob "fcde") ⟨[2], 0⟩

theorem tools_named : ["tools"] ≠ [] := List.cons_ne_nil _ _

/-- A payload with a file `tools`. -/
def flatPayload : Manifest := ⟨some "5feb", [⟨["tools"], 1, "2c26", tools_named⟩]⟩

/-- Its successor, in which `tools` is a directory. -/
def nestedPayload : Manifest := ⟨some "6b86", [⟨["tools", "setup.exe"], 1, "fcde", by decide⟩]⟩

/-- The relay after a host was given the first payload. -/
def afterFlat : Relay := ((cmdAssemble (fun _ => []) "mast01" flatPayload).run twoBlobs).2

theorem assemblesExactly_iff_first : AssemblesExactly (fun _ => []) twoBlobs "mast01" flatPayload := by
  refine (assemblesExactly_iff _ _ _ _ ?_ ?_).mpr ⟨?_, "5feb", rfl, ?_⟩
  · intro entry isEntry other isOther _
    rw [List.mem_singleton.mp isEntry, List.mem_singleton.mp isOther]
  · intro entry member
    rw [List.mem_singleton.mp member]
    rfl
  · intro entry _
    have nothing : ∀ path, twoBlobs.node? (.host "mast01") path = none := fun _ => rfl
    exact ⟨by simp [nothing], by simp [nothing]⟩
  · rw [if_neg (by decide +kernel)]
    exact List.ne_nil_of_mem (mem_payload.mpr ⟨List.mem_singleton_self _, by decide⟩)

/-- A path that was a file cannot become a directory. -/
theorem directory_over_file :
    ((cmdAssemble (fun _ => []) "mast01" flatPayload).run twoBlobs).1 = .done ⟨1, 1, 0, .created⟩ ∧
      nestedPayload.WellFormed ∧ AllHeld afterFlat nestedPayload.files ∧
      ¬ AssemblesExactly (fun _ => []) afterFlat "mast01" nestedPayload := by
  refine ⟨by decide +kernel, ?_, ?_, ?_⟩
  · intro entry isEntry other isOther _
    rw [List.mem_singleton.mp isEntry, List.mem_singleton.mp isOther]
  · intro entry member
    rw [List.mem_singleton.mp member]
    decide +kernel
  · rintro ⟨result, after, isRun, -⟩
    have raised : ((cmdAssemble (fun _ => []) "mast01" nestedPayload).run afterFlat).1 =
        .raised "not a directory" := by decide +kernel
    rw [isRun] at raised
    cases raised

end Samples

end MastProvisioning.Blobstore
