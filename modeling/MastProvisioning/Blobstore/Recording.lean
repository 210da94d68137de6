import MastProvisioning.Blobstore.Trees

/-!
# Pruning a tree and recording a snapshot

`pruneTo` keeps exactly the wanted files. `snapshot` succeeds exactly when the tree
under its id holds what the manifest wants, or when there is no such tree and the
manifest can be linked; an empty manifest cannot, because nothing is there to rename.
-/

namespace MastProvisioning.Blobstore

open MastProvisioning.Semantics MastProvisioning.Semantics.Command
open MastProvisioning.Collections MastProvisioning.Storage

variable {relay after : Relay} {tree : Tree}

section Pruning

variable {wanted : List Path}

/-- Of the files of a tree exactly the wanted ones are left. -/
structure Pruned (relay after : Relay) (tree : Tree) (wanted : List Path) : Prop where
  file : ∀ path ino, after.node? tree path = some (.file ino) ↔
    relay.node? tree path = some (.file ino) ∧ path ∈ wanted
  others : ∀ other path, other ≠ tree → after.node? other path = relay.node? other path
  files : SameFiles relay after

/-- The files of the entries still to be pruned are there, and of the others
exactly the wanted ones. -/
structure Pruning (relay : Relay) (tree : Tree) (wanted : List Path) (rest : List (Path × Node))
    (after : Relay) : Prop where
  file : ∀ path ino, after.node? tree path = some (.file ino) ↔
    relay.node? tree path = some (.file ino) ∧ (path ∈ wanted ∨ (path, .file ino) ∈ rest)
  ahead : ∀ entry ∈ rest, after.node? tree entry.1 = some entry.2
  others : ∀ other path, other ≠ tree → after.node? other path = relay.node? other path
  files : SameFiles relay after

theorem Pruning.initially : Pruning relay tree wanted (relay.walk tree) relay where
  file path ino := by
    refine ⟨fun isFile => ⟨isFile, .inr (Volume.mem_walk.mpr ⟨?_, isFile⟩)⟩, And.left⟩
    rintro rfl
    have isDirectory := Volume.root_directory isFile
    cases isDirectory
  ahead entry member := (Volume.mem_walk.mp member).2
  others _ _ _ := rfl
  files := .refl

/-- An entry that is kept. -/
theorem Pruning.keep {entry : Path × Node} {rest : List (Path × Node)}
    (pruning : Pruning relay tree wanted (entry :: rest) after)
    (kept : entry.1 ∈ wanted ∨ entry.2 = .directory) : Pruning relay tree wanted rest after where
  file path ino := by
    rw [pruning.file, List.mem_cons]
    constructor
    · rintro ⟨isFile, isWanted | rfl | later⟩
      · exact ⟨isFile, .inl isWanted⟩
      · exact ⟨isFile, .inl (kept.resolve_right (by simp))⟩
      · exact ⟨isFile, .inr later⟩
    · rintro ⟨isFile, isWanted | later⟩
      · exact ⟨isFile, .inl isWanted⟩
      · exact ⟨isFile, .inr (.inr later)⟩
  ahead other member := pruning.ahead other (List.mem_cons_of_mem _ member)
  others := pruning.others
  files := pruning.files

/-- An entry that is removed. -/
theorem Pruning.remove {entry : Path × Node} {rest : List (Path × Node)} {next : Relay}
    (pruning : Pruning relay tree wanted (entry :: rest) after)
    (suffix : (entry :: rest) <:+ relay.walk tree)
    (dropped : entry.1 ∉ wanted ∨ entry.2 = .directory)
    (change : Volume.NodeChange after next tree entry.1 none) :
    Pruning relay tree wanted rest next := by
  have nodup := Volume.walk_nodup.sublist (suffix.sublist.map Prod.fst)
  have once : entry.1 ∉ rest.map Prod.fst := (List.nodup_cons.mp nodup).1
  have inTree : ∀ path node, (path, node) ∈ entry :: rest → relay.node? tree path = some node :=
    fun path node member => (Volume.mem_walk.mp (suffix.subset member)).2
  refine ⟨?_, ?_, ?_, pruning.files.trans change.sameFiles⟩
  · intro path ino
    rw [change.node]
    by_cases here : path = entry.1
    · rw [if_pos ⟨rfl, here⟩]
      refine ⟨fun impossible => (by cases impossible), ?_⟩
      rintro ⟨isFile, isWanted | later⟩
      · rcases dropped with notWanted | isDirectory
        · exact absurd (here ▸ isWanted) notWanted
        · have there := inTree entry.1 entry.2 List.mem_cons_self
          rw [← here, isFile, isDirectory] at there
          cases there
      · exact absurd (here ▸ List.mem_map_of_mem later) once
    · rw [if_neg fun same => here same.2, pruning.file, List.mem_cons]
      have other : (path, Node.file ino) ≠ entry := fun same => here (congrArg Prod.fst same)
      simp [other]
  · intro other member
    have different : other.1 ≠ entry.1 := fun same => once (same ▸ List.mem_map_of_mem member)
    rw [change.node, if_neg fun same => different same.2]
    exact pruning.ahead other (List.mem_cons_of_mem _ member)
  · intro other path different
    rw [change.node, if_neg fun same => different same.1]
    exact pruning.others other path different

theorem pruneEntry_meets {entry : Path × Node} {rest : List (Path × Node)}
    (pruning : Pruning relay tree wanted (entry :: rest) after)
    (suffix : (entry :: rest) <:+ relay.walk tree) :
    Meets .reliable (pruneEntry tree wanted entry) after
      (fun _ => Pruning relay tree wanted rest) fun _ => False := by
  have here := pruning.ahead entry List.mem_cons_self
  unfold pruneEntry
  split
  · rename_i ino isFile
    rw [isFile] at here
    refine .ite (fun isWanted => .pure (pruning.keep (.inl isWanted))) fun notWanted => ?_
    refine .change ?_ ?_ (by simp)
    · intro next done
      exact pruning.remove suffix (.inl notWanted) (Volume.unlink_change done).2
    · intro fails
      obtain ⟨next, done⟩ := Volume.unlink_isSome here
      rw [fails] at done
      cases done
  · rename_i isDirectory
    rw [isDirectory] at here
    refine .query_bind (whenever_meets ?_ fun _ => pruning.keep (.inr isDirectory)) (by simp)
    intro empty
    refine .change ?_ ?_ (by simp)
    · intro next done
      exact pruning.remove suffix (.inr isDirectory) (Volume.rmdir_change done).2.2
    · intro fails
      obtain ⟨next, done⟩ := Volume.rmdir_isSome here (by simpa using empty)
      rw [fails] at done
      cases done

/-- Pruning a tree keeps exactly its wanted files, and does not fail. -/
theorem pruneTo_meets : Meets .reliable (pruneTo tree wanted) relay
    (fun _ after => Pruned relay after tree wanted) fun _ => False := by
  refine .query_bind ?_ (by simp)
  have pruned : Meets .reliable (forEach (relay.walk tree) (pruneEntry tree wanted)) relay
      (fun _ => Pruning relay tree wanted []) fun _ => False :=
    .forEach Pruning.initially fun entry rest after suffix pruning => pruneEntry_meets pruning suffix
  refine pruned.bind fun _ after pruning => .pure ⟨?_, pruning.others, pruning.files⟩
  simpa using pruning.file

/-- A tree into which the files of a manifest were put and that was then pruned to
them holds exactly these. -/
theorem Placed.matches_pruned {middle : Relay} {files : List Entry}
    (placed : Placed relay middle tree (wantedBy files))
    (pruned : Pruned middle after tree (files.map Entry.path)) :
    Matches after tree (wantedBy files) where
  linked path digest isWanted := by
    obtain ⟨ino, isBlob, isFile⟩ := placed.linked path digest isWanted
    refine ⟨ino, ?_, ?_⟩
    · rw [pruned.files.slot, placed.files.slot]
      exact isBlob
    · exact (pruned.file path ino).mpr ⟨isFile, wantedBy_isSome.mp (by simp [isWanted])⟩
  only path ino isFile := wantedBy_isSome.mpr ((pruned.file path ino).mp isFile).2

end Pruning

section Texts

variable {slot : Slot} {text : Bytes}

/-- The text of one file has been replaced. -/
structure TextWritten (relay after : Relay) (slot : Slot) : Prop where
  node : ∀ tree path, after.node? tree path = relay.node? tree path
  inodes : ∀ ino, ino < relay.fresh → relay.slot? slot ≠ some ino →
    after.inodes ino = relay.inodes ino
  slot : ∀ other, other ≠ slot → after.slot? other = relay.slot? other

theorem writeText_meets : Meets .reliable (writeText slot text) relay
    (fun _ after => TextWritten relay after slot) fun _ => False := by
  have opened : Meets .reliable (change "open" fun relay => some (relay.openWrite slot)) relay
      (fun _ after => TextWritten relay after slot ∧ ∃ ino, after.slot? slot = some ino ∧
        (ino < relay.fresh → relay.slot? slot = some ino)) fun _ => False := by
    refine .change ?_ (by simp) (by simp)
    rintro after ⟨⟩
    cases isThere : relay.slot? slot with
    | some ino =>
      rw [Volume.openWrite_of_some isThere]
      have change : Volume.ContentChange relay (relay.setContent ino ⟨[], relay.clock⟩) ino :=
        Volume.setContent_change
      refine ⟨⟨change.node, ?_, fun other _ => change.slot other⟩, ino, ?_, fun _ => rfl⟩
      · intro other _ different
        exact change.inodes other fun same => different (by rw [same, isThere])
      · rw [change.slot, isThere]
    | none =>
      rw [Volume.openWrite_of_none isThere]
      have change : Volume.SlotChange relay (relay.replaceSlot slot ⟨[], relay.clock⟩) slot _ :=
        (Volume.replaceSlot_change _).1
      refine ⟨⟨change.node, fun other earlier _ => change.inodes other earlier, ?_⟩, relay.fresh, ?_, ?_⟩
      · intro other different
        rw [change.slot, if_neg different]
      · rw [change.slot, if_pos rfl]
      · exact fun impossible => absurd impossible (Nat.lt_irrefl _)
  refine opened.bind ?_
  rintro ⟨⟩ middle ⟨opened, ino, isOpen, same⟩
  refine .change ?_ ?_ (by simp)
  · intro after done
    rw [isOpen, Option.map_some] at done
    obtain rfl := Option.some.inj done
    have change : Volume.ContentChange middle (middle.write ino 0 text) ino :=
      Volume.setContent_change
    refine ⟨fun tree path => (change.node tree path).trans (opened.node tree path), ?_, ?_⟩
    · intro other earlier different
      have apart : other ≠ ino := by
        rintro rfl
        exact different (same earlier)
      exact (change.inodes other apart).trans (opened.inodes other earlier different)
    · exact fun other different => (change.slot other).trans (opened.slot other different)
  · simp [isOpen]

theorem TextWritten.blob (written : TextWritten relay after slot)
    (notBlob : ∀ digest, slot ≠ .blob digest) (digest : String) :
    after.slot? (.blob digest) = relay.slot? (.blob digest) :=
  written.slot _ fun same => notBlob digest same.symm

end Texts

section Snapshots

variable {kind : SnapshotKind} {snapshotId : String} {files : List Entry} {dumps : Manifest → Bytes}
  {manifest : Manifest}

theorem mem_presentFiles {path : Path} :
    path ∈ presentFiles relay tree ↔ ∃ ino, relay.node? tree path = some (.file ino) := by
  unfold presentFiles
  rw [List.mem_filterMap]
  constructor
  · rintro ⟨⟨other, node⟩, member, isPath⟩
    cases node with
    | directory => cases isPath
    | file ino =>
      obtain rfl : other = path := by simpa using isPath
      exact ⟨ino, (Volume.mem_walk.mp member).2⟩
  · rintro ⟨ino, isFile⟩
    have named : path ≠ [] := by
      rintro rfl
      have isDirectory := Volume.root_directory isFile
      cases isDirectory
    exact ⟨(path, .file ino), Volume.mem_walk.mpr ⟨named, isFile⟩, rfl⟩

/-- `treeMatches` decides whether a tree holds exactly what a manifest wants. -/
theorem treeMatches_iff :
    treeMatches relay tree (pathDigests files) = true ↔ Matches relay tree (wantedBy files) := by
  have keys : ∀ path, path ∈ (pathDigests files).map Prod.fst ↔ (wantedBy files path).isSome := by
    intro path
    rw [List.mem_map, Option.isSome_iff_exists]
    constructor
    · rintro ⟨entry, member, rfl⟩
      exact ⟨entry.2, wantedBy_eq_some.mpr member⟩
    · rintro ⟨digest, isWanted⟩
      exact ⟨_, wantedBy_eq_some.mp isWanted, rfl⟩
  unfold treeMatches
  simp only [Bool.and_eq_true, List.all_eq_true, decide_eq_true_eq, keys, mem_presentFiles]
  constructor
  · rintro ⟨⟨only, -⟩, linked⟩
    refine ⟨?_, fun path ino isFile => only path ⟨ino, isFile⟩⟩
    intro path digest isWanted
    have same := linked (path, digest) (wantedBy_eq_some.mp isWanted)
    split at same
    · rename_i ino isBlob
      exact ⟨ino, isBlob, by simpa using same⟩
    · cases same
  · intro same
    refine ⟨⟨fun path found => found.elim fun ino => same.only path ino, ?_⟩, ?_⟩
    · intro path isWanted
      obtain ⟨digest, isDigest⟩ := Option.isSome_iff_exists.mp isWanted
      obtain ⟨ino, -, isFile⟩ := same.linked path digest isDigest
      exact ⟨ino, isFile⟩
    · intro entry member
      obtain ⟨ino, isBlob, isFile⟩ := same.linked entry.1 entry.2 (wantedBy_eq_some.mpr member)
      simp [isBlob, isFile]

/-- A snapshot has been recorded. -/
structure Recorded (relay after : Relay) (kind : SnapshotKind) (snapshotId : String) (wanted : Wanted) :
    Prop where
  same : Matches after (.snapshot kind snapshotId) wanted
  root : after.node? (.snapshot kind snapshotId) [] = some .directory
  building : ∀ path, after.node? (.building kind snapshotId) path = none
  kept : ∀ other path, other ≠ .snapshot kind snapshotId → other ≠ .building kind snapshotId →
    after.node? other path = relay.node? other path
  slot : ∀ slot, slot ≠ .record kind snapshotId → after.slot? slot = relay.slot? slot

/-- When a snapshot can be recorded. -/
structure Recordable (relay : Relay) (kind : SnapshotKind) (snapshotId : String) (files : List Entry) :
    Prop where
  existing : (relay.node? (.snapshot kind snapshotId) []).isSome →
    Matches relay (.snapshot kind snapshotId) (wantedBy files)
  created : relay.node? (.snapshot kind snapshotId) [] = none →
    files ≠ [] ∧ Held relay (wantedBy files) ∧ PrefixFree (wantedBy files)

theorem pathDigests_eq_nil : pathDigests files = [] ↔ files = [] := by
  constructor
  · intro isNil
    by_contra nonempty
    obtain ⟨entry, member⟩ := List.exists_mem_of_ne_nil files nonempty
    have isWanted : (wantedBy files entry.path).isSome :=
      wantedBy_isSome.mpr (List.mem_map_of_mem member)
    unfold wantedBy at isWanted
    rw [isNil] at isWanted
    cases isWanted
  · rintro rfl
    rfl

/-- Of what was being built under an id, nothing is left. -/
theorem clearBuilding_meets : Meets .reliable
    (whenever (relay.node? (.building kind snapshotId) []).isSome (removeTree false (.building kind snapshotId)))
    relay (fun _ after => TreeGone relay after (.building kind snapshotId)) fun _ => False := by
  refine whenever_meets ?_ ?_
  · intro isThere
    refine removeTree_meets.mono (fun _ _ gone => gone) ?_
    rintro _ ⟨-, none⟩
    rw [none] at isThere
    cases isThere
  · intro notThere
    refine ⟨?_, .refl⟩
    intro other path
    split
    · rename_i same
      exact same ▸ Volume.node?_of_no_root (by simpa using notThere) path
    · rfl

/-- Recording a snapshot under an id that has none. -/
theorem recording_meets (absent : relay.node? (.snapshot kind snapshotId) [] = none) :
    Meets .reliable
      (do
        whenever (relay.node? (.building kind snapshotId) []).isSome
          (removeTree false (.building kind snapshotId))
        onException
          (forEach (pathDigests manifest.files) (linkWanted (.building kind snapshotId)))
          (removeTree true (.building kind snapshotId))
        writeText (.record kind snapshotId) (dumps manifest)
        change "rename" fun relay =>
          relay.moveTree (.building kind snapshotId) (.snapshot kind snapshotId)
        pure SnapshotState.created)
      relay
      (fun state after => Recordable relay kind snapshotId manifest.files ∧ state = .created ∧
        Recorded relay after kind snapshotId (wantedBy manifest.files))
      fun _ => ¬ Recordable relay kind snapshotId manifest.files := by
  have different : Tree.snapshot kind snapshotId ≠ .building kind snapshotId := by simp
  refine (clearBuilding_meets.mono (fun _ _ gone => gone) (fun _ => False.elim)).bind ?_
  rintro ⟨⟩ cleared gone
  have nothing : ∀ path, cleared.node? (.building kind snapshotId) path = none := by
    intro path
    rw [gone.node, if_pos rfl]
  have built : Meets .reliable
      (onException
        (forEach (pathDigests manifest.files) (linkWanted (.building kind snapshotId)))
        (removeTree true (.building kind snapshotId)))
      cleared
      (fun _ after => Placed cleared after (.building kind snapshotId) (wantedBy manifest.files))
      fun _ => ¬ (Held cleared (wantedBy manifest.files) ∧ PrefixFree (wantedBy manifest.files)) := by
    refine (linkAll_meets nothing).onException ?_ (by simp)
    intro _ fails
    exact removeTree_meets.mono (fun _ _ _ => fails) fun _ _ => fails
  refine (built.mono (fun _ _ placed => placed) ?_).bind ?_
  · intro _ fails recordable
    obtain ⟨-, held, prefixFree⟩ := recordable.created absent
    refine fails ⟨?_, prefixFree⟩
    intro path digest isWanted
    rw [gone.files.slot]
    exact held path digest isWanted
  rintro ⟨⟩ middle placed
  refine (writeText_meets.mono (fun _ _ written => written) (fun _ => False.elim)).bind ?_
  rintro ⟨⟩ recorded written
  have held : ∀ slot, slot ≠ .record kind snapshotId → recorded.slot? slot = relay.slot? slot := by
    intro slot other
    rw [written.slot slot other, placed.files.slot, gone.files.slot]
  have final : recorded.node? (.snapshot kind snapshotId) [] = none := by
    rw [written.node, placed.others _ _ different, gone.node, if_neg different]
    exact absent
  have building : recorded.node? (.building kind snapshotId) [] = some .directory ↔
      manifest.files ≠ [] := by
    rw [written.node]
    constructor
    · rintro isThere isNil
      rw [placed.kept [] fun key isKey _ => ?_, nothing] at isThere
      · cases isThere
      · rw [isNil] at isKey
        cases isKey
    · intro nonempty
      obtain ⟨entry, member⟩ := List.exists_mem_of_ne_nil _ nonempty
      exact placed.above [] entry.path wantedBy_root
        (wantedBy_isSome.mpr (List.mem_map_of_mem member)) List.nil_prefix
  have renamed : Meets .reliable
      (change "rename" fun relay : Relay =>
        relay.moveTree (.building kind snapshotId) (.snapshot kind snapshotId)) recorded
      (fun _ after => manifest.files ≠ [] ∧
        Recorded relay after kind snapshotId (wantedBy manifest.files))
      fun _ => ¬ Recordable relay kind snapshotId manifest.files := by
    refine .change ?_ ?_ (by simp)
    · intro after done
      obtain ⟨isThere, -, moved⟩ := Volume.moveTree_change done
      refine ⟨building.mp isThere, ?_⟩
      have same : Matches recorded (.building kind snapshotId) (wantedBy manifest.files) :=
        (placed.matches nothing).congr (fun _ digest _ => written.blob (by simp) digest) (written.node _)
      refine ⟨?_, ?_, ?_, ?_, ?_⟩
      · refine same.congr (fun _ _ _ => moved.slot _) fun path => ?_
        rw [moved.node, if_pos rfl]
      · rw [moved.node, if_pos rfl]
        exact isThere
      · intro path
        rw [moved.node, if_neg different.symm, if_pos rfl]
      · intro other path notFinal notBuilding
        rw [moved.node, if_neg notFinal, if_neg notBuilding, written.node,
          placed.others _ _ notBuilding, gone.node, if_neg notBuilding]
      · intro slot other
        rw [moved.slot, held slot other]
    · intro fails recordable
      have nonempty := (recordable.created absent).1
      obtain ⟨after, done⟩ := Volume.moveTree_isSome (building.mpr nonempty) final
      rw [fails] at done
      cases done
  refine renamed.bind ?_
  rintro ⟨⟩ after ⟨nonempty, isRecorded⟩
  refine .pure ⟨⟨?_, ?_⟩, rfl, isRecorded⟩
  · intro isThere
    rw [absent] at isThere
    cases isThere
  · refine fun _ => ⟨nonempty, ?_, isRecorded.same.prefixFree⟩
    intro path digest isWanted
    obtain ⟨ino, isBlob, -⟩ := isRecorded.same.linked path digest isWanted
    rw [← isRecorded.slot _ (by simp), isBlob]
    rfl

/-- `snapshot` succeeds exactly when the snapshot can be recorded; an existing one
is left as it is. -/
theorem snapshot_meets : Meets .reliable (snapshot dumps kind snapshotId manifest) relay
    (fun state after => Recordable relay kind snapshotId manifest.files ∧
      (state = .existing ∧ after = relay ∧ (relay.node? (.snapshot kind snapshotId) []).isSome ∧
          Matches relay (.snapshot kind snapshotId) (wantedBy manifest.files) ∨
        state = .created ∧ relay.node? (.snapshot kind snapshotId) [] = none ∧
          Recorded relay after kind snapshotId (wantedBy manifest.files)))
    fun _ => ¬ Recordable relay kind snapshotId manifest.files := by
  refine .query_bind (.ite ?_ ?_) (by simp)
  · intro isThere
    have exists_ : relay.node? (.snapshot kind snapshotId) [] ≠ none :=
      Option.isSome_iff_ne_none.mp isThere
    refine .query_bind (.require_bind ?_ ?_) (by simp)
    · intro same
      have isSame := treeMatches_iff.mp same
      exact .pure ⟨⟨fun _ => isSame, fun absent => absurd absent exists_⟩, .inl ⟨rfl, rfl, isThere, isSame⟩⟩
    · intro differs recordable
      rw [treeMatches_iff.mpr (recordable.existing isThere)] at differs
      cases differs
  · intro notThere
    have absent : relay.node? (.snapshot kind snapshotId) [] = none := by simpa using notThere
    refine .query_bind (recording_meets absent |>.mono ?_ fun _ fails => fails) (by simp)
    rintro state after ⟨recordable, created, recorded⟩
    exact ⟨recordable, .inr ⟨created, absent, recorded⟩⟩

end Snapshots

section Strictness

variable {dumps : Manifest → Bytes}

theorem whenever_strict {condition : Bool} {command : Command Relay Unit} (strict : Strict command) :
    Strict (whenever condition command) := by
  unfold whenever
  split
  · exact strict
  · exact .done ()

theorem linkWanted_strict (entry : Path × String) : Strict (linkWanted tree entry) :=
  .bind (.query _) fun _ => .bind (.require _ _) fun _ => .bind makeDirs_strict fun _ => .change _ _

theorem linkEntry_strict (entry : Entry) : Strict (linkEntry tree entry) :=
  .bind (.query _) fun _ => .bind (.require _ _) fun _ => .bind makeDirs_strict fun _ =>
    .bind (.query _) fun _ => .ite (.pure ()) (.bind (whenever_strict (.change _ _)) fun _ => .change _ _)

theorem pruneTo_strict (wanted : List Path) : Strict (pruneTo tree wanted) := by
  refine .bind (.query _) fun _ => .bind (.forEach fun entry => ?_) fun _ => .pure _
  unfold pruneEntry
  split
  · exact .ite (.pure ()) (.change _ _)
  · exact .bind (.query _) fun _ => whenever_strict (.change _ _)

theorem writeText_strict (slot : Slot) (text : Bytes) : Strict (writeText slot text) :=
  .bind (.change _ _) fun _ => .change _ _

/-- A snapshot that is reported to be recorded was recorded without interruption. -/
theorem snapshot_strict (kind : SnapshotKind) (snapshotId : String) (manifest : Manifest) :
    Strict (snapshot dumps kind snapshotId manifest) := by
  refine .bind (.query _) fun _ => .ite ?_ ?_
  · exact .bind (.query _) fun _ => .bind (.require _ _) fun _ => .pure _
  · exact .bind (.query _) fun _ => .bind (whenever_strict removeTree_strict) fun _ =>
      .bind (.onException _ (.forEach fun entry => linkWanted_strict entry)) fun _ =>
      .bind (writeText_strict _ _) fun _ => .bind (.change _ _) fun _ => .pure _

theorem cmdAssemble_strict (host : String) (manifest : Manifest) :
    Strict (cmdAssemble dumps host manifest) := by
  refine .bind makeDirs_strict fun _ => .bind (.forEach fun entry => linkEntry_strict entry) fun _ =>
    .bind (pruneTo_strict _) fun _ => .bind (writeText_strict _ _) fun _ => ?_
  split
  · exact .exit _
  · exact .bind (snapshot_strict _ _ _) fun _ => .pure _

end Strictness

end MastProvisioning.Blobstore
