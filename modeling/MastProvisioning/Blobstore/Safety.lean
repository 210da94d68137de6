import MastProvisioning.Semantics.System
import MastProvisioning.Blobstore.Contents
import MastProvisioning.Blobstore.References

/-!
# Blob references under one client at a time

The commands of the blobstore as steps of a system: a client asks what is missing,
uploads it and assembles or snapshots, and a gc may come in between. After every
command the files of the trees are links of held blobs, a gc removes exactly the
blobs nothing is linked to, and what reports success has linked its whole manifest.
-/

namespace MastProvisioning.Blobstore

open MastProvisioning.Semantics MastProvisioning.Semantics.Command
open MastProvisioning.Collections MastProvisioning.Storage

/-- A file of a tree or of a directory that was seeded is linked to an inode. -/
def Referenced (relay : Relay) (ino : Nat) : Prop :=
  (∃ tree path, relay.node? tree path = some (.file ino)) ∨ LinkedOutside relay ino

section Collecting

variable {relay after : Relay} {digest : String} {ino : Nat} {dryRun : Bool}

/-- The link count of a blob says whether anything is linked to it. -/
theorem Linked.nlink_eq_one (linked : Linked relay) (isBlob : relay.slot? (.blob digest) = some ino) :
    relay.nlink ino = 1 ↔ ¬ Referenced relay ino := by
  rw [Volume.nlink_eq_one isBlob]
  constructor
  · rintro ⟨alone, unlinked⟩ (⟨tree, path, isFile⟩ | ⟨path, isOutside⟩)
    · exact unlinked tree path isFile
    · cases alone _ isOutside
  · intro unreferenced
    refine ⟨fun other isOther => ?_, fun tree path isFile => unreferenced (.inl ⟨tree, path, isFile⟩)⟩
    cases other with
    | blob other =>
      rcases linked.alone digest other ino isBlob isOther with rfl | outside
      · rfl
      · exact absurd (.inr outside) unreferenced
    | hostManifest host => exact absurd isBlob ((linked.texts _ ino rfl isOther).1 digest)
    | record kind snapshotId => exact absurd isBlob ((linked.texts _ ino rfl isOther).1 digest)
    | outside path => exact absurd (.inr ⟨path, isOther⟩) unreferenced

/-- A blob that a gc removes. -/
def Collectable (relay : Relay) (dryRun : Bool) (digest : String) : Prop :=
  dryRun = false ∧ ∀ ino, relay.slot? (.blob digest) = some ino → ¬ Referenced relay ino

/-- A gc has been through some of the blobs. -/
structure Sweeping (relay : Relay) (dryRun : Bool) (swept : String → Prop) (after : Relay) :
    Prop where
  node : ∀ tree path, after.node? tree path = relay.node? tree path
  slot : ∀ slot, (∀ digest, slot ≠ .blob digest) → after.slot? slot = relay.slot? slot
  removed : ∀ digest, swept digest → Collectable relay dryRun digest →
    after.slot? (.blob digest) = none
  kept : ∀ digest, ¬ (swept digest ∧ Collectable relay dryRun digest) →
    after.slot? (.blob digest) = relay.slot? (.blob digest)

/-- A gc has been through all blobs. -/
abbrev Swept (relay after : Relay) (dryRun : Bool) : Prop :=
  Sweeping relay dryRun (fun _ => True) after

variable {swept : String → Prop}

theorem Sweeping.referenced (sweeping : Sweeping relay dryRun swept after) :
    Referenced after ino ↔ Referenced relay ino := by
  unfold Referenced
  rw [LinkedOutside.congr fun path => sweeping.slot _ (by simp)]
  simp [sweeping.node]

theorem digest?_eq_some {slot : Slot} : slot.digest? = some digest ↔ slot = .blob digest := by
  cases slot <;> simp [Slot.digest?]

theorem mem_blobDigests : digest ∈ blobDigests relay ↔ (relay.slot? (.blob digest)).isSome := by
  unfold blobDigests
  simp only [List.mem_insertionSort, List.mem_filterMap, digest?_eq_some, Option.isSome_iff_exists]
  constructor
  · rintro ⟨⟨_, ino⟩, member, rfl⟩
    exact ⟨ino, (OrderedDict.get?_eq_some relay.slots_distinct).mpr member⟩
  · rintro ⟨ino, isBlob⟩
    exact ⟨(.blob digest, ino), (OrderedDict.get?_eq_some relay.slots_distinct).mp isBlob, rfl⟩

theorem blobDigests_nodup : (blobDigests relay).Nodup := by
  have names : (relay.slots.filterMap fun entry => entry.1.digest?) =
      (relay.slots.map fun entry => id entry.1).filterMap Slot.digest? := by
    rw [List.filterMap_map]
    rfl
  unfold blobDigests
  rw [(List.perm_insertionSort _ _).nodup_iff, names]
  refine List.Nodup.filterMap ?_ relay.slots_distinct
  intro slot other digest isSlot isOther
  exact (digest?_eq_some.mp isSlot).trans (digest?_eq_some.mp isOther).symm

theorem Sweeping.initially : Sweeping relay dryRun (fun _ => False) relay :=
  ⟨fun _ _ => rfl, fun _ _ => rfl, fun _ impossible => impossible.elim, fun _ _ => rfl⟩

/-- One blob is swept: it is removed if a gc removes it. -/
theorem collectBlob_meets {count : Collected} (linked : Linked after)
    (sweeping : Sweeping relay dryRun swept after) (new : ¬ swept digest)
    (held : (relay.slot? (.blob digest)).isSome) :
    Meets .reliable (collectBlob dryRun count digest) after
      (fun _ next => Linked next ∧ Sweeping relay dryRun (fun d => swept d ∨ d = digest) next)
      fun _ => False := by
  obtain ⟨ino, isBlob⟩ := Option.isSome_iff_exists.mp held
  have here : after.slot? (.blob digest) = some ino :=
    (sweeping.kept digest fun both => new both.1).trans isBlob
  have links := (linked.nlink_eq_one here).trans (not_congr sweeping.referenced)
  -- A blob that stays is one that a gc does not remove.
  have stays : ¬ Collectable relay dryRun digest →
      Sweeping relay dryRun (fun d => swept d ∨ d = digest) after := by
    intro notCollectable
    refine ⟨sweeping.node, sweeping.slot, ?_, ?_⟩
    · rintro other (before | rfl) collectable
      · exact sweeping.removed other before collectable
      · exact absurd collectable notCollectable
    · exact fun other keeps => sweeping.kept other fun both => keeps ⟨.inl both.1, both.2⟩
  refine .query_bind ?_ (by simp)
  rw [here]
  refine .query_bind (.ite ?_ ?_) (by simp)
  · intro one
    have unreferenced := links.mp one
    have removing : Meets .reliable
        (whenever (!dryRun) (change "unlink" fun relay => relay.unlinkSlot (.blob digest))) after
        (fun _ next => Linked next ∧ Sweeping relay dryRun (fun d => swept d ∨ d = digest) next)
        fun _ => False := by
      refine whenever_meets ?_ ?_
      · intro wet
        have notDry : dryRun = false := by simpa using wet
        have collectable : Collectable relay dryRun digest := by
          refine ⟨notDry, fun other isOther => ?_⟩
          rw [isBlob] at isOther
          exact Option.some.inj isOther ▸ unreferenced
        refine .change ?_ ?_ (by simp)
        · intro next done
          have change := Volume.unlinkSlot_change done
          refine ⟨linked.dropped ?_ change, ?_, ?_, ?_, ?_⟩
          · intro other isOther tree path isFile
            rw [here] at isOther
            obtain rfl := Option.some.inj isOther
            exact unreferenced (sweeping.referenced.mp (.inl ⟨tree, path, isFile⟩))
          · exact fun tree path => (change.node tree path).trans (sweeping.node tree path)
          · intro slot notBlob
            rw [change.slot, if_neg (notBlob digest)]
            exact sweeping.slot slot notBlob
          · rintro other isSwept isCollectable
            rw [change.slot]
            split
            · rfl
            · rename_i different
              refine sweeping.removed other (isSwept.resolve_right fun same => ?_) isCollectable
              exact different (same ▸ rfl)
          · intro other keeps
            have different : other ≠ digest := by
              rintro rfl
              exact keeps ⟨.inr rfl, collectable⟩
            rw [change.slot, if_neg fun same => different (Slot.blob.inj same)]
            exact sweeping.kept other fun both => keeps ⟨.inl both.1, both.2⟩
        · intro fails
          unfold Volume.unlinkSlot at fails
          rw [if_neg (by simp [here])] at fails
          cases fails
      · intro dry
        have isDry : dryRun = true := by simpa using dry
        refine ⟨linked, stays fun collectable => ?_⟩
        rw [isDry] at collectable
        cases collectable.1
    exact removing.bind fun _ _ swept => .pure swept
  · intro several
    refine .pure ⟨linked, stays fun collectable => several (links.mpr (collectable.2 ino isBlob))⟩

/-- A gc removes exactly the blobs to which nothing is linked. -/
theorem cmdGc_meets (linked : Linked relay) : Meets .reliable (cmdGc dryRun) relay
    (fun _ after => Linked after ∧ Swept relay after dryRun) fun _ => False := by
  refine .query_bind ?_ (by simp)
  let sweepingTo : List String → Collected → Relay → Prop := fun rest _ after =>
    ∃ before, blobDigests relay = before ++ rest ∧ Linked after ∧
      Sweeping relay dryRun (fun digest => digest ∈ before) after
  have initially : sweepingTo (blobDigests relay) ⟨0, 0⟩ relay := by
    refine ⟨[], rfl, linked, ?_⟩
    simpa using Sweeping.initially
  refine (Meets.foldEach initially ?_).mono ?_ (fun _ => id)
  · rintro count digest rest after - ⟨before, isAll, linked, sweeping⟩
    have nodup : (before ++ digest :: rest).Nodup := isAll ▸ blobDigests_nodup
    have new : digest ∉ before := by
      intro earlier
      exact (List.nodup_append.mp nodup).2.2 digest earlier digest List.mem_cons_self rfl
    have held := mem_blobDigests.mp (isAll ▸ List.mem_append_right before List.mem_cons_self)
    refine (collectBlob_meets linked sweeping new held).mono ?_ (fun _ => id)
    rintro _ next ⟨linked, sweeping⟩
    exact ⟨before ++ [digest], by simp [isAll], linked, by simpa using sweeping⟩
  · rintro _ after ⟨before, isAll, linked, sweeping⟩
    rw [List.append_nil] at isAll
    refine ⟨linked, sweeping.node, sweeping.slot, ?_, ?_⟩
    · rintro digest - collectable
      cases isBlob : relay.slot? (.blob digest) with
      | some ino =>
        exact sweeping.removed digest (isAll ▸ mem_blobDigests.mpr (by simp [isBlob])) collectable
      | none =>
        rw [sweeping.kept digest, isBlob]
        rintro ⟨member, -⟩
        rw [← isAll, mem_blobDigests, isBlob] at member
        cases member
    · exact fun digest keeps => sweeping.kept digest fun both => keeps ⟨trivial, both.2⟩

end Collecting

section Building

variable {relay after : Relay} {mode : Mode} {sha256 : Bytes → String} {dumps : Manifest → Bytes}

/-- No snapshot is being built. -/
def NoBuilding (relay : Relay) : Prop :=
  ∀ kind snapshotId path, relay.node? (.building kind snapshotId) path = none

theorem NoBuilding.congr (none : NoBuilding relay)
    (nodes : ∀ tree path, after.node? tree path = relay.node? tree path) : NoBuilding after :=
  fun kind snapshotId path => (nodes _ path).trans (none kind snapshotId path)

theorem NoBuilding.onlyTree {tree : Tree} (none : NoBuilding relay)
    (only : TreesKept (· ≠ tree) relay after)
    (gone : ∀ path, (∃ kind snapshotId, tree = .building kind snapshotId) →
      after.node? tree path = .none) : NoBuilding after := by
  intro kind snapshotId path
  by_cases same : Tree.building kind snapshotId = tree
  · exact same ▸ gone path ⟨kind, snapshotId, same.symm⟩
  · exact (only.node _ path same).trans (none kind snapshotId path)

/-- A tree that is being built is removed again or becomes the snapshot. -/
theorem snapshot_noBuilding (kind : SnapshotKind) (snapshotId : String) (manifest : Manifest) :
    Preserves .reliable NoBuilding (snapshot dumps kind snapshotId manifest) := by
  intro relay none
  refine .query_bind (.ite ?_ ?_) fun _ => none
  · exact fun _ => .query_bind (.require_bind (fun _ => .pure none) fun _ => none) fun _ => none
  intro notThere
  have absent : relay.node? (.snapshot kind snapshotId) [] = .none := by simpa using notThere
  let only := TreesKept (· ≠ .building kind snapshotId) relay
  refine .query_bind ?_ fun _ => none
  refine (clearBuilding_meets.mono (fun _ _ gone => gone) (fun _ => False.elim)).bind ?_
  rintro ⟨⟩ cleared gone
  have onlyGone : ∀ {middle after}, only middle →
      TreeGone middle after (.building kind snapshotId) → only after := by
    intro middle after same gone
    refine ⟨fun other path different => ?_, fun digest => (gone.files.slot _).trans (same.blob digest)⟩
    rw [gone.node, if_neg different]
    exact same.node other path different
  have onlyCleared : only cleared := onlyGone .refl gone
  have built : Meets .reliable
      (onException
        (forEach (pathDigests manifest.files) (linkWanted (.building kind snapshotId)))
        (removeTree true (.building kind snapshotId)))
      cleared (fun _ after => only after) NoBuilding := by
    have linking : Preserves .reliable only
        (forEach (pathDigests manifest.files) (linkWanted (.building kind snapshotId))) :=
      .forEach fun entry _ => linkWanted_keeps (fun _ _ => TreesKept.treeStep (by simp)) entry
    refine (linking cleared onlyCleared).onException ?_ (by simp)
    intro broken onlyBroken
    have removed : ∀ after, TreeGone broken after (.building kind snapshotId) → NoBuilding after := by
      intro after gone
      refine none.onlyTree (onlyGone onlyBroken gone) fun path _ => ?_
      rw [gone.node, if_pos rfl]
    refine removeTree_meets.mono (fun _ after => removed after) ?_
    rintro _ ⟨impossible, -⟩
    cases impossible
  refine built.bind ?_
  rintro ⟨⟩ middle onlyMiddle
  have writing : Meets .reliable (writeText (.record kind snapshotId) (dumps manifest)) middle
      (fun _ after => only after) NoBuilding :=
    ((writeText_keeps _ (fun _ _ => TreesKept.textStep (by simp)) middle onlyMiddle).and writeText_meets).mono
      (fun _ _ both => both.1) fun _ both => both.2.elim
  refine writing.bind ?_
  rintro ⟨⟩ recorded onlyRecorded
  have renamed : Meets .reliable
      (change "rename" fun relay : Relay =>
        relay.moveTree (.building kind snapshotId) (.snapshot kind snapshotId)) recorded
      (fun _ => NoBuilding) NoBuilding := by
    refine .change ?_ ?_ (by simp)
    · intro after done otherKind other path
      obtain ⟨-, -, moved⟩ := Volume.moveTree_change done
      rw [moved.node, if_neg (by simp)]
      split
      · rfl
      · rename_i different
        exact (onlyRecorded.node _ path different).trans (none otherKind other path)
    · intro fails
      refine none.onlyTree onlyRecorded fun path _ => Volume.node?_of_no_root ?_ path
      by_contra isThere
      obtain ⟨node, found⟩ := Option.ne_none_iff_exists'.mp isThere
      obtain rfl := Volume.root_directory found
      have free := (onlyRecorded.node (.snapshot kind snapshotId) [] (by simp)).trans absent
      obtain ⟨after, done⟩ := Volume.moveTree_isSome found free
      rw [fails] at done
      cases done
  exact renamed.bind fun _ _ none => .pure none

theorem cmdAssemble_noBuilding (host : String) (manifest : Manifest) :
    Preserves .reliable NoBuilding (cmdAssemble dumps host manifest) := by
  intro relay none
  let others : Tree → Prop := (· ≠ .host host)
  let only := TreesKept others relay
  have still : ∀ after, only after → NoBuilding after := fun after onlyHost =>
    none.onlyTree onlyHost fun _ ⟨_, _, impossible⟩ => by cases impossible
  -- Up to the snapshot only the tree of the host changes.
  have keeps : ∀ {Value : Type} {command : Command Relay Value} {middle : Relay},
      Preserves .reliable only command → only middle →
      Meets .reliable command middle (fun _ after => only after) NoBuilding :=
    fun preserves holds => (preserves _ holds).mono (fun _ _ kept => kept) still
  have steps : ∀ volume after, only volume → TreeStep (.host host) volume after → only after :=
    fun _ _ => TreesKept.treeStep fun different => different rfl
  refine (keeps (makeDirs_keeps steps _) .refl).bind fun _ rooted isOnly => ?_
  refine (keeps (.forEach fun entry _ => linkEntry_keeps steps entry) isOnly).bind
    fun _ linked isOnly => ?_
  refine (keeps (pruneTo_keeps steps _) isOnly).bind fun removed pruned isOnly => ?_
  refine (keeps (writeText_keeps _ fun _ _ => TreesKept.textStep (by simp)) isOnly).bind
    fun _ written isOnly => ?_
  split
  · exact .exit (still _ isOnly)
  · exact (snapshot_noBuilding _ _ _ _ (still _ isOnly)).bind fun _ _ kept => .pure kept

end Building

section Uploading

variable {relay after : Relay} {sha256 : Bytes → String} {pending : List String}

/-- The blobs that are to be uploaded are linked to no tree. -/
structure Uploading (pending : List String) (relay : Relay) : Prop where
  linked : Linked relay
  noBuilding : NoBuilding relay
  unlinked : ∀ digest ∈ pending, ∀ ino, relay.slot? (.blob digest) = some ino →
    ∀ tree path, relay.node? tree path ≠ some (.file ino)

theorem Uploading.sent {digest : String} (uploading : Uploading pending relay)
    (isPending : digest ∈ pending) (source : Source) :
    Uploading pending (rsyncFile relay digest source) := by
  rcases rsyncFile_cases relay digest source with same | replaced
  · rw [same]
    exact uploading
  rw [replaced]
  have change : Volume.SlotChange relay
      (relay.replaceSlot (.blob digest) ⟨source.bytes, source.mtime⟩) (.blob digest) _ :=
    (Volume.replaceSlot_change _).1
  refine ⟨uploading.linked.replaced change (by simp) ?_, uploading.noBuilding.congr change.node, ?_⟩
  · rintro other ino ⟨⟩ isBlob
    exact uploading.unlinked digest isPending ino isBlob
  · intro other isOther ino isBlob tree path isFile
    rw [change.node] at isFile
    rw [change.slot] at isBlob
    split at isBlob
    · exact Nat.lt_irrefl _ (Option.some.inj isBlob ▸ Volume.file_lt isFile)
    · exact uploading.unlinked other isOther ino isBlob tree path isFile

theorem rsyncBlobs_uploading {mode : Mode} {blobs : List (String × Source)}
    (arePending : ∀ blob ∈ blobs, blob.1 ∈ pending) :
    Preserves mode (Uploading pending) (rsyncBlobs blobs) := by
  refine .forEach fun blob member => .change ?_
  rintro relay after uploading ⟨⟩
  exact uploading.sent (arePending blob member) blob.2

end Uploading

section Runs

/-- The relay, and what the client was told is missing. -/
structure Session where
  relay : Relay
  pending : List String

variable (sha256 : Bytes → String) (dumps : Manifest → Bytes)

/-- What is left of what the client was told: its upload uses it up, and only a gc
or a repair may come in between. -/
def Order.pendingAfter (session : Session) : Order → List String
  | .want manifest => missingDigests session.relay manifest
  | .gc _ | .repair _ _ => session.pending
  | _ => []

/-- One client at a time, which seeds directories outside and uploads what is missing. -/
def oneClient : System Session Order where
  Initial session := Linked session.relay ∧ session.pending = [] ∧
    ∀ tree path, session.relay.node? tree path = none
  Enabled session order :=
    (∀ blobs, order = .upload blobs → ∀ blob ∈ blobs, blob.1 ∈ session.pending) ∧
      ∀ names, order = .seed names → ∀ name ∈ names, ∃ path, name = .slot (.outside path)
  next session order :=
    ⟨order.relayAfter sha256 dumps session.relay [], order.pendingAfter session⟩

/-- What holds between the commands of a client. -/
structure Session.Safe (session : Session) : Prop where
  linked : Linked session.relay
  noBuilding : NoBuilding session.relay
  missing : ∀ digest ∈ session.pending, session.relay.slot? (.blob digest) = none

variable {sha256 dumps}

theorem Swept.noneHeld {relay after : Relay} {dryRun : Bool} {digest : String}
    (swept : Swept relay after dryRun) (missing : relay.slot? (.blob digest) = none) :
    after.slot? (.blob digest) = none := by
  by_cases collectable : Collectable relay dryRun digest
  · exact swept.removed digest trivial collectable
  · exact (swept.kept digest fun both => collectable both.2).trans missing

theorem cmdGc_run {relay : Relay} (linked : Linked relay) (dryRun : Bool) :
    (∃ counted, ((cmdGc dryRun).run relay).1 = .done counted) ∧
      Linked ((cmdGc dryRun).run relay).2 ∧ Swept relay ((cmdGc dryRun).run relay).2 dryRun := by
  rcases (cmdGc_meets linked).run with ⟨counted, isDone, holds⟩ | ⟨_, _, impossible⟩
  · exact ⟨⟨counted, isDone⟩, holds⟩
  · exact impossible.elim

/-- Every command keeps what holds between commands. -/
theorem Session.Safe.next {session : Session} {order : Order} (safe : session.Safe)
    (enabled : (oneClient sha256 dumps).Enabled session order) :
    ((oneClient sha256 dumps).next session order).Safe := by
  cases order with
  | seed names =>
    have same : Preserves .reliable (NamesKept _ session.relay) (cmdSeed sha256 names) :=
      cmdSeed_names names
    exact ⟨(cmdSeed_linked (enabled.2 names rfl)).run safe.linked,
      safe.noBuilding.congr (same.run .refl).nodes, fun _ impossible => by cases impossible⟩
  | want manifest =>
    exact ⟨safe.linked, safe.noBuilding, fun digest member => (mem_missingDigests.mp member).2⟩
  | upload blobs =>
    have unlinked : Uploading session.pending session.relay := by
      refine ⟨safe.linked, safe.noBuilding, fun digest member ino isBlob => ?_⟩
      rw [safe.missing digest member] at isBlob
      cases isBlob
    have uploaded := (rsyncBlobs_uploading (enabled.1 blobs rfl)).run unlinked
    exact ⟨uploaded.linked, uploaded.noBuilding, fun _ impossible => by cases impossible⟩
  | assemble host manifest =>
    exact ⟨(cmdAssemble_linked host manifest).run safe.linked,
      (cmdAssemble_noBuilding host manifest).run safe.noBuilding, fun _ impossible => by cases impossible⟩
  | snapshot kind snapshotId manifest =>
    exact ⟨(snapshot_linked kind snapshotId manifest).run safe.linked,
      (snapshot_noBuilding kind snapshotId manifest).run safe.noBuilding,
      fun _ impossible => by cases impossible⟩
  | gc dryRun =>
    obtain ⟨-, linked, swept⟩ := cmdGc_run safe.linked dryRun
    exact ⟨linked, safe.noBuilding.congr swept.node, fun digest member =>
      swept.noneHeld (safe.missing digest member)⟩
  | repair digest source =>
    have same : Meets .interrupted (cmdRepair sha256 digest source) session.relay _ _ :=
      cmdRepair_names digest source
    obtain ⟨nodes, slots⟩ := same.final []
    exact ⟨(cmdRepair_linked digest source).run safe.linked, safe.noBuilding.congr nodes,
      fun other member => (slots _).trans (safe.missing other member)⟩

/-- The trees of hosts and the snapshots. -/
def Tree.Finished : Tree → Prop
  | .host _ | .snapshot _ _ => True
  | .building _ _ => False

/-- A file of a host tree, of a snapshot or of a seeded directory is linked to an
inode. -/
def InUse (relay : Relay) (ino : Nat) : Prop :=
  (∃ tree path, tree.Finished ∧ relay.node? tree path = some (.file ino)) ∨ LinkedOutside relay ino

/-- Each file of a host tree or a snapshot is a link of a blob held under some
digest. -/
def BlobsHeld (relay : Relay) : Prop :=
  ∀ tree path ino, tree.Finished → relay.node? tree path = some (.file ino) →
    ∃ digest, relay.slot? (.blob digest) = some ino

variable (sha256 dumps)

/-- What is promised of single commands: an assemble or a snapshot that succeeds has
linked its manifest, and a gc removes exactly the blobs that are not in use. -/
def Order.Exact (relay : Relay) : Order → Prop
  | .assemble host manifest => ∀ result after,
    (cmdAssemble dumps host manifest).run relay = (.done result, after) →
      Matches after (.host host) (wantedBy manifest.files) ∧
        ∃ payloadHash, manifest.payloadHash = some payloadHash ∧
          Matches after (.snapshot .provisioningPayload payloadHash) (wantedBy manifest.payload)
  | .snapshot kind snapshotId manifest => ∀ state after,
    (cmdSnapshot dumps kind snapshotId manifest).run relay = (.done state, after) →
      Matches after (.snapshot kind snapshotId) (wantedBy manifest.files)
  | .gc dryRun => ∀ digest ino, relay.slot? (.blob digest) = some ino →
    (dryRun = false ∧ ¬ InUse relay ino → ((cmdGc dryRun).run relay).2.slot? (.blob digest) = none) ∧
      (¬ (dryRun = false ∧ ¬ InUse relay ino) →
        ((cmdGc dryRun).run relay).2.slot? (.blob digest) = some ino)
  | _ => True

variable {sha256 dumps}

theorem NoBuilding.referenced_iff {relay : Relay} {ino : Nat} (noBuilding : NoBuilding relay) :
    Referenced relay ino ↔ InUse relay ino := by
  refine or_congr_left ⟨?_, fun ⟨tree, path, _, isFile⟩ => ⟨tree, path, isFile⟩⟩
  rintro ⟨tree, path, isFile⟩
  refine ⟨tree, path, ?_, isFile⟩
  cases tree with
  | building kind snapshotId =>
    rw [noBuilding] at isFile
    cases isFile
  | _ => trivial

theorem cmdAssemble_exact {relay after : Relay} {host : String} {manifest : Manifest}
    {result : Assembled} (isRun : (cmdAssemble dumps host manifest).run relay = (.done result, after)) :
    Matches after (.host host) (wantedBy manifest.files) ∧
      ∃ payloadHash, manifest.payloadHash = some payloadHash ∧
        Matches after (.snapshot .provisioningPayload payloadHash) (wantedBy manifest.payload) := by
  have ran : Meets .reliable (cmdAssemble dumps host manifest) relay _ _ := cmdAssemble_meets
  rcases ran.run with ⟨_, -, payloadHash, isHash, -, assembled⟩ | ⟨_, raised, -⟩
  · rw [isRun] at assembled
    exact ⟨assembled.same, payloadHash, isHash, assembled.snapshot⟩
  · rw [isRun] at raised
    cases raised

theorem cmdSnapshot_exact {relay after : Relay} {kind : SnapshotKind} {snapshotId : String}
    {manifest : Manifest} {state : SnapshotState}
    (isRun : (cmdSnapshot dumps kind snapshotId manifest).run relay = (.done state, after)) :
    Matches after (.snapshot kind snapshotId) (wantedBy manifest.files) := by
  have ran : Meets .reliable (cmdSnapshot dumps kind snapshotId manifest) relay _ _ := snapshot_meets
  rcases ran.run with ⟨_, -, -, ⟨-, same, -, matched⟩ | ⟨-, -, recorded⟩⟩ | ⟨_, raised, -⟩
  · rw [isRun] at same
    have unchanged : after = relay := same
    exact unchanged ▸ matched
  · rw [isRun] at recorded
    exact recorded.same
  · rw [isRun] at raised
    cases raised

theorem Session.Safe.exact {session : Session} (safe : session.Safe) (order : Order) :
    order.Exact dumps session.relay := by
  cases order with
  | assemble host manifest => exact fun _ _ isRun => cmdAssemble_exact isRun
  | snapshot kind snapshotId manifest => exact fun _ _ isRun => cmdSnapshot_exact isRun
  | gc dryRun =>
    obtain ⟨-, -, swept⟩ := cmdGc_run safe.linked dryRun
    intro digest ino isBlob
    have collectable : Collectable session.relay dryRun digest ↔
        dryRun = false ∧ ¬ InUse session.relay ino := by
      unfold Collectable
      rw [← safe.noBuilding.referenced_iff, isBlob]
      simp
    rw [← collectable]
    exact ⟨swept.removed digest trivial, fun keeps =>
      (swept.kept digest fun both => keeps both.2).trans isBlob⟩
  | _ => trivial

/-- A sync to an empty relay with a gc after each step. -/
def firstSync : List Order :=
  [.want flatPayload, .gc false, .upload [("2c26", ⟨[1], 0⟩)], .assemble "mast01" flatPayload, .gc false]

/-- A client of an empty relay. -/
def freshSession : Session := ⟨Volume.empty, []⟩

end Runs

end MastProvisioning.Blobstore
