import MastProvisioning.Blobstore.Frames

/-!
# What keeps a blob alive

A blob lives while another name points at its inode. `Linked` is what makes this
count mean something: every file of a tree is a link of a held blob, an inode is
under two digests only when a file outside is linked to it, and the texts the
blobstore writes have inodes of their own. Every command keeps it, cut off or not.
-/

namespace MastProvisioning.Blobstore

open MastProvisioning.Semantics MastProvisioning.Semantics.Command
open MastProvisioning.Collections MastProvisioning.Storage

/-- A file outside is linked to an inode. -/
def LinkedOutside (relay : Relay) (ino : Nat) : Prop :=
  ∃ path, relay.slot? (.outside path) = some ino

/-- The names of the relay's files are as its commands leave them. -/
structure Linked (relay : Relay) : Prop where
  tree : ∀ tree path ino, relay.node? tree path = some (.file ino) →
    ∃ digest, relay.slot? (.blob digest) = some ino
  alone : ∀ digest other ino, relay.slot? (.blob digest) = some ino →
    relay.slot? (.blob other) = some ino → digest = other ∨ LinkedOutside relay ino
  texts : ∀ slot ino, slot.holdsText → relay.slot? slot = some ino →
    (∀ digest, relay.slot? (.blob digest) ≠ some ino) ∧ ¬ LinkedOutside relay ino

section Keeping

variable {relay after : Relay}

theorem LinkedOutside.congr {ino : Nat}
    (slots : ∀ path, after.slot? (.outside path) = relay.slot? (.outside path)) :
    LinkedOutside after ino ↔ LinkedOutside relay ino := by
  simp [LinkedOutside, slots]

/-- Trees change and slots do not. -/
theorem Linked.ofNodes (linked : Linked relay) (slots : ∀ slot, after.slot? slot = relay.slot? slot)
    (nodes : ∀ tree path ino, after.node? tree path = some (.file ino) →
      ∃ digest, relay.slot? (.blob digest) = some ino) : Linked after where
  tree tree path ino isFile := by
    obtain ⟨digest, isBlob⟩ := nodes tree path ino isFile
    exact ⟨digest, (slots _).trans isBlob⟩
  alone digest other ino isBlob isOther := by
    rw [LinkedOutside.congr fun path => slots _]
    exact linked.alone digest other ino ((slots _).symm.trans isBlob) ((slots _).symm.trans isOther)
  texts slot ino holdsText isText := by
    rw [LinkedOutside.congr fun path => slots _]
    simp only [slots]
    exact linked.texts slot ino holdsText ((slots _).symm.trans isText)

theorem Linked.nodeChange {tree : Tree} {path : Path} {value : Option Node} (linked : Linked relay)
    (change : Volume.NodeChange relay after tree path value)
    (blob : ∀ ino, value = some (.file ino) → ∃ digest, relay.slot? (.blob digest) = some ino) :
    Linked after := by
  refine linked.ofNodes change.slot fun other below ino isFile => ?_
  rw [change.node] at isFile
  split at isFile
  · exact blob ino isFile
  · exact linked.tree other below ino isFile

theorem Linked.contentChange {ino : Nat} (linked : Linked relay)
    (change : Volume.ContentChange relay after ino) : Linked after :=
  linked.ofNodes change.slot fun tree path other isFile =>
    linked.tree tree path other ((change.node tree path).symm.trans isFile)

/-- A slot takes an inode that was not allocated. -/
theorem Linked.replaced {slot : Slot} (linked : Linked relay)
    (change : Volume.SlotChange relay after slot (some relay.fresh))
    (notOutside : ∀ path, slot ≠ .outside path)
    (unlinked : ∀ digest ino, slot = .blob digest → relay.slot? slot = some ino →
      ∀ tree path, relay.node? tree path ≠ some (.file ino)) : Linked after := by
  have outside : ∀ ino, LinkedOutside after ino ↔ LinkedOutside relay ino := by
    refine fun ino => LinkedOutside.congr fun path => ?_
    rw [change.slot, if_neg fun same => notOutside path same.symm]
  have fresh : ∀ ino, LinkedOutside relay ino → ino ≠ relay.fresh := by
    rintro ino ⟨path, isOutside⟩
    exact Nat.ne_of_lt (Volume.slot?_lt isOutside)
  have allocated : ∀ other ino, relay.slot? other = some ino → ino ≠ relay.fresh :=
    fun other ino found => Nat.ne_of_lt (Volume.slot?_lt found)
  refine ⟨?_, ?_, ?_⟩
  · intro tree path ino isFile
    rw [change.node] at isFile
    obtain ⟨digest, isBlob⟩ := linked.tree tree path ino isFile
    by_cases same : slot = .blob digest
    · exact absurd isFile (unlinked digest ino same (same ▸ isBlob) tree path)
    · refine ⟨digest, ?_⟩
      rw [change.slot, if_neg fun equal => same equal.symm]
      exact isBlob
  · intro digest other ino isBlob isOther
    rw [outside]
    rw [change.slot] at isBlob isOther
    split at isBlob <;> split at isOther
    · rename_i isDigest isSame
      exact .inl (Slot.blob.inj (isDigest.trans isSame.symm))
    · exact absurd (Option.some.inj isBlob).symm (allocated _ _ isOther)
    · exact absurd (Option.some.inj isOther).symm (allocated _ _ isBlob)
    · exact linked.alone digest other ino isBlob isOther
  · intro other ino holdsText isText
    rw [outside]
    rw [change.slot] at isText
    split at isText
    · obtain rfl := Option.some.inj isText
      refine ⟨?_, fun isOutside => fresh _ isOutside rfl⟩
      intro digest isBlob
      rename_i isSlot
      rw [change.slot, if_neg] at isBlob
      · exact allocated _ _ isBlob rfl
      · intro same
        rw [isSlot, ← same] at holdsText
        cases holdsText
    · obtain ⟨notBlob, notLinked⟩ := linked.texts other ino holdsText isText
      refine ⟨?_, notLinked⟩
      intro digest isBlob
      rw [change.slot] at isBlob
      split at isBlob
      · exact allocated _ _ isText (Option.some.inj isBlob).symm
      · exact notBlob digest isBlob

/-- A blob is adopted from a file outside. -/
theorem Linked.adopted {digest path : String} {ino : Nat} (linked : Linked relay)
    (isOutside : relay.slot? (.outside path) = some ino)
    (free : relay.slot? (.blob digest) = none)
    (change : Volume.SlotChange relay after (.blob digest) (some ino)) : Linked after := by
  have outside : ∀ other, LinkedOutside after other ↔ LinkedOutside relay other := by
    refine fun other => LinkedOutside.congr fun path => ?_
    rw [change.slot, if_neg (by simp)]
  have blob : ∀ other found, after.slot? (.blob other) = some found →
      other = digest ∧ found = ino ∨ relay.slot? (.blob other) = some found := by
    intro other found isBlob
    rw [change.slot] at isBlob
    split at isBlob
    · rename_i same
      exact .inl ⟨Slot.blob.inj same, (Option.some.inj isBlob).symm⟩
    · exact .inr isBlob
  refine ⟨?_, ?_, ?_⟩
  · intro tree path other isFile
    rw [change.node] at isFile
    obtain ⟨held, isBlob⟩ := linked.tree tree path other isFile
    refine ⟨held, ?_⟩
    rw [change.slot, if_neg]
    · exact isBlob
    · intro same
      rw [same, free] at isBlob
      cases isBlob
  · intro first second found isFirst isSecond
    rw [outside]
    rcases blob first found isFirst with ⟨-, rfl⟩ | isFirst
    · exact .inr ⟨path, isOutside⟩
    · rcases blob second found isSecond with ⟨-, rfl⟩ | isSecond
      · exact .inr ⟨path, isOutside⟩
      · exact linked.alone first second found isFirst isSecond
  · intro slot found holdsText isText
    rw [outside]
    have notBlobSlot : slot ≠ .blob digest := by
      rintro rfl
      cases holdsText
    rw [change.slot, if_neg notBlobSlot] at isText
    obtain ⟨notBlob, notLinked⟩ := linked.texts slot found holdsText isText
    refine ⟨?_, notLinked⟩
    intro other isBlob
    rcases blob other found isBlob with ⟨-, rfl⟩ | isBlob
    · exact notLinked ⟨path, isOutside⟩
    · exact notBlob other isBlob

/-- A blob that nothing is linked to is removed. -/
theorem Linked.dropped {digest : String} (linked : Linked relay)
    (unlinked : ∀ ino, relay.slot? (.blob digest) = some ino →
      ∀ tree path, relay.node? tree path ≠ some (.file ino))
    (change : Volume.SlotChange relay after (.blob digest) none) : Linked after := by
  have outside : ∀ other, LinkedOutside after other ↔ LinkedOutside relay other := by
    refine fun other => LinkedOutside.congr fun path => ?_
    rw [change.slot, if_neg (by simp)]
  have still : ∀ slot found, after.slot? slot = some found → relay.slot? slot = some found := by
    intro slot found isFound
    rw [change.slot] at isFound
    split at isFound
    · cases isFound
    · exact isFound
  refine ⟨?_, ?_, ?_⟩
  · intro tree path ino isFile
    rw [change.node] at isFile
    obtain ⟨held, isBlob⟩ := linked.tree tree path ino isFile
    refine ⟨held, ?_⟩
    rw [change.slot, if_neg]
    · exact isBlob
    · intro same
      exact unlinked ino (same ▸ isBlob) tree path isFile
  · intro first second ino isFirst isSecond
    rw [outside]
    exact linked.alone first second ino (still _ _ isFirst) (still _ _ isSecond)
  · intro slot ino holdsText isText
    rw [outside]
    obtain ⟨notBlob, notLinked⟩ := linked.texts slot ino holdsText (still _ _ isText)
    exact ⟨fun other isBlob => notBlob other (still _ _ isBlob), notLinked⟩

end Keeping

section Commands

variable {dumps : Manifest → Bytes} {sha256 : Bytes → String} {tree : Tree} {mode : Mode}

theorem Linked.treeStep (relay after : Relay) (linked : Linked relay)
    (step : TreeStep tree relay after) : Linked after := by
  obtain ⟨path, value, change, blob⟩ := step
  exact linked.nodeChange change blob

theorem Linked.textStep {slot : Slot} (holdsText : slot.holdsText) (relay after : Relay)
    (linked : Linked relay) (step : TextStep slot relay after) : Linked after := by
  rcases step with change | ⟨ino, -, change⟩
  · refine linked.replaced change ?_ ?_
    · rintro path rfl
      cases holdsText
    · rintro digest ino rfl
      cases holdsText
  · exact linked.contentChange change

theorem Linked.renamed {source target : Tree} {relay after : Relay} (linked : Linked relay)
    (moved : Volume.TreeMoved relay after source target) : Linked after := by
  refine linked.ofNodes moved.slot fun tree path ino isFile => ?_
  rw [moved.node] at isFile
  split at isFile
  · exact linked.tree _ path ino isFile
  · split at isFile
    · cases isFile
    · exact linked.tree _ path ino isFile

theorem snapshot_linked (kind : SnapshotKind) (snapshotId : String) (manifest : Manifest) :
    Preserves mode Linked (snapshot dumps kind snapshotId manifest) :=
  snapshot_keeps manifest Linked.treeStep (Linked.textStep rfl) fun _ _ linked _ => linked.renamed

theorem cmdAssemble_linked (host : String) (manifest : Manifest) :
    Preserves mode Linked (cmdAssemble dumps host manifest) :=
  cmdAssemble_keeps manifest Linked.treeStep (Linked.textStep rfl) fun _ _ => snapshot_linked _ _ _

theorem seedFile_linked (count : Seeded) (path : String) :
    Preserves mode Linked (seedFile sha256 count (.slot (.outside path))) := by
  intro relay linked
  refine .query_bind ?_ fun _ => linked
  dsimp only [inoOf]
  cases isOutside : relay.slot? (.outside path) with
  | none => exact .pure linked
  | some ino =>
    refine .query_bind (.query_bind (.ite (fun _ => .pure linked) fun free => ?_) fun _ => linked)
      fun _ => linked
    refine .call ?_ (fun _ => linked) fun _ => linked
    intro counted after done
    split at done
    · rename_i linkedTo isLinked
      obtain ⟨-, rfl⟩ := Prod.mk.inj (Option.some.inj done)
      obtain ⟨isFree, -, change⟩ := Volume.linkSlot_change isLinked
      exact linked.adopted isOutside isFree change
    · obtain ⟨-, rfl⟩ := Prod.mk.inj (Option.some.inj done)
      exact linked

theorem cmdSeed_linked {names : List FileName}
    (outside : ∀ name ∈ names, ∃ path, name = .slot (.outside path)) :
    Preserves mode Linked (cmdSeed sha256 names) := by
  refine .foldEach fun name member count => ?_
  obtain ⟨path, rfl⟩ := outside name member
  exact seedFile_linked count path

theorem overwrite_linked (ino : Nat) (good : Bytes) : Preserves mode Linked (overwrite ino good) := by
  refine .bind (.forEach fun piece _ => .change ?_) fun _ => .change ?_
  · rintro relay after linked ⟨⟩
    exact linked.contentChange Volume.setContent_change
  · rintro relay after linked ⟨⟩
    exact linked.contentChange Volume.setContent_change

theorem cmdRepair_linked (digest : String) (source : FileName) :
    Preserves mode Linked (cmdRepair sha256 digest source) := by
  refine .bind (.query _) fun blob => ?_
  cases blob with
  | none => exact .exit _
  | some ino =>
    refine .bind (.query _) fun good => ?_
    cases good with
    | none => exact .exit _
    | some good =>
      exact .bind (.require _ _) fun _ => .bind (overwrite_linked _ _) fun _ =>
        .bind (.query _) fun _ => .bind (.require _ _) fun _ => .query _

end Commands

end MastProvisioning.Blobstore
