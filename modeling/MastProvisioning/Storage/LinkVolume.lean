import Mathlib.Data.List.Induction
import Mathlib.Data.List.Sort
import MastProvisioning.Collections.OrderedDict

/-!
# A volume with hard links

One file system on which a file may have several names. Some names are fixed places
for a file (`Slot`), the others are paths in trees of directories (`Root` names the
trees). A name gives an inode number, and inodes hold the bytes. A `Volume` keeps
that its names are distinct, that their inodes are allocated, that a name's parent
is a directory and that a tree's root is one.

Each operation gives the new volume, or nothing when it fails. What an operation
changes is said by `NodeChange`, `SlotChange` and `ContentChange`, in terms of what
the names and inodes of the volume give.
-/

namespace MastProvisioning.Storage

open MastProvisioning.Collections

/-- A path in a tree, from its root. -/
abbrev Path := List String

/-- The contents of a file. -/
abbrev Bytes := List UInt8

/-- What a path names. -/
inductive Node
  | directory
  | file (ino : Nat)
deriving DecidableEq, Repr

/-- The contents of a file, and when they were last written. -/
structure Inode where
  bytes : Bytes
  mtime : Int
deriving DecidableEq, Repr

/-- A volume. -/
structure Volume (Slot Root : Type) [DecidableEq Slot] [DecidableEq Root] where
  slots : List (Slot × Nat)
  nodes : List ((Root × Path) × Node)
  inodes : Nat → Inode
  /-- The next inode number. -/
  fresh : Nat
  clock : Int
  slots_distinct : OrderedDict.Distinct id slots
  nodes_distinct : OrderedDict.Distinct id nodes
  slots_allocated : ∀ slot ino, OrderedDict.get? id slots slot = some ino → ino < fresh
  nodes_allocated : ∀ root path ino,
    OrderedDict.get? id nodes (root, path) = some (.file ino) → ino < fresh
  closed : ∀ root path name node, OrderedDict.get? id nodes (root, path ++ [name]) = some node →
    OrderedDict.get? id nodes (root, path) = some .directory
  rooted : ∀ root node, OrderedDict.get? id nodes (root, []) = some node → node = .directory

namespace Volume

variable {Slot Root : Type} [DecidableEq Slot] [DecidableEq Root]

/-- The volume on which there is nothing. -/
def empty : Volume Slot Root where
  slots := []
  nodes := []
  inodes _ := ⟨[], 0⟩
  fresh := 0
  clock := 0
  slots_distinct := OrderedDict.distinct_nil
  nodes_distinct := OrderedDict.distinct_nil
  slots_allocated _ _ found := by cases found
  nodes_allocated _ _ _ found := by cases found
  closed _ _ _ _ found := by cases found
  rooted _ _ found := by cases found

section Reading

variable (volume : Volume Slot Root)

/-- The inode in a slot. -/
def slot? (slot : Slot) : Option Nat := OrderedDict.get? id volume.slots slot

/-- What is at a path. -/
def node? (root : Root) (path : Path) : Option Node := OrderedDict.get? id volume.nodes (root, path)

/-- How many names an inode has. -/
def nlink (ino : Nat) : Nat :=
  OrderedDict.count volume.slots ino + OrderedDict.count volume.nodes (.file ino)

/-- Whether a directory has entries. -/
def hasEntries (root : Root) (path : Path) : Bool :=
  volume.nodes.any fun entry => entry.1.1 = root ∧ entry.1.2 ≠ [] ∧ entry.1.2.dropLast = path

/-- What is below the root of a tree, deepest first. -/
def walk (root : Root) : List (Path × Node) :=
  (volume.nodes.filterMap fun entry =>
    if entry.1.1 = root ∧ entry.1.2 ≠ [] then some (entry.1.2, entry.2) else none).insertionSort
      fun node other => other.1.length ≤ node.1.length

end Reading

section Lookup

variable {volume : Volume Slot Root} {root : Root} {path : Path}

theorem slot?_lt {slot : Slot} {ino : Nat} (found : volume.slot? slot = some ino) :
    ino < volume.fresh :=
  volume.slots_allocated slot ino found

theorem file_lt {ino : Nat} (found : volume.node? root path = some (.file ino)) :
    ino < volume.fresh :=
  volume.nodes_allocated root path ino found

theorem root_directory {node : Node} (found : volume.node? root [] = some node) :
    node = .directory :=
  volume.rooted root node found

theorem parent_directory {name : String} {node : Node}
    (found : volume.node? root (path ++ [name]) = some node) :
    volume.node? root path = some .directory :=
  volume.closed root path name node found

/-- Everything above something that is there is a directory. -/
theorem directory_of_prefix {above : Path} {node : Node} (isPrefix : above <+: path)
    (proper : above ≠ path) (found : volume.node? root path = some node) :
    volume.node? root above = some .directory := by
  induction path using List.reverseRecOn generalizing node with
  | nil => exact absurd (List.prefix_nil.mp isPrefix) proper
  | append_singleton parent name ih =>
    have isParent := parent_directory found
    by_cases same : above = parent
    · exact same ▸ isParent
    · have shorter : above <+: parent := by
        rcases List.prefix_concat_iff.mp isPrefix with equal | shorter
        · exact absurd equal proper
        · exact shorter
      exact ih shorter same isParent

/-- In a tree without a root there is nothing. -/
theorem node?_of_no_root (none : volume.node? root [] = none) (path : Path) :
    volume.node? root path = .none := by
  by_contra some
  obtain ⟨node, found⟩ := Option.ne_none_iff_exists'.mp some
  by_cases isRoot : path = []
  · exact some (isRoot ▸ none)
  · have directory := directory_of_prefix List.nil_prefix (Ne.symm isRoot) found
    rw [none] at directory
    cases directory

theorem hasEntries_iff :
    volume.hasEntries root path = true ↔ ∃ name node, volume.node? root (path ++ [name]) = some node := by
  unfold hasEntries node?
  simp only [List.any_eq_true, decide_eq_true_eq]
  constructor
  · rintro ⟨⟨⟨_, below⟩, node⟩, member, rfl, nonempty, rfl⟩
    refine ⟨below.getLast nonempty, node, ?_⟩
    rw [List.dropLast_append_getLast]
    exact (OrderedDict.get?_eq_some volume.nodes_distinct).mpr member
  · rintro ⟨name, node, found⟩
    exact ⟨_, (OrderedDict.get?_eq_some volume.nodes_distinct).mp found, rfl, by simp, by simp⟩

theorem mem_walk {node : Node} :
    (path, node) ∈ volume.walk root ↔ path ≠ [] ∧ volume.node? root path = some node := by
  unfold walk node?
  rw [List.mem_insertionSort, List.mem_filterMap, OrderedDict.get?_eq_some volume.nodes_distinct]
  constructor
  · rintro ⟨⟨⟨_, _⟩, _⟩, member, found⟩
    split at found
    · rename_i below
      obtain ⟨rfl, rfl⟩ := Prod.mk.inj (Option.some.inj found)
      exact ⟨below.2, below.1 ▸ member⟩
    · cases found
  · rintro ⟨nonempty, member⟩
    exact ⟨_, member, by simp [nonempty]⟩

/-- A walk comes by each path once. -/
theorem walk_nodup : ((volume.walk root).map Prod.fst).Nodup := by
  have paths : ((volume.nodes.filterMap fun entry =>
      if entry.1.1 = root ∧ entry.1.2 ≠ [] then some (entry.1.2, entry.2) else none).map Prod.fst) =
      (volume.nodes.map fun entry => entry.1).filterMap fun key =>
        if key.1 = root ∧ key.2 ≠ [] then some key.2 else none := by
    rw [List.map_filterMap, List.filterMap_map]
    congr 1
    funext entry
    dsimp only [Function.comp_apply]
    split <;> rfl
  unfold walk
  rw [((List.perm_insertionSort _ _).map Prod.fst).nodup_iff, paths]
  refine List.Nodup.filterMap ?_ volume.nodes_distinct
  intro key other path isKey isOther
  simp only [Option.mem_def, Option.ite_none_right_eq_some, Option.some.injEq] at isKey isOther
  exact Prod.ext (isKey.1.1.trans isOther.1.1.symm) (isKey.2.trans isOther.2.symm)

/-- A walk comes by what is deeper first. -/
theorem walk_deepest :
    (volume.walk root).Pairwise fun node other => other.1.length ≤ node.1.length := by
  unfold walk
  exact List.pairwise_insertionSort _ _

end Lookup

section Changes

/-- Two volumes that differ at most in what is at one path. -/
structure NodeChange (volume after : Volume Slot Root) (root : Root) (path : Path)
    (value : Option Node) : Prop where
  node : ∀ other below, after.node? other below =
    if other = root ∧ below = path then value else volume.node? other below
  slot : ∀ slot, after.slot? slot = volume.slot? slot
  inodes : after.inodes = volume.inodes
  fresh : after.fresh = volume.fresh

/-- Two volumes that differ at most in what is in one slot. -/
structure SlotChange (volume after : Volume Slot Root) (slot : Slot) (value : Option Nat) :
    Prop where
  slot : ∀ other, after.slot? other = if other = slot then value else volume.slot? other
  node : ∀ root path, after.node? root path = volume.node? root path
  inodes : ∀ ino, ino < volume.fresh → after.inodes ino = volume.inodes ino
  fresh : volume.fresh ≤ after.fresh

/-- Two volumes that differ at most in what one inode holds. -/
structure ContentChange (volume after : Volume Slot Root) (ino : Nat) : Prop where
  slot : ∀ slot, after.slot? slot = volume.slot? slot
  node : ∀ root path, after.node? root path = volume.node? root path
  inodes : ∀ other, other ≠ ino → after.inodes other = volume.inodes other
  fresh : after.fresh = volume.fresh

/-- A tree has become another tree. -/
structure TreeMoved (volume after : Volume Slot Root) (source target : Root) : Prop where
  node : ∀ root path, after.node? root path =
    if root = target then volume.node? source path
    else if root = source then none else volume.node? root path
  slot : ∀ slot, after.slot? slot = volume.slot? slot
  inodes : after.inodes = volume.inodes
  fresh : after.fresh = volume.fresh

end Changes

section Building

variable (volume : Volume Slot Root)

/-- Whether something can be put at a path. -/
def canPut (root : Root) (path : Path) : Prop :=
  volume.node? root path = none ∧ path ≠ [] ∧ volume.node? root path.dropLast = some .directory

instance (root : Root) (path : Path) : Decidable (volume.canPut root path) :=
  inferInstanceAs (Decidable (_ ∧ _ ∧ _))

/-- Put something at a path. -/
def putNode (root : Root) (path : Path) (node : Node) (free : volume.node? root path = none)
    (under : path = [] ∧ node = .directory ∨ path ≠ [] ∧
      volume.node? root path.dropLast = some .directory)
    (allocated : ∀ ino, node = .file ino → ino < volume.fresh) : Volume Slot Root :=
  { volume with
    nodes := OrderedDict.set id volume.nodes (root, path) node
    nodes_distinct := volume.nodes_distinct.set _ _
    nodes_allocated := by
      intro other below ino found
      rw [OrderedDict.get?_set] at found
      split at found
      · exact allocated ino (Option.some.inj found)
      · exact volume.nodes_allocated other below ino found
    closed := by
      intro other above name below found
      rw [OrderedDict.get?_set] at found ⊢
      split at found
      · rename_i isNew
        obtain ⟨rfl, rfl⟩ := Prod.mk.inj isNew
        obtain ⟨nonempty, -⟩ | ⟨-, isParent⟩ := under
        · simp at nonempty
        · rw [if_neg (by simp)]
          simpa [node?] using isParent
      · have isParent := volume.closed other above name below found
        split
        · rename_i isNew
          obtain ⟨rfl, rfl⟩ := Prod.mk.inj isNew
          rw [Volume.node?, isParent] at free
          cases free
        · exact isParent
    rooted := by
      intro other below found
      rw [OrderedDict.get?_set] at found
      split at found
      · rename_i isNew
        obtain ⟨rfl, rfl⟩ := Prod.mk.inj isNew
        obtain ⟨-, isDirectory⟩ | ⟨nonempty, -⟩ := under
        · exact (Option.some.inj found).symm.trans isDirectory
        · exact absurd rfl nonempty
      · exact volume.rooted other below found }

/-- Take away what is at a path and has nothing below it. -/
def dropNode (root : Root) (path : Path)
    (childless : ∀ name, volume.node? root (path ++ [name]) = none) : Volume Slot Root :=
  { volume with
    nodes := OrderedDict.erase id volume.nodes (root, path)
    nodes_distinct := volume.nodes_distinct.erase _
    nodes_allocated := by
      intro other below ino found
      rw [OrderedDict.get?_erase] at found
      split at found
      · cases found
      · exact volume.nodes_allocated other below ino found
    closed := by
      intro other above name below found
      rw [OrderedDict.get?_erase] at found ⊢
      split at found
      · cases found
      · split
        · rename_i isGone
          obtain ⟨rfl, rfl⟩ := Prod.mk.inj isGone
          have none := childless name
          rw [Volume.node?, found] at none
          cases none
        · exact volume.closed other above name below found
    rooted := by
      intro other below found
      rw [OrderedDict.get?_erase] at found
      split at found
      · cases found
      · exact volume.rooted other below found }

/-- Put an inode in a slot. -/
def putSlot (slot : Slot) (ino : Nat) (allocated : ino < volume.fresh) : Volume Slot Root :=
  { volume with
    slots := OrderedDict.set id volume.slots slot ino
    slots_distinct := volume.slots_distinct.set _ _
    slots_allocated := by
      intro other found isFound
      rw [OrderedDict.get?_set] at isFound
      split at isFound
      · exact Option.some.inj isFound ▸ allocated
      · exact volume.slots_allocated other found isFound }

/-- Empty a slot. -/
def dropSlot (slot : Slot) : Volume Slot Root :=
  { volume with
    slots := OrderedDict.erase id volume.slots slot
    slots_distinct := volume.slots_distinct.erase _
    slots_allocated := by
      intro other found isFound
      rw [OrderedDict.get?_erase] at isFound
      split at isFound
      · cases isFound
      · exact volume.slots_allocated other found isFound }

/-- Allocate an inode; it is the one before `fresh` then. -/
def allocate (content : Inode) : Volume Slot Root :=
  { volume with
    inodes := Function.update volume.inodes volume.fresh content
    fresh := volume.fresh + 1
    slots_allocated := fun slot ino found => Nat.lt_succ_of_lt (volume.slots_allocated slot ino found)
    nodes_allocated := fun root path ino found =>
      Nat.lt_succ_of_lt (volume.nodes_allocated root path ino found) }

/-- Change what an inode holds. -/
def setContent (ino : Nat) (content : Inode) : Volume Slot Root :=
  { volume with inodes := Function.update volume.inodes ino content }

end Building

section Operations

variable (volume : Volume Slot Root)

/-- `mkdir`. -/
def mkdir (root : Root) (path : Path) : Option (Volume Slot Root) :=
  if free : volume.node? root path = none then
    if isRoot : path = [] then
      some (volume.putNode root path .directory free (.inl ⟨isRoot, rfl⟩) (by simp))
    else if under : volume.node? root path.dropLast = some .directory then
      some (volume.putNode root path .directory free (.inr ⟨isRoot, under⟩) (by simp))
    else none
  else none

/-- `link` of what is in a slot to a path. -/
def link (slot : Slot) (root : Root) (path : Path) : Option (Volume Slot Root) :=
  match found : volume.slot? slot with
  | some ino =>
    if can : volume.canPut root path then
      some (volume.putNode root path (.file ino) can.1 (.inr can.2)
        (fun _ same => Node.file.inj same ▸ slot?_lt found))
    else none
  | none => none

/-- `unlink` of a path. -/
def unlink (root : Root) (path : Path) : Option (Volume Slot Root) :=
  match found : volume.node? root path with
  | some (.file ino) => some (volume.dropNode root path fun name => by
      by_contra some
      obtain ⟨node, below⟩ := Option.ne_none_iff_exists'.mp some
      have isDirectory := parent_directory below
      rw [found] at isDirectory
      cases isDirectory)
  | _ => none

/-- `rmdir`. -/
def rmdir (root : Root) (path : Path) : Option (Volume Slot Root) :=
  if empty : volume.hasEntries root path = false then
    if volume.node? root path = some .directory then
      some (volume.dropNode root path fun name => by
        by_contra some
        obtain ⟨node, below⟩ := Option.ne_none_iff_exists'.mp some
        have entries := hasEntries_iff.mpr ⟨name, node, below⟩
        rw [empty] at entries
        cases entries)
    else none
  else none

/-- `link` of an inode to a slot. -/
def linkSlot (ino : Nat) (slot : Slot) : Option (Volume Slot Root) :=
  if volume.slot? slot = none then
    if allocated : ino < volume.fresh then some (volume.putSlot slot ino allocated) else none
  else none

/-- `unlink` of a slot. -/
def unlinkSlot (slot : Slot) : Option (Volume Slot Root) :=
  if volume.slot? slot = none then none else some (volume.dropSlot slot)

/-- Write a new file and rename it over a slot. -/
def replaceSlot (slot : Slot) (content : Inode) : Volume Slot Root :=
  (volume.allocate content).putSlot slot volume.fresh (Nat.lt_succ_self _)

/-- `open` of a slot for writing: the file is made or emptied. -/
def openWrite (slot : Slot) : Volume Slot Root :=
  match volume.slot? slot with
  | some ino => volume.setContent ino ⟨[], volume.clock⟩
  | none => volume.replaceSlot slot ⟨[], volume.clock⟩

/-- Write into a file at an offset. -/
def write (ino offset : Nat) (chunk : Bytes) : Volume Slot Root :=
  volume.setContent ino
    ⟨(volume.inodes ino).bytes.take offset ++ chunk ++
      (volume.inodes ino).bytes.drop (offset + chunk.length), volume.clock⟩

/-- `truncate`. -/
def truncate (ino length : Nat) : Volume Slot Root :=
  volume.setContent ino ⟨(volume.inodes ino).bytes.take length, volume.clock⟩

/-- The nodes of a volume, those of one tree under another. -/
def movedNodes (source target : Root) : List ((Root × Path) × Node) :=
  volume.nodes.map fun entry =>
    ((if entry.1.1 = source then target else entry.1.1, entry.1.2), entry.2)

variable {volume}

theorem movedNodes_distinct {source target : Root} (free : volume.node? target [] = none) :
    OrderedDict.Distinct id (volume.movedNodes source target) := by
  have absent : ∀ entry ∈ volume.nodes, entry.1.1 ≠ target := by
    intro entry member isTarget
    have found : volume.node? entry.1.1 entry.1.2 = some entry.2 :=
      (OrderedDict.get?_eq_some volume.nodes_distinct).mpr member
    rw [isTarget, node?_of_no_root free] at found
    cases found
  have keys : ((volume.movedNodes source target).map fun entry => id entry.1) =
      (volume.nodes.map fun entry => id entry.1).map fun key =>
        (if key.1 = source then target else key.1, key.2) := by
    simp [movedNodes]
  unfold OrderedDict.Distinct
  rw [keys]
  refine List.Nodup.map_on ?_ volume.nodes_distinct
  intro key isKey other isOther same
  obtain ⟨entry, member, rfl⟩ := List.mem_map.mp isKey
  obtain ⟨another, memberOther, rfl⟩ := List.mem_map.mp isOther
  obtain ⟨sameRoot, samePath⟩ := Prod.mk.inj same
  refine Prod.ext ?_ samePath
  have notTarget := absent entry member
  have otherNotTarget := absent another memberOther
  split at sameRoot <;> split at sameRoot <;> simp_all

theorem get?_movedNodes {source target : Root} (free : volume.node? target [] = none)
    (root : Root) (path : Path) :
    OrderedDict.get? id (volume.movedNodes source target) (root, path) =
      if root = target then volume.node? source path
      else if root = source then none else volume.node? root path := by
  have nothing := node?_of_no_root free
  ext value
  rw [OrderedDict.get?_eq_some (movedNodes_distinct free), movedNodes, List.mem_map]
  constructor
  · rintro ⟨entry, member, same⟩
    have found : volume.node? entry.1.1 entry.1.2 = some entry.2 :=
      (OrderedDict.get?_eq_some volume.nodes_distinct).mpr member
    obtain ⟨sameKey, rfl⟩ := Prod.mk.inj same
    obtain ⟨rfl, rfl⟩ := Prod.mk.inj sameKey
    by_cases isSource : entry.1.1 = source
    · simp only [if_pos isSource, if_true]
      exact isSource ▸ found
    · have notTarget : entry.1.1 ≠ target := by
        intro isTarget
        rw [isTarget, nothing] at found
        cases found
      simp only [if_neg isSource, if_neg notTarget]
      exact found
  · intro found
    split at found
    · rename_i isTarget
      exact ⟨((source, path), value),
        (OrderedDict.get?_eq_some volume.nodes_distinct).mp found, by simp [isTarget]⟩
    · split at found
      · cases found
      · rename_i notSource
        exact ⟨((root, path), value),
          (OrderedDict.get?_eq_some volume.nodes_distinct).mp found, by simp [notSource]⟩

variable (volume)

/-- `rename` of the root of a tree to a name that is not there. -/
def moveTree (source target : Root) : Option (Volume Slot Root) :=
  if there : volume.node? source [] = some .directory ∧ volume.node? target [] = none then
    some { volume with
      nodes := volume.movedNodes source target
      nodes_distinct := movedNodes_distinct there.2
      nodes_allocated := by
        intro root path ino found
        rw [get?_movedNodes there.2] at found
        split at found
        · exact file_lt found
        · split at found
          · cases found
          · exact file_lt found
      closed := by
        intro root path name node found
        rw [get?_movedNodes there.2] at found ⊢
        split at found
        · rename_i isTarget
          rw [if_pos isTarget]
          exact parent_directory found
        · rename_i notTarget
          split at found
          · cases found
          · rename_i notSource
            rw [if_neg notTarget, if_neg notSource]
            exact parent_directory found
      rooted := by
        intro root node found
        rw [get?_movedNodes there.2] at found
        split at found
        · exact root_directory found
        · split at found
          · cases found
          · exact root_directory found }
  else none

end Operations

section Effects

variable {volume after : Volume Slot Root} {root : Root} {path : Path} {slot : Slot} {ino : Nat}

theorem putNode_change {node : Node} {free : volume.node? root path = none}
    {under : path = [] ∧ node = .directory ∨ path ≠ [] ∧
      volume.node? root path.dropLast = some .directory}
    {allocated : ∀ ino, node = .file ino → ino < volume.fresh} :
    NodeChange volume (volume.putNode root path node free under allocated) root path (some node) where
  node other below := by
    unfold node? putNode
    rw [OrderedDict.get?_set]
    simp [Prod.ext_iff, eq_comm]
  slot _ := rfl
  inodes := rfl
  fresh := rfl

theorem dropNode_change {childless : ∀ name, volume.node? root (path ++ [name]) = none} :
    NodeChange volume (volume.dropNode root path childless) root path none where
  node other below := by
    unfold node? dropNode
    rw [OrderedDict.get?_erase]
    simp [Prod.ext_iff, eq_comm]
  slot _ := rfl
  inodes := rfl
  fresh := rfl

theorem putSlot_change {allocated : ino < volume.fresh} :
    SlotChange volume (volume.putSlot slot ino allocated) slot (some ino) where
  slot other := by
    unfold slot? putSlot
    rw [OrderedDict.get?_set]
    simp [eq_comm]
  node _ _ := rfl
  inodes _ _ := rfl
  fresh := Nat.le_refl _

theorem dropSlot_change : SlotChange volume (volume.dropSlot slot) slot none where
  slot other := by
    unfold slot? dropSlot
    rw [OrderedDict.get?_erase]
    simp [eq_comm]
  node _ _ := rfl
  inodes _ _ := rfl
  fresh := Nat.le_refl _

theorem setContent_change {content : Inode} :
    ContentChange volume (volume.setContent ino content) ino where
  slot _ := rfl
  node _ _ := rfl
  inodes other different := by simp [setContent, different]
  fresh := rfl

theorem mkdir_change (done : volume.mkdir root path = some after) :
    volume.node? root path = none ∧ NodeChange volume after root path (some .directory) := by
  unfold mkdir at done
  split at done
  · rename_i free
    split at done
    · rw [← Option.some.inj done]
      exact ⟨free, putNode_change⟩
    · split at done
      · rw [← Option.some.inj done]
        exact ⟨free, putNode_change⟩
      · cases done
  · cases done

theorem mkdir_isSome (free : volume.node? root path = none)
    (under : path = [] ∨ volume.node? root path.dropLast = some .directory) :
    ∃ after, volume.mkdir root path = some after := by
  unfold mkdir
  rw [dif_pos free]
  split
  · exact ⟨_, rfl⟩
  · rename_i notRoot
    rw [dif_pos (under.resolve_left notRoot)]
    exact ⟨_, rfl⟩

theorem link_change (done : volume.link slot root path = some after) :
    volume.node? root path = none ∧ path ≠ [] ∧ ∃ ino, volume.slot? slot = some ino ∧
      NodeChange volume after root path (some (.file ino)) := by
  unfold link at done
  split at done
  · rename_i ino found
    split at done
    · rename_i can
      rw [← Option.some.inj done]
      exact ⟨can.1, can.2.1, ino, found, putNode_change⟩
    · cases done
  · cases done

theorem link_isSome (found : volume.slot? slot = some ino) (can : volume.canPut root path) :
    ∃ after, volume.link slot root path = some after := by
  unfold link
  split
  · rw [dif_pos can]
    exact ⟨_, rfl⟩
  · rename_i none
    rw [found] at none
    cases none

theorem unlink_change (done : volume.unlink root path = some after) :
    (∃ ino, volume.node? root path = some (.file ino)) ∧ NodeChange volume after root path none := by
  unfold unlink at done
  split at done
  · rename_i ino found
    rw [← Option.some.inj done]
    exact ⟨⟨ino, found⟩, dropNode_change⟩
  · cases done

theorem unlink_isSome (found : volume.node? root path = some (.file ino)) :
    ∃ after, volume.unlink root path = some after := by
  unfold unlink
  split
  · exact ⟨_, rfl⟩
  · rename_i notFile
    exact absurd found (notFile ino)

theorem rmdir_change (done : volume.rmdir root path = some after) :
    volume.node? root path = some .directory ∧ (∀ name, volume.node? root (path ++ [name]) = none) ∧
      NodeChange volume after root path none := by
  unfold rmdir at done
  split at done
  · rename_i empty
    split at done
    · rename_i isDirectory
      rw [← Option.some.inj done]
      refine ⟨isDirectory, ?_, dropNode_change⟩
      intro name
      by_contra some
      obtain ⟨node, below⟩ := Option.ne_none_iff_exists'.mp some
      rw [hasEntries_iff.mpr ⟨name, node, below⟩] at empty
      cases empty
    · cases done
  · cases done

theorem rmdir_isSome (isDirectory : volume.node? root path = some .directory)
    (empty : volume.hasEntries root path = false) :
    ∃ after, volume.rmdir root path = some after := by
  unfold rmdir
  rw [dif_pos empty, if_pos isDirectory]
  exact ⟨_, rfl⟩

theorem linkSlot_change (done : volume.linkSlot ino slot = some after) :
    volume.slot? slot = none ∧ ino < volume.fresh ∧ SlotChange volume after slot (some ino) := by
  unfold linkSlot at done
  split at done
  · rename_i free
    split at done
    · rename_i allocated
      rw [← Option.some.inj done]
      exact ⟨free, allocated, putSlot_change⟩
    · cases done
  · cases done

theorem unlinkSlot_change (done : volume.unlinkSlot slot = some after) :
    SlotChange volume after slot none := by
  unfold unlinkSlot at done
  split at done
  · cases done
  · rw [← Option.some.inj done]
    exact dropSlot_change

/-- A file that is replaced has a new inode. -/
theorem replaceSlot_change (content : Inode) :
    SlotChange volume (volume.replaceSlot slot content) slot (some volume.fresh) ∧
      (volume.replaceSlot slot content).inodes volume.fresh = content where
  left :=
    { slot := fun other => by
        unfold slot? replaceSlot putSlot allocate
        rw [OrderedDict.get?_set]
        simp [eq_comm]
      node := fun _ _ => rfl
      inodes := fun other earlier => by
        simp [replaceSlot, putSlot, allocate, Nat.ne_of_lt earlier]
      fresh := Nat.le_succ _ }
  right := by simp [replaceSlot, putSlot, allocate]

theorem openWrite_of_some (found : volume.slot? slot = some ino) :
    volume.openWrite slot = volume.setContent ino ⟨[], volume.clock⟩ := by
  simp [openWrite, found]

theorem openWrite_of_none (free : volume.slot? slot = none) :
    volume.openWrite slot = volume.replaceSlot slot ⟨[], volume.clock⟩ := by
  simp [openWrite, free]

theorem moveTree_change {source target : Root} (done : volume.moveTree source target = some after) :
    volume.node? source [] = some .directory ∧ volume.node? target [] = none ∧
      TreeMoved volume after source target := by
  unfold moveTree at done
  split at done
  · rename_i there
    rw [← Option.some.inj done]
    exact ⟨there.1, there.2, fun root path => get?_movedNodes there.2 root path, fun _ => rfl, rfl,
      rfl⟩
  · cases done

theorem moveTree_isSome {source target : Root} (there : volume.node? source [] = some .directory)
    (free : volume.node? target [] = none) : ∃ after, volume.moveTree source target = some after := by
  unfold moveTree
  rw [dif_pos ⟨there, free⟩]
  exact ⟨_, rfl⟩

/-- A file in a slot has one name when nothing else is linked to it. -/
theorem nlink_eq_one (found : volume.slot? slot = some ino) :
    volume.nlink ino = 1 ↔ (∀ other, volume.slot? other = some ino → other = slot) ∧
      ∀ root path, volume.node? root path ≠ some (.file ino) := by
  have slots := OrderedDict.count_eq_one volume.slots_distinct found
  have nodes : OrderedDict.count volume.nodes (.file ino) = 0 ↔ _ :=
    OrderedDict.count_eq_zero volume.nodes_distinct
  have counted : OrderedDict.count volume.slots ino ≠ 0 := by
    intro zero
    exact (OrderedDict.count_eq_zero volume.slots_distinct).mp zero slot found
  unfold nlink
  constructor
  · intro one
    have split : OrderedDict.count volume.slots ino = 1 ∧
        OrderedDict.count volume.nodes (.file ino) = 0 := by omega
    exact ⟨slots.mp split.1, fun root path => nodes.mp split.2 (root, path)⟩
  · rintro ⟨alone, unlinked⟩
    have one := slots.mpr alone
    have zero := nodes.mpr fun key => unlinked key.1 key.2
    omega

end Effects

end Volume

end MastProvisioning.Storage
