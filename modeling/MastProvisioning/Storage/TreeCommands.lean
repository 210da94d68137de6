import MastProvisioning.Semantics.Command
import MastProvisioning.Storage.LinkVolume

/-!
# Commands on directory trees

Making the directories above a path and removing a whole tree, as sequences of
system calls on a `Volume`. Uninterrupted, the first fails exactly when a file is in
the way, and the second leaves nothing of the tree.
-/

namespace MastProvisioning.Storage

open MastProvisioning.Semantics MastProvisioning.Semantics.Command

variable {Slot Root : Type} [DecidableEq Slot] [DecidableEq Root]

/-- `mkdir` with `exist_ok`. -/
def ensureDirectory (root : Root) (path : Path) : Command (Volume Slot Root) Unit := do
  let node ← query fun volume => volume.node? root path
  match node with
  | some .directory => pure ()
  | some (.file _) => exit "not a directory"
  | none => change "mkdir" fun volume => volume.mkdir root path

/-- The directories from one path on down. -/
def makeDirsFrom (root : Root) : Path → Path → Command (Volume Slot Root) Unit
  | above, [] => ensureDirectory root above
  | above, name :: below => do
    ensureDirectory root above
    makeDirsFrom root (above ++ [name]) below

/-- `mkdir` with `parents` and `exist_ok`. -/
def makeDirs (root : Root) (path : Path) : Command (Volume Slot Root) Unit :=
  makeDirsFrom root [] path

/-- A system call whose errors may be ignored. -/
def attempt (tolerant : Bool) (command : Command (Volume Slot Root) Unit) :
    Command (Volume Slot Root) Unit :=
  if tolerant then ignoreErrors command else command

/-- Remove what is at a path of a tree. -/
def removeEntry (root : Root) (entry : Path × Node) : Command (Volume Slot Root) Unit :=
  match entry.2 with
  | .file _ => change "unlink" fun volume => volume.unlink root entry.1
  | .directory => change "rmdir" fun volume => volume.rmdir root entry.1

/-- `rmtree`; `tolerant` is `ignore_errors`. -/
def removeTree (tolerant : Bool) (root : Root) : Command (Volume Slot Root) Unit := do
  let listing ← query fun volume => volume.walk root
  forEach listing fun entry => attempt tolerant (removeEntry root entry)
  attempt tolerant (change "rmdir" fun volume => volume.rmdir root [])

section Effects

variable {volume after : Volume Slot Root} {root : Root} {path : Path}

/-- Two volumes whose slots and inodes are the same. -/
structure SameFiles (volume after : Volume Slot Root) : Prop where
  slot : ∀ slot, after.slot? slot = volume.slot? slot
  inodes : after.inodes = volume.inodes
  fresh : after.fresh = volume.fresh

theorem SameFiles.refl : SameFiles volume volume := ⟨fun _ => rfl, rfl, rfl⟩

theorem SameFiles.trans {middle : Volume Slot Root} (first : SameFiles volume middle)
    (second : SameFiles middle after) : SameFiles volume after where
  slot slot := (second.slot slot).trans (first.slot slot)
  inodes := second.inodes.trans first.inodes
  fresh := second.fresh.trans first.fresh

theorem Volume.NodeChange.sameFiles {value : Option Node}
    (change : Volume.NodeChange volume after root path value) : SameFiles volume after :=
  ⟨change.slot, change.inodes, change.fresh⟩

/-- The directories below one path down to another have been made. -/
structure DirsMade (volume after : Volume Slot Root) (root : Root) (above below : Path) : Prop where
  made : ∀ part, part <+: below → after.node? root (above ++ part) = some .directory
  kept : ∀ other path, (other = root → ∀ part, part <+: below → path ≠ above ++ part) →
    after.node? other path = volume.node? other path
  files : SameFiles volume after

/-- A file on the way from one path down to another. -/
def FileOnWay (volume : Volume Slot Root) (root : Root) (above below : Path) : Prop :=
  ∃ part ino, part <+: below ∧ volume.node? root (above ++ part) = some (.file ino)

theorem ensureDirectory_meets
    (under : path = [] ∨ volume.node? root path.dropLast = some .directory) :
    Meets .reliable (ensureDirectory root path) volume
      (fun _ after => ¬ FileOnWay volume root path [] ∧ DirsMade volume after root path [])
      fun _ => FileOnWay volume root path [] := by
  refine .query_bind ?_ (by simp)
  cases isNode : volume.node? root path with
  | none =>
    refine .change ?_ ?_ (by simp)
    · intro after made
      obtain ⟨-, change⟩ := Volume.mkdir_change made
      refine ⟨?_, ?_, ?_, change.sameFiles⟩
      · rintro ⟨part, ino, isPrefix, isFile⟩
        obtain rfl := List.prefix_nil.mp isPrefix
        simp [isNode] at isFile
      · intro part isPrefix
        obtain rfl := List.prefix_nil.mp isPrefix
        simp [change.node]
      · intro other below different
        rw [change.node, if_neg]
        rintro ⟨same, rfl⟩
        exact different same [] List.nil_prefix (by simp)
    · intro fails
      obtain ⟨after, made⟩ := Volume.mkdir_isSome isNode under
      rw [fails] at made
      cases made
  | some node =>
    cases node with
    | directory =>
      refine .pure ⟨?_, ?_, fun _ _ _ => rfl, .refl⟩
      · rintro ⟨part, ino, isPrefix, isFile⟩
        obtain rfl := List.prefix_nil.mp isPrefix
        simp [isNode] at isFile
      · intro part isPrefix
        obtain rfl := List.prefix_nil.mp isPrefix
        simp [isNode]
    | file ino =>
      exact .exit ⟨[], ino, List.nil_prefix, by simp [isNode]⟩

theorem makeDirsFrom_meets {above below : Path}
    (under : above = [] ∨ volume.node? root above.dropLast = some .directory) :
    Meets .reliable (makeDirsFrom root above below) volume
      (fun _ after => ¬ FileOnWay volume root above below ∧ DirsMade volume after root above below)
      fun _ => FileOnWay volume root above below := by
  induction below generalizing above volume with
  | nil => exact ensureDirectory_meets under
  | cons name below ih =>
    have first : Meets .reliable (ensureDirectory root above) volume
        (fun _ after => ¬ FileOnWay volume root above [] ∧ DirsMade volume after root above [])
        fun _ => FileOnWay volume root above (name :: below) := by
      refine (ensureDirectory_meets under).mono (fun _ _ => id) ?_
      rintro _ ⟨part, ino, isPrefix, isFile⟩
      obtain rfl := List.prefix_nil.mp isPrefix
      exact ⟨[], ino, List.nil_prefix, isFile⟩
    refine first.bind ?_
    rintro _ middle ⟨clear, made⟩
    have here : middle.node? root above = some .directory := by
      simpa using made.made [] List.nil_prefix
    have later : ∀ part, middle.node? root (above ++ [name] ++ part) =
        volume.node? root (above ++ [name] ++ part) := by
      intro part
      refine made.kept root _ fun _ other isPrefix => ?_
      obtain rfl := List.prefix_nil.mp isPrefix
      simp
    refine (ih (.inr (by simpa using here))).mono ?_ ?_
    · rintro _ after ⟨clearBelow, madeBelow⟩
      refine ⟨?_, ?_, ?_, made.files.trans madeBelow.files⟩
      · rintro ⟨part, ino, isPrefix, isFile⟩
        cases part with
        | nil => exact clear ⟨[], ino, List.nil_prefix, isFile⟩
        | cons head part =>
          obtain ⟨rfl, more⟩ := List.cons_prefix_cons.mp isPrefix
          refine clearBelow ⟨part, ino, more, ?_⟩
          rw [later]
          simpa using isFile
      · intro part isPrefix
        cases part with
        | nil =>
          rw [madeBelow.kept root _ fun _ other _ => by simp]
          simpa using here
        | cons head part =>
          obtain ⟨rfl, more⟩ := List.cons_prefix_cons.mp isPrefix
          simpa using madeBelow.made part more
      · intro other path different
        rw [madeBelow.kept other path, made.kept other path]
        · intro same part isPrefix
          obtain rfl := List.prefix_nil.mp isPrefix
          exact different same [] List.nil_prefix
        · intro same part isPrefix
          have far := different same (name :: part) (List.cons_prefix_cons.mpr ⟨rfl, isPrefix⟩)
          simpa using far
    · rintro _ ⟨part, ino, isPrefix, isFile⟩
      refine ⟨name :: part, ino, List.cons_prefix_cons.mpr ⟨rfl, isPrefix⟩, ?_⟩
      rw [later] at isFile
      simpa using isFile

/-- Making the directories down to a path fails exactly when a file is in the way. -/
theorem makeDirs_meets : Meets .reliable (makeDirs root path) volume
    (fun _ after => ¬ FileOnWay volume root [] path ∧ DirsMade volume after root [] path)
    fun _ => FileOnWay volume root [] path :=
  makeDirsFrom_meets (.inl rfl)

/-- Where a file is in the way nothing has been made: what is above it was there. -/
theorem makeDirsFrom_blocked {above below : Path} (blocked : FileOnWay volume root above below) :
    Meets .reliable (makeDirsFrom root above below) volume (fun _ _ => False)
      fun after => after = volume := by
  obtain ⟨part, ino, isPrefix, isFile⟩ := blocked
  have stops {path : Path} (isHere : volume.node? root path = some (.file ino)) :
      Meets .reliable (ensureDirectory root path) volume (fun _ _ => False)
        fun after => after = volume := by
    refine .query_bind ?_ (by simp)
    rw [isHere]
    exact .exit rfl
  induction below generalizing above part with
  | nil =>
    obtain rfl := List.prefix_nil.mp isPrefix
    exact stops (by simpa using isFile)
  | cons name below ih =>
    cases part with
    | nil => exact (stops (by simpa using isFile)).bind fun _ _ => False.elim
    | cons head part =>
      obtain ⟨rfl, more⟩ := List.cons_prefix_cons.mp isPrefix
      have isFileBelow : volume.node? root (above ++ [head] ++ part) = some (.file ino) := by
        simpa using isFile
      have isDirectory : volume.node? root above = some .directory :=
        Volume.directory_of_prefix (List.prefix_append above (head :: part)) (by simp) isFile
      have passes : Meets .reliable (ensureDirectory root above) volume
          (fun _ after => after = volume) fun after => after = volume := by
        refine .query_bind ?_ (by simp)
        rw [isDirectory]
        exact .pure rfl
      refine passes.bind ?_
      rintro ⟨⟩ _ rfl
      exact ih part more isFileBelow

/-- Where the directory is there nothing is made. -/
theorem makeDirsFrom_there {above below : Path}
    (isDirectory : volume.node? root (above ++ below) = some .directory) :
    Meets .reliable (makeDirsFrom root above below) volume (fun _ after => after = volume)
      fun _ => False := by
  have passes {path : Path} (isHere : volume.node? root path = some .directory) :
      Meets .reliable (ensureDirectory root path) volume (fun _ after => after = volume)
        fun _ => False := by
    refine .query_bind ?_ (by simp)
    rw [isHere]
    exact .pure rfl
  induction below generalizing above with
  | nil => exact passes (by simpa using isDirectory)
  | cons name below ih =>
    refine (passes ?_).bind ?_
    · exact Volume.directory_of_prefix (List.prefix_append above (name :: below)) (by simp)
        isDirectory
    · rintro ⟨⟩ _ rfl
      exact ih (by simpa using isDirectory)

/-- Nothing of a tree is left. -/
structure TreeGone (volume after : Volume Slot Root) (root : Root) : Prop where
  node : ∀ other path, after.node? other path =
    if other = root then none else volume.node? other path
  files : SameFiles volume after

/-- All that is left below the root of a tree are the entries still to be removed. -/
structure Removing (volume : Volume Slot Root) (root : Root) (rest : List (Path × Node))
    (after : Volume Slot Root) : Prop where
  others : ∀ other path, other ≠ root → after.node? other path = volume.node? other path
  top : after.node? root [] = volume.node? root []
  below : ∀ path node, path ≠ [] → (after.node? root path = some node ↔ (path, node) ∈ rest)
  files : SameFiles volume after

/-- A directory whose entries all come before it in the walk has none left. -/
theorem Removing.empty {entry : Path × Node} {rest : List (Path × Node)}
    (removing : Removing volume root (entry :: rest) after)
    (suffix : (entry :: rest) <:+ volume.walk root) :
    after.hasEntries root entry.1 = false := by
  by_contra some
  obtain ⟨name, node, found⟩ := Volume.hasEntries_iff.mp (by simpa using some)
  have member := (removing.below _ node (by simp)).mp found
  have deepest := Volume.walk_deepest.sublist suffix.sublist
  rcases List.mem_cons.mp member with isEntry | later
  · have same := congrArg (List.length ∘ Prod.fst) isEntry
    simp at same
  · have shorter := List.rel_of_pairwise_cons deepest later
    simp only [List.length_append, List.length_singleton] at shorter
    omega

theorem Removing.step {entry : Path × Node} {rest : List (Path × Node)} {next : Volume Slot Root}
    (removing : Removing volume root (entry :: rest) after)
    (suffix : (entry :: rest) <:+ volume.walk root)
    (change : Volume.NodeChange after next root entry.1 none) : Removing volume root rest next where
  others other path different := by
    rw [change.node, if_neg fun same => different same.1]
    exact removing.others other path different
  top := by
    have nonempty : entry.1 ≠ [] :=
      (Volume.mem_walk.mp (suffix.subset List.mem_cons_self)).1
    rw [change.node, if_neg fun same => nonempty same.2.symm]
    exact removing.top
  below path node nonempty := by
    have nodup := Volume.walk_nodup.sublist (suffix.sublist.map Prod.fst)
    have once : entry.1 ∉ rest.map Prod.fst := (List.nodup_cons.mp nodup).1
    rw [change.node]
    by_cases here : path = entry.1
    · rw [if_pos ⟨rfl, here⟩]
      constructor
      · intro found
        cases found
      · intro later
        exact absurd (here ▸ List.mem_map_of_mem later) once
    · rw [if_neg fun same => here same.2, removing.below path node nonempty, List.mem_cons]
      exact ⟨fun found => found.resolve_left fun same => here (congrArg Prod.fst same), .inr⟩
  files := removing.files.trans change.sameFiles

theorem Removing.initially : Removing volume root (volume.walk root) volume where
  others _ _ _ := rfl
  top := rfl
  below path node nonempty := by simp [Volume.mem_walk, nonempty]
  files := .refl

theorem removeEntry_meets {entry : Path × Node} {rest : List (Path × Node)}
    (removing : Removing volume root (entry :: rest) after)
    (suffix : (entry :: rest) <:+ volume.walk root) :
    Meets .reliable (removeEntry root entry) after (fun _ => Removing volume root rest)
      fun _ => False := by
  have nonempty : entry.1 ≠ [] := (Volume.mem_walk.mp (suffix.subset List.mem_cons_self)).1
  have here : after.node? root entry.1 = some entry.2 :=
    (removing.below entry.1 entry.2 nonempty).mpr List.mem_cons_self
  unfold removeEntry
  split
  · rename_i ino isFile
    rw [isFile] at here
    refine .change (fun next done => removing.step suffix (Volume.unlink_change done).2) ?_ (by simp)
    intro fails
    obtain ⟨next, done⟩ := Volume.unlink_isSome here
    rw [fails] at done
    cases done
  · rename_i isDirectory
    rw [isDirectory] at here
    refine .change (fun next done => removing.step suffix (Volume.rmdir_change done).2.2) ?_ (by simp)
    intro fails
    obtain ⟨next, done⟩ := Volume.rmdir_isSome here (removing.empty suffix)
    rw [fails] at done
    cases done

theorem attempt_meets {tolerant : Bool} {command : Command (Volume Slot Root) Unit}
    {finished : Unit → Volume Slot Root → Prop}
    (meets : Meets .reliable command volume finished fun _ => False) :
    Meets .reliable (attempt tolerant command) volume finished fun _ => False := by
  unfold attempt
  split
  · exact meets.ignoreErrors (fun _ => False.elim) fun _ _ => id
  · exact meets

/-- Removing a tree leaves nothing of it; unless errors are ignored, it fails only
when there is no such tree. -/
theorem removeTree_meets {tolerant : Bool} :
    Meets .reliable (removeTree tolerant root) volume (fun _ after => TreeGone volume after root)
      fun _ => tolerant = false ∧ volume.node? root [] = none := by
  refine .query_bind ?_ (by simp)
  have emptied : Meets .reliable
      (forEach (volume.walk root) fun entry => attempt tolerant (removeEntry root entry)) volume
      (fun _ => Removing volume root [])
      fun _ => tolerant = false ∧ volume.node? root [] = none := by
    refine (Meets.forEach Removing.initially fun entry rest after suffix removing =>
      attempt_meets (removeEntry_meets removing suffix)).mono (fun _ _ => id) fun _ => False.elim
  refine emptied.bind ?_
  intro _ middle removing
  have nothing : ∀ path, path ≠ [] → middle.node? root path = none := by
    intro path nonempty
    by_contra some
    obtain ⟨node, found⟩ := Option.ne_none_iff_exists'.mp some
    have member := (removing.below path node nonempty).mp found
    cases member
  have childless : middle.hasEntries root [] = false := by
    by_contra some
    obtain ⟨name, node, found⟩ := Volume.hasEntries_iff.mp (by simpa using some)
    rw [nothing _ (by simp)] at found
    cases found
  cases isRoot : volume.node? root [] with
  | some node =>
    obtain rfl := Volume.root_directory isRoot
    have there : middle.node? root [] = some .directory := removing.top.trans isRoot
    refine (attempt_meets (.change ?_ ?_ (by simp))).mono (fun _ _ => id) fun _ => False.elim
    · intro after done
      obtain ⟨-, -, change⟩ := Volume.rmdir_change done
      refine ⟨fun other path => ?_, removing.files.trans change.sameFiles⟩
      rw [change.node]
      by_cases same : other = root
      · rw [if_pos same]
        by_cases isTop : path = []
        · rw [if_pos ⟨same, isTop⟩]
        · rw [if_neg fun both => isTop both.2, same, nothing path isTop]
      · rw [if_neg fun both => same both.1, if_neg same, removing.others other path same]
    · intro fails
      obtain ⟨after, done⟩ := Volume.rmdir_isSome there childless
      rw [fails] at done
      cases done
  | none =>
    have gone : TreeGone volume middle root := by
      refine ⟨fun other path => ?_, removing.files⟩
      by_cases same : other = root
      · rw [if_pos same, same]
        exact Volume.node?_of_no_root (removing.top.trans isRoot) path
      · rw [if_neg same, removing.others other path same]
    have fails : middle.rmdir root [] = none := by
      by_contra some
      obtain ⟨after, done⟩ := Option.ne_none_iff_exists'.mp some
      have there := (Volume.rmdir_change done).1
      rw [removing.top, isRoot] at there
      cases there
    have attempted : Meets .reliable
        (change "rmdir" fun volume : Volume Slot Root => volume.rmdir root []) middle
        (fun _ _ => False) fun after => after = middle := by
      refine .change ?_ (fun _ => rfl) (by simp)
      intro after done
      rw [fails] at done
      cases done
    unfold attempt
    split
    · have failing : Meets .reliable
          (change "rmdir" fun volume : Volume Slot Root => volume.rmdir root []) middle
          (fun _ after => TreeGone volume after root) fun after => after = middle :=
        attempted.mono (fun _ _ => False.elim) fun _ => id
      refine failing.ignoreErrors ?_ (by simp)
      rintro _ rfl
      exact gone
    · rename_i strict
      exact attempted.mono (fun _ _ => False.elim) fun _ _ => ⟨by simpa using strict, rfl⟩

section Strictness

theorem ensureDirectory_strict :
    Strict (ensureDirectory root path : Command (Volume Slot Root) Unit) := by
  refine .bind (.query _) fun node => ?_
  rcases node with _ | _ | _
  · exact .change _ _
  · exact .pure ()
  · exact .exit _

theorem makeDirsFrom_strict {above below : Path} :
    Strict (makeDirsFrom root above below : Command (Volume Slot Root) Unit) := by
  induction below generalizing above with
  | nil => exact ensureDirectory_strict
  | cons name below ih => exact .bind ensureDirectory_strict fun _ => ih

theorem makeDirs_strict : Strict (makeDirs root path : Command (Volume Slot Root) Unit) :=
  makeDirsFrom_strict

theorem removeEntry_strict {entry : Path × Node} :
    Strict (removeEntry root entry : Command (Volume Slot Root) Unit) := by
  unfold removeEntry
  split
  · exact .change _ _
  · exact .change _ _

theorem attempt_strict {command : Command (Volume Slot Root) Unit} (strict : Strict command) :
    Strict (attempt false command) := by
  unfold attempt
  rw [if_neg (by decide)]
  exact strict

/-- Removing a tree hides no error unless it is told to. -/
theorem removeTree_strict : Strict (removeTree false root : Command (Volume Slot Root) Unit) :=
  .bind (.query _) fun _ => .bind (.forEach fun _ => attempt_strict removeEntry_strict) fun _ =>
    attempt_strict (.change _ _)

end Strictness

section Preserving

variable {mode : Mode} {Inv : Volume Slot Root → Prop}

theorem ensureDirectory_preserves (kept : ∀ volume after, Inv volume →
      volume.mkdir root path = some after → Inv after) :
    Preserves mode Inv (ensureDirectory root path) := by
  refine .bind (.query _) fun node => ?_
  rcases node with _ | _ | _
  · exact .change kept
  · exact .pure ()
  · exact .exit _

theorem makeDirsFrom_preserves {above below : Path} (kept : ∀ volume path after, Inv volume →
      volume.mkdir root path = some after → Inv after) :
    Preserves mode Inv (makeDirsFrom root above below) := by
  induction below generalizing above with
  | nil => exact ensureDirectory_preserves fun volume => kept volume _
  | cons name below ih => exact .bind (ensureDirectory_preserves fun volume => kept volume _) fun _ => ih

/-- What making a directory keeps, making several keeps. -/
theorem makeDirs_preserves (kept : ∀ volume path after, Inv volume →
      volume.mkdir root path = some after → Inv after) :
    Preserves mode Inv (makeDirs root path) :=
  makeDirsFrom_preserves kept

theorem attempt_preserves {tolerant : Bool} {command : Command (Volume Slot Root) Unit}
    (preserves : Preserves mode Inv command) : Preserves mode Inv (attempt tolerant command) := by
  unfold attempt
  split
  · exact .ignoreErrors preserves
  · exact preserves

theorem removeEntry_preserves {entry : Path × Node}
    (unlinks : ∀ volume path after, Inv volume → volume.unlink root path = some after → Inv after)
    (rmdirs : ∀ volume path after, Inv volume → volume.rmdir root path = some after → Inv after) :
    Preserves mode Inv (removeEntry root entry) := by
  unfold removeEntry
  split
  · exact .change fun volume => unlinks volume _
  · exact .change fun volume => rmdirs volume _

/-- What removing an entry keeps, removing a tree keeps. -/
theorem removeTree_preserves {tolerant : Bool}
    (unlinks : ∀ volume path after, Inv volume → volume.unlink root path = some after → Inv after)
    (rmdirs : ∀ volume path after, Inv volume → volume.rmdir root path = some after → Inv after) :
    Preserves mode Inv (removeTree tolerant root) := by
  refine .bind (.query _) fun listing => .bind (.forEach fun entry _ => ?_) fun _ => ?_
  · exact attempt_preserves (removeEntry_preserves unlinks rmdirs)
  · exact attempt_preserves (.change fun volume => rmdirs volume _)

end Preserving

end Effects

end MastProvisioning.Storage
