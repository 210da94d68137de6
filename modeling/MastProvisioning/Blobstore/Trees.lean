import MastProvisioning.Blobstore.Store

/-!
# What the blobstore's commands do to trees

The uninterrupted effect of linking one file, of pruning a tree and of recording a
snapshot. A tree is described by the digest it is to hold at each path; `Matches`
says that it holds these files and no others.
-/

namespace MastProvisioning.Blobstore

open MastProvisioning.Semantics MastProvisioning.Semantics.Command
open MastProvisioning.Collections MastProvisioning.Storage

/-- The digest wanted at each path. -/
abbrev Wanted := Path → Option String

/-- What a manifest wants. -/
def wantedBy (files : List Entry) : Wanted := OrderedDict.get? id (pathDigests files)

/-- A tree holds exactly the wanted files, each linked to the blob of its digest. -/
structure Matches (relay : Relay) (tree : Tree) (wanted : Wanted) : Prop where
  linked : ∀ path digest, wanted path = some digest →
    ∃ ino, relay.slot? (.blob digest) = some ino ∧ relay.node? tree path = some (.file ino)
  only : ∀ path ino, relay.node? tree path = some (.file ino) → (wanted path).isSome

/-- No path is a directory of another. -/
def PrefixFree (wanted : Wanted) : Prop :=
  ∀ path other, (wanted path).isSome → (wanted other).isSome → path <+: other → path = other

/-- Every wanted blob is held. -/
def Held (relay : Relay) (wanted : Wanted) : Prop :=
  ∀ path digest, wanted path = some digest → (relay.slot? (.blob digest)).isSome

/-- A file can be put at a path: no directory is there and no file is on the way. -/
structure Open (relay : Relay) (tree : Tree) (path : Path) : Prop where
  notDirectory : relay.node? tree path ≠ some .directory
  clear : ∀ above ino, above <+: path → above ≠ path → relay.node? tree above ≠ some (.file ino)

/-- A file has been put at a path. -/
structure FilePut (relay after : Relay) (tree : Tree) (path : Path) (ino : Nat) : Prop where
  here : after.node? tree path = some (.file ino)
  above : ∀ part, part <+: path → part ≠ path → after.node? tree part = some .directory
  kept : ∀ other part, (other = tree → ¬ part <+: path) →
    after.node? other part = relay.node? other part
  files : SameFiles relay after

/-- The wanted files have been put into a tree. -/
structure Placed (relay after : Relay) (tree : Tree) (wanted : Wanted) : Prop where
  linked : ∀ path digest, wanted path = some digest →
    ∃ ino, relay.slot? (.blob digest) = some ino ∧ after.node? tree path = some (.file ino)
  above : ∀ path key, wanted path = none → (wanted key).isSome → path <+: key →
    after.node? tree path = some .directory
  kept : ∀ path, (∀ key, (wanted key).isSome → ¬ path <+: key) →
    after.node? tree path = relay.node? tree path
  others : ∀ other path, other ≠ tree → after.node? other path = relay.node? other path
  files : SameFiles relay after

section Manifests

variable {files : List Entry}

theorem pathDigests_distinct : OrderedDict.Distinct id (pathDigests files) :=
  OrderedDict.distinct_nil.setAll _

theorem wantedBy_eq_some {path : Path} {digest : String} :
    wantedBy files path = some digest ↔ (path, digest) ∈ pathDigests files :=
  OrderedDict.get?_eq_some pathDigests_distinct

theorem pathDigests_append (entry : Entry) :
    pathDigests (files ++ [entry]) = OrderedDict.set id (pathDigests files) entry.path entry.sha256 := by
  simp [pathDigests, OrderedDict.setAll]

theorem wantedBy_append (entry : Entry) :
    wantedBy (files ++ [entry]) = Function.update (wantedBy files) entry.path (some entry.sha256) := by
  funext path
  unfold wantedBy
  rw [pathDigests_append, OrderedDict.get?_set, Function.update_apply]
  simp [eq_comm]

theorem entry_of_mem_pathDigests {path : Path} {digest : String}
    (member : (path, digest) ∈ pathDigests files) :
    ∃ entry ∈ files, entry.path = path ∧ entry.sha256 = digest := by
  rcases OrderedDict.mem_setAll member with found | none
  · obtain ⟨entry, isEntry, same⟩ := List.mem_map.mp found
    exact ⟨entry, isEntry, (Prod.mk.inj same).1, (Prod.mk.inj same).2⟩
  · cases none

theorem entry_of_wantedBy {path : Path} {digest : String}
    (wanted : wantedBy files path = some digest) :
    ∃ entry ∈ files, entry.path = path ∧ entry.sha256 = digest :=
  entry_of_mem_pathDigests (wantedBy_eq_some.mp wanted)

/-- Every path of a manifest is wanted. -/
theorem wantedBy_isSome {path : Path} :
    (wantedBy files path).isSome ↔ path ∈ files.map Entry.path := by
  induction files using List.reverseRecOn with
  | nil => simp [wantedBy, pathDigests, OrderedDict.setAll, OrderedDict.get?]
  | append_singleton files entry ih =>
    rw [wantedBy_append, Function.update_apply, List.map_append, List.mem_append, ← ih]
    by_cases here : path = entry.path <;> simp [here]

/-- The root of a tree is no path of a manifest. -/
theorem wantedBy_root : wantedBy files [] = none := by
  by_contra some
  obtain ⟨digest, wanted⟩ := Option.ne_none_iff_exists'.mp some
  obtain ⟨entry, -, isRoot, -⟩ := entry_of_wantedBy wanted
  exact entry.named isRoot

end Manifests

section Linking

variable {relay middle after : Relay} {tree : Tree} {path : Path} {wanted : Wanted}

theorem prefix_dropLast (named : path ≠ []) {above : Path} :
    above <+: path.dropLast ↔ above <+: path ∧ above ≠ path := by
  conv_rhs => rw [← List.dropLast_append_getLast named]
  rw [List.prefix_concat_iff]
  constructor
  · intro isPrefix
    refine ⟨.inr isPrefix, ?_⟩
    rintro rfl
    have shorter := isPrefix.length_le
    rw [List.length_append, List.length_singleton] at shorter
    omega
  · rintro ⟨same | isPrefix, different⟩
    · exact absurd same different
    · exact isPrefix

theorem fileOnWay_dropLast (named : path ≠ []) :
    FileOnWay relay tree [] path.dropLast ↔
      ∃ above ino, above <+: path ∧ above ≠ path ∧ relay.node? tree above = some (.file ino) := by
  unfold FileOnWay
  constructor
  · rintro ⟨above, ino, isPrefix, isFile⟩
    obtain ⟨isPrefix, different⟩ := (prefix_dropLast named).mp isPrefix
    exact ⟨above, ino, isPrefix, different, isFile⟩
  · rintro ⟨above, ino, isPrefix, different, isFile⟩
    exact ⟨above, ino, (prefix_dropLast named).mpr ⟨isPrefix, different⟩, isFile⟩

/-- Making the directories above a path leaves what is at the path itself. -/
theorem dirsMade_at (named : path ≠ []) (made : DirsMade relay after tree [] path.dropLast) :
    after.node? tree path = relay.node? tree path := by
  refine made.kept tree path fun _ part isPrefix same => ?_
  have different := ((prefix_dropLast named).mp isPrefix).2
  exact different same.symm

/-- The last step of putting a file: its path now holds it, and nothing else has
changed since the directories were made. -/
theorem FilePut.of_made {ino : Nat} (named : path ≠ [])
    (made : DirsMade relay middle tree [] path.dropLast)
    (node : ∀ other below, after.node? other below =
      if other = tree ∧ below = path then some (.file ino) else middle.node? other below)
    (files : SameFiles middle after) : FilePut relay after tree path ino where
  here := by rw [node, if_pos ⟨rfl, rfl⟩]
  above part isPrefix different := by
    rw [node, if_neg fun same => different same.2]
    exact made.made part ((prefix_dropLast named).mpr ⟨isPrefix, different⟩)
  kept other part apart := by
    rw [node, if_neg]
    · refine made.kept other part fun same below isPrefix isPart => ?_
      have isBelow : part = below := isPart
      exact apart same (isBelow ▸ ((prefix_dropLast named).mp isPrefix).1)
    · rintro ⟨same, rfl⟩
      exact apart same (List.prefix_refl _)
  files := made.files.trans files

theorem whenever_meets {mode : Mode} {condition : Bool} {command : Command Relay Unit}
    {finished : Unit → Relay → Prop} {failed : Relay → Prop}
    (onTrue : condition = true → Meets mode command relay finished failed)
    (onFalse : condition = false → finished () relay) :
    Meets mode (whenever condition command) relay finished failed := by
  unfold whenever
  split
  · exact onTrue ‹_›
  · rename_i fails
    exact .done (onFalse (by simpa using fails))

theorem whenever_preserves {mode : Mode} {Inv : Relay → Prop} {condition : Bool}
    {command : Command Relay Unit} (preserves : Preserves mode Inv command) :
    Preserves mode Inv (whenever condition command) :=
  fun relay holds => whenever_meets (fun _ => preserves relay holds) fun _ => holds

/-- Removing the file at a path, when there is one; it fails on a directory. -/
theorem clear_meets {node : Option Node} (here : middle.node? tree path = node) :
    Meets .reliable (whenever node.isSome (change "unlink" fun relay => relay.unlink tree path))
      middle
      (fun _ cleared => SameFiles middle cleared ∧ node ≠ some .directory ∧
        ∀ other below, cleared.node? other below =
          if other = tree ∧ below = path then none else middle.node? other below)
      fun _ => node = some .directory := by
  refine whenever_meets ?_ ?_
  · intro _
    refine .change ?_ ?_ (by simp)
    · intro cleared done
      obtain ⟨⟨ino, isFile⟩, change⟩ := Volume.unlink_change done
      refine ⟨change.sameFiles, ?_, change.node⟩
      rw [← here, isFile]
      simp
    · intro fails
      cases node with
      | none => contradiction
      | some node =>
        cases node with
        | directory => rfl
        | file ino =>
          obtain ⟨cleared, done⟩ := Volume.unlink_isSome here
          rw [fails] at done
          cases done
  · intro isNone
    have nothing : node = none := by simpa using isNone
    refine ⟨.refl, by simp [nothing], ?_⟩
    intro other below
    split
    · rename_i same
      obtain ⟨rfl, rfl⟩ := same
      exact here.trans nothing
    · rfl

/-- Linking a held blob to a path that is free, once its directories have been made. -/
theorem link_meets {digest : String} {cleared : Relay} (named : path ≠ [])
    (made : DirsMade relay middle tree [] path.dropLast) (same : SameFiles middle cleared)
    (node : ∀ other below, cleared.node? other below =
      if other = tree ∧ below = path then none else middle.node? other below)
    (held : (relay.slot? (.blob digest)).isSome) :
    Meets .reliable (change "link" fun relay => relay.link (.blob digest) tree path) cleared
      (fun _ after => ∃ ino, relay.slot? (.blob digest) = some ino ∧
        FilePut relay after tree path ino)
      fun _ => False := by
  obtain ⟨ino, isBlob⟩ := Option.isSome_iff_exists.mp held
  have slots : ∀ slot, cleared.slot? slot = relay.slot? slot :=
    fun slot => (same.slot slot).trans (made.files.slot slot)
  refine .change ?_ ?_ (by simp)
  · intro after done
    obtain ⟨-, -, linked, isLinked, change⟩ := Volume.link_change done
    refine ⟨linked, (slots _).symm.trans isLinked, .of_made named made ?_ (same.trans change.sameFiles)⟩
    intro other below
    rw [change.node]
    split
    · rfl
    · rename_i elsewhere
      rw [node, if_neg elsewhere]
  · intro fails
    have parent := (prefix_dropLast named).mp (List.prefix_refl path.dropLast)
    have can : cleared.canPut tree path := by
      refine ⟨by rw [node, if_pos ⟨rfl, rfl⟩], named, ?_⟩
      rw [node, if_neg fun same => parent.2 same.2]
      simpa using made.made _ (List.prefix_refl _)
    obtain ⟨after, done⟩ := Volume.link_isSome ((slots _).trans isBlob) can
    rw [fails] at done
    cases done

/-- Making the directories above a path fails when the path is not open. -/
theorem makeDirs_above_meets (named : path ≠ []) :
    Meets .reliable (makeDirs tree path.dropLast) relay
      (fun _ middle =>
        (∀ above ino, above <+: path → above ≠ path → relay.node? tree above ≠ some (.file ino)) ∧
          DirsMade relay middle tree [] path.dropLast)
      fun _ => ¬ Open relay tree path := by
  refine makeDirs_meets.mono ?_ ?_
  · rintro _ middle ⟨clear, made⟩
    refine ⟨?_, made⟩
    intro above ino isPrefix different isFile
    exact clear ((fileOnWay_dropLast named).mpr ⟨above, ino, isPrefix, different, isFile⟩)
  · intro _ onWay isOpen
    obtain ⟨above, ino, isPrefix, different, isFile⟩ := (fileOnWay_dropLast named).mp onWay
    exact isOpen.clear above ino isPrefix different isFile

/-- Linking a file of the manifest succeeds exactly when its blob is held and it
can be put at its path. -/
theorem linkEntry_meets (entry : Entry) : Meets .reliable (linkEntry tree entry) relay
    (fun _ after => Open relay tree entry.path ∧ ∃ ino,
      relay.slot? (.blob entry.sha256) = some ino ∧ FilePut relay after tree entry.path ino)
    fun _ => ¬ (Open relay tree entry.path ∧ (relay.slot? (.blob entry.sha256)).isSome) := by
  refine .query_bind (.require_bind ?_ ?_) (by simp)
  · intro held
    refine ((makeDirs_above_meets entry.named).mono (fun _ _ => id) ?_).bind ?_
    · exact fun _ blocked both => blocked both.1
    rintro ⟨⟩ middle ⟨clear, made⟩
    have here : middle.node? tree entry.path = relay.node? tree entry.path :=
      dirsMade_at entry.named made
    refine .query_bind ?_ (by simp)
    rw [here]
    refine .ite ?_ ?_
    · -- The path is linked to the blob already.
      rintro ⟨-, linked⟩
      obtain ⟨ino, isBlob⟩ := Option.isSome_iff_exists.mp held
      rw [isBlob, Option.map_some] at linked
      refine .pure ⟨⟨by simp [linked], clear⟩, ino, isBlob, .of_made entry.named made ?_ .refl⟩
      intro other below
      split
      · rename_i same
        obtain ⟨rfl, rfl⟩ := same
        exact here.trans linked
      · rfl
    · intro _
      refine ((clear_meets here).mono (fun _ _ => id) ?_).bind ?_
      · exact fun _ isDirectory both => both.1.notDirectory isDirectory
      rintro ⟨⟩ cleared ⟨same, notDirectory, node⟩
      refine (link_meets entry.named made same node held).mono ?_ (fun _ => False.elim)
      exact fun _ _ put => ⟨⟨notDirectory, clear⟩, put⟩
  · rintro notHeld ⟨-, held⟩
    rw [held] at notHeld
    cases notHeld

/-- Where linking a file of the manifest fails it has done nothing. -/
theorem linkEntry_unchanged (entry : Entry) : Meets .reliable (linkEntry tree entry) relay
    (fun _ _ => True) fun after => after = relay := by
  refine .query_bind (.require_bind (fun held => ?_) fun _ => rfl) (by simp)
  by_cases isDirectory : relay.node? tree entry.path = some .directory
  · have parent := (prefix_dropLast entry.named).mp (List.prefix_refl entry.path.dropLast)
    have isAbove : relay.node? tree entry.path.dropLast = some .directory :=
      Volume.directory_of_prefix parent.1 parent.2 isDirectory
    refine ((makeDirsFrom_there (by simpa using isAbove)).mono (fun _ _ => id) fun _ => False.elim).bind ?_
    intro _ middle same
    obtain rfl := same.symm
    refine .query_bind (.ite (fun _ => .pure trivial) fun _ => ?_) (by simp)
    have stays : Meets .reliable (whenever (relay.node? tree entry.path).isSome
        (change "unlink" fun relay => relay.unlink tree entry.path)) relay
        (fun _ _ => False) fun after => after = relay := by
      refine whenever_meets (fun _ => .change ?_ (fun _ => rfl) (by simp)) ?_
      · intro after done
        obtain ⟨⟨ino, isFile⟩, _⟩ := Volume.unlink_change done
        rw [isDirectory] at isFile
        cases isFile
      · simp [isDirectory]
    exact stays.bind fun _ _ => False.elim
  · by_cases blocked : FileOnWay relay tree [] entry.path.dropLast
    · exact (makeDirsFrom_blocked blocked).bind fun _ _ => False.elim
    · refine (makeDirs_meets.mono (fun _ _ made => made.2) fun _ onWay => absurd onWay blocked).bind ?_
      rintro ⟨⟩ middle made
      refine .query_bind (.ite (fun _ => .pure trivial) fun _ => ?_) (by simp)
      have here : middle.node? tree entry.path = relay.node? tree entry.path :=
        dirsMade_at entry.named made
      refine ((clear_meets rfl).mono (fun _ _ => id) ?_).bind ?_
      · exact fun _ isThere => absurd (here.symm.trans isThere) isDirectory
      · rintro ⟨⟩ cleared ⟨same, -, node⟩
        exact (link_meets entry.named made same node held).mono (fun _ _ _ => trivial)
          fun _ => False.elim

/-- Linking a file of a snapshot succeeds exactly when its blob is held and nothing
is in its way. -/
theorem linkWanted_meets {entry : Path × String} (named : entry.1 ≠ []) :
    Meets .reliable (linkWanted tree entry) relay
      (fun _ after => Open relay tree entry.1 ∧ ∃ ino,
        relay.slot? (.blob entry.2) = some ino ∧ FilePut relay after tree entry.1 ino)
      fun _ => ¬ (Open relay tree entry.1 ∧ relay.node? tree entry.1 = none ∧
        (relay.slot? (.blob entry.2)).isSome) := by
  refine .query_bind (.require_bind ?_ ?_) (by simp)
  · intro held
    refine ((makeDirs_above_meets named).mono (fun _ _ => id) ?_).bind ?_
    · exact fun _ blocked all => blocked all.1
    rintro ⟨⟩ middle ⟨clear, made⟩
    have here : middle.node? tree entry.1 = relay.node? tree entry.1 := dirsMade_at named made
    by_cases free : relay.node? tree entry.1 = none
    · have same : ∀ other below, middle.node? other below =
          if other = tree ∧ below = entry.1 then none else middle.node? other below := by
        intro other below
        split
        · rename_i same
          obtain ⟨rfl, rfl⟩ := same
          exact here.trans free
        · rfl
      refine (link_meets named made .refl same held).mono ?_ (fun _ => False.elim)
      exact fun _ _ put => ⟨⟨by simp [free], clear⟩, put⟩
    · refine .change ?_ ?_ (by simp)
      · intro after done
        exact absurd (here.symm.trans (Volume.link_change done).1) free
      · exact fun _ all => free all.2.1
  · rintro notHeld ⟨-, -, held⟩
    rw [held] at notHeld
    cases notHeld

theorem Placed.nothing : Placed relay relay tree fun _ => none where
  linked _ _ wanted := by cases wanted
  above _ _ _ wanted := by cases wanted
  kept _ _ := rfl
  others _ _ _ := rfl
  files := .refl

/-- One more file has been put into a tree. -/
theorem Placed.put {digest : String} {ino : Nat} (placed : Placed relay middle tree wanted)
    (isOpen : Open middle tree path) (isBlob : middle.slot? (.blob digest) = some ino)
    (put : FilePut middle after tree path ino) :
    Placed relay after tree (Function.update wanted path (some digest)) := by
  have isBlobFirst : relay.slot? (.blob digest) = some ino := (placed.files.slot _).symm.trans isBlob
  -- A file that was placed before is not on the way to the new one.
  have apart : ∀ key, (wanted key).isSome → key ≠ path → ¬ key <+: path := by
    intro key isWanted different isPrefix
    obtain ⟨digest, isDigest⟩ := Option.isSome_iff_exists.mp isWanted
    obtain ⟨other, -, isFile⟩ := placed.linked key digest isDigest
    exact isOpen.clear key other isPrefix different isFile
  refine ⟨?_, ?_, ?_, ?_, placed.files.trans put.files⟩
  · intro key other isWanted
    by_cases here : key = path
    · rw [here, Function.update_self] at isWanted
      rw [← Option.some.inj isWanted]
      exact ⟨ino, isBlobFirst, here ▸ put.here⟩
    · rw [Function.update_of_ne here] at isWanted
      obtain ⟨linked, isLinked, isFile⟩ := placed.linked key other isWanted
      refine ⟨linked, isLinked, ?_⟩
      rw [put.kept tree key fun _ => apart key (by simp [isWanted]) here]
      exact isFile
  · intro part key notWanted isWanted isPrefix
    have different : part ≠ path := by
      rintro rfl
      rw [Function.update_self] at notWanted
      cases notWanted
    rw [Function.update_of_ne different] at notWanted
    by_cases onWay : part <+: path
    · exact put.above part onWay different
    · rw [put.kept tree part fun _ => onWay]
      have other : key ≠ path := fun same => onWay (same ▸ isPrefix)
      rw [Function.update_of_ne other] at isWanted
      exact placed.above part key notWanted isWanted isPrefix
  · intro part far
    have notOnWay : ¬ part <+: path := far path (by simp)
    rw [put.kept tree part fun _ => notOnWay]
    refine placed.kept part fun key isWanted isPrefix => far key ?_ isPrefix
    by_cases here : key = path
    · simp [here]
    · rwa [Function.update_of_ne here]
  · intro other part different
    rw [put.kept other part fun same => absurd same different]
    exact placed.others other part different

/-- A path that could take its file at first still can after others were placed. -/
theorem Placed.open_of (placed : Placed relay middle tree wanted) (isOpen : Open relay tree path)
    (apart : ∀ key, (wanted key).isSome → (key <+: path ∨ path <+: key) → key = path) :
    Open middle tree path where
  notDirectory := by
    intro isDirectory
    by_cases isWanted : (wanted path).isSome
    · obtain ⟨digest, isDigest⟩ := Option.isSome_iff_exists.mp isWanted
      obtain ⟨ino, -, isFile⟩ := placed.linked path digest isDigest
      rw [isDirectory] at isFile
      cases isFile
    · refine isOpen.notDirectory ?_
      rw [← placed.kept path fun key isKey isPrefix => ?_]
      · exact isDirectory
      · exact isWanted (apart key isKey (.inr isPrefix) ▸ isKey)
  clear := by
    intro above ino isPrefix different isFile
    have notWanted : wanted above = none := by
      by_contra some
      exact different (apart above (Option.isSome_iff_ne_none.mpr some) (.inl isPrefix))
    by_cases onWay : ∃ key, (wanted key).isSome ∧ above <+: key
    · obtain ⟨key, isKey, isAbove⟩ := onWay
      rw [placed.above above key notWanted isKey isAbove] at isFile
      cases isFile
    · rw [placed.kept above fun key isKey isAbove => onWay ⟨key, isKey, isAbove⟩] at isFile
      exact isOpen.clear above ino isPrefix different isFile

/-- A path that can take its file after others were placed could at first. -/
theorem Placed.open_first (placed : Placed relay middle tree wanted) (isOpen : Open middle tree path)
    (earlier : ∀ key, (wanted key).isSome → Open relay tree key) : Open relay tree path := by
  by_cases again : (wanted path).isSome
  · exact earlier path again
  refine ⟨?_, ?_⟩
  · intro isDirectory
    refine isOpen.notDirectory ?_
    by_cases onWay : ∃ key, (wanted key).isSome ∧ path <+: key
    · obtain ⟨key, isKey, isPrefix⟩ := onWay
      exact placed.above path key (by simpa using again) isKey isPrefix
    · rw [placed.kept path fun key isKey isPrefix => onWay ⟨key, isKey, isPrefix⟩]
      exact isDirectory
  · intro above ino isPrefix different isFile
    by_cases isWanted : (wanted above).isSome
    · obtain ⟨digest, isDigest⟩ := Option.isSome_iff_exists.mp isWanted
      obtain ⟨other, -, isOther⟩ := placed.linked above digest isDigest
      exact isOpen.clear above other isPrefix different isOther
    · by_cases onWay : ∃ key, (wanted key).isSome ∧ above <+: key
      · obtain ⟨key, isKey, isAbove⟩ := onWay
        have notKey : above ≠ key := fun same => isWanted (same ▸ isKey)
        exact (earlier key isKey).clear above ino isAbove notKey isFile
      · refine isOpen.clear above ino isPrefix different ?_
        rw [placed.kept above fun key isKey isAbove => onWay ⟨key, isKey, isAbove⟩]
        exact isFile

/-- A tree whose files and blobs are those of another holds what that one holds. -/
theorem Matches.congr {other : Tree} (same : Matches relay tree wanted)
    (blobs : ∀ path digest, wanted path = some digest →
      after.slot? (.blob digest) = relay.slot? (.blob digest))
    (nodes : ∀ path, after.node? other path = relay.node? tree path) :
    Matches after other wanted where
  linked path digest isWanted := by
    rw [blobs path digest isWanted, nodes]
    exact same.linked path digest isWanted
  only path ino isFile := same.only path ino ((nodes path).symm.trans isFile)

/-- The paths of a tree's files are apart. -/
theorem Matches.prefixFree (same : Matches relay tree wanted) : PrefixFree wanted := by
  intro path other isWanted isOther isPrefix
  by_contra different
  obtain ⟨digest, isDigest⟩ := Option.isSome_iff_exists.mp isWanted
  obtain ⟨another, isAnother⟩ := Option.isSome_iff_exists.mp isOther
  obtain ⟨_, -, isFile⟩ := same.linked path digest isDigest
  obtain ⟨_, -, below⟩ := same.linked other another isAnother
  rw [Volume.directory_of_prefix isPrefix different below] at isFile
  cases isFile

end Linking

section Entries

variable {relay middle after : Relay} {tree : Tree} {files : List Entry}

/-- Every path of a manifest can take its file. -/
def Placeable (relay : Relay) (tree : Tree) (files : List Entry) : Prop :=
  ∀ entry ∈ files, Open relay tree entry.path

/-- Every blob of a manifest is held. -/
def AllHeld (relay : Relay) (files : List Entry) : Prop :=
  ∀ entry ∈ files, (relay.slot? (.blob entry.sha256)).isSome

theorem AllHeld.held (allHeld : AllHeld relay files) : Held relay (wantedBy files) := by
  intro path digest isWanted
  obtain ⟨entry, member, -, rfl⟩ := entry_of_wantedBy isWanted
  exact allHeld entry member

/-- The files of a manifest can be linked one after the other. -/
structure Linkable (relay : Relay) (tree : Tree) (files : List Entry) : Prop where
  placeable : Placeable relay tree files
  allHeld : AllHeld relay files
  prefixFree : PrefixFree (wantedBy files)

/-- Of files that can be linked, those at the front can. -/
theorem Linkable.ofPrefix {front : List Entry} (linkable : Linkable relay tree files)
    (isPrefix : front <+: files) : Linkable relay tree front where
  placeable entry member := linkable.placeable entry (isPrefix.subset member)
  allHeld entry member := linkable.allHeld entry (isPrefix.subset member)
  prefixFree path other isWanted isOther := by
    refine linkable.prefixFree path other ?_ ?_
    · exact wantedBy_isSome.mpr ((isPrefix.map _).subset (wantedBy_isSome.mp isWanted))
    · exact wantedBy_isSome.mpr ((isPrefix.map _).subset (wantedBy_isSome.mp isOther))

/-- No path of what has been put is a directory of another. -/
theorem Placed.prefixFree {wanted : Wanted} (placed : Placed relay after tree wanted) :
    PrefixFree wanted := by
  intro path other isWanted isOther isPrefix
  by_contra different
  obtain ⟨digest, isDigest⟩ := Option.isSome_iff_exists.mp isWanted
  obtain ⟨below, isBelow⟩ := Option.isSome_iff_exists.mp isOther
  obtain ⟨ino, -, isFile⟩ := placed.linked path digest isDigest
  obtain ⟨_, -, isThere⟩ := placed.linked other below isBelow
  rw [Volume.directory_of_prefix isPrefix different isThere] at isFile
  cases isFile

/-- Linking the files of a manifest succeeds exactly when they can be linked, and stops
at the first that cannot, the files before it being linked. -/
theorem linkEntries_stops : Meets .reliable (forEach files (linkEntry tree)) relay
    (fun _ after => Linkable relay tree files ∧ Placed relay after tree (wantedBy files))
    fun after => ∃ count < files.length, Linkable relay tree (files.take count) ∧
      ¬ Linkable relay tree (files.take (count + 1)) ∧
      Placed relay after tree (wantedBy (files.take count)) := by
  let placing : List Entry → Relay → Prop := fun rest middle => ∃ before, files = before ++ rest ∧
    Linkable relay tree before ∧ Placed relay middle tree (wantedBy before)
  have nothing : Placed relay relay tree (wantedBy []) := Placed.nothing
  have initially : placing files relay :=
    ⟨[], rfl, ⟨by simp [Placeable], by simp [AllHeld], nothing.prefixFree⟩, nothing⟩
  refine (Meets.forEach initially ?_).mono ?_ (fun _ => id)
  · rintro entry rest middle - ⟨before, isFiles, linkable, placed⟩
    have keys : ∀ key, (wantedBy before key).isSome → ∃ other ∈ before, other.path = key := by
      intro key isKey
      simpa using wantedBy_isSome.mp isKey
    refine ((linkEntry_meets entry).and (linkEntry_unchanged entry)).mono ?_ ?_
    · rintro ⟨⟩ after ⟨⟨isOpen, ino, isBlob, put⟩, -⟩
      have isPlaced : Placed relay after tree (wantedBy (before ++ [entry])) := by
        rw [wantedBy_append]
        exact placed.put isOpen isBlob put
      refine ⟨before ++ [entry], by simp [isFiles], ⟨?_, ?_, isPlaced.prefixFree⟩, isPlaced⟩
      · intro other member
        rcases List.mem_append.mp member with earlier | here
        · exact linkable.placeable other earlier
        · rw [List.mem_singleton.mp here]
          refine placed.open_first isOpen fun key isKey => ?_
          obtain ⟨other, member, rfl⟩ := keys key isKey
          exact linkable.placeable other member
      · intro other member
        rcases List.mem_append.mp member with earlier | here
        · exact linkable.allHeld other earlier
        · rw [List.mem_singleton.mp here, ← placed.files.slot, isBlob]
          rfl
    · rintro _ ⟨fails, rfl⟩
      have front : files.take before.length = before := by rw [isFiles, List.take_left]
      have next : files.take (before.length + 1) = before ++ [entry] := by
        rw [isFiles, List.take_length_add_append, List.take_one]
        rfl
      have stops : ¬ Linkable relay tree (before ++ [entry]) := by
        intro further
        have member : entry ∈ before ++ [entry] := by simp
        have isWanted : (wantedBy (before ++ [entry]) entry.path).isSome :=
          wantedBy_isSome.mpr (List.mem_map_of_mem member)
        refine fails ⟨placed.open_of (further.placeable entry member) ?_, ?_⟩
        · intro key isKey related
          obtain ⟨other, isBefore, rfl⟩ := keys key isKey
          have isOther : (wantedBy (before ++ [entry]) other.path).isSome :=
            wantedBy_isSome.mpr (List.mem_map_of_mem (List.mem_append_left _ isBefore))
          rcases related with isPrefix | isPrefix
          · exact further.prefixFree _ _ isOther isWanted isPrefix
          · exact (further.prefixFree _ _ isWanted isOther isPrefix).symm
        · rw [placed.files.slot]
          exact further.allHeld entry member
      exact ⟨before.length, by simp [isFiles], by rwa [front], by rwa [next], by rwa [front]⟩
  · rintro ⟨⟩ after ⟨before, isFiles, linkable, placed⟩
    obtain rfl : files = before := by simpa using isFiles
    exact ⟨linkable, placed⟩

/-- Linking the files of a manifest succeeds exactly when the blobs are held, every
path can take its file and no path is a directory of another. -/
theorem linkEntries_meets : Meets .reliable (forEach files (linkEntry tree)) relay
    (fun _ after => Placeable relay tree files ∧ AllHeld relay files ∧
      Placed relay after tree (wantedBy files))
    fun _ => ¬ (Placeable relay tree files ∧ AllHeld relay files ∧ PrefixFree (wantedBy files)) := by
  refine linkEntries_stops.mono ?_ ?_
  · exact fun _ after ⟨linkable, placed⟩ => ⟨linkable.placeable, linkable.allHeld, placed⟩
  · rintro after ⟨count, -, -, fails, -⟩ ⟨placeable, allHeld, prefixFree⟩
    exact fails (Linkable.ofPrefix ⟨placeable, allHeld, prefixFree⟩ (List.take_prefix _ _))

/-- Linking the files of a snapshot into a tree that is not there succeeds exactly
when the blobs are held and no path is a directory of another. -/
theorem linkAll_meets (absent : ∀ path, relay.node? tree path = none) :
    Meets .reliable (forEach (pathDigests files) (linkWanted tree)) relay
      (fun _ after => Placed relay after tree (wantedBy files))
      fun _ => ¬ (Held relay (wantedBy files) ∧ PrefixFree (wantedBy files)) := by
  let placing : List (Path × String) → Relay → Prop := fun rest middle => ∃ before,
    pathDigests files = before ++ rest ∧ Placed relay middle tree (OrderedDict.get? id before)
  have initially : placing (pathDigests files) relay := ⟨[], rfl, Placed.nothing⟩
  refine (Meets.forEach initially ?_).mono ?_ (fun _ => id)
  · rintro entry rest middle - ⟨before, isFiles, placed⟩
    have distinct : OrderedDict.Distinct id (pathDigests files) := pathDigests_distinct
    have member : entry ∈ pathDigests files := by simp [isFiles]
    have isWanted : wantedBy files entry.1 = some entry.2 := wantedBy_eq_some.mpr member
    have named : entry.1 ≠ [] := by
      intro isRoot
      rw [isRoot, wantedBy_root] at isWanted
      cases isWanted
    have fresh : ∀ other ∈ before, id other.1 ≠ id entry.1 := by
      rw [isFiles] at distinct
      unfold OrderedDict.Distinct at distinct
      rw [List.map_append, List.nodup_append] at distinct
      intro other isBefore
      exact distinct.2.2 _ (List.mem_map_of_mem isBefore) _ (List.mem_map_of_mem List.mem_cons_self)
    have keys : ∀ key, (OrderedDict.get? id before key).isSome →
        (wantedBy files key).isSome ∧ key ≠ entry.1 := by
      intro key isKey
      obtain ⟨digest, found⟩ := Option.isSome_iff_exists.mp isKey
      obtain ⟨other, isOther, rfl⟩ := Option.map_eq_some_iff.mp found
      obtain ⟨isBefore, rfl⟩ := OrderedDict.mem_of_find? isOther
      refine ⟨?_, fresh other isBefore⟩
      rw [wantedBy_eq_some.mpr (isFiles ▸ List.mem_append_left _ isBefore)]
      rfl
    refine (linkWanted_meets named).mono ?_ ?_
    · rintro ⟨⟩ after ⟨isOpen, ino, isBlob, put⟩
      refine ⟨before ++ [entry], by simp [isFiles], ?_⟩
      have extended : OrderedDict.get? id (before ++ [entry]) =
          Function.update (OrderedDict.get? id before) entry.1 (some entry.2) := by
        funext key
        rw [OrderedDict.get?_append_single fresh, Function.update_apply]
        simp [eq_comm]
      rw [extended]
      exact placed.put isOpen isBlob put
    · rintro after fails ⟨held, prefixFree⟩
      have apart : ∀ key, (OrderedDict.get? id before key).isSome →
          (key <+: entry.1 ∨ entry.1 <+: key) → key = entry.1 := by
        intro key isKey related
        rcases related with isPrefix | isPrefix
        · exact prefixFree _ _ (keys key isKey).1 (by simp [isWanted]) isPrefix
        · exact (prefixFree _ _ (by simp [isWanted]) (keys key isKey).1 isPrefix).symm
      refine fails ⟨placed.open_of ⟨by simp [absent], by simp [absent]⟩ apart, ?_, ?_⟩
      · rw [placed.kept entry.1 fun key isKey isPrefix =>
          (keys key isKey).2 (apart key isKey (.inr isPrefix))]
        exact absent _
      · rw [placed.files.slot]
        exact held _ _ isWanted
  · rintro ⟨⟩ after ⟨before, isFiles, placed⟩
    rw [List.append_nil] at isFiles
    unfold wantedBy
    rw [isFiles]
    exact placed

/-- A tree that was not there holds what has been put into it and nothing else. -/
theorem Placed.matches {wanted : Wanted} (placed : Placed relay after tree wanted)
    (absent : ∀ path, relay.node? tree path = none) : Matches after tree wanted where
  linked path digest isWanted := by
    obtain ⟨ino, isBlob, isFile⟩ := placed.linked path digest isWanted
    exact ⟨ino, (placed.files.slot _).trans isBlob, isFile⟩
  only path ino isFile := by
    by_contra notWanted
    have none : wanted path = none := by simpa using notWanted
    by_cases onWay : ∃ key, (wanted key).isSome ∧ path <+: key
    · obtain ⟨key, isKey, isPrefix⟩ := onWay
      rw [placed.above path key none isKey isPrefix] at isFile
      cases isFile
    · rw [placed.kept path fun key isKey isPrefix => onWay ⟨key, isKey, isPrefix⟩, absent] at isFile
      cases isFile

end Entries

end MastProvisioning.Blobstore
