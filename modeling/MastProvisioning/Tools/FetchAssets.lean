import Mathlib.Data.List.Infix
import Mathlib.Data.List.Nodup
import Mathlib.Data.List.Pairwise
import Mathlib.Logic.Function.Basic

/-!
# The asset cache

`fetch-assets.sh` fills the cache of a build host from the blobstore of the relay. It
hashes what is there, fetches the blobs of the rows that are missing or wrong in one
stream, and moves each blob to the path the manifest names. A file that hashes to the
digest of its row is the asset, however it got there.

A blob is unpacked once and a move takes it away, and a move that fails is not counted.
`fetchesHonestly_iff` says when a run is complete and honest all the same.
-/

namespace MastProvisioning.Tools.FetchAssets

variable {Name Digest Content : Type*}

/-- What stands at a path of the cache. -/
inductive Entry (Content : Type*)
  | absent
  | directory
  | file (content : Content)

namespace Entry

def isFile : Entry Content → Bool
  | .file _ => true
  | _ => false

def isDirectory : Entry Content → Bool
  | .directory => true
  | _ => false

@[simp] theorem isDirectory_absent : (absent : Entry Content).isDirectory = false := rfl
@[simp] theorem isDirectory_directory : (directory : Entry Content).isDirectory = true := rfl
@[simp] theorem isDirectory_file (content : Content) : (file content).isDirectory = false := rfl

end Entry

/-- The cache, by the paths below its root. -/
abbrev Cache (Name Content : Type*) := List Name → Entry Content

/-- A row of `assets.json`. -/
structure Row (Name Digest : Type*) where
  path : List Name
  sha256 : Digest
  size : Nat

/-- Neither path leads through the other. -/
def Row.Apart (row other : Row Name Digest) : Prop :=
  ¬row.path <+: other.path ∧ ¬other.path <+: row.path

theorem Row.Apart.symm {row other : Row Name Digest} (apart : row.Apart other) :
    other.Apart row :=
  ⟨apart.2, apart.1⟩

/-- `assets.json`: rows keyed by the path each file would have if it were tracked, so
that none leads through another. -/
structure AssetManifest (Name Digest : Type*) where
  rows : List (Row Name Digest)
  named : ∀ row ∈ rows, row.path ≠ []
  apart : rows.Pairwise Row.Apart

/-- What `mv` does when nothing in the cache is in its way. -/
inductive Move (Content : Type*)
  | done
  /-- It fails, and leaves what there was or a file of other bytes. -/
  | failed (left : Option Content)

/-- What a run finds. -/
structure Host (Name Digest Content : Type*) where
  manifest : AssetManifest Name Digest
  cache : Cache Name Content
  /-- The blobs the transfer unpacks; nothing when it fails. -/
  transfer : Option (Digest → Option Content)
  move : List Name → Move Content

section Script

variable [DecidableEq Name] [DecidableEq Digest]
variable (digest : Content → Digest) (size : Content → Nat) (blobName : Digest → Name)

/-- The file at the path of the row is the asset. -/
def isPresent (cache : Cache Name Content) (row : Row Name Digest) : Bool :=
  match cache row.path with
  | .file content => size content = row.size && digest content = row.sha256
  | _ => false

/-- `need`. -/
def needed (cache : Cache Name Content) (rows : List (Row Name Digest)) :
    List (Row Name Digest) :=
  rows.filter fun row => !isPresent digest size cache row

/-- A file is in the way of a directory. -/
def blocked (cache : Cache Name Content) (dir : List Name) : Bool :=
  dir.inits.any fun above => (cache above).isFile

/-- `mkdir -p`, with no file in the way. -/
def mkdirParents (cache : Cache Name Content) (dir : List Name) : Cache Name Content :=
  fun path =>
    match cache path with
    | .absent => if path <+: dir then .directory else .absent
    | entry => entry

/-- `mv -f "$blob" "$dest"`: into the directory when `dest` is one. What there is
then, and whether the blob was moved. -/
def mv (move : List Name → Move Content) (cache : Cache Name Content) (row : Row Name Digest)
    (content : Content) : Cache Name Content × Bool :=
  let target :=
    if (cache row.path).isDirectory then row.path ++ [blobName row.sha256] else row.path
  if (cache target).isDirectory then (cache, false)
  else
    match move row.path with
    | .done => (Function.update cache target (.file content), true)
    | .failed (some left) => (Function.update cache target (.file left), false)
    | .failed none => (cache, false)

/-- `mkdir -p` and `mv`. -/
def placeBlob (move : List Name → Move Content) (cache : Cache Name Content)
    (row : Row Name Digest) (content : Content) : Cache Name Content × Bool :=
  if blocked cache row.path.dropLast then (cache, false)
  else mv blobName move (mkdirParents cache row.path.dropLast) row content

/-- The variables of the loop over the rows. -/
structure Placing (Name Digest Content : Type*) where
  cache : Cache Name Content
  blobs : Digest → Option Content
  fetched : List (Row Name Digest)
  bad : Nat

/-- One round of the loop. -/
def placeRow (move : List Name → Move Content) (state : Placing Name Digest Content)
    (row : Row Name Digest) : Placing Name Digest Content :=
  match state.blobs row.sha256 with
  | none => { state with bad := state.bad + 1 }
  | some content =>
    if digest content = row.sha256 then
      let placed := placeBlob blobName move state.cache row content
      if placed.2 then
        { state with
          cache := placed.1
          blobs := Function.update state.blobs row.sha256 none
          fetched := state.fetched ++ [row] }
      else { state with cache := placed.1 }
    else { state with bad := state.bad + 1 }

/-- How the script ends. -/
structure Ended (Name Digest Content : Type*) where
  status : Nat
  fetched : List (Row Name Digest)
  cache : Cache Name Content

/-- `fetch-assets.sh`. -/
def fetchAssets (host : Host Name Digest Content) : Ended Name Digest Content :=
  let need := needed digest size host.cache host.manifest.rows
  if need.isEmpty then ⟨0, [], host.cache⟩
  else
    match host.transfer with
    | none => ⟨2, [], host.cache⟩
    | some blobs =>
      let final := need.foldl (placeRow digest blobName host.move) ⟨host.cache, blobs, [], 0⟩
      ⟨if final.bad = 0 then 0 else 1, final.fetched, final.cache⟩

end Script

section Views

/-- What the placement of a row depends on. -/
structure View (Content : Type*) where
  blocked : Bool
  entry : Entry Content
  /-- What the blob would replace in a directory at the path is a directory too. -/
  inner : Bool

namespace View

/-- `mv` reports success. -/
def moves (view : View Content) : Move Content → Bool
  | .done => !view.blocked && !(view.entry.isDirectory && view.inner)
  | .failed _ => false

/-- What stands at the path afterwards. -/
def left (view : View Content) (content : Content) (move : Move Content) : Entry Content :=
  if view.blocked || view.entry.isDirectory then view.entry
  else
    match move with
    | .done => .file content
    | .failed (some left) => .file left
    | .failed none => view.entry

end View

theorem not_prefix_dropLast {path : List Name} (named : path ≠ []) : ¬path <+: path.dropLast := by
  intro isPrefix
  have short := isPrefix.length_le
  have positive := List.length_pos_of_ne_nil named
  rw [List.length_dropLast] at short
  omega

variable [DecidableEq Name]
variable (blobName : Digest → Name)

def viewOf (cache : Cache Name Content) (row : Row Name Digest) : View Content where
  blocked := blocked cache row.path.dropLast
  entry := cache row.path
  inner := (cache (row.path ++ [blobName row.sha256])).isDirectory

variable {blobName} {move : List Name → Move Content} {cache : Cache Name Content}
  {row other : Row Name Digest} {content : Content} {path : List Name}

/-- Nothing but the directories above a path is made for it. -/
theorem mkdirParents_of_not_prefix {dir : List Name} (notAbove : ¬path <+: dir) :
    mkdirParents cache dir path = cache path := by
  unfold mkdirParents
  cases cache path <;> simp [notAbove]

theorem isFile_mkdirParents (dir : List Name) :
    (mkdirParents cache dir path).isFile = (cache path).isFile := by
  unfold mkdirParents
  cases cache path with
  | absent => by_cases above : path <+: dir <;> simp [above, Entry.isFile]
  | directory => rfl
  | file => rfl

/-- Whether `mv` moves the blob, and what the path of the row has then. -/
theorem mv_self :
    let view : View Content := ⟨false, cache row.path,
      (cache (row.path ++ [blobName row.sha256])).isDirectory⟩
    (mv blobName move cache row content).2 = view.moves (move row.path) ∧
      (mv blobName move cache row content).1 row.path = view.left content (move row.path) := by
  unfold mv View.moves View.left
  cases isDirectory : (cache row.path).isDirectory with
  | true =>
    cases inner : (cache (row.path ++ [blobName row.sha256])).isDirectory with
    | true => cases move row.path <;> simp [isDirectory, inner]
    | false =>
      cases move row.path with
      | done => simp [isDirectory, inner]
      | failed left => cases left <;> simp [isDirectory, inner]
  | false =>
    cases move row.path with
    | done => simp [isDirectory]
    | failed left => cases left <;> simp [isDirectory]

theorem mv_other (notHere : path ≠ row.path) (notBelow : path ≠ row.path ++ [blobName row.sha256]) :
    (mv blobName move cache row content).1 path = cache path := by
  unfold mv
  generalize isTarget : (if (cache row.path).isDirectory then row.path ++ [blobName row.sha256]
    else row.path) = target
  have notTarget : path ≠ target := by
    rw [← isTarget]
    split
    · exact notBelow
    · exact notHere
  dsimp only
  split
  · rfl
  split
  · exact Function.update_of_ne notTarget _ _
  · exact Function.update_of_ne notTarget _ _
  · rfl

/-- Whether the blob is moved, and what its path has then. -/
theorem placeBlob_self (named : row.path ≠ []) :
    (placeBlob blobName move cache row content).2 =
        (viewOf blobName cache row).moves (move row.path) ∧
      (placeBlob blobName move cache row content).1 row.path =
        (viewOf blobName cache row).left content (move row.path) := by
  have here : mkdirParents cache row.path.dropLast row.path = cache row.path :=
    mkdirParents_of_not_prefix (not_prefix_dropLast named)
  have below : mkdirParents cache row.path.dropLast (row.path ++ [blobName row.sha256]) =
      cache (row.path ++ [blobName row.sha256]) := by
    apply mkdirParents_of_not_prefix
    intro isPrefix
    exact not_prefix_dropLast named ((List.prefix_append _ _).trans isPrefix)
  unfold placeBlob viewOf
  cases blocked cache row.path.dropLast with
  | true => cases move row.path <;> simp [View.moves, View.left]
  | false =>
    obtain ⟨moved, left⟩ := @mv_self _ _ _ _ blobName move (mkdirParents cache row.path.dropLast)
      row content
    rw [here, below] at moved left
    exact ⟨moved, left⟩

/-- A path that is not the row's, and not below it, gets a directory at most. -/
theorem placeBlob_other (elsewhere : ¬row.path <+: path) :
    (placeBlob blobName move cache row content).1 path =
      if blocked cache row.path.dropLast then cache path
      else mkdirParents cache row.path.dropLast path := by
  have notHere : path ≠ row.path := by
    rintro rfl
    exact elsewhere (List.prefix_refl _)
  have notBelow : path ≠ row.path ++ [blobName row.sha256] := by
    rintro rfl
    exact elsewhere (List.prefix_append _ _)
  unfold placeBlob
  cases blocked cache row.path.dropLast with
  | true => rfl
  | false =>
    rw [if_neg Bool.false_ne_true, if_neg Bool.false_ne_true]
    exact mv_other notHere notBelow

theorem placeBlob_apart (elsewhere : ¬row.path <+: path) (notAbove : ¬path <+: row.path) :
    (placeBlob blobName move cache row content).1 path = cache path := by
  rw [placeBlob_other elsewhere, mkdirParents_of_not_prefix, ite_self]
  intro isPrefix
  exact notAbove (isPrefix.trans (List.dropLast_prefix _))

theorem isFile_placeBlob (elsewhere : ¬row.path <+: path) :
    ((placeBlob blobName move cache row content).1 path).isFile = (cache path).isFile := by
  rw [placeBlob_other elsewhere]
  split
  · rfl
  · exact isFile_mkdirParents _

/-- The placement of a row changes nothing for another. -/
theorem viewOf_placeBlob (apart : row.Apart other) :
    viewOf blobName (placeBlob blobName move cache row content).1 other =
      viewOf blobName cache other := by
  obtain ⟨notBelow, notAbove⟩ := apart
  unfold viewOf
  congr 1
  · unfold blocked
    rw [Bool.eq_iff_iff, List.any_eq_true, List.any_eq_true]
    apply exists_congr
    intro above
    apply and_congr_right
    intro isAbove
    rw [isFile_placeBlob]
    intro isPrefix
    apply notBelow
    have isPart := (List.mem_inits _ _).mp isAbove
    exact (isPrefix.trans isPart).trans (List.dropLast_prefix _)
  · exact placeBlob_apart notBelow notAbove
  · congr 1
    apply placeBlob_apart
    · intro isPrefix
      rcases List.prefix_concat_iff.mp isPrefix with same | shorter
      · exact notAbove (same ▸ List.prefix_append _ _)
      · exact notBelow shorter
    · intro isPrefix
      exact notAbove ((List.prefix_append _ _).trans isPrefix)

end Views

section Loop

variable (digest : Content → Digest)

/-- The blob of the row is there, and its bytes are those of the digest. -/
def Intact (blobs : Digest → Option Content) (row : Row Name Digest) : Prop :=
  ∃ content, blobs row.sha256 = some content ∧ digest content = row.sha256

/-- The cache has the asset of the row. -/
def Holds (cache : Cache Name Content) (row : Row Name Digest) : Prop :=
  ∃ content, cache row.path = .file content ∧ digest content = row.sha256

variable [DecidableEq Name]
variable (blobName : Digest → Name) (move : List Name → Move Content)

/-- `mv` reports success for the row. -/
def Moves (cache : Cache Name Content) (row : Row Name Digest) : Prop :=
  (viewOf blobName cache row).moves (move row.path) = true

variable [DecidableEq Digest]
variable {digest blobName move} {state : Placing Name Digest Content} {row : Row Name Digest}
  {rows : List (Row Name Digest)} {content : Content} {path : List Name}

theorem placeRow_bad (broken : ¬Intact digest state.blobs row) :
    placeRow digest blobName move state row = { state with bad := state.bad + 1 } := by
  unfold placeRow
  cases isBlob : state.blobs row.sha256 with
  | none => rfl
  | some content => exact if_neg fun right => broken ⟨content, isBlob, right⟩

/-- One round with an intact blob, field by field. -/
theorem placeRow_intact (isBlob : state.blobs row.sha256 = some content)
    (right : digest content = row.sha256) :
    let next := placeRow digest blobName move state row
    let placed := placeBlob blobName move state.cache row content
    next.cache = placed.1 ∧ next.bad = state.bad ∧
      next.blobs = (if placed.2 then Function.update state.blobs row.sha256 none
        else state.blobs) ∧
      next.fetched = if placed.2 then state.fetched ++ [row] else state.fetched := by
  unfold placeRow
  rw [isBlob]
  dsimp only
  rw [if_pos right]
  split
  · exact ⟨rfl, rfl, rfl, rfl⟩
  · exact ⟨rfl, rfl, rfl, rfl⟩

/-- A round leaves the other rows as they are. -/
theorem placeRow_apart (elsewhere : ¬row.path <+: path) (notAbove : ¬path <+: row.path) :
    (placeRow digest blobName move state row).cache path = state.cache path := by
  by_cases intact : Intact digest state.blobs row
  · obtain ⟨content, isBlob, right⟩ := intact
    rw [(placeRow_intact isBlob right).1]
    exact placeBlob_apart elsewhere notAbove
  · rw [placeRow_bad intact]

theorem viewOf_placeRow {other : Row Name Digest} (apart : row.Apart other) :
    viewOf blobName (placeRow digest blobName move state row).cache other =
      viewOf blobName state.cache other := by
  by_cases intact : Intact digest state.blobs row
  · obtain ⟨content, isBlob, right⟩ := intact
    rw [(placeRow_intact isBlob right).1]
    exact viewOf_placeBlob apart
  · rw [placeRow_bad intact]

theorem moves_placeRow {other : Row Name Digest} (apart : row.Apart other) :
    Moves blobName move (placeRow digest blobName move state row).cache other ↔
      Moves blobName move state.cache other := by
  unfold Moves
  rw [viewOf_placeRow apart]

/-- A blob that is still there is what it was. -/
theorem blobs_of_placeRow {key : Digest}
    (isBlob : (placeRow digest blobName move state row).blobs key = some content) :
    state.blobs key = some content := by
  by_cases intact : Intact digest state.blobs row
  · obtain ⟨own, isOwn, right⟩ := intact
    rw [(placeRow_intact isOwn right).2.2.1] at isBlob
    split at isBlob
    · by_cases same : key = row.sha256
      · rw [same, Function.update_self] at isBlob
        cases isBlob
      · rwa [Function.update_of_ne same] at isBlob
    · exact isBlob
  · rwa [placeRow_bad intact] at isBlob

/-- After a round a blob is intact if it was, and the round did not move it away. -/
theorem intact_placeRow (named : row.path ≠ []) (intact : Intact digest state.blobs row)
    (other : Row Name Digest) :
    Intact digest (placeRow digest blobName move state row).blobs other ↔
      Intact digest state.blobs other ∧
        (row.sha256 = other.sha256 → ¬Moves blobName move state.cache row) := by
  obtain ⟨content, isBlob, right⟩ := intact
  unfold Intact Moves
  have isMoved : (placeBlob blobName move state.cache row content).2 =
      (viewOf blobName state.cache row).moves (move row.path) := (placeBlob_self named).1
  rw [(placeRow_intact isBlob right).2.2.1, ← isMoved]
  by_cases moved : (placeBlob blobName move state.cache row content).2 = true
  · rw [if_pos moved]
    by_cases same : row.sha256 = other.sha256
    · simp [same, moved]
    · simp [same, Function.update_of_ne (Ne.symm same)]
  · simp [moved]

theorem bad_le_placeRow : state.bad ≤ (placeRow digest blobName move state row).bad := by
  by_cases intact : Intact digest state.blobs row
  · obtain ⟨content, isBlob, right⟩ := intact
    rw [(placeRow_intact isBlob right).2.1]
  · rw [placeRow_bad intact]
    exact Nat.le_succ _

theorem bad_le_run : state.bad ≤ (rows.foldl (placeRow digest blobName move) state).bad := by
  induction rows generalizing state with
  | nil => exact Nat.le_refl _
  | cons row rest ih =>
    rw [List.foldl_cons]
    exact Nat.le_trans bad_le_placeRow ih

/-- The loop leaves a path alone that no row leads through. -/
theorem run_apart (elsewhere : ∀ row ∈ rows, ¬path <+: row.path ∧ ¬row.path <+: path) :
    (rows.foldl (placeRow digest blobName move) state).cache path = state.cache path := by
  induction rows generalizing state with
  | nil => rfl
  | cons row rest ih =>
    obtain ⟨here, later⟩ := List.forall_mem_cons.mp elsewhere
    rw [List.foldl_cons, ih later, placeRow_apart here.2 here.1]

/-- Nothing is counted as bad exactly when each blob is intact and no row has taken
away the blob of a later one. -/
theorem bad_run_iff (named : ∀ row ∈ rows, row.path ≠ []) (apart : rows.Pairwise Row.Apart) :
    (rows.foldl (placeRow digest blobName move) state).bad = state.bad ↔
      (∀ row ∈ rows, Intact digest state.blobs row) ∧
        rows.Pairwise fun earlier later =>
          earlier.sha256 = later.sha256 → ¬Moves blobName move state.cache earlier := by
  induction rows generalizing state with
  | nil => simp
  | cons row rest ih =>
    obtain ⟨namedHere, namedLater⟩ := List.forall_mem_cons.mp named
    obtain ⟨apartHere, apartLater⟩ := List.pairwise_cons.mp apart
    rw [List.foldl_cons, List.forall_mem_cons, List.pairwise_cons]
    by_cases intact : Intact digest state.blobs row
    · obtain ⟨content, isBlob, right⟩ := id intact
      have sameBad : (placeRow digest blobName move state row).bad = state.bad :=
        (placeRow_intact isBlob right).2.1
      have laterMoves : (rest.Pairwise fun earlier later => earlier.sha256 = later.sha256 →
            ¬Moves blobName move (placeRow digest blobName move state row).cache earlier) ↔
          rest.Pairwise fun earlier later => earlier.sha256 = later.sha256 →
            ¬Moves blobName move state.cache earlier := by
        constructor <;>
          · apply List.Pairwise.imp_of_mem
            intro earlier later isEarlier _
            rw [moves_placeRow (apartHere earlier isEarlier)]
            exact id
      have step : (rest.foldl (placeRow digest blobName move)
          (placeRow digest blobName move state row)).bad = state.bad ↔ _ :=
        sameBad ▸ ih namedLater apartLater
      rw [step, laterMoves]
      simp only [intact_placeRow namedHere intact, intact, true_and, forall_and]
      tauto
    · have counted : (placeRow digest blobName move state row).bad = state.bad + 1 := by
        rw [placeRow_bad intact]
      have more : (placeRow digest blobName move state row).bad ≤
          (rest.foldl (placeRow digest blobName move)
            (placeRow digest blobName move state row)).bad := bad_le_run
      have notSame : (rest.foldl (placeRow digest blobName move)
          (placeRow digest blobName move state row)).bad ≠ state.bad := by omega
      simp [intact, notSame]

/-- What each path has after a loop in which nothing is bad. -/
theorem left_run (named : ∀ row ∈ rows, row.path ≠ []) (apart : rows.Pairwise Row.Apart)
    (none : (rows.foldl (placeRow digest blobName move) state).bad = state.bad)
    (member : row ∈ rows) (isBlob : state.blobs row.sha256 = some content) :
    (rows.foldl (placeRow digest blobName move) state).cache row.path =
      (viewOf blobName state.cache row).left content (move row.path) := by
  induction rows generalizing state with
  | nil => cases member
  | cons first rest ih =>
    obtain ⟨namedHere, namedLater⟩ := List.forall_mem_cons.mp named
    obtain ⟨apartHere, apartLater⟩ := List.pairwise_cons.mp apart
    obtain ⟨intact, -⟩ := List.forall_mem_cons.mp ((bad_run_iff named apart).mp none).1
    rw [List.foldl_cons] at none ⊢
    have sameBad : (placeRow digest blobName move state first).bad = state.bad := by
      apply Nat.le_antisymm
      · have more : (placeRow digest blobName move state first).bad ≤
            (rest.foldl (placeRow digest blobName move)
              (placeRow digest blobName move state first)).bad := bad_le_run
        exact more.trans_eq none
      · exact bad_le_placeRow
    rcases List.mem_cons.mp member with rfl | later
    · obtain ⟨own, isOwn, right⟩ := intact
      obtain rfl := Option.some.inj (isOwn.symm.trans isBlob)
      rw [run_apart apartHere, (placeRow_intact isBlob right).1]
      exact (placeBlob_self namedHere).2
    · rw [← sameBad] at none
      obtain ⟨stillIntact, -⟩ := (bad_run_iff namedLater apartLater).mp none
      obtain ⟨own, isOwn, -⟩ := stillIntact row later
      obtain rfl := Option.some.inj ((blobs_of_placeRow isOwn).symm.trans isBlob)
      rw [ih namedLater apartLater none later isOwn, viewOf_placeRow (apartHere row later)]

/-- A row that is counted as fetched has no file of other bytes. -/
theorem fetched_run (named : ∀ row ∈ rows, row.path ≠ []) (apart : rows.Pairwise Row.Apart)
    (counted : row ∈ (rows.foldl (placeRow digest blobName move) state).fetched) :
    row ∈ state.fetched ∨ ∀ content,
      (rows.foldl (placeRow digest blobName move) state).cache row.path = .file content →
        digest content = row.sha256 := by
  induction rows generalizing state with
  | nil => exact .inl counted
  | cons first rest ih =>
    obtain ⟨namedHere, namedLater⟩ := List.forall_mem_cons.mp named
    obtain ⟨apartHere, apartLater⟩ := List.pairwise_cons.mp apart
    rw [List.foldl_cons] at counted ⊢
    rcases ih namedLater apartLater counted with before | right
    · by_cases intact : Intact digest state.blobs first
      · obtain ⟨own, isOwn, right⟩ := intact
        rw [(placeRow_intact isOwn right).2.2.2] at before
        split at before
        · rename_i moved
          rcases List.mem_append.mp before with earlier | here
          · exact .inl earlier
          obtain rfl := List.mem_singleton.mp here
          right
          intro content isFile
          rw [run_apart apartHere, (placeRow_intact isOwn right).1,
            (placeBlob_self namedHere).2] at isFile
          rw [(placeBlob_self namedHere).1] at moved
          cases isMove : move row.path with
          | failed left => simp [isMove, View.moves] at moved
          | done =>
            rw [isMove] at moved isFile
            unfold View.left at isFile
            split at isFile
            · rename_i kept
              simp only [View.moves, Bool.and_eq_true, Bool.not_eq_true'] at moved
              rw [moved.1, Bool.false_or] at kept
              rw [isFile, Entry.isDirectory_file] at kept
              cases kept
            · cases isFile
              exact right
        · exact .inl before
      · rw [placeRow_bad intact] at before
        exact .inl before
    · exact .inr right

end Loop

section Runs

variable [DecidableEq Name] [DecidableEq Digest]
variable (digest : Content → Digest) (size : Content → Nat) (blobName : Digest → Name)
variable (host : Host Name Digest Content)

/-- The rows a run has to fetch. -/
def Host.need : List (Row Name Digest) :=
  needed digest size host.cache host.manifest.rows

/-- The transfer succeeds, and delivers every blob that is needed. -/
structure Delivered (blobs : Digest → Option Content) : Prop where
  transferred : host.transfer = some blobs
  intact : ∀ row ∈ host.need digest size, Intact digest blobs row

/-- The placement of the row succeeds: nothing is in its way, and the move is done. -/
structure Host.Lands (row : Row Name Digest) : Prop where
  free : blocked host.cache row.path.dropLast = false
  noDirectory : (host.cache row.path).isDirectory = false
  done : host.move row.path = .done

/-- What a run of the script should be good for. -/
structure FetchesHonestly : Prop where
  complete : (fetchAssets digest size blobName host).status = 0 →
    ∀ row ∈ host.manifest.rows, Holds digest (fetchAssets digest size blobName host).cache row
  fetched : ∀ row ∈ (fetchAssets digest size blobName host).fetched, ∀ content,
    (fetchAssets digest size blobName host).cache row.path = .file content →
      digest content = row.sha256
  succeeds : ∀ blobs, Delivered digest size host blobs →
    (∀ row ∈ host.need digest size, host.Lands row) →
      (fetchAssets digest size blobName host).status = 0 ∧
        ∀ row ∈ host.manifest.rows, Holds digest (fetchAssets digest size blobName host).cache row

/-- No blob is moved away before a later row needs it. -/
def Unconsumed : Prop :=
  (host.need digest size).Pairwise fun earlier later =>
    earlier.sha256 = later.sha256 → ¬Moves blobName host.move host.cache earlier

/-- The placement of the row, done or failed, leaves its asset. -/
def LeftRight (blobs : Digest → Option Content) (row : Row Name Digest) : Prop :=
  ∃ content asset, blobs row.sha256 = some content ∧
    (viewOf blobName host.cache row).left content (host.move row.path) = .file asset ∧
    digest asset = row.sha256

/-- When every blob is delivered: no two rows that can be placed need the same one, and
no placement fails, unless a blob is missed too. -/
structure PlacesAll (blobs : Digest → Option Content) : Prop where
  separate : (∀ row ∈ host.need digest size, host.Lands row) →
    ((host.need digest size).map Row.sha256).Nodup
  placed : Unconsumed digest size blobName host →
    ∀ row ∈ host.need digest size, LeftRight digest blobName host blobs row

variable {digest size blobName host} {blobs : Digest → Option Content}

omit [DecidableEq Name] in
theorem Host.need_named : ∀ row ∈ host.need digest size, row.path ≠ [] :=
  fun row member => host.manifest.named row (List.mem_filter.mp member).1

omit [DecidableEq Name] in
theorem Host.need_apart : (host.need digest size).Pairwise Row.Apart :=
  host.manifest.apart.sublist List.filter_sublist

omit [DecidableEq Name] [DecidableEq Digest] in
theorem Host.Lands.moves {row : Row Name Digest} (lands : host.Lands row) :
    Moves blobName host.move host.cache row := by
  unfold Moves viewOf
  rw [lands.done]
  simp [View.moves, lands.free, lands.noDirectory]

/-- A row that is not needed has its asset, and the loop does not touch it. -/
theorem holds_of_not_needed {row : Row Name Digest} (member : row ∈ host.manifest.rows)
    (present : row ∉ host.need digest size) (state : Placing Name Digest Content)
    (isCache : state.cache = host.cache) :
    Holds digest ((host.need digest size).foldl (placeRow digest blobName host.move) state).cache
      row := by
  have isPresent : isPresent digest size host.cache row = true := by
    by_contra absent
    exact present (List.mem_filter.mpr ⟨member, by simpa using absent⟩)
  have untouched : ∀ other ∈ host.need digest size,
      ¬row.path <+: other.path ∧ ¬other.path <+: row.path := by
    intro other isNeeded
    have different : row ≠ other := fun same => present (same ▸ isNeeded)
    have symmetric : Std.Symm (@Row.Apart Name Digest) := ⟨fun _ _ => Row.Apart.symm⟩
    exact host.manifest.apart.forall member (List.mem_filter.mp isNeeded).1 different
  unfold Holds
  rw [run_apart untouched, isCache]
  unfold FetchAssets.isPresent at isPresent
  split at isPresent
  · rename_i content isFile
    exact ⟨content, isFile, of_decide_eq_true (Bool.and_eq_true_iff.mp isPresent).2⟩
  · cases isPresent

theorem fetchAssets_eq (needs : host.need digest size ≠ []) (transferred : host.transfer = some blobs) :
    let final := (host.need digest size).foldl (placeRow digest blobName host.move)
      ⟨host.cache, blobs, [], 0⟩
    fetchAssets digest size blobName host =
      ⟨if final.bad = 0 then 0 else 1, final.fetched, final.cache⟩ := by
  unfold fetchAssets
  have notEmpty : (needed digest size host.cache host.manifest.rows).isEmpty = false :=
    List.isEmpty_eq_false_iff.mpr needs
  simp only [notEmpty, transferred]
  rfl

/-- A run with all that is needed reports success exactly when no blob is missed. -/
theorem status_iff (needs : host.need digest size ≠ []) (transferred : host.transfer = some blobs) :
    (fetchAssets digest size blobName host).status = 0 ↔
      Delivered digest size host blobs ∧ Unconsumed digest size blobName host := by
  have counts := @bad_run_iff _ _ _ digest _ blobName host.move _ ⟨host.cache, blobs, [], 0⟩
    (host.need digest size) Host.need_named Host.need_apart
  rw [fetchAssets_eq needs transferred]
  dsimp only at counts ⊢
  constructor
  · intro success
    split at success
    · rename_i none
      exact ⟨⟨transferred, (counts.mp none).1⟩, (counts.mp none).2⟩
    · cases success
  · rintro ⟨delivered, unconsumed⟩
    exact if_pos (counts.mpr ⟨delivered.intact, unconsumed⟩)

/-- After a success each needed row has what its placement left. -/
theorem holds_iff_leftRight (needs : host.need digest size ≠ [])
    (delivered : Delivered digest size host blobs) (unconsumed : Unconsumed digest size blobName host)
    {row : Row Name Digest} (member : row ∈ host.need digest size) :
    Holds digest (fetchAssets digest size blobName host).cache row ↔
      LeftRight digest blobName host blobs row := by
  have none := (@bad_run_iff _ _ _ digest _ blobName host.move _ ⟨host.cache, blobs, [], 0⟩
    (host.need digest size) Host.need_named Host.need_apart).mpr ⟨delivered.intact, unconsumed⟩
  obtain ⟨content, isBlob, -⟩ := delivered.intact row member
  unfold Holds LeftRight
  rw [fetchAssets_eq needs delivered.transferred]
  dsimp only
  rw [left_run Host.need_named Host.need_apart none member isBlob]
  constructor
  · rintro ⟨asset, isFile, right⟩
    exact ⟨content, asset, isBlob, isFile, right⟩
  · rintro ⟨other, asset, isOther, isFile, right⟩
    obtain rfl := Option.some.inj (isOther.symm.trans isBlob)
    exact ⟨asset, isFile, right⟩

/-- The assets of the rows that are not needed stay. -/
theorem holds_of_present (transferred : host.transfer = some blobs) {row : Row Name Digest}
    (member : row ∈ host.manifest.rows) (present : row ∉ host.need digest size) :
    Holds digest (fetchAssets digest size blobName host).cache row := by
  by_cases needs : host.need digest size = []
  · have holds : Holds digest ((host.need digest size).foldl (placeRow digest blobName host.move)
        ⟨host.cache, blobs, [], 0⟩).cache row := holds_of_not_needed member present _ rfl
    have ended : fetchAssets digest size blobName host = ⟨0, [], host.cache⟩ :=
      if_pos (List.isEmpty_iff.mpr needs)
    rw [ended]
    rwa [needs] at holds
  · rw [fetchAssets_eq needs transferred]
    exact holds_of_not_needed member present ⟨host.cache, blobs, [], 0⟩ rfl

/-- A run with nothing to fetch. -/
theorem fetchesHonestly_of_present (present : host.need digest size = []) :
    FetchesHonestly digest size blobName host := by
  have ended : fetchAssets digest size blobName host = ⟨0, [], host.cache⟩ :=
    if_pos (List.isEmpty_iff.mpr present)
  have complete : ∀ row ∈ host.manifest.rows, Holds digest host.cache row := by
    intro row member
    have notNeeded : row ∉ host.need digest size := by simp [present]
    have holds : Holds digest ((host.need digest size).foldl (placeRow digest blobName host.move)
        ⟨host.cache, fun _ => none, [], 0⟩).cache row :=
      holds_of_not_needed member notNeeded _ rfl
    rwa [present] at holds
  constructor
  · rw [ended]
    exact fun _ => complete
  · rw [ended]
    nofun
  · intro blobs _ _
    rw [ended]
    exact ⟨rfl, complete⟩

/-- A run is complete when it says so, honest, and successful whenever it can be, exactly
when no blob is needed twice and no placement fails. -/
theorem fetchesHonestly_iff :
    FetchesHonestly digest size blobName host ↔
      ∀ blobs, Delivered digest size host blobs → PlacesAll digest size blobName host blobs := by
  by_cases needs : host.need digest size = []
  · constructor
    · intro _ blobs _
      constructor
      · simp [needs]
      · simp [needs]
    · intro _
      exact fetchesHonestly_of_present needs
  constructor
  · intro honest blobs delivered
    have success : (fetchAssets digest size blobName host).status = 0 ↔ _ :=
      status_iff needs delivered.transferred
    constructor
    · intro lands
      obtain ⟨-, unconsumed⟩ := success.mp (honest.succeeds blobs delivered lands).1
      rw [List.Nodup, List.pairwise_map]
      apply unconsumed.imp_of_mem
      intro earlier later isEarlier _ free same
      exact free same (lands earlier isEarlier).moves
    · intro unconsumed row member
      have holds := honest.complete (success.mpr ⟨delivered, unconsumed⟩) row
        (List.mem_filter.mp member).1
      exact (holds_iff_leftRight needs delivered unconsumed member).mp holds
  · intro places
    have complete : (fetchAssets digest size blobName host).status = 0 →
        ∀ row ∈ host.manifest.rows, Holds digest (fetchAssets digest size blobName host).cache row := by
      intro success row member
      cases transferred : host.transfer with
      | none =>
        have notEmpty : (needed digest size host.cache host.manifest.rows).isEmpty = false :=
          List.isEmpty_eq_false_iff.mpr needs
        simp [fetchAssets, notEmpty, transferred] at success
      | some blobs =>
        obtain ⟨delivered, unconsumed⟩ := (status_iff needs transferred).mp success
        by_cases isNeeded : row ∈ host.need digest size
        · have left := (places blobs delivered).placed unconsumed row isNeeded
          exact (holds_iff_leftRight needs delivered unconsumed isNeeded).mpr left
        · exact holds_of_present transferred member isNeeded
    constructor
    · exact complete
    · intro row counted
      cases transferred : host.transfer with
      | none =>
        have notEmpty : (needed digest size host.cache host.manifest.rows).isEmpty = false :=
          List.isEmpty_eq_false_iff.mpr needs
        simp [fetchAssets, notEmpty, transferred] at counted
      | some blobs =>
        rw [fetchAssets_eq needs transferred] at counted ⊢
        rcases fetched_run Host.need_named Host.need_apart counted with before | right
        · cases before
        · exact right
    · intro blobs delivered lands
      have unconsumed : Unconsumed digest size blobName host := by
        have separate := (places blobs delivered).separate lands
        rw [List.Nodup, List.pairwise_map] at separate
        exact separate.imp fun different same => absurd same different
      have success := (status_iff needs delivered.transferred).mpr ⟨delivered, unconsumed⟩
      exact ⟨success, complete success⟩

end Runs

/-- An asset that two modules share. -/
def sharedRows : AssetManifest String String where
  rows := [⟨["npcap", "npcap.exe"], "npcap 1.79", 10⟩, ⟨["diagnostics", "npcap.exe"], "npcap 1.79", 10⟩]
  named := by simp
  apart := by simp [Row.Apart]

/-- The store has the blob, and nothing is in the way. -/
def sharing : Host String String String where
  manifest := sharedRows
  cache := fun _ => .absent
  transfer := some fun digest => if digest = "npcap 1.79" then some "npcap 1.79" else none
  move := fun _ => .done

/-- One asset, whose file another program has open. -/
def locked : Host String String String where
  manifest := ⟨[⟨["npcap.exe"], "npcap 1.79", 10⟩], by simp, by simp⟩
  cache := fun path => if path = ["npcap.exe"] then .file "npcap 1.60" else .absent
  transfer := sharing.transfer
  move := fun _ => .failed none

/-- The second row of a shared asset is reported as missing, and a move that fails is
not reported at all. -/
theorem shared_and_locked_misreported :
    ¬FetchesHonestly id String.length id sharing ∧
      ¬FetchesHonestly id String.length id locked := by
  constructor
  · intro honest
    have delivered : ∀ row ∈ sharing.need id String.length,
        row.sha256 = "npcap 1.79" ∧ sharing.Lands row := by
      intro row member
      have isRow := (List.mem_filter.mp member).1
      simp only [sharing, sharedRows, List.mem_cons, List.not_mem_nil, or_false] at isRow
      rcases isRow with rfl | rfl <;> exact ⟨rfl, rfl, rfl, rfl⟩
    have success := honest.succeeds _
      ⟨rfl, fun row member => ⟨_, if_pos (delivered row member).1, (delivered row member).1.symm⟩⟩
      fun row member => (delivered row member).2
    have status : (fetchAssets id String.length id sharing).status = 1 := by decide +kernel
    exact absurd (success.1.symm.trans status) (by decide)
  · intro honest
    have status : (fetchAssets id String.length id locked).status = 0 := by decide +kernel
    obtain ⟨content, isFile, right⟩ := honest.complete status _ List.mem_cons_self
    have kept : (fetchAssets id String.length id locked).cache ["npcap.exe"] =
        .file "npcap 1.60" := by rfl
    obtain rfl := Entry.file.inj (kept.symm.trans isFile)
    exact absurd right (by decide)

end MastProvisioning.Tools.FetchAssets
