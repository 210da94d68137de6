import MastProvisioning.Collections.Words
import MastProvisioning.Collections.OrderedDict
import MastProvisioning.Tools.ManifestReaders
import MastProvisioning.TreeIntegrity.Pointers

/-!
# What the tree check reads of git

Each command of git frames its answer in a way of its own: `status -z` ends a path with a
NUL and gives a rename a second one, `ls-tree -z` puts a tab before the path,
`hash-object` reads a path a line, and `lfs ls-files` prints one. What git finds is
taken as it is, and written and read back as the check does.
-/

namespace MastProvisioning.TreeIntegrity

open MastProvisioning.Collections MastProvisioning.PowerShell.SettingsFile
open MastProvisioning.Tools.ManifestReaders (Report.splitlines Report.isSpace Report.endsLine)

/-- The character that ends a path under `-z`. -/
def nul : Char := '\x00'

/-- A record of `git status --porcelain`. A rename has the path it was made from. -/
structure StatusRecord where
  code : Text
  path : Text
  orig : Option Text
  code_length : code.length = 2
  path_ne_nil : path ≠ []
  plain : nul ∉ code ∧ nul ∉ path ∧ ∀ name ∈ orig, nul ∉ name

/-- The pieces of a record that are each ended by a NUL. -/
def StatusRecord.pieces (record : StatusRecord) : List Text :=
  (record.code ++ ' ' :: record.path) :: record.orig.toList

/-- `git status --porcelain -z`. -/
def statusOutput (records : List StatusRecord) : Text :=
  terminated nul (records.flatMap StatusRecord.pieces)

/-- `_visible`. -/
def visible (out : Text) : List Text :=
  (out.splitOn nul).filterMap fun entry => if 3 < entry.length then some (entry.drop 3) else none

/-- An entry of the tree of a commit. -/
structure TreeEntry where
  mode : Text
  kind : Kind
  path : Text
  content : ByteText
  mode_plain : nul ∉ mode ∧ '\t' ∉ mode ∧ ' ' ∉ mode
  path_plain : nul ∉ path

/-- A symbolic link. -/
def TreeEntry.isLink (entry : TreeEntry) : Bool := entry.mode = "120000".toList

/-- The word of a kind, as text. -/
def Kind.name : Kind → Text
  | blob => "blob".toList
  | tree => "tree".toList
  | commit => "commit".toList
  | tag => "tag".toList

/-- What git and the tools beside it do: names of objects by their content, and what
`hash-object` takes a line of its input for. It unquotes a line that begins with a quote. -/
structure Git where
  oidOf : ByteText → Text
  oid_injective : Function.Injective oidOf
  oid_ne_nil : ∀ content, oidOf content ≠ []
  oid_hex : ∀ content, ∀ digit ∈ oidOf content, digit ∈ "0123456789abcdef".toList
  requested : Text → Option Text
  requested_plain : ∀ line, line.head? ≠ some '"' → requested line = some line
  sha256 : ByteText → ByteText

variable (git : Git)

/-- The line of an entry. -/
def treeLine (entry : TreeEntry) : Text :=
  entry.mode ++ ' ' :: (entry.kind.name ++ ' ' :: (git.oidOf entry.content ++ '\t' :: entry.path))

/-- `git ls-tree -r -z HEAD`. -/
def treeOutput (entries : List TreeEntry) : Text :=
  terminated nul (entries.map (treeLine git))

/-- `text.split(mark, 1)`, when there are two pieces. -/
def splitOnce (mark : Char) (text : Text) : Option (Text × Text) :=
  if mark ∈ text then some (text.takeWhile (· ≠ mark), (text.dropWhile (· ≠ mark)).tail) else none

/-- The body of the loop of `_head_blobs`. -/
def addHeadBlob (blobs : List (Text × Text)) (entry : Text) : Option (List (Text × Text)) := do
  let (info, path) ← splitOnce '\t' entry
  let (_mode, rest) ← splitOnce ' ' info
  let (kind, oid) ← splitOnce ' ' rest
  some (if kind = Kind.blob.name then OrderedDict.set id blobs path oid else blobs)

/-- `_head_blobs`; `none` when it raises. -/
def headBlobs (out : Text) : Option (List (Text × Text)) :=
  ((out.splitOn nul).filter (· ≠ [])).foldlM addHeadBlob []

/-- `_lfs_tracked`, with the names `git lfs ls-files` prints if it runs. -/
def lfsTracked (names : Option (List Text)) : List Text :=
  match names with
  | none => []
  | some names => (Report.splitlines (terminated '\n' names)).filter (· ≠ [])

/-- `str.split()`. -/
def splitWords (text : Text) : List Text :=
  (text.splitOnP Report.isSpace).filter (· ≠ [])

/-- `git hash-object --no-filters --stdin-paths`; `none` when it cannot read one. -/
def hashObject (bytesAt : Text → Option ByteText) (input : Text) : Option Text := do
  let oids ← ((input.splitOn '\n').dropLast).mapM fun line => do
    let path ← git.requested line
    let content ← bytesAt path
    some (git.oidOf content)
  some (terminated '\n' oids)

section Status

theorem StatusRecord.pieces_plain (record : StatusRecord) : ∀ piece ∈ record.pieces, nul ∉ piece := by
  intro piece member
  rcases List.mem_cons.mp member with rfl | isOrig
  · have notBlank : nul ≠ ' ' := by decide
    simp [record.plain.1, record.plain.2.1, notBlank]
  · exact record.plain.2.2 piece (Option.mem_toList.mp isOrig)

/-- The paths that are taken from a status: those that changed, and what is left of the
path a rename was made from once three characters are cut off. -/
theorem mem_visible {records : List StatusRecord} {path : Text} :
    path ∈ visible (statusOutput records) ↔ ∃ record ∈ records, record.path = path ∨
      ∃ name ∈ record.orig, 3 < name.length ∧ name.drop 3 = path := by
  have plain : ∀ piece ∈ records.flatMap StatusRecord.pieces, nul ∉ piece := by
    intro piece member
    obtain ⟨record, _, isPiece⟩ := List.mem_flatMap.mp member
    exact record.pieces_plain piece isPiece
  have first (record : StatusRecord) : 3 < (record.code ++ ' ' :: record.path).length ∧
      (record.code ++ ' ' :: record.path).drop 3 = record.path := by
    have length := List.length_pos_of_ne_nil record.path_ne_nil
    have shape : record.code ++ ' ' :: record.path = (record.code ++ [' ']) ++ record.path := by
      simp
    rw [shape]
    refine ⟨?_, List.drop_left' ?_⟩
    · rw [List.length_append, List.length_append, record.code_length, List.length_singleton]
      omega
    · rw [List.length_append, record.code_length, List.length_singleton]
  have taken {entry : Text} : (if 3 < entry.length then some (entry.drop 3) else none) = some path ↔
      3 < entry.length ∧ entry.drop 3 = path := by
    split <;> simp [*]
  rw [visible, statusOutput, splitOn_terminated plain, List.filterMap_append, List.mem_append,
    List.mem_filterMap]
  simp only [taken, List.mem_flatMap]
  constructor
  · rintro (⟨entry, ⟨record, isRecord, isPiece⟩, long, isPath⟩ | ending)
    · refine ⟨record, isRecord, ?_⟩
      rcases List.mem_cons.mp isPiece with rfl | isOrig
      · exact .inl ((first record).2.symm.trans isPath)
      · exact .inr ⟨entry, Option.mem_toList.mp isOrig, long, isPath⟩
    · simp at ending
  · rintro ⟨record, isRecord, rfl | ⟨name, isOrig, long, isPath⟩⟩
    · exact .inl ⟨_, ⟨record, isRecord, List.mem_cons_self⟩, first record⟩
    · exact .inl ⟨name, ⟨record, isRecord,
        List.mem_cons_of_mem _ (Option.mem_toList.mpr isOrig)⟩, long, isPath⟩

end Status

section Tree

variable {git : Git} {entries : List TreeEntry} {blobs : List (Text × Text)}

theorem splitOnce_append {mark : Char} {before : Text} (plain : mark ∉ before) (after : Text) :
    splitOnce mark (before ++ mark :: after) = some (before, after) := by
  have others : ∀ character ∈ before, decide (character ≠ mark) = true := by
    intro character member
    have different : character ≠ mark := fun same => plain (same ▸ member)
    simpa using different
  rw [splitOnce, if_pos (by simp), List.takeWhile_append_of_pos others,
    List.dropWhile_append_of_pos others]
  simp

/-- What is no hexadecimal digit is not in an object's name. -/
theorem Git.oid_notMem (git : Git) {character : Char}
    (other : character ∉ "0123456789abcdef".toList) (content : ByteText) :
    character ∉ git.oidOf content :=
  fun member => other (git.oid_hex content character member)

theorem Kind.name_plain (kind : Kind) : nul ∉ kind.name ∧ '\t' ∉ kind.name ∧ ' ' ∉ kind.name := by
  cases kind <;> decide

theorem Kind.name_eq_blob {kind : Kind} : kind.name = Kind.blob.name ↔ kind = .blob := by
  cases kind <;> decide

theorem treeLine_plain (entry : TreeEntry) : nul ∉ treeLine git entry := by
  have notBlank : nul ≠ ' ' := by decide
  have notTab : nul ≠ '\t' := by decide
  have notOid : nul ∉ git.oidOf entry.content := git.oid_notMem (by decide) _
  simp [treeLine, entry.mode_plain.1, entry.kind.name_plain.1, entry.path_plain, notBlank, notTab,
    notOid]

theorem addHeadBlob_treeLine (blobs : List (Text × Text)) (entry : TreeEntry) :
    addHeadBlob blobs (treeLine git entry) = some (
      if entry.kind = .blob then OrderedDict.set id blobs entry.path (git.oidOf entry.content)
      else blobs) := by
  have notOid : '\t' ∉ git.oidOf entry.content := git.oid_notMem (by decide) _
  have info : '\t' ∉ entry.mode ++ ' ' :: (entry.kind.name ++ ' ' :: git.oidOf entry.content) := by
    simp [entry.mode_plain.2.1, entry.kind.name_plain.2.1, notOid]
  have shape : treeLine git entry =
      (entry.mode ++ ' ' :: (entry.kind.name ++ ' ' :: git.oidOf entry.content)) ++
        '\t' :: entry.path := by
    simp [treeLine]
  simp only [addHeadBlob, shape, splitOnce_append info, splitOnce_append entry.mode_plain.2.2,
    splitOnce_append entry.kind.name_plain.2.2, Option.bind_eq_bind, Option.bind_some,
    Kind.name_eq_blob]

theorem foldlM_addHeadBlob (distinct : OrderedDict.Distinct id
      (blobs ++ entries.map fun entry => (entry.path, git.oidOf entry.content))) :
    (entries.map (treeLine git)).foldlM addHeadBlob blobs = some (blobs ++
      (entries.filter fun entry => entry.kind = .blob).map fun entry =>
        (entry.path, git.oidOf entry.content)) := by
  induction entries generalizing blobs with
  | nil => simp
  | cons entry rest ih =>
    have fresh : ∀ old ∈ blobs, id old.1 ≠ id entry.path := by
      intro old member same
      unfold OrderedDict.Distinct at distinct
      rw [List.map_append, List.nodup_append] at distinct
      exact distinct.2.2 _ (List.mem_map_of_mem member) _ List.mem_cons_self same
    rw [List.map_cons, List.foldlM_cons, addHeadBlob_treeLine, Option.bind_eq_bind, Option.bind_some]
    by_cases isBlob : entry.kind = .blob
    · rw [if_pos isBlob, OrderedDict.set_of_fresh fresh, ih (by simpa using distinct),
        List.filter_cons_of_pos (by simpa using isBlob)]
      simp
    · have fewer : OrderedDict.Distinct id
          (blobs ++ rest.map fun entry => (entry.path, git.oidOf entry.content)) := by
        refine List.Nodup.sublist (List.Sublist.map _ ?_) distinct
        exact List.Sublist.append_left (List.sublist_cons_self _ _) blobs
      rw [if_neg isBlob, ih fewer, List.filter_cons_of_neg (by simpa using isBlob)]

/-- The blobs of the tree, with their names. -/
theorem headBlobs_treeOutput (distinct : (entries.map TreeEntry.path).Nodup) :
    headBlobs (treeOutput git entries) = some ((entries.filter fun entry => entry.kind = .blob).map
      fun entry => (entry.path, git.oidOf entry.content)) := by
  have plain : ∀ line ∈ entries.map (treeLine git), nul ∉ line := by
    intro line member
    obtain ⟨entry, _, rfl⟩ := List.mem_map.mp member
    exact treeLine_plain entry
  have some : ∀ line ∈ entries.map (treeLine git), decide (line ≠ []) = true := by
    intro line member
    obtain ⟨entry, _, rfl⟩ := List.mem_map.mp member
    simp [treeLine]
  have kept : ((entries.map (treeLine git)) ++ [[]]).filter (· ≠ []) =
      entries.map (treeLine git) := by
    rw [List.filter_append, List.filter_eq_self.mpr some]
    simp
  have asDict : OrderedDict.Distinct id
      ([] ++ entries.map fun entry => (entry.path, git.oidOf entry.content)) := by
    simpa [OrderedDict.Distinct, Function.comp_def] using distinct
  rw [headBlobs, treeOutput, splitOn_terminated plain, kept, foldlM_addHeadBlob asDict,
    List.nil_append]

end Tree

section Hashes

variable {git : Git} {bytesAt : Text → Option ByteText} {paths : List Text}

/-- The bytes that are hashed for a line. -/
def hashedBytes (git : Git) (bytesAt : Text → Option ByteText) (line : Text) : Option ByteText :=
  (git.requested line).bind bytesAt

/-- Words on lines of their own are read back. -/
theorem splitWords_terminated {words : List Text}
    (isWord : ∀ word ∈ words, word ≠ [] ∧ ∀ character ∈ word, Report.isSpace character = false) :
    splitWords (terminated '\n' words) = words := by
  unfold splitWords
  induction words with
  | nil => rfl
  | cons word rest ih =>
    rw [List.forall_mem_cons] at isWord
    rw [terminated_cons, List.splitOnP_append_cons_of_forall_mem isWord.1.2 '\n' (by decide),
      List.filter_cons_of_pos (by simpa using isWord.1.1), ih isWord.2]

theorem mapM_some {Item Value : Type} {read : Item → Option Value} {value : Item → Value}
    {items : List Item} (reads : ∀ item ∈ items, read item = some (value item)) :
    items.mapM read = some (items.map value) := by
  induction items with
  | nil => rfl
  | cons item rest ih =>
    rw [List.forall_mem_cons] at reads
    rw [List.mapM_cons, reads.1, ih reads.2]
    rfl

theorem mapM_length {Item Value : Type} {read : Item → Option Value} {items : List Item}
    {values : List Value} (reads : items.mapM read = some values) :
    values.length = items.length ∧ ∀ item ∈ items, (read item).isSome := by
  induction items generalizing values with
  | nil =>
    obtain rfl := Option.some.inj reads
    exact ⟨rfl, by simp⟩
  | cons item rest ih =>
    rw [List.mapM_cons] at reads
    obtain ⟨value, isValue, later⟩ := Option.bind_eq_some_iff.mp reads
    obtain ⟨more, isMore, isAll⟩ := Option.bind_eq_some_iff.mp later
    obtain rfl := Option.some.inj isAll
    obtain ⟨length, all⟩ := ih isMore
    refine ⟨by rw [List.length_cons, length, List.length_cons], ?_⟩
    rw [List.forall_mem_cons]
    exact ⟨by rw [isValue]; rfl, all⟩

/-- The names of the objects whose bytes are hashed for lines. -/
def hashedNames (git : Git) (bytesAt : Text → Option ByteText) (lines : List Text) :
    Option (List Text) :=
  lines.mapM fun line => (hashedBytes git bytesAt line).map git.oidOf

/-- `hash-object` answers a line after the other, and a path with a line feed is several. -/
theorem hashObject_terminated (paths : List Text) :
    hashObject git bytesAt (terminated '\n' paths) =
      (hashedNames git bytesAt (paths.flatMap (List.splitOn '\n'))).map (terminated '\n') := by
  have cut : (terminated '\n' paths).splitOn '\n' = paths.flatMap (List.splitOn '\n') ++ [[]] := by
    have pieces : terminated '\n' paths = terminated '\n' (paths.flatMap (List.splitOn '\n')) := by
      induction paths with
      | nil => rfl
      | cons path rest ih =>
        rw [terminated_cons, List.flatMap_cons, terminated_append, terminated_splitOn, ih]
        simp
    rw [pieces]
    refine splitOn_terminated fun piece member => ?_
    obtain ⟨path, _, isPiece⟩ := List.mem_flatMap.mp member
    exact not_mem_of_mem_splitOn isPiece
  have reads : (fun line => do
      let path ← git.requested line
      let content ← bytesAt path
      some (git.oidOf content)) = fun line => (hashedBytes git bytesAt line).map git.oidOf := by
    funext line
    unfold hashedBytes
    cases git.requested line with
    | none => rfl
    | some path => cases isRead : bytesAt path <;> simp [isRead]
  rw [hashObject, cut, List.dropLast_concat, reads, hashedNames]
  cases (paths.flatMap (List.splitOn '\n')).mapM fun line =>
    (hashedBytes git bytesAt line).map git.oidOf <;> rfl

theorem Git.oid_isWord (git : Git) (content : ByteText) :
    git.oidOf content ≠ [] ∧ ∀ character ∈ git.oidOf content, Report.isSpace character = false := by
  refine ⟨git.oid_ne_nil content, fun character member => ?_⟩
  have digits : ∀ digit ∈ "0123456789abcdef".toList, Report.isSpace digit = false :=
    List.all_iff_forall_prop.mp (by decide)
  exact digits character (git.oid_hex content character member)

/-- A path of the request is one line, and there is something to read. -/
def Readable (git : Git) (bytesAt : Text → Option ByteText) (path : Text) : Prop :=
  '\n' ∉ path ∧ (hashedBytes git bytesAt path).isSome

theorem length_lines (paths : List Text) :
    (paths.flatMap (List.splitOn '\n')).length =
      paths.length + (paths.map (List.count '\n')).sum := by
  induction paths with
  | nil => rfl
  | cons path rest ih =>
    rw [List.flatMap_cons, List.length_append, length_splitOn, ih, List.map_cons, List.sum_cons,
      List.length_cons]
    omega

theorem lines_plain (plain : ∀ path ∈ paths, '\n' ∉ path) :
    paths.flatMap (List.splitOn '\n') = paths := by
  induction paths with
  | nil => rfl
  | cons path rest ih =>
    rw [List.forall_mem_cons] at plain
    rw [List.flatMap_cons, List.splitOn_eq_singleton plain.1, ih plain.2]
    rfl

/-- The name that stands for a line that was read. -/
def nameOf (git : Git) (bytesAt : Text → Option ByteText) (line : Text) : Text :=
  git.oidOf ((hashedBytes git bytesAt line).getD [])

theorem hashedNames_of_isSome {lines : List Text}
    (reads : ∀ line ∈ lines, (hashedBytes git bytesAt line).isSome) :
    hashedNames git bytesAt lines = some (lines.map (nameOf git bytesAt)) := by
  refine mapM_some fun line member => ?_
  obtain ⟨content, isContent⟩ := Option.isSome_iff_exists.mp (reads line member)
  simp [nameOf, isContent]

theorem splitWords_names (lines : List Text) :
    splitWords (terminated '\n' (lines.map (nameOf git bytesAt))) =
      lines.map (nameOf git bytesAt) := by
  refine splitWords_terminated fun word member => ?_
  obtain ⟨line, _, rfl⟩ := List.mem_map.mp member
  exact git.oid_isWord _

/-- Readable paths get their names. -/
theorem hashObject_readable (readable : ∀ path ∈ paths, Readable git bytesAt path) :
    (hashObject git bytesAt (terminated '\n' paths)).map splitWords =
      some (paths.map (nameOf git bytesAt)) := by
  rw [hashObject_terminated, lines_plain fun path member => (readable path member).1,
    hashedNames_of_isSome fun path member => (readable path member).2, Option.map_some,
    Option.map_some, splitWords_names]

/-- As many names come back as paths were asked for only when every path is readable. -/
theorem readable_of_hashObject {names : List Text}
    (hashed : (hashObject git bytesAt (terminated '\n' paths)).map splitWords = some names)
    (length : names.length = paths.length) : ∀ path ∈ paths, Readable git bytesAt path := by
  rw [hashObject_terminated] at hashed
  obtain ⟨out, isOut, rfl⟩ := Option.map_eq_some_iff.mp hashed
  obtain ⟨oids, isOids, rfl⟩ := Option.map_eq_some_iff.mp isOut
  have reads : ∀ line ∈ paths.flatMap (List.splitOn '\n'),
      (hashedBytes git bytesAt line).isSome := by
    intro line member
    have read := (mapM_length isOids).2 line member
    simpa using read
  rw [hashedNames_of_isSome reads] at isOids
  obtain rfl := Option.some.inj isOids
  rw [splitWords_names, List.length_map, length_lines] at length
  have plain : ∀ path ∈ paths, '\n' ∉ path := by
    intro path member
    have none : (paths.map (List.count '\n')).sum = 0 := by omega
    exact List.count_eq_zero.mp (List.sum_eq_zero_iff_forall_eq_nat.mp none _ (List.mem_map_of_mem member))
  rw [lines_plain plain] at reads
  exact fun path member => ⟨plain path member, reads path member⟩

end Hashes

section Lfs

theorem splitlines_plain : (text : Text) → ∀ line ∈ Report.splitlines text, '\n' ∉ line
  | [] => by simp [Report.splitlines]
  | character :: rest => by
    have later := splitlines_plain rest
    unfold Report.splitlines
    split
    · simp
    · rename_i more same
      obtain ⟨-, rfl⟩ := List.cons.inj same
      have unfolded : Report.splitlines ('\n' :: more) = [] :: Report.splitlines more := by
        rw [Report.splitlines, if_pos (by decide)]
        simp
      rw [unfolded] at later
      exact later
    · rename_i first more _ same
      obtain ⟨rfl, rfl⟩ := List.cons.inj same
      split
      · simpa using later
      · rename_i goesOn
        have notFeed : '\n' ≠ character := by
          rintro rfl
          exact goesOn (by decide)
        split
        · simpa using notFeed
        · rename_i line lines isLines
          rw [isLines, List.forall_mem_cons] at later
          rw [List.forall_mem_cons]
          exact ⟨by simpa [notFeed] using later.1, later.2⟩

/-- Lines without an end of line in them are read back. -/
theorem splitlines_terminated {lines : List Text}
    (plain : ∀ line ∈ lines, ∀ character ∈ line, Report.endsLine character = false) :
    Report.splitlines (terminated '\n' lines) = lines := by
  induction lines with
  | nil => rfl
  | cons line rest ih =>
    rw [List.forall_mem_cons] at plain
    rw [terminated_cons]
    obtain ⟨plainLine, plainRest⟩ := plain
    induction line with
    | nil =>
      rw [List.nil_append, Report.splitlines, if_pos (by decide), ih plainRest]
      simp
    | cons character more ihLine =>
      rw [List.forall_mem_cons] at plainLine
      have notReturn : character ≠ '\r' := by
        rintro rfl
        exact absurd plainLine.1 (by decide)
      rw [List.cons_append, Report.splitlines, if_neg (by simp [plainLine.1]), ihLine plainLine.2]
      simp [notReturn]

theorem lfsTracked_names {names : List Text} (plain : ∀ name ∈ names, name ≠ [] ∧
    ∀ character ∈ name, Report.endsLine character = false) : lfsTracked (some names) = names := by
  have isSome : ∀ name ∈ names, decide (name ≠ []) = true := by
    intro name member
    simpa using (plain name member).1
  rw [lfsTracked, splitlines_terminated fun name member => (plain name member).2,
    List.filter_eq_self.mpr isSome]

theorem lfsTracked_plain (names : Option (List Text)) : ∀ name ∈ lfsTracked names, '\n' ∉ name := by
  intro name member
  cases names with
  | none => exact absurd member List.not_mem_nil
  | some names => exact splitlines_plain _ name (List.mem_filter.mp member).1

end Lfs

end MastProvisioning.TreeIntegrity
