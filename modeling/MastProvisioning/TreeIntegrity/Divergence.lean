import Mathlib
import MastProvisioning.TreeIntegrity.GitOutput

/-!
# Files that are not what their commit says

`diverged_files` compares the working tree with HEAD wherever git reports nothing. An
ordinary file has to hash to the blob of the commit; of a file that git-lfs manages, the
commit has a pointer with the size and the digest of the object.

The working tree is taken as it is found, whatever the index says: what git reports as
changed is given with it.
-/

namespace MastProvisioning.TreeIntegrity

open MastProvisioning.Collections MastProvisioning.Collections.ByteText
open MastProvisioning.PowerShell.SettingsFile (Text)
open MastProvisioning.Tools.ManifestReaders (Report.endsLine)

/-- What is at a path of the working tree. Of a link, the bytes of the file it leads to. -/
inductive Node
  | file (content : ByteText)
  | link (target : Option ByteText)
  | folder

/-- The bytes that are read at a path; a path is a file when there are some. -/
def bytesAt (work : Text → Option Node) (path : Text) : Option ByteText :=
  match work path with
  | some (.file content) => some content
  | some (.link target) => target
  | _ => none

/-- `path.encode("utf-8")`. -/
def encode (path : Text) : ByteText := path.flatMap String.utf8EncodeChar

/-- A repository with its working tree, and what git answers about it. -/
structure Checkout where
  head : List TreeEntry
  records : List StatusRecord
  lfsFiles : Option (List Text)
  work : Text → Option Node
  lookup : ByteText → Answer
  distinct : (head.map TreeEntry.path).Nodup
  lookup_head : ∀ entry ∈ head, entry.kind = .blob →
    ∃ oid, lookup (headName (encode entry.path)) = .object oid .blob entry.content

/-- `Divergence`. -/
structure Divergence where
  path : Text
  reason : String
  detail : Text

/-- `LFS_POINTER_PREFIX`. -/
def lfsPointerPrefix : ByteText := ascii "version https://git-lfs"

/-- The rest of the first line of a text that begins with a word and goes on as asked. -/
def searchLine (word : ByteText) (goesOn : ByteText → Bool) (text : ByteText) : Option ByteText :=
  (text.splitOn lineFeed).findSome? fun line =>
    if word.isPrefixOf line && goesOn (line.drop word.length) then some (line.drop word.length)
    else none

/-- A digit of `[0-9a-f]`. -/
def isHexDigit (byte : UInt8) : Bool :=
  (48 ≤ byte && byte ≤ 57) || (97 ≤ byte && byte ≤ 102)

/-- `_OID.search`. -/
def searchOid (pointer : ByteText) : Option ByteText :=
  searchLine (ascii "oid sha256:") (fun digits => digits.length = 64 && digits.all isHexDigit) pointer

/-- `_SIZE.search`, as a number. -/
def searchSize (pointer : ByteText) : Option Nat :=
  (searchLine (ascii "size ") (fun digits =>
    digits ≠ [] && digits.all fun byte => (digit? byte).isSome) pointer).bind readNat

variable (git : Git)

/-- The body of the loop of `_check_ordinary`, for a path and what it hashes to. -/
def compareHash (blobs : List (Text × Text)) (item : Text × Text) : Option (List Divergence) := do
  let expected ← OrderedDict.get? id blobs item.1
  some (if item.2 ≠ expected then
    [{ path := item.1, reason := "content"
       detail := "on disk ".toList ++ item.2.take 12 ++ ", commit records ".toList ++
        expected.take 12 }]
  else [])

/-- `_check_ordinary`; `none` when it raises. -/
def checkOrdinary (read : Text → Option ByteText) (paths : List Text)
    (blobs : List (Text × Text)) : Option (List Divergence) :=
  if paths = [] then some []
  else do
    let out ← hashObject git read (['\n'].intercalate paths ++ ['\n'])
    let found := splitWords out
    let diverged ← (paths.zip found).mapM (compareHash blobs)
    if found.length = paths.length then some diverged.flatten else none

/-- A digest or a number as it is written into a message. -/
def shown (text : ByteText) : Text := text.map fun byte => Char.ofNat byte.toNat

/-- What `_check_lfs` says about a file, by the pointer of the commit. -/
def lfsDivergences (thorough : Bool) (path : Text) (pointer : ByteText)
    (content : Option ByteText) : List Divergence :=
  match searchOid pointer, searchSize pointer, content with
  | some oid, some size, some content =>
    if content.take lfsPointerPrefix.length = lfsPointerPrefix then
      [{ path, reason := "lfs-pointer"
         detail := "never smudged; still the pointer on disk".toList }]
    else if content.length ≠ size then
      [{ path, reason := "lfs-size"
         detail := shown (decimal content.length) ++ " bytes on disk, pointer says ".toList ++
          shown (decimal size) }]
    else if thorough && git.sha256 content ≠ oid then
      [{ path, reason := "lfs-content"
         detail := "sha256 ".toList ++ (shown (git.sha256 content)).take 12 ++
          ", pointer says ".toList ++ (shown oid).take 12 }]
    else []
  | _, _, _ => []

/-- `_check_lfs`; `none` when it raises. -/
def checkLfs (thorough : Bool) (checkout : Checkout) (paths : List Text) :
    Option (List Divergence) := do
  let blobs ← pointers checkout.lookup (paths.map encode)
  some (paths.flatMap fun path =>
    match OrderedDict.get? id blobs (encode path) with
    | none => []
    | some pointer => lfsDivergences git thorough path pointer (bytesAt checkout.work path))

/-- `sorted`. -/
def sortPaths (paths : List Text) : List Text :=
  paths.insertionSort fun path other => path.map Char.toNat ≤ other.map Char.toNat

/-- `diverged_files`; `none` when it raises. -/
def divergedFiles (thorough : Bool) (checkout : Checkout) : Option (List Divergence) := do
  let changed := visible (statusOutput checkout.records)
  let blobs ← headBlobs (treeOutput git checkout.head)
  let lfs := lfsTracked checkout.lfsFiles
  let checked := (sortPaths (blobs.map Prod.fst)).filter fun path =>
    path ∉ changed && (bytesAt checkout.work path).isSome
  let ordinary ← checkOrdinary git (bytesAt checkout.work) (checked.filter (· ∉ lfs)) blobs
  let managed ← checkLfs git thorough checkout (checked.filter (· ∈ lfs))
  some (ordinary ++ managed)

section Ordinary

variable {git : Git} {read : Text → Option ByteText} {paths : List Text}
  {blobs : List (Text × Text)}

/-- Joined lines with a line feed at the end are terminated lines. -/
theorem intercalate_terminated {paths : List Text} (nonempty : paths ≠ []) :
    ['\n'].intercalate paths ++ ['\n'] = terminated '\n' paths := by
  obtain ⟨path, rest, rfl⟩ := List.exists_cons_of_ne_nil nonempty
  induction rest generalizing path with
  | nil => simp [terminated]
  | cons second rest ih =>
    rw [List.intercalate_cons_cons, List.append_assoc, ih second (by simp),
      terminated_cons '\n' path]
    simp

/-- What is reported of one path. -/
def ordinaryDivergences (git : Git) (read : Text → Option ByteText) (blobs : List (Text × Text))
    (path : Text) : List Divergence :=
  (compareHash blobs (path, nameOf git read path)).getD []

theorem checkOrdinary_readable (readable : ∀ path ∈ paths, Readable git read path)
    (recorded : ∀ path ∈ paths, (OrderedDict.get? id blobs path).isSome) :
    checkOrdinary git read paths blobs = some (paths.flatMap (ordinaryDivergences git read blobs)) := by
  by_cases nothing : paths = []
  · subst nothing
    rfl
  obtain ⟨out, isOut, isNames⟩ := Option.map_eq_some_iff.mp (hashObject_readable readable)
  have zipped : (paths.map id).zip (paths.map (nameOf git read)) =
      paths.map fun path => (id path, nameOf git read path) := List.zip_map'
  have compared : (paths.map fun path => (id path, nameOf git read path)).mapM (compareHash blobs) =
      some (paths.map (ordinaryDivergences git read blobs)) := by
    rw [List.mapM_map]
    refine mapM_some fun path member => ?_
    obtain ⟨expected, isExpected⟩ := Option.isSome_iff_exists.mp (recorded path member)
    simp [ordinaryDivergences, compareHash, isExpected]
  rw [List.map_id] at zipped
  rw [checkOrdinary, if_neg nothing, intercalate_terminated nothing, isOut, Option.bind_eq_bind,
    Option.bind_some]
  dsimp only
  rw [isNames, zipped, compared, Option.bind_eq_bind, Option.bind_some, if_pos (List.length_map _)]
  rfl

theorem readable_of_checkOrdinary {found : List Divergence}
    (checked : checkOrdinary git read paths blobs = some found) :
    ∀ path ∈ paths, Readable git read path := by
  by_cases nothing : paths = []
  · subst nothing
    simp
  rw [checkOrdinary, if_neg nothing, intercalate_terminated nothing] at checked
  obtain ⟨out, isOut, later⟩ := Option.bind_eq_some_iff.mp checked
  obtain ⟨diverged, _, ended⟩ := Option.bind_eq_some_iff.mp later
  split at ended
  · rename_i length
    exact readable_of_hashObject (by rw [isOut]; rfl) length
  · exact absurd ended (by simp)

end Ordinary

section Managed

variable {git : Git} {checkout : Checkout} {paths : List Text}

/-- The line feed is the only character with its byte. -/
theorem eq_lineFeed_of_mem {character : Char} (member : lineFeed ∈ String.utf8EncodeChar character) :
    character = '\n' := by
  have small {code : Nat} (bound : code < 256) (same : lineFeed = UInt8.ofNat code) : code = 10 := by
    have codes := congrArg UInt8.toNat same
    rw [UInt8.toNat_ofNat_of_lt' bound] at codes
    exact codes.symm
  refine Char.toNat_inj.mp ?_
  change character.val.toNat = 10
  unfold String.utf8EncodeChar at member
  dsimp only at member
  split at member
  · exact small (by omega) (List.mem_singleton.mp member)
  split at member
  · simp only [List.mem_cons, List.not_mem_nil, or_false] at member
    rcases member with byte | byte
    all_goals
      have code := small (by omega) byte
      omega
  split at member
  · simp only [List.mem_cons, List.not_mem_nil, or_false] at member
    rcases member with byte | byte | byte
    all_goals
      have code := small (by omega) byte
      omega
  · simp only [List.mem_cons, List.not_mem_nil, or_false] at member
    rcases member with byte | byte | byte | byte
    all_goals
      have code := small (by omega) byte
      omega

theorem encode_plain {path : Text} (plain : '\n' ∉ path) : lineFeed ∉ encode path := by
  intro member
  obtain ⟨character, isCharacter, isByte⟩ := List.mem_flatMap.mp member
  exact plain (eq_lineFeed_of_mem isByte ▸ isCharacter)

/-- The pointers of the commit are all read. -/
theorem checkLfs_eq (thorough : Bool) (plain : ∀ path ∈ paths, '\n' ∉ path)
    (recorded : ∀ path ∈ paths, ∃ entry ∈ checkout.head, entry.path = path ∧ entry.kind = .blob) :
    checkLfs git thorough checkout paths = some (paths.flatMap fun path =>
      match blobAt checkout.lookup (encode path) with
      | none => []
      | some pointer => lfsDivergences git thorough path pointer (bytesAt checkout.work path)) := by
  have recovered : Recovers checkout.lookup (paths.map encode) := by
    refine recovers_of_decodable (fun name member => ?_) fun name member => ?_
    · obtain ⟨path, isPath, rfl⟩ := List.mem_map.mp member
      exact encode_plain (plain path isPath)
    · obtain ⟨path, isPath, rfl⟩ := List.mem_map.mp member
      obtain ⟨entry, isEntry, rfl, isBlob⟩ := recorded path isPath
      obtain ⟨oid, answer⟩ := checkout.lookup_head entry isEntry isBlob
      rw [Decodable, answer]
  obtain ⟨blobs, isRead, found⟩ := recovered
  rw [checkLfs, isRead, Option.bind_eq_bind, Option.bind_some]
  refine congrArg some (List.flatMap_congr fun path member => ?_)
  rw [found, if_pos (List.mem_map_of_mem member)]

end Managed

section Verdicts

variable {git : Git} {checkout : Checkout}

/-- A path is taken for changed: a record is about it, or it is what is left of a path
that was renamed, without its first three characters. -/
def Taken (checkout : Checkout) (path : Text) : Prop :=
  ∃ record ∈ checkout.records, record.path = path ∨
    ∃ name ∈ record.orig, 3 < name.length ∧ name.drop 3 = path

/-- A file that is compared: HEAD has a blob there, it is not taken for changed, and there
are bytes to read. -/
structure Checked (checkout : Checkout) (entry : TreeEntry) (bytes : ByteText) : Prop where
  inHead : entry ∈ checkout.head
  isBlob : entry.kind = .blob
  unchanged : ¬Taken checkout entry.path
  isFile : bytesAt checkout.work entry.path = some bytes

/-- The bytes at a path pass by the pointer of the commit, if it is one. -/
def PointerPasses (git : Git) (pointer bytes : ByteText) : Prop :=
  ∀ oid size, searchOid pointer = some oid → searchSize pointer = some size →
    ¬ lfsPointerPrefix <+: bytes ∧ bytes.length = size ∧ git.sha256 bytes = oid

/-- A file passes: by its pointer when it was listed, or by what is hashed for its path. -/
def Passes (git : Git) (checkout : Checkout) (entry : TreeEntry) (bytes : ByteText) : Prop :=
  if entry.path ∈ lfsTracked checkout.lfsFiles then PointerPasses git entry.content bytes
  else hashedBytes git (bytesAt checkout.work) entry.path = some entry.content

theorem lfsDivergences_eq_nil {path : Text} {pointer bytes : ByteText} :
    lfsDivergences git true path pointer (some bytes) = [] ↔ PointerPasses git pointer bytes := by
  unfold lfsDivergences PointerPasses
  cases searchOid pointer with
  | none => simp
  | some oid =>
    cases searchSize pointer with
    | none => simp
    | some size =>
      have isPrefix : bytes.take lfsPointerPrefix.length = lfsPointerPrefix ↔
          lfsPointerPrefix <+: bytes := by
        rw [List.prefix_iff_eq_take, eq_comm]
      simp only [isPrefix, Option.some.injEq]
      split
      · simp [*]
      split
      · simp [*]
      · rename_i unlike sameSize
        simp only [Bool.true_and, decide_eq_true_eq, ne_eq]
        rw [ne_eq, not_not] at sameSize
        split
        · simp [*]
        · rename_i sameOid
          simpa [unlike, sameSize] using sameOid

theorem lfsDivergences_path {thorough : Bool} {path : Text} {pointer : ByteText}
    {content : Option ByteText} :
    ∀ divergence ∈ lfsDivergences git thorough path pointer content, divergence.path = path := by
  intro divergence member
  unfold lfsDivergences at member
  split at member
  · split at member
    · rw [List.mem_singleton.mp member]
    split at member
    · rw [List.mem_singleton.mp member]
    split at member
    · rw [List.mem_singleton.mp member]
    · exact absurd member List.not_mem_nil
  · exact absurd member List.not_mem_nil

theorem ordinaryDivergences_path {read : Text → Option ByteText} {blobs : List (Text × Text)}
    {path : Text} :
    ∀ divergence ∈ ordinaryDivergences git read blobs path, divergence.path = path := by
  intro divergence member
  unfold ordinaryDivergences compareHash at member
  cases isExpected : OrderedDict.get? id blobs path with
  | none => simp [isExpected] at member
  | some expected =>
    simp only [isExpected, Option.bind_eq_bind, Option.bind_some, Option.getD_some] at member
    split at member
    · rw [List.mem_singleton.mp member]
    · exact absurd member List.not_mem_nil

theorem ordinaryDivergences_eq_nil {read : Text → Option ByteText} {blobs : List (Text × Text)}
    {path : Text} {content : ByteText} (readable : Readable git read path)
    (recorded : OrderedDict.get? id blobs path = some (git.oidOf content)) :
    ordinaryDivergences git read blobs path = [] ↔ hashedBytes git read path = some content := by
  obtain ⟨bytes, isRead⟩ := Option.isSome_iff_exists.mp readable.2
  unfold ordinaryDivergences compareHash nameOf
  simp only [recorded, isRead, Option.bind_eq_bind, Option.bind_some, Option.getD_some,
    Option.some.injEq]
  rw [← git.oid_injective.eq_iff]
  split <;> rename_i same
  · exact iff_of_false (List.cons_ne_nil _ _) same
  · exact iff_of_true rfl (not_not.mp same)

/-- The paths of what is reported path by path. -/
theorem mem_paths_flatMap {paths : List Text} {report : Text → List Divergence}
    (own : ∀ path, ∀ divergence ∈ report path, divergence.path = path) (path : Text) :
    path ∈ (paths.flatMap report).map Divergence.path ↔ path ∈ paths ∧ report path ≠ [] := by
  rw [List.mem_map]
  constructor
  · rintro ⟨divergence, member, rfl⟩
    obtain ⟨other, isPath, isReported⟩ := List.mem_flatMap.mp member
    obtain rfl := own other divergence isReported
    exact ⟨isPath, List.ne_nil_of_mem isReported⟩
  · rintro ⟨isPath, nonempty⟩
    obtain ⟨divergence, isReported⟩ := List.exists_mem_of_ne_nil _ nonempty
    exact ⟨divergence, List.mem_flatMap.mpr ⟨path, isPath, isReported⟩, own path divergence isReported⟩

end Verdicts

section Runs

variable {git : Git} {checkout : Checkout}

/-- The blobs of HEAD, as `_head_blobs` has them. -/
def Checkout.blobs (git : Git) (checkout : Checkout) : List (Text × Text) :=
  (checkout.head.filter fun entry => entry.kind = .blob).map fun entry =>
    (entry.path, git.oidOf entry.content)

theorem Checkout.get?_blobs (checkout : Checkout) {entry : TreeEntry}
    (inHead : entry ∈ checkout.head) (isBlob : entry.kind = .blob) :
    OrderedDict.get? id (checkout.blobs git) entry.path = some (git.oidOf entry.content) := by
  have distinct : OrderedDict.Distinct id (checkout.blobs git) := by
    have fewer : ((checkout.head.filter fun entry => entry.kind = .blob).map
        TreeEntry.path).Nodup :=
      checkout.distinct.sublist (List.filter_sublist.map _)
    simpa [OrderedDict.Distinct, Checkout.blobs, Function.comp_def] using fewer
  rw [OrderedDict.get?_eq_some distinct]
  exact List.mem_map.mpr ⟨entry, List.mem_filter.mpr ⟨inHead, by simpa using isBlob⟩, rfl⟩

/-- The paths that are compared. -/
def Checkout.checked (git : Git) (checkout : Checkout) : List Text :=
  (sortPaths ((checkout.blobs git).map Prod.fst)).filter fun path =>
    path ∉ visible (statusOutput checkout.records) && (bytesAt checkout.work path).isSome

theorem mem_checked {path : Text} :
    path ∈ checkout.checked git ↔ ∃ entry bytes, Checked checkout entry bytes ∧ entry.path = path := by
  rw [Checkout.checked, List.mem_filter, sortPaths, List.mem_insertionSort, List.mem_map]
  constructor
  · rintro ⟨⟨⟨name, oid⟩, member, rfl⟩, passes⟩
    obtain ⟨entry, isEntry, same⟩ := List.mem_map.mp member
    obtain ⟨rfl, -⟩ := Prod.mk.inj same
    obtain ⟨inHead, isBlob⟩ := List.mem_filter.mp isEntry
    rw [Bool.and_eq_true, decide_eq_true_eq, mem_visible] at passes
    obtain ⟨bytes, isFile⟩ := Option.isSome_iff_exists.mp passes.2
    exact ⟨entry, bytes, ⟨inHead, by simpa using isBlob, passes.1, isFile⟩, rfl⟩
  · rintro ⟨entry, bytes, checked, rfl⟩
    refine ⟨⟨_, List.mem_map.mpr ⟨entry, List.mem_filter.mpr
      ⟨checked.inHead, by simpa using checked.isBlob⟩, rfl⟩, rfl⟩, ?_⟩
    rw [Bool.and_eq_true, decide_eq_true_eq, mem_visible]
    exact ⟨checked.unchanged, by rw [checked.isFile]; rfl⟩

/-- What is compared by its hash can be read by `hash-object`. -/
def Checkout.Hashable (git : Git) (checkout : Checkout) : Prop :=
  ∀ entry bytes, Checked checkout entry bytes → entry.path ∉ lfsTracked checkout.lfsFiles →
    Readable git (bytesAt checkout.work) entry.path

/-- What is reported of a managed file. -/
def managedDivergences (git : Git) (thorough : Bool) (checkout : Checkout) (path : Text) :
    List Divergence :=
  match blobAt checkout.lookup (encode path) with
  | none => []
  | some pointer => lfsDivergences git thorough path pointer (bytesAt checkout.work path)

theorem divergedFiles_eq (thorough : Bool) : divergedFiles git thorough checkout =
    (checkOrdinary git (bytesAt checkout.work)
        ((checkout.checked git).filter (· ∉ lfsTracked checkout.lfsFiles)) (checkout.blobs git)).map
      (· ++ ((checkout.checked git).filter (· ∈ lfsTracked checkout.lfsFiles)).flatMap
        (managedDivergences git thorough checkout)) := by
  have managed : checkLfs git thorough checkout
      ((checkout.checked git).filter (· ∈ lfsTracked checkout.lfsFiles)) =
      some (((checkout.checked git).filter (· ∈ lfsTracked checkout.lfsFiles)).flatMap
        (managedDivergences git thorough checkout)) := by
    refine checkLfs_eq thorough (fun path member => ?_) fun path member => ?_
    · exact lfsTracked_plain _ path (by simpa using (List.mem_filter.mp member).2)
    · obtain ⟨entry, bytes, checked, same⟩ := mem_checked.mp (List.mem_filter.mp member).1
      exact ⟨entry, checked.inHead, same, checked.isBlob⟩
  have blobs : headBlobs (treeOutput git checkout.head) = some (checkout.blobs git) :=
    headBlobs_treeOutput checkout.distinct
  unfold Checkout.checked at managed ⊢
  rw [divergedFiles, blobs, Option.bind_eq_bind, Option.bind_some]
  dsimp only
  rw [managed]
  cases checkOrdinary git (bytesAt checkout.work) _ (checkout.blobs git) <;> rfl

/-- The check answers exactly when what is hashed can be read. -/
theorem hashable_of_divergedFiles {thorough : Bool} {found : List Divergence}
    (answered : divergedFiles git thorough checkout = some found) : checkout.Hashable git := by
  intro entry bytes checked unlisted
  rw [divergedFiles_eq] at answered
  obtain ⟨ordinary, isOrdinary, _⟩ := Option.map_eq_some_iff.mp answered
  refine readable_of_checkOrdinary isOrdinary entry.path (List.mem_filter.mpr ⟨?_, by simpa using unlisted⟩)
  exact mem_checked.mpr ⟨entry, bytes, checked, rfl⟩

theorem managedDivergences_eq_nil {entry : TreeEntry} {bytes : ByteText}
    (checked : Checked checkout entry bytes) :
    managedDivergences git true checkout entry.path = [] ↔
      PointerPasses git entry.content bytes := by
  obtain ⟨oid, answer⟩ := checkout.lookup_head entry checked.inHead checked.isBlob
  have pointer : blobAt checkout.lookup (encode entry.path) = some entry.content := by
    rw [blobAt, answer]
  rw [managedDivergences, pointer, checked.isFile]
  exact lfsDivergences_eq_nil

/-- Then it reports what was compared and did not pass. -/
theorem divergedFiles_found (hashable : checkout.Hashable git) :
    ∃ found, divergedFiles git true checkout = some found ∧ ∀ path,
      path ∈ found.map Divergence.path ↔
        ∃ entry bytes, Checked checkout entry bytes ∧ entry.path = path ∧
          ¬Passes git checkout entry bytes := by
  have readable : ∀ path ∈ (checkout.checked git).filter (· ∉ lfsTracked checkout.lfsFiles),
      Readable git (bytesAt checkout.work) path := by
    intro path member
    obtain ⟨isChecked, unlisted⟩ := List.mem_filter.mp member
    obtain ⟨entry, bytes, checked, rfl⟩ := mem_checked.mp isChecked
    exact hashable entry bytes checked (by simpa using unlisted)
  have recorded : ∀ path ∈ (checkout.checked git).filter (· ∉ lfsTracked checkout.lfsFiles),
      (OrderedDict.get? id (checkout.blobs git) path).isSome := by
    intro path member
    obtain ⟨entry, bytes, checked, rfl⟩ := mem_checked.mp (List.mem_filter.mp member).1
    rw [checkout.get?_blobs checked.inHead checked.isBlob]
    rfl
  have ownManaged : ∀ path, ∀ divergence ∈ managedDivergences git true checkout path,
      divergence.path = path := by
    intro path divergence member
    unfold managedDivergences at member
    split at member
    · exact absurd member List.not_mem_nil
    · exact lfsDivergences_path divergence member
  refine ⟨_, by rw [divergedFiles_eq, checkOrdinary_readable readable recorded]; rfl, fun path => ?_⟩
  rw [List.map_append, List.mem_append, mem_paths_flatMap (fun _ => ordinaryDivergences_path),
    mem_paths_flatMap ownManaged, List.mem_filter, List.mem_filter, decide_eq_true_eq,
    decide_eq_true_eq]
  constructor
  · rintro (⟨⟨isChecked, unlisted⟩, reported⟩ | ⟨⟨isChecked, listed⟩, reported⟩)
    · obtain ⟨entry, bytes, checked, rfl⟩ := mem_checked.mp isChecked
      refine ⟨entry, bytes, checked, rfl, fun passes => reported ?_⟩
      rw [Passes, if_neg unlisted] at passes
      exact (ordinaryDivergences_eq_nil (hashable entry bytes checked unlisted)
        (checkout.get?_blobs checked.inHead checked.isBlob)).mpr passes
    · obtain ⟨entry, bytes, checked, rfl⟩ := mem_checked.mp isChecked
      refine ⟨entry, bytes, checked, rfl, fun passes => reported ?_⟩
      rw [Passes, if_pos listed] at passes
      exact (managedDivergences_eq_nil checked).mpr passes
  · rintro ⟨entry, bytes, checked, rfl, fails⟩
    have isChecked : entry.path ∈ checkout.checked git :=
      mem_checked.mpr ⟨entry, bytes, checked, rfl⟩
    by_cases listed : entry.path ∈ lfsTracked checkout.lfsFiles
    · rw [Passes, if_pos listed] at fails
      exact .inr ⟨⟨isChecked, listed⟩, fun nothing =>
        fails ((managedDivergences_eq_nil checked).mp nothing)⟩
    · rw [Passes, if_neg listed] at fails
      refine .inl ⟨⟨isChecked, listed⟩, fun nothing => fails ?_⟩
      exact (ordinaryDivergences_eq_nil (hashable entry bytes checked listed)
        (checkout.get?_blobs checked.inHead checked.isBlob)).mp nothing

end Runs

section Exactness

/-- A pointer of git-lfs. Its extensions have lines of their own. -/
structure Pointer where
  extensions : List ByteText
  oid : ByteText
  size : Nat
  extensions_plain : ∀ line ∈ extensions, ascii "ext-" <+: line ∧ lineFeed ∉ line
  oid_length : oid.length = 64
  oid_hex : oid.all isHexDigit = true

/-- The text of a pointer. -/
def Pointer.text (pointer : Pointer) : ByteText :=
  terminated lineFeed (ascii "version https://git-lfs.github.com/spec/v1" :: pointer.extensions ++
    [ascii "oid sha256:" ++ pointer.oid, ascii "size " ++ decimal pointer.size])

/-- `git status` reports a path as changed: a record is about it, or it was renamed. -/
def Reported (checkout : Checkout) (path : Text) : Prop :=
  ∃ record ∈ checkout.records, record.path = path ∨
    (record.orig = some path ∧ 'R' ∈ record.code)

/-- A file that git-lfs manages: it is listed, and HEAD has a pointer. -/
def Managed (checkout : Checkout) (entry : TreeEntry) : Prop :=
  (∃ names, checkout.lfsFiles = some names ∧ entry.path ∈ names) ∧
    ∃ pointer : Pointer, entry.content = pointer.text

/-- The bytes are those of the commit: the object of the pointer, or the blob. -/
def Agrees (git : Git) (checkout : Checkout) (entry : TreeEntry) (bytes : ByteText) : Prop :=
  (Managed checkout entry → ∃ pointer : Pointer, entry.content = pointer.text ∧
    git.sha256 bytes = pointer.oid ∧ bytes.length = pointer.size) ∧
  (¬Managed checkout entry → bytes = entry.content)

/-- Regular both in HEAD and in the working tree. -/
def Regular (checkout : Checkout) (entry : TreeEntry) (bytes : ByteText) : Prop :=
  entry.isLink = false ∧ checkout.work entry.path = some (.file bytes)

/-- A regular file of HEAD whose bytes in the working tree are not those of the commit, and
of which git says nothing. -/
def Diverged (git : Git) (checkout : Checkout) (path : Text) : Prop :=
  ∃ entry ∈ checkout.head, ∃ bytes, entry.path = path ∧ entry.kind = .blob ∧
    Regular checkout entry bytes ∧ ¬Reported checkout path ∧ ¬Agrees git checkout entry bytes

/-- The check answers, and with the diverged files. -/
def Exact (git : Git) (checkout : Checkout) : Prop :=
  ∃ found, divergedFiles git true checkout = some found ∧
    ∀ path, path ∈ found.map Divergence.path ↔ Diverged git checkout path

/-- Nothing in a checkout misleads the check. -/
structure Sound (git : Git) (checkout : Checkout) : Prop where
  /-- Every request is one line that can be read. -/
  hashable : checkout.Hashable git
  /-- A link, or what git says was renamed, happens to pass. -/
  others : ∀ entry bytes, Checked checkout entry bytes →
    ¬Regular checkout entry bytes ∨ Reported checkout entry.path → Passes git checkout entry bytes
  /-- A regular file passes when it agrees, and only then. -/
  regular : ∀ entry bytes, Checked checkout entry bytes → Regular checkout entry bytes →
    ¬Reported checkout entry.path →
      (Passes git checkout entry bytes ↔ Agrees git checkout entry bytes)
  /-- What is taken for changed and was not reported agrees. -/
  hidden : ∀ entry ∈ checkout.head, ∀ bytes, entry.kind = .blob →
    Taken checkout entry.path → Regular checkout entry bytes →
      ¬Reported checkout entry.path → Agrees git checkout entry bytes

variable {git : Git} {checkout : Checkout}

theorem Regular.isFile {entry : TreeEntry} {bytes : ByteText} (regular : Regular checkout entry bytes) :
    bytesAt checkout.work entry.path = some bytes := by
  rw [bytesAt, regular.2]

theorem Checkout.entry_unique (checkout : Checkout) {entry other : TreeEntry}
    (inHead : entry ∈ checkout.head) (otherInHead : other ∈ checkout.head)
    (same : entry.path = other.path) : entry = other :=
  List.inj_on_of_nodup_map checkout.distinct inHead otherInHead same

/-- A check that is exact was not misled. -/
theorem Exact.sound (exact : Exact git checkout) : Sound git checkout := by
  obtain ⟨found, answered, exact⟩ := exact
  have hashable := hashable_of_divergedFiles answered
  obtain ⟨again, isAgain, reports⟩ := divergedFiles_found hashable
  obtain rfl : found = again := Option.some.inj (answered.symm.trans isAgain)
  have reported {entry : TreeEntry} {bytes : ByteText} (checked : Checked checkout entry bytes)
      (fails : ¬Passes git checkout entry bytes) : Diverged git checkout entry.path :=
    (exact entry.path).mp ((reports entry.path).mpr ⟨entry, bytes, checked, rfl, fails⟩)
  refine ⟨hashable, fun entry bytes checked other => ?_, fun entry bytes checked regular silent => ?_,
    fun entry inHead bytes isBlob isTaken regular silent => ?_⟩
  · by_contra fails
    obtain ⟨same, inHead, content, samePath, _, regular, silent, _⟩ := reported checked fails
    obtain rfl := checkout.entry_unique inHead checked.inHead samePath
    obtain rfl : bytes = content :=
      Option.some.inj (checked.isFile.symm.trans regular.isFile)
    exact other.elim (fun irregular => irregular regular) silent
  · constructor
    · intro passes
      by_contra differs
      obtain ⟨same, content, checkedToo, samePath, fails⟩ := (reports entry.path).mp
        ((exact entry.path).mpr ⟨entry, checked.inHead, bytes, rfl, checked.isBlob, regular, silent,
          differs⟩)
      obtain rfl := checkout.entry_unique checkedToo.inHead checked.inHead samePath
      obtain rfl : bytes = content :=
        Option.some.inj (checked.isFile.symm.trans checkedToo.isFile)
      exact fails passes
    · intro agrees
      by_contra fails
      obtain ⟨same, inHead, content, samePath, _, regularToo, _, differs⟩ := reported checked fails
      obtain rfl := checkout.entry_unique inHead checked.inHead samePath
      obtain rfl : bytes = content :=
        Option.some.inj (checked.isFile.symm.trans regularToo.isFile)
      exact differs agrees
  · by_contra differs
    obtain ⟨same, content, checked, samePath, _⟩ := (reports entry.path).mp
      ((exact entry.path).mpr ⟨entry, inHead, bytes, rfl, isBlob, regular, silent, differs⟩)
    exact checked.unchanged (samePath ▸ isTaken)

/-- A check that nothing misleads is exact. -/
theorem Sound.exact (sound : Sound git checkout) : Exact git checkout := by
  obtain ⟨found, answered, reports⟩ := divergedFiles_found sound.hashable
  refine ⟨found, answered, fun path => ?_⟩
  rw [reports]
  constructor
  · rintro ⟨entry, bytes, checked, rfl, fails⟩
    have regular : Regular checkout entry bytes := by
      by_contra irregular
      exact fails (sound.others entry bytes checked (.inl irregular))
    have silent : ¬Reported checkout entry.path := fun isReported =>
      fails (sound.others entry bytes checked (.inr isReported))
    exact ⟨entry, checked.inHead, bytes, rfl, checked.isBlob, regular, silent,
      fun agrees => fails ((sound.regular entry bytes checked regular silent).mpr agrees)⟩
  · rintro ⟨entry, inHead, bytes, rfl, isBlob, regular, silent, differs⟩
    have unchanged : ¬Taken checkout entry.path := fun isTaken =>
      differs (sound.hidden entry inHead bytes isBlob isTaken regular silent)
    have checked : Checked checkout entry bytes := ⟨inHead, isBlob, unchanged, regular.isFile⟩
    exact ⟨entry, bytes, checked, rfl, fun passes =>
      differs ((sound.regular entry bytes checked regular silent).mp passes)⟩

end Exactness

section Searches

variable {word rest : ByteText} {goesOn : ByteText → Bool} {before after : List ByteText}

/-- A search passes over lines that begin otherwise. -/
theorem searchLine_terminated
    (plain : ∀ line ∈ before ++ (word ++ rest) :: after, lineFeed ∉ line)
    (skipped : ∀ line ∈ before, ¬word <+: line) (goes : goesOn rest = true) :
    searchLine word goesOn (terminated lineFeed (before ++ (word ++ rest) :: after)) =
      some rest := by
  have none : before.findSome? (fun line =>
      if word.isPrefixOf line && goesOn (line.drop word.length) then some (line.drop word.length)
      else none) = none := by
    rw [List.findSome?_eq_none_iff]
    intro line member
    have other : word.isPrefixOf line = false := Bool.eq_false_iff.mpr fun isPrefix =>
      skipped line member (List.isPrefixOf_iff_prefix.mp isPrefix)
    simp [other]
  rw [searchLine, splitOn_terminated plain, List.append_assoc, List.findSome?_append, none,
    Option.none_or, List.cons_append, List.findSome?_cons]
  simp [goes]

theorem Pointer.lines_plain (pointer : Pointer) :
    ∀ line ∈ (ascii "version https://git-lfs.github.com/spec/v1" :: pointer.extensions) ++
      [ascii "oid sha256:" ++ pointer.oid, ascii "size " ++ decimal pointer.size],
      lineFeed ∉ line := by
  have noHex : ∀ byte ∈ pointer.oid, byte ≠ lineFeed := by
    rintro byte member rfl
    exact absurd (List.all_eq_true.mp pointer.oid_hex lineFeed member) (by decide)
  have noDigit : ∀ byte ∈ decimal pointer.size, byte ≠ lineFeed := by
    rintro byte member rfl
    exact absurd ((decimal_digits pointer.size).2 lineFeed member) (by decide)
  intro line member
  simp only [List.cons_append, List.mem_cons, List.mem_append, List.not_mem_nil, or_false] at member
  rcases member with rfl | isExtension | rfl | rfl
  · decide
  · exact (pointer.extensions_plain line isExtension).2
  · rw [List.mem_append, not_or]
    exact ⟨by decide, fun member => noHex lineFeed member rfl⟩
  · rw [List.mem_append, not_or]
    exact ⟨by decide, fun member => noDigit lineFeed member rfl⟩

/-- The lines before the object of a pointer begin with no other word. -/
theorem Pointer.skipped (pointer : Pointer) {word : ByteText}
    (other : ¬word <+: ascii "version https://git-lfs.github.com/spec/v1")
    (head : word.head? = some 111 ∨ word.head? = some 115) :
    ∀ line ∈ ascii "version https://git-lfs.github.com/spec/v1" :: pointer.extensions,
      ¬word <+: line := by
  rw [List.forall_mem_cons]
  refine ⟨other, fun line member => ?_⟩
  obtain ⟨more, rfl⟩ := (pointer.extensions_plain line member).1
  rintro ⟨tail, same⟩
  have heads := congrArg List.head? same
  rcases head with isHead | isHead
  all_goals
    rw [List.head?_append, isHead] at heads
    simp [ascii] at heads

theorem searchOid_text (pointer : Pointer) : searchOid pointer.text = some pointer.oid := by
  refine searchLine_terminated pointer.lines_plain (pointer.skipped (by decide) (.inl rfl)) ?_
  simp [pointer.oid_length, pointer.oid_hex]

theorem searchSize_text (pointer : Pointer) : searchSize pointer.text = some pointer.size := by
  have lines : pointer.text = terminated lineFeed
      ((ascii "version https://git-lfs.github.com/spec/v1" :: pointer.extensions ++
        [ascii "oid sha256:" ++ pointer.oid]) ++ (ascii "size " ++ decimal pointer.size) :: []) := by
    simp [Pointer.text]
  have skipped : ∀ line ∈ ascii "version https://git-lfs.github.com/spec/v1" ::
      pointer.extensions ++ [ascii "oid sha256:" ++ pointer.oid], ¬ascii "size " <+: line := by
    intro line member
    rcases List.mem_append.mp member with before | isOid
    · exact pointer.skipped (by decide) (.inr rfl) line before
    · obtain rfl := List.mem_singleton.mp isOid
      rintro ⟨tail, same⟩
      have heads := congrArg List.head? same
      simp [ascii] at heads
  have goes : (decide (decimal pointer.size ≠ []) &&
      (decimal pointer.size).all fun byte => (digit? byte).isSome) = true := by
    rw [Bool.and_eq_true, decide_eq_true_eq, List.all_eq_true]
    exact decimal_digits pointer.size
  have plain : ∀ line ∈ (ascii "version https://git-lfs.github.com/spec/v1" ::
      pointer.extensions ++ [ascii "oid sha256:" ++ pointer.oid]) ++
        (ascii "size " ++ decimal pointer.size) :: [], lineFeed ∉ line := by
    intro line member
    exact pointer.lines_plain line (by simpa using member)
  rw [searchSize, lines, searchLine_terminated plain skipped goes, Option.bind_some,
    readNat_decimal]

end Searches

section OrdinaryCheckouts

/-- Nothing is there that needs care: no links and no renames, names of one line each, and
the pointers of what is listed. -/
structure Ordinary (git : Git) (checkout : Checkout) : Prop where
  files : ∀ entry bytes, Checked checkout entry bytes → Regular checkout entry bytes
  unrenamed : ∀ record ∈ checkout.records, record.orig = none
  paths : ∀ entry ∈ checkout.head, '\n' ∉ entry.path ∧ entry.path.head? ≠ some '"'
  names : ∀ names ∈ checkout.lfsFiles, ∀ name ∈ names,
    name ≠ [] ∧ ∀ character ∈ name, Report.endsLine character = false
  pointers : ∀ names ∈ checkout.lfsFiles, ∀ entry ∈ checkout.head, entry.path ∈ names →
    ∃ pointer : Pointer, entry.content = pointer.text
  smudged : ∀ entry bytes, Checked checkout entry bytes → Managed checkout entry →
    Agrees git checkout entry bytes → ¬lfsPointerPrefix <+: bytes

variable {git : Git} {checkout : Checkout} {entry : TreeEntry} {bytes : ByteText}

/-- In an ordinary checkout, what was listed is what is handled as listed. -/
theorem Ordinary.mem_lfsTracked (ordinary : Ordinary git checkout) {path : Text} :
    path ∈ lfsTracked checkout.lfsFiles ↔ ∃ names, checkout.lfsFiles = some names ∧ path ∈ names := by
  cases isFiles : checkout.lfsFiles with
  | none => simp [lfsTracked]
  | some listed => simp [lfsTracked_names (ordinary.names listed isFiles)]

/-- Without renames, what is taken for changed was reported. -/
theorem Ordinary.taken_iff (ordinary : Ordinary git checkout) {path : Text} :
    Taken checkout path ↔ Reported checkout path := by
  refine exists_congr fun record => and_congr_right fun isRecord => or_congr_right ?_
  simp [ordinary.unrenamed record isRecord]

/-- A pointer lets the object pass that it is about. -/
theorem pointerPasses_text (pointer : Pointer) : PointerPasses git pointer.text bytes ↔
    ¬lfsPointerPrefix <+: bytes ∧ bytes.length = pointer.size ∧ git.sha256 bytes = pointer.oid := by
  simp [PointerPasses, searchOid_text, searchSize_text]

theorem Pointer.of_text_eq {pointer other : Pointer} (same : pointer.text = other.text) :
    pointer.oid = other.oid ∧ pointer.size = other.size := by
  have oids := searchOid_text pointer
  have sizes := searchSize_text pointer
  rw [same, searchOid_text] at oids
  rw [same, searchSize_text] at sizes
  exact ⟨(Option.some.inj oids).symm, (Option.some.inj sizes).symm⟩

/-- What is hashed for an ordinary path is the file itself. -/
theorem Ordinary.hashedBytes (ordinary : Ordinary git checkout)
    (checked : Checked checkout entry bytes) :
    hashedBytes git (bytesAt checkout.work) entry.path = some bytes := by
  rw [TreeIntegrity.hashedBytes, git.requested_plain _ (ordinary.paths entry checked.inHead).2,
    Option.bind_some, checked.isFile]

/-- A listed file passes when its bytes are the object of its pointer. -/
theorem Ordinary.passes_listed (ordinary : Ordinary git checkout)
    (checked : Checked checkout entry bytes)
    (listed : ∃ names, checkout.lfsFiles = some names ∧ entry.path ∈ names) :
    Passes git checkout entry bytes ↔ Agrees git checkout entry bytes := by
  obtain ⟨names, isNames, member⟩ := listed
  obtain ⟨pointer, isPointer⟩ := ordinary.pointers names isNames entry checked.inHead member
  have managed : Managed checkout entry := ⟨⟨names, isNames, member⟩, pointer, isPointer⟩
  rw [Passes, if_pos (ordinary.mem_lfsTracked.mpr ⟨names, isNames, member⟩), isPointer,
    pointerPasses_text]
  constructor
  · rintro ⟨-, size, oid⟩
    exact ⟨fun _ => ⟨pointer, isPointer, oid, size⟩, fun unmanaged => absurd managed unmanaged⟩
  · intro agrees
    obtain ⟨other, isOther, oid, size⟩ := agrees.1 managed
    obtain ⟨sameOid, sameSize⟩ := Pointer.of_text_eq (isPointer.symm.trans isOther)
    exact ⟨ordinary.smudged entry bytes checked managed agrees, sameSize ▸ size, sameOid ▸ oid⟩

/-- Any other file passes when it has the bytes of the blob. -/
theorem Ordinary.passes_unlisted (ordinary : Ordinary git checkout)
    (checked : Checked checkout entry bytes)
    (unlisted : ¬∃ names, checkout.lfsFiles = some names ∧ entry.path ∈ names) :
    Passes git checkout entry bytes ↔ Agrees git checkout entry bytes := by
  have unmanaged : ¬Managed checkout entry := fun managed => unlisted managed.1
  rw [Passes, if_neg fun listed => unlisted (ordinary.mem_lfsTracked.mp listed),
    ordinary.hashedBytes checked, Option.some.injEq]
  exact ⟨fun same => ⟨fun managed => absurd managed unmanaged, fun _ => same⟩,
    fun agrees => agrees.2 unmanaged⟩

/-- An ordinary checkout does not mislead the check. -/
theorem Ordinary.sound (ordinary : Ordinary git checkout) : Sound git checkout where
  hashable := by
    intro entry bytes checked _
    exact ⟨(ordinary.paths entry checked.inHead).1, by rw [ordinary.hashedBytes checked]; rfl⟩
  others := by
    rintro entry bytes checked (irregular | reported)
    · exact absurd (ordinary.files entry bytes checked) irregular
    · exact absurd (ordinary.taken_iff.mpr reported) checked.unchanged
  regular := by
    intro entry bytes checked _ _
    by_cases listed : ∃ names, checkout.lfsFiles = some names ∧ entry.path ∈ names
    · exact ordinary.passes_listed checked listed
    · exact ordinary.passes_unlisted checked listed
  hidden := by
    intro entry _ bytes _ taken _ silent
    exact absurd (ordinary.taken_iff.mp taken) silent

end OrdinaryCheckouts

section Samples

/-- Names of objects that spell the bytes in tallies. -/
def talliedName (content : ByteText) : Text :=
  '0' :: terminated '0' (content.map fun byte => List.replicate byte.toNat '1')

theorem talliedName_injective : Function.Injective talliedName := by
  have plain : ∀ content : ByteText, ∀ tally ∈ content.map fun byte =>
      List.replicate byte.toNat '1', '0' ∉ tally := by
    intro content tally member
    obtain ⟨byte, _, rfl⟩ := List.mem_map.mp member
    exact fun zero => absurd (List.eq_of_mem_replicate zero) (by decide)
  intro content other same
  have lists := terminated_injective (plain content) (plain other) (List.cons.inj same).2
  refine List.map_injective_iff.mpr (fun byte another sameTally => ?_) lists
  have sameNat := congrArg List.length sameTally
  rw [List.length_replicate, List.length_replicate] at sameNat
  exact UInt8.toNat_inj.mp sameNat

/-- A git with these names, that reads every line as it is. -/
def tallyGit : Git where
  oidOf := talliedName
  oid_injective := talliedName_injective
  oid_ne_nil := fun _ => List.cons_ne_nil _ _
  oid_hex := by
    intro content digit member
    rcases List.mem_cons.mp member with rfl | later
    · decide
    obtain ⟨tally, isTally, inTally⟩ := List.mem_flatMap.mp later
    obtain ⟨byte, _, rfl⟩ := List.mem_map.mp isTally
    rcases List.mem_append.mp inTally with one | zero
    · obtain rfl := List.eq_of_mem_replicate one
      decide
    · obtain rfl := List.mem_singleton.mp zero
      decide
  requested := some
  requested_plain := fun _ _ => rfl
  sha256 := id

/-- A symbolic link of the commit to `tool.ps1`. -/
def latest : TreeEntry where
  mode := "120000".toList
  kind := .blob
  path := "latest.ps1".toList
  content := ascii "tool.ps1"
  mode_plain := by decide
  path_plain := by decide

/-- A checkout with that link, which leads to a file of the working tree. Nothing changed. -/
def linked : Checkout where
  head := [latest]
  records := []
  lfsFiles := none
  work := fun path => if path = latest.path then some (.link (some (ascii "exit 0"))) else none
  lookup := fun name =>
    if name = headName (encode latest.path) then
      .object ⟨ascii "5ca1e", by decide, List.all_iff_forall_prop.mp (by decide)⟩ .blob latest.content
    else .missing
  distinct := by decide
  lookup_head := by
    intro entry member _
    obtain rfl := List.mem_singleton.mp member
    exact ⟨_, if_pos rfl⟩

end Samples

end MastProvisioning.TreeIntegrity
