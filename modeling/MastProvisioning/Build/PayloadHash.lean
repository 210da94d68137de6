import Mathlib
import MastProvisioning.Build.StagingTree
import MastProvisioning.Collections.Lines
import MastProvisioning.PowerShell.Text
import MastProvisioning.Blobstore.Store

/-!
# The payload hash and the payload manifest

`build-manifest-lib.ps1`: one pass hashes every staged file, the payload hash is taken of
its lines, and the payload manifest repeats them with the entry of `build-manifest.json`
derived again. `Sort-Object` compares texts by the culture of the build host.
-/

namespace MastProvisioning.Build

open MastProvisioning.Storage MastProvisioning.Collections MastProvisioning.PowerShell
open MastProvisioning.Blobstore (Entry BUILD_MANIFEST)

/-- The sort keys of a culture; texts it does not tell apart have the same. -/
abbrev Culture := String → List Nat

/-- `Sort-Object`. -/
def sortObject {Item : Type} (culture : Culture) (property : Item → String) (items : List Item) :
    List Item :=
  items.insertionSort fun item other => culture (property item) ≤ culture (property other)

/-- `RelativePath`. -/
def relativePath (path : Path) : String :=
  String.ofList (['/'].intercalate (path.map String.toList))

/-- `${script:MastBuildManifestName}`. -/
def mastBuildManifestName : String := "build-manifest.json"

/-- `$e.path -eq ${script:MastBuildManifestName}`. -/
def isBuildManifest (path : Path) : Bool :=
  foldCase (relativePath path) = foldCase mastBuildManifestName

/-- A name that Windows allows, without a line feed. -/
def PlainFileName (name : String) : Prop :=
  '/' ∉ name.toList ∧ ':' ∉ name.toList ∧ '\n' ∉ name.toList

/-- The staging tree of a build, and the culture of the host it was built on. -/
structure Staging where
  culture : Culture
  root : String
  entries : Entries
  /-- No directory is staged twice. -/
  reals : (root :: entries.reals).Nodup
  distinct : ((entries.allFiles []).map StagedFile.path).Nodup
  plain : ∀ file ∈ entries.allFiles [], ∀ name ∈ file.path, PlainFileName name

/-- The files a build stages. -/
def Staging.staged (staging : Staging) : List StagedFile := staging.entries.allFiles []

/-- `Get-MastStagedFiles`. -/
def getMastStagedFiles (staging : Staging) : List StagedFile :=
  sortObject staging.culture (fun file => relativePath file.path)
    (getStagedFiles staging.root staging.entries)

/-- `Encoding.UTF8.GetBytes`. -/
def utf8 (text : String) : Bytes := text.toByteArray.data.toList

section Hashing

variable (sha256 : Bytes → String)

/-- The entry of a file. -/
def hashedFile (file : StagedFile) : Entry :=
  ⟨file.path, file.content.length, sha256 file.content, file.named⟩

/-- `Get-MastStagedFileHashes`. -/
def getMastStagedFileHashes (staging : Staging) : List Entry :=
  (getMastStagedFiles staging).map (hashedFile sha256)

/-- `Get-PayloadHash`. -/
def getPayloadHash (entries : List Entry) : String :=
  sha256 ((entries.filter fun entry => !isBuildManifest entry.path).flatMap fun entry =>
    utf8 (relativePath entry.path ++ ":" ++ entry.sha256 ++ "\n"))

/-- `Get-MastPayloadManifest`, with the bytes that `build-manifest.json` has by then. -/
def getMastPayloadManifest (culture : Culture) (entries : List Entry) (buildManifest : Bytes) :
    List Entry :=
  sortObject culture (fun entry => relativePath entry.path)
    ((entries.filter fun entry => !isBuildManifest entry.path) ++
      [⟨BUILD_MANIFEST, buildManifest.length, sha256 buildManifest, by decide⟩])

/-- The payload hash of a build. -/
def Staging.payloadHash (staging : Staging) : String :=
  getPayloadHash sha256 (getMastStagedFileHashes sha256 staging)

end Hashing

/-- The files that the payload hash names, in the order it takes them. -/
def Staging.payloadFiles (staging : Staging) : List StagedFile :=
  (getMastStagedFiles staging).filter fun file => !isBuildManifest file.path

/-- Their paths. -/
def Staging.sortedPaths (staging : Staging) : List Path :=
  staging.payloadFiles.map StagedFile.path

/-- Two builds stage the same bytes at the same paths, apart from the
`build-manifest.json` at the root. -/
def SameMap (first second : Staging) : Prop :=
  ∀ file : StagedFile, isBuildManifest file.path = false →
    (file ∈ first.staged ↔ file ∈ second.staged)

section Paths

theorem foldText_eq_iff (fold : Char → Char) {text other : String} :
    foldText fold text = foldText fold other ↔ text.toList.map fold = other.toList.map fold := by
  simp [foldText, ← String.toList_inj]

/-- Only a file at the root is taken for `build-manifest.json`. -/
theorem isBuildManifest_iff {path : Path} :
    isBuildManifest path = true ↔
      ∃ name, path = [name] ∧ foldCase name = foldCase mastBuildManifestName := by
  rw [isBuildManifest, decide_eq_true_iff]
  cases path with
  | nil => exact iff_of_false (by decide) (by simp)
  | cons name rest =>
    cases rest with
    | nil => simp [relativePath]
    | cons other more =>
      refine iff_of_false ?_ (by simp)
      intro same
      have slash : '/' ∈ (relativePath (name :: other :: more)).toList.map Char.toLower := by
        refine List.mem_map.mpr ⟨'/', ?_, rfl⟩
        rw [relativePath, String.toList_ofList, List.map_cons, List.map_cons,
          List.intercalate_cons_cons]
        simp
      rw [(foldText_eq_iff Char.toLower).mp same] at slash
      exact absurd slash (by decide)

/-- A character of a relative path separates names or is in one. -/
theorem mem_relativePath {character : Char} {path : Path}
    (member : character ∈ (relativePath path).toList) :
    character = '/' ∨ ∃ name ∈ path, character ∈ name.toList := by
  rw [relativePath, String.toList_ofList] at member
  induction path with
  | nil => simp at member
  | cons name rest ih =>
    cases rest with
    | nil => exact .inr ⟨name, List.mem_singleton_self _, by simpa using member⟩
    | cons other more =>
      rw [List.map_cons, List.map_cons, List.intercalate_cons_cons, List.mem_append,
        List.mem_append, List.mem_singleton, ← List.map_cons] at member
      rcases member with (inName | isSlash) | later
      · exact .inr ⟨name, List.mem_cons_self, inName⟩
      · exact .inl isSlash
      · refine (ih later).imp id ?_
        rintro ⟨part, isPart, inPart⟩
        exact ⟨part, List.mem_cons_of_mem _ isPart, inPart⟩

theorem relativePath_injective {path other : Path} (named : path ≠ []) (namedOther : other ≠ [])
    (plain : ∀ name ∈ path, '/' ∉ name.toList) (plainOther : ∀ name ∈ other, '/' ∉ name.toList)
    (same : relativePath path = relativePath other) : path = other := by
  have splits : ∀ {path : Path}, path ≠ [] → (∀ name ∈ path, '/' ∉ name.toList) →
      (relativePath path).toList.splitOn '/' = path.map String.toList := by
    intro path named plain
    rw [relativePath, String.toList_ofList]
    refine List.splitOn_intercalate '/' ?_ (by simpa using named)
    intro characters member
    obtain ⟨name, isName, rfl⟩ := List.mem_map.mp member
    exact plain name isName
  have lists : path.map String.toList = other.map String.toList := by
    rw [← splits named plain, ← splits namedOther plainOther, same]
  exact List.map_injective_iff.mpr (fun _ _ => String.toList_inj.mp) lists

end Paths

section Lines

variable {sha256 : Bytes → String}

theorem utf8_append (text more : String) : utf8 (text ++ more) = utf8 text ++ utf8 more := by
  simp [utf8]

theorem utf8_injective : Function.Injective utf8 := by
  intro text other same
  refine String.toByteArray_inj.mp (ByteArray.ext ?_)
  exact Array.toList_inj.mp same

/-- The line that is hashed for a file. -/
def hashLine (entry : Entry) : List Char :=
  (relativePath entry.path).toList ++ ':' :: entry.sha256.toList

theorem hashedText_eq (entries : List Entry) :
    (entries.flatMap fun entry => utf8 (relativePath entry.path ++ ":" ++ entry.sha256 ++ "\n")) =
      utf8 (String.ofList (terminated '\n' (entries.map hashLine))) := by
  induction entries with
  | nil => simp [utf8, terminated]
  | cons entry rest ih =>
    rw [List.flatMap_cons, ih, ← utf8_append, List.map_cons, terminated_cons]
    refine congrArg utf8 (String.toList_inj.mp ?_)
    simp [hashLine]

/-- An entry whose line can be read back. -/
structure PlainEntry (entry : Entry) : Prop where
  names : ∀ name ∈ entry.path, PlainFileName name
  digest : '\n' ∉ entry.sha256.toList

theorem PlainEntry.line {entry : Entry} (plain : PlainEntry entry) : '\n' ∉ hashLine entry := by
  intro member
  rcases List.mem_append.mp member with inPath | inDigest
  · rcases mem_relativePath inPath with isSlash | ⟨name, isName, inName⟩
    · exact absurd isSlash (by decide)
    · exact (plain.names name isName).2.2 inName
  · rcases List.mem_cons.mp inDigest with isColon | inDigest
    · exact absurd isColon (by decide)
    · exact plain.digest inDigest

theorem PlainEntry.colon {entry : Entry} (plain : PlainEntry entry) :
    ':' ∉ (relativePath entry.path).toList := by
  intro member
  rcases mem_relativePath member with isSlash | ⟨name, isName, inName⟩
  · exact absurd isSlash (by decide)
  · exact (plain.names name isName).2.1 inName

/-- A line names a path and a digest. -/
theorem hashLine_injective {entry other : Entry} (plain : PlainEntry entry)
    (plainOther : PlainEntry other) (same : hashLine entry = hashLine other) :
    entry.path = other.path ∧ entry.sha256 = other.sha256 := by
  obtain ⟨samePath, sameDigest⟩ := line_injective plain.colon plainOther.colon same
  refine ⟨?_, String.toList_inj.mp sameDigest⟩
  exact relativePath_injective entry.named other.named
    (fun name isName => (plain.names name isName).1)
    (fun name isName => (plainOther.names name isName).1) (String.toList_inj.mp samePath)

/-- Two payload hashes are equal exactly when the hashed lines are. -/
theorem getPayloadHash_inj (injective : Function.Injective sha256) {entries others : List Entry}
    (plain : ∀ entry ∈ entries, PlainEntry entry) (plainOthers : ∀ entry ∈ others, PlainEntry entry) :
    getPayloadHash sha256 entries = getPayloadHash sha256 others ↔
      (entries.filter fun entry => !isBuildManifest entry.path).map hashLine =
        (others.filter fun entry => !isBuildManifest entry.path).map hashLine := by
  have lines : ∀ {entries : List Entry}, (∀ entry ∈ entries, PlainEntry entry) →
      ∀ line ∈ (entries.filter fun entry => !isBuildManifest entry.path).map hashLine,
        '\n' ∉ line := by
    intro entries plain line member
    obtain ⟨entry, isEntry, rfl⟩ := List.mem_map.mp member
    exact (plain entry (List.mem_filter.mp isEntry).1).line
  unfold getPayloadHash
  rw [injective.eq_iff, hashedText_eq, hashedText_eq, utf8_injective.eq_iff, ← String.toList_inj,
    String.toList_ofList, String.toList_ofList]
  exact ⟨terminated_injective (lines plain) (lines plainOthers), congrArg _⟩

end Lines

section Builds

variable {sha256 : Bytes → String} {first second : Staging}

theorem mem_getMastStagedFiles {staging : Staging} {file : StagedFile} :
    file ∈ getMastStagedFiles staging ↔ file ∈ staging.staged := by
  rw [getMastStagedFiles, sortObject, List.mem_insertionSort]
  exact (getStagedFiles_perm staging.reals).mem_iff

theorem mem_payloadFiles {staging : Staging} {file : StagedFile} :
    file ∈ staging.payloadFiles ↔ file ∈ staging.staged ∧ isBuildManifest file.path = false := by
  rw [Staging.payloadFiles, List.mem_filter, mem_getMastStagedFiles]
  simp

/-- A path of a build holds one file. -/
theorem Staging.file_unique (staging : Staging) {file other : StagedFile}
    (isStaged : file ∈ staging.staged) (isOther : other ∈ staging.staged)
    (same : file.path = other.path) : file = other :=
  List.inj_on_of_nodup_map staging.distinct isStaged isOther same

theorem hashedFile_plain (hex : ∀ bytes, '\n' ∉ (sha256 bytes).toList) {staging : Staging}
    {entry : Entry} (member : entry ∈ getMastStagedFileHashes sha256 staging) : PlainEntry entry := by
  obtain ⟨file, isFile, rfl⟩ := List.mem_map.mp member
  exact ⟨staging.plain file (mem_getMastStagedFiles.mp isFile), hex _⟩

/-- The kept entries of the hashing pass. -/
theorem keptHashes_eq (staging : Staging) :
    ((getMastStagedFileHashes sha256 staging).filter fun entry => !isBuildManifest entry.path) =
      staging.payloadFiles.map (hashedFile sha256) := by
  rw [getMastStagedFileHashes, List.filter_map]
  rfl

theorem StagedFile.eq_of {file other : StagedFile} (samePath : file.path = other.path)
    (sameContent : file.content = other.content) : file = other := by
  cases file
  cases other
  simp_all

/-- Lists whose items are told apart by a property are equal when the properties are. -/
theorem eq_of_map_eq {Item Value : Type} {property : Item → Value} {items others : List Item}
    (apart : ∀ item ∈ items, ∀ other ∈ others, property item = property other → item = other)
    (same : items.map property = others.map property) : items = others := by
  induction items generalizing others with
  | nil => exact (List.map_eq_nil_iff.mp same.symm).symm
  | cons item rest ih =>
    cases others with
    | nil => simp at same
    | cons other more =>
      rw [List.map_cons, List.map_cons] at same
      obtain ⟨sameHead, sameTail⟩ := List.cons.inj same
      rw [apart item List.mem_cons_self other List.mem_cons_self sameHead,
        ih (fun item isItem other isOther => apart item (List.mem_cons_of_mem _ isItem) other
          (List.mem_cons_of_mem _ isOther)) sameTail]

/-- Two builds have one payload hash exactly when they stage the same map and sort its
paths the same. -/
theorem payloadHash_eq_iff (injective : Function.Injective sha256)
    (hex : ∀ bytes, '\n' ∉ (sha256 bytes).toList) :
    first.payloadHash sha256 = second.payloadHash sha256 ↔
      SameMap first second ∧ first.sortedPaths = second.sortedPaths := by
  unfold Staging.payloadHash
  rw [getPayloadHash_inj injective (fun _ => hashedFile_plain hex) fun _ => hashedFile_plain hex,
    keptHashes_eq, keptHashes_eq, List.map_map, List.map_map]
  constructor
  · intro same
    have plain : ∀ staging : Staging, ∀ file ∈ staging.payloadFiles,
        PlainEntry (hashedFile sha256 file) := by
      intro staging file member
      exact ⟨staging.plain file (mem_payloadFiles.mp member).1, hex _⟩
    have files : first.payloadFiles = second.payloadFiles := by
      refine eq_of_map_eq (fun file isFile other isOther sameLine => ?_) same
      obtain ⟨samePath, sameDigest⟩ :=
        hashLine_injective (plain first file isFile) (plain second other isOther) sameLine
      exact StagedFile.eq_of samePath (injective sameDigest)
    refine ⟨fun file isPayload => ?_, by rw [Staging.sortedPaths, files, Staging.sortedPaths]⟩
    have member : file ∈ first.payloadFiles ↔ file ∈ second.payloadFiles := by rw [files]
    simpa [mem_payloadFiles, isPayload] using member
  · rintro ⟨sameMap, samePaths⟩
    have files : first.payloadFiles = second.payloadFiles := by
      refine eq_of_map_eq (fun file isFile other isOther samePath => ?_) samePaths
      obtain ⟨isStaged, isPayload⟩ := mem_payloadFiles.mp isFile
      exact second.file_unique ((sameMap file isPayload).mp isStaged)
        (mem_payloadFiles.mp isOther).1 samePath
    rw [files]

/-- Under one culture that tells the paths apart, builds of the same map sort its paths
the same, in whatever order they were listed. -/
theorem sortedPaths_eq (culture : first.culture = second.culture)
    (apart : ∀ file ∈ first.staged, ∀ other ∈ first.staged,
      first.culture (relativePath file.path) = first.culture (relativePath other.path) →
        file.path = other.path)
    (sameMap : SameMap first second) : first.sortedPaths = second.sortedPaths := by
  have distinct : ∀ staging : Staging, staging.payloadFiles.Nodup := by
    intro staging
    have listed : (getMastStagedFiles staging).Perm staging.staged :=
      (List.perm_insertionSort _ _).trans (getStagedFiles_perm staging.reals)
    exact (listed.symm.nodup staging.distinct.of_map).filter _
  have sorted : ∀ staging : Staging, staging.payloadFiles.Pairwise fun file other =>
      staging.culture (relativePath file.path) ≤ staging.culture (relativePath other.path) :=
    fun staging => (List.pairwise_insertionSort _ _).filter _
  have perm : first.payloadFiles.Perm second.payloadFiles := by
    refine (List.perm_ext_iff_of_nodup (distinct first) (distinct second)).mpr fun file => ?_
    rw [mem_payloadFiles, mem_payloadFiles, and_congr_left_iff]
    exact sameMap file
  have files : first.payloadFiles = second.payloadFiles := by
    refine perm.eq_of_pairwise ?_ (sorted first) (culture ▸ sorted second)
    intro file other isFile isOther before after
    obtain ⟨isStaged, isPayload⟩ := mem_payloadFiles.mp isOther
    have isAlso := (sameMap other isPayload).mpr isStaged
    have isFirst := (mem_payloadFiles.mp isFile).1
    exact first.file_unique isFirst isAlso
      (apart file isFirst other isAlso (Std.le_antisymm before after))
  rw [Staging.sortedPaths, files, Staging.sortedPaths]

end Builds

end MastProvisioning.Build
