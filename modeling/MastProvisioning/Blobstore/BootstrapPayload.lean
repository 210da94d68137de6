import MastProvisioning.Blobstore.SnapshotIds
import MastProvisioning.Collections.Words

/-!
# The bootstrap payload

What a bare unit is brought up from: a declared list of files, found in the repository or in
the asset cache and named by their leaves. `bootstrap_payload.py` stages them flat on a
medium or records them on the relay under a hash of their names and digests.

Two payloads have one hash exactly when they stage one medium.
-/

namespace MastProvisioning.Blobstore.BootstrapPayload

open MastProvisioning.Collections MastProvisioning.Storage
open MastProvisioning.Build (utf8 utf8_injective relativePath)

/-- What a run finds: the declared files, the rows of the asset index, and the files below
the repository and the cache. -/
structure BuildHost where
  declared : List String
  indexed : List (String × String)
  repo : String → Option Source
  cache : String → Option Source
  /-- How a path below the repository prints. -/
  repoPath : String → String
  cachePath : String → String
  /-- No file is named with a line feed. -/
  plain : ∀ rel, (repo rel).isSome ∨ (cache rel).isSome → '\n' ∉ rel.toList

/-- `Path(rel).name`. -/
def leaf (rel : String) : String :=
  let separated := rel.toList.map fun character => if character = '\\' then '/' else character
  let parts := (separated.splitOn '/').filter fun part => part ≠ [] && part ≠ ['.']
  String.ofList (parts.getLast?.getD [])

section Payload

variable (sha256 : Bytes → String)

/-- Where a declared file is: in the repository, else in the cache. -/
def BuildHost.find (host : BuildHost) (rel : String) : Option (String × Source) :=
  match host.repo rel with
  | some source => some (host.repoPath rel, source)
  | none => (host.cache rel).map fun source => (host.cachePath rel, source)

/-- The round of `payload_files` for one file. -/
def payloadFile (host : BuildHost) (rel : String) : Except String SourceFile :=
  match host.find rel with
  | none => .error (rel ++ " is in neither the repo nor the asset cache; run tools/fetch-assets.sh")
  | some (place, source) =>
    let digest := sha256 source.bytes
    let file : SourceFile :=
      { entry := ⟨[leaf rel], source.bytes.length, digest, by simp⟩
        source := place
        found := some source }
    match OrderedDict.get? id (OrderedDict.setAll id [] host.indexed) rel with
    | some expected =>
      if digest = expected then .ok file
      else .error (place ++ " hashes to " ++ digest ++ ", not the indexed " ++ expected ++ " for " ++
        leaf rel)
    | none => .ok file

/-- `payload_files`, from a place of the list on. -/
def payloadFilesFrom (host : BuildHost) : List String → List String → Except String (List SourceFile)
  | _, [] => .ok []
  | seen, rel :: rest =>
    if leaf rel ∈ seen then
      .error ("two bootstrap payload files are named " ++ leaf rel ++ "; the payload is flat")
    else
      match payloadFile sha256 host rel with
      | .error message => .error message
      | .ok file => (payloadFilesFrom host (leaf rel :: seen) rest).map (file :: ·)

/-- `payload_files`. -/
def payloadFiles (host : BuildHost) : Except String (List SourceFile) :=
  payloadFilesFrom sha256 host [] host.declared

/-- A line of the hashed text. -/
def payloadLine (file : SourceFile) : String :=
  file.entry.sha256 ++ "  " ++ relativePath file.entry.path

/-- `payload_hash`. -/
def payloadHash (files : List SourceFile) : String :=
  let lines := (files.map payloadLine).mergeSort fun line other => decide (line ≤ other)
  sha256 (utf8 (String.ofList (['\n'].intercalate (lines.map String.toList))))

/-- `stage`, on a medium. -/
def stage (files : List SourceFile) (out : Path → Option Bytes) : Path → Option Bytes :=
  files.foldl (fun out file =>
    match file.found with
    | some source => Function.update out file.entry.path (some source.bytes)
    | none => out) out

/-- What is recorded on the relay. -/
def snapshotSync (files : List SourceFile) : SnapshotSync where
  kind := .bootstrapPayload
  snapshotId := payloadHash sha256 files
  files

end Payload

section Files

variable {sha256 : Bytes → String} {host : BuildHost} {files others : List SourceFile}

/-- A file of a payload: its name is a leaf, and its digest that of the bytes that are there. -/
structure PayloadFile (sha256 : Bytes → String) (file : SourceFile) (name : String)
    (source : Source) : Prop where
  path : file.entry.path = [name]
  found : file.found = some source
  digest : file.entry.sha256 = sha256 source.bytes
  plain : '\n' ∉ name.toList

/-- The files of a payload: no two have one name. -/
structure Payload (sha256 : Bytes → String) (files : List SourceFile) : Prop where
  distinct : (files.map fun file => file.entry.path).Nodup
  each : ∀ file ∈ files, ∃ name source, PayloadFile sha256 file name source

theorem plain_leaf {rel : String} (plain : '\n' ∉ rel.toList) : '\n' ∉ (leaf rel).toList := by
  intro member
  simp only [leaf, String.toList_ofList] at member
  cases isLast : ((rel.toList.map fun character => if character = '\\' then '/' else character).splitOn
      '/' |>.filter fun part => part ≠ [] && part ≠ ['.']).getLast? with
  | none =>
    rw [isLast] at member
    cases member
  | some part =>
    rw [isLast, Option.getD_some] at member
    have isPart := (List.mem_filter.mp (List.mem_of_getLast? isLast)).1
    obtain ⟨character, isCharacter, isFeed⟩ :=
      List.mem_map.mp ((infix_of_mem_splitOn isPart).subset member)
    split at isFeed
    · exact absurd isFeed (by decide)
    · exact plain (isFeed ▸ isCharacter)

theorem payloadFile_ok {rel : String} {file : SourceFile}
    (isFile : payloadFile sha256 host rel = .ok file) :
    ∃ source, PayloadFile sha256 file (leaf rel) source := by
  unfold payloadFile at isFile
  split at isFile
  · cases isFile
  · rename_i place source found
    have plain : '\n' ∉ rel.toList := by
      apply host.plain
      unfold BuildHost.find at found
      split at found
      · rename_i inRepo
        exact .inl (by rw [inRepo]; rfl)
      · obtain ⟨cached, inCache, -⟩ := Option.map_eq_some_iff.mp found
        exact .inr (by rw [inCache]; rfl)
    refine ⟨source, ?_⟩
    dsimp only at isFile
    split at isFile
    · split at isFile
      · rw [← Except.ok.inj isFile]
        exact ⟨rfl, rfl, rfl, plain_leaf plain⟩
      · cases isFile
    · rw [← Except.ok.inj isFile]
      exact ⟨rfl, rfl, rfl, plain_leaf plain⟩

/-- What `payload_files` returns from a place of the list on, none of it named like what was
seen. -/
theorem payloadFilesFrom_ok {seen rels : List String}
    (read : payloadFilesFrom sha256 host seen rels = .ok files) :
    Payload sha256 files ∧ ∀ file ∈ files, ∀ name ∈ seen, file.entry.path ≠ [name] := by
  induction rels generalizing seen files with
  | nil =>
    obtain rfl := Except.ok.inj read
    exact ⟨⟨List.nodup_nil, List.forall_mem_nil _⟩, List.forall_mem_nil _⟩
  | cons rel rest ih =>
    rw [payloadFilesFrom] at read
    split at read
    · cases read
    · rename_i fresh
      split at read
      · cases read
      · rename_i file isFile
        cases later : payloadFilesFrom sha256 host (leaf rel :: seen) rest with
        | error message =>
          rw [later] at read
          cases read
        | ok more =>
          rw [later] at read
          obtain rfl := Except.ok.inj read
          obtain ⟨⟨distinct, each⟩, apart⟩ := ih later
          obtain ⟨source, isPayload⟩ := payloadFile_ok isFile
          refine ⟨⟨?_, List.forall_mem_cons.mpr ⟨⟨_, source, isPayload⟩, each⟩⟩,
            List.forall_mem_cons.mpr ⟨?_, ?_⟩⟩
          · rw [List.map_cons, List.nodup_cons]
            refine ⟨fun again => ?_, distinct⟩
            obtain ⟨other, isOther, samePath⟩ := List.mem_map.mp again
            exact apart other isOther (leaf rel) List.mem_cons_self (samePath.trans isPayload.path)
          · intro name isSeen samePath
            rw [isPayload.path, List.singleton_inj] at samePath
            exact fresh (samePath ▸ isSeen)
          · intro other isOther name isSeen
            exact apart other isOther name (List.mem_cons_of_mem _ isSeen)

theorem payload_of_payloadFiles (read : payloadFiles sha256 host = .ok files) : Payload sha256 files :=
  (payloadFilesFrom_ok read).1

/-- A file stands on the medium under its path with its bytes. -/
def Carries (files : List SourceFile) (path : Path) (bytes : Bytes) : Prop :=
  ∃ file ∈ files, file.entry.path = path ∧ ∃ source, file.found = some source ∧ source.bytes = bytes

/-- Staging leaves the files of the payload and what else was there. -/
theorem stage_iff {out : Path → Option Bytes} {path : Path} {bytes : Bytes}
    (distinct : (files.map fun file => file.entry.path).Nodup)
    (found : ∀ file ∈ files, file.found.isSome) :
    stage files out path = some bytes ↔ Carries files path bytes ∨
      (∀ file ∈ files, file.entry.path ≠ path) ∧ out path = some bytes := by
  induction files generalizing out with
  | nil => simp [stage, Carries]
  | cons file rest ih =>
    obtain ⟨fresh, distinctRest⟩ := List.nodup_cons.mp distinct
    obtain ⟨isFound, foundRest⟩ := List.forall_mem_cons.mp found
    obtain ⟨source, isSource⟩ := Option.isSome_iff_exists.mp isFound
    have first : stage (file :: rest) out =
        stage rest (Function.update out file.entry.path (some source.bytes)) := by
      rw [stage, List.foldl_cons, isSource]
      rfl
    rw [first, ih distinctRest foundRest]
    by_cases here : file.entry.path = path
    · have noOther : ∀ other ∈ rest, other.entry.path ≠ path := by
        intro other isOther same
        exact fresh (List.mem_map.mpr ⟨other, isOther, same.trans here.symm⟩)
      rw [← here, Function.update_self]
      constructor
      · rintro (⟨other, isOther, same, -⟩ | ⟨-, same⟩)
        · exact absurd (same.trans here) (noOther other isOther)
        · exact .inl ⟨file, List.mem_cons_self, rfl, source, isSource, Option.some.inj same⟩
      · rintro (⟨other, isOther, same, otherSource, isOtherSource, isBytes⟩ | ⟨none, -⟩)
        · rcases List.mem_cons.mp isOther with rfl | later
          · rw [isSource, Option.some.injEq] at isOtherSource
            exact .inr ⟨fun other isOther => here ▸ noOther other isOther,
              by rw [isOtherSource, isBytes]⟩
          · exact absurd (same.trans here) (noOther other later)
        · exact absurd rfl (none file List.mem_cons_self)
    · rw [Function.update_of_ne (Ne.symm here)]
      have carries : Carries (file :: rest) path bytes ↔ Carries rest path bytes := by
        constructor
        · rintro ⟨other, isOther, same, more⟩
          rcases List.mem_cons.mp isOther with rfl | later
          · exact absurd same here
          · exact ⟨other, later, same, more⟩
        · rintro ⟨other, isOther, more⟩
          exact ⟨other, List.mem_cons_of_mem _ isOther, more⟩
      rw [carries, List.forall_mem_cons, and_iff_right here]

end Files

section Hash

variable {sha256 : Bytes → String} {files others : List SourceFile}

theorem relativePath_single (name : String) : relativePath [name] = name := by
  simp [relativePath]

/-- The line of a file names its path and its digest. -/
theorem toList_payloadLine {file : SourceFile} {name : String} {source : Source}
    (isPayload : PayloadFile sha256 file name source) :
    (payloadLine file).toList = (sha256 source.bytes).toList ++ ' ' :: ' ' :: name.toList := by
  rw [payloadLine, isPayload.path, isPayload.digest, relativePath_single]
  simp

theorem payloadLine_inj (hex : ∀ bytes, '\n' ∉ (sha256 bytes).toList ∧ ' ' ∉ (sha256 bytes).toList)
    {file other : SourceFile} {name otherName : String} {source otherSource : Source}
    (isPayload : PayloadFile sha256 file name source)
    (isOther : PayloadFile sha256 other otherName otherSource)
    (same : payloadLine file = payloadLine other) :
    name = otherName ∧ sha256 source.bytes = sha256 otherSource.bytes := by
  have sameText := congrArg String.toList same
  rw [toList_payloadLine isPayload, toList_payloadLine isOther] at sameText
  obtain ⟨sameDigest, sameRest⟩ := line_injective (hex _).2 (hex _).2 sameText
  exact ⟨String.toList_inj.mp (List.cons.inj sameRest).2, String.toList_inj.mp sameDigest⟩

/-- Lists of lines that sort to one are lists of the same lines. -/
theorem sorted_eq_iff {lines more : List String} :
    (lines.mergeSort fun line other => decide (line ≤ other)) =
        (more.mergeSort fun line other => decide (line ≤ other)) ↔ lines.Perm more := by
  have sorted : ∀ lines : List String,
      (lines.mergeSort fun line other => decide (line ≤ other)).Pairwise (· ≤ ·) := by
    intro lines
    apply (List.pairwise_mergeSort _ _ lines).imp
    · exact fun inOrder => of_decide_eq_true inOrder
    · intro first second third above below
      exact decide_eq_true (le_trans (of_decide_eq_true above) (of_decide_eq_true below))
    · intro first second
      simpa using le_total first second
  constructor
  · intro same
    exact (List.mergeSort_perm lines _).symm.trans (same ▸ List.mergeSort_perm more _)
  · intro perm
    apply List.Perm.eq_of_pairwise (fun _ _ _ _ => le_antisymm) (sorted lines) (sorted more)
    exact (List.mergeSort_perm lines _).trans (perm.trans (List.mergeSort_perm more _).symm)

/-- Payloads of one hash have the same lines. -/
theorem payloadHash_eq_iff_perm (injective : Function.Injective sha256)
    (hex : ∀ bytes, '\n' ∉ (sha256 bytes).toList ∧ ' ' ∉ (sha256 bytes).toList)
    (isPayload : Payload sha256 files) (isOther : Payload sha256 others) :
    payloadHash sha256 files = payloadHash sha256 others ↔
      (files.map payloadLine).Perm (others.map payloadLine) := by
  have plain : ∀ {files : List SourceFile}, Payload sha256 files → ∀ line ∈
      ((files.map payloadLine).mergeSort fun line other => decide (line ≤ other)).map String.toList,
      line ≠ [] ∧ '\n' ∉ line := by
    intro files isPayload line isLine
    obtain ⟨text, isText, rfl⟩ := List.mem_map.mp isLine
    obtain ⟨file, isFile, rfl⟩ := List.mem_map.mp (List.mem_mergeSort.mp isText)
    obtain ⟨name, source, ofFile⟩ := isPayload.each file isFile
    rw [toList_payloadLine ofFile]
    refine ⟨by simp, fun isFeed => ?_⟩
    rcases List.mem_append.mp isFeed with inDigest | inRest
    · exact (hex _).1 inDigest
    · simp only [List.mem_cons] at inRest
      rcases inRest with isBlank | isBlank | inName
      · exact absurd isBlank (by decide)
      · exact absurd isBlank (by decide)
      · exact ofFile.plain inName
  rw [← sorted_eq_iff]
  constructor
  · intro same
    have sameText := String.ofList_inj.mp (utf8_injective (injective same))
    have sameLines := intercalate_injective (plain isPayload) (plain isOther) sameText
    exact List.map_injective_iff.mpr (fun _ _ => String.toList_inj.mp) sameLines
  · intro same
    rw [payloadHash, payloadHash, same]

/-- What a payload carries, by its lines. -/
theorem carries_of_perm (injective : Function.Injective sha256)
    (hex : ∀ bytes, '\n' ∉ (sha256 bytes).toList ∧ ' ' ∉ (sha256 bytes).toList)
    (isPayload : Payload sha256 files) (isOther : Payload sha256 others)
    (perm : (files.map payloadLine).Perm (others.map payloadLine)) {path : Path} {bytes : Bytes}
    (carries : Carries files path bytes) : Carries others path bytes := by
  obtain ⟨file, isFile, rfl, source, found, rfl⟩ := carries
  have isLine : payloadLine file ∈ others.map payloadLine :=
    perm.subset (List.mem_map_of_mem isFile)
  obtain ⟨other, isMember, same⟩ := List.mem_map.mp isLine
  obtain ⟨name, source', ofFile⟩ := isPayload.each file isFile
  obtain ⟨otherName, otherSource, ofOther⟩ := isOther.each other isMember
  obtain ⟨sameName, sameDigest⟩ := payloadLine_inj hex ofOther ofFile same
  rw [ofFile.found, Option.some.injEq] at found
  refine ⟨other, isMember, ?_, otherSource, ofOther.found, ?_⟩
  · rw [ofOther.path, ofFile.path, sameName]
  · rw [← found]
    exact injective sameDigest

theorem Payload.found (isPayload : Payload sha256 files) : ∀ file ∈ files, file.found.isSome := by
  intro file isFile
  obtain ⟨name, source, ofFile⟩ := isPayload.each file isFile
  rw [ofFile.found]
  rfl

/-- What an empty medium carries once a payload is staged on it. -/
theorem stage_empty (isPayload : Payload sha256 files) {path : Path} {bytes : Bytes} :
    stage files (fun _ => none) path = some bytes ↔ Carries files path bytes := by
  rw [stage_iff isPayload.distinct isPayload.found, or_iff_left]
  rintro ⟨-, ⟨⟩⟩

theorem nodup_payloadLine (hex : ∀ bytes, '\n' ∉ (sha256 bytes).toList ∧ ' ' ∉ (sha256 bytes).toList)
    (isPayload : Payload sha256 files) : (files.map payloadLine).Nodup := by
  have distinct := isPayload.distinct
  rw [List.Nodup, List.pairwise_map] at distinct ⊢
  apply distinct.imp_of_mem
  intro file other isFile isOther different same
  obtain ⟨name, source, ofFile⟩ := isPayload.each file isFile
  obtain ⟨otherName, otherSource, ofOther⟩ := isPayload.each other isOther
  obtain ⟨sameName, -⟩ := payloadLine_inj hex ofFile ofOther same
  exact different (by rw [ofFile.path, ofOther.path, sameName])

theorem mem_lines_of_stage (isPayload : Payload sha256 files) (isOther : Payload sha256 others)
    (same : stage files (fun _ => none) = stage others fun _ => none) {line : String}
    (isLine : line ∈ files.map payloadLine) : line ∈ others.map payloadLine := by
  obtain ⟨file, isFile, rfl⟩ := List.mem_map.mp isLine
  obtain ⟨name, source, ofFile⟩ := isPayload.each file isFile
  have here : Carries files [name] source.bytes := ⟨file, isFile, ofFile.path, source, ofFile.found, rfl⟩
  rw [← stage_empty isPayload, same, stage_empty isOther] at here
  obtain ⟨other, isMember, samePath, otherSource, found, sameBytes⟩ := here
  obtain ⟨otherName, otherSource', ofOther⟩ := isOther.each other isMember
  rw [ofOther.found, Option.some.injEq] at found
  have sameName := samePath.symm.trans ofOther.path
  refine List.mem_map.mpr ⟨other, isMember, String.toList_inj.mp ?_⟩
  rw [toList_payloadLine ofOther, toList_payloadLine ofFile, found, sameBytes,
    List.singleton_inj.mp sameName]

/-- What a snapshot of a payload is to hold. -/
theorem wantedBy_iff (isPayload : Payload sha256 files) {path : Path} {digest : String} :
    wantedBy (files.map SourceFile.entry) path = some digest ↔
      ∃ file ∈ files, file.entry.path = path ∧ file.entry.sha256 = digest := by
  have found : ∀ digest, wantedBy (files.map SourceFile.entry) path = some digest →
      ∃ file ∈ files, file.entry.path = path ∧ file.entry.sha256 = digest := by
    intro digest isWanted
    obtain ⟨entry, member, rfl, rfl⟩ := entry_of_wantedBy isWanted
    obtain ⟨file, isFile, rfl⟩ := List.mem_map.mp member
    exact ⟨file, isFile, rfl, rfl⟩
  refine ⟨found digest, ?_⟩
  rintro ⟨file, isFile, rfl, rfl⟩
  have isSome : (wantedBy (files.map SourceFile.entry) file.entry.path).isSome := by
    apply wantedBy_isSome.mpr
    rw [List.map_map]
    exact List.mem_map_of_mem isFile
  obtain ⟨digest, isWanted⟩ := Option.isSome_iff_exists.mp isSome
  obtain ⟨other, isOther, samePath, rfl⟩ := found digest isWanted
  rw [isWanted, List.inj_on_of_nodup_map isPayload.distinct isOther isFile samePath]

/-- What a snapshot of a payload is to hold is what is staged on an empty medium. -/
theorem wantedBy_iff_stage (injective : Function.Injective sha256) (isPayload : Payload sha256 files)
    {path : Path} {bytes : Bytes} :
    wantedBy (files.map SourceFile.entry) path = some (sha256 bytes) ↔
      stage files (fun _ => none) path = some bytes := by
  rw [wantedBy_iff isPayload, stage_empty isPayload]
  refine exists_congr fun file => and_congr_right fun isFile => and_congr_right fun _ => ?_
  obtain ⟨name, source, ofFile⟩ := isPayload.each file isFile
  rw [ofFile.digest, injective.eq_iff]
  simp [ofFile.found]

/-- Payloads of one hash want one snapshot. -/
theorem wantedBy_eq_of_hash (injective : Function.Injective sha256)
    (hex : ∀ bytes, '\n' ∉ (sha256 bytes).toList ∧ ' ' ∉ (sha256 bytes).toList)
    (isPayload : Payload sha256 files) (isOther : Payload sha256 others)
    (same : payloadHash sha256 files = payloadHash sha256 others) :
    wantedBy (files.map SourceFile.entry) = wantedBy (others.map SourceFile.entry) := by
  have perm := (payloadHash_eq_iff_perm injective hex isPayload isOther).mp same
  have carried : ∀ {files others : List SourceFile}, Payload sha256 files → Payload sha256 others →
      (files.map payloadLine).Perm (others.map payloadLine) → ∀ path digest,
      (∃ file ∈ files, file.entry.path = path ∧ file.entry.sha256 = digest) →
      ∃ file ∈ others, file.entry.path = path ∧ file.entry.sha256 = digest := by
    rintro files others isPayload isOther perm path digest ⟨file, isFile, rfl, rfl⟩
    obtain ⟨other, isMember, sameLine⟩ := List.mem_map.mp (perm.subset (List.mem_map_of_mem isFile))
    obtain ⟨name, source, ofFile⟩ := isPayload.each file isFile
    obtain ⟨otherName, otherSource, ofOther⟩ := isOther.each other isMember
    obtain ⟨sameName, sameDigest⟩ := payloadLine_inj hex ofOther ofFile sameLine
    refine ⟨other, isMember, ?_, ?_⟩
    · rw [ofOther.path, ofFile.path, sameName]
    · rw [ofOther.digest, ofFile.digest, sameDigest]
  funext path
  refine Option.ext fun digest => ?_
  rw [wantedBy_iff isPayload, wantedBy_iff isOther]
  exact ⟨carried isPayload isOther perm path digest, carried isOther isPayload perm.symm path digest⟩

end Hash

section Samples

theorem spelled_plain (bytes : Bytes) : '\n' ∉ (spelled bytes).toList ∧ ' ' ∉ (spelled bytes).toList := by
  refine ⟨spelled_hex bytes, fun member => ?_⟩
  rw [spelled, String.toList_ofList] at member
  obtain ⟨byte, -, isBlank⟩ := List.mem_map.mp member
  have code := spelled_toNat byte
  rw [isBlank] at code
  have visible : ' '.toNat < 48 := by decide
  omega

/-- How Windows prints a path. -/
def printed (root rel : String) : String :=
  root ++ "\\" ++ String.ofList (rel.toList.map fun letter => if letter = '/' then '\\' else letter)

/-- A script of the repository and an installer of the cache. -/
def field : BuildHost where
  declared := ["client/bootstrap.cmd", "npcap/npcap.exe"]
  indexed := [("npcap/npcap.exe", spelled [2])]
  repo rel := if rel = "client/bootstrap.cmd" then some ⟨[1], 10⟩ else none
  cache rel := if rel = "npcap/npcap.exe" then some ⟨[2], 20⟩ else none
  repoPath := printed "C:\\MAST\\repo"
  cachePath := printed "C:\\MAST\\provider-assets"
  plain := by
    intro rel isThere
    split at isThere <;> split at isThere <;> simp_all

/-- The same two files, both in the repository, declared the other way round. -/
def lab : BuildHost where
  declared := ["npcap.exe", "bootstrap.cmd"]
  indexed := []
  repo rel := if rel = "npcap.exe" then some ⟨[2], 30⟩ else
    if rel = "bootstrap.cmd" then some ⟨[1], 40⟩ else none
  cache _ := none
  repoPath := printed "D:\\repo"
  cachePath := printed "D:\\assets"
  plain := by
    intro rel isThere
    split at isThere <;> simp_all

def scriptOf (place : String) (mtime : Nat) : SourceFile :=
  ⟨⟨["bootstrap.cmd"], 1, spelled [1], by simp⟩, place, some ⟨[1], mtime⟩⟩

def installerOf (place : String) (mtime : Nat) : SourceFile :=
  ⟨⟨["npcap.exe"], 1, spelled [2], by simp⟩, place, some ⟨[2], mtime⟩⟩

def fieldFiles : List SourceFile :=
  [scriptOf "C:\\MAST\\repo\\client\\bootstrap.cmd" 10,
    installerOf "C:\\MAST\\provider-assets\\npcap\\npcap.exe" 20]

def labFiles : List SourceFile :=
  [installerOf "D:\\repo\\npcap.exe" 30, scriptOf "D:\\repo\\bootstrap.cmd" 40]

theorem field_files : payloadFiles spelled field = .ok fieldFiles := by
  rfl

end Samples

end MastProvisioning.Blobstore.BootstrapPayload
