import MastProvisioning.Build.LinkedTree
import MastProvisioning.PowerShell.Text
import MastProvisioning.PowerShell.SettingsFile

/-!
# What a transfer is measured by

The driver measures the staging tree before a transfer and compares the sums with what the
unit measures where the tree was copied to. What a run does not need is left out of both, as
names at the root of the tree: the pre-scan takes the names as they are, and `robocopy` gets
them as paths in one argument for files and one for directories.
-/

namespace MastProvisioning.Build

open MastProvisioning.Storage
open MastProvisioning.PowerShell.SettingsFile (isSpace)

/-- `Exclusions`: names at the root of the staging tree. -/
structure Exclusions where
  files : List String
  dirs : List String
  legal : ∀ name ∈ files ++ dirs, ∀ character ∈ name.toList,
    character ∉ "\\/:*?\"<>|".toList

/-- `'|'.join(names)`. -/
def joinBars (names : List String) : String :=
  String.ofList (['|'].intercalate (names.map String.toList))

/-- `.Trim()`. -/
def trimName (name : List Char) : List Char := (name.dropWhile isSpace).rdropWhile isSpace

/-- The names in an argument, as `Get-MastRobocopyExclusionArgs` splits it. -/
def splitBars (value : String) : List String :=
  if trimName value.toList = [] then []
  else (((value.toList.splitOn '|').map trimName).filter (· ≠ [])).map String.ofList

/-- `Get-MastRobocopyExclusionArgs`. -/
def robocopyExclusionArgs (src excludeFiles excludeDirs : String) : List String :=
  let dirs := splitBars excludeDirs
  let files := splitBars excludeFiles
  (if dirs ≠ [] then "/XD" :: dirs.map (joinPath src) else []) ++
    (if files ≠ [] then "/XF" :: files.map (joinPath src) else [])

/-- The list that follows a switch of `robocopy`, up to the next switch. -/
def switchList (switch : String) (args : List String) : List String :=
  ((args.dropWhile (· ≠ switch)).drop 1).takeWhile fun argument => argument.toList.head? ≠ some '/'

variable (fold : String → String)

/-- `robocopy` copies an entry of the root: its path is not in the list for its kind. -/
def Exclusions.copies (excluded : Exclusions) (src : String) (isDir : Bool) (name : String) : Bool :=
  let args := robocopyExclusionArgs src (joinBars excluded.files) (joinBars excluded.dirs)
  !(switchList (if isDir then "/XD" else "/XF") args).any fun path =>
    fold path = fold (joinPath src name)

/-- The pre-scan counts an entry of the root. -/
def Exclusions.scans (excluded : Exclusions) (_isDir : Bool) (name : String) : Bool :=
  name ∉ (excluded.files ++ excluded.dirs).filter (· ≠ "")

/-- Nothing is left out. -/
def Exclusions.None (excluded : Exclusions) : Prop := excluded.files = [] ∧ excluded.dirs = []

/-- A staging directory: the path it is at and, if it is a link, its target; its real path;
and what is in it and in the directories that its links lead to. -/
structure StagingRoot (fold : String → String) where
  path : String
  target : String
  real : String
  listing : Listing
  directory : String → Entries
  consistent : (listing.resolved real).Consistent directory
  acyclic : real ∉ (listing.resolved real).reals
  named : listing.WellNamed fold

variable {fold}

/-- The figures of `staging_payload_size`. -/
def StagingRoot.scanned (staging : StagingRoot fold) (excluded : Exclusions) : StagingSize :=
  stagingPayloadSize staging.real staging.listing excluded.files excluded.dirs

/-- The figures of `Get-MastDirectorySize`, where the tree was copied to. -/
def StagingRoot.landed (staging : StagingRoot fold) (excluded : Exclusions) (src dest : String) :
    StagingSize :=
  getDirectorySize dest (some ((staging.listing.keep (excluded.copies fold src)).copied dest))

/-- What `Get-MastStagedFiles` tells the staging directory by. -/
def StagingRoot.mark (staging : StagingRoot fold) : String :=
  if staging.target = "" then staging.path else staging.target

/-- The figures of what `Get-MastStagedFiles` lists. -/
def StagingRoot.listed (staging : StagingRoot fold) : StagingSize :=
  total (getStagedFiles staging.mark (staging.listing.marked staging.path))

/-- The walks have the same figures. -/
def Agree (staging : StagingRoot fold) (excluded : Exclusions) (src dest : String) : Prop :=
  staging.scanned excluded = staging.landed excluded src dest ∧
    (excluded.None → staging.scanned excluded = staging.listed)

/-- The tree by real paths, of the entries that pass at the root. -/
def StagingRoot.kept (staging : StagingRoot fold) (keeps : Bool → String → Bool) : Entries :=
  (staging.listing.keep keeps).resolved staging.real

/-- What is copied again, of directories that were copied before by another path. -/
def StagingRoot.again (staging : StagingRoot fold) (keeps : Bool → String → Bool) : StagingSize :=
  ∑ real ∈ (staging.kept keeps).reals.toFinset,
    ((staging.kept keeps).reals.count real - 1) • own staging.directory real

/-- What is passed by one rule and not by another: files at the root, and the files of
directories that are only reached with the one. -/
def StagingRoot.only (staging : StagingRoot fold) (keeps others : Bool → String → Bool) : StagingSize :=
  total ((staging.kept fun isDir name => keeps isDir name && !others isDir name).files []) +
    ∑ real ∈ (staging.kept keeps).reals.toFinset \ (staging.kept others).reals.toFinset,
      own staging.directory real

/-- What is copied again, and what only `robocopy` takes, comes to what only the pre-scan
counts. -/
def Balanced (staging : StagingRoot fold) (excluded : Exclusions) (src : String) : Prop :=
  staging.again (excluded.copies fold src) + staging.only (excluded.copies fold src) excluded.scans =
    staging.only excluded.scans (excluded.copies fold src)

/-- The directories of a staging tree, as `Get-MastStagedFiles` tells them apart. -/
def StagingRoot.folders (staging : StagingRoot fold) : List Folder :=
  Folder.folders ⟨[], staging.mark, staging.listing.marked staging.path⟩

/-- A directory with files below is told apart from all others. -/
def StagingRoot.Told (staging : StagingRoot fold) : Prop := staging.folders.Pairwise Folder.Apart

/-- Directories with files below are told apart from each other. -/
def StagingRoot.ToldFiles (staging : StagingRoot fold) : Prop :=
  staging.folders.Pairwise fun folder other =>
    folder.real = other.real → folder.allFiles = [] ∨ other.allFiles = []

/-- What is told apart by one mark is one directory, as it is when targets are full paths. -/
def StagingRoot.Sound (staging : StagingRoot fold) : Prop :=
  ∀ first second : Nat,
    (staging.folders.map Folder.real)[first]? = (staging.folders.map Folder.real)[second]? →
      (staging.real :: (staging.listing.resolved staging.real).reals)[first]? =
        (staging.real :: (staging.listing.resolved staging.real).reals)[second]?

section Figures

variable {staging : StagingRoot fold} {excluded : Exclusions} {src dest : String}
  {keeps others : Bool → String → Bool}

theorem kept_consistent (staging : StagingRoot fold) (keeps : Bool → String → Bool) :
    (staging.kept keeps).Consistent staging.directory :=
  Listing.consistent_keep keeps staging.consistent

/-- The pre-scan counts a directory once. -/
theorem scanned_eq (staging : StagingRoot fold) (excluded : Exclusions) :
    staging.scanned excluded = total ((staging.kept excluded.scans).files []) +
      ∑ real ∈ (staging.kept excluded.scans).reals.toFinset, own staging.directory real := by
  have acyclic : staging.real ∉ (staging.kept excluded.scans).reals := fun member =>
    staging.acyclic ((Listing.reals_keep _ _ _).subset member)
  exact scan_root (kept_consistent staging _) acyclic

/-- A copy has a directory for each path. -/
theorem landed_eq (staging : StagingRoot fold) (excluded : Exclusions) (src dest : String) :
    staging.landed excluded src dest =
      total ((staging.kept (excluded.copies fold src)).files []) +
        ∑ real ∈ (staging.kept (excluded.copies fold src)).reals.toFinset,
          own staging.directory real + staging.again (excluded.copies fold src) := by
  have once : ∀ real ∈ (staging.kept (excluded.copies fold src)).reals.toFinset,
      (staging.kept (excluded.copies fold src)).reals.count real • own staging.directory real =
        own staging.directory real +
          ((staging.kept (excluded.copies fold src)).reals.count real - 1) •
            own staging.directory real := by
    intro real member
    have positive := List.count_pos_iff.mpr (List.mem_toFinset.mp member)
    rw [← succ_nsmul', Nat.sub_add_cancel positive]
  rw [StagingRoot.landed, getDirectorySize_copied dest (staging.named.keep _),
    ← (Listing.allFiles_eq [] staging.real dest dest _).1]
  refine (total_allFiles (kept_consistent staging _) []).trans ?_
  rw [Finset.sum_congr rfl once, Finset.sum_add_distrib, ← add_assoc]
  rfl

/-- Files that pass at the root, by either rule and by both. -/
theorem files_kept (staging : StagingRoot fold) (keeps others : Bool → String → Bool) :
    total ((staging.kept keeps).files []) +
        total ((staging.kept fun isDir name => others isDir name && !keeps isDir name).files []) =
      total ((staging.kept others).files []) +
        total ((staging.kept fun isDir name => keeps isDir name && !others isDir name).files []) := by
  have folders (keep : Bool) (name : String) (children rest : Listing) :
      ((if keep then Listing.folder name children rest else rest).resolved staging.real).files [] =
        (rest.resolved staging.real).files [] := by
    split <;> rfl
  have links (keep : Bool) (name target real : String) (children rest : Listing) :
      ((if keep then Listing.link name target real children rest else rest).resolved
        staging.real).files [] = (rest.resolved staging.real).files [] := by
    split <;> rfl
  have counted (keep : Bool) (name : String) (content : Bytes) (rest : Listing) :
      total (((if keep then Listing.file name content rest else rest).resolved staging.real).files []) =
        (if keep then (content.length, 1) else 0) +
          total ((rest.resolved staging.real).files []) := by
    split
    · rfl
    · rw [zero_add]
  unfold StagingRoot.kept
  induction staging.listing with
  | none => rfl
  | file name content rest ih =>
    have either (first second : Bool) : (if first then (content.length, 1) else 0) +
        (if second && !first then (content.length, 1) else 0) =
          (if second then (content.length, 1) else 0) +
            (if first && !second then (content.length, 1) else (0 : StagingSize)) := by
      cases first <;> cases second <;> simp
    simp only [Listing.keep]
    rw [counted, counted, counted, counted, add_add_add_comm, ih, either, add_add_add_comm]
  | folder name children rest _ ih =>
    simp only [Listing.keep]
    rw [folders, folders, folders, folders]
    exact ih
  | link name target real children rest _ ih =>
    simp only [Listing.keep]
    rw [links, links, links, links]
    exact ih

/-- The pre-scan and the copy come to the same when what is copied again and what only one
rule passes do. -/
theorem scanned_eq_landed_iff :
    staging.scanned excluded = staging.landed excluded src dest ↔ Balanced staging excluded src := by
  have either (first second : Finset String) : ∑ real ∈ first, own staging.directory real +
      ∑ real ∈ second \ first, own staging.directory real =
        ∑ real ∈ second, own staging.directory real +
          ∑ real ∈ first \ second, own staging.directory real := by
    rw [← Finset.sum_union Finset.disjoint_sdiff, ← Finset.sum_union Finset.disjoint_sdiff,
      Finset.union_sdiff_self_eq_union, Finset.union_sdiff_self_eq_union, Finset.union_comm]
  have apart : staging.scanned excluded +
      staging.only (excluded.copies fold src) excluded.scans =
        total ((staging.kept (excluded.copies fold src)).files []) +
          ∑ real ∈ (staging.kept (excluded.copies fold src)).reals.toFinset,
            own staging.directory real + staging.only excluded.scans (excluded.copies fold src) := by
    rw [scanned_eq, StagingRoot.only, StagingRoot.only, add_add_add_comm, files_kept, either,
      add_add_add_comm]
  rw [landed_eq, Balanced]
  constructor
  · intro same
    rw [same, add_assoc] at apart
    exact add_left_cancel apart
  · intro balanced
    rw [← balanced, ← add_assoc] at apart
    exact add_right_cancel apart

theorem copies_of_none (none : excluded.None) (isDir : Bool) (name : String) :
    excluded.copies fold src isDir name = true := by
  have empty : robocopyExclusionArgs src (joinBars excluded.files) (joinBars excluded.dirs) =
      [] := by
    rw [none.1, none.2]
    rfl
  rw [Exclusions.copies, empty]
  rfl

theorem scans_of_none (none : excluded.None) (isDir : Bool) (name : String) :
    excluded.scans isDir name = true := by
  rw [Exclusions.scans, none.1, none.2]
  rfl

/-- Without exclusions everything is copied. -/
theorem landed_of_none (none : excluded.None) : staging.landed excluded src dest =
    total ((staging.listing.marked staging.path).allFiles []) := by
  rw [StagingRoot.landed, Listing.keep_all (copies_of_none none),
    getDirectorySize_copied dest staging.named,
    (Listing.allFiles_eq [] staging.real staging.path dest staging.listing).2]

/-- Where both rules pass the same entries, what is reached twice has to be without files. -/
theorem balanced_iff_of_alike
    (alike : staging.listing.Alike (excluded.copies fold src) excluded.scans) :
    Balanced staging excluded src ↔
      ∀ real, 2 ≤ (staging.kept excluded.scans).reals.count real →
        own staging.directory real = 0 := by
  have kept : staging.kept (excluded.copies fold src) = staging.kept excluded.scans := by
    rw [StagingRoot.kept, Listing.keep_congr alike, StagingRoot.kept]
  have back : staging.listing.Alike excluded.scans (excluded.copies fold src) := alike.symm
  have times (count : Nat) (size : StagingSize) : count • size = 0 ↔ count = 0 ∨ size = 0 := by
    cases count with
    | zero => simp
    | succ count =>
      rw [succ_nsmul, add_eq_zero]
      exact ⟨fun both => .inr both.2, fun either => by
        obtain rfl := either.resolve_left (Nat.succ_ne_zero count)
        simp⟩
  have onlyCopied : staging.only (excluded.copies fold src) excluded.scans = 0 := by
    rw [StagingRoot.only, kept, Finset.sdiff_self, Finset.sum_empty, StagingRoot.kept,
      Listing.keep_difference alike]
    rfl
  have onlyScanned : staging.only excluded.scans (excluded.copies fold src) = 0 := by
    rw [StagingRoot.only, kept, Finset.sdiff_self, Finset.sum_empty, StagingRoot.kept,
      Listing.keep_difference back]
    rfl
  rw [Balanced, onlyCopied, onlyScanned, add_zero, StagingRoot.again, kept, Finset.sum_eq_zero_iff]
  refine forall_congr' fun real => ?_
  rw [List.mem_toFinset, ← List.count_pos_iff, times, or_iff_not_imp_left]
  constructor
  · exact fun empty twice => empty (by omega) (by omega)
  · exact fun empty some another => empty (by omega)

/-- Without exclusions, what is reached twice has to be without files. -/
theorem balanced_iff_of_none (none : excluded.None) : Balanced staging excluded src ↔
    ∀ real, 2 ≤ (staging.listing.resolved staging.real).reals.count real →
      own staging.directory real = 0 := by
  have alike : staging.listing.Alike (excluded.copies fold src) excluded.scans :=
    Listing.alike_of_forall (fun isDir name =>
      (copies_of_none none isDir name).trans (scans_of_none none isDir name).symm) staging.listing
  rw [balanced_iff_of_alike alike, StagingRoot.kept, Listing.keep_all (scans_of_none none)]

/-- A listing of all files is of directories that were told apart. -/
theorem listed_of_told (told : staging.Told) :
    staging.listed = total ((staging.listing.marked staging.path).allFiles []) := by
  have walked : (getStagedFiles staging.mark (staging.listing.marked staging.path)).Perm
      ([] ++ [⟨[], staging.mark, staging.listing.marked staging.path⟩].flatMap Folder.allFiles) := by
    refine walk_apart ?_ ?_ (by simp)
    · rw [List.flatMap_singleton, ← List.length_map Folder.real, Folder.map_real_folders,
        Folder.reals, List.length_cons]
      exact Nat.lt_succ_self _
    · rw [List.flatMap_singleton]
      exact told
  rw [StagingRoot.listed, total_perm walked]
  simp [Folder.allFiles]

/-- What is told apart by more is told apart by less, where what has one mark is the same. -/
theorem apart_of_sound {folders others : List Folder}
    (files : folders.map Folder.allFiles = others.map Folder.allFiles)
    (sound : ∀ first second : Nat,
      (folders.map Folder.real)[first]? = (folders.map Folder.real)[second]? →
        (others.map Folder.real)[first]? = (others.map Folder.real)[second]?)
    (apart : others.Pairwise Folder.Apart) : folders.Pairwise Folder.Apart := by
  induction folders generalizing others with
  | nil => exact List.Pairwise.nil
  | cons folder folders ih =>
    cases others with
    | nil => exact absurd files (List.cons_ne_nil _ _)
    | cons other others =>
      obtain ⟨sameFiles, files⟩ := List.cons.inj files
      rw [List.pairwise_cons] at apart ⊢
      refine ⟨fun later member same => ?_, ih files (fun first second => ?_) apart.2⟩
      · obtain ⟨index, isLater⟩ := List.mem_iff_getElem?.mp member
        have found := congrArg (·[index]?) files
        simp only [List.getElem?_map, isLater, Option.map_some] at found
        obtain ⟨partner, isPartner, partnerFiles⟩ := Option.map_eq_some_iff.mp found.symm
        have marks : ((folder :: folders).map Folder.real)[0]? =
            ((folder :: folders).map Folder.real)[index + 1]? := by
          simp [isLater, same]
        have paths := sound 0 (index + 1) marks
        simp only [List.map_cons, List.getElem?_cons_zero, List.getElem?_cons_succ,
          List.getElem?_map, isPartner, Option.map_some, Option.some.injEq] at paths
        obtain ⟨none, noneLater⟩ := apart.1 partner (List.mem_of_getElem? isPartner) paths
        exact ⟨sameFiles.trans none, partnerFiles.symm.trans noneLater⟩
      · exact sound (first + 1) (second + 1)

/-- When marks are sound, what tells directories apart by their real paths tells them apart. -/
theorem told_of_sound (sound : staging.Sound)
    (unshared : ∀ real, 2 ≤ (staging.listing.resolved staging.real).reals.count real →
      own staging.directory real = 0) : staging.Told := by
  have reals : (Folder.folders ⟨[], staging.real, staging.listing.resolved staging.real⟩).map
      Folder.real = staging.real :: (staging.listing.resolved staging.real).reals :=
    Folder.map_real_folders _
  have files : staging.folders.map Folder.allFiles =
      (Folder.folders ⟨[], staging.real, staging.listing.resolved staging.real⟩).map
        Folder.allFiles := by
    rw [StagingRoot.folders, Folder.folders, Folder.folders, List.map_cons, List.map_cons,
      Folder.allFiles, Folder.allFiles]
    obtain ⟨isResolved, isMarked⟩ := Listing.allFiles_eq [] staging.real staging.path
      staging.path staging.listing
    rw [isMarked, isResolved, Listing.map_allFiles_folders [] staging.real]
  have apart : (Folder.folders ⟨[], staging.real, staging.listing.resolved staging.real⟩).Pairwise
      Folder.Apart := by
    refine List.pairwise_cons.mpr ⟨fun folder member same => ?_,
      folders_apart staging.consistent unshared []⟩
    have isReal : folder.real ∈ (staging.listing.resolved staging.real).reals := by
      rw [← Entries.map_real_folders []]
      exact List.mem_map_of_mem member
    rw [← same] at isReal
    exact absurd isReal staging.acyclic
  refine apart_of_sound files ?_ apart
  rw [reals]
  exact sound

theorem toldFiles_of_listed
    (full : staging.listed = total ((staging.listing.marked staging.path).allFiles [])) :
    staging.ToldFiles := by
  have counts := congrArg Prod.snd full
  rw [StagingRoot.listed, total_snd, total_snd] at counts
  have full : ([] : List StagedFile).length +
      ([⟨[], staging.mark, staging.listing.marked staging.path⟩].flatMap Folder.allFiles).length ≤
        (getStagedFiles staging.mark (staging.listing.marked staging.path)).length := by
    rw [List.flatMap_singleton, List.length_nil, Nat.zero_add]
    exact counts.ge
  have told := (apart_of_walk full).2
  rw [List.flatMap_singleton] at told
  exact told

end Figures

section Agreement

variable {staging : StagingRoot fold} {excluded : Exclusions} {src dest : String}

theorem agree_of_balanced (balanced : Balanced staging excluded src)
    (told : excluded.None → staging.Told) : Agree staging excluded src dest := by
  have same : staging.scanned excluded = staging.landed excluded src dest :=
    scanned_eq_landed_iff.mpr balanced
  refine ⟨same, fun none => ?_⟩
  rw [same, landed_of_none none, listed_of_told (told none)]

theorem Agree.balanced (agree : Agree staging excluded src dest) : Balanced staging excluded src :=
  scanned_eq_landed_iff.mp agree.1

theorem Agree.toldFiles (agree : Agree staging excluded src dest) (none : excluded.None) :
    staging.ToldFiles := by
  apply toldFiles_of_listed
  rw [← agree.2 none, agree.1, landed_of_none none]

/-- The walks agree when what is copied again and what only one rule passes come to the same,
and, without exclusions, the listing tells directories apart; and they agree only then, but
for directories without files. Where marks are sound the first is all that it takes. -/
theorem walkers_agree (staging : StagingRoot fold) (excluded : Exclusions) (src dest : String) :
    (Balanced staging excluded src ∧ (excluded.None → staging.Told) →
        Agree staging excluded src dest) ∧
      (Agree staging excluded src dest →
        Balanced staging excluded src ∧ (excluded.None → staging.ToldFiles)) ∧
      (staging.Sound → (Agree staging excluded src dest ↔ Balanced staging excluded src)) :=
  ⟨fun holds => agree_of_balanced holds.1 holds.2, fun agree => ⟨agree.balanced, agree.toldFiles⟩,
    fun sound => ⟨Agree.balanced, fun balanced => agree_of_balanced balanced fun none =>
      told_of_sound sound ((balanced_iff_of_none none).mp balanced)⟩⟩

end Agreement

section Samples

/-- A directory with one file. -/
def seedListing : Listing := .file "index.fits" [0x53] .none

/-- A staging tree with two links to that directory. -/
def twins : StagingRoot PowerShell.foldCase where
  path := "C:\\MAST\\staging"
  target := ""
  real := "C:\\MAST\\staging"
  listing := .link "indexes" "D:\\seed" "D:\\seed" seedListing
    (.link "mast-indexes" "D:\\seed" "D:\\seed" seedListing .none)
  directory := fun _ => seedListing.resolved "D:\\seed"
  consistent := ⟨rfl, trivial, rfl, trivial, trivial⟩
  acyclic := by decide
  named := by
    refine ⟨by decide, by decide, ⟨by decide, by decide, trivial⟩, by decide, by decide,
      ⟨by decide, by decide, trivial⟩, trivial⟩

/-- Every transfer of a tree with two links to one directory comes out as longer than it
was measured to be. -/
theorem twins_disagree :
    ¬Agree twins ⟨[], [], by simp⟩ "\\\\lab\\staging\\mast01" "C:\\mast-staging\\run" := by
  intro agree
  have unshared := (balanced_iff_of_none ⟨rfl, rfl⟩).mp agree.balanced
  exact absurd (unshared "D:\\seed" (by decide)) (by decide)

end Samples

end MastProvisioning.Build
