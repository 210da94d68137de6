import Mathlib
import MastProvisioning.Build.StagingTree
import MastProvisioning.Collections.Lines

/-!
# The size of a staging tree with links

Three walks measure a staging tree. `staging_payload_size` follows the links and enters
a directory once by its resolved path; `Get-MastDirectorySize` measures the tree that was
copied, where there are no links; and `Get-MastStagedFiles` enters a directory once by the
text of a link's target, or else by the path it came by.

A tree is given with what its links lead to, so a link to an ancestor has no place in it.
-/

namespace MastProvisioning.Build

open MastProvisioning.Collections MastProvisioning.Storage

/-- What is in a directory, in the order it is listed. A link has the text of its target,
and the real path and the entries of the directory it leads to. -/
inductive Listing
  | none
  | file (name : String) (content : Bytes) (rest : Listing)
  | folder (name : String) (children rest : Listing)
  | link (name target real : String) (children rest : Listing)

/-- `Join-Path`. -/
def joinPath (path name : String) : String := path ++ "\\" ++ name

namespace Listing

/-- The tree by real paths. -/
def resolved (real : String) : Listing → Entries
  | none => .none
  | file name content rest => .file name content (resolved real rest)
  | folder name children rest =>
    .container name (joinPath real name) (resolved (joinPath real name) children)
      (resolved real rest)
  | link name _ target children rest =>
    .container name target (resolved target children) (resolved real rest)

/-- The tree by the `Target` of a link, and by the path a folder is found at. -/
def marked (path : String) : Listing → Entries
  | none => .none
  | file name content rest => .file name content (marked path rest)
  | folder name children rest =>
    .container name (joinPath path name) (marked (joinPath path name) children) (marked path rest)
  | link name target _ children rest =>
    .container name (if target = "" then joinPath path name else target)
      (marked (joinPath path name) children) (marked path rest)

/-- What `robocopy /E` leaves at a path: a directory for each path that is reached. -/
def copied (path : String) : Listing → Entries
  | none => .none
  | file name content rest => .file name content (copied path rest)
  | folder name children rest =>
    .container name (joinPath path name) (copied (joinPath path name) children) (copied path rest)
  | link name _ _ children rest =>
    .container name (joinPath path name) (copied (joinPath path name) children) (copied path rest)

/-- The entries of the directory itself that pass, told whether they are directories. -/
def keep (keeps : Bool → String → Bool) : Listing → Listing
  | none => none
  | file name content rest =>
    if keeps false name then file name content (keep keeps rest) else keep keeps rest
  | folder name children rest =>
    if keeps true name then folder name children (keep keeps rest) else keep keeps rest
  | link name target real children rest =>
    if keeps true name then link name target real children (keep keeps rest) else keep keeps rest

/-- Two rules pass the same entries of the directory itself. -/
def Alike (keeps others : Bool → String → Bool) : Listing → Prop
  | none => True
  | file name _ rest => keeps false name = others false name ∧ Alike keeps others rest
  | folder name _ rest => keeps true name = others true name ∧ Alike keeps others rest
  | link name _ _ _ rest => keeps true name = others true name ∧ Alike keeps others rest

/-- The names in the directory itself. -/
def names : Listing → List String
  | none => []
  | file name _ rest => name :: names rest
  | folder name _ rest => name :: names rest
  | link name _ _ _ rest => name :: names rest

/-- Names have no separator, and no directory has two that are the same name to Windows. -/
def WellNamed (fold : String → String) : Listing → Prop
  | none => True
  | file name _ rest =>
    '\\' ∉ name.toList ∧ fold name ∉ rest.names.map fold ∧ rest.WellNamed fold
  | folder name children rest =>
    '\\' ∉ name.toList ∧ fold name ∉ rest.names.map fold ∧ children.WellNamed fold ∧
      rest.WellNamed fold
  | link name _ _ children rest =>
    '\\' ∉ name.toList ∧ fold name ∉ rest.names.map fold ∧ children.WellNamed fold ∧
      rest.WellNamed fold

end Listing

/-- `StagingSize`: bytes and files. -/
abbrev StagingSize := Nat × Nat

/-- The size of files. -/
def total (files : List StagedFile) : StagingSize :=
  (files.map fun file => (file.content.length, 1)).sum

/-- What `walk` of `staging_payload_size` has: the directories it was in, and the sums. -/
structure Walk where
  visited : List String
  size : StagingSize

/-- The walk with a file counted. -/
def Walk.count (walk : Walk) (content : Bytes) : Walk :=
  { walk with size := walk.size + (content.length, 1) }

/-- The loop over the entries of a directory in `walk`. -/
def scan : Entries → Walk → Walk
  | .none, walk => walk
  | .file _ content rest, walk => scan rest (walk.count content)
  | .container _ real children rest, walk =>
    scan rest (
      if real ∈ walk.visited then walk
      else scan children { walk with visited := real :: walk.visited })

/-- `staging_payload_size`. -/
def stagingPayloadSize (real : String) (listing : Listing)
    (excludeFiles excludeDirs : List String) : StagingSize :=
  let skip := (excludeFiles ++ excludeDirs).filter (· ≠ "")
  (scan ((listing.keep fun _ name => name ∉ skip).resolved real) ⟨[real], 0⟩).size

/-- The loop of `Get-MastDirectorySize`. -/
def sizeLoop : Nat → List Folder → List String → StagingSize → StagingSize
  | 0, _, _, size => size
  | _ + 1, [], _, size => size
  | fuel + 1, dir :: stack, seen, size =>
    if dir.real ∈ seen then sizeLoop fuel stack seen size
    else
      sizeLoop fuel ((dir.children.containers dir.rel).reverse ++ stack) (dir.real :: seen)
        (size + total (dir.children.files dir.rel))

/-- `Get-MastDirectorySize`, of a path where there may be nothing. -/
def getDirectorySize (path : String) : Option Entries → StagingSize
  | none => 0
  | some entries => sizeLoop (entries.reals.length + 2) [⟨[], path, entries⟩] [] 0

section Totals

@[simp]
theorem total_nil : total [] = 0 := rfl

@[simp]
theorem total_cons (file : StagedFile) (files : List StagedFile) :
    total (file :: files) = (file.content.length, 1) + total files := rfl

@[simp]
theorem total_append (files more : List StagedFile) : total (files ++ more) = total files + total more := by
  simp [total]

theorem total_perm {files others : List StagedFile} (perm : files.Perm others) :
    total files = total others :=
  (perm.map _).sum_eq

/-- The number of files is the second of the sums. -/
theorem total_snd (files : List StagedFile) : (total files).2 = files.length := by
  induction files with
  | nil => rfl
  | cons file rest ih =>
    rw [total_cons, Prod.snd_add, ih, List.length_cons, Nat.add_comm]

/-- Where entries are does not change their size. -/
theorem total_files (rel other : Path) (entries : Entries) :
    total (entries.files rel) = total (entries.files other) := by
  induction entries with
  | none => rfl
  | file name content rest ih => simp [Entries.files, ih]
  | container name real children rest _ ih => simpa [Entries.files] using ih

end Totals

section Copies

variable {fuel : Nat} {stack : List Folder} {seen : List String} {out : List StagedFile}

/-- Measuring is walking the same way as listing does. -/
theorem sizeLoop_total : sizeLoop fuel stack seen (total out) = total (walk fuel stack seen out) := by
  induction fuel generalizing stack seen out with
  | zero => rfl
  | succ fuel ih =>
    cases stack with
    | nil => rfl
    | cons node stack =>
      rw [sizeLoop, walk]
      split
      · exact ih
      · rw [← total_append]
        exact ih

theorem getDirectorySize_some (path : String) (entries : Entries) :
    getDirectorySize path (some entries) = total (getStagedFiles path entries) := by
  rw [getDirectorySize, ← total_nil]
  exact sizeLoop_total

namespace Listing

/-- The path of a directory below another. -/
def pathTo (root : String) (rel : Path) : String :=
  String.ofList (root.toList ++ rel.flatMap fun name => '\\' :: name.toList)

theorem joinPath_pathTo (root : String) (rel : Path) (name : String) :
    joinPath (pathTo root rel) name = pathTo root (rel ++ [name]) := by
  apply String.toList_inj.mp
  simp [joinPath, pathTo]

/-- Paths of plain names are different. -/
theorem pathTo_injective {root : String} {rel other : Path}
    (plain : ∀ name ∈ rel, '\\' ∉ name.toList) (plainOther : ∀ name ∈ other, '\\' ∉ name.toList)
    (same : pathTo root rel = pathTo root other) : rel = other := by
  have ended (path : Path) : (path.flatMap fun name => '\\' :: name.toList) ++ ['\\'] =
      '\\' :: terminated '\\' (path.map String.toList) := by
    induction path with
    | nil => rfl
    | cons name rest ih => simp [terminated_cons, ih]
  have tails := congrArg (· ++ ['\\']) (List.append_cancel_left (String.ofList_inj.mp same))
  rw [ended, ended] at tails
  refine List.map_injective_iff.mpr (fun _ _ => String.toList_inj.mp) (terminated_injective ?_ ?_
    (List.cons.inj tails).2)
  · exact fun line member => by
      obtain ⟨name, isName, rfl⟩ := List.mem_map.mp member
      exact plain name isName
  · exact fun line member => by
      obtain ⟨name, isName, rfl⟩ := List.mem_map.mp member
      exact plainOther name isName

/-- The paths of the directories below, whatever they are told apart by. -/
def places (rel : Path) : Listing → List Path
  | none => []
  | file _ _ rest => places rel rest
  | folder name children rest => (rel ++ [name]) :: (places (rel ++ [name]) children ++ places rel rest)
  | link name _ _ children rest =>
    (rel ++ [name]) :: (places (rel ++ [name]) children ++ places rel rest)

theorem reals_copied (root : String) (rel : Path) (listing : Listing) :
    (listing.copied (pathTo root rel)).reals = (listing.places rel).map (pathTo root) := by
  induction listing generalizing rel with
  | none => rfl
  | file name content rest ih => exact ih rel
  | folder name children rest ihChildren ihRest =>
    simp [copied, places, Entries.reals, joinPath_pathTo, ihChildren, ihRest]
  | link name target real children rest ihChildren ihRest =>
    simp [copied, places, Entries.reals, joinPath_pathTo, ihChildren, ihRest]

variable {fold : String → String} {listing : Listing}

theorem places_below (rel : Path) (named : listing.WellNamed fold) :
    ∀ place ∈ listing.places rel, ∃ name ∈ listing.names, ∃ more,
      place = rel ++ name :: more ∧ ∀ part ∈ name :: more, '\\' ∉ part.toList := by
  have entered {name : String} {children rest : Listing} {rel : Path}
      (plain : '\\' ∉ name.toList)
      (below : ∀ place ∈ children.places (rel ++ [name]), ∃ first ∈ children.names, ∃ more,
        place = rel ++ [name] ++ first :: more ∧ ∀ part ∈ first :: more, '\\' ∉ part.toList)
      (later : ∀ place ∈ rest.places rel, ∃ first ∈ rest.names, ∃ more,
        place = rel ++ first :: more ∧ ∀ part ∈ first :: more, '\\' ∉ part.toList) :
      ∀ place ∈ (rel ++ [name]) :: (children.places (rel ++ [name]) ++ rest.places rel),
        ∃ first ∈ name :: rest.names, ∃ more,
          place = rel ++ first :: more ∧ ∀ part ∈ first :: more, '\\' ∉ part.toList := by
    intro place member
    rcases List.mem_cons.mp member with rfl | member
    · exact ⟨name, List.mem_cons_self, [], rfl, by simpa using plain⟩
    rcases List.mem_append.mp member with isBelow | isLater
    · obtain ⟨first, _, more, rfl, plainMore⟩ := below place isBelow
      refine ⟨name, List.mem_cons_self, first :: more, by simp, ?_⟩
      rw [List.forall_mem_cons]
      exact ⟨plain, plainMore⟩
    · obtain ⟨first, isFirst, more, rfl, plainMore⟩ := later place isLater
      exact ⟨first, List.mem_cons_of_mem _ isFirst, more, rfl, plainMore⟩
  induction listing generalizing rel with
  | none => simp [places]
  | file name content rest ih =>
    intro place member
    obtain ⟨first, isFirst, found⟩ := ih rel named.2.2 place member
    exact ⟨first, List.mem_cons_of_mem _ isFirst, found⟩
  | folder name children rest ihChildren ihRest =>
    exact entered named.1 (ihChildren _ named.2.2.1) (ihRest rel named.2.2.2)
  | link name target real children rest ihChildren ihRest =>
    exact entered named.1 (ihChildren _ named.2.2.1) (ihRest rel named.2.2.2)

/-- No two directories have one path. -/
theorem places_nodup (rel : Path) (named : listing.WellNamed fold) : (listing.places rel).Nodup := by
  have entered {name : String} {children rest : Listing} {rel : Path}
      (fresh : fold name ∉ rest.names.map fold) (namedChildren : children.WellNamed fold)
      (namedRest : rest.WellNamed fold) (below : (children.places (rel ++ [name])).Nodup)
      (later : (rest.places rel).Nodup) :
      ((rel ++ [name]) :: (children.places (rel ++ [name]) ++ rest.places rel)).Nodup := by
    have others : ∀ more, rel ++ name :: more ∉ rest.places rel := by
      intro more member
      obtain ⟨first, isFirst, _, same, _⟩ := places_below rel namedRest _ member
      obtain ⟨rfl, -⟩ := List.cons.inj (List.append_cancel_left same)
      exact fresh (List.mem_map_of_mem isFirst)
    have extended : ∀ place ∈ children.places (rel ++ [name]), ∃ first more,
        place = rel ++ name :: first :: more := by
      intro place member
      obtain ⟨first, _, more, rfl, _⟩ := places_below _ namedChildren place member
      exact ⟨first, more, by simp⟩
    rw [List.nodup_cons, List.nodup_append]
    refine ⟨fun member => ?_, below, later, fun place isBelow other isLater same => ?_⟩
    · rcases List.mem_append.mp member with isBelow | isLater
      · obtain ⟨first, more, same⟩ := extended _ isBelow
        simpa using List.append_cancel_left same
      · exact others [] isLater
    · obtain ⟨first, more, rfl⟩ := extended place isBelow
      exact others (first :: more) (same ▸ isLater)
  induction listing generalizing rel with
  | none => exact List.nodup_nil
  | file name content rest ih => exact ih rel named.2.2
  | folder name children rest ihChildren ihRest =>
    exact entered named.2.1 named.2.2.1 named.2.2.2 (ihChildren _ named.2.2.1)
      (ihRest rel named.2.2.2)
  | link name target real children rest ihChildren ihRest =>
    exact entered named.2.1 named.2.2.1 named.2.2.2 (ihChildren _ named.2.2.1)
      (ihRest rel named.2.2.2)

/-- A tree that was copied has a path for each of its directories. -/
theorem reals_copied_nodup (path : String) (named : listing.WellNamed fold) :
    (path :: (listing.copied path).reals).Nodup := by
  have isPath : path = pathTo path [] := by simp [pathTo]
  have reals := reals_copied path [] listing
  rw [← isPath] at reals
  have plain : ∀ place ∈ listing.places [], ∀ name ∈ place, '\\' ∉ name.toList := by
    intro place member
    obtain ⟨first, _, more, rfl, plain⟩ := places_below [] named place member
    exact plain
  rw [reals, List.nodup_cons, List.nodup_map_iff_inj_on (places_nodup [] named)]
  constructor
  · intro member
    obtain ⟨place, isPlace, same⟩ := List.mem_map.mp member
    have empty : place = [] := pathTo_injective (plain place isPlace) (by simp) (same.trans isPath)
    obtain ⟨first, _, more, same, _⟩ := places_below [] named place isPlace
    rw [empty] at same
    simp at same
  · exact fun place isPlace other isOther => pathTo_injective (plain place isPlace) (plain other isOther)

/-- Files are where they are, whatever directories are told apart by. -/
theorem allFiles_eq (rel : Path) (real path dest : String) (listing : Listing) :
    (listing.resolved real).allFiles rel = (listing.copied dest).allFiles rel ∧
      (listing.marked path).allFiles rel = (listing.copied dest).allFiles rel := by
  induction listing generalizing rel real path dest with
  | none => exact ⟨rfl, rfl⟩
  | file name content rest ih =>
    obtain ⟨resolvedRest, markedRest⟩ := ih rel real path dest
    simp only [resolved, marked, copied, Entries.allFiles, resolvedRest, markedRest, and_self]
  | folder name children rest ihChildren ihRest =>
    obtain ⟨resolvedChildren, markedChildren⟩ := ihChildren (rel ++ [name]) (joinPath real name)
      (joinPath path name) (joinPath dest name)
    obtain ⟨resolvedRest, markedRest⟩ := ihRest rel real path dest
    simp only [resolved, marked, copied, Entries.allFiles, resolvedChildren, markedChildren,
      resolvedRest, markedRest, and_self]
  | link name target leads children rest ihChildren ihRest =>
    obtain ⟨resolvedChildren, markedChildren⟩ := ihChildren (rel ++ [name]) leads
      (joinPath path name) (joinPath dest name)
    obtain ⟨resolvedRest, markedRest⟩ := ihRest rel real path dest
    simp only [resolved, marked, copied, Entries.allFiles, resolvedChildren, markedChildren,
      resolvedRest, markedRest, and_self]

/-- The directories below have the same files, whatever they are told apart by. -/
theorem map_allFiles_folders (rel : Path) (real path : String) (listing : Listing) :
    ((listing.marked path).folders rel).map Folder.allFiles =
      ((listing.resolved real).folders rel).map Folder.allFiles := by
  have same (rel : Path) (real path : String) (listing : Listing) :
      (listing.marked path).allFiles rel = (listing.resolved real).allFiles rel := by
    obtain ⟨isResolved, isMarked⟩ := allFiles_eq rel real path path listing
    exact isMarked.trans isResolved.symm
  induction listing generalizing rel real path with
  | none => rfl
  | file name content rest ih => exact ih rel real path
  | folder name children rest ihChildren ihRest =>
    simp only [marked, resolved, Entries.folders, List.map_append, List.map_cons, Folder.allFiles,
      ihRest rel real path, ihChildren (rel ++ [name]) (joinPath real name),
      same (rel ++ [name]) (joinPath real name)]
  | link name target leads children rest ihChildren ihRest =>
    simp only [marked, resolved, Entries.folders, List.map_append, List.map_cons, Folder.allFiles,
      ihRest rel real path, ihChildren (rel ++ [name]) leads, same (rel ++ [name]) leads]

theorem names_keep (keeps : Bool → String → Bool) (listing : Listing) :
    (listing.keep keeps).names.Sublist listing.names := by
  induction listing with
  | none => exact .slnil
  | file name content rest ih =>
    rw [keep]
    split
    · exact ih.cons_cons name
    · exact ih.cons name
  | folder name children rest _ ih =>
    rw [keep]
    split
    · exact ih.cons_cons name
    · exact ih.cons name
  | link name target real children rest _ ih =>
    rw [keep]
    split
    · exact ih.cons_cons name
    · exact ih.cons name

theorem WellNamed.keep (keeps : Bool → String → Bool) (named : listing.WellNamed fold) :
    (listing.keep keeps).WellNamed fold := by
  have fewer {name : String} {rest : Listing} (fresh : fold name ∉ rest.names.map fold) :
      fold name ∉ (rest.keep keeps).names.map fold :=
    fun member => fresh ((names_keep keeps rest).map fold |>.subset member)
  induction listing with
  | none => trivial
  | file name content rest ih =>
    rw [Listing.keep]
    split
    · exact ⟨named.1, fewer named.2.1, ih named.2.2⟩
    · exact ih named.2.2
  | folder name children rest _ ih =>
    rw [Listing.keep]
    split
    · exact ⟨named.1, fewer named.2.1, named.2.2.1, ih named.2.2.2⟩
    · exact ih named.2.2.2
  | link name target real children rest _ ih =>
    rw [Listing.keep]
    split
    · exact ⟨named.1, fewer named.2.1, named.2.2.1, ih named.2.2.2⟩
    · exact ih named.2.2.2

end Listing

/-- Of a tree that was copied, every file is measured. -/
theorem getDirectorySize_copied {fold : String → String} {listing : Listing} (path : String)
    (named : listing.WellNamed fold) :
    getDirectorySize path (some (listing.copied path)) =
      total ((listing.copied path).allFiles []) := by
  rw [getDirectorySize_some]
  exact total_perm (getStagedFiles_perm (Listing.reals_copied_nodup path named))

end Copies

section Scans

/-- What is in the directory of a real path is the same wherever the directory is reached. -/
def Entries.Consistent (directory : String → Entries) : Entries → Prop
  | .none => True
  | .file _ _ rest => rest.Consistent directory
  | .container _ real children rest =>
    directory real = children ∧ children.Consistent directory ∧ rest.Consistent directory

variable {directory : String → Entries} {entries : Entries}

/-- The size of the files in a directory itself, by its real path. -/
def own (directory : String → Entries) (real : String) : StagingSize :=
  total ((directory real).files [])

theorem own_eq {real : String} {children : Entries} (same : directory real = children) (rel : Path) :
    total (children.files rel) = own directory real := by
  rw [own, same, total_files]

/-- What is below a directory is smaller than it. -/
theorem sizeOf_directory_lt (consistent : entries.Consistent directory) :
    ∀ real ∈ entries.reals, sizeOf (directory real) < sizeOf entries := by
  induction entries with
  | none => simp [Entries.reals]
  | file name content rest ih =>
    intro real member
    have smaller := ih consistent real member
    rw [Entries.file.sizeOf_spec]
    omega
  | container name real children rest ihChildren ihRest =>
    obtain ⟨same, children, rest⟩ := consistent
    intro other member
    rw [Entries.container.sizeOf_spec]
    rw [Entries.reals, List.cons_append, List.mem_cons, List.mem_append] at member
    rcases member with rfl | below | later
    · rw [same]
      omega
    · have smaller := ihChildren children other below
      omega
    · have smaller := ihRest rest other later
      omega

/-- What is below a directory that is below entries is below them. -/
theorem reals_directory_subset (consistent : entries.Consistent directory) :
    ∀ real ∈ entries.reals, (directory real).reals ⊆ entries.reals := by
  induction entries with
  | none => simp [Entries.reals]
  | file name content rest ih => exact ih consistent
  | container name real children rest ihChildren ihRest =>
    obtain ⟨same, isChildren, isRest⟩ := consistent
    intro other member
    have below : children.reals ⊆ (Entries.container name real children rest).reals := fun _ inside =>
      List.mem_cons_of_mem _ (List.mem_append_left _ inside)
    have later : rest.reals ⊆ (Entries.container name real children rest).reals := fun _ inside =>
      List.mem_cons_of_mem _ (List.mem_append_right _ inside)
    rw [Entries.reals, List.cons_append, List.mem_cons, List.mem_append] at member
    rcases member with rfl | isBelow | isLater
    · rw [same]
      exact below
    · exact List.Subset.trans (ihChildren isChildren other isBelow) below
    · exact List.Subset.trans (ihRest isRest other isLater) later

/-- What is below a directory is reached at least as often as the directory. -/
theorem count_le_count (consistent : entries.Consistent directory) {real below : String}
    (member : below ∈ (directory real).reals) :
    entries.reals.count real ≤ entries.reals.count below := by
  induction entries with
  | none => exact Nat.le_refl _
  | file name content rest ih => exact ih consistent
  | container name other children rest ihChildren ihRest =>
    obtain ⟨same, isChildren, isRest⟩ := consistent
    have counts (sought : String) : (Entries.container name other children rest).reals.count sought =
        children.reals.count sought + rest.reals.count sought + if other = sought then 1 else 0 := by
      rw [Entries.reals, List.count_append, List.count_cons, beq_eq_decide]
      simp only [decide_eq_true_eq]
      omega
    have later := ihRest isRest
    rw [counts, counts]
    by_cases isReal : other = real
    · subst isReal
      rw [same] at member
      have acyclic : children.reals.count other = 0 := by
        refine List.count_eq_zero.mpr fun inside => ?_
        have smaller := sizeOf_directory_lt isChildren other inside
        rw [same] at smaller
        omega
      have once := List.count_pos_iff.mpr member
      rw [if_pos rfl]
      omega
    · have inside := ihChildren isChildren
      rw [if_neg isReal]
      omega

/-- What is known of a visited directory when entries are scanned: what is below it was
visited too. It may be one that the scan is inside of, but then no entry leads to it. -/
def Closed (directory : String → Entries) (entries : Entries) (visited : List String) : Prop :=
  ∀ real ∈ visited, real ∈ entries.reals → (directory real).reals ⊆ visited

theorem toFinset_reals (name real : String) (children rest : Entries) :
    (Entries.container name real children rest).reals.toFinset =
      insert real children.reals.toFinset ∪ rest.reals.toFinset := by
  rw [Entries.reals, List.toFinset_append, List.toFinset_cons]

/-- A sum over new members, those of one set first. -/
theorem sum_new (first later known : Finset String) (size : String → StagingSize) :
    ∑ real ∈ (first ∪ later) \ known, size real =
      ∑ real ∈ first \ known, size real + ∑ real ∈ later \ (known ∪ first), size real := by
  have split : (first ∪ later) \ known = first \ known ∪ later \ (known ∪ first) := by
    ext real
    simp only [Finset.mem_sdiff, Finset.mem_union]
    tauto
  rw [split, Finset.sum_union]
  refine Finset.disjoint_left.mpr fun real isFirst isLater => ?_
  rw [Finset.mem_sdiff, Finset.mem_union] at isLater
  exact isLater.2 (.inr (Finset.mem_sdiff.mp isFirst).1)

/-- Scanning visits what is below, and counts the files of each directory that it visits. -/
theorem scan_spec {walk : Walk} (consistent : entries.Consistent directory)
    (closed : Closed directory entries walk.visited) :
    (scan entries walk).visited.toFinset = walk.visited.toFinset ∪ entries.reals.toFinset ∧
      (scan entries walk).size = walk.size + total (entries.files []) +
        ∑ real ∈ entries.reals.toFinset \ walk.visited.toFinset, own directory real := by
  induction entries generalizing walk with
  | none => simp [scan, Entries.reals, Entries.files]
  | file name content rest ih =>
    obtain ⟨visited, size⟩ := @ih (walk.count content) consistent closed
    refine ⟨visited, size.trans ?_⟩
    rw [Entries.files, total_cons, ← add_assoc walk.size]
    rfl
  | container name real children rest ihChildren ihRest =>
    obtain ⟨same, isChildren, isRest⟩ := consistent
    have below : children.reals ⊆ (Entries.container name real children rest).reals := fun _ inside =>
      List.mem_cons_of_mem _ (List.mem_append_left _ inside)
    have later : rest.reals ⊆ (Entries.container name real children rest).reals := fun _ inside =>
      List.mem_cons_of_mem _ (List.mem_append_right _ inside)
    rw [scan, toFinset_reals, sum_new, Entries.files]
    by_cases isVisited : real ∈ walk.visited
    · have inside : insert real children.reals.toFinset ⊆ walk.visited.toFinset := by
        have known := closed real isVisited List.mem_cons_self
        rw [same] at known
        refine Finset.insert_subset (List.mem_toFinset.mpr isVisited) fun other isBelow => ?_
        exact List.mem_toFinset.mpr (known (List.mem_toFinset.mp isBelow))
      have closedRest : Closed directory rest walk.visited := fun other known isLater =>
        closed other known (later isLater)
      obtain ⟨visited, size⟩ := ihRest isRest closedRest
      rw [if_pos isVisited, visited, size, Finset.sdiff_eq_empty_iff_subset.mpr inside,
        Finset.sum_empty, zero_add, Finset.union_eq_left.mpr inside, ← Finset.union_assoc,
        Finset.union_eq_left.mpr inside]
      exact ⟨rfl, rfl⟩
    · have acyclic : real ∉ children.reals := by
        intro member
        have smaller := sizeOf_directory_lt isChildren real member
        rw [same] at smaller
        omega
      have closedChildren : Closed directory children (real :: walk.visited) := by
        intro other known isBelow
        rcases List.mem_cons.mp known with rfl | before
        · exact absurd isBelow acyclic
        · exact List.Subset.trans (closed other before (below isBelow)) (List.subset_cons_self _ _)
      obtain ⟨visited, size⟩ :=
        @ihChildren { walk with visited := real :: walk.visited } isChildren closedChildren
      dsimp only at visited size
      have members (other : String) : other ∈
          (scan children { walk with visited := real :: walk.visited }).visited ↔
            (other = real ∨ other ∈ walk.visited) ∨ other ∈ children.reals := by
        rw [← List.mem_toFinset, visited, Finset.mem_union, List.mem_toFinset, List.mem_toFinset,
          List.mem_cons]
      have closedRest : Closed directory rest
          (scan children { walk with visited := real :: walk.visited }).visited := by
        intro other known isLater inner isInner
        rw [members] at known ⊢
        rcases known with (rfl | before) | isBelow
        · exact .inr (same ▸ isInner)
        · exact .inl (.inr (closed other before (later isLater) isInner))
        · exact .inr (reals_directory_subset isChildren other isBelow isInner)
      obtain ⟨visitedRest, sizeRest⟩ := ihRest isRest closedRest
      have entered : insert real walk.visited.toFinset ∪ children.reals.toFinset =
          walk.visited.toFinset ∪ insert real children.reals.toFinset := by
        rw [Finset.insert_union, Finset.union_insert]
      have fresh : insert real children.reals.toFinset \ walk.visited.toFinset =
          insert real (children.reals.toFinset \ insert real walk.visited.toFinset) := by
        rw [Finset.insert_sdiff_of_notMem _ (by simpa using isVisited), Finset.sdiff_insert,
          Finset.erase_eq_of_notMem (by simp [acyclic])]
      rw [List.toFinset_cons, entered] at visited
      rw [visited] at visitedRest sizeRest
      rw [if_neg isVisited, visitedRest, sizeRest, size, Finset.union_assoc, fresh,
        Finset.sum_insert (by simp), own_eq same, List.toFinset_cons]
      refine ⟨rfl, ?_⟩
      ac_rfl

/-- All files together, counted once for each path a directory is reached by. -/
theorem total_allFiles (consistent : entries.Consistent directory) (rel : Path) :
    total (entries.allFiles rel) = total (entries.files []) +
      ∑ real ∈ entries.reals.toFinset, entries.reals.count real • own directory real := by
  rw [← Finset.sum_list_map_count]
  induction entries generalizing rel with
  | none => rfl
  | file name content rest ih =>
    rw [Entries.allFiles, total_cons, ih consistent rel, Entries.files, total_cons, Entries.reals]
    exact (add_assoc _ _ _).symm
  | container name real children rest ihChildren ihRest =>
    obtain ⟨same, isChildren, isRest⟩ := consistent
    rw [Entries.allFiles, total_append, ihChildren isChildren, ihRest isRest rel, own_eq same,
      Entries.files, Entries.reals, List.map_append, List.map_cons, List.sum_append, List.sum_cons]
    ac_rfl

/-- Below a directory whose own files and those of the directories below it are none, there
are no files. -/
theorem allFiles_eq_nil_of_own (consistent : entries.Consistent directory) {rel : Path}
    (here : entries.files [] = []) (below : ∀ real ∈ entries.reals, own directory real = 0) :
    entries.allFiles rel = [] := by
  have sums : total (entries.allFiles rel) = 0 := by
    rw [total_allFiles consistent, here, total_nil, zero_add]
    refine Finset.sum_eq_zero fun real member => ?_
    rw [below real (List.mem_toFinset.mp member), nsmul_zero]
  rw [← List.length_eq_zero_iff, ← total_snd, sums]
  rfl

/-- The directories below have what is in them. -/
theorem children_of_mem (consistent : entries.Consistent directory) (rel : Path) :
    ∀ folder ∈ entries.folders rel,
      directory folder.real = folder.children ∧ folder.children.Consistent directory := by
  induction entries generalizing rel with
  | none => simp [Entries.folders]
  | file name content rest ih => exact ih consistent rel
  | container name real children rest ihChildren ihRest =>
    intro folder member
    rw [Entries.folders, List.cons_append, List.mem_cons, List.mem_append] at member
    rcases member with rfl | below | later
    · exact ⟨consistent.1, consistent.2.1⟩
    · exact ihChildren consistent.2.1 _ folder below
    · exact ihRest consistent.2.2 _ folder later

/-- When directories that are reached twice have no files of their own, directories with
files below are told apart by their real paths. -/
theorem folders_apart (consistent : entries.Consistent directory)
    (unshared : ∀ real, 2 ≤ entries.reals.count real → own directory real = 0) (rel : Path) :
    (entries.folders rel).Pairwise Folder.Apart := by
  rw [List.pairwise_iff_forall_sublist]
  intro folder other pair same
  have reals := pair.map Folder.real
  rw [Entries.map_real_folders, List.map_cons, List.map_cons, List.map_nil, same] at reals
  have twice : 2 ≤ entries.reals.count other.real := by
    refine le_trans ?_ (reals.count_le other.real)
    simp
  have barren : ∀ one ∈ entries.folders rel, one.real = other.real → one.allFiles = [] := by
    intro one member isOther
    obtain ⟨children, isConsistent⟩ := children_of_mem consistent rel one member
    have empty : one.children.files [] = [] := by
      rw [← List.length_eq_zero_iff, ← total_snd, own_eq children, isOther, unshared _ twice]
      rfl
    refine allFiles_eq_nil_of_own isConsistent empty fun real below => unshared real ?_
    rw [← children, isOther] at below
    exact le_trans twice (count_le_count consistent below)
  exact ⟨barren folder (pair.subset (by simp)) same, barren other (pair.subset (by simp)) rfl⟩

namespace Listing

variable {listing : Listing} {real : String} {keeps : Bool → String → Bool}

theorem keep_congr {others : Bool → String → Bool} {listing : Listing}
    (alike : listing.Alike keeps others) : listing.keep keeps = listing.keep others := by
  induction listing with
  | none => rfl
  | file name content rest ih => rw [keep, keep, alike.1, ih alike.2]
  | folder name children rest _ ih => rw [keep, keep, alike.1, ih alike.2]
  | link name target real children rest _ ih => rw [keep, keep, alike.1, ih alike.2]

theorem Alike.symm {others : Bool → String → Bool} {listing : Listing}
    (alike : listing.Alike keeps others) : listing.Alike others keeps := by
  induction listing with
  | none => trivial
  | file name content rest ih => exact ⟨alike.1.symm, ih alike.2⟩
  | folder name children rest _ ih => exact ⟨alike.1.symm, ih alike.2⟩
  | link name target real children rest _ ih => exact ⟨alike.1.symm, ih alike.2⟩

theorem alike_of_forall {others : Bool → String → Bool}
    (same : ∀ isDir name, keeps isDir name = others isDir name) :
    (listing : Listing) → listing.Alike keeps others
  | .none => trivial
  | .file _ _ rest => ⟨same _ _, alike_of_forall same rest⟩
  | .folder _ _ rest => ⟨same _ _, alike_of_forall same rest⟩
  | .link _ _ _ _ rest => ⟨same _ _, alike_of_forall same rest⟩

/-- Nothing is passed by one of two rules alone when they pass the same. -/
theorem keep_difference {others : Bool → String → Bool} {listing : Listing}
    (alike : listing.Alike keeps others) :
    listing.keep (fun isDir name => keeps isDir name && !others isDir name) = .none := by
  induction listing with
  | none => rfl
  | file name content rest ih => simpa [keep, alike.1] using ih alike.2
  | folder name children rest _ ih => simpa [keep, alike.1] using ih alike.2
  | link name target real children rest _ ih => simpa [keep, alike.1] using ih alike.2

theorem keep_all (all : ∀ isDir name, keeps isDir name = true) :
    (listing : Listing) → listing.keep keeps = listing
  | .none => rfl
  | .file _ _ rest => by rw [keep, if_pos (all _ _), keep_all all rest]
  | .folder _ _ rest => by rw [keep, if_pos (all _ _), keep_all all rest]
  | .link _ _ _ _ rest => by rw [keep, if_pos (all _ _), keep_all all rest]

theorem reals_keep (keeps : Bool → String → Bool) (real : String) (listing : Listing) :
    ((listing.keep keeps).resolved real).reals.Sublist (listing.resolved real).reals := by
  have entered {first kept rest : List String} (keep : Prop) [Decidable keep]
      (fewer : kept.Sublist rest) :
      (if keep then first ++ kept else kept).Sublist (first ++ rest) := by
    split
    · exact fewer.append_left first
    · exact fewer.trans (List.sublist_append_right first rest)
  induction listing with
  | none => exact List.Sublist.refl _
  | file name content rest ih =>
    rw [keep]
    split <;> exact ih
  | folder name children rest _ ih =>
    rw [keep, apply_ite (resolved real), apply_ite Entries.reals]
    exact entered _ ih
  | link name target leads children rest _ ih =>
    rw [keep, apply_ite (resolved real), apply_ite Entries.reals]
    exact entered _ ih

theorem consistent_keep (keeps : Bool → String → Bool)
    (consistent : (listing.resolved real).Consistent directory) :
    ((listing.keep keeps).resolved real).Consistent directory := by
  induction listing with
  | none => trivial
  | file name content rest ih =>
    rw [keep]
    split <;> exact ih consistent
  | folder name children rest _ ih =>
    rw [keep]
    split
    · exact ⟨consistent.1, consistent.2.1, ih consistent.2.2⟩
    · exact ih consistent.2.2
  | link name target leads children rest _ ih =>
    rw [keep]
    split
    · exact ⟨consistent.1, consistent.2.1, ih consistent.2.2⟩
    · exact ih consistent.2.2

end Listing

/-- The pre-scan counts the files of each directory once. -/
theorem scan_root {real : String} (consistent : entries.Consistent directory)
    (acyclic : real ∉ entries.reals) : (scan entries ⟨[real], 0⟩).size =
      total (entries.files []) + ∑ real ∈ entries.reals.toFinset, own directory real := by
  have closed : Closed directory entries [real] := by
    intro other known member
    obtain rfl := List.mem_singleton.mp known
    exact absurd member acyclic
  have others : entries.reals.toFinset \ [real].toFinset = entries.reals.toFinset := by
    simpa using acyclic
  have counted := (@scan_spec _ _ ⟨[real], 0⟩ consistent closed).2
  rw [counted, others, zero_add]

end Scans

end MastProvisioning.Build
