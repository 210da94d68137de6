import MastProvisioning.Storage.LinkVolume

/-!
# Walking the staging tree

`Get-MastStagedFiles` of `build-manifest-lib.ps1`: a stack of directories, each entered
once by its real path. The tree has its reparse points resolved; a junction is a
directory whose real path is its target.
-/

namespace MastProvisioning.Build

open MastProvisioning.Storage

/-- The entries of a directory, in the order they are listed. -/
inductive Entries
  | none
  | file (name : String) (content : Bytes) (rest : Entries)
  | container (name : String) (real : String) (children : Entries) (rest : Entries)
deriving Repr

/-- A staged file: its relative path, by names, and its bytes. -/
structure StagedFile where
  path : Path
  content : Bytes
  named : path ≠ []
deriving DecidableEq

/-- A directory on the stack. -/
structure Folder where
  rel : Path
  real : String
  children : Entries

namespace Entries

/-- The files among the entries. -/
def files (rel : Path) : Entries → List StagedFile
  | none => []
  | file name content rest => ⟨rel ++ [name], content, by simp⟩ :: files rel rest
  | container _ _ _ rest => files rel rest

/-- The directories among the entries. -/
def containers (rel : Path) : Entries → List Folder
  | none => []
  | file _ _ rest => containers rel rest
  | container name real children rest => ⟨rel ++ [name], real, children⟩ :: containers rel rest

/-- All files below. -/
def allFiles (rel : Path) : Entries → List StagedFile
  | none => []
  | file name content rest => ⟨rel ++ [name], content, by simp⟩ :: allFiles rel rest
  | container name _ children rest => allFiles (rel ++ [name]) children ++ allFiles rel rest

/-- The real paths of all directories below. -/
def reals : Entries → List String
  | none => []
  | file _ _ rest => reals rest
  | container _ real children rest => real :: reals children ++ reals rest

end Entries

/-- The files of a directory on the stack. -/
def Folder.allFiles (folder : Folder) : List StagedFile := folder.children.allFiles folder.rel

/-- The real paths of a directory on the stack and of those below. -/
def Folder.reals (folder : Folder) : List String := folder.real :: folder.children.reals

/-- The directories below, each before those below it. -/
def Entries.folders (rel : Path) : Entries → List Folder
  | none => []
  | file _ _ rest => folders rel rest
  | container name real children rest =>
    ⟨rel ++ [name], real, children⟩ :: folders (rel ++ [name]) children ++ folders rel rest

/-- A directory on the stack and those below. -/
def Folder.folders (folder : Folder) : List Folder := folder :: folder.children.folders folder.rel

/-- The loop of `Get-MastStagedFiles`. -/
def walk : Nat → List Folder → List String → List StagedFile → List StagedFile
  | 0, _, _, out => out
  | _ + 1, [], _, out => out
  | fuel + 1, node :: stack, seen, out =>
    if node.real ∈ seen then walk fuel stack seen out
    else
      walk fuel ((node.children.containers node.rel).reverse ++ stack) (node.real :: seen)
        (out ++ node.children.files node.rel)

namespace Entries

theorem allFiles_perm (rel : Path) (entries : Entries) :
    (entries.allFiles rel).Perm
      (entries.files rel ++ (entries.containers rel).flatMap Folder.allFiles) := by
  induction entries with
  | none => exact .refl _
  | file name content rest ih => exact ih.cons _
  | container name real children rest _ ih =>
    simp only [allFiles, files, containers, List.flatMap_cons, Folder.allFiles]
    calc allFiles (rel ++ [name]) children ++ allFiles rel rest
        |>.Perm (allFiles (rel ++ [name]) children ++
          (files rel rest ++ (containers rel rest).flatMap Folder.allFiles)) := ih.append_left _
      _ |>.Perm _ := by
        rw [← List.append_assoc, ← List.append_assoc]
        exact (List.perm_append_comm).append_right _

theorem folders_eq (rel : Path) (entries : Entries) :
    entries.folders rel = (entries.containers rel).flatMap Folder.folders := by
  induction entries with
  | none => rfl
  | file name content rest ih => exact ih
  | container name real children rest _ ih =>
    simp [folders, containers, Folder.folders, ih]

theorem map_real_folders (rel : Path) (entries : Entries) :
    (entries.folders rel).map Folder.real = entries.reals := by
  induction entries generalizing rel with
  | none => rfl
  | file name content rest ih => exact ih rel
  | container name real children rest ihChildren ihRest =>
    simp [folders, reals, ihChildren, ihRest]

/-- What has no files below it has no directory with files below. -/
theorem allFiles_eq_nil {rel : Path} {entries : Entries} (none : entries.allFiles rel = []) :
    ∀ folder ∈ entries.folders rel, folder.allFiles = [] := by
  induction entries generalizing rel with
  | none => simp [folders]
  | file name content rest ih => exact absurd none (List.cons_ne_nil _ _)
  | container name real children rest ihChildren ihRest =>
    obtain ⟨noChild, noRest⟩ := List.append_eq_nil_iff.mp none
    intro folder member
    rw [folders, List.cons_append, List.mem_cons, List.mem_append] at member
    rcases member with rfl | below | later
    · exact noChild
    · exact ihChildren noChild folder below
    · exact ihRest noRest folder later

end Entries

theorem Folder.map_real_folders (folder : Folder) :
    folder.folders.map Folder.real = folder.reals := by
  rw [Folder.folders, List.map_cons, folder.children.map_real_folders]
  rfl

theorem Folder.allFiles_eq_nil {folder : Folder} (none : folder.allFiles = []) :
    ∀ other ∈ folder.folders, other.allFiles = [] := by
  intro other member
  rcases List.mem_cons.mp member with rfl | below
  · exact none
  · exact Entries.allFiles_eq_nil none other below

section Walking

variable {fuel : Nat} {stack : List Folder} {seen : List String} {out : List StagedFile}

/-- Two directories are told apart by their real paths, if there are files below either. -/
def Folder.Apart (folder other : Folder) : Prop :=
  folder.real = other.real → folder.allFiles = [] ∧ other.allFiles = []

theorem Folder.Apart.symm {folder other : Folder} (apart : folder.Apart other) :
    other.Apart folder := fun same => (apart same.symm).symm

/-- What is entered in place of a directory has the directories below it. -/
theorem folders_entered (node : Folder) (stack : List Folder) :
    (((node.children.containers node.rel).reverse ++ stack).flatMap Folder.folders).Perm
      (node.children.folders node.rel ++ stack.flatMap Folder.folders) := by
  rw [List.flatMap_append, node.children.folders_eq node.rel]
  exact ((List.reverse_perm _).flatMap_right _).append_right _

theorem allFiles_entered (node : Folder) (stack : List Folder) :
    (node.children.files node.rel ++
      ((node.children.containers node.rel).reverse ++ stack).flatMap Folder.allFiles).Perm
      (node.allFiles ++ stack.flatMap Folder.allFiles) := by
  rw [List.flatMap_append, ← List.append_assoc]
  refine List.Perm.append_right _ ?_
  exact (((List.reverse_perm _).flatMap_right _).append_left _).trans
    (node.children.allFiles_perm node.rel).symm

/-- Walking directories that are told apart lists every file below them once. -/
theorem walk_apart (enough : (stack.flatMap Folder.folders).length < fuel)
    (apart : (stack.flatMap Folder.folders).Pairwise Folder.Apart)
    (fresh : ∀ folder ∈ stack.flatMap Folder.folders, folder.real ∈ seen → folder.allFiles = []) :
    (walk fuel stack seen out).Perm (out ++ stack.flatMap Folder.allFiles) := by
  induction fuel generalizing stack seen out with
  | zero => omega
  | succ fuel ih =>
    cases stack with
    | nil => simp [walk]
    | cons node stack =>
      rw [List.flatMap_cons, Folder.folders, List.cons_append] at enough apart fresh
      rw [List.length_cons, List.length_append] at enough
      rw [List.pairwise_cons] at apart
      rw [List.forall_mem_cons] at fresh
      by_cases isSeen : node.real ∈ seen
      · rw [walk, if_pos isSeen, List.flatMap_cons, fresh.1 isSeen, List.nil_append]
        refine ih (by omega) (List.pairwise_append.mp apart.2).2.1 fun folder member => ?_
        exact fresh.2 folder (List.mem_append_right _ member)
      · have entered := folders_entered node stack
        rw [walk, if_neg isSeen]
        have walked : (walk fuel ((node.children.containers node.rel).reverse ++ stack)
            (node.real :: seen) (out ++ node.children.files node.rel)).Perm _ := ih ?_ ?_ ?_
        · rw [List.append_assoc] at walked
          exact walked.trans ((allFiles_entered node stack).append_left out)
        · rw [entered.length_eq, List.length_append]
          omega
        · exact (entered.pairwise_iff fun apart => apart.symm).mpr apart.2
        · intro folder member known
          rw [entered.mem_iff] at member
          rcases List.mem_cons.mp known with same | before
          · exact (apart.1 folder member same.symm).2
          · exact fresh.2 folder member before

theorem walk_length_le :
    (walk fuel stack seen out).length ≤ out.length + (stack.flatMap Folder.allFiles).length := by
  induction fuel generalizing stack seen out with
  | zero => simp [walk]
  | succ fuel ih =>
    cases stack with
    | nil => simp [walk]
    | cons node stack =>
      rw [walk]
      split
      · refine ih.trans ?_
        rw [List.flatMap_cons, List.length_append]
        omega
      · refine ih.trans (le_of_eq ?_)
        have entered := (allFiles_entered node stack).length_eq
        rw [List.length_append] at entered
        rw [List.length_append, List.flatMap_cons, ← entered]
        omega

/-- A walk that lists as many files as there are has told apart all directories with
files below. -/
theorem apart_of_walk
    (full : out.length + (stack.flatMap Folder.allFiles).length ≤ (walk fuel stack seen out).length) :
    (∀ folder ∈ stack.flatMap Folder.folders, folder.real ∈ seen → folder.allFiles = []) ∧
      (stack.flatMap Folder.folders).Pairwise fun folder other =>
        folder.real = other.real → folder.allFiles = [] ∨ other.allFiles = [] := by
  induction fuel generalizing stack seen out with
  | zero =>
    have none : stack.flatMap Folder.allFiles = [] := by
      rw [walk] at full
      exact List.length_eq_zero_iff.mp (by omega)
    have barren : ∀ folder ∈ stack.flatMap Folder.folders, folder.allFiles = [] := by
      intro folder member
      obtain ⟨node, isNode, below⟩ := List.mem_flatMap.mp member
      exact Folder.allFiles_eq_nil (List.flatMap_eq_nil_iff.mp none node isNode) folder below
    exact ⟨fun folder member _ => barren folder member,
      List.pairwise_of_forall_mem_list fun folder member _ _ _ => .inl (barren folder member)⟩
  | succ fuel ih =>
    cases stack with
    | nil => simp
    | cons node stack =>
      rw [List.flatMap_cons, Folder.folders, List.cons_append, List.forall_mem_cons,
        List.pairwise_cons]
      rw [walk, List.flatMap_cons, List.length_append] at full
      by_cases isSeen : node.real ∈ seen
      · rw [if_pos isSeen] at full
        have bound : (walk fuel stack seen out).length ≤
            out.length + (stack.flatMap Folder.allFiles).length := walk_length_le
        have none : node.allFiles = [] := List.length_eq_zero_iff.mp (by omega)
        have rest : out.length + (stack.flatMap Folder.allFiles).length ≤
            (walk fuel stack seen out).length := by omega
        obtain ⟨fresh, apart⟩ := ih rest
        have below : ∀ folder ∈ node.children.folders node.rel, folder.allFiles = [] :=
          Entries.allFiles_eq_nil none
        refine ⟨⟨fun _ => none, fun folder member known => ?_⟩, fun _ _ _ => .inl none, ?_⟩
        · rcases List.mem_append.mp member with isBelow | later
          · exact below folder isBelow
          · exact fresh folder later known
        · refine List.pairwise_append.mpr ⟨?_, apart, fun folder member _ _ _ =>
            .inl (below folder member)⟩
          exact List.pairwise_of_forall_mem_list fun folder member _ _ _ => .inl (below folder member)
      · rw [if_neg isSeen] at full
        have files := (allFiles_entered node stack).length_eq
        rw [List.length_append, List.length_append] at files
        have later : (out ++ node.children.files node.rel).length +
            (((node.children.containers node.rel).reverse ++ stack).flatMap
              Folder.allFiles).length ≤ _ :=
          le_trans (by rw [List.length_append]; omega) full
        obtain ⟨fresh, apart⟩ := ih later
        have entered := folders_entered node stack
        refine ⟨⟨fun known => absurd known isSeen, fun folder member known => ?_⟩,
          fun folder member same => .inr ?_, ?_⟩
        · exact fresh folder (entered.mem_iff.mpr member) (List.mem_cons_of_mem _ known)
        · exact fresh folder (entered.mem_iff.mpr member) (List.mem_cons.mpr (.inl same.symm))
        · exact (entered.pairwise_iff fun either same => (either same.symm).symm).mp apart

end Walking

/-- Walking directories that are all different lists every file below them once. -/
theorem walk_perm {fuel : Nat} {stack : List Folder} {seen : List String} {out : List StagedFile}
    (enough : (stack.flatMap Folder.reals).length < fuel)
    (distinct : (stack.flatMap Folder.reals ++ seen).Nodup) :
    (walk fuel stack seen out).Perm (out ++ stack.flatMap Folder.allFiles) := by
  have reals : (stack.flatMap Folder.folders).map Folder.real = stack.flatMap Folder.reals := by
    rw [List.map_flatMap]
    exact List.flatMap_congr fun folder _ => folder.map_real_folders
  rw [← reals, List.nodup_append] at distinct
  refine walk_apart ?_ ?_ fun folder member known => ?_
  · rw [← reals, List.length_map] at enough
    exact enough
  · exact (List.pairwise_map.mp distinct.1).imp fun different same => absurd same different
  · exact absurd rfl (distinct.2.2 _ (List.mem_map_of_mem member) _ known)

/-- `Get-MastStagedFiles` before it sorts. -/
def getStagedFiles (root : String) (entries : Entries) : List StagedFile :=
  walk (entries.reals.length + 2) [⟨[], root, entries⟩] [] []

theorem getStagedFiles_perm {root : String} {entries : Entries}
    (distinct : (root :: entries.reals).Nodup) :
    (getStagedFiles root entries).Perm (entries.allFiles []) := by
  have walked : (getStagedFiles root entries).Perm
      ([] ++ [⟨[], root, entries⟩].flatMap Folder.allFiles) :=
    walk_perm (by simp [Folder.reals]) (by simpa [Folder.reals] using distinct)
  simpa [Folder.allFiles] using walked

end MastProvisioning.Build
