import Mathlib.Data.List.Infix
import MastProvisioning.Collections.OrderedDict

/-!
# Files put under paths

Files by their paths, where directories are only what paths go through. Putting a file
removes what was at its path or below it, and needs a path that goes through no file.

What a run of puts leaves at a path is decided by the last put at the path or above it.
-/

namespace MastProvisioning.Collections.PathFiles

variable {Name Content : Type*} [DecidableEq Name]

/-- The file at a path. -/
def fileAt (files : List (List Name × Content)) (path : List Name) : Option Content :=
  OrderedDict.get? id files path

/-- Put a file; nothing when its path goes through another. -/
def put (files : List (List Name × Content)) (file : List Name × Content) :
    Option (List (List Name × Content)) :=
  if ∃ other ∈ files, other.1 <+: file.1 ∧ other.1 ≠ file.1 then none
  else some (files.filter (fun other => ¬file.1 <+: other.1) ++ [file])

/-- Put files one after the other. -/
def putAll (files steps : List (List Name × Content)) : Option (List (List Name × Content)) :=
  steps.foldlM put files

/-- No file is below another. -/
def Flat (files : List (List Name × Content)) : Prop :=
  ∀ file ∈ files, ∀ other ∈ files, file.1 <+: other.1 → file.1 = other.1

variable {files after steps : List (List Name × Content)} {file : List Name × Content}
  {path : List Name} {content : Content}

theorem mem_of_fileAt (found : fileAt files path = some content) : (path, content) ∈ files := by
  obtain ⟨entry, isEntry, rfl⟩ := Option.map_eq_some_iff.mp found
  obtain ⟨member, same⟩ := OrderedDict.mem_of_find? isEntry
  obtain rfl : entry.1 = path := same
  exact member

theorem put_eq_some (isPut : put files file = some after) :
    (∀ other ∈ files, other.1 <+: file.1 → other.1 = file.1) ∧
      after = files.filter (fun other => ¬file.1 <+: other.1) ++ [file] := by
  rw [put] at isPut
  split at isPut
  · exact absurd isPut (by simp)
  · rename_i free
    refine ⟨fun other member isPrefix => ?_, (Option.some.inj isPut).symm⟩
    by_contra different
    exact free ⟨other, member, isPrefix, different⟩

theorem fileAt_cons (other : List Name × Content) (files : List (List Name × Content))
    (path : List Name) :
    fileAt (other :: files) path = if other.1 = path then some other.2 else fileAt files path := by
  rw [fileAt, OrderedDict.get?, OrderedDict.find?_cons]
  by_cases same : other.1 = path <;> simp [same, fileAt, OrderedDict.get?]

theorem fileAt_append (first second : List (List Name × Content)) (path : List Name) :
    fileAt (first ++ second) path = (fileAt first path).or (fileAt second path) := by
  induction first with
  | nil => rfl
  | cons other first ih =>
    rw [List.cons_append, fileAt_cons, fileAt_cons, ih]
    split <;> simp

/-- Removing what is at a path or below it. -/
theorem fileAt_filter (files : List (List Name × Content)) (above path : List Name) :
    fileAt (files.filter fun other => ¬above <+: other.1) path =
      if above <+: path then none else fileAt files path := by
  induction files with
  | nil => simp [fileAt, OrderedDict.get?]
  | cons other files ih =>
    by_cases removed : above <+: other.1
    · rw [List.filter_cons_of_neg (by simpa using removed), ih, fileAt_cons]
      by_cases same : other.1 = path
      · rw [if_pos (same ▸ removed), if_pos (same ▸ removed)]
      · rw [if_neg same]
    · rw [List.filter_cons_of_pos (by simpa using removed), fileAt_cons, fileAt_cons, ih]
      by_cases same : other.1 = path
      · rw [if_pos same, if_pos same, if_neg (same ▸ removed)]
      · rw [if_neg same, if_neg same]

/-- What a put leaves at a path. -/
theorem fileAt_put (isPut : put files file = some after) (path : List Name) :
    fileAt after path = if path = file.1 then some file.2
      else if file.1 <+: path then none else fileAt files path := by
  obtain ⟨-, rfl⟩ := put_eq_some isPut
  rw [fileAt_append, fileAt_filter, fileAt_cons]
  by_cases same : path = file.1
  · subst same
    simp
  · rw [if_neg (Ne.symm same), if_neg same]
    exact Option.or_none

theorem put_flat (flat : Flat files) (isPut : put files file = some after) : Flat after := by
  obtain ⟨free, rfl⟩ := put_eq_some isPut
  intro one isOne other isOther isPrefix
  simp only [List.mem_append, List.mem_filter, List.mem_singleton, decide_eq_true_eq] at isOne isOther
  rcases isOne with ⟨old, notBelow⟩ | rfl <;> rcases isOther with ⟨oldToo, notBelowToo⟩ | rfl
  · exact flat one old other oldToo isPrefix
  · exact free one old isPrefix
  · exact absurd isPrefix notBelowToo
  · rfl

theorem covered_put (isPut : put files file = some after)
    (covered : ∃ other ∈ files, other.1 <+: path) : ∃ other ∈ after, other.1 <+: path := by
  obtain ⟨other, isOther, above⟩ := covered
  obtain ⟨-, rfl⟩ := put_eq_some isPut
  by_cases removed : file.1 <+: other.1
  · exact ⟨file, List.mem_append_right _ (List.mem_singleton.mpr rfl), removed.trans above⟩
  · exact ⟨other, List.mem_append_left _ (List.mem_filter.mpr ⟨isOther, by simpa using removed⟩),
      above⟩

section Runs

theorem putAll_cons (files : List (List Name × Content)) (step : List Name × Content)
    (steps : List (List Name × Content)) :
    putAll files (step :: steps) = (put files step).bind fun next => putAll next steps := rfl

theorem putAll_append (files steps more : List (List Name × Content)) :
    putAll files (steps ++ more) = (putAll files steps).bind fun next => putAll next more := by
  rw [putAll, List.foldlM_append]
  rfl

theorem putAll_flat (flat : Flat files) (isPut : putAll files steps = some after) : Flat after := by
  induction steps generalizing files with
  | nil => exact Option.some.inj isPut ▸ flat
  | cons step steps ih =>
    obtain ⟨next, isNext, later⟩ := Option.bind_eq_some_iff.mp isPut
    exact ih (put_flat flat isNext) later

/-- A path stays as it is when nothing is put at it or above it. -/
theorem fileAt_putAll (isPut : putAll files steps = some after)
    (elsewhere : ∀ step ∈ steps, ¬step.1 <+: path) : fileAt after path = fileAt files path := by
  induction steps generalizing files with
  | nil => rw [Option.some.inj isPut]
  | cons step steps ih =>
    rw [List.forall_mem_cons] at elsewhere
    obtain ⟨next, isNext, later⟩ := Option.bind_eq_some_iff.mp isPut
    have different : path ≠ step.1 := fun same => elsewhere.1 (same ▸ List.prefix_refl _)
    rw [ih later elsewhere.2, fileAt_put isNext, if_neg different, if_neg elsewhere.1]

/-- A file that was put is found when it is all that is put at its path or above it. -/
theorem fileAt_of_alike (isPut : putAll files steps = some after)
    (alike : ∀ step ∈ steps, step.1 <+: path → step = (path, content))
    (staged : fileAt files path = some content ∨ (path, content) ∈ steps) :
    fileAt after path = some content := by
  induction steps generalizing files with
  | nil =>
    rw [← Option.some.inj isPut]
    exact staged.resolve_right List.not_mem_nil
  | cons step steps ih =>
    rw [List.forall_mem_cons] at alike
    obtain ⟨next, isNext, later⟩ := Option.bind_eq_some_iff.mp isPut
    refine ih later alike.2 ?_
    rw [fileAt_put isNext]
    by_cases above : step.1 <+: path
    · rw [alike.1 above]
      exact .inl (if_pos rfl)
    · have different : path ≠ step.1 := fun same => above (same ▸ List.prefix_refl _)
      rw [if_neg different, if_neg above]
      refine staged.imp_right fun member => (List.mem_cons.mp member).resolve_left ?_
      rintro rfl
      exact above (List.prefix_refl _)

/-- What is found was there or was put. -/
theorem mem_of_putAll (isPut : putAll files steps = some after)
    (found : fileAt after path = some content) :
    fileAt files path = some content ∨ (path, content) ∈ steps := by
  induction steps generalizing files with
  | nil => exact .inl (Option.some.inj isPut ▸ found)
  | cons step steps ih =>
    obtain ⟨next, isNext, later⟩ := Option.bind_eq_some_iff.mp isPut
    rcases ih later with before | member
    · rw [fileAt_put isNext] at before
      split at before
      · rename_i same
        exact .inr (List.mem_cons.mpr (.inl (Prod.ext same (Option.some.inj before).symm)))
      split at before
      · exact absurd before (by simp)
      · exact .inl before
    · exact .inr (List.mem_cons_of_mem _ member)

/-- Where a file is, or above there, a file stays, and nothing is put below it. -/
theorem eq_of_covered (isPut : putAll files steps = some after)
    (covered : ∃ file ∈ files, file.1 <+: path) : ∀ step ∈ steps, path <+: step.1 → step.1 = path := by
  induction steps generalizing files with
  | nil => simp
  | cons step steps ih =>
    obtain ⟨next, isNext, later⟩ := Option.bind_eq_some_iff.mp isPut
    rw [List.forall_mem_cons]
    refine ⟨fun below => ?_, ih later (covered_put isNext covered)⟩
    obtain ⟨file, isFile, above⟩ := covered
    have same := (put_eq_some isNext).1 file isFile (above.trans below)
    exact (List.IsPrefix.eq_of_length_le below (same ▸ above.length_le)).symm

/-- Where a file was put, or above there, a file stays. -/
theorem covered_of_mem (isPut : putAll files steps = some after) :
    ∀ step ∈ steps, ∃ file ∈ after, file.1 <+: step.1 := by
  have stays {files after steps : List (List Name × Content)} {path : List Name}
      (isPut : putAll files steps = some after) (covered : ∃ file ∈ files, file.1 <+: path) :
      ∃ file ∈ after, file.1 <+: path := by
    induction steps generalizing files with
    | nil => exact Option.some.inj isPut ▸ covered
    | cons step steps ih =>
      obtain ⟨next, isNext, later⟩ := Option.bind_eq_some_iff.mp isPut
      exact ih later (covered_put isNext covered)
  induction steps generalizing files with
  | nil => simp
  | cons step steps ih =>
    obtain ⟨next, isNext, later⟩ := Option.bind_eq_some_iff.mp isPut
    rw [List.forall_mem_cons]
    refine ⟨stays later ⟨step, ?_, List.prefix_refl _⟩, ih later⟩
    rw [(put_eq_some isNext).2]
    exact List.mem_append_right _ (List.mem_singleton.mpr rfl)

end Runs

end MastProvisioning.Collections.PathFiles
