import MastProvisioning.Unit.IndexDisk

/-!
# When the image of the index disk is removed

A run removes the image only to build it again, after it has compared the staged seed
with the declared set. Wherever the run is cut off, an image that it has not removed is
the one it found.
-/

namespace MastProvisioning.Unit.IndexDisk

open PowerShell Semantics Semantics.Command

/-- The image is removed only after the seed was found to hold the manifest's files; an
image that was not removed is the one the run started with. -/
structure Guarded (payload : Payload) (start : Option Disk) (machine : Machine) : Prop where
  checkedFirst : ∀ before after, machine.steps = before ++ .imageRemoved :: after →
    .seedMatched ∈ before
  matched : .seedMatched ∈ machine.steps → ∃ manifest seed, payload.manifest = some manifest ∧
    foldCase manifest.digest = foldCase payload.indexSetDigest ∧ payload.seed = some seed ∧
    SameSet manifest.files seed.files
  kept : .imageRemoved ∉ machine.steps → start ≠ none → machine.image = start

/-- The run has read the declared set, and compared the seed with it if both are there. -/
structure HasRead (payload : Payload) (start : Option Disk) (machine : Machine) : Prop where
  guarded : Guarded payload start machine
  checked : payload.indexSetDigest ≠ "" → payload.seed ≠ none → .seedMatched ∈ machine.steps

/-- The run has removed the image, or there was none. -/
structure Building (payload : Payload) (start : Option Disk) (machine : Machine) : Prop where
  hasRead : HasRead payload start machine
  removed : start = none ∨ .imageRemoved ∈ machine.steps

variable {payload : Payload} {start : Option Disk} {machine after : Machine}

theorem HasRead.of_same (hasRead : HasRead payload start machine)
    (sameImage : after.image = machine.image) (sameSteps : after.steps = machine.steps) :
    HasRead payload start after where
  guarded :=
    { checkedFirst := sameSteps ▸ hasRead.guarded.checkedFirst
      matched := sameSteps ▸ hasRead.guarded.matched
      kept := fun notRemoved isImage =>
        sameImage.trans (hasRead.guarded.kept (sameSteps ▸ notRemoved) isImage) }
  checked := sameSteps ▸ hasRead.checked

theorem Building.of_sameSteps (building : Building payload start machine)
    (sameSteps : after.steps = machine.steps) : Building payload start after where
  hasRead :=
    { guarded :=
        { checkedFirst := sameSteps ▸ building.hasRead.guarded.checkedFirst
          matched := sameSteps ▸ building.hasRead.guarded.matched
          kept := fun notRemoved isImage => by
            rw [sameSteps] at notRemoved
            rcases building.removed with isNone | isRemoved
            · exact absurd isNone isImage
            · exact absurd isRemoved notRemoved }
      checked := sameSteps ▸ building.hasRead.checked }
  removed := sameSteps ▸ building.removed

/-- Removing the image once the seed has been checked. -/
theorem HasRead.remove (hasRead : HasRead payload start machine)
    (checked : Step.seedMatched ∈ machine.steps) :
    Building payload start
      { machine with image := none, steps := machine.steps ++ [.imageRemoved] } where
  hasRead :=
    { guarded :=
        { checkedFirst := by
            intro before rest isSteps
            rcases List.append_eq_append_iff.mp isSteps with
              ⟨more, isBefore, -⟩ | ⟨more, isEarlier, isRest⟩
            · exact isBefore ▸ List.mem_append_left more checked
            · cases more with
              | nil => exact (by simpa using isEarlier : machine.steps = before) ▸ checked
              | cons step more =>
                obtain ⟨rfl, -⟩ := List.cons.inj isRest
                exact hasRead.guarded.checkedFirst before more isEarlier
          matched := fun isMatched =>
            hasRead.guarded.matched (by simpa using isMatched)
          kept := fun notRemoved => absurd (by simp) notRemoved }
      checked := fun given seeded => List.mem_append_left _ (hasRead.checked given seeded) }
  removed := .inr (by simp)

theorem removeOldImage_building (hasRead : HasRead payload start machine)
    (removable : machine.image = none ∨ Step.seedMatched ∈ machine.steps) :
    Meets .interrupted removeOldImage machine (fun _ => Building payload start)
      (HasRead payload start) := by
  refine .query_bind ?_ fun _ => hasRead
  refine .ite (fun isPresent => ?_) fun isAbsent => ?_
  · refine .change ?_ (fun _ => hasRead) fun _ => hasRead
    intro after isAfter
    obtain ⟨_, -, rfl⟩ := Option.map_eq_some_iff.mp isAfter
    refine hasRead.remove (removable.resolve_left ?_)
    rintro isNone
    simp [isNone] at isPresent
  · refine .pure ⟨hasRead, ?_⟩
    by_contra neither
    obtain ⟨isStart, notRemoved⟩ := not_or.mp neither
    have isNone : machine.image = none := by simpa using isAbsent
    exact isStart ((hasRead.guarded.kept notRemoved isStart).symm.trans isNone)

theorem change_building {message : String} {effect : Machine → Option Machine}
    (sameSteps : ∀ state after, effect state = some after → after.steps = state.steps) :
    Preserves .interrupted (Building payload start) (change message effect) :=
  .change fun state after building isAfter =>
    building.of_sameSteps (sameSteps state after isAfter)

theorem idle_building (message : String) :
    Preserves .interrupted (Building payload start) (change message some) := by
  refine change_building ?_
  rintro state _ ⟨⟩
  rfl

/-- A call that needs the image. -/
theorem mapImage_building {message : String} {effect : Machine → Machine}
    (sameSteps : ∀ state, (effect state).steps = state.steps) :
    Preserves .interrupted (Building payload start)
      (change message fun machine => machine.image.map fun _ => effect machine) := by
  refine change_building fun state after isAfter => ?_
  obtain ⟨_, -, rfl⟩ := Option.map_eq_some_iff.mp isAfter
  exact sameSteps state

theorem copyToScratch_building (file : Entry) :
    Preserves .interrupted (Building payload start) (copyToScratch file) := by
  refine change_building fun state after isAfter => ?_
  obtain ⟨disk, -, isAfter⟩ := Option.bind_eq_some_iff.mp isAfter
  obtain ⟨written, -, isAfter⟩ := Option.bind_eq_some_iff.mp isAfter
  obtain rfl := Option.some.inj isAfter
  rfl

theorem formatAndSeed_building (seed : IndexFolder) :
    Preserves .interrupted (Building payload start) (formatAndSeed seed) := by
  refine .bind (mapImage_building fun _ => rfl) fun _ => ?_
  refine .bind (.query _) fun _ => .bind (.require _ _) fun _ => ?_
  refine .bind (.forEach fun file _ => copyToScratch_building file) fun _ => ?_
  exact .bind (.query _) fun _ => .require _ _

theorem newSparseBackingFile_building (hasRead : HasRead payload start machine)
    (removable : machine.image = none ∨ Step.seedMatched ∈ machine.steps) :
    Meets .interrupted newSparseBackingFile machine (fun _ => Building payload start)
      (HasRead payload start) := by
  have creates : Preserves .interrupted (Building payload start) (change "Create" fun machine =>
      some { machine with image := some .raw }) := by
    refine change_building ?_
    rintro state _ ⟨⟩
    rfl
  have extends_ : Preserves .interrupted (Building payload start) (do
      change "Create" fun machine => some { machine with image := some .raw }
      change "fsutil sparse setflag failed" some
      change "SetLength" some) :=
    .bind creates fun _ => .bind (idle_building _) fun _ => idle_building _
  refine (removeOldImage_building hasRead removable).bind fun _ cleared building => ?_
  exact (extends_ cleared building).mono (fun _ _ => id) fun _ broken => broken.hasRead

/-- A build removes an image only when the seed has been checked. -/
theorem newSparseIndexImage_hasRead (hasRead : HasRead payload start machine)
    (removable : machine.image = none ∨ payload.indexSetDigest ≠ "") :
    Meets .interrupted (newSparseIndexImage payload.seed) machine
      (fun _ => HasRead payload start) (HasRead payload start) := by
  unfold newSparseIndexImage
  refine .expect_bind (fun seed isSeed => ?_) fun _ => hasRead
  refine .require_bind (fun _ => ?_) fun _ => hasRead
  have checked : machine.image = none ∨ Step.seedMatched ∈ machine.steps :=
    removable.imp_right fun given => hasRead.checked given (by simp [isSeed])
  have finishes : Preserves .interrupted (Building payload start) (do
      change "imdisk -a -m (scratch build mount) failed" fun machine =>
        machine.image.map fun _ => machine
      lastly (formatAndSeed seed) detachScratch
      let present ← query fun machine => machine.image.isSome
      require present "Image build reported success but it is missing.") := by
    have detaches : Preserves .interrupted (Building payload start) detachScratch :=
      .ignoreErrors (idle_building _)
    refine .bind (mapImage_building fun _ => rfl) fun _ => ?_
    refine .bind ((formatAndSeed_building seed).lastly detaches) fun _ => ?_
    exact .bind (.query _) fun _ => .require _ _
  refine (newSparseBackingFile_building hasRead checked).bind fun _ created building => ?_
  exact (finishes created building).mono (fun _ _ ended => ended.hasRead) fun _ broken =>
    broken.hasRead

theorem change_hasRead {message : String} {effect : Machine → Option Machine}
    (same : ∀ state after, effect state = some after →
      after.image = state.image ∧ after.steps = state.steps) :
    Preserves .interrupted (HasRead payload start) (change message effect) :=
  .change fun state after hasRead isAfter =>
    hasRead.of_same (same state after isAfter).1 (same state after isAfter).2

theorem buildMissingImage_hasRead :
    Preserves .interrupted (HasRead payload start) (buildMissingImage payload.seed) := by
  intro machine hasRead
  refine .query_bind ?_ fun _ => hasRead
  refine .ite (fun _ => .pure hasRead) fun isAbsent => ?_
  refine .ite (fun _ => ?_) fun _ => .pure hasRead
  exact newSparseIndexImage_hasRead hasRead (.inl (by simpa using isAbsent))

theorem mountIndexDisk_hasRead :
    Preserves .interrupted (HasRead payload start) mountIndexDisk := by
  refine .bind (change_hasRead fun state after isAfter => ?_) fun _ =>
    .bind (.query _) fun _ => .require _ _
  unfold Machine.attach at isAfter
  split at isAfter
  · obtain rfl := Option.some.inj isAfter
    exact ⟨rfl, rfl⟩
  · cases isAfter

theorem dismountIndexDisk_hasRead :
    Preserves .interrupted (HasRead payload start) dismountIndexDisk := by
  refine .bind (.query _) fun _ => .ite (change_hasRead fun state after isAfter => ?_) (.pure _)
  unfold Machine.detach at isAfter
  split at isAfter
  · obtain rfl := Option.some.inj isAfter
    exact ⟨rfl, rfl⟩
  · cases isAfter

theorem immediateMount_hasRead :
    Preserves .interrupted (HasRead payload start) immediateMount := by
  refine .bind (.catching (.query _) fun _ => .pure _) fun _ => .bind (.query _) fun _ => ?_
  refine .ite (.pure _) (.ite (.pure _) (.bind (.query _) fun _ => ?_))
  exact .ite (.exit _) mountIndexDisk_hasRead

theorem remount_hasRead (expected : List Entry) (diff : List String) :
    Preserves .interrupted (HasRead payload start) (remount expected diff) := by
  refine .ite (.pure _) (.bind (.query _) fun _ => .ite ?_ (.pure _))
  refine .bind dismountIndexDisk_hasRead fun _ => .bind mountIndexDisk_hasRead fun _ => ?_
  exact .query _

theorem rebuild_hasRead (given : payload.indexSetDigest ≠ "") (expected : List Entry)
    (diff : List String) :
    Preserves .interrupted (HasRead payload start) (rebuild expected payload.seed diff) := by
  refine .ite (.pure _) (fun machine hasRead => ?_)
  refine .require_bind (fun isSeed => ?_) fun _ => hasRead
  have removes : Preserves .interrupted (HasRead payload start) (ignoreErrors removeImage) := by
    refine .ignoreErrors (.change fun state after hasRead isAfter => ?_)
    obtain ⟨_, -, rfl⟩ := Option.map_eq_some_iff.mp isAfter
    have checked := hasRead.checked given (by
      rintro isNone
      simp [isNone] at isSeed)
    exact (hasRead.remove checked).hasRead
  have builds : Preserves .interrupted (HasRead payload start) (newSparseIndexImage payload.seed) :=
    fun state hasRead => newSparseIndexImage_hasRead hasRead (.inr given)
  have finishes : Preserves .interrupted (HasRead payload start) (do
      dismountIndexDisk
      ignoreErrors removeImage
      newSparseIndexImage payload.seed
      mountIndexDisk
      let diff ← compareDrive expected
      require diff.isEmpty
        ("D: still differs from the declared index set after a rebuild: " ++ joinDiff diff)) := by
    refine .bind dismountIndexDisk_hasRead fun _ => .bind removes fun _ => ?_
    refine .bind builds fun _ => .bind mountIndexDisk_hasRead fun _ => ?_
    exact .bind (.query _) fun _ => .require _ _
  exact finishes machine hasRead

/-- A run that has just begun. -/
theorem Guarded.begin (noSteps : machine.steps = []) :
    Guarded payload machine.image machine where
  checkedFirst := by simp [noSteps]
  matched := by simp [noSteps]
  kept _ _ := rfl

theorem readDeclaredSet_hasRead (noSteps : machine.steps = []) :
    Meets .interrupted (readDeclaredSet payload) machine
      (fun expected after => HasRead payload machine.image after ∧
        (payload.indexSetDigest = "" → expected = []))
      (Guarded payload machine.image) := by
  have begun : Guarded payload machine.image machine := .begin noSteps
  unfold readDeclaredSet
  refine .ite (fun missing => ?_) fun given => ?_
  · exact .pure ⟨⟨begun, fun given => absurd missing given⟩, fun _ => rfl⟩
  refine .expect_bind (fun manifest isManifest => ?_) fun _ => begun
  refine .require_bind (fun sameDigest => ?_) fun _ => begun
  have checks : Meets .interrupted (checkSeed manifest payload.seed) machine
      (fun _ => HasRead payload machine.image) (Guarded payload machine.image) := by
    cases isSeed : payload.seed with
    | none => exact .pure ⟨begun, fun _ seeded => absurd isSeed seeded⟩
    | some seed =>
      refine .require_bind (fun fits => .update ?_) fun _ => begun
      rw [mismatches_isEmpty] at fits
      refine ⟨⟨?_, fun _ => ?_, fun _ _ => rfl⟩, fun _ _ => by simp⟩
      · intro before after isSteps
        change machine.steps ++ [.seedMatched] = _ at isSteps
        have isRemoved : Step.imageRemoved ∈ machine.steps ++ [.seedMatched] := by
          rw [isSteps]
          simp
        rw [noSteps] at isRemoved
        simp at isRemoved
      · exact ⟨manifest, seed, isManifest, by simpa using sameDigest, isSeed, fits⟩
  refine checks.bind fun _ after hasRead => ?_
  have installs : Meets .interrupted (change "Copy-Item" fun machine =>
      some { machine with installedManifest := some manifest }) after
      (fun _ => HasRead payload machine.image) (HasRead payload machine.image) := by
    refine change_hasRead ?_ after hasRead
    rintro state _ ⟨⟩
    exact ⟨rfl, rfl⟩
  refine (installs.mono (fun _ _ => id) fun _ broken => broken.guarded).bind fun _ _ hasRead => ?_
  exact .pure ⟨hasRead, fun missing => absurd missing given⟩

/-- Wherever a run is cut off, it has removed the image only after the seed was found to
hold the declared set. -/
theorem provideImdisk_guarded (payload : Payload) (machine : Machine) (faults : List Fault) :
    Guarded payload machine.image (provideImdisk payload ⟨machine, faults⟩).2.state := by
  have body : Meets .interrupted (provideBody payload) { machine with steps := [] }
      (fun _ => Guarded payload machine.image) (Guarded payload machine.image) := by
    unfold provideBody
    refine (readDeclaredSet_hasRead rfl).bind fun expected read ⟨hasRead, undeclared⟩ => ?_
    have goesOn : Preserves .interrupted (HasRead payload machine.image) (do
        buildMissingImage payload.seed
        immediateMount
        converge expected payload.seed) := by
      refine .bind buildMissingImage_hasRead fun _ => .bind immediateMount_hasRead fun _ => ?_
      unfold converge
      by_cases isEmpty : expected.isEmpty = true
      · rw [if_pos isEmpty]
        exact .pure _
      · rw [if_neg isEmpty]
        have given : payload.indexSetDigest ≠ "" := fun missing =>
          isEmpty (by simp [undeclared missing])
        refine .bind (.query _) fun _ => .bind (remount_hasRead _ _) fun _ => ?_
        exact rebuild_hasRead given _ _
    exact (goesOn read hasRead).mono (fun _ _ ended => ended.guarded) fun _ broken => broken.guarded
  refine Meets.final ?_ faults
  refine .update_bind ?_
  refine .catching (body.bind fun _ _ guarded => .pure guarded) (fun _ _ guarded => .pure guarded)
    fun _ _ => id

end MastProvisioning.Unit.IndexDisk
