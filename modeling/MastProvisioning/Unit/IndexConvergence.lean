import MastProvisioning.Unit.IndexRemoval

/-!
# When the index disk converges

A run of the provider compares `D:` with the declared set and mounts or builds again
what differs. The comparison comes after the mount, so a run settles a unit only when
the image it finds can be mounted; and it looks at `D:` alone, so a `D:` that holds the
set hides an image that does not.
-/

namespace MastProvisioning.Unit.IndexDisk

open Collections PowerShell Semantics Semantics.Command

section Commands

variable {mode : Mode} {failed : Machine → Prop} {machine : Machine}

/-- Nothing was done to the disks. -/
structure SameDisks (machine after : Machine) : Prop where
  image : after.image = machine.image
  drive : after.drive = machine.drive

theorem SameDisks.refl : SameDisks machine machine := ⟨rfl, rfl⟩

theorem SameDisks.trans {middle after : Machine} (first : SameDisks machine middle)
    (second : SameDisks middle after) : SameDisks machine after :=
  ⟨second.image.trans first.image, second.drive.trans first.drive⟩

/-- The image holds the files of a seed. -/
def BuiltFrom (seed : IndexFolder) (machine after : Machine) : Prop :=
  after.image = some (.formatted ⟨indexSubdir, seed⟩) ∧ after.drive = machine.drive

theorem removeImage_meets (cut : mode = .interrupted → ∀ state, failed state)
    (present : machine.image.isSome = true) :
    Meets mode removeImage machine
      (fun _ after => after.image = none ∧ after.drive = machine.drive) failed := by
  obtain ⟨disk, isImage⟩ := Option.isSome_iff_exists.mp present
  unfold removeImage
  refine .change ?_ ?_ fun isCut => cut isCut _
  · intro after isAfter
    rw [isImage] at isAfter
    obtain rfl := Option.some.inj isAfter
    exact ⟨rfl, rfl⟩
  · intro absent
    rw [isImage] at absent
    cases absent

theorem newSparseBackingFile_meets (cut : mode = .interrupted → ∀ state, failed state) :
    Meets mode newSparseBackingFile machine
      (fun _ after => after.image = some .raw ∧ after.drive = machine.drive) failed := by
  let cleared : Unit → Machine → Prop := fun _ after => after.drive = machine.drive
  let made : Unit → Machine → Prop := fun _ after =>
    after.image = some .raw ∧ after.drive = machine.drive
  have clears : Meets mode removeOldImage machine cleared failed := by
    refine .query_bind ?_ fun isCut => cut isCut _
    refine .ite (fun present => ?_) fun _ => .pure rfl
    exact (removeImage_meets cut present).mono (fun _ _ removed => removed.2) fun _ => id
  have creates : ∀ before, cleared () before → Meets mode (change "Create" fun machine =>
      some { machine with image := some .raw }) before made failed := by
    intro before isDrive
    refine .change ?_ (by simp) fun isCut => cut isCut _
    rintro _ ⟨⟩
    exact ⟨rfl, isDrive⟩
  have keeps : ∀ message before, made () before →
      Meets mode (change message some) before made failed := by
    intro message before isMade
    refine .change ?_ (by simp) fun isCut => cut isCut _
    rintro _ ⟨⟩
    exact isMade
  refine clears.bind fun _ before isCleared => ?_
  refine (creates before isCleared).bind fun _ before isMade => ?_
  exact (keeps _ before isMade).bind fun _ before isMade => keeps _ before isMade

/-- The files of a seed still to be copied to the scratch mount. -/
def Copying (seed : IndexFolder) (machine : Machine) (rest : List Entry) (after : Machine) :
    Prop :=
  ∃ volume done, after.image = some (.formatted volume) ∧ volume.label = indexSubdir ∧
    volume.indexes.files = done ∧ seed.files = done ++ rest ∧ after.drive = machine.drive

theorem copyToScratch_meets (cut : mode = .interrupted → ∀ state, failed state)
    {seed : IndexFolder} {file : Entry} {rest : List Entry} {before : Machine}
    (copying : Copying seed machine (file :: rest) before) :
    Meets mode (copyToScratch file) before (fun _ => Copying seed machine rest) failed := by
  obtain ⟨⟨label, folder⟩, done, isImage, isLabel, isDone, isSeed, isDrive⟩ := copying
  have isWritten : (folder.write file).files = done ++ [file] := by
    refine (OrderedDict.set_of_fresh ?_).trans (by rw [isDone])
    intro entry member same
    have distinct := seed.distinct
    rw [isSeed] at distinct
    unfold OrderedDict.Distinct at distinct
    rw [List.map_append, List.nodup_append] at distinct
    exact distinct.2.2 _ (List.mem_map_of_mem (isDone ▸ member)) _ List.mem_cons_self same
  refine .change ?_ ?_ fun isCut => cut isCut _
  · intro after isAfter
    rw [isImage] at isAfter
    obtain rfl := Option.some.inj isAfter
    exact ⟨_, done ++ [file], rfl, isLabel, isWritten, by simp [isSeed], isDrive⟩
  · intro fails
    rw [isImage] at fails
    cases fails

theorem formatAndSeed_meets (cut : mode = .interrupted → ∀ state, failed state)
    {seed : IndexFolder} {before : Machine} (nonempty : seed.files ≠ [])
    (isRaw : before.image = some .raw) (isDrive : before.drive = machine.drive) :
    Meets mode (formatAndSeed seed) before (fun _ => BuiltFrom seed machine) failed := by
  let formatted : Unit → Machine → Prop := fun _ => Copying seed machine seed.files
  have formats : Meets mode formatScratch before formatted failed := by
    refine .change ?_ ?_ fun isCut => cut isCut _
    · intro after isAfter
      rw [isRaw] at isAfter
      obtain rfl := Option.some.inj isAfter
      exact ⟨_, [], rfl, rfl, rfl, rfl, isDrive⟩
    · intro fails
      rw [isRaw] at fails
      cases fails
  refine formats.bind fun _ before copying => ?_
  refine .query_bind ?_ fun isCut => cut isCut _
  refine .require_bind (fun _ => ?_) fun isHidden => ?_
  · have copies : Meets mode (forEach seed.files copyToScratch) before
        (fun _ => Copying seed machine []) failed :=
      .forEach copying fun file rest before _ copying => copyToScratch_meets cut copying
    refine copies.bind fun _ after ⟨volume, done, isImage, isLabel, isDone, isSeed, isDrive⟩ => ?_
    obtain rfl : volume = ⟨indexSubdir, seed⟩ := by
      obtain ⟨label, files, distinct⟩ := volume
      obtain ⟨seedFiles, seedDistinct⟩ := seed
      obtain rfl : label = indexSubdir := isLabel
      obtain rfl : files = done := isDone
      obtain rfl : seedFiles = files := by simpa using isSeed
      rfl
    refine .query_bind ?_ fun isCut => cut isCut _
    refine .require (fun _ => ⟨isImage, isDrive⟩) fun isEmpty => ?_
    rw [isImage] at isEmpty
    exact absurd (by simpa [Disk.entries] using isEmpty) nonempty
  · obtain ⟨volume, done, isImage, -⟩ := copying
    rw [isImage] at isHidden
    cases isHidden

/-- A build leaves the files of its seed in the image. -/
theorem newSparseIndexImage_meets (cut : mode = .interrupted → ∀ state, failed state)
    {seedDir : Option IndexFolder}
    (stuck : (∀ seed, seedDir = some seed → seed.files = []) → failed machine) :
    Meets mode (newSparseIndexImage seedDir) machine
      (fun _ after => ∃ seed, seedDir = some seed ∧ BuiltFrom seed machine after) failed := by
  unfold newSparseIndexImage
  refine .expect_bind (fun seed isSeed => ?_) fun isNone => stuck (by simp [isNone])
  refine .require_bind (fun filled => ?_) fun isEmpty => stuck ?_
  · have nonempty : seed.files ≠ [] := by simpa using filled
    refine (newSparseBackingFile_meets cut).bind fun _ before ⟨isRaw, isDrive⟩ => ?_
    let attached : Unit → Machine → Prop := fun _ after =>
      after.image = some .raw ∧ after.drive = machine.drive
    have attaches : Meets mode (change "imdisk -a -m (scratch build mount) failed" fun machine =>
        machine.image.map fun _ => machine) before attached failed := by
      refine .change ?_ ?_ fun isCut => cut isCut _
      · intro after isAfter
        rw [isRaw] at isAfter
        obtain rfl := Option.some.inj isAfter
        exact ⟨isRaw, isDrive⟩
      · intro fails
        rw [isRaw] at fails
        cases fails
    refine attaches.bind fun _ before ⟨isRaw, isDrive⟩ => ?_
    have detaches : ∀ finished : Machine → Prop, ∀ after, finished after →
        Meets mode detachScratch after (fun _ => finished) failed := by
      intro finished after holds
      have detaches : Meets mode (change "imdisk -D" some) after (fun _ => finished) finished := by
        refine .change ?_ (by simp) fun _ => holds
        rintro _ ⟨⟩
        exact holds
      exact detaches.ignoreErrors (fun _ => id) fun isCut _ _ => cut isCut _
    have seeds : Meets mode (lastly (formatAndSeed seed) detachScratch) before
        (fun _ => BuiltFrom seed machine) failed := by
      refine (formatAndSeed_meets cut nonempty isRaw isDrive).lastly ?_ ?_ fun isCut _ _ => cut isCut _
      · exact fun _ after built => detaches _ after built
      · exact fun after broken => detaches failed after broken
    refine seeds.bind fun _ after built => ?_
    refine .query_bind ?_ fun isCut => cut isCut _
    refine .require (fun _ => ⟨seed, isSeed, built⟩) fun isAbsent => ?_
    rw [built.1] at isAbsent
    cases isAbsent
  · rintro other isOther
    obtain rfl := Option.some.inj (isSeed.symm.trans isOther)
    simpa using isEmpty

/-- The image can be mounted at `D:`. -/
def Mountable (machine : Machine) : Prop :=
  machine.drive = .free ∧ ∃ volume, machine.image = some (.formatted volume)

theorem mountIndexDisk_meets (cut : mode = .interrupted → ∀ state, failed state)
    (stuck : ¬ Mountable machine → ∀ state, failed state) :
    Meets mode mountIndexDisk machine
      (fun _ after => Mountable machine ∧ after.image = machine.image ∧
        after.drive = machine.nextMount) failed := by
  let attached : Unit → Machine → Prop := fun _ after =>
    machine.drive = .free ∧ ∃ disk, machine.image = some disk ∧ after.image = some disk ∧
      after.drive = .imdisk disk
  have attaches : Meets mode (change "imdisk -a -m D: failed; the immediate mount failed."
      Machine.attach) machine attached failed := by
    refine .change ?_ ?_ fun isCut => cut isCut _
    · intro after isAfter
      unfold Machine.attach at isAfter
      split at isAfter
      · rename_i disk isFree isImage
        obtain rfl := Option.some.inj isAfter
        exact ⟨isFree, disk, isImage, isImage, rfl⟩
      · cases isAfter
    · intro fails
      refine stuck ?_ _
      rintro ⟨isFree, volume, isImage⟩
      simp [Machine.attach, isFree, isImage] at fails
  refine attaches.bind fun _ after ⟨isFree, disk, isImage, keptImage, isDrive⟩ => ?_
  refine .query_bind ?_ fun isCut => cut isCut _
  refine .require (fun isVisible => ?_) fun isHidden => ?_
  · rw [isDrive] at isVisible
    refine ⟨⟨isFree, ?_⟩, keptImage.trans isImage.symm, ?_⟩
    · cases disk with
      | raw => cases isVisible
      | formatted volume => exact ⟨volume, isImage⟩
    · simp [Machine.nextMount, isImage, isDrive]
  · refine stuck ?_ _
    rintro ⟨-, volume, isFormatted⟩
    obtain rfl : disk = .formatted volume := Option.some.inj (isImage.symm.trans isFormatted)
    rw [isDrive] at isHidden
    cases isHidden

theorem dismountIndexDisk_meets (cut : mode = .interrupted → ∀ state, failed state)
    (stuck : machine.drive.isForeign = true → ∀ state, failed state) :
    Meets mode dismountIndexDisk machine
      (fun _ after => after.image = machine.image ∧
        (machine.drive.rootVisible = true → after.drive = .free) ∧
        (machine.drive.rootVisible = false → after.drive = machine.drive)) failed := by
  unfold dismountIndexDisk
  refine .query_bind ?_ fun isCut => cut isCut _
  refine .ite (fun isVisible => ?_) fun isHidden => ?_
  · refine .change ?_ ?_ fun isCut => cut isCut _
    · intro after isAfter
      unfold Machine.detach at isAfter
      split at isAfter
      · obtain rfl := Option.some.inj isAfter
        exact ⟨rfl, fun _ => rfl, fun isHidden => absurd isVisible (by simp [isHidden])⟩
      · cases isAfter
    · intro fails
      unfold Machine.detach at fails
      split at fails
      · cases fails
      · rename_i notImDisk
        cases isDrive : machine.drive with
        | free => rw [isDrive] at isVisible; cases isVisible
        | imdisk disk => exact absurd isDrive (notImDisk disk)
        | device driveType disk => exact stuck (by rw [isDrive]; rfl) _
  · exact .pure ⟨rfl, fun isVisible => absurd isVisible isHidden, fun _ => rfl⟩

/-- The provider takes what is at `D:` for the index volume. -/
def Drive.carriesIndexVolume (drive : Drive) : Bool :=
  drive.logicalDisk?.any LogicalDisk.isIndexVolume

/-- The immediate mount is skipped. -/
def SkipsMount (machine : Machine) : Prop :=
  machine.image = none ∨ machine.drive.carriesIndexVolume = true

theorem immediateMount_meets (cut : mode = .interrupted → ∀ state, failed state)
    (stuck : ¬ SkipsMount machine → ¬ Mountable machine → ∀ state, failed state) :
    Meets mode immediateMount machine
      (fun _ after => SameDisks machine after ∧ SkipsMount machine ∨
        Mountable machine ∧ after.image = machine.image ∧ after.drive = machine.nextMount)
      failed := by
  let lookedUp : Option LogicalDisk → Machine → Prop := fun dDisk after =>
    machine = after ∧ (dDisk = machine.drive.logicalDisk? ∨ mode = .interrupted ∧ dDisk = none)
  have looksUp : Meets mode (catching (query fun machine => machine.drive.logicalDisk?)
      fun _ => pure none) machine lookedUp failed := by
    let unread : Machine → Prop := fun after => machine = after ∧ mode = .interrupted
    have reads : Meets mode (query fun machine => machine.drive.logicalDisk?) machine lookedUp
        unread := .query ⟨rfl, .inl rfl⟩ fun isCut => ⟨rfl, isCut⟩
    refine reads.catching ?_ fun isCut _ _ => cut isCut _
    rintro _ _ ⟨rfl, isCut⟩
    exact .pure ⟨rfl, .inr ⟨isCut, rfl⟩⟩
  refine looksUp.bind ?_
  rintro dDisk _ ⟨rfl, isDisk⟩
  refine .query_bind ?_ fun isCut => cut isCut _
  refine .ite (fun isAbsent => ?_) fun isPresent => ?_
  · exact .pure (.inl ⟨.refl, .inl (by simpa using isAbsent)⟩)
  refine .ite (fun carries => ?_) fun carriesNot => ?_
  · rcases isDisk with rfl | ⟨-, rfl⟩
    · exact .pure (.inl ⟨.refl, .inr carries⟩)
    · cases carries
  have unskipped : dDisk = machine.drive.logicalDisk? → ¬ SkipsMount machine := by
    rintro rfl (isNone | carries)
    · exact isPresent (by simp [isNone])
    · exact carriesNot carries
  refine .query_bind ?_ fun isCut => cut isCut _
  refine .ite (fun isTaken => .exit ?_) fun _ => ?_
  · rcases isDisk with isDisk | ⟨isCut, -⟩
    · refine stuck (unskipped isDisk) ?_ _
      rintro ⟨isFree, -⟩
      rw [isDisk, isFree] at isTaken
      cases isTaken
    · exact cut isCut _
  · refine (mountIndexDisk_meets cut ?_).mono (fun _ _ mounted => .inr mounted) fun _ => id
    intro unmountable
    rcases isDisk with isDisk | ⟨isCut, -⟩
    · exact stuck (unskipped isDisk) unmountable
    · exact cut isCut

/-- ImDisk has `D:`, and its disk can be read. -/
def Drive.Attached (drive : Drive) : Prop :=
  ∃ volume, drive = .imdisk (.formatted volume)

theorem Drive.Attached.visible {drive : Drive} (attached : drive.Attached) :
    drive.rootVisible = true := by
  obtain ⟨volume, rfl⟩ := attached
  rfl

theorem Drive.Attached.ours {drive : Drive} (attached : drive.Attached) :
    drive.isForeign = false := by
  obtain ⟨volume, rfl⟩ := attached
  rfl

variable {expected : List Entry} {seedDir : Option IndexFolder} {diff : List String}

/-- Detach `D:` and mount it from the image. -/
theorem remounted_meets (cut : mode = .interrupted → ∀ state, failed state)
    (stuck : ¬ (machine.drive.Attached ∧ ∃ volume, machine.image = some (.formatted volume)) →
      ∀ state, failed state) :
    Meets mode (dismountIndexDisk >>= fun _ => mountIndexDisk) machine
      (fun _ after => (∃ volume, machine.image = some (.formatted volume)) ∧
        after.image = machine.image ∧ after.drive = machine.nextMount) failed := by
  have notForeign : machine.drive.isForeign = true → ∀ state, failed state := by
    intro isForeign
    refine stuck ?_
    rintro ⟨attached, -⟩
    rw [attached.ours] at isForeign
    cases isForeign
  refine (dismountIndexDisk_meets cut notForeign).bind ?_
  rintro _ after ⟨isImage, isFree, -⟩
  have sameMount : after.nextMount = machine.nextMount := by
    simp [Machine.nextMount, isImage]
  refine (mountIndexDisk_meets cut ?_).mono ?_ fun _ => id
  · intro unmountable
    refine stuck ?_
    rintro ⟨attached, volume, isFormatted⟩
    exact unmountable ⟨isFree attached.visible, volume, isImage.trans isFormatted⟩
  · rintro _ ended ⟨⟨-, volume, isFormatted⟩, keptImage, isDrive⟩
    exact ⟨⟨volume, isImage.symm.trans isFormatted⟩, keptImage.trans isImage,
      isDrive.trans sameMount⟩

theorem remount_meets (cut : mode = .interrupted → ∀ state, failed state)
    (isDiff : diff = getMastIndexSetMismatches expected machine.drive.entries)
    (stuck : ¬ SameSet expected machine.drive.entries →
      ¬ (machine.drive.Attached ∧ ∃ volume, machine.image = some (.formatted volume)) →
      ∀ state, failed state) :
    Meets mode (remount expected diff) machine
      (fun diff after => diff = getMastIndexSetMismatches expected after.drive.entries ∧
        (SameDisks machine after ∧
            (SameSet expected machine.drive.entries ∨ machine.image = none) ∨
          ¬ SameSet expected machine.drive.entries ∧
            (∃ volume, machine.image = some (.formatted volume)) ∧
            after.image = machine.image ∧ after.drive = machine.nextMount)) failed := by
  unfold remount
  refine .ite (fun isEmpty => ?_) fun differs => ?_
  · rw [isDiff, mismatches_isEmpty] at isEmpty
    exact .pure ⟨isDiff, .inl ⟨.refl, .inl isEmpty⟩⟩
  · rw [isDiff, mismatches_isEmpty] at differs
    refine .query_bind ?_ fun isCut => cut isCut _
    refine .ite (fun _ => ?_) fun isAbsent => ?_
    · refine .bind_assoc ?_
      refine (remounted_meets cut (stuck differs)).bind fun _ after mounted => ?_
      exact .query ⟨rfl, .inr ⟨differs, mounted⟩⟩ fun isCut => cut isCut _
    · exact .pure ⟨isDiff, .inl ⟨.refl, .inr (by simpa using isAbsent)⟩⟩

/-- A seed holds the set that is declared. -/
def SeedHolds (expected : List Entry) (seedDir : Option IndexFolder) : Prop :=
  ∃ seed, seedDir = some seed ∧ SameSet expected seed.files

theorem rebuild_meets (cut : mode = .interrupted → ∀ state, failed state)
    (nonempty : expected ≠ [])
    (isDiff : diff = getMastIndexSetMismatches expected machine.drive.entries)
    (stuck : ¬ SameSet expected machine.drive.entries →
      ¬ (machine.drive.Attached ∧ SeedHolds expected seedDir) → ∀ state, failed state) :
    Meets mode (rebuild expected seedDir diff) machine
      (fun _ after => SameSet expected after.drive.entries ∧
        (SameDisks machine after ∨
          ¬ SameSet expected machine.drive.entries ∧ after.drive = after.nextMount)) failed := by
  unfold rebuild
  refine .ite (fun isEmpty => ?_) fun differs => ?_
  · rw [isDiff, mismatches_isEmpty] at isEmpty
    exact .pure ⟨isEmpty, .inl .refl⟩
  rw [isDiff, mismatches_isEmpty] at differs
  have unready : ¬ (machine.drive.Attached ∧ SeedHolds expected seedDir) →
      ∀ state, failed state := stuck differs
  refine .require_bind (fun _ => ?_) fun noSeed => unready ?_ _
  · have foreign : machine.drive.isForeign = true → ∀ state, failed state := by
      intro isForeign
      refine unready ?_
      rintro ⟨attached, -⟩
      rw [attached.ours] at isForeign
      cases isForeign
    refine (dismountIndexDisk_meets cut foreign).bind ?_
    rintro _ detached ⟨-, isFree, -⟩
    have removes : Meets mode (ignoreErrors removeImage) detached
        (fun _ after => after.drive = detached.drive) failed := by
      have removed : Meets mode removeImage detached
          (fun _ after => after.drive = detached.drive) fun after => after.drive = detached.drive := by
        refine .change ?_ (fun _ => rfl) fun _ => rfl
        intro after isAfter
        obtain ⟨_, -, rfl⟩ := Option.map_eq_some_iff.mp isAfter
        rfl
      exact removed.ignoreErrors (fun _ => id) fun isCut _ _ => cut isCut _
    refine removes.bind fun _ cleared isCleared => ?_
    have unseeded : (∀ seed, seedDir = some seed → seed.files = []) → failed cleared := by
      intro empty
      refine unready ?_ _
      rintro ⟨-, seed, isSeed, same⟩
      exact same.nonempty nonempty (empty seed isSeed)
    refine (newSparseIndexImage_meets cut unseeded).bind ?_
    rintro _ built ⟨seed, isSeed, isImage, isDrive⟩
    have unmountable : ¬ Mountable built → ∀ state, failed state := by
      intro unmountable
      refine unready ?_
      rintro ⟨attached, -⟩
      exact unmountable
        ⟨isDrive.trans (isCleared.trans (isFree attached.visible)), _, isImage⟩
    refine (mountIndexDisk_meets cut unmountable).bind ?_
    rintro _ mounted ⟨-, keptImage, isMounted⟩
    have isNext : mounted.drive = mounted.nextMount := by
      rw [isMounted]
      simp [Machine.nextMount, keptImage]
    refine .query_bind ?_ fun isCut => cut isCut _
    refine .require (fun isEmpty => ?_) fun still => ?_
    · exact ⟨mismatches_isEmpty.mp isEmpty, .inr ⟨differs, isNext⟩⟩
    · refine unready ?_ _
      rintro ⟨-, other, isOther, same⟩
      obtain rfl := Option.some.inj (isSeed.symm.trans isOther)
      have holds : mounted.drive.entries = seed.files := by
        simp [isMounted, Machine.nextMount, isImage, Drive.entries, Disk.entries]
      rw [holds, mismatches_isEmpty.mpr same] at still
      cases still
  · rintro ⟨-, seed, isSeed, -⟩
    rw [isSeed] at noSeed
    cases noSeed

/-- The provider ends with the set at `D:` that is declared, and a `D:` it changed is
mounted from the image. -/
theorem converge_meets (cut : mode = .interrupted → ∀ state, failed state)
    (nonempty : expected ≠ [])
    (stuck : ¬ SameSet expected machine.drive.entries →
      ¬ (machine.drive.Attached ∧ (∃ volume, machine.image = some (.formatted volume)) ∧
        SeedHolds expected seedDir) → ∀ state, failed state) :
    Meets mode (converge expected seedDir) machine
      (fun _ after => SameSet expected after.drive.entries ∧
        (SameDisks machine after ∨ ¬ SameSet expected machine.drive.entries ∧
          machine.image ≠ some .raw ∧ after.drive = after.nextMount)) failed := by
  unfold converge
  refine .ite (fun isEmpty => absurd (List.isEmpty_iff.mp isEmpty) nonempty) fun _ => ?_
  refine .query_bind ?_ fun isCut => cut isCut _
  have remounts := remount_meets cut rfl fun differs unmounted =>
    stuck differs fun ⟨attached, formatted, _⟩ => unmounted ⟨attached, formatted⟩
  refine remounts.bind ?_
  rintro diff mounted ⟨isDiff, ⟨kept, sameOrAbsent⟩ | ⟨differs, ⟨volume, isImage⟩, keptImage, isDrive⟩⟩
  · refine (rebuild_meets cut nonempty isDiff ?_).mono ?_ fun _ => id
    · intro differs unready
      rw [kept.drive] at differs
      refine stuck differs ?_
      rintro ⟨attached, -, seedHolds⟩
      exact unready ⟨kept.drive ▸ attached, seedHolds⟩
    · rintro _ after ⟨same, disks | ⟨differs, isNext⟩⟩
      · exact ⟨same, .inl (kept.trans disks)⟩
      · rw [kept.drive] at differs
        refine ⟨same, .inr ⟨differs, ?_, isNext⟩⟩
        rw [sameOrAbsent.resolve_left differs]
        simp
  · have isAttached : mounted.drive.Attached :=
      ⟨volume, by simp [isDrive, Machine.nextMount, isImage]⟩
    refine (rebuild_meets cut nonempty isDiff ?_).mono ?_ fun _ => id
    · intro _ unready
      refine stuck differs ?_
      rintro ⟨-, -, seedHolds⟩
      exact unready ⟨isAttached, seedHolds⟩
    · rintro _ after ⟨same, disks | ⟨-, isNext⟩⟩
      · refine ⟨same, .inr ⟨differs, by simp [isImage], ?_⟩⟩
        simp [disks.drive, isDrive, Machine.nextMount, disks.image, keptImage]
      · exact ⟨same, .inr ⟨differs, by simp [isImage], isNext⟩⟩

/-- The image after one that is missing has been built. -/
def builtImage (seedDir : Option IndexFolder) : Option Disk → Option Disk
  | some disk => some disk
  | none => seedDir.map fun seed => .formatted ⟨indexSubdir, seed⟩

theorem buildMissingImage_meets (cut : mode = .interrupted → ∀ state, failed state)
    (stuck : (∃ seed, seedDir = some seed ∧ seed.files = []) → failed machine) :
    Meets mode (buildMissingImage seedDir) machine
      (fun _ after => after.image = builtImage seedDir machine.image ∧
        after.drive = machine.drive) failed := by
  refine .query_bind ?_ fun isCut => cut isCut _
  refine .ite (fun isPresent => ?_) fun isAbsent => ?_
  · obtain ⟨disk, isImage⟩ := Option.isSome_iff_exists.mp isPresent
    exact .pure ⟨by simp [isImage, builtImage], rfl⟩
  have isNone : machine.image = none := by simpa using isAbsent
  refine .ite (fun isSome => ?_) fun noSeed => ?_
  · obtain ⟨seed, isSeed⟩ := Option.isSome_iff_exists.mp isSome
    have unseeded : (∀ seed, seedDir = some seed → seed.files = []) → failed machine :=
      fun empty => stuck ⟨seed, isSeed, empty seed isSeed⟩
    refine (newSparseIndexImage_meets cut unseeded).mono ?_ fun _ => id
    rintro _ after ⟨seed, isSeed, isImage, isDrive⟩
    exact ⟨by simp [isNone, isSeed, isImage, builtImage], isDrive⟩
  · have isAbsent : seedDir = none := by simpa using noSeed
    exact .pure ⟨by simp [isNone, isAbsent, builtImage], rfl⟩

end Commands

section Runs

/-- A run with the digest of a build, which declares at least one file. -/
structure Payload.Declares (payload : Payload) (declared : List Entry) : Prop where
  given : payload.indexSetDigest ≠ ""
  nonempty : declared ≠ []
  staged : ∃ manifest, payload.manifest = some manifest ∧
    foldCase manifest.digest = foldCase payload.indexSetDigest ∧ manifest.files = declared

/-- A seed that is staged holds the declared set. -/
def SeedFits (declared : List Entry) (seedDir : Option IndexFolder) : Prop :=
  ∀ seed, seedDir = some seed → SameSet declared seed.files

theorem SeedHolds.fits {declared : List Entry} {seedDir : Option IndexFolder}
    (holds : SeedHolds declared seedDir) : SeedFits declared seedDir := by
  obtain ⟨seed, isSeed, same⟩ := holds
  rintro other isOther
  obtain rfl := Option.some.inj (isSeed.symm.trans isOther)
  exact same

variable {mode : Mode} {failed : Machine → Prop} {machine : Machine} {payload : Payload}
  {declared : List Entry}

theorem readDeclaredSet_meets (declares : payload.Declares declared)
    (cut : mode = .interrupted → ∀ state, failed state)
    (stuck : ¬ SeedFits declared payload.seed → ∀ state, failed state) :
    Meets mode (readDeclaredSet payload) machine
      (fun expected after => expected = declared ∧ SeedFits declared payload.seed ∧
        SameDisks machine after) failed := by
  obtain ⟨given, -, manifest, isManifest, sameDigest, isDeclared⟩ := declares
  have checks : Meets mode (checkSeed manifest payload.seed) machine
      (fun _ after => SeedFits declared payload.seed ∧ SameDisks machine after) failed := by
    cases isSeed : payload.seed with
    | none => exact .pure ⟨by simp [SeedFits], .refl⟩
    | some seed =>
      refine .require_bind (fun fits => .update ?_) fun differs => stuck ?_ _
      · rw [mismatches_isEmpty, isDeclared] at fits
        refine ⟨?_, rfl, rfl⟩
        rintro _ ⟨⟩
        exact fits
      · intro fits
        have same := fits seed isSeed
        rw [← isDeclared, ← mismatches_isEmpty, differs] at same
        cases same
  unfold readDeclaredSet
  refine .ite (fun missing => absurd missing given) fun _ => ?_
  refine .expect_bind (fun other isOther => ?_) fun isNone => ?_
  · obtain rfl := Option.some.inj (isManifest.symm.trans isOther)
    refine .require_bind (fun _ => ?_) fun differs => ?_
    · refine checks.bind fun _ after ⟨fits, disks⟩ => ?_
      let installed : Unit → Machine → Prop := fun _ => SameDisks machine
      have installs : Meets mode (change "Copy-Item" fun machine =>
          some { machine with installedManifest := some manifest }) after installed failed := by
        refine .change ?_ (by simp) fun isCut => cut isCut _
        rintro _ ⟨⟩
        exact ⟨disks.image, disks.drive⟩
      exact installs.bind fun _ _ disks => .pure ⟨isDeclared, fits, disks⟩
    · simp [sameDigest] at differs
  · rw [isManifest] at isNone
    cases isNone

/-- `D:` holds exactly the declared names and sizes. -/
def Drive.Holds (declared : List Entry) (drive : Drive) : Prop :=
  SameSet declared drive.entries

/-- What a run starts with that can mount the image and build it. -/
structure Ready (declared : List Entry) (payload : Payload) (machine : Machine) : Prop where
  seed : SeedHolds declared payload.seed
  ours : machine.drive.isForeign = false
  image : machine.image ≠ some .raw
  drive : machine.drive = .free ∨ machine.drive.carriesIndexVolume = true

/-- The run leaves the mount at `D:` as it finds it. -/
def LeavesDrive (payload : Payload) (machine : Machine) : Prop :=
  match machine.image with
  | none => payload.seed = none
  | some _ => machine.drive.carriesIndexVolume = true

/-- `D:` is left as it is and holds the declared set already. -/
structure Untouched (declared : List Entry) (payload : Payload) (machine : Machine) : Prop where
  fits : SeedFits declared payload.seed
  leaves : LeavesDrive payload machine
  holds : machine.drive.Holds declared

/-- How a run ends that gets through. -/
structure Ended (declared : List Entry) (payload : Payload) (machine after : Machine) : Prop where
  holds : SameSet declared after.drive.entries
  fits : SeedFits declared payload.seed
  passed : builtImage payload.seed machine.image = none ∨ machine.drive = .free ∨
    machine.drive.carriesIndexVolume = true
  disks : (after.image = builtImage payload.seed machine.image ∧ after.drive = machine.drive ∧
      (builtImage payload.seed machine.image = none ∨ machine.drive.carriesIndexVolume = true)) ∨
    ¬ machine.drive.Holds declared ∧ builtImage payload.seed machine.image ≠ some .raw ∧
      after.drive = after.nextMount

theorem Drive.attached_of_carries {drive : Drive} (ours : drive.isForeign = false)
    (carries : drive.carriesIndexVolume = true) : drive.Attached := by
  cases drive with
  | free => cases carries
  | device driveType disk => cases ours
  | imdisk disk =>
    cases disk with
    | raw => exact absurd carries (by decide)
    | formatted volume => exact ⟨volume, rfl⟩

/-- A run that is ready finds an image it can read, or builds one. -/
theorem Ready.formatted (ready : Ready declared payload machine) :
    ∃ volume, builtImage payload.seed machine.image = some (.formatted volume) := by
  obtain ⟨seed, isSeed, -⟩ := ready.seed
  cases isImage : machine.image with
  | none => exact ⟨_, by rw [isSeed]; rfl⟩
  | some disk =>
    cases disk with
    | raw => exact absurd isImage ready.image
    | formatted volume => exact ⟨volume, rfl⟩

theorem LeavesDrive.skips {built : Machine} (leaves : LeavesDrive payload machine)
    (isImage : built.image = builtImage payload.seed machine.image)
    (isDrive : built.drive = machine.drive) : SkipsMount built := by
  unfold LeavesDrive at leaves
  split at leaves
  · rename_i isNone
    exact .inl (by rw [isImage, isNone, leaves]; rfl)
  · exact .inr (isDrive ▸ leaves)

theorem provideBody_meets (declares : payload.Declares declared)
    (cut : mode = .interrupted → ∀ state, failed state)
    (stuck : ¬ (Ready declared payload machine ∨ Untouched declared payload machine) →
      ∀ state, failed state) :
    Meets mode (provideBody payload) machine
      (fun _ after => Ended declared payload machine after) failed := by
  unfold provideBody
  have misfits : ¬ SeedFits declared payload.seed → ∀ state, failed state := by
    refine fun misfits => stuck ?_
    rintro (ready | untouched)
    · exact misfits ready.seed.fits
    · exact misfits untouched.fits
  refine (readDeclaredSet_meets declares cut misfits).bind ?_
  rintro expected read ⟨isExpected, fits, disks⟩
  obtain rfl := isExpected.symm
  have unseeded : (∃ seed, payload.seed = some seed ∧ seed.files = []) → failed read := by
    rintro ⟨seed, isSeed, empty⟩
    exact absurd empty ((fits seed isSeed).nonempty declares.nonempty)
  refine (buildMissingImage_meets cut unseeded).bind ?_
  rintro _ built ⟨isImage, isDrive⟩
  rw [disks.image] at isImage
  rw [disks.drive] at isDrive
  have unmounted : ¬ SkipsMount built → ¬ Mountable built → ∀ state, failed state := by
    intro unskipped unmountable
    refine stuck ?_
    rintro (ready | untouched)
    · obtain ⟨volume, isFormatted⟩ := ready.formatted
      rcases ready.drive with isFree | carries
      · exact unmountable ⟨isDrive.trans isFree, volume, isImage.trans isFormatted⟩
      · exact unskipped (.inr (isDrive ▸ carries))
    · exact unskipped (untouched.leaves.skips isImage isDrive)
  refine (immediateMount_meets cut unmounted).bind ?_
  rintro _ mounted (⟨kept, skips⟩ | ⟨⟨isFree, volume, isFormatted⟩, keptImage, isMounted⟩)
  · have isMounted : mounted.image = builtImage payload.seed machine.image :=
      kept.image.trans isImage
    have sameDrive : mounted.drive = machine.drive := kept.drive.trans isDrive
    have passed : builtImage payload.seed machine.image = none ∨
        machine.drive.carriesIndexVolume = true :=
      skips.imp isImage.symm.trans fun carries => isDrive ▸ carries
    refine (converge_meets cut declares.nonempty ?_).mono ?_ fun _ => id
    · intro differs unready
      refine stuck ?_
      rintro (ready | untouched)
      · obtain ⟨volume, isFormatted⟩ := ready.formatted
        have carries := passed.resolve_left (by simp [isFormatted])
        exact unready ⟨sameDrive ▸ Drive.attached_of_carries ready.ours carries,
          ⟨volume, isMounted.trans isFormatted⟩, ready.seed⟩
      · exact differs (sameDrive ▸ untouched.holds)
    · rintro _ after ⟨same, disks | ⟨differs, notRaw, isNext⟩⟩
      · exact ⟨same, fits, passed.imp_right .inr, .inl
          ⟨disks.image.trans isMounted, disks.drive.trans sameDrive, passed⟩⟩
      · exact ⟨same, fits, passed.imp_right .inr, .inr
          ⟨sameDrive ▸ differs, isMounted ▸ notRaw, isNext⟩⟩
  · have isBuilt : builtImage payload.seed machine.image = some (.formatted volume) :=
      isImage.symm.trans isFormatted
    have wasFree : machine.drive = .free := isDrive.symm.trans isFree
    have readable : builtImage payload.seed machine.image ≠ some .raw := by simp [isBuilt]
    have isAttached : mounted.drive.Attached :=
      ⟨volume, by simp [isMounted, Machine.nextMount, isFormatted]⟩
    have heldNothing : ¬ machine.drive.Holds declared := by
      rw [wasFree]
      exact not_sameSet_nil declares.nonempty
    refine (converge_meets cut declares.nonempty ?_).mono ?_ fun _ => id
    · intro _ unready
      refine stuck ?_
      rintro (ready | untouched)
      · exact unready ⟨isAttached, ⟨volume, keptImage.trans isFormatted⟩, ready.seed⟩
      · exact heldNothing untouched.holds
    · rintro _ after ⟨same, disks | ⟨-, -, isNext⟩⟩
      · refine ⟨same, fits, .inr (.inl wasFree), .inr ⟨heldNothing, readable, ?_⟩⟩
        simp [disks.drive, isMounted, Machine.nextMount, disks.image, keptImage]
      · exact ⟨same, fits, .inr (.inl wasFree), .inr ⟨heldNothing, readable, isNext⟩⟩

/-- The exit code is 0 exactly when the provider gets to its end. -/
theorem provideImdisk_zero {faults : List Fault} {world : World Machine} :
    provideImdisk payload ⟨machine, faults⟩ = (.done 0, world) ↔
      provideBody payload ⟨{ machine with steps := [] }, faults⟩ = (.done (), world) := by
  change catching (andThen (provideBody payload) fun _ => done 0) (fun _ => done 1)
    ⟨{ machine with steps := [] }, faults⟩ = _ ↔ _
  unfold catching andThen
  rcases provideBody payload ⟨{ machine with steps := [] }, faults⟩ with ⟨_ | _ | _, after⟩ <;>
    simp [done]

/-- A run that ends with exit code 0, wherever calls of it failed. -/
theorem ended_of_zero (declares : payload.Declares declared) {faults : List Fault}
    {world : World Machine}
    (isZero : provideImdisk payload ⟨machine, faults⟩ = (.done 0, world)) :
    Ended declared payload machine world.state := by
  have specified : Meets .interrupted (provideBody payload) { machine with steps := [] }
      (fun _ after => Ended declared payload { machine with steps := [] } after)
      fun _ => True :=
    provideBody_meets declares (fun _ _ => trivial) fun _ _ => trivial
  have ended := specified faults trivial
  rw [provideImdisk_zero.mp isZero] at ended
  exact ⟨ended.1.holds, ended.1.fits, ended.1.passed, ended.1.disks⟩

/-- A run whose calls all succeed and that can go on ends with exit code 0. -/
theorem zero_of_ready (declares : payload.Declares declared)
    (goesOn : Ready declared payload machine ∨ Untouched declared payload machine) :
    ∃ world, provideImdisk payload ⟨machine, []⟩ = (.done 0, world) := by
  let begun : Machine := { machine with steps := [] }
  have stillGoesOn : Ready declared payload begun ∨ Untouched declared payload begun :=
    goesOn.imp (fun ready => ⟨ready.seed, ready.ours, ready.image, ready.drive⟩)
      fun untouched => ⟨untouched.fits, untouched.leaves, untouched.holds⟩
  have specified : Meets .reliable (provideBody payload) begun
      (fun _ after => Ended declared payload begun after) fun _ => False :=
    provideBody_meets declares (fun isCut => by cases isCut) fun stuck => absurd stillGoesOn stuck
  have ended := specified [] rfl
  rcases result : provideBody payload ⟨begun, []⟩ with ⟨_ | _ | _, world⟩ <;>
    rw [result] at ended
  · exact ⟨world, provideImdisk_zero.mpr result⟩
  · exact ended.1.elim
  · exact absurd ended.1 (by decide)

end Runs

section Convergence

/-- What the provider is for, from one state of the unit. -/
structure Converges (payload : Payload) (machine : Machine) : Prop where
  /-- A run whose calls all succeed ends with the declared set at `D:`. -/
  settles : ∀ declared, payload.Declares declared → SeedHolds declared payload.seed →
    machine.drive.isForeign = false →
    ∃ after, (provideImdisk payload).run machine = (.done 0, after) ∧ after.drive.Holds declared
  /-- A run that exits 0, whatever failed in it, leaves an image that holds the set. -/
  lasts : ∀ declared, payload.Declares declared → ∀ faults world,
    provideImdisk payload ⟨machine, faults⟩ = (.done 0, world) →
      world.state.nextMount.Holds declared
  /-- An image is removed only after the seed was checked, wherever the run is cut off. -/
  guarded : ∀ faults,
    Guarded payload machine.image (provideImdisk payload ⟨machine, faults⟩).2.state

/-- The states a run converges from. -/
structure Recoverable (payload : Payload) (machine : Machine) : Prop where
  /-- The image is not one that was made and never formatted, and `D:` is free or
  carries the index volume. -/
  mountable : ∀ declared, payload.Declares declared → SeedHolds declared payload.seed →
    machine.drive.isForeign = false → machine.image ≠ some .raw ∧
      (machine.drive = .free ∨ machine.drive.carriesIndexVolume = true)
  /-- A `D:` that is left as it is does not hide an image that differs. -/
  unhidden : ∀ declared, payload.Declares declared → SeedFits declared payload.seed →
    LeavesDrive payload machine → machine.drive.Holds declared →
      machine.nextMount.Holds declared

variable {payload : Payload} {machine : Machine}

theorem Recoverable.converges (recoverable : Recoverable payload machine) :
    Converges payload machine where
  settles declared declares seed ours := by
    obtain ⟨readable, drive⟩ := recoverable.mountable declared declares seed ours
    obtain ⟨world, isZero⟩ := zero_of_ready declares (.inl ⟨seed, ours, readable, drive⟩)
    refine ⟨world.state, ?_, (ended_of_zero declares isZero).holds⟩
    unfold Command.run
    rw [isZero]
  lasts declared declares faults world isZero := by
    obtain ⟨holds, fits, passed, disks⟩ := ended_of_zero declares isZero
    rcases disks with ⟨isImage, isDrive, leaves⟩ | ⟨-, -, isNext⟩
    · rw [isDrive] at holds
      cases hadImage : machine.image with
      | none =>
        cases isSeed : payload.seed with
        | none =>
          have next := recoverable.unhidden declared declares fits
            (by simp [LeavesDrive, hadImage, isSeed]) holds
          simpa [Machine.nextMount, isImage, hadImage, isSeed, builtImage] using next
        | some seed =>
          have isNext : world.state.nextMount = .imdisk (.formatted ⟨indexSubdir, seed⟩) := by
            simp [Machine.nextMount, isImage, hadImage, isSeed, builtImage]
          rw [isNext]
          exact fits seed isSeed
      | some disk =>
        have carries := leaves.resolve_left (by simp [hadImage, builtImage])
        have next := recoverable.unhidden declared declares fits
          (by simpa [LeavesDrive, hadImage] using carries) holds
        simpa [Machine.nextMount, isImage, hadImage, builtImage] using next
    · exact isNext ▸ holds
  guarded := provideImdisk_guarded payload machine

theorem Converges.recoverable (converges : Converges payload machine) :
    Recoverable payload machine where
  mountable declared declares seed ours := by
    obtain ⟨after, isRun, -⟩ := converges.settles declared declares seed ours
    obtain ⟨world, isZero, rfl⟩ : ∃ world, provideImdisk payload ⟨machine, []⟩ = (.done 0, world) ∧
        world.state = after := by
      unfold Command.run at isRun
      rcases result : provideImdisk payload ⟨machine, []⟩ with ⟨outcome, world⟩
      rw [result] at isRun
      obtain ⟨rfl, rfl⟩ := Prod.mk.inj isRun
      exact ⟨world, rfl, rfl⟩
    obtain ⟨holds, -, passed, disks⟩ := ended_of_zero declares isZero
    have isBuilt : builtImage payload.seed machine.image ≠ none := by
      obtain ⟨staged, isSeed, -⟩ := seed
      cases machine.image <;> simp [builtImage, isSeed]
    refine ⟨fun isRaw => ?_, passed.resolve_left isBuilt⟩
    rw [isRaw] at disks
    rcases disks with ⟨isImage, -⟩ | ⟨-, notRaw, -⟩
    · -- An image that is never formatted does not hold the set.
      have next := converges.lasts declared declares [] world isZero
      have isNext : world.state.nextMount = .imdisk .raw := by
        simp [Machine.nextMount, isImage, builtImage]
      rw [isNext] at next
      exact not_sameSet_nil declares.nonempty next
    · exact notRaw rfl
  unhidden declared declares fits leaves holds := by
    obtain ⟨world, isZero⟩ := zero_of_ready declares (.inr ⟨fits, leaves, holds⟩)
    have next := converges.lasts declared declares [] world isZero
    have sameImage : builtImage payload.seed machine.image = machine.image := by
      unfold LeavesDrive at leaves
      cases isImage : machine.image with
      | none =>
        rw [isImage] at leaves
        simp [builtImage, leaves]
      | some disk => rfl
    rcases (ended_of_zero declares isZero).disks with ⟨isImage, -⟩ | ⟨differs, -⟩
    · simpa [Machine.nextMount, isImage, sameImage] using next
    · exact absurd holds differs

/-- The index disk converges exactly from the states where the image can be read, `D:`
is free or the index volume's, and a `D:` that holds the set does not hide the image. -/
theorem index_disk_converges_iff (payload : Payload) (machine : Machine) :
    Converges payload machine ↔ Recoverable payload machine :=
  ⟨Converges.recoverable, Recoverable.converges⟩

/-- A payload with one index file. -/
def indexPayload : Payload where
  indexSetDigest := "8C"
  manifest := some ⟨"8C", [("index-5202-00.fits", 3)]⟩
  seed := some ⟨[("index-5202-00.fits", 3)], List.nodup_singleton _⟩

/-- A unit without an image whose first run ended between making the file and
formatting it. -/
def cutOffUnit : Machine :=
  (provideImdisk indexPayload
    ⟨⟨none, .free, none, []⟩, List.replicate 7 .none ++ [.kill]⟩).2.state

/-- The next run of that unit finds an image and cannot mount it, though it has the
seed to build it again. -/
theorem cutOffUnit_stuck :
    ((provideImdisk indexPayload).run cutOffUnit).1 = .done 1 ∧
      ¬ Converges indexPayload cutOffUnit := by
  have exits : ((provideImdisk indexPayload).run cutOffUnit).1 = .done 1 := by decide +kernel
  refine ⟨exits, fun converges => ?_⟩
  have declares : indexPayload.Declares [("index-5202-00.fits", 3)] :=
    ⟨by decide, by decide, _, rfl, rfl, rfl⟩
  obtain ⟨after, isRun, -⟩ :=
    converges.settles _ declares ⟨_, rfl, fun _ => rfl⟩ (by decide +kernel)
  rw [isRun] at exits
  cases exits

end Convergence

end MastProvisioning.Unit.IndexDisk
