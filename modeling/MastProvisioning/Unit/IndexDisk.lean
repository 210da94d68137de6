import MastProvisioning.Collections.OrderedDict
import MastProvisioning.PowerShell.Text
import MastProvisioning.Semantics.Command

/-!
# The index disk of a unit

The imdisk provider keeps an image file with the astrometry index files and mounts it
at `D:`. Under `-t vm` the mount is a copy of the image in memory, so that the two may
differ. The image is built from the staged seed: a sparse file is made, mounted at a
scratch letter, formatted and filled. What is written to the scratch mount is written
to the image, and a run that is cut off leaves what it has written.

Each call of the provider can fail or be the last one of its run. `steps` is not read
by the provider; the safety of its runs is stated with it.
-/

namespace MastProvisioning.Unit.IndexDisk

open Collections PowerShell Semantics Semantics.Command

/-- An index file: its name and its size. -/
abbrev Entry := String × Nat

/-- `@{}` filled from entries; its keys ignore case. -/
def sizes (entries : List Entry) : List Entry :=
  OrderedDict.setAll foldCase [] entries

/-- The files of a folder; the file system ignores the case of a name. -/
structure IndexFolder where
  files : List Entry
  distinct : OrderedDict.Distinct foldCase files

namespace IndexFolder

def empty : IndexFolder := ⟨[], OrderedDict.distinct_nil⟩

def write (folder : IndexFolder) (file : Entry) : IndexFolder where
  files := OrderedDict.set foldCase folder.files file.1 file.2
  distinct := folder.distinct.set file.1 file.2

end IndexFolder

/-- `IndexSubdir`, both the label of the index volume and its folder. -/
def indexSubdir : String := "mast-indexes"

/-- A file system: its label, and the files of its index folder. -/
structure Volume where
  label : String
  indexes : IndexFolder

/-- What a block device holds. -/
inductive Disk
  | raw
  | formatted (volume : Volume)

namespace Disk

/-- Whether the device is yet to be formatted. -/
def isRaw : Disk → Bool
  | raw => true
  | formatted _ => false

def label : Disk → String
  | raw => ""
  | formatted volume => volume.label

/-- `Get-MastIndexFolderEntries`. -/
def entries : Disk → List Entry
  | raw => []
  | formatted volume => volume.indexes.files

def write (file : Entry) : Disk → Option Disk
  | raw => none
  | formatted volume => some (formatted { volume with indexes := volume.indexes.write file })

end Disk

/-- What is at `D:`. -/
inductive Drive
  | free
  /-- ImDisk, attached from the image. -/
  | imdisk (disk : Disk)
  /-- Another device, of a `DriveType` of its own. -/
  | device (driveType : Nat) (disk : Disk)

/-- A row of `Win32_LogicalDisk`. -/
structure LogicalDisk where
  driveType : Nat
  volumeName : String

namespace Drive

/-- The row of `D:`; ImDisk's disks are fixed ones. -/
def logicalDisk? : Drive → Option LogicalDisk
  | free => none
  | imdisk disk => some ⟨3, disk.label⟩
  | device driveType disk => some ⟨driveType, disk.label⟩

/-- `Test-Path 'D:\'`: there is no root before the disk is formatted. -/
def rootVisible : Drive → Bool
  | free => false
  | imdisk disk => !disk.isRaw
  | device _ disk => !disk.isRaw

def entries : Drive → List Entry
  | free => []
  | imdisk disk => disk.entries
  | device _ disk => disk.entries

def isForeign : Drive → Bool
  | device _ _ => true
  | _ => false

end Drive

/-- What a run did that the safety of the image depends on. -/
inductive Step
  | seedMatched
  | imageRemoved
  deriving DecidableEq

/-- `mast-indexes.json` as staged: its hash, and the files it declares. -/
structure Manifest where
  digest : String
  files : List Entry

/-- A unit, as far as the provider goes. -/
structure Machine where
  image : Option Disk
  drive : Drive
  installedManifest : Option Manifest
  steps : List Step

/-- The arguments of a run and the folder it is staged in. -/
structure Payload where
  indexSetDigest : String
  manifest : Option Manifest
  seed : Option IndexFolder

/-- How a file differs from the one wanted. -/
def describeMissing (held : List Entry) (wanted : Entry) : Option String :=
  match OrderedDict.get? foldCase held wanted.1 with
  | none => some ("missing " ++ wanted.1)
  | some size =>
    if size ≠ wanted.2 then
      some ("wrong size " ++ wanted.1 ++ ": " ++ toString size ++ " bytes, expected " ++
        toString wanted.2)
    else none

def describeExtra (want : List Entry) (file : Entry) : Option String :=
  match OrderedDict.get? foldCase want file.1 with
  | none => some ("extra " ++ file.1)
  | some _ => none

/-- `Get-MastIndexSetMismatches`. -/
def getMastIndexSetMismatches (expected actual : List Entry) : List String :=
  (sizes expected).filterMap (describeMissing (sizes actual)) ++
    (sizes actual).filterMap (describeExtra (sizes expected))

/-- `${diff} -join '; '`. -/
def joinDiff (diff : List String) : String :=
  "; ".intercalate diff

def note (step : Step) : Command Machine Unit :=
  update fun machine => { machine with steps := machine.steps ++ [step] }

/-- The staged seed is checked against the manifest, if it is there. -/
def checkSeed (manifest : Manifest) : Option IndexFolder → Command Machine Unit
  | none => pure ()
  | some seed => do
    require (getMastIndexSetMismatches manifest.files seed.files).isEmpty
      ("The staged index seed differs from mast-indexes.json: " ++
        joinDiff (getMastIndexSetMismatches manifest.files seed.files))
    note .seedMatched

/-- The declared index set: the staged manifest is checked against the digest and the
staged seed against the manifest. Without a digest nothing is declared. -/
def readDeclaredSet (payload : Payload) : Command Machine (List Entry) :=
  if payload.indexSetDigest = "" then pure []
  else do
    let manifest ← expect "mast-indexes.json is not staged." payload.manifest
    require (foldCase manifest.digest = foldCase payload.indexSetDigest)
      ("mast-indexes.json hashes to " ++ manifest.digest ++ ", but the build declared " ++
        payload.indexSetDigest ++ ".")
    checkSeed manifest payload.seed
    change "Copy-Item" fun machine => some { machine with installedManifest := some manifest }
    pure manifest.files

/-- `Remove-Item` on the image. -/
def removeImage : Command Machine Unit :=
  change "Cannot find path" fun machine =>
    machine.image.map fun _ =>
      { machine with image := none, steps := machine.steps ++ [.imageRemoved] }

def removeOldImage : Command Machine Unit := do
  let present ← query fun machine => machine.image.isSome
  if present then removeImage else pure ()

def newSparseBackingFile : Command Machine Unit := do
  removeOldImage
  change "Create" fun machine => some { machine with image := some .raw }
  change "fsutil sparse setflag failed" some
  change "SetLength" some

/-- `format.com` on the scratch mount. -/
def formatScratch : Command Machine Unit :=
  change "format failed" fun machine =>
    machine.image.map fun _ =>
      { machine with image := some (.formatted ⟨indexSubdir, .empty⟩) }

/-- `robocopy` of one file to the scratch mount. -/
def copyToScratch (file : Entry) : Command Machine Unit :=
  change "robocopy of index seed failed" fun machine => do
    let disk ← machine.image
    let written ← disk.write file
    some { machine with image := some written }

def formatAndSeed (seed : IndexFolder) : Command Machine Unit := do
  formatScratch
  let surfaced ← query fun machine => machine.image.any fun disk => !disk.isRaw
  require surfaced "Scratch volume did not surface after format."
  forEach seed.files copyToScratch
  let copied ← query fun machine => (machine.image.elim [] Disk.entries)
  require (!copied.isEmpty) "No index files present after robocopy."

/-- Detach the scratch mount; its failure is only warned of. -/
def detachScratch : Command Machine Unit :=
  ignoreErrors (change "imdisk -D" some)

def newSparseIndexImage (seedDir : Option IndexFolder) : Command Machine Unit := do
  let seed ← expect "Index seed directory not found." seedDir
  require (!seed.files.isEmpty) "Index seed directory is empty; nothing to seed the image with."
  newSparseBackingFile
  change "imdisk -a -m (scratch build mount) failed" fun machine =>
    machine.image.map fun _ => machine
  lastly (formatAndSeed seed) detachScratch
  let present ← query fun machine => machine.image.isSome
  require present "Image build reported success but it is missing."

/-- The image is built when there is none; one that exists is reused as it is. -/
def buildMissingImage (seedDir : Option IndexFolder) : Command Machine Unit := do
  let present ← query fun machine => machine.image.isSome
  if present then pure ()
  else if seedDir.isSome then newSparseIndexImage seedDir
  else pure ()

/-- Attach `D:` from the image; `imdisk` needs the letter free and the image there. -/
def Machine.attach (machine : Machine) : Option Machine :=
  match machine.drive, machine.image with
  | .free, some disk => some { machine with drive := .imdisk disk }
  | _, _ => none

def mountIndexDisk : Command Machine Unit := do
  change "imdisk -a -m D: failed; the immediate mount failed." Machine.attach
  let visible ← query fun machine => machine.drive.rootVisible
  require visible "imdisk reported success but D:\\ is not visible after 2s."

/-- `imdisk -D` fails on what is not an ImDisk device. -/
def Machine.detach (machine : Machine) : Option Machine :=
  match machine.drive with
  | .imdisk _ => some { machine with drive := .free }
  | _ => none

def dismountIndexDisk : Command Machine Unit := do
  let visible ← query fun machine => machine.drive.rootVisible
  if visible then change "imdisk -D -m D: failed" Machine.detach else pure ()

/-- Whether a row of `Win32_LogicalDisk` is the index volume's. -/
def LogicalDisk.isIndexVolume (disk : LogicalDisk) : Bool :=
  disk.driveType = 3 ∧ foldCase disk.volumeName = foldCase indexSubdir

/-- `D:` as an error names it. -/
def describeDrive : Option LogicalDisk → String
  | none => "unknown device"
  | some disk =>
    "DriveType=" ++ toString disk.driveType ++ " label='" ++ disk.volumeName ++ "'"

/-- Mount `D:` unless it is mounted already; a failed look-up of `D:` finds nothing. -/
def immediateMount : Command Machine Unit := do
  let dDisk ← catching (query fun machine => machine.drive.logicalDisk?) fun _ => pure none
  let present ← query fun machine => machine.image.isSome
  if !present then pure ()
  else if dDisk.any LogicalDisk.isIndexVolume then pure ()
  else do
    let visible ← query fun machine => machine.drive.rootVisible
    if dDisk.isSome || visible then
      exit ("D: is taken by another device (" ++ describeDrive dDisk ++
        "); the MAST index RAM disk requires D:. Reassign that device's letter and re-run.")
    else mountIndexDisk

/-- How `D:` differs from the declared set. -/
def compareDrive (expected : List Entry) : Command Machine (List String) :=
  query fun machine => getMastIndexSetMismatches expected machine.drive.entries

/-- A `D:` that differs is mounted again from the image. -/
def remount (expected : List Entry) (diff : List String) : Command Machine (List String) :=
  if diff.isEmpty then pure diff
  else do
    let present ← query fun machine => machine.image.isSome
    if present then do
      dismountIndexDisk
      mountIndexDisk
      compareDrive expected
    else pure diff

/-- An image that still differs is built again from the seed. -/
def rebuild (expected : List Entry) (seedDir : Option IndexFolder) (diff : List String) :
    Command Machine Unit :=
  if diff.isEmpty then pure ()
  else do
    require seedDir.isSome
      ("D: differs from the declared index set (" ++ joinDiff diff ++
        "), and there is no staged seed to rebuild the image from.")
    dismountIndexDisk
    ignoreErrors removeImage
    newSparseIndexImage seedDir
    mountIndexDisk
    let diff ← compareDrive expected
    require diff.isEmpty
      ("D: still differs from the declared index set after a rebuild: " ++ joinDiff diff)

/-- Bring `D:` to the declared set, when one is declared. -/
def converge (expected : List Entry) (seedDir : Option IndexFolder) : Command Machine Unit :=
  if expected.isEmpty then pure ()
  else do
    let diff ← compareDrive expected
    let diff ← remount expected diff
    rebuild expected seedDir diff

/-- The provider up to its exit code. -/
def provideBody (payload : Payload) : Command Machine Unit := do
  let expected ← readDeclaredSet payload
  buildMissingImage payload.seed
  immediateMount
  converge expected payload.seed

/-- `provide-imdisk.ps1`, with its exit code. -/
def provideImdisk (payload : Payload) : Command Machine Nat := do
  update fun machine => { machine with steps := [] }
  catching (do
    provideBody payload
    pure 0) fun _ => pure 1

/-- What the next mount from the image puts at `D:`. -/
def Machine.nextMount (machine : Machine) : Drive :=
  match machine.image with
  | some disk => .imdisk disk
  | none => .free

section Comparison

/-- The size of a file among entries. -/
def size? (entries : List Entry) (name : String) : Option Nat :=
  OrderedDict.get? foldCase (sizes entries) name

/-- Two sets of entries have the same names and sizes. -/
def SameSet (expected actual : List Entry) : Prop :=
  ∀ name, size? expected name = size? actual name

theorem SameSet.symm {expected actual : List Entry} (same : SameSet expected actual) :
    SameSet actual expected :=
  fun name => (same name).symm

theorem sizes_distinct (entries : List Entry) : OrderedDict.Distinct foldCase (sizes entries) :=
  OrderedDict.distinct_nil.setAll entries

theorem size?_of_mem {entries : List Entry} {entry : Entry} (member : entry ∈ sizes entries) :
    size? entries entry.1 = some entry.2 := by
  simp [size?, OrderedDict.get?, OrderedDict.find?_of_mem (sizes_distinct entries) member]

theorem size?_congr {entries : List Entry} {name other : String}
    (same : foldCase name = foldCase other) : size? entries name = size? entries other := by
  unfold size? OrderedDict.get?
  rw [OrderedDict.find?_congr same]

theorem mem_of_size? {entries : List Entry} {name : String} {size : Nat}
    (found : size? entries name = some size) :
    ∃ entry ∈ sizes entries, foldCase entry.1 = foldCase name ∧ entry.2 = size := by
  obtain ⟨entry, isEntry, isSize⟩ := Option.map_eq_some_iff.mp found
  obtain ⟨member, sameName⟩ := OrderedDict.mem_of_find? isEntry
  exact ⟨entry, member, sameName, isSize⟩

theorem describeMissing_eq_none {actual : List Entry} {wanted : Entry} :
    describeMissing (sizes actual) wanted = none ↔ size? actual wanted.1 = some wanted.2 := by
  change describeMissing _ _ = none ↔ OrderedDict.get? foldCase (sizes actual) wanted.1 = _
  unfold describeMissing
  cases OrderedDict.get? foldCase (sizes actual) wanted.1 <;> simp

theorem describeExtra_eq_none {expected : List Entry} {file : Entry} :
    describeExtra (sizes expected) file = none ↔ size? expected file.1 ≠ none := by
  change describeExtra _ _ = none ↔ OrderedDict.get? foldCase (sizes expected) file.1 ≠ _
  unfold describeExtra
  cases OrderedDict.get? foldCase (sizes expected) file.1 <;> simp

/-- The comparison finds nothing exactly where the names and sizes are the same. -/
theorem getMastIndexSetMismatches_eq_nil {expected actual : List Entry} :
    getMastIndexSetMismatches expected actual = [] ↔ SameSet expected actual := by
  unfold getMastIndexSetMismatches
  rw [List.append_eq_nil_iff, List.filterMap_eq_nil_iff, List.filterMap_eq_nil_iff]
  constructor
  · rintro ⟨noneMissing, noneExtra⟩ name
    cases wanted : size? expected name with
    | some size =>
      obtain ⟨entry, member, sameName, rfl⟩ := mem_of_size? wanted
      rw [← size?_congr sameName]
      exact (describeMissing_eq_none.mp (noneMissing entry member)).symm
    | none =>
      cases held : size? actual name with
      | none => rfl
      | some size =>
        obtain ⟨entry, member, sameName, -⟩ := mem_of_size? held
        have known := describeExtra_eq_none.mp (noneExtra entry member)
        rw [size?_congr sameName] at known
        exact absurd wanted known
  · intro same
    constructor
    · intro entry member
      rw [describeMissing_eq_none, ← same]
      exact size?_of_mem member
    · intro entry member
      rw [describeExtra_eq_none, same, size?_of_mem member]
      simp

theorem mismatches_isEmpty {expected actual : List Entry} :
    (getMastIndexSetMismatches expected actual).isEmpty = true ↔ SameSet expected actual := by
  rw [List.isEmpty_iff, getMastIndexSetMismatches_eq_nil]

/-- Entries have the size of each of their names. -/
theorem size?_ne_none {entries : List Entry} (nonempty : entries ≠ []) :
    ∃ name, size? entries name ≠ none := by
  obtain ⟨rest, last, rfl⟩ := List.eq_nil_or_concat' entries |>.resolve_left nonempty
  refine ⟨last.1, ?_⟩
  unfold size? OrderedDict.get? sizes OrderedDict.setAll
  rw [List.foldl_append, List.foldl_cons, List.foldl_nil, OrderedDict.find?_set]
  simp

/-- Nothing is not a set that was declared. -/
theorem not_sameSet_nil {entries : List Entry} (nonempty : entries ≠ []) :
    ¬ SameSet entries [] := by
  intro same
  obtain ⟨name, isSome⟩ := size?_ne_none nonempty
  exact isSome (same name)

theorem SameSet.nonempty {expected actual : List Entry} (same : SameSet expected actual)
    (nonempty : expected ≠ []) : actual ≠ [] := by
  rintro rfl
  exact not_sameSet_nil nonempty same

end Comparison

end MastProvisioning.Unit.IndexDisk
