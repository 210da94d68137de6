import Mathlib.Logic.Function.Basic
import MastProvisioning.PowerShell.Text
import MastProvisioning.Semantics.System

/-!
# NoMachine certificates and their allocation file

A build reads `allocated.csv` when it starts, stages the certificate of its host or
the first free one, and writes the rows it read back at its end, with its own row
added. Builds for different hosts share the file and the name of its temporary
copy, and nothing keeps them apart.
-/

namespace MastProvisioning.Build

open MastProvisioning.Semantics MastProvisioning.PowerShell

/-- Two names are one to Windows. -/
abbrev SameName (fold : Char → Char) (name other : String) : Prop :=
  foldText fold name = foldText fold other

/-- A row of `allocated.csv`. -/
structure AllocRow where
  license : String
  host : String
deriving DecidableEq, Repr

/-- `Import-AllocCsv`; there is no file before the first build. -/
def importAllocCsv (csv : Option (List AllocRow)) : List AllocRow :=
  csv.getD []

/-- `$allocRows += row`. A file of exactly one row is read as that row and not as a
list, and adding to it raises. -/
def addAllocRow (rows : List AllocRow) (row : AllocRow) : Option (List AllocRow) :=
  if rows.length = 1 then none else some (rows ++ [row])

/-- What a build was started with. -/
structure BuildOptions where
  hostName : String
  /-- `$Modules -contains 'nomachine'`. -/
  nomachine : Bool
  allowMissing : Bool
deriving DecidableEq, Repr

/-- What the certificate store and the disk answer a build. -/
structure StoreAnswers where
  /-- The certificate of the host's row is in the store. -/
  present : Bool
  /-- `Assert-MastNoMachineCertIsShippable` does not throw. -/
  shippable : Bool
  copied : Bool
deriving DecidableEq, Repr

/-- What the license block comes to: the rows to write back, the row it added to
them, and what it staged. -/
structure Licensed where
  rows : List AllocRow
  fresh : Option AllocRow
  staged : Option AllocRow
deriving DecidableEq, Repr

/-- `$allLicFiles`, of the listing of the vault in name order. -/
def allLicFiles (listing : List String) : List String :=
  listing.filter (likeSuffix Char.toLower ".lic")

section License

variable (fold : Char → Char)

/-- The row of a host. -/
def existingRow (rows : List AllocRow) (hostName : String) : Option AllocRow :=
  rows.find? fun row => SameName fold row.host hostName

/-- The first certificate no row names. -/
def freeLicense (rows : List AllocRow) (licFiles : List String) : Option String :=
  let allocatedNames := (rows.map AllocRow.license).filter (· ≠ "")
  licFiles.find? fun name => !allocatedNames.any fun other => SameName fold other name

/-- The license block of a build; `none` when it throws. -/
def licenseBlock (options : BuildOptions) (rows : List AllocRow) (licFiles : List String)
    (answers : StoreAnswers) : Option Licensed :=
  if options.nomachine then
    match existingRow fold rows options.hostName with
    | some existing =>
      if answers.present then
        if answers.shippable && answers.copied then
          some ⟨rows, none, some ⟨existing.license, options.hostName⟩⟩
        else none
      else if options.allowMissing then some ⟨rows, none, none⟩
      else none
    | none =>
      match freeLicense fold rows licFiles with
      | none => some ⟨rows, none, none⟩
      | some free =>
        if answers.shippable then
          match addAllocRow rows ⟨free, options.hostName⟩ with
          | some more =>
            if answers.copied then
              some ⟨more, some ⟨free, options.hostName⟩, some ⟨free, options.hostName⟩⟩
            else none
          | none => none
        else none
  else some ⟨rows, none, none⟩

end License

/-- How far a build has got. -/
inductive BuildPhase
  | waiting
  /-- It has read the file and listed the store. -/
  | read (rows : List AllocRow) (listing : List String)
  /-- It is past the license block. -/
  | licensed (rows : List AllocRow) (fresh : Option AllocRow)
  /-- It has written the temporary file. -/
  | exported (rows : List AllocRow) (fresh : Option AllocRow)
  | ended
deriving DecidableEq, Repr

/-- A build between its start and its end. -/
def BuildPhase.running : BuildPhase → Bool
  | .waiting | .ended => false
  | _ => true

/-- `$allocRows` of a build. -/
def BuildPhase.rows : BuildPhase → List AllocRow
  | .read rows _ | .licensed rows _ | .exported rows _ => rows
  | _ => []

/-- The row a build added and has not written back. -/
def BuildPhase.fresh? : BuildPhase → Option AllocRow
  | .licensed _ fresh | .exported _ fresh => fresh
  | _ => none

/-- The shared file, its temporary copy, the builds, and what they staged. -/
structure AllocState (Process : Type) where
  csv : Option (List AllocRow)
  tmp : Option (List AllocRow)
  phase : Process → BuildPhase
  /-- Every certificate staged so far, with the host it was staged for. -/
  staged : List AllocRow

/-- What a build does next. -/
inductive AllocLabel (Process : Type)
  | start (process : Process) (listing : List String)
  | license (process : Process) (answers : StoreAnswers)
  /-- `Export-Csv`, or the rewriting of its output. -/
  | writeTmp (process : Process)
  | move (process : Process)
  /-- The build throws anywhere else, or is stopped. -/
  | fail (process : Process)

section Steps

variable {Process : Type} [DecidableEq Process] (fold : Char → Char)
  (plan : Process → BuildOptions)

/-- A build moves on. -/
def AllocState.enter (state : AllocState Process) (process : Process) (phase : BuildPhase) :
    AllocState Process :=
  { state with phase := Function.update state.phase process phase }

@[simp] theorem AllocState.enter_csv (state : AllocState Process) (process : Process)
    (phase : BuildPhase) : (state.enter process phase).csv = state.csv := rfl

@[simp] theorem AllocState.enter_tmp (state : AllocState Process) (process : Process)
    (phase : BuildPhase) : (state.enter process phase).tmp = state.tmp := rfl

@[simp] theorem AllocState.enter_staged (state : AllocState Process) (process : Process)
    (phase : BuildPhase) : (state.enter process phase).staged = state.staged := rfl

@[simp] theorem AllocState.enter_phase (state : AllocState Process) (process : Process)
    (phase : BuildPhase) (other : Process) :
    (state.enter process phase).phase other =
      if other = process then phase else state.phase other := by
  simp [AllocState.enter, Function.update_apply]

/-- One step of a build. -/
def allocNext (state : AllocState Process) : AllocLabel Process → AllocState Process
  | .start process listing =>
    state.enter process (.read (importAllocCsv state.csv) listing)
  | .license process answers =>
    match state.phase process with
    | .read rows listing =>
      match licenseBlock fold (plan process) rows (allLicFiles listing) answers with
      | some licensed =>
        { state.enter process (.licensed licensed.rows licensed.fresh) with
          staged := state.staged ++ licensed.staged.toList }
      | none => state.enter process .ended
    | _ => state
  | .writeTmp process =>
    match state.phase process with
    | .licensed rows fresh | .exported rows fresh =>
      -- Without a row there is nothing to export, and Export-Csv throws.
      if rows = [] then state.enter process .ended
      else { state.enter process (.exported rows fresh) with tmp := some rows }
    | _ => state
  | .move process =>
    match state.tmp with
    | some rows => { state.enter process .ended with csv := some rows, tmp := none }
    | none => state.enter process .ended
  | .fail process => state.enter process .ended

/-- Which steps a build may take; two builds at a time are for different hosts. -/
def AllocEnabled (state : AllocState Process) : AllocLabel Process → Prop
  | .start process _ => state.phase process = .waiting ∧
      ∀ other, (state.phase other).running = true →
        ¬ SameName fold (plan other).hostName (plan process).hostName
  | .license process _ => ∃ rows listing, state.phase process = .read rows listing
  | .writeTmp process => ∃ rows fresh,
      state.phase process = .licensed rows fresh ∨ state.phase process = .exported rows fresh
  | .move process => ∃ rows fresh, state.phase process = .exported rows fresh
  | .fail process => (state.phase process).running = true

/-- Each certificate and each host occurs at most once. -/
def OncePerName (rows : List AllocRow) : Prop :=
  rows.Pairwise fun row other =>
    ¬ SameName fold row.license other.license ∧ ¬ SameName fold row.host other.host

/-- Before any build has started. -/
def AllocInitial (state : AllocState Process) : Prop :=
  (∀ process, state.phase process = .waiting) ∧ state.staged = [] ∧
    OncePerName fold (importAllocCsv state.csv)

/-- The builds that share the allocation file. -/
def allocation : System (AllocState Process) (AllocLabel Process) where
  Initial := AllocInitial fold
  Enabled := AllocEnabled fold plan
  next := allocNext fold plan

end Steps

end MastProvisioning.Build
