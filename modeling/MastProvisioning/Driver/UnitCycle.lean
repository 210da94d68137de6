import MastProvisioning.Semantics.Command
import MastProvisioning.Driver.Drift

/-!
# One unit in one cycle: what is asked and what is kept

`_process_unit` walks a sequence of phases for one unit. `Answers` holds what
comes from outside the driver while it does: what each remote call returned, or
that it raised, and what it did on the unit. `Cycle` holds what the driver keeps
(the rows of `activity.csv`, the outcomes by host name, the exit code) and what of
the unit the phases touch.
-/

namespace MastProvisioning.Driver

open MastProvisioning.Collections MastProvisioning.PowerShell MastProvisioning.Build
open MastProvisioning.Unit

/-- `EXIT_UNIT_FAIL`. -/
def exitUnitFail : Nat := 1

/-- `EXECUTE_EXIT_LEASE_HELD`. -/
def executeExitLeaseHeld : Int := 10

/-- `STAND_DOWN_SERVICES`. -/
def standDownServices : List String := ["mast-unit", "mast-pwi4", "mast-pwshutter", "mast-phd2"]

/-- `STAND_DOWN_LEGACY_SERVICES`. -/
def standDownLegacyServices : List String := ["PWI4", "PWShutter", "PHD2"]

/-- The outcome of an activity row. -/
inductive RowOutcome
  | ok
  | skip
  | skipMaintenance
  | fail
  | unreachable
  | preflightFail
  | buildFail
  | relaySyncFail
  | transferFail
  | executeFail
deriving DecidableEq, Repr

/-- A row that reports a failure of the unit. -/
def RowOutcome.isFailure : RowOutcome → Bool
  | .ok | .skip | .skipMaintenance => false
  | _ => true

/-- `fail_states` of `_finish`. -/
def RowOutcome.inFailStates : RowOutcome → Bool
  | .fail | .unreachable | .buildFail | .transferFail | .executeFail => true
  | _ => false

/-- A row of `activity.csv`. -/
structure Activity where
  unit : String
  outcome : RowOutcome
  reason : String
  payloadHash : String
  gitSha : String
deriving DecidableEq, Repr

/-- `MaintenanceWindow`. -/
structure MaintenanceWindow where
  startHour : Int
  endHour : Int
deriving DecidableEq, Repr

/-- What the driver reads of a registry entry. -/
structure UnitEntry where
  hostname : String
  maintenanceWindow : Option MaintenanceWindow
  modules : Option (List String)
  /-- A staging host is declared for the entry's site. -/
  relayed : Bool
deriving DecidableEq, Repr

/-- What a driver run was started with. -/
structure Config where
  runId : String
  provIdentity : String
  options : RunOptions
  dryRun : Bool
  maintWindowStart : Int
  maintWindowEnd : Int
  tree : ProviderTree
deriving DecidableEq, Repr

/-- `availability.json`, without its time stamps. -/
structure Availability where
  available : Bool
  reason : Option String
  leaseOwner : Option String
  payloadHash : Option String
deriving DecidableEq, Repr

/-- The availability file of a unit. -/
inductive AvailabilityFile
  | absent
  | unreadable (text : String)
  | record (availability : Availability)
deriving DecidableEq, Repr

/-- What `_set_unavailable` writes. -/
def Availability.provisioning (runId payloadHash : String) : Availability :=
  ⟨false, some "provisioning", some runId, some payloadHash⟩

/-- What `_set_available` writes. -/
def Availability.returned : Availability :=
  ⟨true, none, none, none⟩

/-- What `_release_and_archive` writes while the lease is held. -/
def Availability.released : Availability :=
  ⟨false, some "provisioning_incomplete", none, none⟩

/-- A service registered on the unit. -/
structure Service where
  name : String
  running : Bool
  /-- Its image path names `nssm.exe`. -/
  nssmHosted : Bool
deriving DecidableEq, Repr

/-- What a cycle does on the unit, and the gates it passes meanwhile. Reads are
left out. -/
inductive Step
  | passedDryRun
  | passedWindow
  | stopService (name : String)
  | deleteService (name : String)
  | writeAvailability (availability : Availability)
  /-- The transfer is reached, the availability file being `found`. -/
  | transfer (found : AvailabilityFile)
  /-- The execute is reached. -/
  | execute (found : AvailabilityFile)
  | write (path : String)
  | registerTask
  | deleteTask
deriving DecidableEq, Repr

/-- A step that stops, deletes or writes something on the unit. -/
def Step.changesUnit : Step → Bool
  | .passedDryRun | .passedWindow | .execute _ => false
  | _ => true

/-- A write on the unit: whether it took effect there and whether the call came back. -/
structure Sent where
  landed : Bool
  returned : Bool
deriving DecidableEq, Repr

/-- What `gethostbyname` did. -/
inductive Lookup
  | resolved
  | unresolved
  /-- It raised something other than an `OSError`: the name cannot be encoded. -/
  | malformed
deriving DecidableEq, Repr

/-- What `sc.exe delete` came to, read back. -/
inductive Deletion
  | removed
  | pending
  | failed
deriving DecidableEq, Repr

/-- The stand-down script on the unit. -/
structure StandDownRun where
  /-- How many of the services the script got to. -/
  ran : Nat
  stops : String → Bool
  deletes : String → Deletion
  /-- What the script is read to report; `some none` when its output holds no
  object after the marker, `none` when the call raised. -/
  states : Option (Option (List (String × String)))

/-- `build-manifest.json` as the driver reads it after the build. -/
structure ManifestFile where
  content : BuildManifest
  /-- It records a payload hash; the key is absent or null otherwise. -/
  hashed : Bool
  gitSha : String
deriving DecidableEq, Repr

/-- `bm.get("payload_hash")`. -/
def ManifestFile.payloadHash (file : ManifestFile) : Option String :=
  if file.hashed then some file.content.payloadHash else none

/-- What `build-mast.ps1` came to. -/
inductive BuildRun
  | timedOut
  /-- It exited; the manifest is `none` when it could not be read as an object. -/
  | exited (code : Int) (manifest : Option ManifestFile)
deriving DecidableEq, Repr

/-- What `relay.sync_payload` came to. -/
inductive RelaySync
  | raised
  | noManifest
  | finished (ok : Bool) (returncode : Int)
deriving DecidableEq, Repr

/-- What the pull script reports. -/
structure PullResult where
  outcome : Option String
  /-- The exit code as Python prints it, whatever it is. -/
  rc : String
  landedBytes : Option Int
  landedFiles : Option Int
  completed : Bool
deriving DecidableEq, Repr

/-- What the transfer call came to. -/
inductive Pull
  | raised
  | timedOut
  | finished (result : Option PullResult)
deriving DecidableEq, Repr

/-- A value read from the result file while polling. -/
inductive PollRecord
  /-- JSON that is not an object. -/
  | misfit
  /-- `exitCode` is `none` when it is no number. -/
  | record (status : Option String) (exitCode : Option Int)
deriving DecidableEq, Repr

/-- One turn of the polling loop. -/
inductive Poll
  | raised
  | read (result : Option PollRecord)
deriving DecidableEq, Repr

/-- Everything that comes from outside the driver while it processes one unit.
Of a call whose reply is an `Option`, `none` says that it raised, or that it
returned JSON of a shape on which the code that reads it raises; of a call that is
a `Bool`, `false` does. -/
structure Answers where
  address : Lookup
  sshOpen : Bool
  winrmOpen : Bool
  connects : Bool
  reclaims : Bool
  standDown : StandDownRun
  installed : Option (Option InstalledManifest)
  validation : Option (Option Validation)
  /-- The unit opened SMB to the staging host. -/
  smbReach : Option Bool
  build : BuildRun
  classifies : Bool
  /-- The unit's local time, `HH:mm`, and its hour. -/
  current : String
  hour : Int
  excludes : Bool
  relaySync : RelaySync
  marking : Sent
  /-- The staging host's block of the vault holds a user and a password. -/
  credential : Option Bool
  /-- Bytes and files of the payload to transfer. -/
  stagingSize : Option (Int × Int)
  pullScript : Bool
  pull : Pull
  detachedInputs : Bool
  sharedUser : Bool
  sharedPlain : Bool
  sharedBlob : Bool
  detachedRunner : Bool
  /-- The registration printed its marker. -/
  register : Option Bool
  /-- The polls made before the deadline. -/
  polls : List Poll
  leaseRead : Bool
  /-- Setting the unit available after a refused execute. -/
  handedBack : Sent
  smoke : Option (Option (List (String × String)))
  /-- Setting the unit available after the smoke check. -/
  returned : Sent
  /-- The write of the released record. -/
  release : Sent
  /-- The class of the exception that is raised, when one is. -/
  exception : String

/-- What the driver keeps over the units of a run. -/
structure Record where
  activity : List Activity
  unitOutcomes : List (String × RowOutcome)
  exitCode : Nat
  unitsChecked : Nat
deriving DecidableEq, Repr

/-- What the phases touch of a unit. -/
structure Machine where
  availability : AvailabilityFile
  services : List Service
  steps : List Step
deriving DecidableEq, Repr

/-- The state of `_process_unit`. `execute_refused` is reset before each execute;
the last three fields are variables of the function. -/
structure Cycle where
  record : Record
  machine : Machine
  executeRefused : Bool
  payloadHash : String
  gitSha : String
  leaseHeld : Bool
deriving DecidableEq, Repr

/-- `activity`. -/
def Record.row (record : Record) (row : Activity) : Record :=
  { record with
    activity := record.activity ++ [row]
    unitOutcomes := OrderedDict.set id record.unitOutcomes row.unit row.outcome }

/-- `self.exit_code = EXIT_UNIT_FAIL`. -/
def Record.failed (record : Record) : Record :=
  { record with exitCode := exitUnitFail }

/-- `self.units_checked += 1`. -/
def Record.checked (record : Record) : Record :=
  { record with unitsChecked := record.unitsChecked + 1 }

/-- Rows logged one after the other, each with the exit code it calls for. -/
def Record.logged (record : Record) (rows : List Activity) : Record :=
  rows.foldl (fun record row =>
    if row.outcome.isFailure then (record.row row).failed else record.row row) record

/-- A step taken on the unit. -/
def Machine.step (machine : Machine) (step : Step) : Machine :=
  { machine with steps := machine.steps ++ [step] }

/-- A write of the availability file that takes effect. -/
def Machine.setAvailability (machine : Machine) (availability : Availability) : Machine :=
  { machine.step (.writeAvailability availability) with availability := .record availability }

/-- `_write_unit_json` of the availability file, as far as it takes effect. -/
def Machine.sendAvailability (machine : Machine) (sent : Sent) (availability : Availability) :
    Machine :=
  if sent.landed then machine.setAvailability availability else machine

/-- A unit, as it is found, to be processed. -/
def Cycle.start (record : Record) (availability : AvailabilityFile) (services : List Service) :
    Cycle :=
  ⟨record, ⟨availability, services, []⟩, false, "", "", false⟩

theorem Record.logged_activity (record : Record) (rows : List Activity) :
    (record.logged rows).activity = record.activity ++ rows := by
  unfold Record.logged
  induction rows generalizing record with
  | nil => simp
  | cons row rest ih =>
    rw [List.foldl_cons, ih]
    split <;> simp [Record.row, Record.failed]

@[simp] theorem Machine.step_availability (machine : Machine) (step : Step) :
    (machine.step step).availability = machine.availability := rfl

@[simp] theorem Machine.step_steps (machine : Machine) (step : Step) :
    (machine.step step).steps = machine.steps ++ [step] := rfl

@[simp] theorem Machine.setAvailability_availability (machine : Machine)
    (availability : Availability) :
    (machine.setAvailability availability).availability = .record availability := rfl

@[simp] theorem Machine.setAvailability_steps (machine : Machine) (availability : Availability) :
    (machine.setAvailability availability).steps =
      machine.steps ++ [.writeAvailability availability] := rfl

end MastProvisioning.Driver
