import Mathlib.Logic.Function.Basic
import MastProvisioning.Semantics.System

/-!
# The execute lease

`execute-mast-provisioning.ps1` guards a unit with one lease file. Acquiring it
is a read, a decision and a write (`Write-MastStatusFileAtomic`: a temporary file
of one fixed name, then a move over the lease); releasing it is a read and a
delete. Nothing joins the steps of one process, so the model takes them one at a
time and lets any number of processes interleave, crash and be taken over.

Times are whole seconds: the script writes `expires_utc` without a fraction, and
comparing a fractional now with a whole second is comparing its floor.
-/

namespace MastProvisioning.Unit.Lease

open MastProvisioning.Semantics

/-- The record in the lease file. `pid` and the two times are optional because a
file the script did not write may lack them or hold text that does not parse. -/
structure LeaseObject where
  runId : String
  heldBy : String
  pid : Option Nat
  startedUtc : Option Int
  expiresUtc : Option Int
  ttlSeconds : Int
deriving DecidableEq, Repr

/-- What a reader of the lease path finds. `unreadable` stands for content that
is not JSON, and for a read that fails after `Test-Path` saw the file. -/
inductive LeaseFile
  | absent
  | unreadable
  | holds (lease : LeaseObject)
deriving DecidableEq, Repr

/-- `New-LeaseObject`: the record of a process that acquires at `now`. -/
def newLeaseObject (runId heldBy : String) (pid : Nat) (ttlSeconds now : Int) : LeaseObject where
  runId := runId
  heldBy := heldBy
  pid := some pid
  startedUtc := some now
  expiresUtc := some (now + ttlSeconds)
  ttlSeconds := ttlSeconds

/-- Whether a lease has run out at `now`; one whose expiry does not parse has. -/
def LeaseObject.expired (lease : LeaseObject) (now : Int) : Prop :=
  ∀ expiresUtc, lease.expiresUtc = some expiresUtc → expiresUtc ≤ now

/-- The refusal test of the acquire block. `processAlive` is what `Get-Process`
answers for the recorded pid; a missing or zero pid is never asked about. -/
def leaseHeld (existing : LeaseFile) (processAlive : Bool) (now : Int) : Bool :=
  match existing with
  | .holds lease =>
    let pidAlive := match lease.pid with
      | some pid => pid != 0 && processAlive
      | none => false
    match lease.expiresUtc with
    | some expiresUtc => decide (now < expiresUtc) && pidAlive
    | none => false
  | _ => false

theorem LeaseObject.expired.later {lease : LeaseObject} {now later : Int}
    (expired : lease.expired now) (le : now ≤ later) : lease.expired later :=
  fun expiresUtc written => Int.le_trans (expired expiresUtc written) le

/-- A reader that goes on found a lease that has run out or whose recorded
process was reported dead. -/
theorem expired_of_not_leaseHeld {lease : LeaseObject} {pid : Nat} {now : Int}
    (recorded : lease.pid = some pid) (nonzero : 0 < pid)
    (proceeds : leaseHeld (.holds lease) true now = false) : lease.expired now := by
  intro expiresUtc written
  have positive : (pid != 0) = true := by simp; omega
  simpa [leaseHeld, recorded, written, positive] using proceeds

/-- The execute processes of one unit. Run ids are unique; a pid is never zero. -/
structure Executes (Process : Type) where
  runId : Process → String
  heldBy : Process → String
  pid : Process → Nat
  ttlSeconds : Process → Int
  runId_injective : Function.Injective runId
  pid_pos : ∀ process, 0 < pid process

/-- Where an execute process is. A phase carries what the process has read and
written so far. -/
inductive Phase
  | notStarted
  /-- The lease file has been read. -/
  | deciding (existing : LeaseFile)
  /-- The refusal test let the process through. -/
  | cleared (existing : LeaseFile)
  /-- The temporary file has been written, the move is still to come. -/
  | staged (existing : LeaseFile) (lease : LeaseObject)
  /-- The lease is in place and the commands run. -/
  | running (lease : LeaseObject)
  /-- The release has read the lease file. -/
  | releasing (lease : LeaseObject) (current : LeaseFile)
  /-- Its own lease is removed, leaving `left`; `LEASE_RELEASE` is still to be logged. -/
  | logReleased (left : LeaseFile)
  /-- The file named another run; `LEASE_RELEASE_SKIPPED` is still to be logged. -/
  | logSkipped
  /-- The release raised; the `Remove-Item` of its `catch` is still to come. -/
  | cleaning (left : LeaseFile)
  | refused
  | aborted
  | released
  | crashed

/-- A process that will take no further step. -/
def Phase.finished : Phase → Prop
  | .refused | .aborted | .released | .crashed => True
  | _ => False

/-- A process that has not yet built a lease of its own. -/
def Phase.early : Phase → Prop
  | .notStarted | .deciding _ | .cleared _ => True
  | _ => False

/-- A process the operating system lists. -/
def Phase.live (phase : Phase) : Prop :=
  phase ≠ .notStarted ∧ ¬ phase.finished

/-- The lease of a process between acquiring and releasing. -/
def Phase.section? : Phase → Option LeaseObject
  | .running lease | .releasing lease _ => some lease
  | _ => none

/-- What the acquire of a process read. -/
def Phase.existing? : Phase → Option LeaseFile
  | .deciding existing | .cleared existing | .staged existing _ => some existing
  | _ => none

/-- What the acquire of a process read, once the refusal test let it through. -/
def Phase.passed? : Phase → Option LeaseFile
  | .cleared existing | .staged existing _ => some existing
  | _ => none

/-- The lease a process has built and not yet released. -/
def Phase.own? : Phase → Option LeaseObject
  | .staged _ lease | .running lease | .releasing lease _ => some lease
  | _ => none

/-- What a process left behind when its release removed its own lease. -/
def Phase.left? : Phase → Option LeaseFile
  | .logReleased left | .cleaning left => some left
  | _ => none

/-- The lease file, its temporary file, the clock and the processes. -/
structure State (Process : Type) where
  file : LeaseFile
  temporary : Option LeaseObject
  clock : Int
  phase : Process → Phase

/-- One step of one process, or the passing of time. The Boolean arguments are
what the machine answers: whether a read or a log line fails, whether the
recorded pid is alive, whether a silent `Remove-Item` takes effect. -/
inductive Label (Process : Type)
  | read (process : Process) (fails : Bool)
  | decide (process : Process) (processAlive : Bool)
  | stage (process : Process)
  | move (process : Process)
  | releaseRead (process : Process) (fails : Bool)
  | releaseAct (process : Process) (removed : Bool)
  | releaseLog (process : Process) (fails : Bool)
  | releaseClean (process : Process) (removed : Bool)
  | crash (process : Process)
  | tick (seconds : Nat)

/-- What `Test-Path` followed by `Get-Content | ConvertFrom-Json` yields. -/
def LeaseFile.readBack (file : LeaseFile) (fails : Bool) : LeaseFile :=
  if file = .absent then .absent else if fails then .unreadable else file

/-- `Remove-Item -ErrorAction SilentlyContinue`. -/
def LeaseFile.removeItem (file : LeaseFile) (removed : Bool) : LeaseFile :=
  if removed then .absent else file

section System

variable {Process : Type} [DecidableEq Process]

/-- A process moves to another phase; everything else stays. -/
def State.enter (state : State Process) (process : Process) (phase : Phase) : State Process :=
  { state with phase := Function.update state.phase process phase }

@[simp] theorem State.enter_file (state : State Process) (process : Process) (phase : Phase) :
    (state.enter process phase).file = state.file := rfl

@[simp] theorem State.enter_clock (state : State Process) (process : Process) (phase : Phase) :
    (state.enter process phase).clock = state.clock := rfl

@[simp] theorem State.enter_phase (state : State Process) (process : Process) (phase : Phase)
    (other : Process) :
    (state.enter process phase).phase other =
      if other = process then phase else state.phase other := by
  simp [State.enter, Function.update_apply]

variable (fold : String → String) (executes : Executes Process)

/-- What one step does. `fold` is the case folding behind PowerShell's `-eq`. -/
def next (state : State Process) : Label Process → State Process
  | .read process fails => state.enter process (.deciding (state.file.readBack fails))
  | .decide process processAlive =>
    match state.phase process with
    | .deciding existing =>
      state.enter process
        (if leaseHeld existing processAlive state.clock then .refused else .cleared existing)
    | _ => state
  | .stage process =>
    match state.phase process with
    | .cleared existing =>
      let leaseObj := newLeaseObject (executes.runId process) (executes.heldBy process)
        (executes.pid process) (executes.ttlSeconds process) state.clock
      { state.enter process (.staged existing leaseObj) with temporary := some leaseObj }
    | _ => state
  | .move process =>
    match state.phase process, state.temporary with
    | .staged _ leaseObj, some moved =>
      { state.enter process (.running leaseObj) with file := .holds moved, temporary := none }
    -- another process moved the temporary file away: `Move-Item` raises
    | .staged _ _, none => state.enter process .aborted
    | _, _ => state
  | .releaseRead process fails =>
    match state.phase process with
    | .running leaseObj =>
      let current := state.file.readBack fails
      state.enter process (if current = .absent then .released else .releasing leaseObj current)
    | _ => state
  | .releaseAct process removed =>
    match state.phase process with
    | .releasing _ (.holds current) =>
      if fold current.runId = fold (executes.runId process) then
        let left := state.file.removeItem removed
        { state.enter process (.logReleased left) with file := left }
      else state.enter process .logSkipped
    | .releasing _ _ =>
      { state.enter process .released with file := state.file.removeItem removed }
    | _ => state
  | .releaseLog process fails =>
    match state.phase process with
    | .logReleased left => state.enter process (if fails then .cleaning left else .released)
    -- nothing was removed here, but the `catch` removes whatever is there
    | .logSkipped => state.enter process (if fails then .cleaning state.file else .released)
    | _ => state
  | .releaseClean process removed =>
    { state.enter process .released with file := state.file.removeItem removed }
  | .crash process => state.enter process .crashed
  | .tick seconds => { state with clock := state.clock + seconds }

/-- When a step can be taken. `Get-Process` finds every process of the model that
is alive; it may also find an unrelated one under the same pid. -/
def Enabled (state : State Process) : Label Process → Prop
  | .read process _ => state.phase process = .notStarted
  | .decide process processAlive => ∃ existing, state.phase process = .deciding existing ∧
      ∀ lease other, existing = .holds lease → lease.pid = some (executes.pid other) →
        (state.phase other).live → processAlive = true
  | .stage process => ∃ existing, state.phase process = .cleared existing
  | .move process => ∃ existing lease, state.phase process = .staged existing lease
  | .releaseRead process _ => ∃ lease, state.phase process = .running lease
  | .releaseAct process _ => ∃ lease current, state.phase process = .releasing lease current
  | .releaseLog process _ =>
      (∃ left, state.phase process = .logReleased left) ∨ state.phase process = .logSkipped
  | .releaseClean process _ => ∃ left, state.phase process = .cleaning left
  | .crash process => (state.phase process).live
  | .tick _ => True

/-- No process has started, and the lease file names none of their runs. -/
def Initial (state : State Process) : Prop :=
  (∀ process, state.phase process = .notStarted) ∧
    ∀ lease process, state.file = .holds lease → lease.runId ≠ executes.runId process

/-- Any number of execute processes on one unit. -/
def system : System (State Process) (Label Process) where
  Initial := Initial executes
  Enabled := Enabled executes
  next := next fold executes

end System

end MastProvisioning.Unit.Lease
