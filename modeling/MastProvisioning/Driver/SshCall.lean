import MastProvisioning.Semantics.System

/-!
# One command over SSH

`run_ps` hands a script to a worker thread and waits for it. The worker opens a session,
sends the script, and polls for its exit status; when the connection is lost it waits for the
unit to come back and sends the script again, at most `SSH_RECONNECT_ATTEMPTS` times, each
attempt with a deadline of its own. The caller joins the worker at intervals and gives up when
the whole call has taken `timeout_s`; the worker is a daemon thread that nothing stops.

Times are in milliseconds since the call began.
-/

namespace MastProvisioning.Driver

open Semantics

/-- `SSH_RECONNECT_ATTEMPTS`. -/
def sshReconnectAttempts : Nat := 2

/-- `SSH_RECONNECT_MAX_WAIT_S`. -/
def sshReconnectMaxWait : Nat := 180 * 1000

/-- `HEARTBEAT_INTERVAL_S`. -/
def heartbeatInterval : Nat := 30 * 1000

/-- How a thread's call ended. -/
inductive CallEnd where
  | returned
  | timedOut
  | lost
  | failed
  deriving DecidableEq, Repr

/-- The worker thread, in attempt number `attempt` from 0. -/
inductive Worker where
  | connecting (attempt : Nat)
  | opened (attempt : Nat)
  | running (attempt deadline : Nat)
  | reconnecting (attempt deadline : Nat)
  | ended (result : CallEnd)
  deriving DecidableEq, Repr

/-- The caller's thread: in the join it began at a time, or out of the call. -/
inductive Caller where
  | waiting (since : Nat)
  | finished (result : CallEnd)
  deriving DecidableEq, Repr

/-- A call under way, with the times at which the script was started on the unit. -/
structure SshCall where
  now : Nat
  worker : Worker
  caller : Caller
  starts : List Nat
  deriving DecidableEq, Repr

inductive SshEvent where
  /-- Time passes. -/
  | wait (duration : Nat)
  /-- `open_session` returns, or finds the connection gone. -/
  | openSession (through : Bool)
  /-- `exec_command` starts the script. -/
  | exec
  /-- The exit status is there. -/
  | exited
  /-- The transport is inactive, or the channel closed without an exit status. -/
  | drop
  /-- The deadline of the attempt has passed. -/
  | stuck
  /-- A probe of `reconnect` gets through, or does not. -/
  | probe (through : Bool)
  /-- An exception that is no connection error. -/
  | fail
  /-- The caller's join ends. -/
  | join
  deriving DecidableEq, Repr

/-- After a connection error of an attempt: raise it, or reconnect. -/
def afterLoss (attempt now : Nat) : Worker :=
  if attempt ≥ sshReconnectAttempts then .ended .lost
  else .reconnecting attempt (now + sshReconnectMaxWait)

/-- The next state of the worker, and whether it has started the script. -/
def Worker.next (timeout now : Nat) : Worker → SshEvent → Worker
  | .connecting attempt, .openSession true => .opened attempt
  | .connecting attempt, .openSession false => afterLoss attempt now
  | .opened attempt, .exec => .running attempt (now + timeout * 1000)
  | .running _ _, .exited => .ended .returned
  | .running attempt _, .drop => afterLoss attempt now
  | .running _ _, .stuck => .ended .timedOut
  | .reconnecting attempt _, .probe true => .connecting (attempt + 1)
  | .reconnecting attempt deadline, .probe false =>
    if now ≥ deadline then .ended .lost else .reconnecting attempt deadline
  | .ended result, .fail => .ended result
  | _, .fail => .ended .failed
  | worker, _ => worker

/-- When an event can happen in the worker. The script is sent as soon as its session is
open. -/
def Worker.Enabled (now : Nat) : Worker → SshEvent → Prop
  | .connecting _, .openSession _ => True
  | .opened _, .exec => True
  | .running _ _, .exited => True
  | .running _ _, .drop => True
  | .running _ deadline, .stuck => now ≥ deadline
  | .reconnecting _ _, .probe _ => True
  | .ended _, .fail => False
  | _, .fail => True
  | .opened _, .wait _ => False
  | _, .wait _ => True
  | _, _ => False

/-- `_run_with_heartbeat` after a join. -/
def Caller.next (timeout now : Nat) (worker : Worker) : Caller :=
  match worker with
  | .ended result => .finished result
  | _ => if now / 1000 ≥ timeout then .finished .timedOut else .waiting now

/-- The call of a script with a timeout in seconds. -/
def sshCall (timeout : Nat) : System SshCall SshEvent where
  Initial call := call = ⟨0, .connecting 0, .waiting 0, []⟩
  Enabled call
    | .join => ∃ since, call.caller = .waiting since ∧
        ((∃ result, call.worker = .ended result) ∨ call.now ≥ since + heartbeatInterval)
    | event => call.worker.Enabled call.now event
  next call
    | .wait duration => { call with now := call.now + duration }
    | .join => { call with caller := .next timeout call.now call.worker }
    | .exec =>
      { call with worker := call.worker.next timeout call.now .exec
                  starts := call.starts ++ [call.now] }
    | event => { call with worker := call.worker.next timeout call.now event }

/-! ### How often the script is started -/

/-- The attempts bound the starts. -/
def Worker.StartsBelow (starts : Nat) : Worker → Prop
  | .connecting attempt => starts ≤ attempt ∧ attempt ≤ sshReconnectAttempts
  | .opened attempt => starts ≤ attempt ∧ attempt ≤ sshReconnectAttempts
  | .running attempt _ => starts ≤ attempt + 1 ∧ attempt ≤ sshReconnectAttempts
  | .reconnecting attempt _ => starts ≤ attempt + 1 ∧ attempt < sshReconnectAttempts
  | .ended _ => starts ≤ sshReconnectAttempts + 1

theorem startsBelow_afterLoss {starts attempt now : Nat} (few : starts ≤ attempt + 1)
    (within : attempt ≤ sshReconnectAttempts) : (afterLoss attempt now).StartsBelow starts := by
  unfold afterLoss
  split
  · show starts ≤ sshReconnectAttempts + 1
    omega
  · exact ⟨few, by omega⟩

theorem Worker.StartsBelow.total {starts : Nat} {worker : Worker} (below : worker.StartsBelow starts) :
    starts ≤ sshReconnectAttempts + 1 := by
  cases worker with
  | connecting attempt =>
    obtain ⟨few, within⟩ := below
    omega
  | opened attempt =>
    obtain ⟨few, within⟩ := below
    omega
  | running attempt deadline =>
    obtain ⟨few, within⟩ := below
    omega
  | reconnecting attempt deadline =>
    obtain ⟨few, within⟩ := below
    omega
  | ended result => exact below

/-- An event of the worker other than a start keeps the bound. -/
theorem startsBelow_next {timeout now starts : Nat} {worker : Worker} {event : SshEvent}
    (below : worker.StartsBelow starts) (enabled : worker.Enabled now event)
    (quiet : event ≠ .exec) : (worker.next timeout now event).StartsBelow starts := by
  have total := below.total
  cases event with
  | wait duration => cases worker <;> exact below
  | join => cases worker <;> exact enabled.elim
  | exec => exact absurd rfl quiet
  | fail => cases worker <;> exact total
  | exited => cases worker <;> first | exact total | exact enabled.elim
  | stuck => cases worker <;> first | exact total | exact enabled.elim
  | drop =>
    cases worker with
    | running attempt deadline => exact startsBelow_afterLoss below.1 below.2
    | _ => exact enabled.elim
  | openSession through =>
    cases worker with
    | connecting attempt =>
      cases through with
      | true => exact below
      | false => exact startsBelow_afterLoss (Nat.le_succ_of_le below.1) below.2
    | _ => exact enabled.elim
  | probe through =>
    cases worker with
    | reconnecting attempt deadline =>
      cases through with
      | true => exact ⟨below.1, below.2⟩
      | false =>
        show (if now ≥ deadline then Worker.ended .lost else .reconnecting attempt deadline).StartsBelow _
        split
        · exact total
        · exact below
    | _ => exact enabled.elim

/-- The start of an attempt is the one its number allows for. -/
theorem startsBelow_exec {timeout now starts : Nat} {worker : Worker}
    (below : worker.StartsBelow starts) (enabled : worker.Enabled now .exec) :
    (worker.next timeout now .exec).StartsBelow (starts + 1) := by
  cases worker with
  | opened attempt => exact ⟨Nat.succ_le_succ below.1, below.2⟩
  | _ => exact enabled.elim

/-- The attempts of a call bound its starts. -/
def SshCall.Counted (call : SshCall) : Prop := call.worker.StartsBelow call.starts.length

theorem counted_next {timeout : Nat} {call : SshCall} {event : SshEvent} (counted : call.Counted)
    (enabled : (sshCall timeout).Enabled call event) :
    ((sshCall timeout).next call event).Counted := by
  cases event with
  | join => exact counted
  | wait duration => exact counted
  | exec =>
    show (call.worker.next timeout call.now .exec).StartsBelow (call.starts ++ [call.now]).length
    rw [List.length_append]
    exact startsBelow_exec counted enabled
  | _ => exact startsBelow_next counted enabled (by simp)

theorem counted_initial {timeout : Nat} {call : SshCall}
    (initial : (sshCall timeout).Initial call) : call.Counted := by
  obtain rfl := initial
  exact ⟨Nat.zero_le _, Nat.zero_le _⟩

/-- The script is started at most once for each attempt, whatever happens. -/
theorem sshCall_starts {timeout : Nat} {start call : SshCall} {trace}
    (run : (sshCall timeout).Run start trace call) :
    call.starts.length ≤ sshReconnectAttempts + 1 :=
  (run.always (fun _ => counted_initial) fun _ _ => counted_next).total

/-! ### When the script is started -/

/-- The timeout of the call has not elapsed yet. -/
def SshCall.InTime (timeout : Nat) (call : SshCall) : Prop := call.now < timeout * 1000

/-- A session that opens does so in the time of the call. -/
def OpensInTime (timeout : Nat) (call : SshCall) (event : SshEvent) : Prop :=
  event = .openSession true → call.InTime timeout

/-- An open session was opened in time, a caller that is out of the call left an ended worker
or the time of the call behind it, and no start came after that time. -/
structure KeepsTime (timeout : Nat) (call : SshCall) : Prop where
  opened : ∀ attempt, call.worker = .opened attempt → call.InTime timeout
  finished : ∀ result, call.caller = .finished result →
    (∃ reason, call.worker = .ended reason) ∨ ¬ call.InTime timeout
  started : ∀ time ∈ call.starts, time < timeout * 1000

/-- The script is sent only to a caller that waits, and in time. -/
theorem exec_inTime {timeout : Nat} {call : SshCall} (keeps : KeepsTime timeout call)
    (enabled : (sshCall timeout).Enabled call .exec) :
    (∃ since, call.caller = .waiting since) ∧ call.InTime timeout := by
  have opened : ∃ attempt, call.worker = .opened attempt := by
    have possible : call.worker.Enabled call.now .exec := enabled
    cases at_ : call.worker with
    | opened attempt => exact ⟨attempt, rfl⟩
    | _ =>
      rw [at_] at possible
      exact possible.elim
  obtain ⟨attempt, at_⟩ := opened
  have inTime := keeps.opened attempt at_
  refine ⟨?_, inTime⟩
  cases caller : call.caller with
  | waiting since => exact ⟨since, rfl⟩
  | finished result =>
    rcases keeps.finished result caller with ⟨reason, ended⟩ | late
    · rw [at_] at ended
      cases ended
    · exact absurd inTime late

/-- An ended worker does nothing but let time pass. -/
theorem not_enabled_ended {now : Nat} {result : CallEnd} {event : SshEvent}
    (waits : ∀ duration, event ≠ .wait duration) : ¬ (Worker.ended result).Enabled now event := by
  intro enabled
  cases event with
  | wait duration => exact waits duration rfl
  | _ => exact enabled.elim

/-- A session is open only right after it was opened. -/
theorem next_opened {timeout now attempt : Nat} {worker : Worker} {event : SshEvent}
    (enabled : worker.Enabled now event) (waits : ∀ duration, event ≠ .wait duration)
    (opened : worker.next timeout now event = .opened attempt) : event = .openSession true := by
  cases event with
  | wait duration => exact absurd rfl (waits duration)
  | openSession through =>
    cases through with
    | true => rfl
    | false =>
      cases worker with
      | connecting other =>
        simp only [Worker.next, afterLoss] at opened
        split at opened <;> cases opened
      | _ => exact enabled.elim
  | drop =>
    cases worker with
    | running other deadline =>
      simp only [Worker.next, afterLoss] at opened
      split at opened <;> cases opened
    | _ => exact enabled.elim
  | probe through =>
    cases worker with
    | reconnecting other deadline =>
      cases through with
      | true => cases opened
      | false =>
        simp only [Worker.next] at opened
        split at opened <;> cases opened
    | _ => exact enabled.elim
  | join => cases worker <;> exact enabled.elim
  | _ => cases worker <;> first | exact enabled.elim | cases opened

/-- An event of the worker. -/
theorem keepsTime_worker {timeout : Nat} {call : SshCall} {event : SshEvent}
    (keeps : KeepsTime timeout call) (enabled : call.worker.Enabled call.now event)
    (waits : ∀ duration, event ≠ .wait duration) (inTime : OpensInTime timeout call event)
    {starts : List Nat} (started : ∀ time ∈ starts, time < timeout * 1000) :
    KeepsTime timeout
      { call with worker := call.worker.next timeout call.now event, starts } where
  opened attempt at_ := inTime (next_opened enabled waits at_)
  finished result caller := by
    rcases keeps.finished result caller with ⟨reason, ended⟩ | late
    · rw [ended] at enabled
      exact absurd enabled (not_enabled_ended waits)
    · exact .inr late
  started := started

theorem keepsTime_next {timeout : Nat} {call : SshCall} {event : SshEvent}
    (keeps : KeepsTime timeout call) (inTime : OpensInTime timeout call event)
    (enabled : (sshCall timeout).Enabled call event) :
    KeepsTime timeout ((sshCall timeout).next call event) := by
  cases event with
  | wait duration =>
    have possible : call.worker.Enabled call.now (.wait duration) := enabled
    constructor
    · intro attempt at_
      rw [show call.worker = .opened attempt from at_] at possible
      exact possible.elim
    · intro result caller
      refine (keeps.finished result caller).imp_right ?_
      intro late early
      exact late (Nat.lt_of_le_of_lt (Nat.le_add_right _ _) early)
    · exact keeps.started
  | join =>
    refine ⟨keeps.opened, ?_, keeps.started⟩
    intro result caller
    have ends : Caller.next timeout call.now call.worker = .finished result := caller
    unfold Caller.next at ends
    split at ends
    · rename_i reason ended
      exact .inl ⟨reason, ended⟩
    · right
      split at ends
      · rename_i elapsed
        show ¬ call.now < timeout * 1000
        omega
      · cases ends
  | exec =>
    refine keepsTime_worker keeps enabled (by simp) inTime ?_
    intro time member
    rcases List.mem_append.mp member with before | now
    · exact keeps.started time before
    · rw [List.mem_singleton.mp now]
      exact (exec_inTime keeps enabled).2
  | _ => exact keepsTime_worker keeps enabled (by simp) inTime keeps.started

theorem keepsTime_initial {timeout : Nat} {call : SshCall}
    (initial : (sshCall timeout).Initial call) : KeepsTime timeout call := by
  obtain rfl := initial
  exact ⟨nofun, nofun, nofun⟩

/-- The script is sent only to a caller that waits for it. -/
def SentToWaiting (call : SshCall) (event : SshEvent) : Prop :=
  event = .exec → ∃ since, call.caller = .waiting since

/-- No start after the call, no start after its time, and no more starts than attempts. -/
structure KeptToCall (timeout : Nat) (trace : List (System.Taken SshCall SshEvent))
    (call : SshCall) : Prop where
  waited : ∀ taken ∈ trace, SentToWaiting taken.1 taken.2
  inTime : ∀ time ∈ call.starts, time < timeout * 1000
  few : call.starts.length ≤ sshReconnectAttempts + 1

/-! ### A drop that outlasts the call -/

/-- A call with a minute's time: the connection is lost near its end and comes back after the
caller has given up. -/
def lateRecovery : List SshEvent :=
  [.openSession true, .exec, .wait 55000, .drop, .wait 10000, .join, .probe true,
    .openSession true, .exec]

/-- The call before its connection is lost. -/
def beforeDrop : List SshEvent := [.openSession true, .exec, .wait 55000]

def callStart : SshCall := ⟨0, .connecting 0, .waiting 0, []⟩

end MastProvisioning.Driver
