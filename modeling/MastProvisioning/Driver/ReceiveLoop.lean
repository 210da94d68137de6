import Mathlib.Data.List.DropRight
import Mathlib.Algebra.Order.Ring.Rat
import Mathlib.Tactic.NormNum

/-!
# The Receive loop of a command over WinRM

`_resilient_get_command_output` repeats the Receive of one command until the command is
done. A transient failure of the HTTP call sets a deadline, which an output clears; the
reply that there is no output yet leaves it as it is. `measuresSilence_iff` says for
which sequences of Receives the budget is a measure of the listener's silence.

Times are those of the monotonic clock, in seconds.
-/

namespace MastProvisioning.Driver

universe u

/-- What one Receive came to. -/
inductive Receive (Byte : Type u)
  | output (stdout stderr : List Byte) (returnCode : Int) (done : Bool)
  /-- `WinRMOperationTimeoutError`: no output yet. -/
  | noOutput
  /-- One of `_TRANSIENT_RECEIVE_EXCEPTIONS`. -/
  | transient (error : String)
  /-- Any other exception. -/
  | failed (error : String)

/-- A Receive, and when it ended. -/
structure Timed (Byte : Type u) where
  time : ℚ
  receive : Receive Byte

namespace Timed

variable {Byte : Type u}

def isOutput (event : Timed Byte) : Bool :=
  match event.receive with
  | .output .. => true
  | _ => false

def isTransient (event : Timed Byte) : Bool :=
  match event.receive with
  | .transient _ => true
  | _ => false

/-- The listener replied. -/
def isReply (event : Timed Byte) : Bool :=
  match event.receive with
  | .output .. | .noOutput => true
  | _ => false

/-- The chunk of the standard output. -/
def stdout (event : Timed Byte) : List Byte :=
  match event.receive with
  | .output stdout _ _ _ => stdout
  | _ => []

/-- The chunk of the standard error. -/
def stderr (event : Timed Byte) : List Byte :=
  match event.receive with
  | .output _ stderr _ _ => stderr
  | _ => []

/-- The Receive neither finds the command done nor fails for good. -/
def goesOn (event : Timed Byte) : Bool :=
  match event.receive with
  | .output _ _ _ done => !done
  | .failed _ => false
  | _ => true

end Timed

/-- The variables of the loop. -/
structure ReceiveState (Byte : Type u) where
  stdoutChunks : List (List Byte)
  stderrChunks : List (List Byte)
  transientDeadline : Option ℚ
  transientFirstErr : Option String

/-- How the loop stands. -/
inductive ReceiveLoop (Byte : Type u)
  | waiting (state : ReceiveState Byte)
  | returned (stdout stderr : List Byte) (returnCode : Int)
  /-- The budget is exhausted. -/
  | gaveUp (first : Option String) (last : String)
  | raised (error : String)

section Loop

variable {Byte : Type u} (budget : ℚ)

/-- `stdout_chunks` and the others before the first Receive. -/
def ReceiveState.initial : ReceiveState Byte :=
  ⟨[], [], none, none⟩

/-- One round of the loop. -/
def receiveOne (state : ReceiveState Byte) (event : Timed Byte) : ReceiveLoop Byte :=
  match event.receive with
  | .output stdout stderr returnCode done =>
    let received : ReceiveState Byte :=
      ⟨state.stdoutChunks ++ [stdout], state.stderrChunks ++ [stderr], none, none⟩
    if done then
      .returned received.stdoutChunks.flatten received.stderrChunks.flatten returnCode
    else .waiting received
  | .noOutput => .waiting state
  | .transient error =>
    match state.transientDeadline with
    | none =>
      .waiting
        { state with
          transientDeadline := some (event.time + budget)
          transientFirstErr := some error }
    | some deadline =>
      if deadline ≤ event.time then .gaveUp state.transientFirstErr error else .waiting state
  | .failed error => .raised error

/-- `_resilient_get_command_output`, as far as these Receives bring it. -/
def receiveAll : ReceiveState Byte → List (Timed Byte) → ReceiveLoop Byte
  | state, [] => .waiting state
  | state, event :: rest =>
    match receiveOne budget state event with
    | .waiting next => receiveAll next rest
    | ended => ended

end Loop

section Runs

variable {Byte : Type u} {budget : ℚ} {state next : ReceiveState Byte}
  {earlier : List (Timed Byte)} {event : Timed Byte}

/-- What a round that goes on leaves. -/
theorem receiveOne_waiting (goes : receiveOne budget state event = .waiting next) :
    next.stdoutChunks.flatten = state.stdoutChunks.flatten ++ event.stdout ∧
      next.stderrChunks.flatten = state.stderrChunks.flatten ++ event.stderr ∧
      next.transientDeadline =
        if event.isOutput then none
        else if event.isTransient then
          some (state.transientDeadline.getD (event.time + budget))
        else state.transientDeadline := by
  obtain ⟨time, receive⟩ := event
  cases receive with
  | output stdout stderr returnCode done =>
    cases done with
    | true => cases goes
    | false =>
      obtain rfl := ReceiveLoop.waiting.inj goes
      simp [Timed.stdout, Timed.stderr, Timed.isOutput]
  | noOutput =>
    obtain rfl := ReceiveLoop.waiting.inj goes
    simp [Timed.stdout, Timed.stderr, Timed.isOutput, Timed.isTransient]
  | transient error =>
    unfold receiveOne at goes
    cases isDeadline : state.transientDeadline with
    | none =>
      rw [isDeadline] at goes
      obtain rfl := ReceiveLoop.waiting.inj goes
      simp [Timed.stdout, Timed.stderr, Timed.isOutput, Timed.isTransient]
    | some deadline =>
      rw [isDeadline] at goes
      dsimp only at goes
      split at goes
      · cases goes
      · obtain rfl := ReceiveLoop.waiting.inj goes
        simp [Timed.stdout, Timed.stderr, Timed.isOutput, Timed.isTransient, isDeadline]
  | failed error => cases goes

/-- A round gives up only on a transient failure, at the deadline. -/
theorem receiveOne_gaveUp {first : Option String} {last : String}
    (gives : receiveOne budget state event = .gaveUp first last) :
    event.isTransient = true ∧ ∃ deadline, state.transientDeadline = some deadline ∧
      deadline ≤ event.time := by
  obtain ⟨time, receive⟩ := event
  cases receive with
  | output stdout stderr returnCode done => cases done <;> cases gives
  | noOutput => cases gives
  | transient error =>
    unfold receiveOne at gives
    cases isDeadline : state.transientDeadline with
    | none =>
      rw [isDeadline] at gives
      cases gives
    | some deadline =>
      rw [isDeadline] at gives
      dsimp only at gives
      split at gives
      · exact ⟨rfl, deadline, rfl, ‹_›⟩
      · cases gives
  | failed error => cases gives

/-- A round that comes to its deadline gives up. -/
theorem receiveOne_at_deadline (budget : ℚ) {deadline : ℚ} (fails : event.isTransient = true)
    (isDeadline : state.transientDeadline = some deadline) (passed : deadline ≤ event.time) :
    ∃ first last, receiveOne budget state event = .gaveUp first last := by
  obtain ⟨time, receive⟩ := event
  cases receive with
  | transient error =>
    refine ⟨state.transientFirstErr, error, ?_⟩
    unfold receiveOne
    rw [isDeadline]
    exact if_pos passed
  | _ => cases fails

/-- A round before its deadline goes on. -/
theorem receiveOne_goes (goesOn : event.goesOn = true)
    (early : event.isTransient = true → ∀ deadline, state.transientDeadline = some deadline →
      event.time < deadline) : ∃ next, receiveOne budget state event = .waiting next := by
  obtain ⟨time, receive⟩ := event
  cases receive with
  | output stdout stderr returnCode done =>
    cases done with
    | true => cases goesOn
    | false => exact ⟨_, rfl⟩
  | noOutput => exact ⟨_, rfl⟩
  | transient error =>
    unfold receiveOne
    cases isDeadline : state.transientDeadline with
    | none => exact ⟨_, rfl⟩
    | some deadline => exact ⟨_, if_neg (early rfl deadline isDeadline).not_ge⟩
  | failed error => cases goesOn

theorem receiveAll_snoc (state : ReceiveState Byte) (earlier : List (Timed Byte))
    (event : Timed Byte) : receiveAll budget state (earlier ++ [event]) =
      match receiveAll budget state earlier with
      | .waiting last => receiveOne budget last event
      | ended => ended := by
  induction earlier generalizing state with
  | nil =>
    change (match receiveOne budget state event with
      | .waiting next => receiveAll budget next []
      | ended => ended) = receiveOne budget state event
    cases receiveOne budget state event <;> rfl
  | cons first rest ih =>
    rw [List.cons_append, receiveAll, receiveAll]
    cases receiveOne budget state first with
    | waiting next => exact ih next
    | _ => rfl

end Runs

/-- The Receives since the last output. -/
def silence {Byte : Type u} (events : List (Timed Byte)) : List (Timed Byte) :=
  events.rtakeWhile fun event => !event.isOutput

/-- A transient failure that comes the budget or more after another one, with no output
in between. -/
def Exhausted {Byte : Type u} (budget : ℚ) (earlier : List (Timed Byte)) (event : Timed Byte) :
    Prop :=
  event.isTransient = true ∧
    ∃ first ∈ silence earlier, first.isTransient = true ∧ first.time + budget ≤ event.time

/-- The loop is not over after these Receives. -/
structure Going {Byte : Type u} (budget : ℚ) (earlier : List (Timed Byte)) : Prop where
  goesOn : ∀ event ∈ earlier, event.goesOn = true
  unexhausted : ∀ before event after, earlier = before ++ event :: after →
    ¬ Exhausted budget before event

/-- Receives in the order in which they ended. -/
structure Timeline (Byte : Type u) where
  events : List (Timed Byte)
  ordered : events.Pairwise fun earlier later => earlier.time ≤ later.time

/-- The loop ends with `event`, in this way. -/
def EndsAt {Byte : Type u} (budget : ℚ) (earlier : List (Timed Byte)) (event : Timed Byte)
    (result : ReceiveLoop Byte) : Prop :=
  ∃ state, receiveAll budget .initial earlier = .waiting state ∧
    receiveOne budget state event = result

/-- The budget is exhausted only by silence of the listener, and every chunk that was
received is returned once and in order. -/
structure MeasuresSilence {Byte : Type u} (budget : ℚ) (timeline : Timeline Byte) : Prop where
  silent : ∀ earlier event later first last, timeline.events = earlier ++ event :: later →
    EndsAt budget earlier event (.gaveUp first last) →
      ∀ reply ∈ earlier, reply.isReply = true → reply.time + budget ≤ event.time
  returned : ∀ earlier event later stdout stderr returnCode,
    timeline.events = earlier ++ event :: later →
      EndsAt budget earlier event (.returned stdout stderr returnCode) →
        stdout = (earlier ++ [event]).flatMap Timed.stdout ∧
          stderr = (earlier ++ [event]).flatMap Timed.stderr

/-- No reply without output comes within the budget before a failure that exhausts it. -/
def NoneUnheard {Byte : Type u} (budget : ℚ) (timeline : Timeline Byte) : Prop :=
  ∀ earlier event later, timeline.events = earlier ++ event :: later → Going budget earlier →
    Exhausted budget earlier event →
      ∀ quiet ∈ silence earlier, quiet.isReply = true → quiet.time + budget ≤ event.time

section Silence

variable {Byte : Type u} {budget : ℚ} {state : ReceiveState Byte}
  {earlier : List (Timed Byte)} {event : Timed Byte}

/-- What the loop has after Receives that did not end it. -/
structure AfterReceives (budget : ℚ) (earlier : List (Timed Byte)) (state : ReceiveState Byte) :
    Prop where
  stdout : state.stdoutChunks.flatten = earlier.flatMap Timed.stdout
  stderr : state.stderrChunks.flatten = earlier.flatMap Timed.stderr
  deadline : state.transientDeadline =
    ((silence earlier).find? Timed.isTransient).map fun first => first.time + budget

theorem silence_snoc (earlier : List (Timed Byte)) (event : Timed Byte) :
    silence (earlier ++ [event]) = if event.isOutput then [] else silence earlier ++ [event] := by
  unfold silence
  rw [List.rtakeWhile_concat]
  cases event.isOutput <;> rfl

/-- Each round that goes on keeps track. -/
theorem AfterReceives.step {next : ReceiveState Byte} (reached : AfterReceives budget earlier state)
    (goes : receiveOne budget state event = .waiting next) :
    AfterReceives budget (earlier ++ [event]) next := by
  obtain ⟨stdout, stderr, deadline⟩ := receiveOne_waiting goes
  refine ⟨?_, ?_, ?_⟩
  · rw [stdout, reached.stdout, List.flatMap_append, List.flatMap_singleton]
  · rw [stderr, reached.stderr, List.flatMap_append, List.flatMap_singleton]
  · rw [deadline, silence_snoc, reached.deadline]
    cases isOutput : event.isOutput with
    | true => rfl
    | false =>
      rw [if_neg Bool.false_ne_true, if_neg Bool.false_ne_true, List.find?_append]
      cases isFirst : (silence earlier).find? Timed.isTransient with
      | none => cases isTransient : event.isTransient <;> simp [isTransient]
      | some first => cases event.isTransient <;> simp

theorem afterReceives_of_waiting (waits : receiveAll budget .initial earlier = .waiting state) :
    AfterReceives budget earlier state := by
  induction earlier using List.reverseRecOn generalizing state with
  | nil =>
    obtain rfl := ReceiveLoop.waiting.inj waits
    exact ⟨rfl, rfl, rfl⟩
  | append_singleton earlier event ih =>
    rw [receiveAll_snoc] at waits
    cases isLoop : receiveAll budget .initial earlier with
    | waiting before =>
      rw [isLoop] at waits
      exact (ih isLoop).step waits
    | _ =>
      rw [isLoop] at waits
      cases waits

/-- The budget is exhausted at the deadline. -/
theorem AfterReceives.exhausted_iff (reached : AfterReceives budget earlier state)
    (ordered : earlier.Pairwise fun earlier later => earlier.time ≤ later.time) :
    Exhausted budget earlier event ↔ event.isTransient = true ∧
      ∃ deadline, state.transientDeadline = some deadline ∧ deadline ≤ event.time := by
  unfold Exhausted
  rw [reached.deadline]
  refine and_congr_right fun _ => ⟨?_, ?_⟩
  · rintro ⟨first, member, isTransient, late⟩
    have isSome : ((silence earlier).find? Timed.isTransient).isSome :=
      List.find?_isSome.mpr ⟨first, member, isTransient⟩
    obtain ⟨least, isLeast⟩ := Option.isSome_iff_exists.mp isSome
    refine ⟨_, by rw [isLeast]; rfl, ?_⟩
    obtain ⟨_, before, after, isSilence, none⟩ := List.find?_eq_some_iff_append.mp isLeast
    have sorted : (silence earlier).Pairwise fun earlier later => earlier.time ≤ later.time :=
      ordered.sublist (List.rtakeWhile_suffix _ _).sublist
    have isEarly : least.time ≤ first.time := by
      rw [isSilence] at member sorted
      rcases List.mem_append.mp member with member | member
      · have isNot := none first member
        rw [isTransient] at isNot
        cases isNot
      · rcases List.mem_cons.mp member with rfl | member
        · exact le_refl _
        · exact List.rel_of_pairwise_cons (List.pairwise_append.mp sorted).2.1 member
    calc least.time + budget ≤ first.time + budget := by gcongr
      _ ≤ event.time := late
  · rintro ⟨deadline, isDeadline, late⟩
    obtain ⟨first, isFirst, rfl⟩ := Option.map_eq_some_iff.mp isDeadline
    exact ⟨first, List.mem_of_find?_eq_some isFirst, List.find?_some isFirst, late⟩

/-- When the loop is not over. -/
theorem waiting_iff
    (ordered : earlier.Pairwise fun earlier later => earlier.time ≤ later.time) :
    (∃ state, receiveAll budget .initial earlier = .waiting state) ↔ Going budget earlier := by
  induction earlier using List.reverseRecOn with
  | nil => exact ⟨fun _ => ⟨by simp, by simp⟩, fun _ => ⟨_, rfl⟩⟩
  | append_singleton earlier event ih =>
    have sorted := (List.pairwise_append.mp ordered).1
    rw [receiveAll_snoc]
    constructor
    · rintro ⟨next, goes⟩
      cases isLoop : receiveAll budget .initial earlier with
      | waiting state =>
        rw [isLoop] at goes
        have going := (ih sorted).mp ⟨state, isLoop⟩
        have reached := afterReceives_of_waiting isLoop
        refine ⟨fun other member => ?_, fun before other after isSplit exhausted => ?_⟩
        · rcases List.mem_append.mp member with member | member
          · exact going.goesOn other member
          · obtain rfl := List.mem_singleton.mp member
            obtain ⟨time, receive⟩ := other
            cases receive with
            | output stdout stderr returnCode done => cases done <;> first | rfl | cases goes
            | failed error => cases goes
            | _ => rfl
        · rcases List.eq_nil_or_concat after with rfl | ⟨rest, last, rfl⟩
          · obtain ⟨rfl, isLast⟩ := List.append_inj' isSplit rfl
            obtain rfl := List.singleton_injective isLast
            obtain ⟨isTransient, deadline, isDeadline, late⟩ :=
              (reached.exhausted_iff sorted).mp exhausted
            obtain ⟨_, _, gives⟩ := receiveOne_at_deadline budget isTransient isDeadline late
            cases goes.symm.trans gives
          · rw [List.concat_eq_append, ← List.cons_append, ← List.append_assoc] at isSplit
            exact going.unexhausted _ _ _ (List.append_inj' isSplit rfl).1 exhausted
      | _ =>
        rw [isLoop] at goes
        cases goes
    · intro going
      have before : Going budget earlier := by
        refine ⟨fun other member => going.goesOn other (List.mem_append_left _ member), ?_⟩
        rintro before other after rfl
        exact going.unexhausted before other (after ++ [event]) (by simp)
      obtain ⟨state, isLoop⟩ := (ih sorted).mpr before
      rw [isLoop]
      have unexhausted := going.unexhausted earlier event [] rfl
      rw [(afterReceives_of_waiting isLoop).exhausted_iff sorted] at unexhausted
      refine receiveOne_goes (going.goesOn event (by simp)) fun isTransient deadline isDeadline => ?_
      exact lt_of_not_ge fun late => unexhausted ⟨isTransient, deadline, isDeadline, late⟩

/-- What the loop returns. -/
theorem EndsAt.returned {stdout stderr : List Byte} {returnCode : Int}
    (ends : EndsAt budget earlier event (.returned stdout stderr returnCode)) :
    stdout = (earlier ++ [event]).flatMap Timed.stdout ∧
      stderr = (earlier ++ [event]).flatMap Timed.stderr := by
  obtain ⟨state, waits, isLast⟩ := ends
  have reached := afterReceives_of_waiting waits
  obtain ⟨time, receive⟩ := event
  cases receive with
  | output out err code done =>
    cases done with
    | true =>
      obtain ⟨rfl, rfl, -⟩ := ReceiveLoop.returned.inj isLast
      simp [List.flatMap_append, reached.stdout, reached.stderr, Timed.stdout, Timed.stderr]
    | false => cases isLast
  | noOutput => cases isLast
  | transient error =>
    unfold receiveOne at isLast
    dsimp only at isLast
    split at isLast
    · cases isLast
    · split at isLast <;> cases isLast
  | failed error => cases isLast

/-- The loop gives up exactly where the budget is exhausted. -/
theorem gaveUp_iff (ordered : earlier.Pairwise fun earlier later => earlier.time ≤ later.time) :
    (∃ first last, EndsAt budget earlier event (.gaveUp first last)) ↔
      Going budget earlier ∧ Exhausted budget earlier event := by
  constructor
  · rintro ⟨first, last, state, waits, gives⟩
    exact ⟨(waiting_iff ordered).mp ⟨state, waits⟩,
      ((afterReceives_of_waiting waits).exhausted_iff ordered).mpr (receiveOne_gaveUp gives)⟩
  · rintro ⟨going, exhausted⟩
    obtain ⟨state, waits⟩ := (waiting_iff ordered).mpr going
    obtain ⟨isTransient, deadline, isDeadline, late⟩ :=
      ((afterReceives_of_waiting waits).exhausted_iff ordered).mp exhausted
    obtain ⟨first, last, gives⟩ := receiveOne_at_deadline budget isTransient isDeadline late
    exact ⟨first, last, state, waits, gives⟩

/-- What came before the last output is the budget old when the budget is exhausted. -/
theorem Exhausted.before_silence {reply : Timed Byte} (exhausted : Exhausted budget earlier event)
    (ordered : earlier.Pairwise fun earlier later => earlier.time ≤ later.time)
    (member : reply ∈ earlier) (spoken : reply ∉ silence earlier) :
    reply.time + budget ≤ event.time := by
  obtain ⟨_, first, isFirst, _, late⟩ := exhausted
  obtain ⟨before, isSplit⟩ := List.rtakeWhile_suffix (fun event : Timed Byte => !event.isOutput) earlier
  have isBefore : reply ∈ before := by
    rw [← isSplit] at member
    exact (List.mem_append.mp member).resolve_right spoken
  rw [← isSplit] at ordered
  have isEarly : reply.time ≤ first.time :=
    (List.pairwise_append.mp ordered).2.2 reply isBefore first isFirst
  calc reply.time + budget ≤ first.time + budget := by gcongr
    _ ≤ event.time := late

/-- The budget measures silence when, and only when, no reply without output comes
within the budget before a failure that exhausts it. -/
theorem measuresSilence_iff (budget : ℚ) (timeline : Timeline Byte) :
    MeasuresSilence budget timeline ↔ NoneUnheard budget timeline := by
  have ordered {earlier later : List (Timed Byte)} {event : Timed Byte}
      (isSplit : timeline.events = earlier ++ event :: later) :
      earlier.Pairwise fun earlier later => earlier.time ≤ later.time :=
    (List.pairwise_append.mp (isSplit ▸ timeline.ordered)).1
  constructor
  · intro measures earlier event later isSplit going exhausted quiet member isReply
    obtain ⟨first, last, gives⟩ := (gaveUp_iff (ordered isSplit)).mpr ⟨going, exhausted⟩
    have isEarlier : quiet ∈ earlier := (List.rtakeWhile_suffix _ _).subset member
    exact measures.silent earlier event later first last isSplit gives quiet isEarlier isReply
  · intro unheard
    refine ⟨fun earlier event later first last isSplit gives reply member isReply => ?_,
      fun _ _ _ _ _ _ _ ends => ends.returned⟩
    obtain ⟨going, exhausted⟩ := (gaveUp_iff (ordered isSplit)).mp ⟨first, last, gives⟩
    by_cases isSilent : reply ∈ silence earlier
    · exact unheard earlier event later isSplit going exhausted reply isSilent isReply
    · exact exhausted.before_silence (ordered isSplit) member isSilent

end Silence

/-- A glitch, nine quiet minutes and fifty-nine seconds with a reply at their end, and
another glitch. -/
def twoGlitches : Timeline UInt8 where
  events := [⟨0, .transient "ReadTimeout"⟩, ⟨599, .noOutput⟩, ⟨600, .transient "ReadTimeout"⟩]
  ordered := by decide +kernel

/-- The loop gives up one second after a reply. -/
theorem twoGlitches_unheard : ¬ MeasuresSilence 600 twoGlitches := by
  intro measures
  have gives : EndsAt 600 [⟨0, .transient "ReadTimeout"⟩, ⟨599, .noOutput⟩]
      (⟨600, .transient "ReadTimeout"⟩ : Timed UInt8)
      (.gaveUp (some "ReadTimeout") "ReadTimeout") := by
    refine ⟨⟨[], [], some (0 + 600), some "ReadTimeout"⟩, rfl, ?_⟩
    exact if_pos (by norm_num)
  have early := measures.silent _ _ [] _ _ rfl gives ⟨599, .noOutput⟩ (by simp) rfl
  norm_num at early

end MastProvisioning.Driver
