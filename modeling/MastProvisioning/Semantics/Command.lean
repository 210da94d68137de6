import Mathlib.Data.List.Basic

/-!
# Commands that can be interrupted

A command is a sequence of system calls on a state. At each call the command may
be killed, or the call may raise instead of taking effect; `faults` lists what
happens at the calls to come, nothing once it is used up. An exception reaches the
handlers, being killed does not.

`Meets` is the specification of a command from one state: what holds when it is
done and what holds when it is not. With `Mode.reliable` no call is interrupted,
so the command fails only of its own accord; with `Mode.interrupted` the
specification has to hold wherever the command is cut off.
-/

namespace MastProvisioning.Semantics

universe u v w

/-- What becomes of a system call from outside. -/
inductive Fault
  | none
  /-- The call raises an exception and has no effect. -/
  | raise
  /-- The process ends before the call. -/
  | kill
deriving DecidableEq, Repr

/-- How a command ends. -/
inductive Outcome (Value : Type u)
  | done (value : Value)
  | raised (message : String)
  | killed
deriving DecidableEq, Repr

/-- Whether a command was done. -/
def Outcome.isDone {Value : Type u} : Outcome Value → Bool
  | .done _ => true
  | _ => false

theorem Outcome.isDone_iff {Value : Type u} {outcome : Outcome Value} :
    outcome.isDone = true ↔ ∃ value, outcome = .done value := by
  cases outcome <;> simp [Outcome.isDone]

/-- The state, and what becomes of the system calls to come. -/
structure World (State : Type v) where
  state : State
  faults : List Fault

/-- A command on a state. -/
def Command (State : Type v) (Value : Type u) :=
  World State → Outcome Value × World State

namespace Command

section Operations

variable {State : Type v} {Value Other : Type u}

/-- A command that does nothing. -/
def done (value : Value) : Command State Value :=
  fun world => (.done value, world)

/-- Raise an exception. -/
def exit (message : String) : Command State Value :=
  fun world => (.raised message, world)

/-- One command, then another. -/
def andThen (first : Command State Value) (next : Value → Command State Other) :
    Command State Other :=
  fun world =>
    match first world with
    | (.done value, world) => next value world
    | (.raised message, world) => (.raised message, world)
    | (.killed, world) => (.killed, world)

instance : Monad (Command State) where
  pure := done
  bind := andThen

/-- A system call; it raises when `effect` has no result. -/
def call (message : String) (effect : State → Option (Value × State)) : Command State Value :=
  fun world =>
    match world.faults with
    | .kill :: rest => (.killed, ⟨world.state, rest⟩)
    | .raise :: rest => (.raised "interrupted", ⟨world.state, rest⟩)
    | .none :: rest =>
      match effect world.state with
      | some (value, state) => (.done value, ⟨state, rest⟩)
      | none => (.raised message, ⟨world.state, rest⟩)
    | [] =>
      match effect world.state with
      | some (value, state) => (.done value, ⟨state, []⟩)
      | none => (.raised message, ⟨world.state, []⟩)

/-- A system call that only reads. -/
def query (read : State → Value) : Command State Value :=
  call "" fun state => some (read state, state)

/-- A system call that changes the state or fails. -/
def change (message : String) (effect : State → Option State) : Command State Unit :=
  call message fun state => (effect state).map fun state => ((), state)

/-- Raise an exception unless a condition holds. -/
def require (condition : Bool) (message : String) : Command State Unit :=
  if condition then done () else exit message

/-- Run a handler when an exception is raised, then raise it again. -/
def onException (body : Command State Value) (handler : Command State Unit) :
    Command State Value :=
  fun world =>
    match body world with
    | (.raised message, world) =>
      match handler world with
      | (.done _, world) => (.raised message, world)
      | (.raised message, world) => (.raised message, world)
      | (.killed, world) => (.killed, world)
    | ended => ended

/-- Go on when an exception is raised. -/
def ignoreErrors (body : Command State Unit) : Command State Unit :=
  fun world =>
    match body world with
    | (.raised _, world) => (.done (), world)
    | ended => ended

/-- Run a handler when an exception is raised, and go on with its result. -/
def catching (body : Command State Value) (handler : String → Command State Value) :
    Command State Value :=
  fun world =>
    match body world with
    | (.raised message, world) => handler message world
    | ended => ended

/-- Run a cleanup where the body ends, with a result or an exception. -/
def lastly (body : Command State Value) (cleanup : Command State Unit) : Command State Value :=
  fun world =>
    match body world with
    | (.killed, world) => (.killed, world)
    | (ended, world) =>
      match cleanup world with
      | (.done _, world) => (ended, world)
      | (.raised message, world) => (.raised message, world)
      | (.killed, world) => (.killed, world)

/-- Change the state. -/
def update (change : State → State) : Command State Unit :=
  fun world => (.done (), ⟨change world.state, world.faults⟩)

/-- What a call returned, when it did not raise. -/
def expect (message : String) : Option Value → Command State Value
  | some value => done value
  | none => exit message

/-- Run a command for each item of a list. -/
def forEach {Item : Type w} : List Item → (Item → Command State Unit) → Command State Unit
  | [], _ => done ()
  | item :: rest, body => andThen (body item) fun _ => forEach rest body

/-- Run a command for each item of a list, handing on a result. -/
def foldEach {Item : Type w} :
    List Item → Value → (Value → Item → Command State Value) → Command State Value
  | [], value, _ => done value
  | item :: rest, value, body => andThen (body value item) fun value => foldEach rest value body

/-- Run a command without interruption. -/
def run (command : Command State Value) (state : State) : Outcome Value × State :=
  let (outcome, world) := command ⟨state, []⟩
  (outcome, world.state)

end Operations

/-- Whether calls may be interrupted. -/
inductive Mode
  | reliable
  | interrupted
deriving DecidableEq, Repr

/-- The faults a mode allows. -/
def Mode.Allows : Mode → List Fault → Prop
  | .reliable, faults => faults = []
  | .interrupted, _ => True

section Specification

variable {State : Type v} {Value Other : Type u}

/-- What holds where a command ended. -/
def EndsIn (mode : Mode) (finished : Value → State → Prop) (failed : State → Prop) :
    Outcome Value × World State → Prop
  | (.done value, world) => finished value world.state ∧ mode.Allows world.faults
  | (.raised _, world) => failed world.state ∧ mode.Allows world.faults
  | (.killed, world) => mode = .interrupted ∧ failed world.state

/-- What a command does from a state: what holds when it is done, and what holds
when it raised or was killed. -/
def Meets (mode : Mode) (command : Command State Value) (state : State)
    (finished : Value → State → Prop) (failed : State → Prop) : Prop :=
  ∀ faults, mode.Allows faults → EndsIn mode finished failed (command ⟨state, faults⟩)

/-- A command keeps a property of the state, whether it is done or not. -/
def Preserves (mode : Mode) (Inv : State → Prop) (command : Command State Value) : Prop :=
  ∀ state, Inv state → Meets mode command state (fun _ => Inv) Inv

variable {mode : Mode} {state : State} {finished weaker : Value → State → Prop}
  {failed weakerFailed : State → Prop}

theorem Meets.mono {command : Command State Value}
    (meets : Meets mode command state finished failed)
    (onDone : ∀ value state, finished value state → weaker value state)
    (onFail : ∀ state, failed state → weakerFailed state) :
    Meets mode command state weaker weakerFailed := by
  intro faults allowed
  have holds := meets faults allowed
  rcases result : command ⟨state, faults⟩ with ⟨_ | _ | _, world⟩ <;> rw [result] at holds
  · exact ⟨onDone _ _ holds.1, holds.2⟩
  · exact ⟨onFail _ holds.1, holds.2⟩
  · exact ⟨holds.1, onFail _ holds.2⟩

/-- Two specifications of one command hold together. -/
theorem Meets.and {command : Command State Value}
    (meets : Meets mode command state finished failed)
    (also : Meets mode command state weaker weakerFailed) :
    Meets mode command state (fun value state => finished value state ∧ weaker value state)
      (fun state => failed state ∧ weakerFailed state) := by
  intro faults allowed
  have holds := meets faults allowed
  have holdsAlso := also faults allowed
  rcases result : command ⟨state, faults⟩ with ⟨_ | _ | _, world⟩ <;>
    rw [result] at holds holdsAlso
  · exact ⟨⟨holds.1, holdsAlso.1⟩, holds.2⟩
  · exact ⟨⟨holds.1, holdsAlso.1⟩, holds.2⟩
  · exact ⟨holds.1, holds.2, holdsAlso.2⟩

theorem Meets.done {value : Value} (holds : finished value state) :
    Meets mode (done value) state finished failed :=
  fun _ allowed => ⟨holds, allowed⟩

theorem Meets.pure {value : Value} (holds : finished value state) :
    Meets mode (Pure.pure value : Command State Value) state finished failed :=
  Meets.done holds

theorem Meets.exit {message : String} (holds : failed state) :
    Meets mode (exit message : Command State Value) state finished failed :=
  fun _ allowed => ⟨holds, allowed⟩

/-- The rule for one command after another. -/
theorem Meets.bind {first : Command State Value} {next : Value → Command State Other}
    {middle : Value → State → Prop} {finished : Other → State → Prop}
    (meets : Meets mode first state middle failed)
    (onDone : ∀ value state, middle value state → Meets mode (next value) state finished failed) :
    Meets mode (first >>= next) state finished failed := by
  intro faults allowed
  have holds := meets faults allowed
  change EndsIn mode finished failed (andThen first next ⟨state, faults⟩)
  unfold andThen
  rcases result : first ⟨state, faults⟩ with ⟨_ | _ | _, world⟩ <;> rw [result] at holds
  · exact onDone _ world.state holds.1 world.faults holds.2
  · exact holds
  · exact holds

/-- The rule for what follows two commands that are specified together. -/
theorem Meets.bind_assoc {Third : Type u} {first : Command State Value}
    {next : Value → Command State Other} {last : Other → Command State Third}
    {finished : Third → State → Prop}
    (meets : Meets mode (first >>= next >>= last) state finished failed) :
    Meets mode (first >>= fun value => next value >>= last) state finished failed := by
  intro faults allowed
  have holds := meets faults allowed
  change EndsIn mode finished failed
    (andThen first (fun value => andThen (next value) last) ⟨state, faults⟩)
  change EndsIn mode finished failed (andThen (andThen first next) last ⟨state, faults⟩) at holds
  unfold andThen at holds ⊢
  rcases result : first ⟨state, faults⟩ with ⟨_ | _ | _, world⟩ <;> simpa only [result] using holds

/-- The rule for a system call: its effect when it has one, and nothing when it
fails or is interrupted. -/
theorem Meets.call {message : String} {effect : State → Option (Value × State)}
    (onDone : ∀ value after, effect state = some (value, after) → finished value after)
    (onFail : effect state = none → failed state)
    (onFault : mode = .interrupted → failed state) :
    Meets mode (call message effect) state finished failed := by
  intro faults allowed
  have interruptible : faults ≠ [] → mode = .interrupted := by
    intro some
    cases mode with
    | reliable => exact absurd allowed some
    | interrupted => rfl
  have rest : ∀ head tail, faults = head :: tail → mode.Allows tail := by
    intro head tail isCons
    rw [interruptible (isCons ▸ List.cons_ne_nil head tail)]
    trivial
  unfold Command.call
  rcases faults with _ | ⟨_ | _ | _, tail⟩
  · cases result : effect state with
    | none => simpa [result] using ⟨onFail result, allowed⟩
    | some pair => simpa [result] using ⟨onDone _ _ result, allowed⟩
  · cases result : effect state with
    | none => simpa [result] using ⟨onFail result, rest _ _ rfl⟩
    | some pair => simpa [result] using ⟨onDone _ _ result, rest _ _ rfl⟩
  · exact ⟨onFault (interruptible (by simp)), rest _ _ rfl⟩
  · exact ⟨interruptible (by simp), onFault (interruptible (by simp))⟩

theorem Meets.query {read : State → Value} (onDone : finished (read state) state)
    (onFault : mode = .interrupted → failed state) :
    Meets mode (query read) state finished failed := by
  refine Meets.call ?_ (by simp) onFault
  rintro _ _ ⟨⟩
  exact onDone

/-- A command that goes on with what it read. -/
theorem Meets.query_bind {read : State → Value} {next : Value → Command State Other}
    {finished : Other → State → Prop}
    (meets : Meets mode (next (read state)) state finished failed)
    (onFault : mode = .interrupted → failed state) :
    Meets mode (Command.query read >>= next) state finished failed := by
  let middle : Value → State → Prop := fun value after => value = read state ∧ after = state
  have reads : Meets mode (Command.query read) state middle failed :=
    .query ⟨rfl, rfl⟩ onFault
  refine reads.bind ?_
  rintro _ _ ⟨rfl, rfl⟩
  exact meets

theorem Meets.change {message : String} {effect : State → Option State}
    {finished : Unit → State → Prop}
    (onDone : ∀ after, effect state = some after → finished () after)
    (onFail : effect state = none → failed state)
    (onFault : mode = .interrupted → failed state) :
    Meets mode (change message effect) state finished failed := by
  refine Meets.call ?_ (by simpa using onFail) onFault
  rintro ⟨⟩ after result
  obtain ⟨_, isAfter, ⟨⟩⟩ := Option.map_eq_some_iff.mp result
  exact onDone after isAfter

theorem Meets.require {condition : Bool} {message : String} {finished : Unit → State → Prop}
    (onDone : condition = true → finished () state) (onFail : condition = false → failed state) :
    Meets mode (require condition message) state finished failed := by
  unfold Command.require
  split
  · rename_i holds
    exact .done (onDone holds)
  · rename_i fails
    exact .exit (onFail (by simpa using fails))

/-- A command that goes on when a condition holds. -/
theorem Meets.require_bind {Other : Type} {condition : Bool} {message : String}
    {next : Unit → Command State Other} {finished : Other → State → Prop}
    (onTrue : condition = true → Meets mode (next ()) state finished failed)
    (onFalse : condition = false → failed state) :
    Meets mode (Command.require condition message >>= next) state finished failed := by
  let middle : Unit → State → Prop := fun _ after => condition = true ∧ after = state
  have required : Meets mode (Command.require condition message) state middle failed :=
    .require (fun holds => ⟨holds, rfl⟩) onFalse
  refine required.bind ?_
  rintro ⟨⟩ _ ⟨holds, rfl⟩
  exact onTrue holds

/-- A choice between two commands. -/
theorem Meets.ite {condition : Prop} [Decidable condition] {first second : Command State Value}
    (onTrue : condition → Meets mode first state finished failed)
    (onFalse : ¬ condition → Meets mode second state finished failed) :
    Meets mode (if condition then first else second) state finished failed := by
  split
  · exact onTrue ‹_›
  · exact onFalse ‹_›

/-- The rule for a handler: it starts where the body raised; a killed body leaves
what it left. -/
theorem Meets.onException {body : Command State Value} {handler : Command State Unit}
    {broken : State → Prop} (meets : Meets mode body state finished broken)
    (handled : ∀ state, broken state → Meets mode handler state (fun _ => failed) failed)
    (onKill : mode = .interrupted → ∀ state, broken state → failed state) :
    Meets mode (onException body handler) state finished failed := by
  intro faults allowed
  have holds := meets faults allowed
  unfold Command.onException
  rcases result : body ⟨state, faults⟩ with ⟨_ | _ | _, world⟩ <;> rw [result] at holds
  · exact holds
  · have handledAs := handled world.state holds.1 world.faults holds.2
    dsimp only
    rcases ended : handler world with ⟨_ | _ | _, after⟩ <;> rw [ended] at handledAs <;>
      exact handledAs
  · exact ⟨holds.1, onKill holds.1 _ holds.2⟩

theorem Meets.ignoreErrors {body : Command State Unit} {finished : Unit → State → Prop}
    {broken : State → Prop} (meets : Meets mode body state finished broken)
    (onRaise : ∀ state, broken state → finished () state)
    (onKill : mode = .interrupted → ∀ state, broken state → failed state) :
    Meets mode (ignoreErrors body) state finished failed := by
  intro faults allowed
  have holds := meets faults allowed
  unfold Command.ignoreErrors
  rcases result : body ⟨state, faults⟩ with ⟨_ | _ | _, world⟩ <;> rw [result] at holds
  · exact holds
  · exact ⟨onRaise _ holds.1, holds.2⟩
  · exact ⟨holds.1, onKill holds.1 _ holds.2⟩

/-- The rule for a handler that goes on. -/
theorem Meets.catching {body : Command State Value} {handler : String → Command State Value}
    {broken : State → Prop} (meets : Meets mode body state finished broken)
    (handled : ∀ message state, broken state → Meets mode (handler message) state finished failed)
    (onKill : mode = .interrupted → ∀ state, broken state → failed state) :
    Meets mode (catching body handler) state finished failed := by
  intro faults allowed
  have holds := meets faults allowed
  unfold Command.catching
  rcases result : body ⟨state, faults⟩ with ⟨_ | message | _, world⟩ <;> rw [result] at holds
  · exact holds
  · exact handled message world.state holds.1 world.faults holds.2
  · exact ⟨holds.1, onKill holds.1 _ holds.2⟩

/-- The rule for a cleanup: it starts where the body ended. -/
theorem Meets.lastly {body : Command State Value} {cleanup : Command State Unit}
    {middle : Value → State → Prop} {broken : State → Prop}
    (meets : Meets mode body state middle broken)
    (afterDone : ∀ value state, middle value state →
      Meets mode cleanup state (fun _ => finished value) failed)
    (afterFail : ∀ state, broken state → Meets mode cleanup state (fun _ => failed) failed)
    (onKill : mode = .interrupted → ∀ state, broken state → failed state) :
    Meets mode (lastly body cleanup) state finished failed := by
  intro faults allowed
  have holds := meets faults allowed
  unfold Command.lastly
  rcases result : body ⟨state, faults⟩ with ⟨value | _ | _, world⟩ <;> rw [result] at holds
  · have cleaned := afterDone value world.state holds.1 world.faults holds.2
    dsimp only
    rcases ended : cleanup world with ⟨_ | _ | _, after⟩ <;> rw [ended] at cleaned <;>
      exact cleaned
  · have cleaned := afterFail world.state holds.1 world.faults holds.2
    dsimp only
    rcases ended : cleanup world with ⟨_ | _ | _, after⟩ <;> rw [ended] at cleaned <;>
      exact cleaned
  · exact ⟨holds.1, onKill holds.1 _ holds.2⟩

theorem Meets.update {change : State → State} {finished : Unit → State → Prop}
    (holds : finished () (change state)) :
    Meets mode (Command.update change) state finished failed :=
  fun _ allowed => ⟨holds, allowed⟩

/-- A command that goes on from a changed state. -/
theorem Meets.update_bind {Other : Type} {change : State → State} {next : Unit → Command State Other}
    {finished : Other → State → Prop}
    (meets : Meets mode (next ()) (change state) finished failed) :
    Meets mode (Command.update change >>= next) state finished failed := by
  let middle : Unit → State → Prop := fun _ after => after = change state
  have updated : Meets mode (Command.update change) state middle failed := .update rfl
  refine updated.bind ?_
  rintro ⟨⟩ _ rfl
  exact meets

/-- A command that goes on when a call returned. -/
theorem Meets.expect_bind {message : String} {answer : Option Value}
    {next : Value → Command State Other} {finished : Other → State → Prop}
    (onSome : ∀ value, answer = some value → Meets mode (next value) state finished failed)
    (onNone : answer = none → failed state) :
    Meets mode (Command.expect message answer >>= next) state finished failed := by
  cases answer with
  | none =>
    have raised : Meets mode (Command.expect message (none : Option Value)) state
        (fun _ _ => False) failed := .exit (onNone rfl)
    exact raised.bind fun _ _ => False.elim
  | some value =>
    let middle : Value → State → Prop := fun other after => other = value ∧ after = state
    have returned : Meets mode (Command.expect message (some value)) state middle failed :=
      .done ⟨rfl, rfl⟩
    refine returned.bind fun _ _ same => ?_
    obtain ⟨rfl, rfl⟩ := same
    exact onSome _ rfl

/-- The rule for a loop, with an invariant of the items still to come. -/
theorem Meets.forEach {Item : Type w} {items : List Item} {body : Item → Command State Unit}
    {Inv : List Item → State → Prop} (initially : Inv items state)
    (step : ∀ item rest state, (item :: rest) <:+ items → Inv (item :: rest) state →
      Meets mode (body item) state (fun _ => Inv rest) failed) :
    Meets mode (forEach items body) state (fun _ => Inv []) failed := by
  induction items generalizing state with
  | nil => exact .done initially
  | cons item rest ih =>
    refine Meets.bind (step item rest state (List.suffix_refl _) initially) ?_
    intro _ middle holds
    exact ih holds fun next more state suffix =>
      step next more state (suffix.trans (List.suffix_cons item rest))

theorem Meets.foldEach {Item : Type w} {items : List Item} {value : Value}
    {body : Value → Item → Command State Value} {Inv : List Item → Value → State → Prop}
    (initially : Inv items value state)
    (step : ∀ value item rest state, (item :: rest) <:+ items → Inv (item :: rest) value state →
      Meets mode (body value item) state (Inv rest) failed) :
    Meets mode (foldEach items value body) state (Inv []) failed := by
  induction items generalizing state value with
  | nil => exact .done initially
  | cons item rest ih =>
    refine Meets.bind (step value item rest state (List.suffix_refl _) initially) ?_
    intro next middle holds
    exact ih holds fun value other more state suffix =>
      step value other more state (suffix.trans (List.suffix_cons item rest))

section Preserving

variable {Inv : State → Prop}

theorem Preserves.done (value : Value) : Preserves mode Inv (Command.done value) :=
  fun _ holds => .done holds

theorem Preserves.pure (value : Value) : Preserves mode Inv (Pure.pure value : Command State Value) :=
  fun _ holds => .done holds

theorem Preserves.exit (message : String) :
    Preserves mode Inv (Command.exit message : Command State Value) :=
  fun _ holds => .exit holds

theorem Preserves.bind {first : Command State Value} {next : Value → Command State Other}
    (preserves : Preserves mode Inv first) (then_ : ∀ value, Preserves mode Inv (next value)) :
    Preserves mode Inv (first >>= next) :=
  fun state holds => (preserves state holds).bind fun value after => then_ value after

theorem Preserves.call {message : String} {effect : State → Option (Value × State)}
    (kept : ∀ state value after, Inv state → effect state = some (value, after) → Inv after) :
    Preserves mode Inv (Command.call message effect) :=
  fun state holds =>
    .call (fun value after => kept state value after holds) (fun _ => holds) fun _ => holds

theorem Preserves.query (read : State → Value) : Preserves mode Inv (Command.query read) :=
  fun _ holds => .query holds fun _ => holds

theorem Preserves.change {message : String} {effect : State → Option State}
    (kept : ∀ state after, Inv state → effect state = some after → Inv after) :
    Preserves mode Inv (Command.change message effect) :=
  fun state holds => .change (fun after => kept state after holds) (fun _ => holds) fun _ => holds

theorem Preserves.require (condition : Bool) (message : String) :
    Preserves mode Inv (Command.require condition message) :=
  fun _ holds => .require (fun _ => holds) fun _ => holds

theorem Preserves.update {change : State → State} (kept : ∀ state, Inv state → Inv (change state)) :
    Preserves mode Inv (Command.update change) :=
  fun state holds => .update (kept state holds)

theorem Preserves.expect (message : String) (answer : Option Value) :
    Preserves mode Inv (Command.expect message answer) := by
  cases answer with
  | none => exact .exit message
  | some value => exact .done value

theorem Preserves.ite {condition : Prop} [Decidable condition]
    {first second : Command State Value} (onTrue : Preserves mode Inv first)
    (onFalse : Preserves mode Inv second) : Preserves mode Inv (if condition then first else second) := by
  split
  · exact onTrue
  · exact onFalse

theorem Preserves.onException {body : Command State Value} {handler : Command State Unit}
    (preserves : Preserves mode Inv body) (handled : Preserves mode Inv handler) :
    Preserves mode Inv (Command.onException body handler) :=
  fun state holds => (preserves state holds).onException handled fun _ _ => id

theorem Preserves.ignoreErrors {body : Command State Unit} (preserves : Preserves mode Inv body) :
    Preserves mode Inv (Command.ignoreErrors body) :=
  fun state holds => (preserves state holds).ignoreErrors (fun _ => id) fun _ _ => id

theorem Preserves.catching {body : Command State Value} {handler : String → Command State Value}
    (preserves : Preserves mode Inv body) (handled : ∀ message, Preserves mode Inv (handler message)) :
    Preserves mode Inv (Command.catching body handler) :=
  fun state holds => (preserves state holds).catching (fun message => handled message) fun _ _ => id

theorem Preserves.lastly {body : Command State Value} {cleanup : Command State Unit}
    (preserves : Preserves mode Inv body) (cleaned : Preserves mode Inv cleanup) :
    Preserves mode Inv (Command.lastly body cleanup) :=
  fun state holds => (preserves state holds).lastly (fun _ => cleaned) cleaned fun _ _ => id

theorem Preserves.forEach {Item : Type w} {items : List Item}
    {body : Item → Command State Unit} (each : ∀ item ∈ items, Preserves mode Inv (body item)) :
    Preserves mode Inv (Command.forEach items body) := by
  intro state holds
  let kept : List Item → State → Prop := fun _ => Inv
  have initially : kept items state := holds
  exact Meets.forEach initially fun item rest state suffix =>
    each item (suffix.subset List.mem_cons_self) state

theorem Preserves.foldEach {Item : Type w} {items : List Item} {value : Value}
    {body : Value → Item → Command State Value}
    (each : ∀ item ∈ items, ∀ value, Preserves mode Inv (body value item)) :
    Preserves mode Inv (Command.foldEach items value body) := by
  intro state holds
  let kept : List Item → Value → State → Prop := fun _ _ => Inv
  have initially : kept items value state := holds
  exact Meets.foldEach initially fun value item rest state suffix =>
    each item (suffix.subset List.mem_cons_self) value state

end Preserving

section Strictness

/-- A command that ends as if nothing had happened when it ends done. -/
def Strict (command : Command State Value) : Prop :=
  ∀ state faults value world, command ⟨state, faults⟩ = (.done value, world) →
    command ⟨state, []⟩ = (.done value, ⟨world.state, []⟩)

theorem Strict.done (value : Value) : Strict (done value : Command State Value) := by
  rintro state faults _ _ ⟨⟩
  rfl

theorem Strict.pure (value : Value) : Strict (Pure.pure value : Command State Value) :=
  Strict.done value

theorem Strict.exit (message : String) : Strict (exit message : Command State Value) := by
  rintro state faults value world ⟨⟩

theorem Strict.bind {first : Command State Value} {next : Value → Command State Other}
    (strict : Strict first) (then_ : ∀ value, Strict (next value)) : Strict (first >>= next) := by
  intro state faults value world ended
  change andThen first next ⟨state, faults⟩ = _ at ended
  change andThen first next ⟨state, []⟩ = _
  unfold andThen at ended ⊢
  rcases result : first ⟨state, faults⟩ with ⟨middle | _ | _, after⟩ <;> rw [result] at ended
  · rw [strict state faults middle after result]
    exact then_ middle after.state after.faults value world ended
  · cases ended
  · cases ended

theorem Strict.call (message : String) (effect : State → Option (Value × State)) :
    Strict (call message effect) := by
  intro state faults value world ended
  unfold Command.call at ended ⊢
  dsimp only at ended ⊢
  have succeeds : ∀ rest, (match effect state with
      | some (value, state) => (Outcome.done value, World.mk state rest)
      | none => (.raised message, ⟨state, rest⟩)) = (.done value, world) →
      (match effect state with
      | some (value, state) => (Outcome.done value, World.mk state [])
      | none => (.raised message, ⟨state, []⟩)) = (.done value, ⟨world.state, []⟩) := by
    intro rest ended
    split at ended
    · obtain ⟨isValue, rfl⟩ := Prod.mk.inj ended
      rw [isValue]
    · cases ended
  rcases faults with _ | ⟨_ | _ | _, rest⟩
  · exact succeeds [] ended
  · exact succeeds rest ended
  · cases ended
  · cases ended

theorem Strict.query (read : State → Value) : Strict (query read) := Strict.call _ _

theorem Strict.change (message : String) (effect : State → Option State) :
    Strict (change message effect) :=
  Strict.call _ _

theorem Strict.require (condition : Bool) (message : String) :
    Strict (require condition message : Command State Unit) := by
  unfold Command.require
  split
  · exact .done ()
  · exact .exit message

theorem Strict.ite {condition : Prop} [Decidable condition] {first second : Command State Value}
    (onTrue : Strict first) (onFalse : Strict second) :
    Strict (if condition then first else second) := by
  split
  · exact onTrue
  · exact onFalse

/-- The handler is not run by a command that ends done. -/
theorem Strict.onException {body : Command State Value} (handler : Command State Unit)
    (strict : Strict body) : Strict (onException body handler) := by
  intro state faults value world ended
  unfold Command.onException at ended ⊢
  rcases result : body ⟨state, faults⟩ with ⟨_ | _ | _, after⟩ <;> rw [result] at ended
  · obtain ⟨⟨⟩, ⟨⟩⟩ := ended
    rw [strict state faults _ _ result]
  · dsimp only at ended
    rcases handled : handler after with ⟨_ | _ | _, _⟩ <;> rw [handled] at ended <;> cases ended
  · cases ended

theorem Strict.forEach {Item : Type w} {items : List Item} {body : Item → Command State Unit}
    (each : ∀ item, Strict (body item)) : Strict (forEach items body) := by
  induction items with
  | nil => exact .done ()
  | cons item rest ih => exact .bind (each item) fun _ => ih

theorem Strict.foldEach {Item : Type w} {items : List Item} {value : Value}
    {body : Value → Item → Command State Value} (each : ∀ value item, Strict (body value item)) :
    Strict (foldEach items value body) := by
  induction items generalizing value with
  | nil => exact .done value
  | cons item rest ih => exact .bind (each value item) fun _ => ih

/-- What holds when a command is done uninterrupted holds whenever it is done. -/
theorem Strict.meets {command : Command State Value} (strict : Strict command)
    (meets : Meets .reliable command state finished failed) {faults : List Fault} {value : Value}
    {world : World State} (ended : command ⟨state, faults⟩ = (.done value, world)) :
    finished value world.state := by
  have holds := meets [] rfl
  rw [strict state faults value world ended] at holds
  exact holds.1

end Strictness

section Exceptions

/-- A command raises only some exceptions, from any state and wherever it is cut off. -/
def Raises (allowed : String → Prop) (command : Command State Value) : Prop :=
  ∀ world message, (command world).1 = .raised message → allowed message

variable {allowed : String → Prop}

theorem Raises.done (value : Value) : Raises allowed (done value : Command State Value) := by
  rintro world message ⟨⟩

theorem Raises.pure (value : Value) : Raises allowed (Pure.pure value : Command State Value) :=
  Raises.done value

theorem Raises.exit {message : String} (isAllowed : allowed message) :
    Raises allowed (exit message : Command State Value) := by
  rintro world other ⟨⟩
  exact isAllowed

theorem Raises.bind {first : Command State Value} {next : Value → Command State Other}
    (raises : Raises allowed first) (then_ : ∀ value, Raises allowed (next value)) :
    Raises allowed (first >>= next) := by
  intro world message raised
  change (andThen first next world).1 = _ at raised
  unfold andThen at raised
  rcases result : first world with ⟨value | other | _, after⟩ <;> rw [result] at raised
  · exact then_ value after message raised
  · obtain rfl := Outcome.raised.inj raised
    exact raises world other (by rw [result])
  · cases raised

theorem Raises.call {message : String} {effect : State → Option (Value × State)}
    (interrupted : allowed "interrupted") (isAllowed : allowed message) :
    Raises allowed (call message effect) := by
  intro world other raised
  have effects : ∀ rest, (match effect world.state with
      | some (value, state) => (Outcome.done value, World.mk state rest)
      | none => (.raised message, ⟨world.state, rest⟩)).1 = .raised other → allowed other := by
    intro rest raised
    split at raised
    · cases raised
    · exact Outcome.raised.inj raised ▸ isAllowed
  unfold Command.call at raised
  split at raised
  · cases raised
  · exact Outcome.raised.inj raised ▸ interrupted
  · exact effects _ raised
  · exact effects _ raised

theorem Raises.require {condition : Bool} {message : String}
    (isAllowed : condition = false → allowed message) :
    Raises allowed (require condition message : Command State Unit) := by
  unfold Command.require
  split
  · exact .done ()
  · rename_i fails
    exact .exit (isAllowed (by simpa using fails))

theorem Raises.ite {condition : Prop} [Decidable condition] {first second : Command State Value}
    (onTrue : Raises allowed first) (onFalse : Raises allowed second) :
    Raises allowed (if condition then first else second) := by
  split
  · exact onTrue
  · exact onFalse

theorem Raises.onException {body : Command State Value} {handler : Command State Unit}
    (raises : Raises allowed body) (handles : Raises allowed handler) :
    Raises allowed (onException body handler) := by
  intro world message raised
  unfold Command.onException at raised
  rcases result : body world with ⟨_ | other | _, after⟩ <;> rw [result] at raised
  · cases raised
  · dsimp only at raised
    rcases handled : handler after with ⟨_ | last | _, ended⟩ <;> rw [handled] at raised
    · exact Outcome.raised.inj raised ▸ raises world other (by rw [result])
    · exact Outcome.raised.inj raised ▸ handles after last (by rw [handled])
    · cases raised
  · cases raised

theorem Raises.ignoreErrors (body : Command State Unit) : Raises allowed (ignoreErrors body) := by
  intro world message raised
  unfold Command.ignoreErrors at raised
  rcases result : body world with ⟨_ | _ | _, after⟩ <;> rw [result] at raised <;> cases raised

theorem Raises.forEach {Item : Type w} {items : List Item} {body : Item → Command State Unit}
    (each : ∀ item, Raises allowed (body item)) : Raises allowed (forEach items body) := by
  induction items with
  | nil => exact .done ()
  | cons item rest ih => exact .bind (each item) fun _ => ih

/-- The exceptions a command may raise from a state. -/
def RaisesFrom (allowed : String → Prop) (state : State) (command : Command State Value) : Prop :=
  ∀ faults message, (command ⟨state, faults⟩).1 = .raised message → allowed message

theorem Raises.from_ {command : Command State Value} (raises : Raises allowed command) :
    RaisesFrom allowed state command :=
  fun faults => raises ⟨state, faults⟩

theorem RaisesFrom.bind {first : Command State Value} {next : Value → Command State Other}
    (raises : RaisesFrom allowed state first)
    (meets : Meets .interrupted first state finished failed)
    (then_ : ∀ value middle, finished value middle → RaisesFrom allowed middle (next value)) :
    RaisesFrom allowed state (first >>= next) := by
  intro faults message raised
  have holds := meets faults trivial
  change (andThen first next ⟨state, faults⟩).1 = _ at raised
  unfold andThen at raised
  rcases result : first ⟨state, faults⟩ with ⟨value | other | _, after⟩ <;> rw [result] at raised holds
  · exact then_ value after.state holds.1 after.faults message raised
  · obtain rfl := Outcome.raised.inj raised
    exact raises faults other (by rw [result])
  · cases raised

end Exceptions

/-- What a specification says of the final state, whatever the outcome. -/
theorem Meets.final {command : Command State Value}
    (meets : Meets .interrupted command state (fun _ => failed) failed) (faults : List Fault) :
    failed (command ⟨state, faults⟩).2.state := by
  have holds := meets faults trivial
  rcases result : command ⟨state, faults⟩ with ⟨_ | _ | _, world⟩ <;> rw [result] at holds
  · exact holds.1
  · exact holds.1
  · exact holds.2

/-- What holds of every final state is a specification. -/
theorem Meets.ofFinal {command : Command State Value}
    (holds : ∀ faults, failed (command ⟨state, faults⟩).2.state) :
    Meets .interrupted command state (fun _ => failed) failed := by
  intro faults _
  have ended := holds faults
  rcases result : command ⟨state, faults⟩ with ⟨_ | _ | _, world⟩ <;> rw [result] at ended
  · exact ⟨ended, trivial⟩
  · exact ⟨ended, trivial⟩
  · exact ⟨rfl, ended⟩

/-- What a specification says of where a command failed or was cut off. -/
theorem Meets.stopped {command : Command State Value}
    (meets : Meets .interrupted command state finished failed) {faults : List Fault}
    (fails : (command ⟨state, faults⟩).1.isDone = false) : failed (command ⟨state, faults⟩).2.state := by
  have holds := meets faults trivial
  rcases result : command ⟨state, faults⟩ with ⟨_ | _ | _, world⟩ <;> rw [result] at holds fails
  · cases fails
  · exact holds.1
  · exact holds.2

/-- What holds of every state in which the command was done is a specification. -/
theorem Meets.ofDone {command : Command State Value}
    (holds : ∀ faults, (command ⟨state, faults⟩).1.isDone = true →
      failed (command ⟨state, faults⟩).2.state) :
    Meets .interrupted command state (fun _ => failed) fun _ => True := by
  intro faults _
  have ended := holds faults
  rcases result : command ⟨state, faults⟩ with ⟨_ | _ | _, world⟩ <;> rw [result] at ended
  · exact ⟨ended rfl, trivial⟩
  · exact ⟨trivial, trivial⟩
  · exact ⟨rfl, trivial⟩

/-- What a specification says of where a command was done. -/
theorem Meets.whenDone {command : Command State Value}
    (meets : Meets .interrupted command state (fun _ => failed) fun _ => True) {faults : List Fault}
    (isDone : (command ⟨state, faults⟩).1.isDone = true) : failed (command ⟨state, faults⟩).2.state := by
  have holds := meets faults trivial
  rcases result : command ⟨state, faults⟩ with ⟨_ | _ | _, world⟩ <;> rw [result] at holds isDone
  · exact holds.1
  · cases isDone
  · cases isDone

/-- What holds of every end of an uninterrupted command. -/
theorem Meets.ended {command : Command State Value}
    (meets : Meets .reliable command state (fun _ => failed) failed) :
    failed (command.run state).2 := by
  have holds := meets [] rfl
  unfold Command.run
  rcases result : command ⟨state, []⟩ with ⟨_ | _ | _, world⟩ <;> rw [result] at holds
  · exact holds.1
  · exact holds.1
  · exact holds.2

/-- What a command keeps holds where it ended uninterrupted. -/
theorem Preserves.run {Inv : State → Prop} {command : Command State Value}
    (preserves : Preserves .reliable Inv command) (holds : Inv state) :
    Inv (command.run state).2 :=
  (preserves state holds).ended

/-- What an uninterrupted command does. -/
theorem Meets.run {command : Command State Value}
    (meets : Meets .reliable command state finished failed) :
    (∃ value, (command.run state).1 = .done value ∧ finished value (command.run state).2) ∨
      (∃ message, (command.run state).1 = .raised message ∧ failed (command.run state).2) := by
  have holds := meets [] rfl
  unfold Command.run
  rcases result : command ⟨state, []⟩ with ⟨_ | _ | _, world⟩ <;> rw [result] at holds
  · exact .inl ⟨_, rfl, holds.1⟩
  · exact .inr ⟨_, rfl, holds.1⟩
  · exact absurd holds.1 (by decide)

end Specification

end Command

end MastProvisioning.Semantics
