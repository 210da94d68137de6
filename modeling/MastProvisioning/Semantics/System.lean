import Mathlib.Order.Basic

/-!
# Labelled systems and their runs

A component that takes one step at a time is a `System`: which states it may
start in, which steps are possible in a state, and what each step does. A `Run`
keeps the steps it took together with the state each one left, so a condition on
steps can be stated about a whole run.

`Run.invariant` is the rule every safety result rests on: a property that holds
initially, and that every step meeting a guard preserves, holds at the end of
every run whose steps all meet that guard.
-/

namespace MastProvisioning.Semantics

universe u v

/-- A system that takes labelled steps. -/
structure System (State : Type u) (Label : Type v) where
  Initial : State → Prop
  Enabled : State → Label → Prop
  next : State → Label → State

namespace System

variable {State : Type u} {Label : Type v} (sys : System State Label)

/-- A step of a run: the state it left and what it did. -/
abbrev Taken (State : Type u) (Label : Type v) := State × Label

/-- `sys.Run start trace state`: from the initial state `start`, the steps of
`trace` lead to `state`. -/
inductive Run (start : State) : List (Taken State Label) → State → Prop
  | initial (valid : sys.Initial start) : Run start [] start
  | step {trace : List (Taken State Label)} {state : State} {label : Label}
      (prior : Run start trace state) (enabled : sys.Enabled state label) :
      Run start (trace ++ [(state, label)]) (sys.next state label)

/-- The state a sequence of labels leads to. -/
def after (state : State) (labels : List Label) : State :=
  labels.foldl sys.next state

/-- Each label of a sequence is enabled where it is taken. -/
def Follows : State → List Label → Prop
  | _, [] => True
  | state, label :: rest => sys.Enabled state label ∧ Follows (sys.next state label) rest

/-- The steps a sequence of labels takes. -/
def steps : State → List Label → List (Taken State Label)
  | _, [] => []
  | state, label :: rest => (state, label) :: steps (sys.next state label) rest

variable {sys}

theorem after_append (state : State) (first second : List Label) :
    sys.after state (first ++ second) = sys.after (sys.after state first) second := by
  simp [after]

theorem follows_append {state : State} {first second : List Label} :
    sys.Follows state (first ++ second) ↔
      sys.Follows state first ∧ sys.Follows (sys.after state first) second := by
  induction first generalizing state with
  | nil => simp [Follows, after]
  | cons label rest ih =>
    rw [List.cons_append, Follows, Follows, ih, and_assoc]
    rfl

theorem label_of_mem_steps {state : State} {labels : List Label} {taken : Taken State Label}
    (member : taken ∈ sys.steps state labels) : taken.2 ∈ labels := by
  induction labels generalizing state with
  | nil => cases member
  | cons first rest ih =>
    rcases List.mem_cons.mp member with rfl | later
    · exact List.mem_cons_self
    · exact List.mem_cons_of_mem _ (ih later)

/-- Each step of a sequence is taken in the state the steps before it lead to. -/
theorem mem_steps (state : State) (before : List Label) (label : Label) (rest : List Label) :
    (sys.after state before, label) ∈ sys.steps state (before ++ label :: rest) := by
  induction before generalizing state with
  | nil => exact List.mem_cons_self
  | cons first before ih => exact List.mem_cons_of_mem _ (ih (sys.next state first))

/-- The last step of a sequence is taken in the state the others lead to. -/
theorem last_mem_steps (state : State) (labels : List Label) (label : Label) :
    (sys.after state labels, label) ∈ sys.steps state (labels ++ [label]) :=
  mem_steps state labels label []

/-- A run continues along any enabled sequence of labels. -/
theorem Run.extend {start state : State} {trace : List (Taken State Label)}
    (prior : sys.Run start trace state) {labels : List Label}
    (follows : sys.Follows state labels) :
    sys.Run start (trace ++ sys.steps state labels) (sys.after state labels) := by
  induction labels generalizing state trace with
  | nil => simpa [steps, after] using prior
  | cons label rest ih =>
    obtain ⟨enabled, follows⟩ := follows
    have extended := ih (prior.step enabled) follows
    simpa [steps, after] using extended

/-- An enabled sequence of labels from an initial state is a run. -/
theorem Run.ofLabels {start : State} (valid : sys.Initial start) {labels : List Label}
    (follows : sys.Follows start labels) :
    sys.Run start (sys.steps start labels) (sys.after start labels) := by
  simpa using (Run.initial valid).extend follows

theorem Run.valid {start state : State} {trace : List (Taken State Label)}
    (run : sys.Run start trace state) : sys.Initial start := by
  induction run with
  | initial valid => exact valid
  | step _ _ ih => exact ih

/-- A property of the state a run starts from that every guarded step preserves holds
at its end when its steps meet the guard. -/
theorem Run.invariantFrom {Inv : State → Prop} {Guard : State → Label → Prop}
    {start state : State} {trace : List (Taken State Label)} (run : sys.Run start trace state)
    (initially : Inv start)
    (preserved : ∀ state label, Inv state → Guard state label → sys.Enabled state label →
      Inv (sys.next state label))
    (guarded : ∀ taken ∈ trace, Guard taken.1 taken.2) : Inv state := by
  induction run with
  | initial => exact initially
  | step _ enabled ih =>
    have earlier := ih fun taken member => guarded taken (List.mem_append_left _ member)
    have last := guarded _ (List.mem_append_right _ (List.mem_singleton_self _))
    exact preserved _ _ earlier last enabled

/-- A property that holds initially and that every guarded step preserves holds
at the end of every run whose steps meet the guard. -/
theorem Run.invariant {Inv : State → Prop} {Guard : State → Label → Prop}
    (initially : ∀ state, sys.Initial state → Inv state)
    (preserved : ∀ state label, Inv state → Guard state label → sys.Enabled state label →
      Inv (sys.next state label))
    {start state : State} {trace : List (Taken State Label)} (run : sys.Run start trace state)
    (guarded : ∀ taken ∈ trace, Guard taken.1 taken.2) : Inv state :=
  run.invariantFrom (initially start run.valid) preserved guarded

/-- What an invariant says of each guarded step holds of every step of a run
whose steps meet the guard. -/
theorem Run.everyStep {Inv : State → Prop} {Guard Safe : State → Label → Prop}
    (initially : ∀ state, sys.Initial state → Inv state)
    (preserved : ∀ state label, Inv state → Guard state label → sys.Enabled state label →
      Inv (sys.next state label))
    (safe : ∀ state label, Inv state → Guard state label → sys.Enabled state label →
      Safe state label)
    {start state : State} {trace : List (Taken State Label)} (run : sys.Run start trace state)
    (guarded : ∀ taken ∈ trace, Guard taken.1 taken.2) :
    ∀ taken ∈ trace, Safe taken.1 taken.2 := by
  induction run with
  | initial => simp
  | @step trace state label prior enabled ih =>
    have guardedPrior : ∀ taken ∈ trace, Guard taken.1 taken.2 :=
      fun taken member => guarded taken (List.mem_append_left _ member)
    have holds := prior.invariant initially preserved guardedPrior
    have last := guarded _ (List.mem_append_right _ (List.mem_singleton_self _))
    intro taken member
    rcases List.mem_append.mp member with earlier | here
    · exact ih guardedPrior taken earlier
    · rw [List.mem_singleton.mp here]
      exact safe _ _ holds last enabled

theorem Run.enabled {start state : State} {trace : List (Taken State Label)}
    (run : sys.Run start trace state) : ∀ taken ∈ trace, sys.Enabled taken.1 taken.2 := by
  induction run with
  | initial => simp
  | step prior enabled ih =>
    intro taken member
    rcases List.mem_append.mp member with earlier | here
    · exact ih taken earlier
    · rw [List.mem_singleton.mp here]
      exact enabled

/-- When a step is safe only under the guard, the guard is exactly what a run
needs for all its steps to be safe. -/
theorem Run.everyStep_iff {Inv : State → Prop} {Guard Safe : State → Label → Prop}
    (initially : ∀ state, sys.Initial state → Inv state)
    (preserved : ∀ state label, Inv state → Guard state label → sys.Enabled state label →
      Inv (sys.next state label))
    (safe : ∀ state label, Inv state → Guard state label → sys.Enabled state label →
      Safe state label)
    (needed : ∀ state label, sys.Enabled state label → Safe state label → Guard state label)
    {start state : State} {trace : List (Taken State Label)} (run : sys.Run start trace state) :
    (∀ taken ∈ trace, Safe taken.1 taken.2) ↔ ∀ taken ∈ trace, Guard taken.1 taken.2 := by
  constructor
  · exact fun allSafe taken member =>
      needed taken.1 taken.2 (run.enabled taken member) (allSafe taken member)
  · exact run.everyStep initially preserved safe

/-- A property that holds initially and that every step preserves holds at the
end of every run. -/
theorem Run.always {Inv : State → Prop}
    (initially : ∀ state, sys.Initial state → Inv state)
    (preserved : ∀ state label, Inv state → sys.Enabled state label →
      Inv (sys.next state label))
    {start state : State} {trace : List (Taken State Label)}
    (run : sys.Run start trace state) : Inv state := by
  induction run with
  | initial valid => exact initially _ valid
  | step _ enabled ih => exact preserved _ _ ih enabled

end System

end MastProvisioning.Semantics
