import MastProvisioning.Driver.RegistryFile
import MastProvisioning.Semantics.System

/-!
# Recording a MAC in the unit registry

A driver that learns a MAC reads the registry, sets the MAC on its unit, writes the whole to
a temporary file of one fixed name and moves that over the registry. Nothing joins these
steps: other drivers take theirs and the operator saves in between.
-/

namespace MastProvisioning.Driver.MacRecording

open MastProvisioning.Semantics
open MastProvisioning.Driver.RegistryFile

section Model

variable (coercion : Coercion)

/-- What one recording is to record: the MAC of a unit. -/
structure Recording where
  hostname : String
  mac : String
deriving DecidableEq, Repr

/-- Where a recording is: a phase carries the entries it has read. -/
inductive Stage
  | idle
  | loaded (read : List UnitEntry)
  /-- The temporary file has been written, the move is still to come. -/
  | staged (read : List UnitEntry)
  /-- `REGISTRY_MAC_SET`. -/
  | recorded
  /-- `REGISTRY_MAC_WARN`. -/
  | warned

/-- The registry, the temporary file beside it, and where each recording is. -/
structure State (Recorder : Type) where
  file : Value
  temporary : Option Value
  stage : Recorder → Stage

/-- A step of a recording, or a save by the operator. -/
inductive Label (Recorder : Type)
  | load (recorder : Recorder)
  | write (recorder : Recorder)
  | replace (recorder : Recorder)
  | save (document : Value)

/-- The loop of `_persist_mac`. -/
def setMac (job : Recording) (units : List UnitEntry) : List UnitEntry :=
  units.map fun unit => if unit.hostname.text = job.hostname then { unit with mac := some job.mac } else unit

variable {Recorder : Type} [DecidableEq Recorder] (jobs : Recorder → Recording)

def State.enter (state : State Recorder) (recorder : Recorder) (stage : Stage) : State Recorder :=
  { state with stage := Function.update state.stage recorder stage }

/-- What a step does; a step out of turn does nothing. -/
def next (state : State Recorder) : Label Recorder → State Recorder
  | .load recorder =>
    match loadUnitRegistry coercion state.file with
    | none => state.enter recorder .warned
    | some read => state.enter recorder (.loaded read)
  | .write recorder =>
    match state.stage recorder with
    | .loaded read =>
      { state with temporary := some (dumpUnitRegistry (setMac (jobs recorder) read)) }.enter
        recorder (.staged read)
    | _ => state
  | .replace recorder =>
    match state.temporary with
    | none => state.enter recorder .warned
    | some document =>
      { state with file := document, temporary := none }.enter recorder .recorded
  | .save document => { state with file := document }

/-- Recordings and saves in any order. The operator saves what the loader accepts. -/
def registrySystem : System (State Recorder) (Label Recorder) where
  Initial state :=
    (loadUnitRegistry coercion state.file).isSome = true ∧ ∀ recorder, state.stage recorder = .idle
  Enabled state
    | .load recorder => state.stage recorder = .idle
    | .write recorder => ∃ read, state.stage recorder = .loaded read
    | .replace recorder => ∃ read, state.stage recorder = .staged read
    | .save document => (loadUnitRegistry coercion document).isSome = true
  next := next coercion jobs

end Model

section Meaning

variable (coercion : Coercion) {Recorder : Type} (jobs : Recorder → Recording)

/-- The entries as the operator last saved them. -/
def lastSaved (entries : List UnitEntry) :
    List (System.Taken (State Recorder) (Label Recorder)) → List UnitEntry :=
  List.foldl (fun entries taken =>
    match taken.2 with
    | .save document => (loadUnitRegistry coercion document).getD entries
    | _ => entries) entries

/-- The MAC last recorded for a unit since the operator last saved. A recording counts when
its move goes through. -/
def lastMac (hostname : String) :
    List (System.Taken (State Recorder) (Label Recorder)) → Option String :=
  List.foldl (fun mac taken =>
    match taken.2 with
    | .save _ => none
    | .replace recorder =>
      if taken.1.temporary.isSome ∧ (jobs recorder).hostname = hostname then
        some (jobs recorder).mac
      else mac
    | _ => mac) none

/-- An entry with the MAC recorded for it. -/
def withMac (unit : UnitEntry) : Option String → UnitEntry
  | none => unit
  | some mac => { unit with mac := some mac }

/-- What the registry should hold: every entry in its order as the operator last set it, and
each recorded MAC on its own unit. -/
def declared (entries : List UnitEntry)
    (trace : List (System.Taken (State Recorder) (Label Recorder))) : List UnitEntry :=
  (lastSaved coercion entries trace).map fun unit =>
    withMac unit (lastMac jobs unit.hostname.text trace)

/-- A move that nothing came between: the registry still holds the entries the recording
read, and the temporary file what it wrote. -/
def Undisturbed (state : State Recorder) : Label Recorder → Prop
  | .replace recorder => ∀ read, state.stage recorder = .staged read →
      loadUnitRegistry coercion state.file = some read ∧
        state.temporary = some (dumpUnitRegistry (setMac (jobs recorder) read))
  | _ => True

end Meaning

section Steps

variable {coercion : Coercion} {Recorder : Type} {jobs : Recorder → Recording}
  {trace : List (System.Taken (State Recorder) (Label Recorder))} {entries : List UnitEntry}
  {state : State Recorder}

@[simp] theorem withMac_hostname (unit : UnitEntry) (mac : Option String) :
    (withMac unit mac).hostname = unit.hostname := by
  cases mac <;> rfl

/-- A save declares what it saves. -/
theorem declared_save {document : Value} {saved : List UnitEntry}
    (accepted : loadUnitRegistry coercion document = some saved) :
    declared coercion jobs entries (trace ++ [(state, .save document)]) = saved := by
  have noMac (hostname : String) : lastMac jobs hostname (trace ++ [(state, .save document)]) =
      none := by simp [lastMac]
  have last : lastSaved coercion entries (trace ++ [(state, .save document)]) = saved := by
    simp [lastSaved, accepted]
  simp [declared, noMac, last, withMac]

/-- A recording whose move goes through declares its MAC on its own unit. -/
theorem declared_replace {recorder : Recorder} (through : state.temporary.isSome = true) :
    declared coercion jobs entries (trace ++ [(state, .replace recorder)]) =
      setMac (jobs recorder) (declared coercion jobs entries trace) := by
  have last : lastSaved coercion entries (trace ++ [(state, .replace recorder)]) =
      lastSaved coercion entries trace := by simp [lastSaved]
  have macs (hostname : String) : lastMac jobs hostname (trace ++ [(state, .replace recorder)]) =
      if (jobs recorder).hostname = hostname then some (jobs recorder).mac
      else lastMac jobs hostname trace := by simp [lastMac, through]
  unfold declared setMac
  rw [last, List.map_map]
  apply List.map_congr_left
  intro unit _
  rw [macs, Function.comp_apply, withMac_hostname]
  by_cases own : (jobs recorder).hostname = unit.hostname.text
  · rw [if_pos own, if_pos own.symm]
    cases lastMac jobs unit.hostname.text trace <;> rfl
  · rw [if_neg own, if_neg fun same => own same.symm]

/-- The other steps declare nothing. -/
theorem declared_other {label : Label Recorder}
    (other : (∃ recorder, label = .load recorder) ∨ ∃ recorder, label = .write recorder) :
    declared coercion jobs entries (trace ++ [(state, label)]) =
      declared coercion jobs entries trace := by
  rcases other with ⟨recorder, rfl⟩ | ⟨recorder, rfl⟩
  · simp [declared, lastSaved, lastMac]
  · simp [declared, lastSaved, lastMac]

end Steps

section Runs

variable {coercion : Coercion} {Recorder : Type} [DecidableEq Recorder]
  {jobs : Recorder → Recording} {state : State Recorder}

/-- Reading a registry and writing it leaves the registry. -/
theorem next_file (label : Label Recorder)
    (other : (∃ recorder, label = .load recorder) ∨ ∃ recorder, label = .write recorder) :
    (next coercion jobs state label).file = state.file := by
  rcases other with ⟨recorder, rfl⟩ | ⟨recorder, rfl⟩
  · unfold next
    cases loadUnitRegistry coercion state.file <;> rfl
  · simp only [next]
    split <;> rfl

end Runs

section Samples

/-- Reads integers alone. -/
def integers : Coercion where
  toInt
    | .integer value => some value
    | _ => none
  toInt_integer _ := rfl

def entryValue (hostname : String) : Value :=
  .object [("hostname", .text hostname), ("site", .text "ns")]

def sampleStart : State Bool where
  file := .list [entryValue "mast01", entryValue "mast02"]
  temporary := none
  stage _ := .idle

/-- Two drivers, each with a unit of its own. -/
def sampleJobs : Bool → Recording
  | true => ⟨"mast01", "10-7C-61-5B-06-25"⟩
  | false => ⟨"mast02", "08-00-27-48-EA-CE"⟩

theorem sampleStart_initial : (registrySystem integers sampleJobs).Initial sampleStart :=
  ⟨by decide +kernel, fun _ => rfl⟩

/-- One driver after the other. -/
def inTurn : List (Label Bool) :=
  [.load true, .write true, .replace true, .load false, .write false, .replace false]

/-- Both read the registry before either moves. -/
def crossed : List (Label Bool) :=
  [.load true, .load false, .write true, .replace true, .write false, .replace false]

theorem inTurn_follows : (registrySystem integers sampleJobs).Follows sampleStart inTurn :=
  ⟨rfl, ⟨_, rfl⟩, ⟨_, rfl⟩, rfl, ⟨_, rfl⟩, ⟨_, rfl⟩, trivial⟩

theorem crossed_follows : (registrySystem integers sampleJobs).Follows sampleStart crossed :=
  ⟨rfl, rfl, ⟨_, rfl⟩, ⟨_, rfl⟩, ⟨_, rfl⟩, ⟨_, rfl⟩, trivial⟩

end Samples

section Recordings

variable {Recorder : Type} [DecidableEq Recorder]

/-- In a run in which nothing comes between a recording and its move, the registry holds in
every state what was declared. -/
theorem recordings_keep_registry (coercion : Coercion) (jobs : Recorder → Recording)
    {start state : State Recorder}
    {trace : List (System.Taken (State Recorder) (Label Recorder))}
    (run : (registrySystem coercion jobs).Run start trace state)
    (undisturbed : ∀ taken ∈ trace, Undisturbed coercion jobs taken.1 taken.2) :
    ∃ entries, loadUnitRegistry coercion start.file = some entries ∧
      loadUnitRegistry coercion state.file = some (declared coercion jobs entries trace) := by
  induction run with
  | initial valid =>
    obtain ⟨entries, loaded⟩ := Option.isSome_iff_exists.mp valid.1
    have nothing : declared coercion jobs entries [] = entries := by
      simp [declared, lastSaved, lastMac, withMac]
    refine ⟨entries, loaded, ?_⟩
    rw [nothing]
    exact loaded
  | @step trace state label prior enabled ih =>
    obtain ⟨entries, loaded, holds⟩ := ih fun taken member =>
      undisturbed taken (List.mem_append_left _ member)
    have last : Undisturbed coercion jobs state label :=
      undisturbed (state, label) (List.mem_append_right _ (List.mem_singleton_self _))
    refine ⟨entries, loaded, ?_⟩
    cases label with
    | load recorder =>
      rw [declared_other (.inl ⟨recorder, rfl⟩), ← holds]
      exact congrArg _ (next_file _ (.inl ⟨recorder, rfl⟩))
    | write recorder =>
      rw [declared_other (.inr ⟨recorder, rfl⟩), ← holds]
      exact congrArg _ (next_file _ (.inr ⟨recorder, rfl⟩))
    | replace recorder =>
      obtain ⟨read, staged⟩ := enabled
      obtain ⟨current, own⟩ := last read staged
      have same : declared coercion jobs entries trace = read := by
        rw [holds] at current
        exact Option.some.inj current
      have moved : ((registrySystem coercion jobs).next state (.replace recorder)).file =
          dumpUnitRegistry (setMac (jobs recorder) read) := by
        show (next coercion jobs state (.replace recorder)).file = _
        simp only [next, own]
        rfl
      rw [moved, loadUnitRegistry_dumpUnitRegistry, declared_replace (by simp [own]), same]
    | save document =>
      obtain ⟨saved, accepted⟩ := Option.isSome_iff_exists.mp enabled
      rw [declared_save accepted]
      exact accepted

theorem recordings_keep_registry_inTurn :
    ∃ entries, loadUnitRegistry integers sampleStart.file = some entries ∧
      loadUnitRegistry integers
          ((registrySystem integers sampleJobs).after sampleStart inTurn).file =
        some (declared integers sampleJobs entries
          ((registrySystem integers sampleJobs).steps sampleStart inTurn)) := by
  apply recordings_keep_registry integers sampleJobs
    (System.Run.ofLabels sampleStart_initial inTurn_follows)
  intro taken member
  simp only [inTurn, System.steps, List.mem_cons, List.not_mem_nil, or_false] at member
  rcases member with rfl | rfl | rfl | rfl | rfl | rfl
  · trivial
  · trivial
  · rintro read ⟨⟩
    exact ⟨rfl, rfl⟩
  · trivial
  · trivial
  · rintro read ⟨⟩
    exact ⟨rfl, rfl⟩

/-- The second move puts back the registry without the MAC of the first. -/
theorem other_mac_reverted :
    (registrySystem integers sampleJobs).Run sampleStart
      ((registrySystem integers sampleJobs).steps sampleStart crossed)
      ((registrySystem integers sampleJobs).after sampleStart crossed) ∧
    ∀ entries, loadUnitRegistry integers sampleStart.file = some entries →
      loadUnitRegistry integers
          ((registrySystem integers sampleJobs).after sampleStart crossed).file ≠
        some (declared integers sampleJobs entries
          ((registrySystem integers sampleJobs).steps sampleStart crossed)) := by
  refine ⟨System.Run.ofLabels sampleStart_initial crossed_follows, ?_⟩
  intro entries loaded same
  cases loaded
  have macs := congrArg (Option.map (List.map UnitEntry.mac)) same
  exact absurd macs (by decide +kernel)

end Recordings

end MastProvisioning.Driver.MacRecording
