import Mathlib
import MastProvisioning.PowerShell.Text
import MastProvisioning.Unit.Lease

/-!
# When the execute lease excludes

The lease excludes as long as nobody puts a lease in place between the read and
the write of an acquire, or between the read and the delete of a release. The
script checks neither, so the results here carry that as the condition
`Undisturbed` on the steps of a run, and `acquire_race` is a run without it.
-/

namespace MastProvisioning.Unit.Lease

open MastProvisioning.Semantics MastProvisioning.PowerShell

variable {Process : Type}

/-- No lease other than the one in `read` is in place in `file`. -/
def Unreplaced (read file : LeaseFile) : Prop :=
  ∀ lease, file = .holds lease → read = .holds lease

/-- The condition on a step under which the lease does its work. A move finds no
lease but the one its process read, and moves that process's own record; a delete
finds no lease but the one its process read; a release that was skipped does not
fail to say so. -/
def Undisturbed (state : State Process) : Label Process → Prop
  | .move process => ∀ existing lease, state.phase process = .staged existing lease →
      Unreplaced existing state.file ∧ state.temporary = some lease
  | .releaseAct process _ => ∀ lease current, state.phase process = .releasing lease current →
      Unreplaced current state.file
  | .releaseLog process fails => state.phase process = .logSkipped → fails = false
  | .releaseClean process _ => ∀ left, state.phase process = .cleaning left →
      Unreplaced left state.file
  | _ => True

/-- A process between acquiring and releasing whose lease has not run out. -/
def HoldsLease (state : State Process) (process : Process) : Prop :=
  ∃ lease, (state.phase process).section? = some lease ∧ ¬ lease.expired state.clock

/-- A step of `process` that deletes a lease file naming another run. -/
def RemovesOther [DecidableEq Process] (fold : String → String) (executes : Executes Process) (state : State Process)
    (label : Label Process) : Prop :=
  ∃ process removed lease,
    (label = .releaseAct process removed ∨ label = .releaseClean process removed) ∧
    state.file = .holds lease ∧ lease.runId ≠ executes.runId process ∧
    (next fold executes state label).file = .absent

/-- What every undisturbed run maintains. -/
structure Inv (executes : Executes Process) (state : State Process) : Prop where
  /-- A run the lease file names has got as far as writing it. -/
  named : ∀ lease process, state.file = .holds lease → lease.runId = executes.runId process →
    lease.pid = some (executes.pid process) ∧ ¬ (state.phase process).early
  /-- So has a run named by what some process read. -/
  seen : ∀ lease process reader, (state.phase reader).existing? = some (.holds lease) →
    lease.runId = executes.runId process →
    lease.pid = some (executes.pid process) ∧ ¬ (state.phase process).early
  /-- The lease a process passed over is of no process that still counts on it. -/
  stale : ∀ lease process reader, (state.phase reader).passed? = some (.holds lease) →
    lease.runId = executes.runId process →
    (state.phase process).finished ∨ lease.expired state.clock
  own : ∀ process lease, (state.phase process).own? = some lease →
    lease.runId = executes.runId process ∧ lease.pid = some (executes.pid process)
  left : ∀ process lease, (state.phase process).left? = some (.holds lease) →
    lease.runId = executes.runId process
  /-- The lease of a process inside the section is in place until it runs out. -/
  inPlace : ∀ process lease, (state.phase process).section? = some lease →
    state.file = .holds lease ∨ lease.expired state.clock
  /-- While a process is inside the section, the lease file names one of the runs. -/
  ours : ∀ process lease current, (state.phase process).section? = some lease →
    state.file = .holds current → ∃ other, current.runId = executes.runId other

theorem Phase.own?_of_section? {phase : Phase} {lease : LeaseObject}
    (inside : phase.section? = some lease) : phase.own? = some lease := by
  cases phase <;> simp_all [Phase.section?, Phase.own?]

theorem Phase.existing?_of_passed? {phase : Phase} {existing : LeaseFile}
    (passed : phase.passed? = some existing) : phase.existing? = some existing := by
  cases phase <;> simp_all [Phase.passed?, Phase.existing?]

theorem Phase.not_finished_of_section? {phase : Phase} {lease : LeaseObject}
    (inside : phase.section? = some lease) : ¬ phase.finished := by
  cases phase <;> simp_all [Phase.section?, Phase.finished]

theorem Phase.live_of_not_early {phase : Phase} (late : ¬ phase.early)
    (unfinished : ¬ phase.finished) : phase.live := by
  cases phase <;> simp_all [Phase.early, Phase.finished, Phase.live]

variable {executes : Executes Process} {state : State Process}

/-- Replacing the lease file keeps the invariant when the new content names only
runs that wrote it and every lease that counts is still in place. -/
theorem Inv.replace (holds : Inv executes state) {file : LeaseFile} (temporary : Option LeaseObject)
    (named : ∀ lease process, file = .holds lease → lease.runId = executes.runId process →
      lease.pid = some (executes.pid process) ∧ ¬ (state.phase process).early)
    (inPlace : ∀ process lease, (state.phase process).section? = some lease →
      file = .holds lease ∨ lease.expired state.clock)
    (ours : ∀ process lease current, (state.phase process).section? = some lease →
      file = .holds current → ∃ other, current.runId = executes.runId other) :
    Inv executes { state with file := file, temporary := temporary } where
  named := named
  seen := holds.seen
  stale := holds.stale
  own := holds.own
  left := holds.left
  inPlace := inPlace
  ours := ours

/-- Deleting a lease that no process inside the section counts on keeps the
invariant, whether or not the delete takes effect. -/
theorem Inv.remove (holds : Inv executes state) (removed : Bool)
    (uncounted : ∀ process lease, (state.phase process).section? = some lease →
      state.file = .holds lease → lease.expired state.clock) :
    Inv executes { state with file := state.file.removeItem removed } := by
  refine holds.replace state.temporary ?_ ?_ ?_
  · intro lease process inFile names
    cases removed with
    | true => simp [LeaseFile.removeItem] at inFile
    | false => exact holds.named lease process inFile names
  · intro process lease inside
    refine .inr ?_
    rcases holds.inPlace process lease inside with inFile | expired
    · exact uncounted process lease inside inFile
    · exact expired
  · intro process lease current inside inFile
    cases removed with
    | true => simp [LeaseFile.removeItem] at inFile
    | false => exact holds.ours process lease current inside inFile

theorem Inv.tick (holds : Inv executes state) (seconds : Nat) :
    Inv executes { state with clock := state.clock + seconds } where
  named := holds.named
  seen := holds.seen
  stale lease process reader passed names :=
    (holds.stale lease process reader passed names).imp id fun expired =>
      expired.later (by simp only; omega)
  own := holds.own
  left := holds.left
  inPlace process lease inside :=
    (holds.inPlace process lease inside).imp id fun expired => expired.later (by simp only; omega)
  ours := holds.ours

theorem LeaseFile.readBack_holds {file : LeaseFile} {fails : Bool} {lease : LeaseObject}
    (read : file.readBack fails = .holds lease) : file = .holds lease := by
  unfold LeaseFile.readBack at read
  split at read
  · cases read
  · split at read
    · cases read
    · exact read

/-- A process passes over the lease of another only when that process is gone or
its lease has run out. -/
theorem stale_of_decide (holds : Inv executes state) {process : Process} {processAlive : Bool}
    {existing : LeaseFile} (deciding : state.phase process = .deciding existing)
    (answer : ∀ lease other, existing = .holds lease → lease.pid = some (executes.pid other) →
      (state.phase other).live → processAlive = true)
    (proceeds : leaseHeld existing processAlive state.clock = false)
    {lease : LeaseObject} {other : Process} (found : existing = .holds lease)
    (names : lease.runId = executes.runId other) :
    (state.phase other).finished ∨ lease.expired state.clock := by
  obtain ⟨recorded, late⟩ := holds.seen lease other process
    (by simp [deciding, Phase.existing?, found]) names
  by_cases finished : (state.phase other).finished
  · exact .inl finished
  · have alive := answer lease other found recorded (Phase.live_of_not_early late finished)
    subst alive found
    exact .inr (expired_of_not_leaseHeld recorded (executes.pid_pos other) proceeds)

variable [DecidableEq Process] {fold : String → String}

/-- A process that moves on keeps the invariant when what its new phase records
is backed by what was true before. -/
theorem Inv.enter (holds : Inv executes state) {process : Process} {phase : Phase}
    (advances : ¬ (state.phase process).early → ¬ phase.early)
    (finishes : (state.phase process).finished → phase.finished)
    (seen : ∀ lease, phase.existing? = some (.holds lease) →
      state.file = .holds lease ∨ (state.phase process).existing? = some (.holds lease))
    (stale : ∀ lease other, phase.passed? = some (.holds lease) →
      lease.runId = executes.runId other →
      (state.phase other).finished ∨ lease.expired state.clock)
    (own : ∀ lease, phase.own? = some lease →
      lease.runId = executes.runId process ∧ lease.pid = some (executes.pid process))
    (left : ∀ lease, phase.left? = some (.holds lease) → lease.runId = executes.runId process)
    (inPlace : ∀ lease, phase.section? = some lease →
      (state.phase process).section? = some lease ∨ state.file = .holds lease) :
    Inv executes (state.enter process phase) := by
  have late : ∀ other, ¬ (state.phase other).early →
      ¬ ((state.enter process phase).phase other).early := by
    intro other notEarly
    by_cases same : other = process
    · subst same; simpa using advances notEarly
    · simpa [same] using notEarly
  have done : ∀ other, (state.phase other).finished →
      ((state.enter process phase).phase other).finished := by
    intro other finished
    by_cases same : other = process
    · subst same; simpa using finishes finished
    · simpa [same] using finished
  refine ⟨?_, ?_, ?_, ?_, ?_, ?_, ?_⟩
  · intro lease other inFile names
    obtain ⟨recorded, notEarly⟩ := holds.named lease other inFile names
    exact ⟨recorded, late other notEarly⟩
  · intro lease other reader read names
    have backed : state.file = .holds lease ∨
        ∃ earlier, (state.phase earlier).existing? = some (.holds lease) := by
      by_cases same : reader = process
      · subst same
        rcases seen lease (by simpa using read) with inFile | before
        · exact .inl inFile
        · exact .inr ⟨reader, before⟩
      · exact .inr ⟨reader, by simpa [same] using read⟩
    rcases backed with inFile | ⟨earlier, before⟩
    · obtain ⟨recorded, notEarly⟩ := holds.named lease other inFile names
      exact ⟨recorded, late other notEarly⟩
    · obtain ⟨recorded, notEarly⟩ := holds.seen lease other earlier before names
      exact ⟨recorded, late other notEarly⟩
  · intro lease other reader passed names
    by_cases same : reader = process
    · subst same
      have passedHere : phase.passed? = some (.holds lease) := by simpa using passed
      exact (stale lease other passedHere names).imp (done other) id
    · have before : (state.phase reader).passed? = some (.holds lease) := by
        simpa [same] using passed
      exact (holds.stale lease other reader before names).imp (done other) id
  · intro other lease owned
    by_cases same : other = process
    · subst same; exact own lease (by simpa using owned)
    · exact holds.own other lease (by simpa [same] using owned)
  · intro other lease kept
    by_cases same : other = process
    · subst same; exact left lease (by simpa using kept)
    · exact holds.left other lease (by simpa [same] using kept)
  · intro other lease inside
    by_cases same : other = process
    · subst same
      rcases inPlace lease (by simpa using inside) with before | inFile
      · exact holds.inPlace other lease before
      · exact .inl inFile
    · exact holds.inPlace other lease (by simpa [same] using inside)
  · intro other lease current inside inFile
    by_cases same : other = process
    · subst same
      have insideHere : phase.section? = some lease := by simpa using inside
      rcases inPlace lease insideHere with before | placed
      · exact holds.ours other lease current before inFile
      · have equal : current = lease := by simpa [placed] using inFile.symm
        exact ⟨other, equal ▸ (own lease (Phase.own?_of_section? insideHere)).1⟩
    · exact holds.ours other lease current (by simpa [same] using inside) inFile

/-- A phase that records nothing: only the progress of the process matters. -/
theorem Inv.leave (holds : Inv executes state) {process : Process} {phase : Phase}
    (late : ¬ phase.early) (finishes : (state.phase process).finished → phase.finished)
    (existing : phase.existing? = none) (own : phase.own? = none)
    (left : ∀ lease, phase.left? = some (.holds lease) →
      lease.runId = executes.runId process) :
    Inv executes (state.enter process phase) := by
  have passed : phase.passed? = none := by
    cases phase <;> simp_all [Phase.passed?, Phase.existing?]
  have outside : phase.section? = none := by
    cases phase <;> simp_all [Phase.section?, Phase.own?]
  exact holds.enter (fun _ => late) finishes (by simp [existing]) (by simp [passed])
    (by simp [own]) left (by simp [outside])

/-- Moving its own record into place keeps the invariant when the lease file
holds no lease but the one the process decided on. -/
theorem Inv.move (holds : Inv executes state) {process : Process} {existing : LeaseFile}
    {lease : LeaseObject} (staged : state.phase process = .staged existing lease)
    (unreplaced : Unreplaced existing state.file) :
    Inv executes
      { state.enter process (.running lease) with file := .holds lease, temporary := none } := by
  obtain ⟨names, recorded⟩ := holds.own process lease (by simp [staged, Phase.own?])
  have placed : Inv executes { state with file := .holds lease, temporary := none } := by
    refine holds.replace none ?_ ?_ ?_
    · intro moved other inFile namesOther
      have equal : lease = moved := by simpa using inFile
      subst equal
      have same := executes.runId_injective (names.symm.trans namesOther)
      subst same
      exact ⟨recorded, by simp [staged, Phase.early]⟩
    · intro other counted inside
      refine .inr ?_
      rcases holds.inPlace other counted inside with inFile | expired
      · have read : existing = .holds counted := unreplaced counted inFile
        have namesOther := (holds.own other counted (Phase.own?_of_section? inside)).1
        have passed : (state.phase process).passed? = some (.holds counted) := by
          simp [staged, Phase.passed?, read]
        rcases holds.stale counted other process passed namesOther with finished | expired
        · exact absurd finished (Phase.not_finished_of_section? inside)
        · exact expired
      · exact expired
    · intro _ _ current _ inFile
      have equal : lease = current := by simpa using inFile
      exact ⟨process, equal ▸ names⟩
  have entered : Inv executes
      (({ state with file := .holds lease, temporary := none } : State Process).enter process
        (.running lease)) := by
    refine placed.enter ?_ ?_ ?_ ?_ ?_ ?_ ?_
    · intro _; simp [Phase.early]
    · simp [staged, Phase.finished]
    · simp [Phase.existing?]
    · simp [Phase.passed?]
    · intro own isOwn
      have equal : lease = own := by simpa [Phase.own?] using isOwn
      exact equal ▸ ⟨names, recorded⟩
    · simp [Phase.left?]
    · intro inside isInside
      have equal : lease = inside := by simpa [Phase.section?] using isInside
      exact .inr (by rw [equal])
  exact entered

/-- Run ids that PowerShell's `-eq` tells apart. -/
def CaseDistinct (fold : String → String) (executes : Executes Process) : Prop :=
  ∀ process other, fold (executes.runId process) = fold (executes.runId other) → process = other

omit [DecidableEq Process] in
/-- A release that finds the name of its own run finds its own lease. -/
theorem own_of_release (distinct : CaseDistinct fold executes) (holds : Inv executes state)
    {process : Process} {lease current : LeaseObject} {read : LeaseFile}
    (releasing : state.phase process = .releasing lease read)
    (matched : fold current.runId = fold (executes.runId process))
    (inFile : state.file = .holds current) : current.runId = executes.runId process := by
  obtain ⟨other, names⟩ :=
    holds.ours process lease current (by simp [releasing, Phase.section?]) inFile
  rw [names] at matched ⊢
  rw [distinct other process matched]

theorem Inv.read (holds : Inv executes state) {process : Process}
    (fresh : state.phase process = .notStarted) (fails : Bool) :
    Inv executes (state.enter process (.deciding (state.file.readBack fails))) := by
  refine holds.enter ?_ ?_ ?_ ?_ ?_ ?_ ?_
  · simp [fresh, Phase.early]
  · simp [fresh, Phase.finished]
  · intro lease read
    have read : state.file.readBack fails = .holds lease := by simpa [Phase.existing?] using read
    exact .inl (LeaseFile.readBack_holds read)
  · simp [Phase.passed?]
  · simp [Phase.own?]
  · simp [Phase.left?]
  · simp [Phase.section?]

/-- Passing the refusal test. -/
theorem Inv.clear (holds : Inv executes state) {process : Process} {processAlive : Bool}
    {existing : LeaseFile} (deciding : state.phase process = .deciding existing)
    (answer : ∀ lease other, existing = .holds lease → lease.pid = some (executes.pid other) →
      (state.phase other).live → processAlive = true)
    (proceeds : leaseHeld existing processAlive state.clock = false) :
    Inv executes (state.enter process (.cleared existing)) := by
  refine holds.enter ?_ ?_ ?_ ?_ ?_ ?_ ?_
  · simp [deciding, Phase.early]
  · simp [deciding, Phase.finished]
  · intro lease read
    exact .inr (by simpa [deciding, Phase.existing?] using read)
  · intro lease other passed names
    have found : existing = .holds lease := by simpa [Phase.passed?] using passed
    exact stale_of_decide holds deciding answer proceeds found names
  · simp [Phase.own?]
  · simp [Phase.left?]
  · simp [Phase.section?]

/-- Writing the temporary file. -/
theorem Inv.stage (holds : Inv executes state) {process : Process} {existing : LeaseFile}
    (cleared : state.phase process = .cleared existing) {leaseObj : LeaseObject}
    (own : leaseObj.runId = executes.runId process ∧ leaseObj.pid = some (executes.pid process)) :
    Inv executes
      { state.enter process (.staged existing leaseObj) with temporary := some leaseObj } := by
  have staged : Inv executes (state.enter process (.staged existing leaseObj)) := by
    refine holds.enter ?_ ?_ ?_ ?_ ?_ ?_ ?_
    · simp [Phase.early]
    · simp [cleared, Phase.finished]
    · intro lease read
      exact .inr (by simpa [cleared, Phase.existing?] using read)
    · intro lease other passed names
      exact holds.stale lease other process (by simpa [cleared, Phase.passed?] using passed) names
    · intro lease isOwn
      have equal : leaseObj = lease := by simpa [Phase.own?] using isOwn
      exact equal ▸ own
    · simp [Phase.left?]
    · simp [Phase.section?]
  exact staged.replace _ staged.named staged.inPlace staged.ours

/-- Reading the lease file to release it. -/
theorem Inv.releaseRead (holds : Inv executes state) {process : Process} {lease : LeaseObject}
    (running : state.phase process = .running lease) (current : LeaseFile) :
    Inv executes (state.enter process (.releasing lease current)) := by
  refine holds.enter ?_ ?_ ?_ ?_ ?_ ?_ ?_
  · simp [Phase.early]
  · simp [running, Phase.finished]
  · simp [Phase.existing?]
  · simp [Phase.passed?]
  · intro own isOwn
    exact holds.own process own (by simpa [running, Phase.own?] using isOwn)
  · simp [Phase.left?]
  · intro inside isInside
    exact .inl (by simpa [running, Phase.section?] using isInside)

/-- Deleting the lease file on the way out keeps the invariant when the file
holds nothing, or the process's own lease. -/
theorem Inv.leaveRemoving (holds : Inv executes state) {process : Process} {phase : Phase}
    (left : Inv executes (state.enter process phase)) (outside : phase.section? = none)
    (ownOnly : ∀ lease, state.file = .holds lease → lease.runId = executes.runId process)
    (removed : Bool) :
    Inv executes
      { state.enter process phase with file := state.file.removeItem removed } := by
  refine left.remove removed ?_
  intro other lease inside inFile
  by_cases same : other = process
  · subst same; simp [outside] at inside
  · have insideBefore : (state.phase other).section? = some lease := by
      simpa [same] using inside
    have names := (holds.own other lease (Phase.own?_of_section? insideBefore)).1
    have mine := ownOnly lease (by simpa using inFile)
    exact absurd (executes.runId_injective (names.symm.trans mine)) same

omit [DecidableEq Process] in
/-- What the delete of a release finds, when no lease was put in place since its
read: nothing, or its own lease. -/
theorem ownOnly_of_releaseAct (distinct : CaseDistinct fold executes)
    (holds : Inv executes state) {process : Process} {lease : LeaseObject} {read : LeaseFile}
    (releasing : state.phase process = .releasing lease read)
    (unreplaced : Unreplaced read state.file)
    (matched : ∀ current, read = .holds current →
      fold current.runId = fold (executes.runId process)) :
    ∀ current, state.file = .holds current → current.runId = executes.runId process :=
  fun current inFile =>
    own_of_release distinct holds releasing (matched current (unreplaced current inFile)) inFile

theorem LeaseFile.removeItem_holds {file : LeaseFile} {removed : Bool} {lease : LeaseObject}
    (remains : file.removeItem removed = .holds lease) : file = .holds lease := by
  cases removed with
  | true => simp [LeaseFile.removeItem] at remains
  | false => exact remains

/-- A step that meets the condition preserves the invariant. -/
theorem Inv.step (distinct : CaseDistinct fold executes) (holds : Inv executes state)
    {label : Label Process} (undisturbed : Undisturbed state label)
    (enabled : Enabled executes state label) :
    Inv executes (next fold executes state label) := by
  cases label with
  | read process fails => exact holds.read enabled fails
  | decide process processAlive =>
    obtain ⟨existing, deciding, answer⟩ := enabled
    simp only [next, deciding]
    by_cases held : leaseHeld existing processAlive state.clock = true
    · simp only [held, if_true]
      exact holds.leave (by simp [Phase.early]) (by simp [deciding, Phase.finished]) rfl rfl
        (by simp [Phase.left?])
    · simp only [held, Bool.false_eq_true, if_false]
      exact holds.clear deciding answer (by simpa using held)
  | stage process =>
    obtain ⟨existing, cleared⟩ := enabled
    simp only [next, cleared]
    exact holds.stage cleared ⟨rfl, rfl⟩
  | move process =>
    obtain ⟨existing, lease, staged⟩ := enabled
    obtain ⟨unreplaced, own⟩ := undisturbed existing lease staged
    simp only [next, staged, own]
    exact holds.move staged unreplaced
  | releaseRead process fails =>
    obtain ⟨lease, running⟩ := enabled
    simp only [next, running]
    split
    · exact holds.leave (by simp [Phase.early]) (by simp [running, Phase.finished]) rfl rfl
        (by simp [Phase.left?])
    · exact holds.releaseRead running _
  | releaseAct process removed =>
    obtain ⟨lease, read, releasing⟩ := enabled
    have unreplaced := undisturbed lease read releasing
    have released : Inv executes (state.enter process .released) :=
      holds.leave (by simp [Phase.early]) (by simp [releasing, Phase.finished]) rfl rfl
        (by simp [Phase.left?])
    cases read with
    | holds current =>
      simp only [next, releasing]
      by_cases matched : fold current.runId = fold (executes.runId process)
      · simp only [matched, if_true]
        have ownOnly := ownOnly_of_releaseAct distinct holds releasing unreplaced
          (by simpa using matched)
        have left : Inv executes
            (state.enter process (.logReleased (state.file.removeItem removed))) := by
          refine holds.leave (by simp [Phase.early]) (by simp [releasing, Phase.finished]) rfl rfl ?_
          intro left isLeft
          exact ownOnly left (LeaseFile.removeItem_holds (by simpa [Phase.left?] using isLeft))
        exact holds.leaveRemoving left rfl ownOnly removed
      · simp only [matched, if_false]
        exact holds.leave (by simp [Phase.early]) (by simp [releasing, Phase.finished]) rfl rfl
          (by simp [Phase.left?])
    | absent =>
      simp only [next, releasing]
      exact holds.leaveRemoving released rfl
        (ownOnly_of_releaseAct distinct holds releasing unreplaced (by simp)) removed
    | unreadable =>
      simp only [next, releasing]
      exact holds.leaveRemoving released rfl
        (ownOnly_of_releaseAct distinct holds releasing unreplaced (by simp)) removed
  | releaseLog process fails =>
    rcases enabled with ⟨left, logReleased⟩ | logSkipped
    · simp only [next, logReleased]
      refine holds.leave ?_ ?_ ?_ ?_ ?_
      · split <;> simp [Phase.early]
      · simp [logReleased, Phase.finished]
      · split <;> rfl
      · split <;> rfl
      · intro lease isLeft
        refine holds.left process lease ?_
        split at isLeft
        · simpa [logReleased, Phase.left?] using isLeft
        · simp [Phase.left?] at isLeft
    · have logged : fails = false := undisturbed logSkipped
      subst logged
      simp only [next, logSkipped, Bool.false_eq_true, if_false]
      exact holds.leave (by simp [Phase.early]) (by simp [logSkipped, Phase.finished]) rfl rfl
        (by simp [Phase.left?])
  | releaseClean process removed =>
    obtain ⟨left, cleaning⟩ := enabled
    have unreplaced := undisturbed left cleaning
    have released : Inv executes (state.enter process .released) :=
      holds.leave (by simp [Phase.early]) (by simp [cleaning, Phase.finished]) rfl rfl
        (by simp [Phase.left?])
    refine holds.leaveRemoving released rfl ?_ removed
    intro lease inFile
    exact holds.left process lease (by simp [cleaning, Phase.left?, unreplaced lease inFile])
  | crash process =>
    exact holds.leave (by simp [Phase.early]) (by simp [Phase.finished]) rfl rfl
      (by simp [Phase.left?])
  | tick seconds => exact holds.tick seconds

omit [DecidableEq Process] in
theorem Inv.initially (start : State Process) (initial : Initial executes start) :
    Inv executes start := by
  obtain ⟨fresh, unnamed⟩ := initial
  refine ⟨?_, ?_, ?_, ?_, ?_, ?_, ?_⟩
  · exact fun lease process inFile names => absurd names (unnamed lease process inFile)
  all_goals simp [fresh, Phase.existing?, Phase.passed?, Phase.own?, Phase.left?, Phase.section?]

omit [DecidableEq Process] in
/-- Two leases in place at once are one lease. -/
theorem Inv.exclusive (holds : Inv executes state) {process other : Process}
    (holder : HoldsLease state process) (holderToo : HoldsLease state other) :
    process = other := by
  obtain ⟨lease, inside, unexpired⟩ := holder
  obtain ⟨leaseToo, insideToo, unexpiredToo⟩ := holderToo
  have inFile := (holds.inPlace process lease inside).resolve_right unexpired
  have inFileToo := (holds.inPlace other leaseToo insideToo).resolve_right unexpiredToo
  have equal : lease = leaseToo := by simpa [inFile] using inFileToo
  subst equal
  have names := (holds.own process lease (Phase.own?_of_section? inside)).1
  have namesToo := (holds.own other lease (Phase.own?_of_section? insideToo)).1
  exact executes.runId_injective (names.symm.trans namesToo)

/-- A step that meets the condition deletes no lease of another run. -/
theorem Inv.not_removesOther (distinct : CaseDistinct fold executes) (holds : Inv executes state)
    {label : Label Process} (undisturbed : Undisturbed state label)
    (enabled : Enabled executes state label) :
    ¬ RemovesOther fold executes state label := by
  rintro ⟨process, removed, lease, act | clean, inFile, names, gone⟩
  · subst act
    obtain ⟨own, read, releasing⟩ := enabled
    have found : read = .holds lease := undisturbed own read releasing lease inFile
    subst found
    by_cases matched : fold lease.runId = fold (executes.runId process)
    · exact names (own_of_release distinct holds releasing matched inFile)
    · simp [next, releasing, matched, inFile] at gone
  · subst clean
    obtain ⟨left, cleaning⟩ := enabled
    have kept : left = .holds lease := undisturbed left cleaning lease inFile
    exact names (holds.left process lease (by simp [cleaning, Phase.left?, kept]))

/-- In every run whose steps are undisturbed, at most one process holds an
unexpired lease at a time, and no step deletes the lease of another run. -/
theorem lease_excludes (distinct : CaseDistinct fold executes) {start : State Process}
    {trace : List (System.Taken (State Process) (Label Process))}
    (run : (system fold executes).Run start trace state)
    (undisturbed : ∀ taken ∈ trace, Undisturbed taken.1 taken.2) :
    (∀ process other, HoldsLease state process → HoldsLease state other → process = other) ∧
      ∀ taken ∈ trace, ¬ RemovesOther fold executes taken.1 taken.2 := by
  have preserved : ∀ state label, Inv executes state → Undisturbed state label →
      Enabled executes state label → Inv executes (next fold executes state label) :=
    fun _ _ holds undisturbed enabled => holds.step distinct undisturbed enabled
  constructor
  · intro process other holder holderToo
    exact (run.invariant Inv.initially preserved undisturbed).exclusive holder holderToo
  · exact run.everyStep Inv.initially preserved
      (fun _ _ holds undisturbed enabled => holds.not_removesOther distinct undisturbed enabled)
      undisturbed

theorem pair_pid_pos : ∀ process : Bool, 0 < if process then 4120 else 5288 := by
  decide

/-- Two executes on one unit, with the default time to live. -/
def pair : Executes Bool where
  runId process := if process then "run-20261012T080000Z" else "run-20261012T080001Z"
  heldBy _ := "mast-ns-control"
  pid process := if process then 4120 else 5288
  ttlSeconds _ := 7200
  runId_injective process other := by cases process <;> cases other <;> decide
  pid_pos := pair_pid_pos

/-- A unit without a lease file. -/
def idle : State Bool where
  file := .absent
  temporary := none
  clock := 0
  phase _ := .notStarted

theorem idle_initial : Initial pair idle := ⟨fun _ => rfl, by simp [idle]⟩

theorem pair_caseDistinct : CaseDistinct foldCase pair := by
  intro process other
  cases process <;> cases other <;> decide

/-- One execute runs and releases, then the other. -/
def turnsLabels : List (Label Bool) :=
  [.read true false, .decide true false, .stage true, .move true, .releaseRead true false,
    .releaseAct true true, .releaseLog true false, .read false false, .decide false true,
    .stage false, .move false]

theorem turns_follows : (system foldCase pair).Follows idle turnsLabels := by
  simp [turnsLabels, System.Follows, system, Enabled, next, idle, pair, LeaseFile.readBack,
    LeaseFile.removeItem, leaseHeld, newLeaseObject, State.enter, Function.update_apply]

theorem turns_undisturbed :
    ∀ taken ∈ (system foldCase pair).steps idle turnsLabels, Undisturbed taken.1 taken.2 := by
  simp [turnsLabels, System.steps, system, Undisturbed, Unreplaced, next, idle, pair,
    LeaseFile.readBack, LeaseFile.removeItem, leaseHeld, newLeaseObject, State.enter]

/-- Taking turns meets the condition. -/
theorem lease_excludes_turns :
    (∀ process other, HoldsLease ((system foldCase pair).after idle turnsLabels) process →
      HoldsLease ((system foldCase pair).after idle turnsLabels) other → process = other) ∧
    ∀ taken ∈ (system foldCase pair).steps idle turnsLabels,
      ¬ RemovesOther foldCase pair taken.1 taken.2 :=
  lease_excludes pair_caseDistinct (.ofLabels idle_initial turns_follows) turns_undisturbed

/-- Both executes read the path before either has written it. -/
def raceLabels : List (Label Bool) :=
  [.read true false, .read false false, .decide true false, .decide false false,
    .stage true, .move true, .stage false, .move false]

/-- The second execute takes over an expired lease while the first is between
the read and the delete of its release. -/
def takeoverLabels : List (Label Bool) :=
  [.read true false, .decide true false, .stage true, .move true, .tick 7200,
    .releaseRead true false, .read false false, .decide false true, .stage false, .move false,
    .releaseAct true true]

theorem race_follows : (system foldCase pair).Follows idle raceLabels := by
  simp [raceLabels, System.Follows, system, Enabled, next, idle, pair, LeaseFile.readBack,
    leaseHeld, newLeaseObject, State.enter, Function.update_apply]

theorem takeover_follows : (system foldCase pair).Follows idle takeoverLabels := by
  simp [takeoverLabels, System.Follows, system, Enabled, next, idle, pair, LeaseFile.readBack,
    leaseHeld, newLeaseObject, State.enter, Function.update_apply]

/-- After the race both executes hold an unexpired lease. -/
theorem race_holds (process : Bool) :
    HoldsLease ((system foldCase pair).after idle raceLabels) process := by
  refine ⟨newLeaseObject (pair.runId process) (pair.heldBy process) (pair.pid process) 7200 0,
    ?_, ?_⟩
  · cases process <;> rfl
  · intro expired
    have past : (7200 : Int) ≤ 0 := expired 7200 rfl
    omega

/-- The last step of the takeover deletes the lease of the second execute. -/
theorem takeover_removes :
    RemovesOther foldCase pair
      ((system foldCase pair).after idle (takeoverLabels.dropLast)) (.releaseAct true true) :=
  ⟨true, true, newLeaseObject (pair.runId false) (pair.heldBy false) (pair.pid false) 7200 7200,
    .inl rfl, rfl, by decide, rfl⟩

/-- Without the condition the lease neither excludes nor keeps a release from
deleting the lease of another run. -/
theorem acquire_race :
    (¬ ∀ (start state : State Bool) trace, (system foldCase pair).Run start trace state →
      ∀ process other, HoldsLease state process → HoldsLease state other → process = other) ∧
    (¬ ∀ (start state : State Bool) trace, (system foldCase pair).Run start trace state →
      ∀ taken ∈ trace, ¬ RemovesOther foldCase pair taken.1 taken.2) := by
  constructor
  · intro exclusive
    have same := exclusive _ _ _ (.ofLabels idle_initial race_follows) true false
      (race_holds true) (race_holds false)
    cases same
  · intro neverRemoves
    refine neverRemoves _ _ _ (.ofLabels idle_initial takeover_follows)
      ((system foldCase pair).after idle takeoverLabels.dropLast, .releaseAct true true) ?_
      takeover_removes
    simp [takeoverLabels, System.steps, System.after]

end MastProvisioning.Unit.Lease
