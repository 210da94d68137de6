import Mathlib
import MastProvisioning.Tools.CloneRecord

/-!
# Verifying the source tree

`verify-mast.ps1` asks, for every folder it expects, whether the clone is clean and whether
its HEAD is what the origin has now: for the branch HEAD follows, or for the revision the
sidecar says it is pinned to. When the origin says nothing, the sidecar's `fetch_ok` decides
whether the clone counts as unverifiable or as unverified. The exit code is 1 when something
is wrong, 2 when something could not be checked, and 0 otherwise.
-/

namespace MastProvisioning.Tools

open Git PowerShell Semantics

universe u

variable {Commit : Type u} [DecidableEq Commit]

/-- An entry of the sidecar, as the verify script reads it back. -/
structure SidecarRow where
  dir : String
  fetchOk : Option Bool
  rev : String
  deriving DecidableEq, Repr

/-- The last entry of a folder: `$cloneRepos[[string]$r.dir] = $ok`. -/
def sidecarRow (sidecar : List SidecarRow) (dir : String) : Option SidecarRow :=
  sidecar.reverse.find? fun row => Script.ps1.key row.dir = Script.ps1.key dir

/-- `$fetchOk`: absent when the folder or the key is. -/
def sidecarFetchOk (sidecar : List SidecarRow) (dir : String) : Option Bool :=
  (sidecarRow sidecar dir).bind SidecarRow.fetchOk

/-- `$cloneRevs[$d]`. -/
def sidecarRev (sidecar : List SidecarRow) (dir : String) : String :=
  ((sidecarRow sidecar dir).map SidecarRow.rev).getD ""

/-- Which of the git commands of a folder get through. -/
structure VerifyAnswers where
  status : Bool
  head : Bool
  upstream : Bool
  lsRemote : Bool

/-- What `ls-remote` is asked for. -/
inductive Question where
  | heads (branch : String)
  | tags (rev : String)
  deriving DecidableEq, Repr

/-- `$lsArgs`: the branch that HEAD follows, or else the sidecar's revision, as a tag. -/
def question (answers : VerifyAnswers) (rev : String) (clone : Clone Commit) : Option Question :=
  match if answers.upstream then clone.upstreamName else none with
  | some branch => some (.heads branch)
  | none => if rev ≠ "" then some (.tags rev) else none

/-- What the origin prints: for a tag with an object of its own, that object. -/
def lsRemote (origin : Origin Commit) : Question → Option (Object Commit)
  | .heads branch => (origin.branches branch).map .commit
  | .tags rev => origin.tags rev

/-- `$remoteSha`: empty when nothing is asked, nothing answers or nothing is printed. -/
def remoteSha (origins : String → Option (Origin Commit)) (answers : VerifyAnswers) (rev : String)
    (remote : String) (clone : Clone Commit) : Option (Object Commit) :=
  (question answers rev clone).bind fun asked =>
    (reach origins answers.lsRemote remote).bind fun origin => lsRemote origin asked

/-- `$head`: what a failing `rev-parse` prints is nobody's id. -/
def headSha (answers : VerifyAnswers) (clone : Clone Commit) : Option (Object Commit) :=
  if answers.head then clone.headCommit.map .commit else none

inductive CurrencyState where
  | current
  | stale
  | unverifiable
  | unverified
  deriving DecidableEq, Repr

/-- `Get-MastCurrencyVerdict`. -/
def currencyVerdict (head remote : Option (Object Commit)) (fetchOk : Option Bool) :
    CurrencyState :=
  if remote.isSome then if head = remote then .current else .stale
  else if fetchOk = some true then .unverifiable
  else .unverified

theorem currencyVerdict_current_iff {head remote : Option (Object Commit)}
    {fetchOk : Option Bool} : currencyVerdict head remote fetchOk = .current ↔
      ∃ sha, remote = some sha ∧ head = some sha := by
  unfold currencyVerdict
  cases remote with
  | none =>
    by_cases verified : fetchOk = some true
    · simp [verified]
    · simp [verified]
  | some sha => by_cases same : head = some sha <;> simp [same]

theorem currencyVerdict_unverifiable_iff {head remote : Option (Object Commit)}
    {fetchOk : Option Bool} : currencyVerdict head remote fetchOk = .unverifiable ↔
      remote = none ∧ fetchOk = some true := by
  unfold currencyVerdict
  cases remote with
  | none => simp
  | some sha => by_cases same : head = some sha <;> simp [same]

/-- `Get-MastVerifyExitCode`. -/
def verifyExitCode (issueCount unverifiableCount : Nat) : Nat :=
  if issueCount > 0 then 1
  else if unverifiableCount > 0 then 2
  else 0

/-- What a run of the verify script finds: whether there is a git, the issues of the other
checks, and the folders with the sidecar and the origins. -/
structure VerifyRun (Commit : Type u) where
  gitFound : Bool
  otherIssues : Nat
  expected : List String
  places : String → Place Commit
  origins : String → Option (Origin Commit)
  sidecar : List SidecarRow
  answers : String → VerifyAnswers

namespace VerifyRun

variable (run : VerifyRun Commit)

/-- What is at an expected folder. -/
def placeOf (dir : String) : Place Commit := run.places (Script.ps1.key dir)

/-- The verdict on a clone. -/
def verdict (dir remote : String) (clone : Clone Commit) : CurrencyState :=
  currencyVerdict (headSha (run.answers dir) clone)
    (remoteSha run.origins (run.answers dir) (sidecarRev run.sidecar dir) remote clone)
    (sidecarFetchOk run.sidecar dir)

/-- The working tree is dirty, and git says so. -/
def seenDirty (dir : String) (clone : Clone Commit) : Bool :=
  (run.answers dir).status && !clone.clean

/-- How many issues a folder adds. -/
def issues (dir : String) : Nat :=
  match run.placeOf dir with
  | .absent => 1
  | .other => 1
  | .clone _ remote own =>
    if run.gitFound then
      (if run.seenDirty dir own then 1 else 0) +
        match run.verdict dir remote own with
        | .current => 0
        | .unverifiable => 0
        | _ => 1
    else 0

/-- Whether a folder is added to the unverifiable ones. -/
def unverifiable (dir : String) : Bool :=
  match run.placeOf dir with
  | .clone _ remote own => run.gitFound && run.verdict dir remote own == .unverifiable
  | _ => false

/-- The exit code of the run. -/
def exitCode : Nat :=
  verifyExitCode (run.otherIssues + (run.expected.map run.issues).sum)
    (run.expected.countP run.unverifiable)

end VerifyRun

/-! ### What an exit code says -/

section Sound

variable (history : History Commit) (run : VerifyRun Commit)

/-- What the run asks the origin of a clone for. -/
def VerifyRun.asks (dir : String) (clone : Clone Commit) : Option Question :=
  question (run.answers dir) (sidecarRev run.sidecar dir) clone

/-- The origin the run reaches from a clone. -/
def VerifyRun.originOf (dir remote : String) : Option (Origin Commit) :=
  reach run.origins (run.answers dir).lsRemote remote

/-- HEAD is the commit the origin reported in this run, for the branch or for the pinned
revision: a tag's commit, or the commit whose id the revision is. -/
def Confirmed (dir remote : String) (clone : Clone Commit) : Prop :=
  ∃ origin head, run.originOf dir remote = some origin ∧ clone.headCommit = some head ∧
    match run.asks dir clone with
    | some (.heads branch) => origin.branches branch = some head
    | some (.tags rev) => (origin.tags rev).map Object.peel = some head ∨
        history.fullId rev = some head
    | none => False

/-- Nothing was asked, or nothing answered. -/
def CouldNotAsk (dir remote : String) (clone : Clone Commit) : Prop :=
  run.asks dir clone = none ∨ run.originOf dir remote = none

/-- The folder is a clean clone that git looked at. -/
def LookedAt (dir : String) (holds : String → Clone Commit → Prop) : Prop :=
  ∃ linked remote own, run.placeOf dir = .clone linked remote own ∧ run.gitFound = true ∧
    own.clean = true ∧ holds remote own

/-- Exit code 0 means that every clone is confirmed; exit code 2 that nothing is wrong, and
that what is not confirmed could not be asked about and was verified when it was cloned. -/
def VerifySound : Prop :=
  (run.exitCode = 0 → ∀ dir ∈ run.expected, LookedAt run dir (Confirmed history run dir)) ∧
  (run.exitCode = 2 → run.otherIssues = 0 ∧ ∀ dir ∈ run.expected,
    LookedAt run dir fun remote own => Confirmed history run dir remote own ∨
      CouldNotAsk run dir remote own ∧ sidecarFetchOk run.sidecar dir = some true)

/-- One of the checks of a folder fails. -/
def Fails (dir : String) : Prop :=
  match run.placeOf dir with
  | .clone _ remote own => run.gitFound = true ∧ (run.seenDirty dir own = true ∨
      run.verdict dir remote own = .stale ∨ run.verdict dir remote own = .unverified)
  | _ => True

/-- Git is there, knows a dirty tree for one, and gets an answer about the clone when it asks
a reachable origin, if `fetch_ok` is not false; or HEAD is the pinned commit id. -/
def NotMisread (dir : String) : Prop :=
  match run.placeOf dir with
  | .clone _ remote own =>
    run.gitFound = true ∧ (own.clean = true ∨ (run.answers dir).status = true) ∧
      ∀ asked origin, run.asks dir own = some asked → run.originOf dir remote = some origin →
        lsRemote origin asked = none → sidecarFetchOk run.sidecar dir = some true →
        ∃ rev head, asked = .tags rev ∧ own.headCommit = some head ∧ history.fullId rev = some head
  | _ => True

end Sound

section Exit

variable {history : History Commit} {run : VerifyRun Commit} {dir remote : String}
  {own : Clone Commit}

theorem verdict_current_iff : run.verdict dir remote own = .current ↔
    ∃ asked origin sha, run.asks dir own = some asked ∧ run.originOf dir remote = some origin ∧
      lsRemote origin asked = some sha ∧ headSha (run.answers dir) own = some sha := by
  unfold VerifyRun.verdict remoteSha
  rw [currencyVerdict_current_iff]
  simp only [Option.bind_eq_some_iff]
  constructor
  · rintro ⟨sha, ⟨asked, isAsked, origin, isOrigin, printed⟩, same⟩
    exact ⟨asked, origin, sha, isAsked, isOrigin, printed, same⟩
  · rintro ⟨asked, origin, sha, isAsked, isOrigin, printed, same⟩
    exact ⟨sha, ⟨asked, isAsked, origin, isOrigin, printed⟩, same⟩

theorem verdict_unverifiable_iff : run.verdict dir remote own = .unverifiable ↔
    (CouldNotAsk run dir remote own ∨ ∃ asked origin, run.asks dir own = some asked ∧
        run.originOf dir remote = some origin ∧ lsRemote origin asked = none) ∧
      sidecarFetchOk run.sidecar dir = some true := by
  unfold VerifyRun.verdict remoteSha CouldNotAsk VerifyRun.asks VerifyRun.originOf
  rw [currencyVerdict_unverifiable_iff]
  refine and_congr_left' ?_
  cases question (run.answers dir) (sidecarRev run.sidecar dir) own with
  | none => simp
  | some asked => cases reach run.origins (run.answers dir).lsRemote remote <;> simp

/-- A clone shown as current is confirmed. -/
theorem confirmed_of_current (current : run.verdict dir remote own = .current) :
    Confirmed history run dir remote own := by
  obtain ⟨asked, origin, sha, isAsked, isOrigin, printed, same⟩ := verdict_current_iff.mp current
  obtain ⟨head, here, rfl⟩ : ∃ head, own.headCommit = some head ∧ .commit head = sha := by
    unfold headSha at same
    split at same
    · exact Option.map_eq_some_iff.mp same
    · cases same
  refine ⟨origin, head, isOrigin, here, ?_⟩
  rw [isAsked]
  cases asked with
  | heads branch =>
    obtain ⟨commit, has, isHead⟩ := Option.map_eq_some_iff.mp printed
    cases isHead
    exact has
  | tags rev =>
    left
    rw [show origin.tags rev = some (.commit head) from printed]
    rfl

theorem issues_eq_zero_iff : run.issues dir = 0 ↔ ¬ Fails run dir := by
  unfold VerifyRun.issues Fails
  cases run.placeOf dir with
  | absent => simp
  | other => simp
  | clone linked remote own =>
    cases run.gitFound with
    | false => simp
    | true =>
      cases shown : run.verdict dir remote own <;> cases dirty : run.seenDirty dir own <;>
        simp [shown, dirty]

theorem exitCode_cases :
    (run.exitCode = 1 ∧ (run.otherIssues ≠ 0 ∨ ∃ dir ∈ run.expected, Fails run dir)) ∨
    (run.otherIssues = 0 ∧ (∀ dir ∈ run.expected, ¬ Fails run dir) ∧
      ((run.exitCode = 2 ∧ ∃ dir ∈ run.expected, run.unverifiable dir = true) ∨
        (run.exitCode = 0 ∧ ∀ dir ∈ run.expected, run.unverifiable dir = false))) := by
  have counted : run.otherIssues + (run.expected.map run.issues).sum = 0 ↔
      run.otherIssues = 0 ∧ ∀ dir ∈ run.expected, ¬ Fails run dir := by
    rw [Nat.add_eq_zero_iff, List.sum_eq_zero_iff_forall_eq_nat, List.forall_mem_map]
    simp only [issues_eq_zero_iff]
  unfold VerifyRun.exitCode verifyExitCode
  by_cases clear : run.otherIssues + (run.expected.map run.issues).sum = 0
  · right
    refine ⟨(counted.mp clear).1, (counted.mp clear).2, ?_⟩
    rw [if_neg (by omega)]
    by_cases some : ∃ dir ∈ run.expected, run.unverifiable dir = true
    · left
      exact ⟨if_pos (List.countP_pos_iff.mpr some), some⟩
    · right
      have none : ∀ dir ∈ run.expected, run.unverifiable dir = false := by
        intro dir member
        by_contra yes
        exact some ⟨dir, member, by simpa using yes⟩
      refine ⟨if_neg ?_, none⟩
      rw [gt_iff_lt, List.countP_pos_iff]
      exact some
  · left
    refine ⟨if_pos (by omega), ?_⟩
    by_contra otherwise
    rw [not_or, not_not] at otherwise
    refine clear (counted.mpr ⟨otherwise.1, fun dir member fails => otherwise.2 ⟨dir, member, fails⟩⟩)

/-- A clone none of whose checks fails is shown as current or as unverifiable. -/
theorem shown_of_not_fails {linked : Bool} (passes : ¬ Fails run dir)
    (there : run.placeOf dir = .clone linked remote own) (git : run.gitFound = true) :
    run.seenDirty dir own = false ∧
      (run.verdict dir remote own = .current ∨ run.verdict dir remote own = .unverifiable) := by
  unfold Fails at passes
  rw [there] at passes
  simp only [git, true_and, not_or, Bool.not_eq_true] at passes
  obtain ⟨clean, notStale, notUnverified⟩ := passes
  refine ⟨clean, ?_⟩
  cases shown : run.verdict dir remote own with
  | current => exact .inl rfl
  | unverifiable => exact .inr rfl
  | stale => exact absurd shown notStale
  | unverified => exact absurd shown notUnverified

theorem clone_of_not_fails (passes : ¬ Fails run dir) :
    ∃ linked remote own, run.placeOf dir = .clone linked remote own := by
  unfold Fails at passes
  cases there : run.placeOf dir with
  | absent => simp [there] at passes
  | other => simp [there] at passes
  | clone linked remote own => exact ⟨linked, remote, own, rfl⟩

/-- When nothing fails and nothing is misread, a clone is clean, and confirmed unless it could
not be asked about. -/
theorem lookedAt_of_notMisread (passes : ¬ Fails run dir) (sees : NotMisread history run dir) :
    LookedAt run dir fun remote own =>
      run.verdict dir remote own = .current ∨ run.verdict dir remote own = .unverifiable ∧
        (Confirmed history run dir remote own ∨
          CouldNotAsk run dir remote own ∧ sidecarFetchOk run.sidecar dir = some true) := by
  obtain ⟨linked, remote, own, there⟩ := clone_of_not_fails passes
  unfold NotMisread at sees
  rw [there] at sees
  obtain ⟨git, known, answers⟩ := sees
  obtain ⟨clean, shown⟩ := shown_of_not_fails passes there git
  have isClean : own.clean = true := by
    rcases known with clean | status
    · exact clean
    · simpa [VerifyRun.seenDirty, status] using clean
  refine ⟨linked, remote, own, there, git, isClean, shown.imp_right fun unverifiable => ⟨unverifiable, ?_⟩⟩
  obtain ⟨why, fetchOk⟩ := verdict_unverifiable_iff.mp unverifiable
  rcases why with silent | ⟨asked, origin, isAsked, isOrigin, nothing⟩
  · exact .inr ⟨silent, fetchOk⟩
  · obtain ⟨rev, head, rfl, here, isId⟩ := answers asked origin isAsked isOrigin nothing fetchOk
    left
    refine ⟨origin, head, isOrigin, here, ?_⟩
    rw [isAsked]
    exact .inr isId

omit [DecidableEq Commit] in
/-- A clone that is looked at, and confirmed unless it could not be asked about, is not
misread. -/
theorem notMisread_of_lookedAt
    (looked : LookedAt run dir fun remote own => Confirmed history run dir remote own ∨
      CouldNotAsk run dir remote own) : NotMisread history run dir := by
  obtain ⟨linked, remote, own, there, git, clean, holds⟩ := looked
  unfold NotMisread
  rw [there]
  refine ⟨git, .inl clean, ?_⟩
  intro asked origin isAsked isOrigin nothing _
  have confirmed : Confirmed history run dir remote own := by
    refine holds.resolve_right ?_
    rintro (noQuestion | noOrigin)
    · rw [isAsked] at noQuestion
      cases noQuestion
    · rw [isOrigin] at noOrigin
      cases noOrigin
  obtain ⟨other, head, isOther, here, told⟩ := confirmed
  rw [isOrigin] at isOther
  cases isOther
  rw [isAsked] at told
  cases asked with
  | heads branch =>
    rw [lsRemote, told] at nothing
    cases nothing
  | tags rev =>
    rcases told with tagged | isId
    · rw [lsRemote] at nothing
      rw [nothing] at tagged
      cases tagged
    · exact ⟨rev, head, rfl, here, isId⟩

/-- The exit code says what it is to say exactly when some check fails, or nothing is
misread. -/
theorem verifySound_iff :
    VerifySound history run ↔
      (run.otherIssues ≠ 0 ∨ ∃ dir ∈ run.expected, Fails run dir) ∨
        ∀ dir ∈ run.expected, NotMisread history run dir := by
  unfold VerifySound
  rcases @exitCode_cases _ _ run with ⟨one, wrong⟩ | ⟨clear, passes, ⟨two, some⟩ | ⟨zero, none⟩⟩
  · rw [one]
    exact iff_of_true ⟨fun zero => absurd zero (by decide), fun two => absurd two (by decide)⟩
      (.inl wrong)
  · rw [two]
    constructor
    · rintro ⟨-, sound⟩
      right
      intro dir member
      obtain ⟨linked, remote, own, there, git, clean, holds⟩ := (sound rfl).2 dir member
      exact notMisread_of_lookedAt ⟨linked, remote, own, there, git, clean, holds.imp_right And.left⟩
    · rintro (wrong | sees)
      · rcases wrong with other | ⟨dir, member, fails⟩
        · exact absurd clear other
        · exact absurd fails (passes dir member)
      · refine ⟨fun zero => absurd zero (by decide), fun _ => ⟨clear, ?_⟩⟩
        intro dir member
        obtain ⟨linked, remote, own, there, git, clean, shown⟩ :=
          lookedAt_of_notMisread (passes dir member) (sees dir member)
        refine ⟨linked, remote, own, there, git, clean, ?_⟩
        rcases shown with current | ⟨-, holds⟩
        · exact .inl (confirmed_of_current current)
        · exact holds
  · rw [zero]
    constructor
    · rintro ⟨sound, -⟩
      right
      intro dir member
      obtain ⟨linked, remote, own, there, git, clean, holds⟩ := sound rfl dir member
      exact notMisread_of_lookedAt ⟨linked, remote, own, there, git, clean, .inl holds⟩
    · rintro (wrong | sees)
      · rcases wrong with other | ⟨dir, member, fails⟩
        · exact absurd clear other
        · exact absurd fails (passes dir member)
      · refine ⟨fun _ dir member => ?_, fun two => absurd two (by decide)⟩
        obtain ⟨linked, remote, own, there, git, clean, shown⟩ :=
          lookedAt_of_notMisread (passes dir member) (sees dir member)
        refine ⟨linked, remote, own, there, git, clean, ?_⟩
        rcases shown with current | ⟨unverifiable, -⟩
        · exact confirmed_of_current current
        · have counted := none dir member
          unfold VerifyRun.unverifiable at counted
          simp [there, git, unverifiable] at counted

end Exit

end MastProvisioning.Tools
