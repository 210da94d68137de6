import MastProvisioning.Fleet.RepoComparison
import MastProvisioning.Tools.CloneUpdate

/-!
# What a run records of its clones

At its end a run writes `clone-manifest.json`: for every selected row the branch and
revision asked for, the revision that landed, and `fetch_ok`, which says whether that
revision was checked against the origin in this run. It is false when the folder was added
to the failed fetches on the way.
-/

namespace MastProvisioning.Tools

open Fleet Git PowerShell Semantics

universe u

variable {Commit : Type u} {config : Config} {history : History Commit}
  {origins : String → Option (Origin Commit)}

/-- `rev-parse HEAD`, whose output is taken whether or not it succeeds. -/
def revParseHead (history : History Commit) (reply : Reply) (clone : Clone Commit) : String :=
  match reply.answered, clone.headCommit with
  | true, some commit => history.idText commit
  | _, _ => reply.printed

/-- `rev-parse --abbrev-ref HEAD`. -/
def revParseBranch (reply : Reply) (clone : Clone Commit) : String :=
  match reply.answered, clone.headCommit, clone.head with
  | true, some _, .branch name => name
  | true, some _, .detached _ => "HEAD"
  | _, _, _ => reply.printed

/-- An entry of `clone-manifest.json`. -/
structure RepoRecord where
  dir : String
  repo : String
  branch : String
  rev : String
  resolvedSha : String
  head : String
  fetchOk : Bool
  deriving DecidableEq, Repr

/-- The clone a script finds at a place. -/
def Script.cloneAt (script : Script) : Place Commit → Option (Clone Commit)
  | .clone linked _ own => if script.isClone linked then some own else none
  | _ => none

/-- The entry of a row, once the loop has ended. -/
def repoRecord (config : Config) (history : History Commit) (progress : Progress Commit)
    (selected : Selected) : RepoRecord :=
  let key := config.script.key selected.row.dir
  let found := config.script.cloneAt (progress.places key)
  { dir := selected.row.dir
    repo := selected.row.repo
    branch := selected.row.branch
    rev := selected.row.rev
    resolvedSha := (found.map (revParseHead history selected.head)).getD ""
    head := (found.map (revParseBranch selected.branch)).getD ""
    fetchOk := !progress.fetchFailures.contains key }

/-- `clone-manifest.json`, which a run that was stopped does not write. -/
def cloneManifest (config : Config) (history : History Commit) (progress : Progress Commit) :
    Option (List RepoRecord) :=
  if progress.stopped then none
  else some (progress.provenance.map (repoRecord config history progress))

/-- The entry as the fleet report reads it back from the unit's own record. -/
def RepoRecord.row (record : RepoRecord) : RepoRow where
  resolvedSha := some record.resolvedSha
  rev := record.rev
  head := record.head
  fetchOk := some record.fetchOk

/-! ### What the loop gathers -/

/-- Something is at the folder that the script does not take for a clone. -/
def Foreign (script : Script) : Place Commit → Prop
  | .absent => False
  | .other => True
  | .clone linked _ _ => script.isClone linked = false

/-- The row's fetches did not all reach the origin it expects. -/
def Unverified (config : Config) (origins : String → Option (Origin Commit)) (request : Row)
    (answers : Answers) : Place Commit → Prop
  | .absent => request.rev ≠ "" ∧ answers.tagFetch = false
  | .other => False
  | .clone linked remote own =>
    config.script.isClone linked = true ∧
      (config.script.expects request.repo (answers.originUrl remote) = false ∨
        reach origins answers.fetch remote = none ∨
        config.update = true ∧ (answers.status && !own.clean) = false ∧ request.rev ≠ "" ∧
          answers.tagFetch = false)

theorem isClone_fresh (script : Script) : script.isClone false = true := by
  cases script <;> rfl

theorem pin_fetchFailed (origin : Origin Commit) (rev : String) (answers : Answers)
    (clone : Clone Commit) : (pin history origin rev answers clone).fetchFailed = !answers.tagFetch := by
  unfold pin
  split <;> rfl

/-- A folder that holds something else is passed over in silence. -/
theorem visit_foreign {place : Place Commit} (foreign : Foreign config.script place) (row : Row)
    (answers : Answers) :
    visit config history origins row answers place = ⟨place, false, false, false⟩ := by
  cases place with
  | absent => exact foreign.elim
  | other => rfl
  | clone linked remote own =>
    have isOther : config.script.isClone linked = false := foreign
    simp [visit, isOther]

theorem cloneRow_accounts {url : String} {row : Row} {answers : Answers}
    (goesOn : (cloneRow history origins url row answers).stopped = false) :
    (cloneRow history origins url row answers).reached = true ∧
    ((cloneRow history origins url row answers).fetchFailed = true ↔
      row.rev ≠ "" ∧ answers.tagFetch = false) ∧
    ∃ own, (cloneRow history origins url row answers).place = .clone false url own := by
  unfold cloneRow at goesOn ⊢
  split at goesOn
  · cases goesOn
  · split at goesOn
    · cases goesOn
    · refine ⟨rfl, ?_, _, rfl⟩
      by_cases unpinned : row.rev = ""
      · simp [unpinned]
      · simp [unpinned, pin_fetchFailed]

theorem updateRow_accounts (row : Row) (answers : Answers) (linked : Bool) (remote : String)
    (own : Clone Commit) :
    let visited := updateRow config history origins row answers linked remote own
    (visited.reached = true ∨ visited.fetchFailed = true) ∧
    (visited.fetchFailed = true ↔
      config.script.expects row.repo (answers.originUrl remote) = false ∨
        reach origins answers.fetch remote = none ∨
        config.update = true ∧ (answers.status && !own.clean) = false ∧ row.rev ≠ "" ∧
          answers.tagFetch = false) ∧
    ∃ now, visited.place = .clone linked remote now := by
  intro visited
  unfold visited updateRow
  split
  · rename_i isOwn
    split
    · rename_i unreachable
      exact ⟨.inr rfl, by simp [unreachable], own, rfl⟩
    · rename_i origin reached
      refine ⟨.inl rfl, ?_, _, rfl⟩
      simp only [isOwn, reached]
      cases config.update with
      | false => simp
      | true =>
        by_cases dirty : (answers.status && !own.clean) = true
        · simp [move, dirty]
        · by_cases unpinned : row.rev = ""
          · simp [move, dirty, unpinned]
          · simp [move, dirty, unpinned, pin_fetchFailed]
  · rename_i isOther
    exact ⟨.inr rfl, by simp [isOther], own, rfl⟩

/-- A row of an absent folder or a clone that goes on reaches the origin, or says that it
was not verified. -/
theorem visit_accounts {place : Place Commit} (known : ¬ Foreign config.script place) {row : Row}
    {answers : Answers}
    (goesOn : (visit config history origins row answers place).stopped = false) :
    ((visit config history origins row answers place).reached = true ∨
      (visit config history origins row answers place).fetchFailed = true) ∧
    ((visit config history origins row answers place).fetchFailed = true ↔
      Unverified config origins row answers place) ∧
    ¬ Foreign config.script (visit config history origins row answers place).place := by
  cases place with
  | other => exact absurd trivial known
  | absent =>
    simp only [visit] at goesOn ⊢
    obtain ⟨reached, failed, own, there⟩ := cloneRow_accounts goesOn
    refine ⟨.inl reached, failed, ?_⟩
    rw [there]
    simp [Foreign, isClone_fresh]
  | clone linked remote own =>
    have isClone : config.script.isClone linked = true := by
      simpa [Foreign] using known
    simp only [visit, isClone, if_true] at goesOn ⊢
    obtain ⟨accounts, failed, now, there⟩ :=
      updateRow_accounts row answers linked remote own
    refine ⟨accounts, ?_, ?_⟩
    · simpa [Unverified, isClone] using failed
    · rw [there]
      simpa [Foreign] using isClone

/-- A folder keeps being something else, or keeps not being it. -/
theorem visit_keepsForeign {row : Row} {answers : Answers} {place : Place Commit}
    (goesOn : (visit config history origins row answers place).stopped = false) :
    Foreign config.script (visit config history origins row answers place).place ↔
      Foreign config.script place := by
  by_cases foreign : Foreign config.script place
  · rw [visit_foreign foreign]
  · exact iff_of_false (visit_accounts foreign goesOn).2.2 foreign

/-- Some row of the run found the folder and could not verify it. -/
def Marked (config : Config) (history : History Commit)
    (origins : String → Option (Origin Commit)) (progress : Progress Commit)
    (rows : List Selected) (key : String) : Prop :=
  ∃ taken ∈ (loop config history origins).steps progress rows,
    config.script.key taken.2.row.dir = key ∧
      Unverified config origins (config.request taken.2.row) taken.2.answers
        (taken.1.places key)

/-- What a run that goes through has gathered about a folder. -/
structure Gathered (config : Config) (history : History Commit)
    (origins : String → Option (Origin Commit)) (progress : Progress Commit)
    (rows : List Selected) (key : String) (final : Progress Commit) : Prop where
  foreign : Foreign config.script (final.places key) ↔ Foreign config.script (progress.places key)
  failed : key ∈ final.fetchFailures ↔
    key ∈ progress.fetchFailures ∨ Marked config history origins progress rows key
  silent : Foreign config.script (progress.places key) →
    (key ∈ final.reached ↔ key ∈ progress.reached) ∧
    (key ∈ final.fetchFailures ↔ key ∈ progress.fetchFailures)
  accounted : ¬ Foreign config.script (progress.places key) →
    (∃ selected ∈ rows, config.script.key selected.row.dir = key) →
    key ∈ final.reached ∨ key ∈ final.fetchFailures
  grows : (key ∈ progress.reached → key ∈ final.reached) ∧
    (key ∈ progress.fetchFailures → key ∈ final.fetchFailures)

theorem not_unverified {place : Place Commit} (foreign : Foreign config.script place) (row : Row)
    (answers : Answers) : ¬ Unverified config origins row answers place := by
  cases place with
  | absent => exact foreign.elim
  | other => exact id
  | clone linked remote own =>
    rintro ⟨isClone, -⟩
    exact absurd (isClone.symm.trans foreign) (by decide)

/-- One row. -/
theorem gathered_next {progress : Progress Commit} {selected : Selected}
    (goesOn : ((loop config history origins).next progress selected).stopped = false)
    (key : String) :
    Gathered config history origins progress [selected] key
      ((loop config history origins).next progress selected) := by
  obtain ⟨visited, left⟩ := loop_next_visited goesOn
  have marked : Marked config history origins progress [selected] key ↔
      config.script.key selected.row.dir = key ∧
        Unverified config origins (config.request selected.row) selected.answers
          (progress.places key) := by
    simp [Marked, System.steps]
  rw [left]
  by_cases here : config.script.key selected.row.dir = key
  · subst here
    by_cases foreign : Foreign config.script (progress.places (config.script.key selected.row.dir))
    · have unmarked : ¬ Unverified config origins (config.request selected.row) selected.answers
          (progress.places (config.script.key selected.row.dir)) := not_unverified foreign _ _
      rw [visit_foreign foreign]
      exact ⟨by simp, by simp [marked, unmarked], fun _ => by simp, fun known => absurd foreign known,
        by simp⟩
    · obtain ⟨accounts, failed, -⟩ := visit_accounts foreign visited
      have keeps := visit_keepsForeign visited
      refine ⟨by simpa using keeps, ?_, fun other => absurd other foreign, fun _ _ => ?_, by simp +contextual⟩
      · rw [marked, ← failed]
        simp
      · rcases accounts with reached | fetchFailed
        · simp [reached]
        · simp [fetchFailed]
  · have apart := Ne.symm here
    refine ⟨by simp [Function.update_of_ne apart], ?_, fun _ => ?_, fun _ named => ?_, by simp +contextual⟩
    · rw [marked]
      split <;> simp [here, apart]
    · constructor <;> split <;> simp [apart]
    · obtain ⟨other, isSelected, same⟩ := named
      rw [List.mem_singleton.mp isSelected] at same
      exact absurd same here

/-- A whole run. -/
theorem gathered_after {progress : Progress Commit} {rows : List Selected}
    (goesOn : ((loop config history origins).after progress rows).stopped = false) (key : String) :
    Gathered config history origins progress rows key
      ((loop config history origins).after progress rows) := by
  induction rows generalizing progress with
  | nil =>
    exact ⟨Iff.rfl, by simp [Marked, System.steps, System.after], fun _ => ⟨Iff.rfl, Iff.rfl⟩,
      fun _ none => by simp at none, id, id⟩
  | cons selected rest ih =>
    have split : (loop config history origins).after progress (selected :: rest) =
        (loop config history origins).after
          ((loop config history origins).next progress selected) rest := rfl
    rw [split] at goesOn ⊢
    have first := gathered_next (loop_goesOn goesOn) key
    have later := ih goesOn
    refine ⟨later.foreign.trans first.foreign, ?_, ?_, ?_, ?_, ?_⟩
    · rw [later.failed, first.failed, or_assoc]
      simp [Marked, System.steps]
    · intro foreign
      obtain ⟨reached, failed⟩ := later.silent (first.foreign.mpr foreign)
      exact ⟨reached.trans (first.silent foreign).1, failed.trans (first.silent foreign).2⟩
    · intro known named
      by_cases inRest : ∃ other ∈ rest, config.script.key other.row.dir = key
      · exact later.accounted (fun foreign => known (first.foreign.mp foreign)) inRest
      · obtain ⟨other, member, same⟩ := named
        rcases List.mem_cons.mp member with rfl | inTail
        · exact (first.accounted known ⟨other, List.mem_singleton_self _, same⟩).imp
            later.grows.1 later.grows.2
        · exact absurd ⟨other, inTail, same⟩ inRest
    · exact fun before => later.grows.1 (first.grows.1 before)
    · exact fun before => later.grows.2 (first.grows.2 before)

theorem provenance_after {progress : Progress Commit} {rows : List Selected}
    (goesOn : ((loop config history origins).after progress rows).stopped = false) :
    ((loop config history origins).after progress rows).provenance =
      progress.provenance ++
        rows.map fun selected => { selected with row := config.request selected.row } := by
  induction rows generalizing progress with
  | nil => simp [System.after]
  | cons selected rest ih =>
    have split : (loop config history origins).after progress (selected :: rest) =
        (loop config history origins).after
          ((loop config history origins).next progress selected) rest := rfl
    rw [split] at goesOn ⊢
    obtain ⟨-, left⟩ := loop_next_visited (loop_goesOn goesOn)
    rw [ih goesOn, left, List.map_cons, List.append_assoc, List.singleton_append]

/-! ### The manifest of a run -/

/-- What a run over the folders of a machine leaves. -/
abbrev ranOver (config : Config) (history : History Commit)
    (origins : String → Option (Origin Commit)) (places : String → Place Commit)
    (rows : List Selected) : Progress Commit :=
  (loop config history origins).after (.start places) rows

/-- The checked-out revision of the folder could not be read at the end of the run. -/
def Unread (config : Config) (final : Progress Commit) (selected : Selected) : Prop :=
  ∀ own, config.script.cloneAt (final.places (config.script.key selected.row.dir)) = some own →
    selected.head.answered = false ∨ own.headCommit = none

/-- `fetch_ok` means that the run cloned or fetched the repository, and a revision that could
not be read is never shown as current. -/
def RecordsHonest (config : Config) (history : History Commit) (final : Progress Commit) : Prop :=
  ∀ selected ∈ final.provenance,
    ((repoRecord config history final selected).fetchOk = true →
      config.script.key selected.row.dir ∈ final.reached) ∧
    (Unread config final selected →
      NeverCurrent selected.row.dir (repoRecord config history final selected).row)

/-- A `rev-parse` of a clone fails and has printed something by then, which nothing else in
the record gives away. -/
def CountsAsRead (config : Config) (final : Progress Commit) (selected : Selected) : Prop :=
  ∃ own, config.script.cloneAt (final.places (config.script.key selected.row.dir)) = some own ∧
    (selected.head.answered = false ∨ own.headCommit = none) ∧ selected.head.printed ≠ "" ∧
    (selected.row.rev = "" ∨ revParseBranch selected.branch own = "HEAD")

/-- What a failed `rev-parse HEAD` leaves is what it printed. -/
theorem revParseHead_failed {reply : Reply} {own : Clone Commit}
    (failed : reply.answered = false ∨ own.headCommit = none) :
    revParseHead history reply own = reply.printed := by
  unfold revParseHead
  rcases failed with unanswered | unborn
  · rw [unanswered]
  · rw [unborn]
    split
    · simp_all
    · rfl

/-- A revision that was not read is never shown as current exactly when what was printed
does not count as one, or the folder was not verified. -/
theorem unread_neverCurrent_iff {final : Progress Commit} {selected : Selected}
    (unread : Unread config final selected) :
    NeverCurrent selected.row.dir (repoRecord config history final selected).row ↔
      (CountsAsRead config final selected →
        config.script.key selected.row.dir ∈ final.fetchFailures) := by
  rw [neverCurrent_iff]
  cases found : config.script.cloneAt (final.places (config.script.key selected.row.dir)) with
  | none =>
    refine iff_of_true (.inl ?_) ?_
    · simp [repoRecord, RepoRecord.row, RepoRow.sha, found]
    · rintro ⟨own, isClone, -⟩
      rw [found] at isClone
      cases isClone
  | some own =>
    have failed := unread own found
    have counts : CountsAsRead config final selected ↔ selected.head.printed ≠ "" ∧
        (selected.row.rev = "" ∨ revParseBranch selected.branch own = "HEAD") := by
      constructor
      · rintro ⟨other, isClone, -, printed, honoured⟩
        rw [found] at isClone
        cases isClone
        exact ⟨printed, honoured⟩
      · rintro ⟨printed, honoured⟩
        exact ⟨own, found, failed, printed, honoured⟩
    rw [counts]
    simp only [repoRecord, RepoRecord.row, RepoRow.sha, found, Option.map_some, Option.getD_some,
      revParseHead_failed failed]
    by_cases printed : selected.head.printed = ""
    · simp [printed]
    · by_cases listed : config.script.key selected.row.dir ∈ final.fetchFailures
      · simp [listed]
      · simp [printed, listed, Option.filter]

/-- A row as the run asks for it. -/
def Selected.requested (config : Config) (selected : Selected) : Selected :=
  { selected with row := config.request selected.row }

theorem requested_key (selected : Selected) :
    config.script.key (selected.requested config).row.dir = config.script.key selected.row.dir := by
  simp [Selected.requested]

/-- The manifest of a run is honest exactly when no selected row's folder is there without
being a clone, and no failed `rev-parse` of a verified clone prints something that counts as
a revision. -/
theorem recordsHonest_iff {places : String → Place Commit} {rows : List Selected}
    (goesOn : (ranOver config history origins places rows).stopped = false) :
    RecordsHonest config history (ranOver config history origins places rows) ↔
      (∀ selected ∈ rows, ¬ Foreign config.script (places (config.script.key selected.row.dir))) ∧
      ∀ selected ∈ rows, CountsAsRead config (ranOver config history origins places rows)
          (selected.requested config) →
        Marked config history origins (.start places) rows (config.script.key selected.row.dir) := by
  have gathered := gathered_after goesOn
  have failed : ∀ key, key ∈ (ranOver config history origins places rows).fetchFailures ↔
      Marked config history origins (.start places) rows key := by
    intro key
    rw [(gathered key).failed]
    simp [Progress.start]
  have provenance : (ranOver config history origins places rows).provenance =
      rows.map (Selected.requested config) := provenance_after goesOn
  unfold RecordsHonest
  rw [provenance, List.forall_mem_map]
  constructor
  · intro honest
    constructor
    · intro selected member foreign
      obtain ⟨reached, notFailed⟩ := (gathered _).silent foreign
      have fetchOk : (repoRecord config history (ranOver config history origins places rows)
          (selected.requested config)).fetchOk = true := by
        simp only [repoRecord, requested_key, List.contains_eq_mem, notFailed]
        simp [Progress.start]
      have wasReached := (honest selected member).1 fetchOk
      rw [requested_key, reached] at wasReached
      simp [Progress.start] at wasReached
    · intro selected member counts
      obtain ⟨own, found, notRead, counts⟩ := counts
      have unread : Unread config (ranOver config history origins places rows)
          (selected.requested config) := by
        intro other isClone
        rw [found] at isClone
        cases isClone
        exact notRead
      have never := (honest selected member).2 unread
      have listed := (unread_neverCurrent_iff unread).mp never ⟨own, found, notRead, counts⟩
      rwa [requested_key, failed] at listed
  · rintro ⟨known, printed⟩ selected member
    constructor
    · intro fetchOk
      have notFailed : config.script.key selected.row.dir ∉
          (ranOver config history origins places rows).fetchFailures := by
        simpa only [repoRecord, requested_key, List.contains_eq_mem, Bool.not_eq_true',
          decide_eq_false_iff_not] using fetchOk
      rw [requested_key]
      exact ((gathered _).accounted (known selected member) ⟨selected, member, rfl⟩).resolve_right
        notFailed
    · intro unread
      refine (unread_neverCurrent_iff unread).mpr ?_
      intro counts
      rw [requested_key, failed]
      exact printed selected member counts

/-- A run that makes the clone itself. -/
theorem cloned_recordsHonest :
    RecordsHonest updateConfig lineHistory
      (ranOver updateConfig lineHistory (fun _ => some taggedOrigin) (fun _ => .absent)
        [unitRow ""]) := by
  refine (recordsHonest_iff (by decide +kernel)).mpr ⟨fun _ _ => id, ?_⟩
  rintro selected member ⟨own, -, -, printed, -⟩
  rw [List.mem_singleton.mp member] at printed
  exact absurd rfl printed

/-- A folder that is no clone is passed over, and recorded as verified. -/
theorem otherFolder_fetchOk :
    ¬ ∀ (places : String → Place Nat) (rows : List Selected),
      (ranOver updateConfig lineHistory (fun _ => some taggedOrigin) places rows).stopped = false →
      RecordsHonest updateConfig lineHistory
        (ranOver updateConfig lineHistory (fun _ => some taggedOrigin) places rows) := by
  intro always
  have honest := always (fun _ => .other) [unitRow ""] (by decide +kernel)
  let final := ranOver updateConfig lineHistory (fun _ => some taggedOrigin)
    (fun _ => (.other : Place Nat)) [unitRow ""]
  have recorded : unitRow "" ∈ final.provenance := List.mem_singleton_self _
  have fetchOk : (repoRecord updateConfig lineHistory final (unitRow "")).fetchOk = true := by
    decide +kernel
  have reached : final.reached = [] := by decide +kernel
  have claimed := (honest (unitRow "") recorded).1 fetchOk
  exact absurd (reached ▸ claimed) List.not_mem_nil

end MastProvisioning.Tools
