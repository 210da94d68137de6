import MastProvisioning.Tools.MastClone

/-!
# Where an update leaves a clone

Between runs of the scripts the repositories publish other commits and people edit the
working trees. A clone the scripts made stays on a branch that follows the origin's
branch of that name, or detached, whatever manifests come. Where the next run with
`-Update` leaves its HEAD depends on which of these it is: a pinned row checks out its
revision from anywhere, a row that follows a branch fast-forwards the branch the clone
happens to be on.
-/

namespace MastProvisioning.Tools

open Git PowerShell Semantics

universe u

variable {Commit : Type u} {config : Config} {history : History Commit}
  {origins : String → Option (Origin Commit)}

@[simp] theorem request_dir (config : Config) (row : Row) : (config.request row).dir = row.dir := by
  unfold Config.request
  split <;> rfl

/-! ### One row -/

/-- A clone that is at a place was made by the scripts. -/
def Place.Made : Place Commit → Prop
  | .clone linked _ own => linked = false ∧ own.Follows
  | _ => True

theorem pin_follows {origin : Origin Commit} {rev : String} {answers : Answers}
    {clone : Clone Commit} (follows : clone.Follows) :
    (pin history origin rev answers clone).clone.Follows := by
  have tagged : (answers.tagged origin clone).Follows := by
    unfold Answers.tagged
    split
    · exact follows.fetchTags
    · exact follows
  unfold pin
  split
  · rename_i checked done
    split at done
    · exact Clone.Follows.checkoutDetach done
    · cases done
  · exact tagged

theorem fastForward_follows {answers : Answers} {clone : Clone Commit} (follows : clone.Follows) :
    (fastForward history answers clone).Follows := by
  unfold fastForward
  split
  · cases merged : clone.mergeFfOnly history with
    | none => exact follows
    | some moved => exact follows.mergeFfOnly merged
  · exact follows

theorem move_follows {origin : Origin Commit} (row : Row) (answers : Answers)
    {clone : Clone Commit} (follows : clone.Follows) :
    (move history origin row answers clone).clone.Follows := by
  unfold move
  split
  · exact follows
  · split
    · exact pin_follows follows
    · exact fastForward_follows follows

theorem cloneRow_made (url : String) (row : Row) (answers : Answers) :
    (cloneRow history origins url row answers).place.Made := by
  unfold cloneRow
  split
  · trivial
  · split
    · trivial
    · rename_i fresh made
      have follows := Clone.Follows.ofOrigin made
      by_cases unpinned : row.rev = ""
      · rw [if_pos unpinned]
        exact ⟨rfl, follows⟩
      · rw [if_neg unpinned]
        exact ⟨rfl, pin_follows follows⟩

theorem updateRow_made (row : Row) (answers : Answers) {linked : Bool} {remote : String}
    {clone : Clone Commit} (made : (Place.clone linked remote clone).Made) :
    (updateRow config history origins row answers linked remote clone).place.Made := by
  unfold updateRow
  split
  · split
    · exact made
    · rename_i origin _
      have fetched : (clone.fetchPrune origin answers.followed).Follows := made.2.fetchPrune
      cases config.update with
      | true => exact ⟨made.1, move_follows row answers fetched⟩
      | false => exact ⟨made.1, fetched⟩
  · exact made

theorem visit_made (row : Row) (answers : Answers) {place : Place Commit} (made : place.Made) :
    (visit config history origins row answers place).place.Made := by
  cases place with
  | absent => exact cloneRow_made _ _ _
  | other => trivial
  | clone linked remote clone =>
    unfold visit
    simp only
    split
    · exact updateRow_made row answers made
    · exact made

/-! ### HEAD after one row -/

/-- The commit a revision stands for, by what the origin has: a whole id, a tag of the
origin, and only then a tag the clone kept or another spelling. -/
def revCommit (history : History Commit) (origin : Origin Commit) (clone : Clone Commit)
    (rev : String) : Option Commit :=
  history.fullId rev <|> (origin.tags rev).map Object.peel <|>
    (clone.tags rev).map Object.peel <|> history.otherName rev

/-- The commit an update is to leave HEAD at. -/
def requestCommit (history : History Commit) (origin : Origin Commit) (clone : Clone Commit)
    (request : Row) : Option Commit :=
  if request.rev = "" then origin.branches request.branch
  else revCommit history origin clone request.rev

/-- HEAD is at the commit the row asks for. -/
def AtRequest (history : History Commit) (origins : String → Option (Origin Commit))
    (request : Row) (place : Place Commit) : Prop :=
  ∃ linked remote clone origin commit, place = .clone linked remote clone ∧
    origins remote = some origin ∧ clone.headCommit = some commit ∧
    requestCommit history origin clone request = some commit

/-- The branch HEAD is on can be fast-forwarded to its upstream at the origin, and nothing
stops the merge. -/
def Forwards (history : History Commit) (origin : Origin Commit) (answers : Answers)
    (clone : Clone Commit) (target : Commit) : Prop :=
  answers.merge = true ∧ clone.published origin = some target ∧
    clone.forwards history target = true

/-- When an update leaves a clean clone at what the row asks for. -/
structure Lands (config : Config) (history : History Commit) (origin : Origin Commit)
    (request : Row) (answers : Answers) (remote : String) (clone : Clone Commit) : Prop where
  /-- No local branch has the name of the revision, or it is at the same commit. -/
  pinned : config.script.expects request.repo (answers.originUrl remote) = true →
    request.rev ≠ "" → ∀ commit, clone.heads request.rev = some commit →
      revCommit history origin clone request.rev = some commit
  /-- The branch HEAD is on moves to the commit of the row's branch; or HEAD is there, and
  nothing moves it. -/
  followed : config.script.expects request.repo (answers.originUrl remote) = true →
    request.rev = "" → ∃ tip, origin.branches request.branch = some tip ∧
      (Forwards history origin answers clone tip ∨
        clone.headCommit = some tip ∧ ∀ target, ¬ Forwards history origin answers clone target)
  /-- A clone of another repository stays where it is. -/
  skipped : config.script.expects request.repo (answers.originUrl remote) = false →
    clone.headCommit = requestCommit history origin clone request

/-- Every network and checkout command of a row gets through. -/
structure Answers.Succeed (answers : Answers) : Prop where
  fetch : answers.fetch = true
  tagFetch : answers.tagFetch = true
  checkout : answers.checkout = true
  clone : answers.clone = true

section Head

variable {origin : Origin Commit} {answers : Answers} {clone : Clone Commit}

/-- A pinned row leaves HEAD at what the clone takes the revision for, once it has the
origin's tags: a local branch of that name comes first. -/
theorem pin_head (tagFetch : answers.tagFetch = true) {rev : String}
    (goesOn : (pin history origin rev answers clone).stopped = false) :
    ∃ commit, (clone.heads rev <|> revCommit history origin clone rev) = some commit ∧
      (pin history origin rev answers clone).clone =
        { clone.fetchTags origin with head := .detached commit } := by
  have tagged : answers.tagged origin clone = clone.fetchTags origin := if_pos tagFetch
  have resolves : (clone.fetchTags origin).resolve history rev =
      (clone.heads rev <|> revCommit history origin clone rev) := by
    cases inOrigin : origin.tags rev <;>
      simp [Clone.resolve, revCommit, Clone.fetchTags, inOrigin]
  unfold pin at goesOn ⊢
  rw [tagged] at goesOn ⊢
  split at goesOn
  · rename_i checked tried
    obtain ⟨-, done⟩ := Option.ite_none_right_eq_some.mp tried
    obtain ⟨commit, named, rfl⟩ := Option.map_eq_some_iff.mp done
    exact ⟨commit, resolves ▸ named, rfl⟩
  · cases goesOn

/-- The origin's tags hide those the clone kept, so a tag fetch leaves what a revision
stands for. -/
theorem revCommit_tags {tagged : Clone Commit} {rev : String}
    (tags : tagged.tags rev = (origin.tags rev <|> clone.tags rev)) :
    revCommit history origin tagged rev = revCommit history origin clone rev := by
  unfold revCommit
  rw [tags]
  cases inOrigin : origin.tags rev <;> simp

theorem revCommit_fetchPrune (rev : String) :
    revCommit history origin (clone.fetchPrune origin answers.followed) rev =
      revCommit history origin clone rev := by
  unfold revCommit
  cases inOrigin : origin.tags rev <;> simp [Clone.fetchPrune, inOrigin]

/-- Where the fast-forward of a row leaves the HEAD of a clone just fetched. -/
theorem fastForward_head :
    let merged := fastForward history answers (clone.fetchPrune origin answers.followed)
    (∃ target, Forwards history origin answers clone target ∧ merged.headCommit = some target) ∨
    ((∀ target, ¬ Forwards history origin answers clone target) ∧
      merged.headCommit = clone.headCommit) := by
  simp only [fastForward]
  split
  · rename_i merge
    rw [Clone.headCommit_mergeFfOnly, Clone.upstreamCommit_fetchPrune,
      Clone.headCommit_fetchPrune]
    cases published : clone.published origin with
    | none =>
      right
      refine ⟨?_, rfl⟩
      rintro target ⟨-, has, -⟩
      rw [published] at has
      cases has
    | some target =>
      by_cases ahead : clone.forwards history target = true
      · left
        exact ⟨target, ⟨merge, published, ahead⟩, if_pos ahead⟩
      · right
        refine ⟨?_, if_neg ahead⟩
        rintro other ⟨-, has, forwards⟩
        rw [published] at has
        cases has
        exact ahead forwards
  · rename_i noMerge
    right
    exact ⟨fun target forwards => noMerge forwards.1, rfl⟩

theorem atRequest_clone {request : Row} {linked : Bool} {remote : String}
    (has : origins remote = some origin) :
    AtRequest history origins request (.clone linked remote clone) ↔
      ∃ commit, clone.headCommit = some commit ∧
        requestCommit history origin clone request = some commit := by
  constructor
  · rintro ⟨_, _, _, other, commit, same, hasOther, at_, asked⟩
    cases same
    rw [has] at hasOther
    cases hasOther
    exact ⟨commit, at_, asked⟩
  · rintro ⟨commit, at_, asked⟩
    exact ⟨linked, remote, clone, origin, commit, rfl, has, at_, asked⟩

/-- A pinned row leaves HEAD at its revision unless a local branch of that name leads
elsewhere. -/
theorem pin_lands_iff {request : Row} (tagFetch : answers.tagFetch = true)
    (pinned : request.rev ≠ "")
    (goesOn : (pin history origin request.rev answers clone).stopped = false) :
    (∃ commit, (pin history origin request.rev answers clone).clone.headCommit = some commit ∧
      requestCommit history origin (pin history origin request.rev answers clone).clone request =
        some commit) ↔
    ∀ commit, clone.heads request.rev = some commit →
      revCommit history origin clone request.rev = some commit := by
  obtain ⟨at_, resolved, moved⟩ := pin_head tagFetch goesOn
  have asked : requestCommit history origin (pin history origin request.rev answers clone).clone
      request = revCommit history origin clone request.rev := by
    rw [requestCommit, if_neg pinned, moved]
    exact revCommit_tags rfl
  rw [asked, moved]
  constructor
  · rintro ⟨commit, here, isRev⟩ branchCommit shadows
    cases here
    rw [shadows] at resolved
    rw [isRev]
    exact resolved.symm
  · intro agree
    refine ⟨at_, rfl, ?_⟩
    cases shadows : clone.heads request.rev with
    | none => rwa [shadows] at resolved
    | some commit =>
      rw [shadows] at resolved
      exact (agree commit shadows).trans resolved

/-- A row that follows a branch leaves HEAD at the origin's branch when the branch HEAD is
on moves there, or when HEAD is there and nothing moves it. -/
theorem fastForward_lands_iff {request : Row} (unpinned : request.rev = "") :
    let merged := fastForward history answers (clone.fetchPrune origin answers.followed)
    (∃ commit, merged.headCommit = some commit ∧
      requestCommit history origin merged request = some commit) ↔
    ∃ tip, origin.branches request.branch = some tip ∧
      (Forwards history origin answers clone tip ∨
        clone.headCommit = some tip ∧ ∀ target, ¬ Forwards history origin answers clone target) := by
  intro merged
  have asked : requestCommit history origin merged request = origin.branches request.branch :=
    if_pos unpinned
  rw [asked]
  rcases fastForward_head with ⟨target, forwards, at_⟩ | ⟨stays, at_⟩
  · constructor
    · rintro ⟨commit, here, has⟩
      rw [at_] at here
      cases here
      exact ⟨target, has, .inl forwards⟩
    · rintro ⟨tip, has, other | ⟨-, none⟩⟩
      · have same : some target = some tip := forwards.2.1.symm.trans other.2.1
        exact ⟨tip, at_.trans same, has⟩
      · exact absurd forwards (none target)
  · constructor
    · rintro ⟨commit, here, has⟩
      exact ⟨commit, has, .inr ⟨at_ ▸ here, stays⟩⟩
    · rintro ⟨tip, has, forwards | ⟨here, -⟩⟩
      · exact absurd forwards (stays tip)
      · exact ⟨tip, at_.trans here, has⟩

/-- An update of a clean clone leaves HEAD at what the row asks for exactly when it
lands. -/
theorem updateRow_lands_iff {request : Row} {linked : Bool} {remote : String}
    (update : config.update = true) (has : origins remote = some origin)
    (succeed : answers.Succeed) (follows : clone.Follows) (clean : clone.clean = true)
    (goesOn : (updateRow config history origins request answers linked remote clone).stopped =
      false) :
    AtRequest history origins request
        (updateRow config history origins request answers linked remote clone).place ↔
      Lands config history origin request answers remote clone := by
  have reached : reach origins answers.fetch remote = some origin := by
    rw [reach, if_pos succeed.fetch, has]
  unfold updateRow at goesOn ⊢
  rw [reached, update] at goesOn ⊢
  by_cases own : config.script.expects request.repo (answers.originUrl remote) = true
  · have isClean : (answers.status && !(clone.fetchPrune origin answers.followed).clean) = false := by
      simp [clean]
    rw [if_pos own] at goesOn ⊢
    simp only [if_true, move, isClean, Bool.false_eq_true, if_false] at goesOn ⊢
    rw [atRequest_clone has]
    by_cases unpinned : request.rev = ""
    · rw [if_neg (not_not_intro unpinned)]
      refine (fastForward_lands_iff unpinned).trans ?_
      constructor
      · intro lands
        exact ⟨fun _ pinned => absurd unpinned pinned, fun _ _ => lands,
          fun other => by simp [own] at other⟩
      · intro lands
        exact lands.followed own unpinned
    · rw [if_pos unpinned] at goesOn ⊢
      rw [pin_lands_iff succeed.tagFetch unpinned goesOn]
      simp only [revCommit_fetchPrune]
      constructor
      · intro agree
        exact ⟨fun _ _ => agree, fun _ blank => absurd blank unpinned, fun other => by simp [own] at other⟩
      · intro lands
        exact lands.pinned own unpinned
  · rw [if_neg own]
    rw [atRequest_clone has]
    constructor
    · rintro ⟨commit, here, asked⟩
      exact ⟨fun yes => absurd yes own, fun yes => absurd yes own, fun _ => here.trans asked.symm⟩
    · intro lands
      obtain ⟨commit, here⟩ := Option.isSome_iff_exists.mp follows.headCommit_isSome
      exact ⟨commit, here, (lands.skipped (by simpa using own)).symm.trans here⟩

/-- A dirty clone whose status is known keeps its HEAD. -/
theorem updateRow_dirty {request : Row} {linked : Bool} {remote : String}
    (status : answers.status = true) (dirty : clone.clean = false) :
    ∃ same : Clone Commit,
      (updateRow config history origins request answers linked remote clone).place =
        .clone linked remote same ∧
      same.clean = false ∧ same.head = clone.head ∧ same.heads = clone.heads := by
  unfold updateRow
  split
  · split
    · exact ⟨clone, rfl, dirty, rfl, rfl⟩
    · rename_i origin _
      refine ⟨clone.fetchPrune origin answers.followed, ?_, dirty, rfl, rfl⟩
      cases config.update with
      | true => simp [move, status, dirty]
      | false => rfl
  · exact ⟨clone, rfl, dirty, rfl, rfl⟩

end Head

/-! ### The loop -/

theorem loop_next_stopped {progress : Progress Commit} (stopped : progress.stopped = true)
    (selected : Selected) : (loop config history origins).next progress selected = progress := by
  simp [loop, stopped]

/-- A row works on its own folder. -/
theorem loop_next_frame (progress : Progress Commit) (selected : Selected) {key : String}
    (apart : config.script.key selected.row.dir ≠ key) :
    ((loop config history origins).next progress selected).places key = progress.places key := by
  simp only [loop, request_dir]
  split
  · rfl
  · split
    · rfl
    · simp [Function.update_of_ne (Ne.symm apart)]

theorem loop_after_frame (progress : Progress Commit) (rows : List Selected) {key : String}
    (apart : ∀ selected ∈ rows, config.script.key selected.row.dir ≠ key) :
    ((loop config history origins).after progress rows).places key = progress.places key := by
  induction rows generalizing progress with
  | nil => rfl
  | cons selected rest ih =>
    rw [List.forall_mem_cons] at apart
    rw [show (loop config history origins).after progress (selected :: rest) =
      (loop config history origins).after ((loop config history origins).next progress selected)
        rest from rfl, ih _ apart.2, loop_next_frame progress selected apart.1]

theorem loop_after_stopped {progress : Progress Commit} (stopped : progress.stopped = true)
    (rows : List Selected) : (loop config history origins).after progress rows = progress := by
  induction rows with
  | nil => rfl
  | cons selected rest ih =>
    rw [show (loop config history origins).after progress (selected :: rest) =
      (loop config history origins).after ((loop config history origins).next progress selected)
        rest from rfl, loop_next_stopped stopped, ih]

/-- A run that goes through has gone on after each of its rows. -/
theorem loop_goesOn {progress : Progress Commit} {rows : List Selected}
    (goesOn : ((loop config history origins).after progress rows).stopped = false) :
    progress.stopped = false := by
  by_contra stopped
  rw [Bool.not_eq_false] at stopped
  rw [loop_after_stopped stopped, stopped] at goesOn
  cases goesOn

/-- What a row of a run that went on has done. -/
theorem loop_next_visited {progress : Progress Commit} {selected : Selected}
    (goesOn : ((loop config history origins).next progress selected).stopped = false) :
    let key := config.script.key selected.row.dir
    let visited := visit config history origins (config.request selected.row) selected.answers
      (progress.places key)
    visited.stopped = false ∧ (loop config history origins).next progress selected =
      { places := Function.update progress.places key visited.place
        provenance := progress.provenance ++ [{ selected with row := config.request selected.row }]
        fetchFailures := progress.fetchFailures ++ if visited.fetchFailed then [key] else []
        reached := progress.reached ++ if visited.reached then [key] else []
        stopped := visited.stopped } := by
  simp only [loop, request_dir] at goesOn ⊢
  by_cases stopped : progress.stopped = true
  · rw [if_pos stopped, stopped] at goesOn
    cases goesOn
  · by_cases blank : (config.request selected.row).branch = ""
    · rw [if_neg stopped, if_pos blank] at goesOn
      cases goesOn
    · rw [if_neg stopped, if_neg blank] at goesOn ⊢
      exact ⟨goesOn, rfl⟩

theorem loop_next_made {progress : Progress Commit} (made : ∀ key, (progress.places key).Made)
    (selected : Selected) (key : String) :
    (((loop config history origins).next progress selected).places key).Made := by
  simp only [loop, request_dir]
  split
  · exact made key
  · split
    · exact made key
    · by_cases same : key = config.script.key selected.row.dir
      · subst same
        simpa using visit_made _ _ (made _)
      · simpa [Function.update_of_ne same] using made key

theorem loop_after_made {progress : Progress Commit} (made : ∀ key, (progress.places key).Made)
    (rows : List Selected) (key : String) :
    (((loop config history origins).after progress rows).places key).Made := by
  induction rows generalizing progress with
  | nil => exact made key
  | cons selected rest ih => exact ih (loop_next_made made selected)

/-- A run keeps the HEAD of a dirty clone when the status of its folder is known to each of
its rows. -/
theorem loop_after_dirty {key : String} {linked : Bool} {remote : String} {clone : Clone Commit}
    (rows : List Selected)
    (status : ∀ selected ∈ rows, config.script.key selected.row.dir = key →
      selected.answers.status = true)
    {progress : Progress Commit} {now : Clone Commit}
    (there : progress.places key = .clone linked remote now)
    (keeps : now.clean = false ∧ now.head = clone.head ∧ now.heads = clone.heads) :
    ∃ same : Clone Commit, ((loop config history origins).after progress rows).places key =
        .clone linked remote same ∧
      same.clean = false ∧ same.head = clone.head ∧ same.heads = clone.heads := by
  induction rows generalizing progress now with
  | nil => exact ⟨now, there, keeps⟩
  | cons selected rest ih =>
    rw [List.forall_mem_cons] at status
    obtain ⟨dirty, head, heads⟩ := keeps
    have step : ∃ next : Clone Commit,
        ((loop config history origins).next progress selected).places key =
          .clone linked remote next ∧
        next.clean = false ∧ next.head = clone.head ∧ next.heads = clone.heads := by
      by_cases here : config.script.key selected.row.dir = key
      · subst here
        simp only [loop, request_dir]
        split
        · exact ⟨now, there, dirty, head, heads⟩
        · split
          · exact ⟨now, there, dirty, head, heads⟩
          · rw [there]
            unfold visit
            simp only [Function.update_self]
            split
            · rw [← head, ← heads]
              exact updateRow_dirty (status.1 rfl) dirty
            · exact ⟨now, rfl, dirty, head, heads⟩
      · rw [loop_next_frame progress selected here]
        exact ⟨now, there, dirty, head, heads⟩
    obtain ⟨next, at_, kept⟩ := step
    exact ih status.2 at_ kept

/-! ### Runs of the scripts, one after another -/

/-- The repositories by URL, and the folders of one machine. -/
structure Machine (Commit : Type u) where
  origins : String → Option (Origin Commit)
  places : String → Place Commit

/-- What happens to a machine: repositories publish, a working tree is edited or cleaned,
a script runs over the rows that it selects. -/
inductive Change (Commit : Type u) where
  | publish (origins : String → Option (Origin Commit))
  | edit (key : String) (clean : Bool)
  | mastClone (config : Config) (rows : List Selected)

/-- Set whether the working tree of a clone is clean. -/
def Place.edited (clean : Bool) : Place Commit → Place Commit
  | .clone linked remote own => .clone linked remote { own with clean }
  | place => place

/-- What a run of a script leaves. -/
def Machine.cloneAll (history : History Commit) (machine : Machine Commit) (config : Config)
    (rows : List Selected) : Progress Commit :=
  (loop config history machine.origins).after (.start machine.places) rows

theorem cloneAll_nil (machine : Machine Commit) :
    (machine.cloneAll history config []).places = machine.places := rfl

/-- A machine on which only the scripts make clones. -/
def machines (history : History Commit) : System (Machine Commit) (Change Commit) where
  Initial machine := ∀ key, machine.places key = .absent ∨ machine.places key = .other
  Enabled _ _ := True
  next machine
    | .publish origins => { machine with origins }
    | .edit key clean =>
      { machine with
        places := Function.update machine.places key ((machine.places key).edited clean) }
    | .mastClone config rows =>
      { machine with places := (machine.cloneAll history config rows).places }

/-- A run with `-Update` that goes through leaves HEAD at what the last row of a folder asks
for, when the folder held a clean clone and the row's network and checkout commands
succeed. -/
def LeavesAtRequest (history : History Commit) (machine : Machine Commit) (config : Config)
    (rows : List Selected) : Prop :=
  ∀ before selected later, rows = before ++ selected :: later →
    (∀ other ∈ later, config.script.key other.row.dir ≠ config.script.key selected.row.dir) →
    config.update = true → (machine.cloneAll history config rows).stopped = false →
    selected.answers.Succeed →
    ∀ linked remote clone, (machine.cloneAll history config before).places
        (config.script.key selected.row.dir) = .clone linked remote clone →
      clone.clean = true → (machine.origins remote).isSome = true →
      AtRequest history machine.origins (config.request selected.row)
        ((machine.cloneAll history config rows).places (config.script.key selected.row.dir))

/-- A run leaves the HEAD of every dirty clone. -/
def LeavesDirty (history : History Commit) (machine : Machine Commit) (config : Config)
    (rows : List Selected) : Prop :=
  ∀ key linked remote clone, machine.places key = .clone linked remote clone →
    clone.clean = false → ∃ same : Clone Commit,
      (machine.cloneAll history config rows).places key = .clone linked remote same ∧
      same.head = clone.head ∧ same.headCommit = clone.headCommit

/-- What an update is to do to every clone. -/
def UpdatesClones (history : History Commit) (machine : Machine Commit) : Change Commit → Prop
  | .mastClone config rows =>
    LeavesAtRequest history machine config rows ∧ LeavesDirty history machine config rows
  | _ => True

/-- Each row that updates a clean clone lands, and the status of every dirty clone is
known. -/
def EachLands (history : History Commit) (machine : Machine Commit) : Change Commit → Prop
  | .mastClone config rows =>
    (∀ taken ∈ (loop config history machine.origins).steps (.start machine.places) rows,
      ∀ linked remote clone origin,
        taken.1.places (config.script.key taken.2.row.dir) = .clone linked remote clone →
        clone.clean = true → machine.origins remote = some origin →
        Lands config history origin (config.request taken.2.row) taken.2.answers remote clone) ∧
    ∀ selected ∈ rows, ∀ linked remote clone,
      machine.places (config.script.key selected.row.dir) = .clone linked remote clone →
      clone.clean = false → selected.answers.status = true
  | _ => True

theorem Place.Made.edited {place : Place Commit} (made : place.Made) (clean : Bool) :
    (place.edited clean).Made := by
  cases place with
  | absent => trivial
  | other => trivial
  | clone linked remote own => exact made

/-- Only clones that the scripts made are ever there. -/
def Machine.Made (machine : Machine Commit) : Prop :=
  ∀ key, (machine.places key).Made

theorem Machine.Made.cloneAll {machine : Machine Commit} (made : machine.Made) (rows : List Selected)
    (key : String) : ((machine.cloneAll history config rows).places key).Made := by
  unfold Machine.cloneAll
  refine loop_after_made ?_ rows key
  exact made

theorem machines_initial {machine : Machine Commit} (initial : (machines history).Initial machine) :
    machine.Made := by
  intro key
  rcases initial key with absent | other
  · rw [absent]
    trivial
  · rw [other]
    trivial

theorem machines_next {machine : Machine Commit} (made : machine.Made) (change : Change Commit) :
    ((machines history).next machine change).Made := by
  intro key
  cases change with
  | publish origins => exact made key
  | edit edited clean =>
    by_cases same : key = edited
    · subst same
      simpa [machines] using (made key).edited clean
    · simpa [machines, Function.update_of_ne same] using made key
  | mastClone config rows => exact made.cloneAll rows key

theorem leavesAtRequest_of_lands {machine : Machine Commit} {rows : List Selected}
    (made : machine.Made) (lands : EachLands history machine (.mastClone config rows)) :
    LeavesAtRequest history machine config rows := by
  rintro before selected later rfl lastOfFolder update goesOn succeed linked remote clone there
    clean published
  obtain ⟨origin, has⟩ := Option.isSome_iff_exists.mp published
  have isMade : ((machine.cloneAll history config before).places
      (config.script.key selected.row.dir)).Made := made.cloneAll before _
  have row := lands.1 _ (System.mem_steps _ before selected later) linked remote clone origin there
    clean has
  unfold Machine.cloneAll at goesOn there isMade ⊢
  rw [there] at isMade
  obtain ⟨rfl, follows⟩ := isMade
  have through : (loop config history machine.origins).after (.start machine.places)
      (before ++ selected :: later) =
      (loop config history machine.origins).after
        ((loop config history machine.origins).next
          ((loop config history machine.origins).after (.start machine.places) before) selected)
        later := by
    rw [System.after_append]
    rfl
  rw [through] at goesOn ⊢
  obtain ⟨visited, left⟩ := loop_next_visited (loop_goesOn goesOn)
  rw [loop_after_frame _ later lastOfFolder, left]
  simp only [Function.update_self]
  rw [there] at visited ⊢
  have isClone : config.script.isClone false = true := by
    cases config.script <;> rfl
  simp only [visit, isClone, if_true] at visited ⊢
  exact (updateRow_lands_iff update has succeed follows clean visited).mpr row

theorem leavesDirty_of_lands {machine : Machine Commit} {rows : List Selected}
    (lands : EachLands history machine (.mastClone config rows)) :
    LeavesDirty history machine config rows := by
  intro key linked remote clone there dirty
  have status : ∀ selected ∈ rows, config.script.key selected.row.dir = key →
      selected.answers.status = true := by
    rintro selected member rfl
    exact lands.2 selected member linked remote clone there dirty
  obtain ⟨same, at_, -, head, heads⟩ : ∃ same : Clone Commit,
      (machine.cloneAll history config rows).places key = .clone linked remote same ∧
      same.clean = false ∧ same.head = clone.head ∧ same.heads = clone.heads :=
    loop_after_dirty rows status there ⟨dirty, rfl, rfl⟩
  refine ⟨same, at_, head, ?_⟩
  unfold Clone.headCommit
  rw [head, heads]

/-- Whatever earlier runs left, an update whose rows land leaves every clone at what its row
asks for, and no run moves a dirty clone. -/
theorem mastClone_updates {start machine : Machine Commit} {trace}
    (run : (machines history).Run start trace machine)
    (lands : ∀ taken ∈ trace, EachLands history taken.1 taken.2) :
    ∀ taken ∈ trace, UpdatesClones history taken.1 taken.2 := by
  refine run.everyStep (fun _ => machines_initial) (fun _ change made _ _ => machines_next made change)
    ?_ lands
  intro machine change made lands _
  cases change with
  | publish origins => trivial
  | edit key clean => trivial
  | mastClone config rows =>
    exact ⟨leavesAtRequest_of_lands made lands, leavesDirty_of_lands lands⟩

/-! ### A row that is no longer pinned -/

/-- Commits numbered along one line of history, their ids spelled by their numbers. -/
def lineHistory : History Nat where
  isAncestor first second := decide (first ≤ second)
  refl commit := decide_eq_true (Nat.le_refl commit)
  antisymm first second before after :=
    Nat.le_antisymm (of_decide_eq_true before) (of_decide_eq_true after)
  idText commit := String.ofList (List.replicate (commit + 1) '0')
  fullId name :=
    match name.toList with
    | '0' :: rest => if rest.all (· == '0') then some rest.length else none
    | _ => none
  fullId_idText commit := by simp [List.replicate_succ]
  otherName _ := none

/-- A repository whose branch is ahead of its tag. -/
def taggedOrigin : Origin Nat where
  branches name := if name = "main" then some 1 else none
  tags name := if name = "v1" then some (.commit 0) else none

def allAnswer : Answers where
  getUrl := true
  fetch := true
  status := true
  tagFetch := true
  checkout := true
  merge := true
  clone := true
  followed _ := true

/-- The row of the unit's repository, with a revision. -/
def unitRow (rev : String) : Selected where
  row := { dir := "unit", repo := "MAST_unit.2024-12-12", branch := "main", rev }
  answers := allAnswer
  head := ⟨true, ""⟩
  branch := ⟨true, ""⟩

def updateConfig : Config where
  script := .ps1
  transport := .https
  update := true

/-- A machine with nothing on it. -/
def emptyMachine (origins : String → Option (Origin Commit)) : Machine Commit where
  origins
  places _ := .absent

theorem allAnswer_succeed : allAnswer.Succeed := ⟨rfl, rfl, rfl, rfl⟩

/-- What a question says of the clone at a place. -/
def Place.ask {Answer : Type} (question : String → Clone Commit → Answer) : Place Commit → Option Answer
  | .clone _ remote own => some (question remote own)
  | _ => none

/-- A machine with nothing on it, before the repository's branch moves. -/
def bare : Machine Nat := emptyMachine fun _ => some taggedOrigin

/-- A machine where the unit's repository has been cloned by a row with a revision. -/
def clonedAt (rev : String) : Machine Nat :=
  (machines lineHistory).after bare [.mastClone updateConfig [unitRow rev]]

theorem clonedAt_origins (rev url : String) : (clonedAt rev).origins url = some taggedOrigin := rfl

theorem unit_key (rev : String) : updateConfig.script.key (unitRow rev).row.dir = "unit" := by
  show updateConfig.script.key "unit" = "unit"
  decide +kernel

theorem machines_follows (machine : Machine Commit) (changes : List (Change Commit)) :
    (machines history).Follows machine changes := by
  induction changes generalizing machine with
  | nil => trivial
  | cons change rest ih => exact ⟨trivial, ih _⟩

theorem bare_run (changes : List (Change Nat)) :
    (machines lineHistory).Run bare ((machines lineHistory).steps bare changes)
      ((machines lineHistory).after bare changes) :=
  System.Run.ofLabels (fun _ => .inl rfl) (machines_follows bare changes)

/-- Taking the revision out of a row leaves the clone detached where it was. -/
theorem unpinned_stays :
    ¬ ∀ (start machine : Machine Nat) trace, (machines lineHistory).Run start trace machine →
      ∀ taken ∈ trace, UpdatesClones lineHistory taken.1 taken.2 := by
  intro always
  have last := always _ _ _ (bare_run _) _
    (System.last_mem_steps bare [.mastClone updateConfig [unitRow "v1"]]
      (.mastClone updateConfig [unitRow ""]))
  rw [← clonedAt] at last
  have updates : LeavesAtRequest lineHistory (clonedAt "v1") updateConfig [unitRow ""] := last.1
  have found : ((clonedAt "v1").places "unit").ask (fun _ own => own.clean) = some true := by
    decide +kernel
  have left : (((clonedAt "v1").cloneAll lineHistory updateConfig [unitRow ""]).places "unit").ask
      (fun _ own => own.headCommit) = some (some 0) := by
    decide +kernel
  have goesOn : ((clonedAt "v1").cloneAll lineHistory updateConfig [unitRow ""]).stopped = false := by
    decide +kernel
  cases there : (clonedAt "v1").places "unit" with
  | absent => simp [there, Place.ask] at found
  | other => simp [there, Place.ask] at found
  | clone linked remote clone =>
    rw [there] at found
    have moved := updates [] (unitRow "") [] rfl (fun _ none => absurd none List.not_mem_nil) rfl
      goesOn allAnswer_succeed linked remote clone (by rw [cloneAll_nil, unit_key, there])
      (Option.some.inj found) (by rw [clonedAt_origins]; rfl)
    rw [unit_key] at moved
    obtain ⟨_, _, final, origin, commit, isFinal, has, at_, asked⟩ := moved
    rw [clonedAt_origins] at has
    obtain rfl := Option.some.inj has
    rw [isFinal] at left
    have stays : some 0 = some commit := (Option.some.inj left).symm.trans at_
    have tip : requestCommit lineHistory taggedOrigin final
        (updateConfig.request (unitRow "").row) = some 1 := by
      simp [requestCommit, Config.request, updateConfig, unitRow, taggedOrigin]
    rw [tip] at asked
    exact absurd (stays.trans asked.symm) (by decide)

/-- The repository after its branch has moved on. -/
def movedOrigin : Origin Nat :=
  { taggedOrigin with branches := fun name => if name = "main" then some 2 else none }

/-- A clone of the branch, after which the branch moved on. -/
def behind : Machine Nat :=
  (machines lineHistory).after bare
    [.mastClone updateConfig [unitRow ""], .publish fun _ => some movedOrigin]

theorem eachLands_single {machine : Machine Commit} {selected : Selected}
    (lands : ∀ linked remote clone,
      machine.places (config.script.key selected.row.dir) = .clone linked remote clone →
      clone.clean = true ∧ ∀ origin, machine.origins remote = some origin →
        Lands config history origin (config.request selected.row) selected.answers remote clone) :
    EachLands history machine (.mastClone config [selected]) := by
  constructor
  · rintro taken member linked remote clone origin there - has
    obtain rfl := List.mem_singleton.mp member
    exact (lands linked remote clone there).2 origin has
  · rintro other member linked remote clone there dirty
    obtain rfl := List.mem_singleton.mp member
    rw [(lands linked remote clone there).1] at dirty
    cases dirty

theorem behind_lands : EachLands lineHistory behind (.mastClone updateConfig [unitRow ""]) := by
  refine eachLands_single ?_
  intro linked remote clone there
  rw [unit_key] at there
  have found : (behind.places "unit").ask (fun remote own =>
      (own.clean, updateConfig.script.expects "MAST_unit.2024-12-12" remote,
        own.published movedOrigin, own.forwards lineHistory 2)) =
      some (true, true, some 2, true) := by
    decide +kernel
  rw [there] at found
  obtain ⟨clean, own, published, forwards⟩ : clone.clean = true ∧
      updateConfig.script.expects "MAST_unit.2024-12-12" remote = true ∧
      clone.published movedOrigin = some 2 ∧ clone.forwards lineHistory 2 = true := by
    simpa [Place.ask] using found
  refine ⟨clean, ?_⟩
  intro origin has
  obtain rfl : movedOrigin = origin := Option.some.inj has
  exact ⟨fun _ pinned => absurd rfl pinned,
    fun _ _ => ⟨2, rfl, .inl ⟨rfl, published, forwards⟩⟩,
    fun other => absurd (own.symm.trans other) (by decide)⟩

theorem behind_updates : LeavesAtRequest lineHistory behind updateConfig [unitRow ""] := by
  refine And.left (b := LeavesDirty lineHistory behind updateConfig [unitRow ""])
    (mastClone_updates (bare_run [.mastClone updateConfig [unitRow ""],
      .publish fun _ => some movedOrigin, .mastClone updateConfig [unitRow ""]]) ?_ _
      (System.last_mem_steps bare [_, _] _))
  intro taken member
  simp only [System.steps, List.mem_cons, List.not_mem_nil, or_false] at member
  rcases member with rfl | rfl | rfl
  · refine eachLands_single ?_
    intro linked remote clone there
    cases there
  · trivial
  · exact behind_lands

end MastProvisioning.Tools
