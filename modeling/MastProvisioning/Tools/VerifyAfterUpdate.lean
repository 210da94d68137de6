import MastProvisioning.Tools.VerifyMast

/-!
# Verifying right after an update

A run of `mast-clone.ps1 -Update` in which every git command succeeds, and then the verify
script with the origins as they were. What a clone is shown as depends on the kind of its
row: the verify script asks for the branch HEAD follows, and for a detached HEAD for a tag
with the name of the row's revision.
-/

namespace MastProvisioning.Tools

open Git PowerShell Semantics

universe u

variable {Commit : Type u} {config : Config} {history : History Commit}
  {origins : String → Option (Origin Commit)}

/-- Every git command of a row gets through. -/
structure Answers.AllSucceed (answers : Answers) : Prop extends answers.Succeed where
  getUrl : answers.getUrl = true
  status : answers.status = true
  merge : answers.merge = true

/-- The entry as the verify script reads it back. -/
def RepoRecord.sidecarRow (record : RepoRecord) : SidecarRow where
  dir := record.dir
  fetchOk := some record.fetchOk
  rev := record.rev

/-- The verify script right after a run, with a git whose commands all get through. -/
def verifyAfter (config : Config) (history : History Commit)
    (origins : String → Option (Origin Commit)) (final : Progress Commit) (expected : List String) :
    VerifyRun Commit where
  gitFound := true
  otherIssues := 0
  expected
  places := final.places
  origins
  sidecar := final.provenance.map fun selected =>
    (repoRecord config history final selected).sidecarRow
  answers _ := ⟨true, true, true, true⟩

/-- HEAD is what the origin has for the branch it follows, or, without one, the commit of the
revision's own tag. -/
def Told (origin : Origin Commit) (rev : String) (clone : Clone Commit) : Prop :=
  ∃ head, clone.headCommit = some head ∧
    match clone.upstreamName with
    | some branch => origin.branches branch = some head
    | none => rev ≠ "" ∧ origin.tags rev = some (.commit head)

variable {origin : Origin Commit} {final : Progress Commit} {expected : List String}

theorem verdict_after_iff [DecidableEq Commit] {dir remote : String} {own : Clone Commit}
    (published : origins remote = some origin) :
    (verifyAfter config history origins final expected).verdict dir remote own = .current ↔
      Told origin (sidecarRev (verifyAfter config history origins final expected).sidecar dir)
        own := by
  rw [verdict_current_iff]
  have reached : (verifyAfter config history origins final expected).originOf dir remote =
      some origin := published
  have head : headSha ((verifyAfter config history origins final expected).answers dir) own =
      own.headCommit.map .commit := rfl
  rw [reached, head]
  unfold VerifyRun.asks question Told
  simp only [verifyAfter, if_true]
  cases named : own.upstreamName with
  | some branch =>
    constructor
    · rintro ⟨asked, other, sha, isAsked, isOrigin, printed, same⟩
      cases isAsked
      cases isOrigin
      obtain ⟨commit, has, rfl⟩ := Option.map_eq_some_iff.mp printed
      obtain ⟨head, here, isCommit⟩ := Option.map_eq_some_iff.mp same
      cases isCommit
      exact ⟨commit, here, has⟩
    · rintro ⟨head, here, has⟩
      exact ⟨_, origin, .commit head, rfl, rfl, by simp [lsRemote, has], by simp [here]⟩
  | none =>
    constructor
    · rintro ⟨asked, other, sha, isAsked, isOrigin, printed, same⟩
      obtain ⟨pinned, isAsked⟩ := Option.ite_none_right_eq_some.mp isAsked
      cases isAsked
      cases isOrigin
      obtain ⟨head, here, rfl⟩ := Option.map_eq_some_iff.mp same
      exact ⟨head, here, pinned, printed⟩
    · rintro ⟨head, here, pinned, has⟩
      exact ⟨_, origin, .commit head, if_pos pinned, rfl, has, by simp [here]⟩

/-! ### The entry of the last row of a folder -/

/-- The sidecar's revision of a folder is what the last row for it asks for. -/
theorem sidecarRev_after {before later : List Selected} {selected : Selected}
    (windows : config.script = .ps1)
    (lastOfFolder : ∀ other ∈ later,
      config.script.key other.row.dir ≠ config.script.key selected.row.dir)
    (provenance : final.provenance =
      (before ++ selected :: later).map (Selected.requested config)) :
    sidecarRev (verifyAfter config history origins final expected).sidecar selected.row.dir =
      (config.request selected.row).rev := by
  have found : sidecarRow (verifyAfter config history origins final expected).sidecar
      selected.row.dir =
      some (repoRecord config history final (selected.requested config)).sidecarRow := by
    unfold sidecarRow verifyAfter
    rw [provenance]
    simp only [List.map_append, List.map_cons, List.reverse_append, List.reverse_cons,
      List.append_assoc, List.find?_append]
    have none : ((later.map (Selected.requested config)).map fun selected =>
        (repoRecord config history final selected).sidecarRow).reverse.find?
          (fun row => Script.ps1.key row.dir = Script.ps1.key selected.row.dir) = none := by
      rw [List.find?_eq_none]
      intro row member
      rw [List.mem_reverse, List.map_map, List.mem_map] at member
      obtain ⟨other, isLater, rfl⟩ := member
      have apart := lastOfFolder other isLater
      rw [windows] at apart
      simpa [RepoRecord.sidecarRow, repoRecord, Selected.requested] using apart
    rw [none]
    simp [RepoRecord.sidecarRow, repoRecord, Selected.requested]
  rw [sidecarRev, found]
  rfl

/-! ### What a row leaves to be confirmed -/

/-- When the clone that a row found is shown as current after it. -/
structure CloneCheckable (config : Config) (history : History Commit) (origin : Origin Commit)
    (request : Row) (answers : Answers) (remote : String) (clone : Clone Commit) : Prop where
  /-- The revision is a tag without an object of its own, and neither a local branch nor a
  commit id of that name leads elsewhere. -/
  pinned : config.script.expects request.repo remote = true → clone.clean = true →
    request.rev ≠ "" → ∃ commit, origin.tags request.rev = some (.commit commit) ∧
      ∀ other, (clone.heads request.rev <|> history.fullId request.rev) = some other →
        other = commit
  /-- HEAD follows a branch that the origin has, and can be fast-forwarded to it or is
  there. -/
  followed : config.script.expects request.repo remote = true → clone.clean = true →
    request.rev = "" → ∃ tip, clone.published origin = some tip ∧
      (clone.forwards history tip = true ∨ clone.headCommit = some tip)
  /-- A dirty clone is already where the origin is. -/
  dirty : config.script.expects request.repo remote = true → clone.clean = false →
    Told origin request.rev (clone.fetchPrune origin answers.followed)
  /-- So is a clone of another repository, by its last fetch. -/
  skipped : config.script.expects request.repo remote = false → Told origin request.rev clone

/-- When a clone that a row makes is shown as current after it. -/
structure FreshCheckable (history : History Commit) (origin : Origin Commit) (request : Row) :
    Prop where
  pinned : request.rev ≠ "" → ∃ commit, origin.tags request.rev = some (.commit commit) ∧
    ∀ other, ((if request.rev = request.branch then origin.branches request.branch else none) <|>
      history.fullId request.rev) = some other → other = commit
  /-- The row's branch is a branch of the origin, not a tag. -/
  followed : request.rev = "" → (origin.branches request.branch).isSome = true

/-- The revision's own tag is where HEAD was detached when nothing of its name comes before
it. -/
theorem tag_iff {clone : Clone Commit} {rev : String} {commit : Commit}
    (resolved : (clone.heads rev <|> revCommit history origin clone rev) = some commit) :
    origin.tags rev = some (.commit commit) ↔
      ∃ tagged, origin.tags rev = some (.commit tagged) ∧
        ∀ other, (clone.heads rev <|> history.fullId rev) = some other → other = tagged := by
  unfold revCommit at resolved
  cases branch : clone.heads rev with
  | some at_ =>
    rw [branch] at resolved
    obtain rfl : at_ = commit := Option.some.inj resolved
    simp
  | none =>
    cases full : history.fullId rev with
    | some id =>
      rw [branch, full] at resolved
      obtain rfl : id = commit := Option.some.inj resolved
      simp
    | none =>
      cases tag : origin.tags rev with
      | none => simp
      | some object =>
        rw [branch, full, tag] at resolved
        obtain rfl : object.peel = commit := Option.some.inj resolved
        cases object <;> simp [Object.peel]

/-- A pinned clone is told of its tag. -/
theorem pin_told_iff {request : Row} {answers : Answers} {clone : Clone Commit}
    (tagFetch : answers.tagFetch = true) (pinned : request.rev ≠ "")
    (goesOn : (pin history origin request.rev answers clone).stopped = false) :
    Told origin request.rev (pin history origin request.rev answers clone).clone ↔
      ∃ commit, origin.tags request.rev = some (.commit commit) ∧
        ∀ other, (clone.heads request.rev <|> history.fullId request.rev) = some other →
          other = commit := by
  obtain ⟨commit, resolved, moved⟩ := pin_head tagFetch goesOn
  rw [← tag_iff resolved, moved]
  constructor
  · rintro ⟨head, here, -, has⟩
    cases here
    exact has
  · intro has
    exact ⟨commit, rfl, pinned, has⟩

/-- A clone that follows its branch is told of it. -/
theorem fastForward_told_iff {answers : Answers} {clone : Clone Commit}
    (merge : answers.merge = true) :
    Told origin "" (fastForward history answers (clone.fetchPrune origin answers.followed)) ↔
      ∃ tip, clone.published origin = some tip ∧
        (clone.forwards history tip = true ∨ clone.headCommit = some tip) := by
  have named : (fastForward history answers
      (clone.fetchPrune origin answers.followed)).upstreamName =
      (clone.fetchPrune origin answers.followed).upstreamName := by
    rw [fastForward, if_pos merge, Clone.upstreamName_mergeFfOnly]
  unfold Told
  rw [named]
  rcases fastForward_head with ⟨target, ⟨-, has, ahead⟩, here⟩ | ⟨stays, here⟩
  · refine iff_of_true ?_ ⟨target, has, .inl ahead⟩
    obtain ⟨branch, isNamed⟩ := Clone.upstreamName_of_published answers.followed has
    rw [isNamed]
    exact ⟨target, here, (Clone.published_of_upstreamName isNamed).1.symm.trans has⟩
  · rw [here]
    cases isNamed : (clone.fetchPrune origin answers.followed).upstreamName with
    | none =>
      constructor
      · rintro ⟨head, -, pinned, -⟩
        exact absurd rfl pinned
      · rintro ⟨tip, has, -⟩
        obtain ⟨branch, other⟩ := Clone.upstreamName_of_published answers.followed has
        rw [isNamed] at other
        cases other
    | some branch =>
      rw [(Clone.published_of_upstreamName isNamed).1]
      constructor
      · rintro ⟨head, at_, has⟩
        exact ⟨head, has, .inr at_⟩
      · rintro ⟨tip, has, ahead | at_⟩
        · have published := (Clone.published_of_upstreamName isNamed).1.trans has
          exact absurd ⟨merge, published, ahead⟩ (stays tip)
        · exact ⟨tip, at_, has⟩

/-- A row that updates a clone leaves it to be confirmed exactly when it is checkable. -/
theorem updateRow_told_iff {request : Row} {answers : Answers} {linked : Bool} {remote : String}
    {clone : Clone Commit} (update : config.update = true) (published : origins remote = some origin)
    (succeed : answers.AllSucceed)
    (goesOn : (updateRow config history origins request answers linked remote clone).stopped =
      false) :
    ∃ now, (updateRow config history origins request answers linked remote clone).place =
        .clone linked remote now ∧
      (Told origin request.rev now ↔
        CloneCheckable config history origin request answers remote clone) := by
  have url : answers.originUrl remote = remote := if_pos succeed.getUrl
  have reached : reach origins answers.fetch remote = some origin := by
    rw [reach, if_pos succeed.fetch, published]
  unfold updateRow at goesOn ⊢
  rw [reached, update, url] at goesOn ⊢
  by_cases own : config.script.expects request.repo remote = true
  · rw [if_pos own] at goesOn ⊢
    refine ⟨_, rfl, ?_⟩
    simp only [if_true, move, succeed.status, Bool.true_and, Bool.not_eq_true',
      Clone.clean_fetchPrune] at goesOn ⊢
    by_cases clean : clone.clean = true
    · rw [if_neg (by simp [clean])] at goesOn ⊢
      by_cases unpinned : request.rev = ""
      · rw [if_neg (not_not_intro unpinned)]
        rw [unpinned]
        refine (fastForward_told_iff succeed.merge).trans ⟨fun told => ?_, fun lands => ?_⟩
        · exact ⟨fun _ _ pinned => absurd unpinned pinned, fun _ _ _ => told,
            fun _ dirty => by simp [clean] at dirty, fun other => by simp [own] at other⟩
        · exact lands.followed own clean unpinned
      · rw [if_pos unpinned] at goesOn ⊢
        refine (pin_told_iff succeed.tagFetch unpinned goesOn).trans ⟨fun told => ?_, fun lands => ?_⟩
        · exact ⟨fun _ _ _ => told, fun _ _ follows => absurd follows unpinned,
            fun _ dirty => by simp [clean] at dirty, fun other => by simp [own] at other⟩
        · exact lands.pinned own clean unpinned
    · have dirty : clone.clean = false := by simpa using clean
      rw [if_pos dirty]
      constructor
      · intro told
        exact ⟨fun _ yes => absurd yes clean, fun _ yes => absurd yes clean, fun _ _ => told,
          fun other => by simp [own] at other⟩
      · intro lands
        exact lands.dirty own dirty
  · have other : config.script.expects request.repo remote = false := by simpa using own
    rw [if_neg own]
    refine ⟨clone, rfl, fun told => ?_, fun lands => lands.skipped other⟩
    exact ⟨fun yes => absurd yes own, fun yes => absurd yes own, fun yes => absurd yes own,
      fun _ => told⟩

/-- What a fresh clone has. -/
theorem ofOrigin_spec {followed : String → Bool} {name : String} {fresh : Clone Commit}
    (made : Clone.ofOrigin origin followed name = some fresh) :
    (∀ other, fresh.heads other = if other = name then origin.branches name else none) ∧
    (Told origin "" fresh ↔ (origin.branches name).isSome = true) := by
  unfold Clone.ofOrigin at made
  cases has : origin.branches name with
  | some commit =>
    rw [has] at made
    obtain rfl := Option.some.inj made
    constructor
    · intro other
      by_cases same : other = name
      · subst same
        simp
      · simp [same]
    · refine iff_of_true ⟨commit, by simp [Clone.headCommit], ?_⟩ rfl
      simp [Clone.upstreamName, has, Option.filter]
  | none =>
    rw [has] at made
    cases tag : origin.tags name with
    | none =>
      rw [tag] at made
      cases made
    | some object =>
      rw [tag] at made
      obtain rfl := Option.some.inj made
      refine ⟨fun other => by simp, ?_⟩
      constructor
      · rintro ⟨head, -, pinned, -⟩
        exact absurd rfl pinned
      · intro none
        cases none

/-- A row that makes a clone leaves it to be confirmed exactly when it is checkable. -/
theorem cloneRow_told_iff {request : Row} {answers : Answers} {url : String}
    (published : origins url = some origin) (succeed : answers.AllSucceed)
    (goesOn : (cloneRow history origins url request answers).stopped = false) :
    ∃ now, (cloneRow history origins url request answers).place = .clone false url now ∧
      (Told origin request.rev now ↔ FreshCheckable history origin request) := by
  have reached : reach origins answers.clone url = some origin := by
    rw [reach, if_pos succeed.clone, published]
  unfold cloneRow at goesOn ⊢
  rw [reached] at goesOn ⊢
  simp only at goesOn ⊢
  cases made : Clone.ofOrigin origin answers.followed request.branch with
  | none =>
    rw [made] at goesOn
    cases goesOn
  | some fresh =>
    rw [made] at goesOn
    obtain ⟨heads, told⟩ := ofOrigin_spec made
    refine ⟨_, rfl, ?_⟩
    by_cases unpinned : request.rev = ""
    · rw [if_pos unpinned, unpinned, told]
      exact ⟨fun has => ⟨fun pinned => absurd unpinned pinned, fun _ => has⟩,
        fun lands => lands.followed unpinned⟩
    · simp only [if_neg unpinned] at goesOn ⊢
      rw [pin_told_iff succeed.tagFetch unpinned goesOn, heads]
      exact ⟨fun tagged => ⟨fun _ => tagged, fun follows => absurd follows unpinned⟩,
        fun lands => lands.pinned unpinned⟩

/-! ### The whole check -/

/-- When the folder that a row found is shown as current after it. -/
def RowCheckable (config : Config) (history : History Commit)
    (origins : String → Option (Origin Commit)) (request : Row) (answers : Answers) :
    Place Commit → Prop
  | .absent => ∀ origin, origins (repoUrl config.transport request.repo) = some origin →
      FreshCheckable history origin request
  | .other => True
  | .clone _ remote own => ∀ origin, origins remote = some origin →
      CloneCheckable config history origin request answers remote own

/-- Right after a run the clone in a folder is reported neither stale nor unverified nor
unverifiable. -/
def ShownCurrent [DecidableEq Commit] (config : Config) (history : History Commit)
    (origins : String → Option (Origin Commit)) (final : Progress Commit) (expected : List String)
    (dir : String) : Prop :=
  ∀ linked remote own, final.places (config.script.key dir) = .clone linked remote own →
    (verifyAfter config history origins final expected).verdict dir remote own = .current

/-- The origin of the clone in a folder is there. -/
def Reachable (config : Config) (origins : String → Option (Origin Commit))
    (final : Progress Commit) (dir : String) : Prop :=
  ∀ linked remote own, final.places (config.script.key dir) = .clone linked remote own →
    (origins remote).isSome = true

/-- What the row of a folder leaves there. -/
theorem place_after {places : String → Place Commit} {before later : List Selected}
    {selected : Selected}
    (lastOfFolder : ∀ other ∈ later,
      config.script.key other.row.dir ≠ config.script.key selected.row.dir)
    (goesOn : (ranOver config history origins places (before ++ selected :: later)).stopped =
      false) :
    let visited := visit config history origins (config.request selected.row) selected.answers
      ((ranOver config history origins places before).places
        (config.script.key selected.row.dir))
    visited.stopped = false ∧
      (ranOver config history origins places (before ++ selected :: later)).places
        (config.script.key selected.row.dir) = visited.place := by
  have through : ranOver config history origins places (before ++ selected :: later) =
      (loop config history origins).after ((loop config history origins).next
        (ranOver config history origins places before) selected) later :=
    System.after_append _ before (selected :: later)
  rw [through] at goesOn ⊢
  obtain ⟨visited, left⟩ := loop_next_visited (loop_goesOn goesOn)
  rw [loop_after_frame _ later lastOfFolder, left]
  exact ⟨visited, by simp⟩

theorem shownCurrent_iff [DecidableEq Commit] {places : String → Place Commit}
    {before later : List Selected} {selected : Selected} (windows : config.script = .ps1)
    (update : config.update = true) (succeed : selected.answers.AllSucceed)
    (lastOfFolder : ∀ other ∈ later,
      config.script.key other.row.dir ≠ config.script.key selected.row.dir)
    (goesOn : (ranOver config history origins places (before ++ selected :: later)).stopped =
      false)
    (reachable : Reachable config origins
      (ranOver config history origins places (before ++ selected :: later)) selected.row.dir) :
    ShownCurrent config history origins
        (ranOver config history origins places (before ++ selected :: later)) expected
        selected.row.dir ↔
      RowCheckable config history origins (config.request selected.row) selected.answers
        ((ranOver config history origins places before).places
          (config.script.key selected.row.dir)) := by
  obtain ⟨visited, left⟩ := place_after lastOfFolder goesOn
  have rev : sidecarRev (verifyAfter config history origins
      (ranOver config history origins places (before ++ selected :: later)) expected).sidecar
      selected.row.dir = (config.request selected.row).rev :=
    sidecarRev_after windows lastOfFolder (provenance_after goesOn)
  -- a clone at the end is shown as current when it is told of its HEAD
  have shown : ∀ linked remote now origin,
      (ranOver config history origins places (before ++ selected :: later)).places
        (config.script.key selected.row.dir) = .clone linked remote now →
      origins remote = some origin →
      (ShownCurrent config history origins
          (ranOver config history origins places (before ++ selected :: later)) expected
          selected.row.dir ↔ Told origin (config.request selected.row).rev now) := by
    intro linked remote now origin there has
    rw [← rev]
    constructor
    · intro current
      exact (verdict_after_iff has).mp (current linked remote now there)
    · intro told otherLinked otherRemote own isOwn
      rw [there] at isOwn
      cases isOwn
      exact (verdict_after_iff has).mpr told
  cases found : (ranOver config history origins places before).places
      (config.script.key selected.row.dir) with
  | other =>
    rw [found] at left
    refine iff_of_true ?_ trivial
    intro linked remote own there
    rw [left] at there
    cases there
  | absent =>
    rw [found] at left visited
    simp only [visit] at left visited
    cases published : origins (repoUrl config.transport (config.request selected.row).repo) with
    | none => simp [cloneRow, reach, published] at visited
    | some origin =>
      obtain ⟨now, there, told⟩ := cloneRow_told_iff published succeed visited
      rw [shown _ _ _ _ (left.trans there) published, told]
      simp [RowCheckable, published]
  | clone linked remote own =>
    have isClone : config.script.isClone linked = true := by
      rw [windows]
      rfl
    rw [found] at left visited
    simp only [visit, isClone, if_true] at left visited
    obtain ⟨now, stays⟩ : ∃ now, (updateRow config history origins (config.request selected.row)
        selected.answers linked remote own).place = .clone linked remote now :=
      (updateRow_accounts _ _ _ _ _).2.2
    obtain ⟨origin, published⟩ :=
      Option.isSome_iff_exists.mp (reachable linked remote now (left.trans stays))
    obtain ⟨now, there, told⟩ := updateRow_told_iff update published succeed visited
    rw [shown _ _ _ _ (left.trans there) published, told]
    simp [RowCheckable, published]

/-- The verify script is sound exactly when some check fails or nothing is misread, and after
an update in which every git command of a row succeeded its clone is shown as current exactly
when the row is checkable. -/
theorem verifyMast_exact [DecidableEq Commit] (history : History Commit) :
    (∀ run : VerifyRun Commit, VerifySound history run ↔
      (run.otherIssues ≠ 0 ∨ ∃ dir ∈ run.expected, Fails run dir) ∨
        ∀ dir ∈ run.expected, NotMisread history run dir) ∧
    ∀ (config : Config) (origins : String → Option (Origin Commit))
      (places : String → Place Commit) (before later : List Selected) (selected : Selected)
      (expected : List String), config.script = .ps1 → config.update = true →
      selected.answers.AllSucceed →
      (∀ other ∈ later, config.script.key other.row.dir ≠ config.script.key selected.row.dir) →
      (ranOver config history origins places (before ++ selected :: later)).stopped = false →
      Reachable config origins
        (ranOver config history origins places (before ++ selected :: later)) selected.row.dir →
      (ShownCurrent config history origins
          (ranOver config history origins places (before ++ selected :: later)) expected
          selected.row.dir ↔
        RowCheckable config history origins (config.request selected.row) selected.answers
          ((ranOver config history origins places before).places
            (config.script.key selected.row.dir))) :=
  ⟨fun _ => verifySound_iff,
    fun _ _ _ _ _ _ _ windows update succeed lastOfFolder goesOn reachable =>
      shownCurrent_iff windows update succeed lastOfFolder goesOn reachable⟩

theorem allAnswer_allSucceed : allAnswer.AllSucceed := ⟨allAnswer_succeed, rfl, rfl, rfl⟩

theorem tagged_reachable (final : Progress Nat) (dir : String) :
    Reachable updateConfig (fun _ => some taggedOrigin) final dir :=
  fun _ _ _ _ => rfl

/-- A clone of a branch is shown as current. -/
theorem branch_shownCurrent :
    ShownCurrent updateConfig lineHistory (fun _ => some taggedOrigin)
      (ranOver updateConfig lineHistory (fun _ => some taggedOrigin) (fun _ => .absent)
        [unitRow ""]) ["unit"] "unit" := by
  refine ((verifyMast_exact lineHistory).2 updateConfig _ _ [] [] (unitRow "") ["unit"] rfl rfl
    allAnswer_allSucceed (fun _ none => absurd none List.not_mem_nil) (by decide +kernel)
    (tagged_reachable _ _)).mpr ?_
  intro origin has
  obtain rfl := Option.some.inj has
  exact ⟨fun pinned => absurd rfl pinned, fun _ => rfl⟩

/-- A clone pinned to a commit id is unverifiable right after it was made. -/
theorem commitPin_unverifiable :
    ¬ ∀ (rows : List Selected), (∀ selected ∈ rows, selected.answers.AllSucceed) →
      (ranOver updateConfig lineHistory (fun _ => some taggedOrigin) (fun _ => .absent)
        rows).stopped = false →
      ShownCurrent updateConfig lineHistory (fun _ => some taggedOrigin)
        (ranOver updateConfig lineHistory (fun _ => some taggedOrigin) (fun _ => .absent) rows)
        ["unit"] "unit" := by
  intro always
  have current := always [unitRow "00"] (by
    intro selected member
    rw [List.mem_singleton.mp member]
    exact allAnswer_allSucceed) (by decide +kernel)
  have left : ((ranOver updateConfig lineHistory (fun _ => some taggedOrigin) (fun _ => .absent)
      [unitRow "00"]).places (updateConfig.script.key "unit")).ask (fun remote own =>
        (verifyAfter updateConfig lineHistory (fun _ => some taggedOrigin)
          (ranOver updateConfig lineHistory (fun _ => some taggedOrigin) (fun _ => .absent)
            [unitRow "00"]) ["unit"]).verdict "unit" remote own) = some .unverifiable := by
    decide +kernel
  cases there : (ranOver updateConfig lineHistory (fun _ => some taggedOrigin) (fun _ => .absent)
      [unitRow "00"]).places (updateConfig.script.key "unit") with
  | absent => simp [there, Place.ask] at left
  | other => simp [there, Place.ask] at left
  | clone linked remote own =>
    rw [there] at left
    have shown := current linked remote own there
    rw [Place.ask, shown] at left
    cases left

end MastProvisioning.Tools
