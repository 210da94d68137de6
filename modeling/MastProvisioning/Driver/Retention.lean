import MastProvisioning.Collections.Newest
import MastProvisioning.PowerShell.SettingsFile
import Mathlib

/-!
# Retention of run directories

At the end of a run the driver keeps the newest of the run directories, its own among them
when its own is among the newest. Age is read off the names, which a run takes from the
clock when it starts.
-/

namespace MastProvisioning.Driver.Retention

open MastProvisioning.Collections.Newest
open MastProvisioning.PowerShell.SettingsFile (Text)

section Operations

-- The decimal digits of `\d`.
variable (isDigit : Char → Bool)

/-- `run_id_timestamp`: the stamp in `^run-(\d{8}-\d{6})$`, where the end is that of the name
or a line feed before it. -/
def runIdTimestamp (name : Text) : Option Text :=
  match "run-".toList.isPrefixOf name, (name.drop 4).drop 8 with
  | true, '-' :: more =>
    let date := (name.drop 4).take 8
    let time := more.take 6
    if date.all isDigit ∧ time.all isDigit ∧ time.length = 6 ∧
        (more.drop 6 = [] ∨ more.drop 6 = ['\n']) then
      some (date ++ '-' :: time)
    else none
  | _, _ => none

def isConforming (name : Text) : Bool :=
  (runIdTimestamp isDigit name).isSome

/-- The stamp conforming names are sorted by. -/
def stampOf (name : Text) : Text :=
  (runIdTimestamp isDigit name).getD []

/-- `select_prunable_runs`. -/
def selectPrunableRuns (runIds : List Text) (retain : Int) : Except String (List Text) :=
  if retain < 1 then .error ("retain must be >= 1 (got " ++ toString retain ++ ")")
  else
    let conforming := runIds.filter (isConforming isDigit)
    if (conforming.length : Int) ≤ retain then .ok []
    else .ok ((newestFirst (stampOf isDigit) conforming).drop retain.toNat)

/-- An entry of the sessions directory: whether it leads to a directory, and whether
`rmtree` removes it. -/
structure Entry where
  name : Text
  isDir : Bool
  removable : Bool
deriving DecidableEq, Repr

/-- The sessions directory. -/
structure Sessions where
  entries : List Entry
  distinct : (entries.map Entry.name).Nodup

/-- The directory without some of its entries. -/
def Sessions.without (sessions : Sessions) (removed : List Text) : Sessions where
  entries := sessions.entries.filter fun entry => entry.name ∉ removed
  distinct := sessions.distinct.sublist (List.filter_sublist.map _)

/-- The names of the directories. -/
def Sessions.directories (sessions : Sessions) : List Text :=
  (sessions.entries.filter Entry.isDir).map Entry.name

/-- `shutil.rmtree` succeeds. -/
def Sessions.removes (sessions : Sessions) (name : Text) : Bool :=
  sessions.entries.any fun entry => entry.name = name && entry.removable

/-- `run_retention`: the names removed. The directory may be missing. -/
def runRetention (sessions : Option Sessions) (retain : Int) : Except String (List Text) :=
  match sessions with
  | none => .ok []
  | some sessions => do
    let prune ← selectPrunableRuns isDigit sessions.directories retain
    return prune.filter sessions.removes

/-- What `_finish` leaves of the directory; an error is logged. -/
def finish (sessions : Sessions) (retain : Int) : Sessions :=
  match runRetention isDigit (some sessions) retain with
  | .error _ => sessions
  | .ok removed => sessions.without removed

end Operations

section Meaning

variable (isDigit : Char → Bool)

/-- The conforming run directories. -/
def runs (sessions : Sessions) : List Text :=
  sessions.directories.filter (isConforming isDigit)

/-- Retention keeps the newest run directories and the one of the run that prunes, and
touches nothing else. -/
structure Keeps (before : Sessions) (retain : Int) (own : Text) (after : Sessions) : Prop where
  count : ((runs isDigit after).length : Int) = min retain (runs isDigit before).length
  newest : ∀ kept ∈ runs isDigit after, ∀ gone ∈ runs isDigit before,
    gone ∉ runs isDigit after → stampOf isDigit gone ≤ stampOf isDigit kept
  untouched : ∀ entry ∈ before.entries, entry.name ∉ runs isDigit before → entry ∈ after.entries
  running : own ∈ runs isDigit after

end Meaning

section Pruning

variable {isDigit : Char → Bool} {sessions : Sessions} {retain : Int} {own name : Text}

theorem nodup_runs (sessions : Sessions) : (runs isDigit sessions).Nodup := by
  have directories : sessions.directories.Nodup :=
    sessions.distinct.sublist (List.filter_sublist.map _)
  exact directories.filter _

/-- The run directories beyond the newest. -/
def older (isDigit : Char → Bool) (sessions : Sessions) (retain : Int) : List Text :=
  (newestFirst (stampOf isDigit) (runs isDigit sessions)).drop retain.toNat

theorem selectPrunableRuns_of_lt (isDigit : Char → Bool) (few : retain < 1) (names : List Text) :
    ∃ message, selectPrunableRuns isDigit names retain = .error message :=
  ⟨_, if_pos few⟩

theorem selectPrunableRuns_eq (enough : 1 ≤ retain) :
    selectPrunableRuns isDigit sessions.directories retain = .ok (older isDigit sessions retain) := by
  have notFew : ¬retain < 1 := by omega
  rw [selectPrunableRuns, if_neg notFew]
  by_cases fits : ((runs isDigit sessions).length : Int) ≤ retain
  · have none : older isDigit sessions retain = [] := by
      apply List.drop_eq_nil_of_le
      rw [newestFirst_perm.length_eq]
      omega
    rw [none]
    exact if_pos fits
  · exact if_neg fits

theorem finish_of_lt (few : retain < 1) : finish isDigit sessions retain = sessions := by
  obtain ⟨message, refused⟩ := selectPrunableRuns_of_lt isDigit few sessions.directories
  simp only [finish, runRetention, refused]
  rfl

theorem finish_eq (enough : 1 ≤ retain) : finish isDigit sessions retain =
    sessions.without ((older isDigit sessions retain).filter sessions.removes) := by
  simp only [finish, runRetention, selectPrunableRuns_eq enough]
  rfl

theorem runs_without (removed : List Text) : runs isDigit (sessions.without removed) =
    (runs isDigit sessions).filter fun name => name ∉ removed := by
  unfold runs Sessions.directories Sessions.without
  simp only [List.filter_filter, List.filter_map]
  congr 1
  apply List.filter_congr
  intro entry _
  simp only [Function.comp_apply]
  cases entry.isDir <;> cases isConforming isDigit entry.name <;> simp

/-- A run directory is beyond the newest exactly when enough are ranked before it. -/
theorem mem_older_iff (member : name ∈ runs isDigit sessions) :
    name ∈ older isDigit sessions retain ↔
      retain.toNat ≤ rank (stampOf isDigit) (runs isDigit sessions) name := by
  have sorted : (newestFirst (stampOf isDigit) (runs isDigit sessions)).Nodup :=
    newestFirst_perm.nodup_iff.mpr (nodup_runs sessions)
  have inSorted : name ∈ newestFirst (stampOf isDigit) (runs isDigit sessions) :=
    newestFirst_perm.mem_iff.mpr member
  have parts := List.take_append_drop retain.toNat
    (newestFirst (stampOf isDigit) (runs isDigit sessions))
  rw [← parts] at sorted inSorted
  have apart := List.disjoint_of_nodup_append sorted
  rw [← Nat.not_lt, ← mem_take_iff_rank (nodup_runs sessions) member]
  constructor
  · intro isOlder isNewer
    exact apart isNewer isOlder
  · intro notNewer
    exact (List.mem_append.mp inSorted).resolve_left notNewer

end Pruning

section Retention

variable {isDigit : Char → Bool} {sessions : Sessions} {retain : Int} {own : Text}

/-- What is left of the run directories, in the order of the ranks: the newest, and those
that could not be removed. -/
theorem runs_finish_perm (enough : 1 ≤ retain) : (runs isDigit (finish isDigit sessions retain)).Perm
    ((newestFirst (stampOf isDigit) (runs isDigit sessions)).take retain.toNat ++
      (older isDigit sessions retain).filter fun name => !sessions.removes name) := by
  rw [finish_eq enough, runs_without]
  have parts := List.take_append_drop retain.toNat
    (newestFirst (stampOf isDigit) (runs isDigit sessions))
  have sorted : (newestFirst (stampOf isDigit) (runs isDigit sessions)).Nodup :=
    newestFirst_perm.nodup_iff.mpr (nodup_runs sessions)
  rw [← parts] at sorted
  have apart := List.disjoint_of_nodup_append sorted
  have ranked : (runs isDigit sessions).Perm
      (newestFirst (stampOf isDigit) (runs isDigit sessions)) := newestFirst_perm.symm
  have filtered := ranked.filter fun name =>
    decide (name ∉ (older isDigit sessions retain).filter sessions.removes)
  rw [← parts, List.filter_append] at filtered
  have newest : ((newestFirst (stampOf isDigit) (runs isDigit sessions)).take retain.toNat).filter
      (fun name => decide (name ∉ (older isDigit sessions retain).filter sessions.removes)) =
      (newestFirst (stampOf isDigit) (runs isDigit sessions)).take retain.toNat := by
    apply List.filter_eq_self.mpr
    intro name isNew
    have notOlder : name ∉ older isDigit sessions retain := apart isNew
    simp [notOlder]
  have oldest : (older isDigit sessions retain).filter
      (fun name => decide (name ∉ (older isDigit sessions retain).filter sessions.removes)) =
      (older isDigit sessions retain).filter fun name => !sessions.removes name := by
    apply List.filter_congr
    intro name isOlder
    simp [isOlder]
  rw [newest] at filtered
  rw [← oldest]
  exact filtered

theorem untouched_finish (entry : Entry) (member : entry ∈ sessions.entries)
    (other : entry.name ∉ runs isDigit sessions) :
    entry ∈ (finish isDigit sessions retain).entries := by
  by_cases enough : 1 ≤ retain
  · rw [finish_eq enough]
    have notOlder : entry.name ∉ older isDigit sessions retain := fun isOlder =>
      other (newestFirst_perm.mem_iff.mp (List.mem_of_mem_drop isOlder))
    simp [Sessions.without, member, notOlder]
  · rw [finish_of_lt (by omega)]
    exact member

/-- A directory beyond the newest that can be removed is removed. -/
theorem not_mem_runs_finish (enough : 1 ≤ retain) {name : Text}
    (member : name ∈ runs isDigit sessions)
    (beyond : retain ≤ rank (stampOf isDigit) (runs isDigit sessions) name)
    (removed : sessions.removes name = true) :
    name ∉ runs isDigit (finish isDigit sessions retain) := by
  intro isLeft
  rcases List.mem_append.mp ((runs_finish_perm enough).mem_iff.mp isLeft) with isNew | isStuck
  · have among := (mem_take_iff_rank (nodup_runs sessions) member).mp isNew
    omega
  · have stuck := (List.mem_filter.mp isStuck).2
    rw [removed] at stuck
    cases stuck

/-- Retention keeps what it is to keep exactly when it is to keep something, every directory
beyond the newest can be removed, and the running one is among the newest by its name. -/
theorem retention_keeps_iff (isDigit : Char → Bool) (sessions : Sessions) (retain : Int)
    (own : Text) (running : own ∈ runs isDigit sessions) :
    Keeps isDigit sessions retain own (finish isDigit sessions retain) ↔
      1 ≤ retain ∧
      (∀ name ∈ runs isDigit sessions,
        retain ≤ rank (stampOf isDigit) (runs isDigit sessions) name →
          sessions.removes name = true) ∧
      rank (stampOf isDigit) (runs isDigit sessions) own < retain := by
  have ranked : (newestFirst (stampOf isDigit) (runs isDigit sessions)).length =
      (runs isDigit sessions).length := newestFirst_perm.length_eq
  constructor
  · intro keeps
    have enough : 1 ≤ retain := by
      by_contra few
      have count := keeps.count
      have some : 0 < (runs isDigit sessions).length := List.length_pos_of_mem running
      rw [finish_of_lt (by omega)] at count
      omega
    have left := @runs_finish_perm isDigit sessions retain enough
    have length := left.length_eq
    rw [List.length_append, List.length_take, ranked] at length
    have count := keeps.count
    have none : (older isDigit sessions retain).filter (fun name => !sessions.removes name) = [] := by
      apply List.eq_nil_of_length_eq_zero
      omega
    rw [none, List.append_nil] at left
    refine ⟨enough, ?_, ?_⟩
    · intro name member beyond
      have isOlder : name ∈ older isDigit sessions retain := (mem_older_iff member).mpr (by omega)
      simpa using List.filter_eq_nil_iff.mp none name isOlder
    · have among := (mem_take_iff_rank (nodup_runs sessions) running).mp
        (left.mem_iff.mp keeps.running)
      omega
  · rintro ⟨enough, removable, first⟩
    have left := @runs_finish_perm isDigit sessions retain enough
    have none : (older isDigit sessions retain).filter (fun name => !sessions.removes name) = [] := by
      apply List.filter_eq_nil_iff.mpr
      intro name isOlder
      have member : name ∈ runs isDigit sessions :=
        newestFirst_perm.mem_iff.mp (List.mem_of_mem_drop isOlder)
      have beyond := (mem_older_iff member).mp isOlder
      simp [removable name member (by omega)]
    rw [none, List.append_nil] at left
    refine ⟨?_, ?_, untouched_finish, ?_⟩
    · rw [left.length_eq, List.length_take, ranked]
      omega
    · intro kept isKept gone member isGone
      have notNewest : gone ∉ (newestFirst (stampOf isDigit) (runs isDigit sessions)).take
          retain.toNat := fun isNewest => isGone (left.mem_iff.mpr isNewest)
      have beyond : gone ∈ older isDigit sessions retain := by
        rw [mem_older_iff member, ← Nat.not_lt, ← mem_take_iff_rank (nodup_runs sessions) member]
        exact notNewest
      exact key_le_of_mem (left.mem_iff.mp isKept) beyond
    · apply left.mem_iff.mpr
      apply (mem_take_iff_rank (nodup_runs sessions) running).mpr
      omega

/-- Two runs, of which the second started after the clock stepped back. -/
def steppedBack : Sessions where
  entries := [⟨"run-20270101-000000".toList, true, true⟩, ⟨"run-20260711-090000".toList, true, true⟩,
    ⟨"notes".toList, true, true⟩]
  distinct := by decide

theorem retention_keeps_two :
    Keeps Char.isDigit steppedBack 2 "run-20260711-090000".toList
      (finish Char.isDigit steppedBack 2) := by
  have removable : ∀ name ∈ runs Char.isDigit steppedBack, steppedBack.removes name = true := by
    decide +kernel
  apply (retention_keeps_iff Char.isDigit steppedBack 2 _ (by decide +kernel)).mpr
  exact ⟨by decide, fun name member _ => removable name member, by decide +kernel⟩

/-- The run that prunes removes its own directory. -/
theorem own_directory_removed :
    ¬Keeps Char.isDigit steppedBack 1 "run-20260711-090000".toList
      (finish Char.isDigit steppedBack 1) := by
  intro keeps
  have running : "run-20260711-090000".toList ∈ runs Char.isDigit steppedBack := by decide +kernel
  have gone := not_mem_runs_finish (by decide : (1 : Int) ≤ 1) running (by decide +kernel)
    (by decide +kernel)
  exact gone keeps.running

end Retention

end MastProvisioning.Driver.Retention
