import Mathlib.Data.List.MinMax
import Mathlib.Order.Lattice

/-!
# The fleet report's comparison of repositories

`compare_repos` of `fleet-drift-report.py` sets the revision each unit recorded for a
repository against a base: the reference unit's revision, or the one most units have.
-/

namespace MastProvisioning.Fleet

/-- A row of the `repos` block a unit recorded, with the keys that may be absent. -/
structure RepoRow where
  resolvedSha : Option String
  rev : String
  head : String
  fetchOk : Option Bool
  deriving DecidableEq, Repr

/-- `row.get("resolved_sha") or None`. -/
def RepoRow.sha (row : RepoRow) : Option String :=
  row.resolvedSha.filter (· ≠ "")

/-- The rows of a unit, by folder. -/
abbrev UnitRepos := String → Option RepoRow

inductive RepoState where
  | ok
  | differs
  | missing
  | na
  | unpinned
  | unverified
  deriving DecidableEq, Repr

/-- `_baseline`: the reference if there is one, or the value most units have, the first of
these on a tie. -/
def baseline (values : List (Option String)) (reference : Option String) : Option String :=
  match reference with
  | some sha => some sha
  | none =>
    let present := values.filterMap id
    present.argmax fun value => present.count value

/-- The base revision of a folder. -/
def baseOf (units : List UnitRepos) (reference : Option UnitRepos) (dir : String) :
    Option String :=
  baseline (units.map fun unit => (unit dir).bind RepoRow.sha)
    (reference.bind fun unit => (unit dir).bind RepoRow.resolvedSha)

/-- A unit's cell for a folder: `expected` is whether its role pulls the repository. -/
def repoState (expected : Bool) (base : Option String) : Option RepoRow → RepoState
  | none => if expected then .missing else .na
  | some row =>
    if row.fetchOk = some false then .unverified
    else if row.rev ≠ "" ∧ row.head ≠ "HEAD" then .unpinned
    else if row.sha ≠ base then .differs
    else .ok

/-- A row is never shown as current against a base, in whatever fleet its unit is. -/
def NeverCurrent (dir : String) (row : RepoRow) : Prop :=
  ∀ (units : List UnitRepos) (reference : Option UnitRepos) (expected : Bool),
    ∀ unit ∈ units, unit dir = some row → (baseOf units reference dir).isSome = true →
      repoState expected (baseOf units reference dir) (unit dir) ≠ .ok

theorem repoState_ok_iff {expected : Bool} {base : Option String} {row : RepoRow} :
    repoState expected base (some row) = .ok ↔
      row.fetchOk ≠ some false ∧ ¬ (row.rev ≠ "" ∧ row.head ≠ "HEAD") ∧ row.sha = base := by
  simp only [repoState]
  split
  · simp [*]
  · split
    · simp [*]
    · split <;> simp_all

/-- The base of a unit that is a fleet of its own. -/
theorem baseOf_single {dir sha : String} {unit : UnitRepos}
    (has : (unit dir).bind RepoRow.sha = some sha) : baseOf [unit] none dir = some sha := by
  simp [baseOf, baseline, has]

/-- A row is never shown as current exactly when it has no revision, was not verified, or
does not honour its pin. -/
theorem neverCurrent_iff {dir : String} {row : RepoRow} :
    NeverCurrent dir row ↔
      row.sha = none ∨ row.fetchOk = some false ∨ (row.rev ≠ "" ∧ row.head ≠ "HEAD") := by
  constructor
  · intro never
    by_contra otherwise
    rw [not_or, not_or] at otherwise
    obtain ⟨read, verified, honoured⟩ := otherwise
    obtain ⟨sha, has⟩ := Option.ne_none_iff_exists'.mp read
    have base : baseOf [fun _ => some row] none dir = some sha := baseOf_single has
    refine never [fun _ => some row] none true _ (List.mem_singleton_self _) rfl
      (by rw [base]; rfl) ?_
    rw [base]
    exact repoState_ok_iff.mpr ⟨verified, honoured, has⟩
  · intro holds units reference expected unit member isRow based shown
    rw [isRow] at shown
    obtain ⟨verified, honoured, same⟩ := repoState_ok_iff.mp shown
    rcases holds with unread | unverified | dishonoured
    · rw [← same, unread] at based
      cases based
    · exact verified unverified
    · exact honoured dishonoured

end MastProvisioning.Fleet
