import Mathlib.Logic.Function.Basic

/-!
# Git repositories and their clones

The part of git a script meets when it keeps a clone at a revision: the names a
repository publishes, what a clone remembers of them, and the commands that fetch,
check out and fast-forward. A command's definition says what it does when nothing
outside the repository stops it; `none` is its own refusal.

An object stands for its id: two ids are equal exactly when the objects are.
-/

namespace MastProvisioning.Git

universe u

/-- What a tag holds: a commit, or a tag object of its own that leads to one. -/
inductive Object (Commit : Type u) where
  | commit (commit : Commit)
  | tag (number : Nat) (target : Commit)
  deriving DecidableEq, Repr

/-- The commit an object leads to. -/
def Object.peel {Commit : Type u} : Object Commit → Commit
  | .commit own => own
  | .tag _ target => target

/-- The names a repository publishes. -/
structure Origin (Commit : Type u) where
  branches : String → Option Commit
  tags : String → Option (Object Commit)

/-- What HEAD holds: the name of a branch, or a commit. -/
inductive Head (Commit : Type u) where
  | branch (name : String)
  | detached (commit : Commit)
  deriving DecidableEq, Repr

/-- A clone: its HEAD and local branches, the branch at the origin each of them
follows, the remote-tracking branches and tags of its last fetch, and whether its
working tree has no changes of its own. -/
structure Clone (Commit : Type u) where
  head : Head Commit
  heads : String → Option Commit
  upstream : String → Option String
  tracking : String → Option Commit
  tags : String → Option (Object Commit)
  clean : Bool

/-- What the commits themselves determine: which one is reached from which, their ids,
and the commits that spellings other than a branch's or a tag's name stand for. -/
structure History (Commit : Type u) where
  isAncestor : Commit → Commit → Bool
  refl : ∀ commit, isAncestor commit commit = true
  antisymm : ∀ first second, isAncestor first second = true → isAncestor second first = true →
    first = second
  idText : Commit → String
  /-- A name that is a whole commit id. -/
  fullId : String → Option Commit
  fullId_idText : ∀ commit, fullId (idText commit) = some commit
  /-- Any other spelling of a commit, such as an id cut short. -/
  otherName : String → Option Commit

namespace Clone

variable {Commit : Type u} (history : History Commit)

/-- `rev-parse HEAD`. -/
def headCommit (clone : Clone Commit) : Option Commit :=
  match clone.head with
  | .branch name => clone.heads name
  | .detached commit => some commit

/-- `rev-parse '@{u}'`: a detached HEAD has no upstream, and an upstream that the last
fetch pruned names nothing. -/
def upstreamCommit (clone : Clone Commit) : Option Commit :=
  match clone.head with
  | .branch name => (clone.upstream name).bind clone.tracking
  | .detached _ => none

/-- The branch at the origin that `rev-parse --abbrev-ref '@{u}'` names, when the last fetch
saw it. -/
def upstreamName (clone : Clone Commit) : Option String :=
  match clone.head with
  | .branch name => (clone.upstream name).filter fun branch => (clone.tracking branch).isSome
  | .detached _ => none

/-- The commit the origin has for the upstream of the branch HEAD is on. -/
def published (origin : Origin Commit) (clone : Clone Commit) : Option Commit :=
  match clone.head with
  | .branch name => (clone.upstream name).bind origin.branches
  | .detached _ => none

/-- `fetch --prune origin`. A tag the clone has stays as it is; of the others the fetch
follows those on the history it brings. -/
def fetchPrune (origin : Origin Commit) (followed : String → Bool) (clone : Clone Commit) :
    Clone Commit :=
  { clone with
    tracking := origin.branches
    tags := fun name => clone.tags name <|> if followed name then origin.tags name else none }

/-- `fetch --tags --force origin`: every tag of the origin replaces the clone's own. -/
def fetchTags (origin : Origin Commit) (clone : Clone Commit) : Clone Commit :=
  { clone with
    tracking := fun name => origin.branches name <|> clone.tracking name
    tags := fun name => origin.tags name <|> clone.tags name }

/-- The commit `checkout` takes a name for: a local branch before anything else, then a
whole id, a tag, and the other spellings. -/
def resolve (clone : Clone Commit) (name : String) : Option Commit :=
  clone.heads name <|> history.fullId name <|> (clone.tags name).map Object.peel <|>
    history.otherName name

/-- `checkout --detach name`. -/
def checkoutDetach (name : String) (clone : Clone Commit) : Option (Clone Commit) :=
  (clone.resolve history name).map fun commit => { clone with head := .detached commit }

/-- Move HEAD, and the branch it is on, to a commit. -/
def advance (target : Commit) (clone : Clone Commit) : Clone Commit :=
  match clone.head with
  | .branch name => { clone with heads := Function.update clone.heads name (some target) }
  | .detached _ => { clone with head := .detached target }

/-- Whether nothing of HEAD is lost by moving it to a commit. -/
def forwards (clone : Clone Commit) (target : Commit) : Bool :=
  match clone.headCommit with
  | some current => history.isAncestor current target
  | none => true

/-- `merge --ff-only '@{u}'`: done already, a fast-forward, or refused. -/
def mergeFfOnly (clone : Clone Commit) : Option (Clone Commit) :=
  match clone.upstreamCommit with
  | none => none
  | some target =>
    if clone.headCommit.any (history.isAncestor target) then some clone
    else if clone.forwards history target then some (clone.advance target)
    else none

/-- `clone --branch name`: a branch of the origin, or a tag, whose clone is detached. -/
def ofOrigin (origin : Origin Commit) (followed : String → Bool) (name : String) :
    Option (Clone Commit) :=
  let fresh (head : Head Commit) (heads : String → Option Commit)
      (upstream : String → Option String) : Clone Commit :=
    { head, heads, upstream
      tracking := origin.branches
      tags := fun tag => if followed tag then origin.tags tag else none
      clean := true }
  match origin.branches name, origin.tags name with
  | some commit, _ =>
    some (fresh (.branch name) (Function.update (fun _ => none) name (some commit))
      (Function.update (fun _ => none) name (some name)))
  | none, some object => some (fresh (.detached object.peel) (fun _ => none) fun _ => none)
  | none, none => none

/-- The state `clone --branch` leaves and the other commands keep: the branch HEAD is on
has a commit and follows the origin's branch of its name. -/
def Follows (clone : Clone Commit) : Prop :=
  ∀ name, clone.head = .branch name →
    clone.upstream name = some name ∧ (clone.heads name).isSome = true

section Lemmas

variable {history} {origin : Origin Commit} {followed : String → Bool} {clone : Clone Commit}

@[simp] theorem headCommit_detached (commit : Commit) :
    ({ clone with head := .detached commit } : Clone Commit).headCommit = some commit := rfl

@[simp] theorem headCommit_fetchPrune :
    (clone.fetchPrune origin followed).headCommit = clone.headCommit := rfl

@[simp] theorem headCommit_fetchTags : (clone.fetchTags origin).headCommit = clone.headCommit := rfl

@[simp] theorem clean_fetchPrune : (clone.fetchPrune origin followed).clean = clone.clean := rfl

@[simp] theorem forwards_fetchPrune (target : Commit) :
    (clone.fetchPrune origin followed).forwards history target = clone.forwards history target :=
  rfl

theorem headCommit_advance (target : Commit) : (clone.advance target).headCommit = some target := by
  unfold advance
  cases at_ : clone.head with
  | branch name => simp [headCommit]
  | detached commit => rfl

theorem headCommit_checkoutDetach {name : String} {checked : Clone Commit}
    (done : clone.checkoutDetach history name = some checked) :
    checked.headCommit = clone.resolve history name := by
  obtain ⟨commit, named, rfl⟩ := Option.map_eq_some_iff.mp done
  rw [named]
  rfl

/-- Right after a fetch the upstream is where the origin has it. -/
theorem upstreamCommit_fetchPrune :
    (clone.fetchPrune origin followed).upstreamCommit = clone.published origin := rfl

theorem upstreamName_fetchPrune :
    (clone.fetchPrune origin followed).upstreamName =
      match clone.head with
      | .branch name => (clone.upstream name).filter fun branch => (origin.branches branch).isSome
      | .detached _ => none := rfl

/-- A clone just fetched names the upstream that the origin has. -/
theorem upstreamName_of_published (followed : String → Bool) {commit : Commit}
    (has : clone.published origin = some commit) :
    ∃ branch, (clone.fetchPrune origin followed).upstreamName = some branch := by
  rw [upstreamName_fetchPrune]
  unfold published at has
  cases at_ : clone.head with
  | detached other =>
    rw [at_] at has
    cases has
  | branch name =>
    rw [at_] at has
    obtain ⟨branch, follows, isCommit⟩ := Option.bind_eq_some_iff.mp has
    exact ⟨branch, Option.filter_eq_some_iff.mpr ⟨follows, by simp [isCommit]⟩⟩

/-- An upstream that a clone just fetched names is one the origin has. -/
theorem published_of_upstreamName {branch : String}
    (named : (clone.fetchPrune origin followed).upstreamName = some branch) :
    clone.published origin = origin.branches branch ∧ (origin.branches branch).isSome = true := by
  rw [upstreamName_fetchPrune] at named
  unfold published
  cases at_ : clone.head with
  | detached commit =>
    rw [at_] at named
    cases named
  | branch name =>
    rw [at_] at named
    obtain ⟨follows, has⟩ := Option.filter_eq_some_iff.mp named
    exact ⟨by simp [follows], has⟩

theorem upstreamName_advance (target : Commit) :
    (clone.advance target).upstreamName = clone.upstreamName := by
  unfold advance upstreamName
  cases clone.head <;> rfl

theorem upstreamName_mergeFfOnly :
    ((clone.mergeFfOnly history).getD clone).upstreamName = clone.upstreamName := by
  unfold mergeFfOnly
  split
  · rfl
  · split
    · rfl
    · split
      · exact upstreamName_advance _
      · rfl

theorem Follows.headCommit_isSome (follows : clone.Follows) : clone.headCommit.isSome = true := by
  unfold headCommit
  cases at_ : clone.head with
  | branch name => exact (follows name at_).2
  | detached commit => rfl

theorem Follows.fetchPrune (follows : clone.Follows) :
    (clone.fetchPrune origin followed).Follows := follows

theorem Follows.fetchTags (follows : clone.Follows) : (clone.fetchTags origin).Follows := follows

theorem Follows.checkoutDetach {name : String} {checked : Clone Commit}
    (done : clone.checkoutDetach history name = some checked) : checked.Follows := by
  obtain ⟨commit, -, rfl⟩ := Option.map_eq_some_iff.mp done
  intro branch at_
  cases at_

theorem Follows.advance (follows : clone.Follows) (target : Commit) :
    (clone.advance target).Follows := by
  unfold Clone.advance
  cases at_ : clone.head with
  | branch name =>
    intro other same
    obtain rfl : name = other := Head.branch.inj same
    exact ⟨(follows name at_).1, by simp⟩
  | detached commit =>
    intro other same
    cases same

theorem Follows.mergeFfOnly (follows : clone.Follows) {merged : Clone Commit}
    (done : clone.mergeFfOnly history = some merged) : merged.Follows := by
  unfold Clone.mergeFfOnly at done
  split at done
  · cases done
  · rename_i target _
    split at done
    · exact Option.some.inj done ▸ follows
    · split at done
      · exact Option.some.inj done ▸ follows.advance target
      · cases done

theorem Follows.ofOrigin {name : String} {fresh : Clone Commit}
    (done : ofOrigin origin followed name = some fresh) : fresh.Follows := by
  unfold Clone.ofOrigin at done
  intro branch at_
  split at done
  · obtain rfl := Option.some.inj done
    obtain rfl : name = branch := Head.branch.inj at_
    simp
  · obtain rfl := Option.some.inj done
    cases at_
  · cases done

/-- Where a fast-forward, or its refusal, leaves HEAD. -/
theorem headCommit_mergeFfOnly :
    ((clone.mergeFfOnly history).getD clone).headCommit =
      match clone.upstreamCommit with
      | some target => if clone.forwards history target then some target else clone.headCommit
      | none => clone.headCommit := by
  unfold mergeFfOnly
  cases upstream : clone.upstreamCommit with
  | none => rfl
  | some target =>
    cases current : clone.headCommit with
    | none => simp [forwards, current, headCommit_advance]
    | some commit =>
      by_cases back : history.isAncestor target commit = true
      · by_cases ahead : history.isAncestor commit target = true
        · have same := history.antisymm _ _ back ahead
          simp [forwards, current, same, history.refl]
        · simp [forwards, current, back, ahead]
      · by_cases ahead : history.isAncestor commit target = true
        · simp [forwards, current, back, ahead, headCommit_advance]
        · simp [forwards, current, back, ahead]

end Lemmas

end Clone

end MastProvisioning.Git
