import Mathlib
import MastProvisioning.Git.Repository
import MastProvisioning.PowerShell.Text
import MastProvisioning.Semantics.System

/-!
# Cloning and updating the repositories

`mast-clone.ps1` and `mast-clone.sh` walk the rows of the manifest that the wanted
roles select. For each they clone the repository, or fetch the clone that is there and
with `-Update` move it: to the row's revision, checked out detached, or by a
fast-forward of whatever branch the clone is on. What landed is recorded in
`clone-manifest.json`.

The two scripts differ in how they compare names and in what they take for a clone;
everything else is one definition for both.
-/

namespace MastProvisioning.Tools

open Git PowerShell Semantics

universe u

inductive Script where
  | ps1
  | sh
  deriving DecidableEq, Repr

inductive Transport where
  | https
  | ssh
  deriving DecidableEq, Repr

/-- PowerShell compares without case, the shell compares the texts. -/
def Script.fold : Script → Char → Char
  | .ps1 => Char.toLower
  | .sh => id

/-- What a folder name is compared by. -/
def Script.key (script : Script) (dir : String) : String := foldText script.fold dir

/-- `-notlike "*$($row.Repo)*"`, `case "$actual" in *"${repo}"*)`. -/
def Script.expects (script : Script) (repo actual : String) : Bool :=
  decide (repo.toList.map script.fold <:+: actual.toList.map script.fold)

def org : String := "The-MAST-project"

/-- `$url`, `repo_url`. -/
def repoUrl : Transport → String → String
  | .ssh, repo => "git@github.com:" ++ org ++ "/" ++ repo ++ ".git"
  | .https, repo => "https://github.com/" ++ org ++ "/" ++ repo ++ ".git"

/-- A row of the manifest: the folder, the repository, its branch, and the revision it is
pinned to, which is empty when the row follows the branch. -/
structure Row where
  dir : String
  repo : String
  branch : String
  rev : String
  deriving DecidableEq, Repr

/-- The options of a run that its git commands depend on. -/
structure Config where
  script : Script
  transport : Transport
  update : Bool
  /-- `-Branch`, `BRANCH_OVERRIDE`. -/
  branchOverride : String → Option String := fun _ => none

/-- The branch and revision a row asks for: an override displaces both. -/
def Config.request (config : Config) (row : Row) : Row :=
  match config.script, config.branchOverride (config.script.key row.dir) with
  | _, none => row
  | .sh, some "" => row
  | _, some branch => { row with branch, rev := "" }

/-- Which of the git commands of a row get through, and the tags a fetch follows. -/
structure Answers where
  getUrl : Bool
  fetch : Bool
  status : Bool
  tagFetch : Bool
  checkout : Bool
  merge : Bool
  clone : Bool
  followed : String → Bool

/-- What `rev-parse` prints when it fails. -/
structure Reply where
  answered : Bool
  printed : String

/-- What is at a row's folder: nothing, something that is no clone, or a clone with the
URL of its origin. The `.git` of a linked clone is a file that leads elsewhere. -/
inductive Place (Commit : Type u) where
  | absent
  | other
  | clone (linked : Bool) (remote : String) (clone : Clone Commit)

variable {Commit : Type u}

/-- `Test-Path .git`, `[ -d .git ]`. -/
def Script.isClone (script : Script) (linked : Bool) : Bool :=
  match script with
  | .ps1 => true
  | .sh => !linked

/-- What a row leaves: its folder, whether the folder was added to the failed fetches,
whether the row's clone or fetch reached the origin, and whether the script ended there. -/
structure Visited (Commit : Type u) where
  place : Place Commit
  fetchFailed : Bool
  reached : Bool
  stopped : Bool

/-- What `remote get-url origin` yields. -/
def Answers.originUrl (answers : Answers) (remote : String) : String :=
  if answers.getUrl then remote else ""

/-- The repository a command that gets through finds at a URL. -/
def reach (origins : String → Option (Origin Commit)) (through : Bool) (url : String) :
    Option (Origin Commit) :=
  if through then origins url else none

/-- A clone that a row has moved, whether its folder was added to the failed fetches, and
whether the script ended there. -/
structure Moved (Commit : Type u) where
  clone : Clone Commit
  fetchFailed : Bool
  stopped : Bool

/-- What the tag fetch of a row leaves. -/
def Answers.tagged (answers : Answers) (origin : Origin Commit) (clone : Clone Commit) :
    Clone Commit :=
  if answers.tagFetch then clone.fetchTags origin else clone

/-- Check out the pinned revision; a revision that cannot be checked out ends the script. -/
def pin (history : History Commit) (origin : Origin Commit) (rev : String) (answers : Answers)
    (clone : Clone Commit) : Moved Commit :=
  match if answers.checkout then (answers.tagged origin clone).checkoutDetach history rev
    else none with
  | some checked => ⟨checked, !answers.tagFetch, false⟩
  | none => ⟨answers.tagged origin clone, !answers.tagFetch, true⟩

/-- `merge --ff-only`, whose refusal leaves the clone alone. -/
def fastForward (history : History Commit) (answers : Answers) (fetched : Clone Commit) :
    Clone Commit :=
  if answers.merge then (fetched.mergeFfOnly history).getD fetched else fetched

/-- `-Update`, on a clone that has been fetched. -/
def move (history : History Commit) (origin : Origin Commit) (row : Row) (answers : Answers)
    (fetched : Clone Commit) : Moved Commit :=
  -- `status --porcelain` that fails prints nothing, which reads as clean
  if answers.status && !fetched.clean then ⟨fetched, false, false⟩
  else if row.rev ≠ "" then pin history origin row.rev answers fetched
  else ⟨fastForward history answers fetched, false, false⟩

/-- The row of a folder that is absent. -/
def cloneRow (history : History Commit) (origins : String → Option (Origin Commit))
    (url : String) (row : Row) (answers : Answers) : Visited Commit :=
  match reach origins answers.clone url with
  | none => ⟨.absent, false, false, true⟩
  | some origin =>
    match Clone.ofOrigin origin answers.followed row.branch with
    | none => ⟨.absent, false, false, true⟩
    | some fresh =>
      let moved := if row.rev = "" then ⟨fresh, false, false⟩
        else pin history origin row.rev answers fresh
      ⟨.clone false url moved.clone, moved.fetchFailed, true, moved.stopped⟩

/-- The row of a clone that is there. -/
def updateRow (config : Config) (history : History Commit)
    (origins : String → Option (Origin Commit)) (row : Row) (answers : Answers)
    (linked : Bool) (remote : String) (clone : Clone Commit) : Visited Commit :=
  if config.script.expects row.repo (answers.originUrl remote) then
    match reach origins answers.fetch remote with
    | none => ⟨.clone linked remote clone, true, false, false⟩
    | some origin =>
      let fetched := clone.fetchPrune origin answers.followed
      let moved := if config.update then move history origin row answers fetched
        else ⟨fetched, false, false⟩
      ⟨.clone linked remote moved.clone, moved.fetchFailed, true, moved.stopped⟩
  else ⟨.clone linked remote clone, true, false, false⟩

/-- One row of the loop, on what its folder holds. -/
def visit (config : Config) (history : History Commit)
    (origins : String → Option (Origin Commit)) (row : Row) (answers : Answers) :
    Place Commit → Visited Commit
  | .absent => cloneRow history origins (repoUrl config.transport row.repo) row answers
  | .other => ⟨.other, false, false, false⟩
  | .clone linked remote clone =>
    if config.script.isClone linked then
      updateRow config history origins row answers linked remote clone
    else ⟨.clone linked remote clone, false, false, false⟩

/-- A selected row with what git answers while it is handled, and when its folder is asked
for its revision at the end. -/
structure Selected where
  row : Row
  answers : Answers
  head : Reply
  branch : Reply

/-- The folders, and what the script has gathered. -/
structure Progress (Commit : Type u) where
  places : String → Place Commit
  provenance : List Selected
  fetchFailures : List String
  reached : List String
  stopped : Bool

/-- The start of the loop. -/
def Progress.start (places : String → Place Commit) : Progress Commit where
  places
  provenance := []
  fetchFailures := []
  reached := []
  stopped := false

/-- The loop over the selected rows. A row without a branch ends the script, as does what
`visit` says. -/
def loop (config : Config) (history : History Commit)
    (origins : String → Option (Origin Commit)) : System (Progress Commit) Selected where
  Initial progress := ∃ places, progress = .start places
  Enabled _ _ := True
  next progress selected :=
    if progress.stopped then progress
    else
      let request := config.request selected.row
      let key := config.script.key request.dir
      if request.branch = "" then { progress with stopped := true }
      else
        let visited := visit config history origins request selected.answers (progress.places key)
        { places := Function.update progress.places key visited.place
          provenance := progress.provenance ++ [{ selected with row := request }]
          fetchFailures := progress.fetchFailures ++ if visited.fetchFailed then [key] else []
          reached := progress.reached ++ if visited.reached then [key] else []
          stopped := visited.stopped }

end MastProvisioning.Tools
