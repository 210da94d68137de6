import Mathlib
import MastProvisioning.Collections.Words
import MastProvisioning.PowerShell.SettingsFile

/-!
# Three readers of the repository manifest

`mast-repos.tsv` is read by the two halves of the clone tool and by the fleet report,
each with a parser of its own. The models keep what differs between them: how a text
is cut into lines, a line into columns and the roles into names, what is trimmed, and
how names are compared.

The file is taken as the characters it is made of. Its encoding, which two of the
readers take from the machine, is not part of the model.
-/

namespace MastProvisioning.Tools.ManifestReaders

open Collections PowerShell.SettingsFile

/-- What a clone script makes of a row it selects. -/
structure Choice where
  dir : Text
  repo : Text
  branch : Text
  rev : Text
  deriving DecidableEq

inductive Transport
  | ssh
  | https
  deriving DecidableEq

/-- The address of a repository; both scripts write the same two. -/
def repoUrl (transport : Transport) (repo : Text) : Text :=
  match transport with
  | .ssh => "git@github.com:The-MAST-project/".toList ++ repo ++ ".git".toList
  | .https => "https://github.com/The-MAST-project/".toList ++ repo ++ ".git".toList

/-- URL, branch and revision of a selected row; a row without a branch ends the run. -/
def Choice.target (transport : Transport) (choice : Choice) : Option (Text × Text × Text) :=
  if choice.branch = [] then none
  else some (repoUrl transport choice.repo, choice.branch, choice.rev)

def all : Text := "all".toList

namespace Ps1

/-- `.Trim()`. -/
def trim (text : Text) : Text :=
  (text.dropWhile isSpace).rdropWhile isSpace

structure Row where
  dir : Text
  repo : Text
  roles : List Text
  branch : Text
  rev : Text

/-- One round of the loop that loads the manifest. -/
def readRow (line : Text) : Option Row :=
  match trim line with
  | [] => none
  | '#' :: _ => none
  | _ =>
    match line.splitOn '\t' with
    | dir :: repo :: roles :: branch :: rest =>
      some
        { dir := trim dir
          repo := trim repo
          roles := (trim roles).splitOn ','
          branch := trim branch
          rev :=
            match rest with
            | rev :: _ => trim rev
            | [] => [] }
    | _ => none

def rows (text : Text) : List Row :=
  (getContent text).filterMap readRow

/-- `$rows | ForEach-Object { $_.Roles }`. -/
def knownRoles (text : Text) : List Text :=
  (rows text).flatMap Row.roles

/-- The roles asked for; `none` when the script throws. -/
def selected (text role : Text) : Option (List Text) :=
  let asked := ((role.splitOn ',').map trim).filter fun one => one ≠ []
  let known := fun one => sameText one all || (knownRoles text).any (sameText one)
  if (rows text).isEmpty || !asked.all known || asked.isEmpty then none else some asked

/-- The row is wanted: by `all`, or by one of its roles. -/
def wants (selected : List Text) (row : Row) : Bool :=
  selected.any (sameText all) || row.roles.any fun name => selected.any (sameText name)

def Row.choice (row : Row) : Choice where
  dir := row.dir
  repo := row.repo
  branch := row.branch
  rev := row.rev

/-- The rows `mast-clone.ps1 -Role` selects. -/
def select (text role : Text) : List Choice :=
  match selected text role with
  | none => []
  | some selected => ((rows text).filter (wants selected)).map Row.choice

end Ps1

namespace Sh

/-- `MANIFEST_TEXT`: no carriage returns; `$(...)` drops the line feeds at the end. -/
def manifestText (text : Text) : Text :=
  (text.filter (· ≠ '\r')).rdropWhile (· = '\n')

def lines (text : Text) : List Text :=
  (manifestText text).splitOn '\n'

structure Row where
  dir : Text
  repo : Text
  roles : Text
  branch : Text
  rev : Text

/-- `IFS=$'\t' read -r dir repo roles manifest_branch manifest_rev`: a run of tabs is
one delimiter, and the last name takes what is left of the line. -/
def readLine (line : Text) : Row :=
  let first := takeWord '\t' (line.dropWhile (· = '\t'))
  let second := takeWord '\t' first.2
  let third := takeWord '\t' second.2
  let fourth := takeWord '\t' third.2
  { dir := first.1
    repo := second.1
    roles := third.1
    branch := fourth.1
    rev := fourth.2.rdropWhile (· = '\t') }

/-- The rows the loop goes on with. -/
def readRow (line : Text) : Option Row :=
  let row := readLine line
  match row.dir with
  | [] => none
  | '#' :: _ => none
  | _ => if row.roles = [] then none else some row

/-- `awk -F'\t' '!/^#/ && NF>=3 {print $3}'`. -/
def rolesColumn (line : Text) : Option Text :=
  match line with
  | '#' :: _ => none
  | _ =>
    match line.splitOn '\t' with
    | _ :: _ :: roles :: _ => some roles
    | _ => none

/-- `KNOWN_ROLES`, as the words `grep` finds between blanks. -/
def knownRoles (text : Text) : List Text :=
  (((lines text).filterMap rolesColumn).flatMap (List.splitOn ',')).flatMap (List.splitOn ' ')

/-- The roles asked for; `none` when the script dies. `grep` takes a name for a
pattern; a name of letters and digits is its own. -/
def selected (text role : Text) : Option (List Text) :=
  let asked := ((role.splitOn ',').map fun one => one.filter fun letter => !isSpace letter).filter
    fun one => one ≠ []
  if asked.all fun one => one == all || (knownRoles text).contains one then some asked else none

/-- `wants_repo`. -/
def wants (selected : List Text) (row : Row) : Bool :=
  selected.any fun one =>
    one == all || decide (',' :: (one ++ [',']) <:+: ',' :: (row.roles ++ [',']))

def Row.choice (row : Row) : Choice where
  dir := row.dir
  repo := row.repo
  branch := row.branch
  rev := row.rev

/-- The rows `mast-clone.sh --role` selects. -/
def select (text role : Text) : List Choice :=
  match selected text role with
  | none => []
  | some selected => (((lines text).filterMap readRow).filter (wants selected)).map Row.choice

end Sh

namespace Report

/-- Where `str.splitlines` ends a line. -/
def endsLine (character : Char) : Bool :=
  [0x0A, 0x0B, 0x0C, 0x0D, 0x1C, 0x1D, 0x1E, 0x85, 0x2028, 0x2029].contains character.toNat

/-- `str.splitlines()`. -/
def splitlines : Text → List Text
  | [] => []
  | '\r' :: '\n' :: rest => [] :: splitlines rest
  | character :: rest =>
    if endsLine character then [] :: splitlines rest
    else
      match splitlines rest with
      | [] => [[character]]
      | line :: lines => (character :: line) :: lines

/-- White space, as `str.strip` takes it. -/
def isSpace (character : Char) : Bool :=
  PowerShell.SettingsFile.isSpace character ||
    (decide (0x1C ≤ character.toNat) && decide (character.toNat ≤ 0x1F))

/-- `str.strip()`. -/
def strip (text : Text) : Text :=
  (text.dropWhile isSpace).rdropWhile isSpace

/-- One round of the loop of `expected_repo_dirs`. -/
def readDir (role line : Text) : Option Text :=
  if strip line = [] ∨ (line.dropWhile isSpace).head? = some '#' then none
  else
    match line.splitOn '\t' with
    | dir :: _ :: roles :: _ :: _ =>
      let names := ((roles.splitOn ',').map strip).filter fun name => name ≠ []
      if role ∈ names ∨ all ∈ names then some (strip dir) else none
    | _ => none

def expectedRepoDirs (text role : Text) : List Text :=
  (splitlines text).filterMap (readDir role)

end Report

/-- The three readers agree on a text for one role. -/
structure Agree (text role : Text) : Prop where
  clones : ∀ dir, (∃ choice ∈ Ps1.select text role, choice.dir = dir) ↔
    ∃ choice ∈ Sh.select text role, choice.dir = dir
  report : ∀ dir, (∃ choice ∈ Ps1.select text role, choice.dir = dir) ↔
    dir ∈ Report.expectedRepoDirs text role
  targets : ∀ transport dir target,
    (∃ choice ∈ Ps1.select text role, choice.dir = dir ∧ choice.target transport = target) ↔
      ∃ choice ∈ Sh.select text role, choice.dir = dir ∧ choice.target transport = target

end MastProvisioning.Tools.ManifestReaders
