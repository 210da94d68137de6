import MastProvisioning.Collections.OrderedDict
import MastProvisioning.Tools.RequirementLines
import Mathlib.Data.List.Lex

/-!
# Verifying the dependencies

`verify-mast.ps1` compares the pins of the requirements files with what `uv pip freeze`, or
else `pip freeze`, prints of the virtual environment. Both are read by regular expressions
and versions are compared as texts; markers are not looked at.

What a version matches and where a marker holds are the packaging standard's, a parameter
here. The check agrees with the standard exactly when every pin that is not met is on a line
the expression reads, and when a line that is read names its version as the freeze prints it.
-/

namespace MastProvisioning.Tools.Requirements

open MastProvisioning.Collections
open MastProvisioning.Collections.Patterns (Piece matchAt matchAt_capture matchAt_word)
open MastProvisioning.PowerShell.SettingsFile (Text isSpace trim sameText)

section Environment

/-- Where a distribution was installed from. -/
inductive Source
  | index
  | url (address : Text)
  | editable (address : Text)
deriving DecidableEq

structure Distribution where
  name : Name
  version : Version
  source : Source
deriving DecidableEq

/-- The line of a distribution in a freeze. -/
def Distribution.frozenLine (distribution : Distribution) : Text :=
  match distribution.source with
  | .index => distribution.name.text ++ ("==".toList ++ distribution.version.text)
  | .url address => distribution.name.text ++ " @ ".toList ++ address
  | .editable address => "-e ".toList ++ address

/-- The virtual environment: whether its interpreter is there, what is installed, and what
the two tools print; without the vendored uv there is no output of it. -/
structure Venv where
  interpreter : Bool
  installed : List Distribution
  distinct : (installed.map fun distribution => distribution.name.normal).Nodup
  uv : Option (List Text)
  pip : List Text

/-- `-not $out`: a single line stands for itself. -/
def isFalsy (output : List Text) : Bool :=
  output == [] || output == [[]]

/-- `$out`. -/
def Venv.output (venv : Venv) : List Text :=
  if isFalsy (venv.uv.getD []) then venv.pip else venv.uv.getD []

/-- The freeze has a line for every distribution, and no other lines. -/
def Venv.Listed (venv : Venv) : Prop :=
  ∀ line, line ∈ venv.output ↔ ∃ distribution ∈ venv.installed, distribution.frozenLine = line

end Environment

section Operations

/-- `[^=<>!~ ]`. -/
def isFrozenCharacter (character : Char) : Bool :=
  !(['=', '<', '>', '!', '~', ' '].contains character)

/-- `^([^=<>!~ ]+)==(.+)$`. -/
def frozenPattern : List (Piece Char) :=
  [.capture isFrozenCharacter, .word "==".toList, .capture fun character => character != '\n']

/-- The name and the version of a frozen line. -/
def readFrozen (line : Text) : Option (Text × Text) :=
  match matchAt id frozenPattern line with
  | some ([name, version], rest) =>
    if rest = [] ∨ rest = ['\n'] then some (getNormalizedDistName name, trim version) else none
  | _ => none

/-- `Get-InstalledPins`. -/
def getInstalledPins (output : List Text) : List (Text × Text) :=
  OrderedDict.setAll id [] (output.filterMap readFrozen)

inductive Issue
  | interpreterMissing
  | unusable
  | notInstalled (dir : String) (name want : Text)
  | otherVersion (dir : String) (name found want : Text)
deriving DecidableEq

def Issue.message (venvPython : String) : Issue → String
  | .interpreterMissing => "venv interpreter missing: " ++ venvPython
  | .unusable => "neither uv nor pip could enumerate the venv -- unusable?"
  | .notInstalled dir name want =>
    dir ++ ": " ++ String.ofList name ++ "==" ++ String.ofList want ++ " not installed"
  | .otherVersion dir name found want =>
    dir ++ ": " ++ String.ofList name ++ " is " ++ String.ofList found ++ ", pinned " ++
      String.ofList want

/-- What a line of a requirements file adds. -/
def lineIssue (frozen : List (Text × Text)) (dir : String) (line : Text) : Option Issue :=
  (readPin line).bind fun (name, want) =>
    match OrderedDict.get? id frozen name with
    | none => some (.notInstalled dir name want)
    | some found =>
      if sameText found want then none else some (.otherVersion dir name found want)

/-- The dependency check, over the folders expected and the files of those that have one. -/
def dependencyIssues (venv : Venv) (files : List (String × Option (List Text))) : List Issue :=
  if venv.interpreter then
    let frozen := getInstalledPins venv.output
    if frozen = [] then [.unusable]
    else files.flatMap fun (dir, file) => (file.getD []).filterMap (lineIssue frozen dir)
  else [.interpreterMissing]

end Operations

section Meaning

/-- What the standard says of versions and markers: which versions a comparison with one
matches, and on which markers a line applies here. A version matches its own text. -/
structure Standard where
  meets : Version → Comparator → Version → Prop
  holds : Text → Prop
  meets_same : ∀ installed pinned : Version, sameText installed.text pinned.text = true →
    meets installed .equal pinned

variable (standard : Standard)

/-- A line applies on the unit. -/
def Requirement.Applies (requirement : Requirement) : Prop :=
  ∀ marker ∈ requirement.marker, standard.holds marker.condition

/-- What is installed meets what a line asks for. -/
def Venv.Satisfies (venv : Venv) (requirement : Requirement) : Prop :=
  ∃ distribution ∈ venv.installed, distribution.name.normal = requirement.name.normal ∧
    (∀ clause ∈ requirement.versions.clauses,
      standard.meets distribution.version clause.comparator clause.version) ∧
    ∀ before address, requirement.versions = .url before address →
      distribution.source = .url address

/-- The distribution is not installed, or at a version that is not the pinned one. -/
def Venv.Misses (venv : Venv) (requirement : Requirement) (pin : Clause) : Prop :=
  ∀ distribution ∈ venv.installed, distribution.name.normal = requirement.name.normal →
    ¬standard.meets distribution.version .equal pin.version

/-- A unit's environment and the requirements files of the expected folders. -/
structure Checkout where
  venv : Venv
  files : List (String × Option (List Line))

namespace Checkout

variable (checkout : Checkout)

def issues : List Issue :=
  dependencyIssues checkout.venv (checkout.files.map fun (dir, file) =>
    (dir, file.map fun lines => lines.map Line.text))

/-- A file of a folder asks for something. -/
def Asks (dir : String) (requirement : Requirement) : Prop :=
  ∃ lines, (dir, some lines) ∈ checkout.files ∧ .requirement requirement ∈ lines

/-- The environment satisfies exactly the lines that apply. -/
def Exact : Prop :=
  ∀ dir requirement, checkout.Asks dir requirement →
    (checkout.venv.Satisfies standard requirement ↔ requirement.Applies standard)

/-- The check says that a line is not met, or that there is nothing to check it by. -/
def Reports (dir : String) (requirement : Requirement) : Prop :=
  ∃ issue ∈ checkout.issues, issue = .interpreterMissing ∨ issue = .unusable ∨
    lineIssue (getInstalledPins checkout.venv.output) dir requirement.text = some issue

/-- The check agrees with the installer. -/
structure Agrees : Prop where
  quiet : checkout.Exact standard → checkout.issues = []
  loud : ∀ dir requirement, checkout.Asks dir requirement → requirement.Applies standard →
    ∀ pin ∈ requirement.pins, checkout.venv.Misses standard requirement pin →
      checkout.Reports dir requirement

/-- A distribution is in the freeze. -/
def Enumerable : Prop :=
  checkout.venv.interpreter = true ∧
    ∃ distribution ∈ checkout.venv.installed, distribution.source = .index

/-- The freeze prints a version of the distribution as a line has it, but for case. -/
def Spells (requirement : Requirement) (want : Text) : Prop :=
  ∃ distribution ∈ checkout.venv.installed, distribution.name.normal = requirement.name.normal ∧
    distribution.source = .index ∧ sameText distribution.version.text want = true

/-- Every pin that is missed stands on a line that is read, and no version that is read is
spelled otherwise in an environment that is as asked for. -/
structure Readable : Prop where
  pinned : checkout.Enumerable → ∀ dir requirement, checkout.Asks dir requirement →
    requirement.Applies standard → ∀ pin ∈ requirement.pins,
      checkout.venv.Misses standard requirement pin →
        ∃ want, requirement.want = some want ∧ ¬checkout.Spells requirement want
  spelled : checkout.Exact standard → checkout.Enumerable ∧
    ∀ dir requirement, checkout.Asks dir requirement →
      ∀ want, requirement.want = some want → checkout.Spells requirement want

end Checkout

end Meaning

section Freeze

theorem isFrozenCharacter_of_isNameCharacter {character : Char}
    (named : isNameCharacter character = true) : isFrozenCharacter character = true := by
  rw [isFrozenCharacter, Bool.not_eq_true', ← Bool.not_eq_true, List.contains_iff_mem]
  intro member
  simp only [List.mem_cons, List.not_mem_nil, or_false] at member
  rcases member with rfl | rfl | rfl | rfl | rfl | rfl
  all_goals
    revert named
    decide

/-- The expression takes the name of a frozen line, up to what ends one. -/
theorem match_frozen (name : Name) {mark : Char} (ends : isFrozenCharacter mark = false)
    (rest : Text) : matchAt id frozenPattern (name.text ++ mark :: rest) =
      (matchAt id frozenPattern.tail (mark :: rest)).map fun found =>
        (name.text :: found.1, found.2) := by
  have named : name.text.all isFrozenCharacter = true := by
    rw [List.all_eq_true]
    intro character member
    exact isFrozenCharacter_of_isNameCharacter (List.all_eq_true.mp name.named character member)
  have stops : (mark :: rest).takeWhile isFrozenCharacter = [] :=
    List.takeWhile_cons_of_neg (by simp [ends])
  exact matchAt_capture named name.nonempty stops

theorem match_version (version : Version) :
    matchAt id frozenPattern.tail ("==".toList ++ version.text) = some ([version.text], []) := by
  have oneLine : version.text.all (fun character => character != '\n') = true := by
    rw [List.all_eq_true]
    intro character member
    have visible := isSpace_of_isVersionCharacter (List.all_eq_true.mp version.visible _ member)
    rw [bne_iff_ne]
    rintro rfl
    exact absurd visible (by decide)
  have captured : matchAt id [.capture fun character => character != '\n'] (version.text ++ []) =
      (matchAt id [] []).map fun found => (version.text :: found.1, found.2) :=
    matchAt_capture oneLine version.nonempty rfl
  rw [List.append_nil] at captured
  rw [frozenPattern, List.tail_cons, matchAt_word, captured]
  rfl

/-- The freeze shows the version of a distribution from the index, and no other. -/
theorem readFrozen_line (distribution : Distribution) :
    readFrozen distribution.frozenLine =
      if distribution.source = .index then
        some (distribution.name.normal, distribution.version.text)
      else none := by
  obtain ⟨name, version, source⟩ := distribution
  cases source with
  | index =>
    have matched : matchAt id frozenPattern (name.text ++ ("==".toList ++ version.text)) =
        some ([name.text, version.text], []) := by
      have parts := @match_frozen name '=' (by decide) ('=' :: version.text)
      have behind := match_version version
      change matchAt id frozenPattern.tail ('=' :: '=' :: version.text) = _ at behind
      rw [behind] at parts
      exact parts
    have trimmed : trim version.text = version.text := by
      apply PowerShell.SettingsFile.trim_of_visible
      intro character member
      exact isSpace_of_isVersionCharacter (List.all_eq_true.mp version.visible character member)
    simp only [Distribution.frozenLine, readFrozen, matched, true_or, if_true,
      getNormalizedDistName_name, trimmed]
  | url address =>
    have matched : matchAt id frozenPattern (name.text ++ ' ' :: ("@ ".toList ++ address)) = none :=
      match_frozen name (by decide) _
    have shape : Distribution.frozenLine ⟨name, version, .url address⟩ =
        name.text ++ ' ' :: ("@ ".toList ++ address) := by
      simp [Distribution.frozenLine]
    rw [shape, readFrozen, matched]
    rfl
  | editable address => rfl

variable {venv : Venv}

/-- Distributions of one name are one. -/
theorem Venv.eq_of_normal (venv : Venv) {first second : Distribution}
    (member : first ∈ venv.installed) (other : second ∈ venv.installed)
    (same : first.name.normal = second.name.normal) : first = second :=
  List.inj_on_of_nodup_map venv.distinct member other same

theorem mem_entries (listed : venv.Listed) {entry : Text × Text} :
    entry ∈ venv.output.filterMap readFrozen ↔ ∃ distribution ∈ venv.installed,
      distribution.source = .index ∧ (distribution.name.normal, distribution.version.text) = entry := by
  rw [List.mem_filterMap]
  constructor
  · rintro ⟨line, printed, read⟩
    obtain ⟨distribution, member, rfl⟩ := (listed line).mp printed
    rw [readFrozen_line] at read
    split at read
    · rename_i index
      exact ⟨distribution, member, index, Option.some.inj read⟩
    · cases read
  · rintro ⟨distribution, member, index, rfl⟩
    refine ⟨distribution.frozenLine, (listed _).mpr ⟨distribution, member, rfl⟩, ?_⟩
    rw [readFrozen_line, if_pos index]

/-- The map holds the versions of the distributions from the index. -/
theorem get?_installedPins (listed : venv.Listed) {name version : Text} :
    OrderedDict.get? id (getInstalledPins venv.output) name = some version ↔
      ∃ distribution ∈ venv.installed, distribution.source = .index ∧
        distribution.name.normal = name ∧ distribution.version.text = version := by
  unfold OrderedDict.get? getInstalledPins
  rw [OrderedDict.find?_setAll_reverse, Option.map_eq_some_iff]
  constructor
  · rintro ⟨entry, found, rfl⟩
    have seen : OrderedDict.find? id (venv.output.filterMap readFrozen).reverse name = some entry := by
      simpa [OrderedDict.find?] using found
    obtain ⟨member, same⟩ := OrderedDict.mem_of_find? seen
    obtain ⟨distribution, installed, index, rfl⟩ := (mem_entries listed).mp (List.mem_reverse.mp member)
    exact ⟨distribution, installed, index, same, rfl⟩
  · rintro ⟨distribution, installed, index, rfl, rfl⟩
    have member := List.mem_reverse.mpr
      ((mem_entries listed).mpr ⟨distribution, installed, index, rfl⟩)
    cases found : OrderedDict.find? id (venv.output.filterMap readFrozen).reverse
        distribution.name.normal with
    | none => exact absurd rfl (OrderedDict.find?_eq_none.mp found _ member)
    | some entry =>
      obtain ⟨within, same⟩ := OrderedDict.mem_of_find? found
      obtain ⟨other, otherInstalled, -, rfl⟩ :=
        (mem_entries listed).mp (List.mem_reverse.mp within)
      obtain rfl := venv.eq_of_normal otherInstalled installed same
      exact ⟨_, rfl, rfl⟩

theorem installedPins_eq_nil (listed : venv.Listed) : getInstalledPins venv.output = [] ↔
    ∀ distribution ∈ venv.installed, distribution.source ≠ .index := by
  constructor
  · intro empty distribution member index
    have found := (get?_installedPins listed).mpr ⟨distribution, member, index, rfl, rfl⟩
    rw [empty] at found
    cases found
  · intro none
    rw [List.eq_nil_iff_forall_not_mem]
    intro entry member
    rcases OrderedDict.mem_setAll member with printed | nothing
    · obtain ⟨distribution, installed, index, -⟩ := (mem_entries listed).mp printed
      exact none distribution installed index
    · cases nothing

end Freeze

section Agreement

variable {standard : Standard} {checkout : Checkout} {dir : String} {requirement : Requirement}

namespace Checkout

/-- A line adds nothing exactly when it is skipped or its version is the one printed. -/
theorem lineIssue_eq_none_iff (listed : checkout.venv.Listed) :
    lineIssue (getInstalledPins checkout.venv.output) dir requirement.text = none ↔
      ∀ want, requirement.want = some want → checkout.Spells requirement want := by
  unfold lineIssue
  rw [readPin_requirement]
  cases wanted : requirement.want with
  | none => simp
  | some want =>
    simp only [Option.map_some, Option.bind_some, Option.some.injEq, forall_eq']
    cases found : OrderedDict.get? id (getInstalledPins checkout.venv.output)
        requirement.name.normal with
    | none =>
      simp only [reduceCtorEq, false_iff]
      rintro ⟨distribution, installed, same, index, -⟩
      have printed := (get?_installedPins listed).mpr ⟨distribution, installed, index, same, rfl⟩
      rw [found] at printed
      cases printed
    | some version =>
      obtain ⟨distribution, installed, index, same, rfl⟩ := (get?_installedPins listed).mp found
      by_cases spelled : sameText distribution.version.text want = true
      · simp only [if_pos spelled, true_iff]
        exact ⟨distribution, installed, same, index, spelled⟩
      · simp only [if_neg spelled, reduceCtorEq, false_iff]
        rintro ⟨other, otherInstalled, otherSame, -, otherSpelled⟩
        obtain rfl := checkout.venv.eq_of_normal otherInstalled installed (otherSame.trans same.symm)
        exact spelled otherSpelled

/-- What the check finds in an environment it can read. -/
theorem mem_issues (listed : checkout.venv.Listed) (enumerable : checkout.Enumerable)
    {issue : Issue} : issue ∈ checkout.issues ↔ ∃ dir requirement, checkout.Asks dir requirement ∧
      lineIssue (getInstalledPins checkout.venv.output) dir requirement.text = some issue := by
  obtain ⟨interpreter, distribution, installed, index⟩ := enumerable
  have filled : getInstalledPins checkout.venv.output ≠ [] := fun empty =>
    (installedPins_eq_nil listed).mp empty distribution installed index
  simp only [issues, dependencyIssues, interpreter, if_true, if_neg filled, List.mem_flatMap,
    List.mem_map, List.mem_filterMap]
  constructor
  · rintro ⟨-, ⟨⟨dir, file⟩, listedFile, rfl⟩, line, within, found⟩
    cases file with
    | none => cases within
    | some lines =>
      obtain ⟨asked, member, rfl⟩ := List.mem_map.mp within
      cases asked with
      | requirement requirement => exact ⟨dir, requirement, ⟨lines, listedFile, member⟩, found⟩
      | blank blanks =>
        rw [lineIssue, readPin_other (by simp)] at found
        cases found
      | comment before words =>
        rw [lineIssue, readPin_other (by simp)] at found
        cases found
  · rintro ⟨dir, requirement, ⟨lines, listedFile, member⟩, found⟩
    exact ⟨_, ⟨(dir, some lines), listedFile, rfl⟩, requirement.text,
      List.mem_map.mpr ⟨.requirement requirement, member, rfl⟩, found⟩

/-- What the check says when there is nothing to check by. -/
theorem issues_of_not_enumerable (listed : checkout.venv.Listed)
    (not : ¬checkout.Enumerable) :
    checkout.issues = [.interpreterMissing] ∨ checkout.issues = [.unusable] := by
  unfold issues dependencyIssues
  cases interpreter : checkout.venv.interpreter with
  | false => exact .inl rfl
  | true =>
    have empty : getInstalledPins checkout.venv.output = [] := by
      rw [installedPins_eq_nil listed]
      intro distribution installed index
      exact not ⟨interpreter, distribution, installed, index⟩
    exact .inr (if_pos empty)

theorem issues_eq_nil_iff (listed : checkout.venv.Listed) :
    checkout.issues = [] ↔ checkout.Enumerable ∧
      ∀ dir requirement, checkout.Asks dir requirement →
        ∀ want, requirement.want = some want → checkout.Spells requirement want := by
  by_cases enumerable : checkout.Enumerable
  · simp only [enumerable, true_and, List.eq_nil_iff_forall_not_mem, mem_issues listed enumerable,
      not_exists, not_and]
    constructor
    · intro none dir requirement asked
      apply (lineIssue_eq_none_iff listed).mp
      rw [Option.eq_none_iff_forall_ne_some]
      exact fun issue => none issue dir requirement asked
    · intro spelled issue dir requirement asked found
      rw [(lineIssue_eq_none_iff listed).mpr (spelled dir requirement asked)] at found
      cases found
  · rcases issues_of_not_enumerable listed enumerable with only | only <;> simp [only, enumerable]

/-- What a line adds is about the line. -/
theorem lineIssue_ne {frozen : List (Text × Text)} {line : Text} {issue : Issue}
    (found : lineIssue frozen dir line = some issue) :
    issue ≠ .interpreterMissing ∧ issue ≠ .unusable := by
  obtain ⟨⟨name, want⟩, -, found⟩ := Option.bind_eq_some_iff.mp found
  simp only at found
  split at found
  · obtain rfl := Option.some.inj found
    simp
  · split at found
    · cases found
    · obtain rfl := Option.some.inj found
      simp

theorem reports_iff (listed : checkout.venv.Listed) (asked : checkout.Asks dir requirement) :
    checkout.Reports dir requirement ↔ (checkout.Enumerable →
      ∃ want, requirement.want = some want ∧ ¬checkout.Spells requirement want) := by
  have read : (∃ want, requirement.want = some want ∧ ¬checkout.Spells requirement want) ↔
      lineIssue (getInstalledPins checkout.venv.output) dir requirement.text ≠ none := by
    rw [Ne, lineIssue_eq_none_iff listed]
    simp only [not_forall, exists_prop]
  rw [read]
  by_cases enumerable : checkout.Enumerable
  · constructor
    · rintro ⟨issue, member, kind⟩ -
      obtain ⟨other, line, -, added⟩ := (mem_issues listed enumerable).mp member
      obtain ⟨present, usable⟩ := lineIssue_ne added
      have found := (kind.resolve_left present).resolve_left usable
      rw [found]
      exact Option.some_ne_none issue
    · intro some
      obtain ⟨issue, found⟩ := Option.ne_none_iff_exists'.mp (some enumerable)
      exact ⟨issue, (mem_issues listed enumerable).mpr ⟨dir, requirement, asked, found⟩, .inr (.inr found)⟩
  · constructor
    · intro _ enumerable'
      exact absurd enumerable' enumerable
    · intro _
      rcases issues_of_not_enumerable listed enumerable with only | only
      · exact ⟨.interpreterMissing, by simp [only], .inl rfl⟩
      · exact ⟨.unusable, by simp [only], .inr (.inl rfl)⟩

/-- The freeze does not print the text of a pin that is missed. -/
theorem not_spells_of_misses {pin : Clause}
    (misses : checkout.venv.Misses standard requirement pin) :
    ¬checkout.Spells requirement pin.version.text := by
  rintro ⟨distribution, installed, same, -, spelled⟩
  exact misses distribution installed same (standard.meets_same _ _ spelled)

/-- Files of single pins behind their names, all of which apply, can be read in an
environment that has no pinned version in another spelling or from elsewhere. -/
theorem readable_of_plain (enumerable : checkout.Enumerable)
    (plain : ∀ dir requirement, checkout.Asks dir requirement → requirement.Applies standard ∧
      ∃ pin, requirement.versions.clauses = [pin] ∧ pin.comparator = .equal ∧
        requirement.want = some pin.version.text ∧
        ∀ distribution ∈ checkout.venv.installed,
          distribution.name.normal = requirement.name.normal →
          standard.meets distribution.version .equal pin.version →
            distribution.source = .index ∧
              sameText distribution.version.text pin.version.text = true) :
    checkout.Readable standard := by
  constructor
  · intro _ dir requirement asked _ pin pins misses
    obtain ⟨-, only, clauses, -, want, -⟩ := plain dir requirement asked
    obtain rfl : pin = only := by
      have member := (List.mem_filter.mp pins).1
      rw [clauses] at member
      exact List.mem_singleton.mp member
    exact ⟨pin.version.text, want, not_spells_of_misses misses⟩
  · intro exact
    refine ⟨enumerable, ?_⟩
    intro dir requirement asked want read
    obtain ⟨applies, pin, clauses, equal, wanted, spelled⟩ := plain dir requirement asked
    obtain ⟨distribution, installed, same, meets, -⟩ := (exact dir requirement asked).mpr applies
    have met := meets pin (clauses ▸ List.mem_singleton_self pin)
    rw [equal] at met
    obtain ⟨index, text⟩ := spelled distribution installed same met
    obtain rfl := Option.some.inj (read.symm.trans wanted)
    exact ⟨distribution, installed, same, index, text⟩

/-- The check agrees with the installer exactly on files and environments it can read. -/
theorem agrees_iff_readable (listed : checkout.venv.Listed) :
    checkout.Agrees standard ↔ checkout.Readable standard := by
  constructor
  · intro agrees
    constructor
    · intro enumerable dir requirement asked applies pin pins misses
      exact (reports_iff listed asked).mp
        (agrees.loud dir requirement asked applies pin pins misses) enumerable
    · intro exact
      exact (issues_eq_nil_iff listed).mp (agrees.quiet exact)
  · intro readable
    constructor
    · intro exact
      exact (issues_eq_nil_iff listed).mpr (readable.spelled exact)
    · intro dir requirement asked applies pin pins misses
      rw [reports_iff listed asked]
      intro enumerable
      exact readable.pinned enumerable dir requirement asked applies pin pins misses

end Checkout

end Agreement

section Samples

/-- The numbers between the dots of a version. -/
def segments (version : Version) : List Nat :=
  (version.text.splitOn '.').map fun digits =>
    digits.foldl (fun value digit => 10 * value + (digit.toNat - '0'.toNat)) 0

/-- The numbers without the zeros at their end. -/
def release (version : Version) : List Nat :=
  (segments version).rdropWhile (· = 0)

def sameVersion (installed pinned : Version) : Prop :=
  sameText installed.text pinned.text = true ∨ release installed = release pinned

/-- The standard for such versions, on Windows. -/
def numbers : Standard where
  meets installed
    | .equal, pinned => sameVersion installed pinned
    | .different, pinned => ¬sameVersion installed pinned
    | .arbitrary, pinned => sameText installed.text pinned.text = true
    | .atLeast, pinned => release pinned ≤ release installed
    | .atMost, pinned => release installed ≤ release pinned
    | .above, pinned => release pinned < release installed
    | .below, pinned => release installed < release pinned
    | .compatible, pinned =>
      release pinned ≤ release installed ∧ (segments pinned).dropLast <+:
        segments installed ++ List.replicate (segments pinned).length 0
  holds condition := trim condition = "sys_platform == 'win32'".toList
  meets_same _ _ same := .inl same

/-- A pin with nothing around its signs. -/
def pinned (name : Name) (extras : Option Extras) (version : Version) (marker : Option Marker) :
    Requirement :=
  ⟨[], name, extras, .bare ⟨[], .equal, [], version, []⟩ [], marker, none, []⟩

def numpy : Name := ⟨"numpy".toList, by decide, by decide, by decide⟩

def pywin32 : Name := ⟨"pywin32".toList, by decide, by decide, by decide⟩

def windowsOnly : Marker := ⟨[.space], " sys_platform == 'win32'".toList⟩

/-- An environment as the freeze of the vendored uv shows it. -/
def frozenVenv (installed : List Distribution)
    (distinct : (installed.map fun distribution => distribution.name.normal).Nodup) : Venv :=
  ⟨true, installed, distinct, some (installed.map Distribution.frozenLine), []⟩

theorem listed_frozenVenv (installed : List Distribution)
    (distinct : (installed.map fun distribution => distribution.name.normal).Nodup)
    (printed : isFalsy (installed.map Distribution.frozenLine) = false) :
    (frozenVenv installed distinct).Listed := by
  intro line
  have output : (frozenVenv installed distinct).output = installed.map Distribution.frozenLine := by
    have answers : isFalsy ((frozenVenv installed distinct).uv.getD []) = false := printed
    rw [Venv.output, answers]
    rfl
  rw [output, List.mem_map]
  rfl

/-- One of the two folders has a requirements file. -/
def unitFile (venv : Venv) (lines : List Line) : Checkout :=
  ⟨venv, [("MAST_common", none), ("MAST_unit", some lines)]⟩

theorem asks_unitFile {venv : Venv} {lines : List Line} {dir : String} {requirement : Requirement} :
    (unitFile venv lines).Asks dir requirement ↔
      dir = "MAST_unit" ∧ .requirement requirement ∈ lines := by
  simp [Checkout.Asks, unitFile]

theorem applies_of_unmarked {standard : Standard} {requirement : Requirement}
    (unmarked : requirement.marker = none) : requirement.Applies standard := by
  intro marker member
  rw [unmarked] at member
  cases member

def numpyPin : Requirement := pinned numpy none ⟨"1.26.4".toList, by decide, by decide⟩ none

def pywin32Pin : Requirement :=
  pinned pywin32 none ⟨"306".toList, by decide, by decide⟩ (some windowsOnly)

theorem applies_pywin32Pin : pywin32Pin.Applies numbers := by
  rintro marker isMarker
  obtain rfl := Option.some.inj isMarker
  have condition : trim windowsOnly.condition = "sys_platform == 'win32'".toList := by decide +kernel
  exact condition

def twoPins : Checkout :=
  unitFile
    (frozenVenv [⟨numpy, ⟨"1.26.4".toList, by decide, by decide⟩, .index⟩,
      ⟨pywin32, ⟨"306".toList, by decide, by decide⟩, .index⟩] (by decide))
    [.comment [] " pinned exactly".toList, .blank [], .requirement numpyPin,
      .requirement pywin32Pin]

theorem readable_twoPins : twoPins.Readable numbers := by
  have apart : numpy.normal ≠ pywin32.normal := by decide
  apply Checkout.readable_of_plain
  · exact ⟨rfl, _, List.mem_cons_self, rfl⟩
  · intro dir requirement asks
    obtain ⟨rfl, member⟩ := asks_unitFile.mp asks
    have asked : requirement = numpyPin ∨ requirement = pywin32Pin := by simpa using member
    rcases asked with rfl | rfl
    · refine ⟨applies_of_unmarked rfl, _, rfl, rfl, by decide +kernel, ?_⟩
      intro distribution installed same _
      simp only [twoPins, unitFile, frozenVenv, List.mem_cons, List.not_mem_nil, or_false]
        at installed
      rcases installed with rfl | rfl
      · exact ⟨rfl, by decide⟩
      · exact absurd same.symm apart
    · refine ⟨applies_pywin32Pin, _, rfl, rfl, by decide +kernel, ?_⟩
      intro distribution installed same _
      simp only [twoPins, unitFile, frozenVenv, List.mem_cons, List.not_mem_nil, or_false]
        at installed
      rcases installed with rfl | rfl
      · exact absurd same apart
      · exact ⟨rfl, by decide⟩

theorem twoPins_agrees : twoPins.Agrees numbers :=
  (Checkout.agrees_iff_readable (listed_frozenVenv _ _ (by decide +kernel))).mpr readable_twoPins

def numpyOnly (version : Version) : Venv := frozenVenv [⟨numpy, version, .index⟩] (by simp)

def shorterPin : Requirement := pinned numpy none ⟨"1.26".toList, by decide, by decide⟩ none

/-- A pin with an extra. -/
def pinWithExtra : Requirement :=
  pinned pywin32 (some ⟨[], [], [([], numpy, [])]⟩) ⟨"306".toList, by decide, by decide⟩ none

/-- A pin without the zero at the end of the installed version. -/
def shorterCheckout : Checkout :=
  unitFile (numpyOnly ⟨"1.26.0".toList, by decide, by decide⟩) [.requirement shorterPin]

/-- A distribution with an extra that is not installed. -/
def extraCheckout : Checkout :=
  unitFile (numpyOnly ⟨"1.26.4".toList, by decide, by decide⟩) [.requirement pinWithExtra]

theorem exact_shorterCheckout : shorterCheckout.Exact numbers := by
  intro dir requirement asks
  obtain ⟨rfl, member⟩ := asks_unitFile.mp asks
  obtain rfl : requirement = shorterPin := by simpa using member
  constructor
  · intro _
    exact applies_of_unmarked rfl
  · intro _
    refine ⟨_, List.mem_singleton_self _, rfl, ?_, ?_⟩
    · intro clause member
      obtain rfl := List.mem_singleton.mp member
      have same : release ⟨"1.26.0".toList, by decide, by decide⟩ =
          release ⟨"1.26".toList, by decide, by decide⟩ := by decide
      exact .inr same
    · intro before address url
      cases url

theorem misses_pinWithExtra : ∀ pin ∈ pinWithExtra.pins,
    extraCheckout.venv.Misses numbers pinWithExtra pin := by
  intro pin _ distribution installed same
  obtain rfl := List.mem_singleton.mp installed
  exact absurd same (by decide)

theorem dependency_check_disagrees :
    (shorterCheckout.venv.Listed ∧ ¬shorterCheckout.Agrees numbers) ∧
      extraCheckout.venv.Listed ∧ ¬extraCheckout.Agrees numbers := by
  refine ⟨⟨listed_frozenVenv _ _ (by decide +kernel), ?_⟩,
    listed_frozenVenv _ _ (by decide +kernel), ?_⟩
  · intro agrees
    have quiet := agrees.quiet exact_shorterCheckout
    have reported : shorterCheckout.issues ≠ [] := by decide +kernel
    exact reported quiet
  · intro agrees
    obtain ⟨issue, member, -⟩ := agrees.loud "MAST_unit" pinWithExtra
      (asks_unitFile.mpr ⟨rfl, List.mem_singleton_self _⟩) (applies_of_unmarked rfl) _
      List.mem_cons_self (misses_pinWithExtra _ List.mem_cons_self)
    have nothing : extraCheckout.issues = [] := by decide +kernel
    rw [nothing] at member
    cases member

end Samples

end MastProvisioning.Tools.Requirements
