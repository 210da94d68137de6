import MastProvisioning.Collections.Words
import MastProvisioning.PowerShell.SettingsFile
import Mathlib.Data.List.Infix

/-!
# Additions to the machine's PATH

Providers add their directories to the PATH of the machine one call after the other. A call
looks for the directory anywhere in the text of the PATH, ignoring case, and appends it when
it is not there; it reads the text with its variables expanded and stores what it read.

Entries are what stands between semicolons. Two entries are of one directory when they
differ in case or in backslashes at the end.
-/

namespace MastProvisioning.Unit.SystemPath

open MastProvisioning.Collections
open MastProvisioning.PowerShell.SettingsFile (Text toLower_cases)

section Operations

/-- What calls depend on: how the machine folds case, which makes no separator of another
character, and what it reads for a stored text. -/
structure Machine where
  fold : Char → Char
  separator : ∀ character, fold character = fold ';' → character = ';'
  expand : Text → Text

/-- The argument of a call; an empty one is refused. -/
structure Directory where
  path : Text
  nonempty : path ≠ []

variable (machine : Machine)

/-- `-match [Regex]::Escape(Dir)`. -/
def Contains (text : Text) (dir : Directory) : Prop :=
  dir.path.map machine.fold <:+: text.map machine.fold

instance (text : Text) (dir : Directory) : Decidable (Contains machine text dir) :=
  inferInstanceAs (Decidable (_ <:+: _))

/-- `.TrimEnd(';')`. -/
def trimEnd (text : Text) : Text :=
  text.rdropWhile (· = ';')

/-- `.Trim(';')`. -/
def trim (text : Text) : Text :=
  trimEnd (text.dropWhile (· = ';'))

/-- `Add-ToSystemPath`: the text stored afterwards. A PATH that is missing is empty. -/
def addToSystemPath (stored : Text) (dir : Directory) : Text :=
  if Contains machine (machine.expand stored) dir then stored
  else trim (trimEnd (machine.expand stored) ++ ';' :: dir.path)

/-- The calls of the providers. -/
def addAll (stored : Text) (calls : List Directory) : Text :=
  calls.foldl (addToSystemPath machine) stored

end Operations

section Meaning

/-- The entries of a PATH. -/
def entries (text : Text) : List Text :=
  words ';' text

variable (machine : Machine)

/-- The directory an entry is of. -/
def directoryOf (entry : Text) : Text :=
  (entry.rdropWhile (· = '\\')).map machine.fold

/-- A directory has an entry of its own in a text. -/
def Holds (text : Text) (dir : Directory) : Prop :=
  ∃ entry ∈ entries text, directoryOf machine entry = directoryOf machine dir.path

/-- How many entries are spelled one way, up to case. -/
def occurrences (text name : Text) : Nat :=
  ((entries text).map fun entry => entry.map machine.fold).count name

/-- The additions of the calls accumulate. -/
structure Accumulates (stored : Text) (calls : List Directory) : Prop where
  held : ∀ dir ∈ calls, Holds machine (machine.expand (addAll machine stored calls)) dir
  kept : entries stored <+: entries (addAll machine stored calls)
  once : ∀ name, occurrences machine (addAll machine stored calls) name ≤
    max 1 (occurrences machine stored name)
  stable : addAll machine (addAll machine stored calls) calls = addAll machine stored calls

/-- A text without variables. -/
def Plain (text : Text) : Prop :=
  machine.expand text = text

/-- A call that does what it is for: a directory that stands in the text is an entry of it,
and one that is appended is appended to a text without variables and brings none. -/
structure Meets (stored : Text) (dir : Directory) : Prop where
  single : ';' ∉ dir.path
  entry : Contains machine (machine.expand stored) dir → Holds machine (machine.expand stored) dir
  plain : ¬Contains machine (machine.expand stored) dir →
    Plain machine stored ∧ Plain machine (addToSystemPath machine stored dir)

/-- Every call of a run does. -/
def AllMeet : Text → List Directory → Prop
  | _, [] => True
  | stored, dir :: calls =>
    Meets machine stored dir ∧ AllMeet (addToSystemPath machine stored dir) calls

end Meaning

section Entries

theorem words_append {front rest : Text} (plain : ';' ∉ rest) (nonempty : rest ≠ []) :
    words ';' (front ++ ';' :: rest) = words ';' front ++ [rest] := by
  rw [words, words, List.splitOn_append_cons_self, List.filter_append,
    List.splitOn_eq_singleton plain, List.filter_cons_of_pos (by simpa using nonempty),
    List.filter_nil]

/-- An appended directory is an entry after those that were there. -/
theorem entries_appended {text : Text} {dir : Directory} (single : ';' ∉ dir.path) :
    entries (trim (trimEnd text ++ ';' :: dir.path)) = entries text ++ [dir.path] := by
  rw [entries, trim, trimEnd, words_rdropWhile, words_dropWhile,
    words_append single dir.nonempty, trimEnd, words_rdropWhile]
  rfl

end Entries

section Calls

variable {machine : Machine} {stored text : Text} {dir other : Directory}

theorem fold_separator_not_mem (machine : Machine) (single : ';' ∉ dir.path) :
    machine.fold ';' ∉ dir.path.map machine.fold := by
  intro member
  obtain ⟨character, inPath, same⟩ := List.mem_map.mp member
  exact single (machine.separator character same ▸ inPath)

/-- Separators at the end of a text hide no directory. -/
theorem contains_trimEnd (single : ';' ∉ dir.path) (contained : Contains machine text dir) :
    Contains machine (trimEnd text) dir := by
  unfold Contains trimEnd at *
  induction text using List.reverseRecOn with
  | nil => exact contained
  | append_singleton text character ih =>
    rw [List.rdropWhile_concat]
    split
    · rename_i isSeparator
      apply ih
      rw [of_decide_eq_true isSeparator, List.map_append, List.map_singleton,
        List.infix_concat_iff, List.suffix_concat_iff] at contained
      rcases contained with (empty | ⟨front, shape, -⟩) | before
      · exact empty ▸ List.nil_infix
      · have member : machine.fold ';' ∈ dir.path.map machine.fold := shape ▸ List.mem_concat_self
        exact absurd member (fold_separator_not_mem machine single)
      · exact before
    · exact contained

/-- Nor do those at its start. -/
theorem contains_trim (single : ';' ∉ dir.path) (contained : Contains machine text dir) :
    Contains machine (trim text) dir := by
  apply contains_trimEnd single
  unfold Contains at *
  induction text with
  | nil => exact contained
  | cons character text ih =>
    rw [List.dropWhile_cons]
    split
    · rename_i isSeparator
      apply ih
      rw [of_decide_eq_true isSeparator, List.map_cons, List.infix_cons_iff,
        List.prefix_cons_iff] at contained
      rcases contained with (empty | ⟨tail, shape, -⟩) | later
      · exact empty ▸ List.nil_infix
      · have member : machine.fold ';' ∈ dir.path.map machine.fold :=
          shape ▸ List.mem_cons_self
        exact absurd member (fold_separator_not_mem machine single)
      · exact later
    · exact contained

/-- What stood in a text stands in it after a directory is appended. -/
theorem contains_appended (single : ';' ∉ dir.path) (contained : Contains machine text dir)
    (rest : Text) : Contains machine (trim (trimEnd text ++ ';' :: rest)) dir := by
  apply contains_trim single
  have before : Contains machine (trimEnd text) dir := contains_trimEnd single contained
  unfold Contains at *
  rw [List.map_append]
  exact before.trans (List.prefix_append _ _).isInfix

/-- An appended directory stands in the text. -/
theorem contains_self (single : ';' ∉ dir.path) (front : Text) :
    Contains machine (trim (front ++ ';' :: dir.path)) dir := by
  apply contains_trim single
  unfold Contains
  rw [List.map_append, List.map_cons]
  exact ((List.suffix_cons _ _).trans (List.suffix_append _ _)).isInfix

/-- An entry that differs from a directory in case at most is found. -/
theorem contains_of_entry {entry : Text} (member : entry ∈ entries text)
    (same : entry.map machine.fold = dir.path.map machine.fold) : Contains machine text dir := by
  have inText : entry <:+: text := infix_of_mem_splitOn (List.mem_filter.mp member).1
  unfold Contains
  rw [← same]
  exact inText.map machine.fold

/-- A call leaves the text or appends an entry to a text without variables. -/
theorem Meets.cases (meets : Meets machine stored dir) :
    (Contains machine (machine.expand stored) dir ∧ addToSystemPath machine stored dir = stored) ∨
    (¬Contains machine stored dir ∧ Plain machine stored ∧
      Plain machine (addToSystemPath machine stored dir) ∧
      addToSystemPath machine stored dir = trim (trimEnd stored ++ ';' :: dir.path)) := by
  by_cases contained : Contains machine (machine.expand stored) dir
  · exact .inl ⟨contained, if_pos contained⟩
  · obtain ⟨plain, plainAfter⟩ := meets.plain contained
    have added : addToSystemPath machine stored dir =
        trim (trimEnd (machine.expand stored) ++ ';' :: dir.path) := if_neg contained
    have same : machine.expand stored = stored := plain
    rw [same] at contained added
    exact .inr ⟨contained, plain, plainAfter, added⟩

/-- The entries of a text after a call that appends. -/
theorem Meets.entries_eq (meets : Meets machine stored dir) :
    entries (addToSystemPath machine stored dir) = entries stored ∨
      ¬Contains machine stored dir ∧
        entries (addToSystemPath machine stored dir) = entries stored ++ [dir.path] := by
  rcases meets.cases with ⟨-, same⟩ | ⟨absent, -, -, added⟩
  · exact .inl (congrArg entries same)
  · rw [added]
    exact .inr ⟨absent, entries_appended meets.single⟩

/-- After a call its directory is found. -/
theorem Meets.contains (meets : Meets machine stored dir) :
    Contains machine (machine.expand (addToSystemPath machine stored dir)) dir := by
  rcases meets.cases with ⟨contained, same⟩ | ⟨-, -, plainAfter, added⟩
  · rw [same]
    exact contained
  · rw [plainAfter, added]
    exact contains_self meets.single _

/-- A call hides no directory that was found. -/
theorem Meets.contains_mono (meets : Meets machine stored dir) (single : ';' ∉ other.path)
    (contained : Contains machine (machine.expand stored) other) :
    Contains machine (machine.expand (addToSystemPath machine stored dir)) other := by
  rcases meets.cases with ⟨-, same⟩ | ⟨-, plain, plainAfter, added⟩
  · rw [same]
    exact contained
  · rw [plain] at contained
    rw [plainAfter, added]
    exact contains_appended single contained _

/-- After a call its directory has an entry. -/
theorem Meets.holds (meets : Meets machine stored dir) :
    Holds machine (machine.expand (addToSystemPath machine stored dir)) dir := by
  rcases meets.cases with ⟨contained, same⟩ | ⟨-, -, plainAfter, added⟩
  · rw [same]
    exact meets.entry contained
  · rw [plainAfter, added]
    unfold Holds
    rw [entries_appended meets.single]
    exact ⟨dir.path, List.mem_append_right _ List.mem_cons_self, rfl⟩

/-- A call takes no directory its entry. -/
theorem Meets.holds_mono (meets : Meets machine stored dir)
    (held : Holds machine (machine.expand stored) other) :
    Holds machine (machine.expand (addToSystemPath machine stored dir)) other := by
  rcases meets.cases with ⟨-, same⟩ | ⟨-, plain, plainAfter, added⟩
  · rw [same]
    exact held
  · rw [plain] at held
    obtain ⟨entry, member, same⟩ := held
    rw [plainAfter, added]
    unfold Holds
    rw [entries_appended meets.single]
    exact ⟨entry, List.mem_append_left _ member, same⟩

theorem Meets.kept (meets : Meets machine stored dir) :
    entries stored <+: entries (addToSystemPath machine stored dir) := by
  rcases meets.entries_eq with same | ⟨-, appended⟩
  · rw [same]
  · rw [appended]
    exact List.prefix_append _ _

/-- An appended entry is the first of its spelling. -/
theorem Meets.once (meets : Meets machine stored dir) (name : Text) :
    occurrences machine (addToSystemPath machine stored dir) name ≤
      max 1 (occurrences machine stored name) := by
  unfold occurrences
  rcases meets.entries_eq with same | ⟨absent, appended⟩
  · rw [same]
    exact Nat.le_max_right _ _
  · rw [appended, List.map_append, List.count_append, List.map_singleton, List.count_singleton]
    split
    · rename_i isName
      have spelled : dir.path.map machine.fold = name := by simpa using isName
      have none : ((entries stored).map fun entry => entry.map machine.fold).count name = 0 := by
        apply List.count_eq_zero.mpr
        intro member
        obtain ⟨entry, inStored, same⟩ := List.mem_map.mp member
        exact absent (contains_of_entry inStored (same.trans spelled.symm))
      omega
    · exact Nat.le_max_right _ _

end Calls

section Runs

variable {machine : Machine} {stored : Text} {calls : List Directory}

/-- Calls for directories that are found change nothing. -/
theorem addAll_of_contains
    (contained : ∀ dir ∈ calls, Contains machine (machine.expand stored) dir) :
    addAll machine stored calls = stored := by
  induction calls with
  | nil => rfl
  | cons dir calls ih =>
    obtain ⟨here, later⟩ := List.forall_mem_cons.mp contained
    have same : addToSystemPath machine stored dir = stored := if_pos here
    unfold addAll at *
    rw [List.foldl_cons, same]
    exact ih later

/-- What calls keep of a text a run of them keeps. -/
theorem AllMeet.induction {motive : Text → Prop} (meet : AllMeet machine stored calls)
    (start : motive stored)
    (step : ∀ before dir, Meets machine before dir → motive before →
      motive (addToSystemPath machine before dir)) : motive (addAll machine stored calls) := by
  induction calls generalizing stored with
  | nil => exact start
  | cons dir calls ih => exact ih meet.2 (step stored dir meet.1 start)

/-- What a call brings about for its directory, and later calls keep, a run brings about for
every directory. -/
theorem AllMeet.each {motive : Text → Directory → Prop} (meet : AllMeet machine stored calls)
    (start : ∀ before dir, Meets machine before dir → motive (addToSystemPath machine before dir) dir)
    (step : ∀ before dir other, Meets machine before dir → motive before other →
      motive (addToSystemPath machine before dir) other) :
    ∀ dir ∈ calls, motive (addAll machine stored calls) dir := by
  induction calls generalizing stored with
  | nil => simp
  | cons dir calls ih =>
    intro other member
    rcases List.mem_cons.mp member with rfl | later
    · have rest : AllMeet machine (addToSystemPath machine stored other) calls := meet.2
      exact rest.induction (motive := fun text => motive text other) (start stored other meet.1)
        fun before next => step before next other
    · exact ih meet.2 other later

theorem AllMeet.single (meet : AllMeet machine stored calls) : ∀ dir ∈ calls, ';' ∉ dir.path := by
  induction calls generalizing stored with
  | nil => simp
  | cons dir calls ih => exact List.forall_mem_cons.mpr ⟨meet.1.single, ih meet.2⟩

end Runs

section Samples

/-- A machine that folds ASCII letters and has no variables. -/
def plainMachine : Machine where
  fold := Char.toLower
  separator := by
    intro character same
    have lowered : character.toLower.toNat = 59 := congrArg Char.toNat same
    rcases toLower_cases character with unchanged | ⟨-, low, -⟩
    · exact unchanged.symm.trans same
    · omega
  expand := id

/-- A directory of the first entry is inside another. -/
def scriptsPath : Text :=
  "C:\\Windows;C:\\Python312\\Scripts;".toList

def pythonDir : Directory :=
  ⟨"C:\\Python312".toList, by decide⟩

def gitDir : Directory :=
  ⟨"C:\\Program Files\\Git\\cmd".toList, by decide⟩

end Samples

section Additions

variable {machine : Machine} {stored : Text} {calls : List Directory}

/-- The additions of calls each of which does what it is for accumulate. -/
theorem additions_accumulate (machine : Machine) (stored : Text) (calls : List Directory)
    (meet : AllMeet machine stored calls) : Accumulates machine stored calls where
  held := meet.each (motive := fun text dir => Holds machine (machine.expand text) dir)
    (fun _ _ meets => meets.holds) fun _ _ _ meets held => meets.holds_mono held
  kept := by
    apply meet.induction (motive := fun text => entries stored <+: entries text) List.prefix_rfl
    intro before dir meets kept
    exact kept.trans meets.kept
  once := by
    intro name
    apply meet.induction
      (motive := fun text => occurrences machine text name ≤ max 1 (occurrences machine stored name))
    · exact Nat.le_max_right _ _
    · intro before dir meets bound
      have next := meets.once name
      omega
  stable := by
    apply addAll_of_contains
    have found := meet.each
      (motive := fun text dir => ';' ∉ dir.path → Contains machine (machine.expand text) dir)
      (fun _ _ meets _ => meets.contains)
      fun _ _ _ meets contained single => meets.contains_mono single (contained single)
    intro dir member
    exact found dir member (meet.single dir member)

theorem additions_accumulate_twice :
    Accumulates plainMachine "C:\\Windows;".toList [gitDir, pythonDir] := by
  apply additions_accumulate
  refine ⟨⟨by decide, ?_, fun _ => ⟨rfl, rfl⟩⟩, ⟨by decide, ?_, fun _ => ⟨rfl, rfl⟩⟩, trivial⟩
  · intro contained
    exact absurd contained (by decide +kernel)
  · intro contained
    exact absurd contained (by decide +kernel)

/-- The directory of Python stands in the text, as the beginning of another: it is never
added. -/
theorem directory_inside_another : ¬Accumulates plainMachine scriptsPath [pythonDir] := by
  intro accumulates
  have absent : ∀ entry ∈ entries (addAll plainMachine scriptsPath [pythonDir]),
      directoryOf plainMachine entry ≠ directoryOf plainMachine pythonDir.path := by
    decide +kernel
  obtain ⟨entry, member, same⟩ := accumulates.held pythonDir List.mem_cons_self
  exact absent entry member same

end Additions

end MastProvisioning.Unit.SystemPath
