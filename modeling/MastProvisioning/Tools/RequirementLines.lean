import MastProvisioning.PowerShell.SettingsFile

/-!
# Lines of a requirements file

A line as the installer's grammar builds it: a distribution's name, its extras in brackets,
the versions asked for, a marker that says on which machines the line applies, and a comment
behind it. The verification script reads such a line by one regular expression: a name, two
equals signs and the text behind them. What the expression takes from a line is a function
of the line's structure.
-/

namespace MastProvisioning.Tools.Requirements

open MastProvisioning.Collections.Patterns (Piece matchAt dropWord captures_append matchAt_capture)
open MastProvisioning.PowerShell.SettingsFile (Text isSpace trim toNat_of_isAlphanum)

section Grammar

inductive Blank
  | space
  | tab
deriving DecidableEq, Repr

def Blank.char : Blank → Char
  | .space => ' '
  | .tab => '\t'

/-- Blanks the grammar allows. -/
abbrev Blanks := List Blank

def Blanks.text (blanks : Blanks) : Text := blanks.map Blank.char

def isNameCharacter (character : Char) : Bool :=
  character.isAlphanum || character == '-' || character == '_' || character == '.'

/-- The name of a distribution or of an extra. -/
structure Name where
  text : Text
  named : text.all isNameCharacter = true
  starts : text.head?.any Char.isAlphanum = true
  ends : text.getLast?.any Char.isAlphanum = true
deriving DecidableEq

def isVersionCharacter (character : Char) : Bool :=
  isNameCharacter character || character == '*' || character == '+' || character == '!'

structure Version where
  text : Text
  nonempty : text ≠ []
  visible : text.all isVersionCharacter = true
deriving DecidableEq

inductive Comparator
  | equal
  | arbitrary
  | different
  | compatible
  | atMost
  | below
  | atLeast
  | above
deriving DecidableEq, Repr

def Comparator.text : Comparator → Text
  | .equal => "==".toList
  | .arbitrary => "===".toList
  | .different => "!=".toList
  | .compatible => "~=".toList
  | .atMost => "<=".toList
  | .below => "<".toList
  | .atLeast => ">=".toList
  | .above => ">".toList

/-- One version asked for, with the blanks around its parts. -/
structure Clause where
  before : Blanks
  comparator : Comparator
  between : Blanks
  version : Version
  after : Blanks
deriving DecidableEq

/-- The clause from its comparator on. -/
def Clause.body (clause : Clause) : Text :=
  clause.comparator.text ++ clause.between.text ++ clause.version.text ++ clause.after.text

def Clause.text (clause : Clause) : Text := clause.before.text ++ clause.body

/-- Clauses behind the first, each behind a comma. -/
def clausesText (clauses : List Clause) : Text :=
  clauses.flatMap fun clause => ',' :: clause.text

/-- What is asked for: any version, versions with or without parentheses around them, or
an address. -/
inductive Versions
  | any
  | bare (first : Clause) (more : List Clause)
  | bracketed (before : Blanks) (first : Clause) (more : List Clause)
  | url (before : Blanks) (address : Text)
deriving DecidableEq

def Versions.text : Versions → Text
  | .any => []
  | .bare first more => first.text ++ clausesText more
  | .bracketed before first more => before.text ++ '(' :: (first.text ++ (clausesText more ++ [')']))
  | .url before address => before.text ++ '@' :: address

def Versions.clauses : Versions → List Clause
  | .bare first more => first :: more
  | .bracketed _ first more => first :: more
  | .any => []
  | .url _ _ => []

/-- `[first, second]`, with the blanks before it and around each name. -/
structure Extras where
  before : Blanks
  inside : Blanks
  names : List (Blanks × Name × Blanks)
deriving DecidableEq

def Extras.text (extras : Extras) : Text :=
  let names := extras.names.map fun (before, name, after) => before.text ++ name.text ++ after.text
  extras.before.text ++ '[' :: (extras.inside.text ++ ([','].intercalate names ++ [']']))

/-- A marker behind its semicolon. -/
structure Marker where
  before : Blanks
  condition : Text
deriving DecidableEq

/-- A comment on a line; a blank comes before its sign. -/
structure Comment where
  blank : Blank
  more : Blanks
  words : Text
deriving DecidableEq

structure Requirement where
  before : Blanks
  name : Name
  extras : Option Extras
  versions : Versions
  marker : Option Marker
  comment : Option Comment
  after : Blanks
deriving DecidableEq

def markerText : Option Marker → Text
  | none => []
  | some marker => marker.before.text ++ ';' :: marker.condition

def commentText : Option Comment → Text
  | none => []
  | some comment => comment.blank.char :: comment.more.text ++ '#' :: comment.words

namespace Requirement

/-- What follows the versions. -/
def ending (requirement : Requirement) : Text :=
  markerText requirement.marker ++ (commentText requirement.comment ++ requirement.after.text)

/-- What follows the name. -/
def afterName (requirement : Requirement) : Text :=
  ((requirement.extras.map Extras.text).getD []) ++ (requirement.versions.text ++ requirement.ending)

def text (requirement : Requirement) : Text :=
  requirement.before.text ++ (requirement.name.text ++ requirement.afterName)

/-- The clauses that pin one version. -/
def pins (requirement : Requirement) : List Clause :=
  requirement.versions.clauses.filter fun clause => clause.comparator = .equal

end Requirement

inductive Line
  | blank (blanks : Blanks)
  | comment (before : Blanks) (words : Text)
  | requirement (requirement : Requirement)
deriving DecidableEq

def Line.text : Line → Text
  | .blank blanks => blanks.text
  | .comment before words => before.text ++ '#' :: words
  | .requirement asked => asked.text

end Grammar

section Operations

/-- `[-_.]`. -/
def isSeparator (character : Char) : Bool :=
  character == '-' || character == '_' || character == '.'

/-- `-replace '[-_.]+', '-'`, inside a run of separators or not. -/
def joinSeparators : Bool → Text → Text
  | _, [] => []
  | inRun, character :: rest =>
    if isSeparator character then
      if inRun then joinSeparators true rest else '-' :: joinSeparators true rest
    else character :: joinSeparators false rest

/-- `Get-NormalizedDistName`. -/
def getNormalizedDistName (name : Text) : Text :=
  joinSeparators false ((trim name).map Char.toLower)

/-- `[A-Za-z0-9._-]`; the expression ignores case, and the sign of the kelvin is a `k`. -/
def isDistCharacter (character : Char) : Bool :=
  isNameCharacter character || character == '\u212a'

/-- `[^;#\s]`. -/
def isPinCharacter (character : Char) : Bool :=
  !(character == ';' || character == '#' || isSpace character)

/-- `^([A-Za-z0-9._-]+)==([^;#\s]+)`. -/
def pinPattern : List (Piece Char) :=
  [.capture isDistCharacter, .word "==".toList, .capture isPinCharacter]

/-- `${name}` and `${want}` of a line, unless it is skipped. -/
def readPin (line : Text) : Option (Text × Text) :=
  let text := trim line
  if text = [] ∨ text.head? = some '#' then none
  else
    match (matchAt id pinPattern text).map Prod.fst with
    | some [name, want] => some (getNormalizedDistName name, trim want)
    | _ => none

end Operations

section Meaning

/-- Names that differ in case or in the separators are one: `name.lower()` with every run of
separators a hyphen. -/
def Name.normal (name : Name) : Text := (joinSeparators false name.text).map Char.toLower

/-- The text behind the equals signs of a first clause, when nothing stands before them. -/
def Clause.want (clause : Clause) (rest : Text) : Option Text :=
  match clause.before, clause.comparator, clause.between with
  | [], .equal, [] =>
    some (clause.version.text ++ (clause.after.text ++ rest).takeWhile isPinCharacter)
  | [], .arbitrary, [] =>
    some ('=' :: clause.version.text ++ (clause.after.text ++ rest).takeWhile isPinCharacter)
  | [], .arbitrary, _ :: _ => some ['=']
  | _, _, _ => none

/-- The version the script takes a line to pin: none unless the name is followed by the two
signs at once, and with whatever follows the version without a blank. -/
def Requirement.want (requirement : Requirement) : Option Text :=
  match requirement.extras, requirement.versions with
  | none, .bare first more => first.want (clausesText more ++ requirement.ending)
  | _, _ => none

end Meaning

section Characters

theorem isNameCharacter_cases {character : Char} (named : isNameCharacter character = true) :
    character.isAlphanum = true ∨ character = '-' ∨ character = '_' ∨ character = '.' := by
  simpa only [isNameCharacter, Bool.or_eq_true, beq_iff_eq, or_assoc] using named

theorem isSpace_of_isVersionCharacter {character : Char}
    (visible : isVersionCharacter character = true) : isSpace character = false := by
  simp only [isVersionCharacter, Bool.or_eq_true, beq_iff_eq] at visible
  rcases visible with ((named | rfl) | rfl) | rfl
  · rcases isNameCharacter_cases named with alphanum | rfl | rfl | rfl
    · have range := toNat_of_isAlphanum alphanum
      apply PowerShell.SettingsFile.isSpace_of_visible <;> omega
    all_goals decide
  all_goals decide

theorem isPinCharacter_of_isVersionCharacter {character : Char}
    (visible : isVersionCharacter character = true) : isPinCharacter character = true := by
  have notSpace := isSpace_of_isVersionCharacter visible
  have others : character ≠ ';' ∧ character ≠ '#' := by
    constructor
    · rintro rfl
      revert visible
      decide
    · rintro rfl
      revert visible
      decide
  simp [isPinCharacter, notSpace, others]

theorem isSpace_of_isPinCharacter {character : Char} (pin : isPinCharacter character = true) :
    isSpace character = false := by
  simp only [isPinCharacter, Bool.not_eq_true', Bool.or_eq_false_iff] at pin
  exact pin.2

theorem isVersionCharacter_of_isNameCharacter {character : Char}
    (named : isNameCharacter character = true) : isVersionCharacter character = true := by
  simp [isVersionCharacter, named]

theorem isDistCharacter_of_isNameCharacter {character : Char}
    (named : isNameCharacter character = true) : isDistCharacter character = true := by
  simp [isDistCharacter, named]

@[simp] theorem isSpace_blank (blank : Blank) : isSpace blank.char = true := by
  cases blank <;> decide

theorem all_isSpace_blanks (blanks : Blanks) : blanks.text.all isSpace = true := by
  rw [List.all_eq_true]
  intro character member
  obtain ⟨blank, -, rfl⟩ := List.mem_map.mp member
  exact isSpace_blank blank

end Characters

section Names

namespace Name

theorem visible (name : Name) : ∀ character ∈ name.text, isSpace character = false := by
  intro character member
  exact isSpace_of_isVersionCharacter
    (isVersionCharacter_of_isNameCharacter (List.all_eq_true.mp name.named character member))

theorem isDist (name : Name) : name.text.all isDistCharacter = true := by
  rw [List.all_eq_true]
  intro character member
  exact isDistCharacter_of_isNameCharacter (List.all_eq_true.mp name.named character member)

theorem nonempty (name : Name) : name.text ≠ [] := by
  intro empty
  have starts := name.starts
  rw [empty] at starts
  cases starts

theorem startsVisible (name : Name) (rest : Text) :
    PowerShell.SettingsFile.StartsVisible (name.text ++ rest) := by
  obtain ⟨first, more, shape⟩ := List.exists_cons_of_ne_nil name.nonempty
  have seen := name.visible first (shape ▸ List.mem_cons_self)
  simp [PowerShell.SettingsFile.StartsVisible, shape, seen]

end Name

/-- Separators have no case. -/
theorem isSeparator_toLower (character : Char) :
    isSeparator character.toLower = isSeparator character := by
  rcases PowerShell.SettingsFile.toLower_cases character with same | ⟨upper, lower⟩
  · rw [same]
  · have apart {letter : Char} (letters : 65 ≤ letter.toNat)
        (other : letter.toNat ≤ 90 ∨ 97 ≤ letter.toNat) : isSeparator letter = false := by
      rw [← Bool.not_eq_true]
      intro separator
      simp only [isSeparator, Bool.or_eq_true, beq_iff_eq] at separator
      rcases separator with (rfl | rfl) | rfl
      · revert letters
        decide
      · revert other
        decide
      · revert letters
        decide
    rw [apart (by omega) (by omega), apart (by omega) (by omega)]

theorem toLower_joinSeparators (inRun : Bool) (text : Text) :
    joinSeparators inRun (text.map Char.toLower) = (joinSeparators inRun text).map Char.toLower := by
  induction text generalizing inRun with
  | nil => rfl
  | cons character rest ih =>
    rw [List.map_cons, joinSeparators, joinSeparators, isSeparator_toLower]
    by_cases separator : isSeparator character = true
    · rw [if_pos separator, if_pos separator]
      cases inRun with
      | true => exact ih true
      | false => exact congrArg ('-' :: ·) (ih true)
    · rw [if_neg separator, if_neg separator, ih, List.map_cons]

/-- The script and the installer take the same spellings for one name. -/
theorem getNormalizedDistName_name (name : Name) :
    getNormalizedDistName name.text = name.normal := by
  rw [getNormalizedDistName, PowerShell.SettingsFile.trim_of_visible name.visible,
    toLower_joinSeparators, Name.normal]

end Names

section Starts

/-- The text is empty, or its first character has the property. -/
def Starts (allowed : Char → Bool) (text : Text) : Prop := text.head?.all allowed = true

variable {allowed : Char → Bool}

@[simp] theorem starts_nil : Starts allowed [] := rfl

@[simp] theorem starts_cons {character : Char} {rest : Text} :
    Starts allowed (character :: rest) ↔ allowed character = true := Iff.rfl

theorem Starts.append {first second : Text} (starts : Starts allowed first)
    (later : Starts allowed second) : Starts allowed (first ++ second) := by
  cases first with
  | nil => exact later
  | cons character rest => exact starts

theorem Starts.front {first : Text} (starts : Starts allowed first) (nonempty : first ≠ [])
    (rest : Text) : Starts allowed (first ++ rest) := by
  cases first with
  | nil => exact absurd rfl nonempty
  | cons character more => exact starts

/-- A character at which a name ends and nothing pins a version yet. -/
def endsName (character : Char) : Bool :=
  !isDistCharacter character && character != '='

/-- A character behind a version that is written out. -/
def endsPin (character : Char) : Bool :=
  !isPinCharacter character

theorem starts_blanks (blank : ∀ blank : Blank, allowed blank.char = true) (blanks : Blanks) :
    Starts allowed blanks.text := by
  cases blanks with
  | nil => rfl
  | cons first rest => exact blank first

theorem endsName_blank (blank : Blank) : endsName blank.char = true := by
  cases blank <;> decide

/-- A mark behind blanks. -/
theorem starts_mark (blanks : Blanks) {mark : Char} (ends : endsName mark = true) (rest : Text) :
    Starts endsName (blanks.text ++ mark :: rest) :=
  (starts_blanks endsName_blank blanks).append (starts_cons.mpr ends)

theorem starts_ending (requirement : Requirement) : Starts endsName requirement.ending := by
  apply Starts.append
  · cases requirement.marker with
    | none => rfl
    | some marker => exact starts_mark marker.before (by decide) marker.condition
  · apply Starts.append
    · cases requirement.comment with
      | none => rfl
      | some comment => exact starts_cons.mpr (endsName_blank comment.blank)
    · exact starts_blanks endsName_blank requirement.after

theorem takeWhile_isDistCharacter {text : Text}
    (starts : Starts (fun character => !isDistCharacter character) text) :
    text.takeWhile isDistCharacter = [] := by
  cases text with
  | nil => rfl
  | cons character rest =>
    apply List.takeWhile_cons_of_neg
    simpa using starts

end Starts

section Reading

/-- What the expression makes of the text behind a name. -/
def pinAfter (text : Text) : Option Text :=
  (dropWord id "==".toList text).bind fun rest =>
    if rest.takeWhile isPinCharacter = [] then none else some (rest.takeWhile isPinCharacter)

theorem pinAfter_of_starts {text : Text} (starts : Starts endsName text) : pinAfter text = none := by
  cases text with
  | nil => rfl
  | cons character rest =>
    have other : character ≠ '=' := by
      have ends := starts_cons.mp starts
      simp only [endsName, Bool.and_eq_true, bne_iff_ne] at ends
      exact ends.2
    have nothing : dropWord id "==".toList (character :: rest) = none := if_neg other
    rw [pinAfter, nothing]
    rfl

theorem pinAfter_signs (rest : Text) : pinAfter ("==".toList ++ rest) =
    if rest.takeWhile isPinCharacter = [] then none else some (rest.takeWhile isPinCharacter) := by
  rfl

theorem takeWhile_version (version : Version) (rest : Text) :
    (version.text ++ rest).takeWhile isPinCharacter =
      version.text ++ rest.takeWhile isPinCharacter := by
  apply List.takeWhile_append_of_pos
  intro character member
  exact isPinCharacter_of_isVersionCharacter (List.all_eq_true.mp version.visible character member)

theorem takeWhile_blank (blank : Blank) (rest : Text) :
    (blank.char :: rest).takeWhile isPinCharacter = [] := by
  apply List.takeWhile_cons_of_neg
  simp [isPinCharacter]

/-- A first clause is read from its signs on, unless something stands before them. -/
theorem pinAfter_clause (clause : Clause) (rest : Text) :
    pinAfter (clause.text ++ rest) = clause.want rest := by
  obtain ⟨before, comparator, between, version, after⟩ := clause
  cases before with
  | cons blank before =>
    exact pinAfter_of_starts (starts_cons.mpr (endsName_blank blank))
  | nil =>
    cases comparator with
    | equal =>
      cases between with
      | nil =>
        have shape : Clause.text ⟨[], .equal, [], version, after⟩ ++ rest =
            "==".toList ++ (version.text ++ (after.text ++ rest)) := by
          simp [Clause.text, Clause.body, Blanks.text, Comparator.text]
        have filled : version.text ++ (after.text ++ rest).takeWhile isPinCharacter ≠ [] := by
          simp [version.nonempty]
        rw [shape, pinAfter_signs, takeWhile_version, if_neg filled]
        rfl
      | cons blank between =>
        have shape : Clause.text ⟨[], .equal, blank :: between, version, after⟩ ++ rest =
            "==".toList ++ blank.char :: (Blanks.text between ++ version.text ++ after.text ++ rest) := by
          simp [Clause.text, Clause.body, Blanks.text, Comparator.text]
        rw [shape, pinAfter_signs, takeWhile_blank, if_pos rfl]
        rfl
    | arbitrary =>
      have sign : isPinCharacter '=' = true := by decide
      cases between with
      | nil =>
        have shape : Clause.text ⟨[], .arbitrary, [], version, after⟩ ++ rest =
            "==".toList ++ '=' :: (version.text ++ (after.text ++ rest)) := by
          simp [Clause.text, Clause.body, Blanks.text, Comparator.text]
        rw [shape, pinAfter_signs, List.takeWhile_cons_of_pos sign, takeWhile_version,
          if_neg (List.cons_ne_nil _ _)]
        rfl
      | cons blank between =>
        have shape : Clause.text ⟨[], .arbitrary, blank :: between, version, after⟩ ++ rest =
            "==".toList ++ '=' :: blank.char ::
              (Blanks.text between ++ version.text ++ after.text ++ rest) := by
          simp [Clause.text, Clause.body, Blanks.text, Comparator.text]
        rw [shape, pinAfter_signs, List.takeWhile_cons_of_pos sign, takeWhile_blank,
          if_neg (List.cons_ne_nil _ _)]
        rfl
    | different => rfl
    | compatible => rfl
    | atMost => rfl
    | below => rfl
    | atLeast => rfl
    | above => rfl

theorem starts_clause (clause : Clause) (rest : Text) :
    Starts (fun character => !isDistCharacter character) (clause.text ++ rest) := by
  obtain ⟨before, comparator, between, version, after⟩ := clause
  cases before with
  | cons blank before =>
    have ends := endsName_blank blank
    simp only [endsName, Bool.and_eq_true] at ends
    exact ends.1
  | nil => cases comparator <;> rfl

theorem Starts.of_endsName {text : Text} (starts : Starts endsName text) :
    Starts (fun character => !isDistCharacter character) text := by
  cases text with
  | nil => rfl
  | cons character rest =>
    have ends := starts_cons.mp starts
    simp only [endsName, Bool.and_eq_true] at ends
    exact ends.1

/-- What follows the name ends it, and is read as the structure of the line says. -/
theorem read_afterName (requirement : Requirement) :
    Starts (fun character => !isDistCharacter character) requirement.afterName ∧
      pinAfter requirement.afterName = requirement.want := by
  obtain ⟨before, name, extras, versions, marker, comment, after⟩ := requirement
  have ending := starts_ending ⟨before, name, extras, versions, marker, comment, after⟩
  cases extras with
  | some extras =>
    have starts : Starts endsName
        (Requirement.afterName ⟨before, name, some extras, versions, marker, comment, after⟩) :=
      Starts.front (starts_mark extras.before (by decide) _) (by simp) _
    exact ⟨starts.of_endsName, pinAfter_of_starts starts⟩
  | none =>
    cases versions with
    | any => exact ⟨ending.of_endsName, pinAfter_of_starts ending⟩
    | bare first more =>
      have shape : Requirement.afterName
          ⟨before, name, none, .bare first more, marker, comment, after⟩ = first.text ++
            (clausesText more ++ Requirement.ending
              ⟨before, name, none, .bare first more, marker, comment, after⟩) := by
        simp [Requirement.afterName, Versions.text]
      rw [shape]
      exact ⟨starts_clause first _, pinAfter_clause first _⟩
    | bracketed gap first more =>
      have starts : Starts endsName (Requirement.afterName
          ⟨before, name, none, .bracketed gap first more, marker, comment, after⟩) :=
        Starts.front (starts_mark gap (by decide) _) (by simp) _
      exact ⟨starts.of_endsName, pinAfter_of_starts starts⟩
    | url gap address =>
      have starts : Starts endsName (Requirement.afterName
          ⟨before, name, none, .url gap address, marker, comment, after⟩) :=
        Starts.front (starts_mark gap (by decide) _) (by simp) _
      exact ⟨starts.of_endsName, pinAfter_of_starts starts⟩

theorem pinPattern_refuses {tail : Text} (blank : tail.all isSpace = true) :
    ∀ piece ∈ pinPattern, piece.Refuses id tail := by
  have spaces := List.all_eq_true.mp blank
  have apart {kind : Char → Bool} (visible : ∀ character, kind character = true →
      isSpace character = false) : ∀ symbol ∈ tail, kind symbol = false := by
    intro symbol member
    rw [← Bool.not_eq_true]
    intro taken
    have space := spaces symbol member
    rw [visible symbol taken] at space
    cases space
  intro piece member
  simp only [pinPattern, List.mem_cons, List.not_mem_nil, or_false] at member
  rcases member with rfl | rfl | rfl
  · apply apart
    intro character dist
    simp only [isDistCharacter, Bool.or_eq_true, beq_iff_eq] at dist
    rcases dist with named | rfl
    · exact isSpace_of_isVersionCharacter (isVersionCharacter_of_isNameCharacter named)
    · decide
  · rintro symbol member letter sign rfl
    obtain rfl : symbol = '=' := by simpa using sign
    exact absurd (spaces '=' member) (by decide)
  · exact apart fun character => isSpace_of_isPinCharacter

/-- What the expression captures of a name and what follows it. -/
theorem captures_name (name : Name) {after : Text}
    (starts : Starts (fun character => !isDistCharacter character) after) :
    (matchAt id pinPattern (name.text ++ after)).map Prod.fst =
      (pinAfter after).map fun want => [name.text, want] := by
  rw [pinPattern, matchAt_capture name.isDist name.nonempty (takeWhile_isDistCharacter starts),
    matchAt, pinAfter]
  cases dropWord id "==".toList after with
  | none => rfl
  | some rest =>
    simp only [Option.bind_some, matchAt]
    by_cases empty : rest.takeWhile isPinCharacter = []
    · rw [if_pos empty, if_pos empty]
      rfl
    · rw [if_neg empty, if_neg empty]
      rfl

theorem trim_pinAfter {text want : Text} (found : pinAfter text = some want) : trim want = want := by
  obtain ⟨rest, -, taken⟩ := Option.bind_eq_some_iff.mp found
  split at taken
  · cases taken
  · obtain rfl := Option.some.inj taken
    apply PowerShell.SettingsFile.trim_of_visible
    intro character member
    exact isSpace_of_isPinCharacter (List.mem_takeWhile_imp member)

/-- A line begins, once trimmed, with the first character of its name. -/
theorem trim_text (requirement : Requirement) :
    ∃ tail : Text, tail.all isSpace = true ∧
      requirement.name.text ++ requirement.afterName = trim requirement.text ++ tail ∧
      trim requirement.text ≠ [] ∧ (trim requirement.text).head? ≠ some '#' := by
  obtain ⟨tail, blank, shape⟩ := PowerShell.SettingsFile.exists_trim_append
    (all_isSpace_blanks requirement.before)
    (requirement.name.startsVisible requirement.afterName)
  change _ = trim requirement.text ++ tail at shape
  obtain ⟨first, more, named⟩ := List.exists_cons_of_ne_nil requirement.name.nonempty
  have member : first ∈ requirement.name.text := named ▸ List.mem_cons_self
  rw [named, List.cons_append] at shape
  refine ⟨tail, blank, by rw [named, List.cons_append, shape], ?_⟩
  cases trimmed : trim requirement.text with
  | nil =>
    rw [trimmed, List.nil_append] at shape
    have space := List.all_eq_true.mp blank first (shape ▸ List.mem_cons_self)
    rw [requirement.name.visible first member] at space
    cases space
  | cons character rest =>
    rw [trimmed, List.cons_append] at shape
    obtain ⟨rfl, -⟩ := List.cons.inj shape
    refine ⟨List.cons_ne_nil _ _, ?_⟩
    rintro sign
    obtain rfl := Option.some.inj sign
    exact absurd (List.all_eq_true.mp requirement.name.named '#' member) (by decide)

/-- A requirement is read as its structure says. -/
theorem readPin_requirement (requirement : Requirement) :
    readPin requirement.text = requirement.want.map fun want => (requirement.name.normal, want) := by
  obtain ⟨tail, blank, shape, nonempty, noComment⟩ := trim_text requirement
  obtain ⟨starts, read⟩ := read_afterName requirement
  have captured : (matchAt id pinPattern (trim requirement.text)).map Prod.fst =
      requirement.want.map fun want => [requirement.name.text, want] := by
    rw [← read, ← captures_name requirement.name starts, shape,
      captures_append (pinPattern_refuses blank)]
  have seen : ¬(trim requirement.text = [] ∨ (trim requirement.text).head? = some '#') :=
    not_or.mpr ⟨nonempty, noComment⟩
  unfold readPin
  simp only [captured, if_neg seen]
  cases wanted : requirement.want with
  | none => rfl
  | some want =>
    simp only [Option.map_some, getNormalizedDistName_name, trim_pinAfter (read.trans wanted)]

/-- The other lines are skipped. -/
theorem readPin_other {line : Line} (other : ∀ requirement, line ≠ .requirement requirement) :
    readPin line.text = none := by
  cases line with
  | blank blanks =>
    have dropped : trim (Line.text (.blank blanks)) = [] := by
      have nothing : blanks.text.dropWhile isSpace = [] :=
        List.dropWhile_eq_nil_iff.mpr (List.all_eq_true.mp (all_isSpace_blanks blanks))
      rw [Line.text, trim, nothing, List.rdropWhile_nil]
    exact if_pos (.inl dropped)
  | comment before words =>
    have starts : PowerShell.SettingsFile.StartsVisible ('#' :: words) := rfl
    obtain ⟨tail, blank, shape⟩ := PowerShell.SettingsFile.exists_trim_append
      (all_isSpace_blanks before) starts
    apply if_pos
    cases trimmed : trim (Line.text (.comment before words)) with
    | nil => exact .inl rfl
    | cons character rest =>
      change '#' :: words = trim (Line.text (.comment before words)) ++ tail at shape
      rw [trimmed, List.cons_append] at shape
      exact .inr (congrArg some (List.cons.inj shape).1.symm)
  | requirement asked => exact absurd rfl (other asked)

end Reading

end MastProvisioning.Tools.Requirements
