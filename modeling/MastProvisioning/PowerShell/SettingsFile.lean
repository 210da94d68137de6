import MastProvisioning.Collections.Patterns
import Mathlib.Data.Bool.AllAny
import Mathlib.Data.List.DropRight

/-!
# Files of `Key = value` lines

A text as `Get-Content` reads it and `Set-Content -Encoding ASCII` writes it, and the
two regular expressions by which scripts read and rewrite the lines of one key.

What a rewrite leaves is stated for texts that are ASCII outside the values it
replaces: every other character is written as a question mark.
-/

namespace MastProvisioning.PowerShell.SettingsFile

open MastProvisioning.Collections.Patterns (takeWhile_front dropWhile_front)

/-- The characters of a file or of a line of one. -/
abbrev Text := List Char

instance : LawfulBEq Text := List.instLawfulBEq

section Operations

/-- A character at which a line ends. -/
def endsLine (character : Char) : Bool :=
  character == '\r' || character == '\n'

/-- `Get-Content`: the lines, ended by a carriage return, a line feed or both. -/
def getContent : Text → List Text
  | [] => []
  | '\r' :: '\n' :: rest => [] :: getContent rest
  | character :: rest =>
    if endsLine character then [] :: getContent rest
    else
      match getContent rest with
      | [] => [[character]]
      | line :: lines => (character :: line) :: lines

def isAscii (character : Char) : Bool :=
  decide (character.toNat < 128)

def toAscii (character : Char) : Char :=
  if isAscii character then character else '?'

/-- `Set-Content -Encoding ASCII`. -/
def setContent (lines : List Text) : Text :=
  lines.flatMap fun line => line.map toAscii ++ ['\r', '\n']

/-- `\s`: white space as Unicode has it, not only that of ASCII. -/
def isSpace (character : Char) : Bool :=
  [0x09, 0x0A, 0x0B, 0x0C, 0x0D, 0x20, 0x85, 0xA0, 0x1680, 0x2028, 0x2029, 0x202F, 0x205F,
    0x3000].contains character.toNat ||
  (decide (0x2000 ≤ character.toNat) && decide (character.toNat ≤ 0x200A))

/-- `.Trim()`. -/
def trim (text : Text) : Text :=
  (text.dropWhile isSpace).rdropWhile isSpace

/-- A word at the start of a text, its letters of either case: the characters that
match it, and what follows them. -/
def matchWord : Text → Text → Option (Text × Text)
  | [], rest => some ([], rest)
  | _ :: _, [] => none
  | letter :: word, character :: rest =>
    if character.toLower = letter.toLower then
      (matchWord word rest).map fun found => (character :: found.1, found.2)
    else none

/-- `-match 'word'`: the word stands somewhere in a text. -/
def contains (word text : Text) : Bool :=
  text.tails.any fun suffix => (matchWord word suffix).isSome

/-- `-match '^word'`. -/
def startsWith (word text : Text) : Bool :=
  (matchWord word text).isSome

/-- `-eq` on texts. -/
def sameText (first second : Text) : Bool :=
  first.map Char.toLower == second.map Char.toLower

/-- What follows each line feed. -/
def laterLines : Text → List Text
  | [] => []
  | character :: rest =>
    if character = '\n' then rest :: laterLines rest else laterLines rest

/-- `^(\s*Key\s*=\s*).*$`: the group, and what follows it. -/
def matchField (key line : Text) : Option (Text × Text) :=
  match matchWord key (line.dropWhile isSpace) with
  | none => none
  | some (name, afterName) =>
    match afterName.dropWhile isSpace with
    | '=' :: afterSign =>
      some (line.takeWhile isSpace ++ name ++ afterName.takeWhile isSpace ++
        '=' :: afterSign.takeWhile isSpace, afterSign.dropWhile isSpace)
    | _ => none

/-- A line that sets the key. -/
def isField (key line : Text) : Bool :=
  (matchField key line).isSome

/-- `Set-CfgField`: the value of every line that sets the key, or a new line. -/
def setCfgField (key value text : Text) : Text :=
  let rewritten := (getContent text).map fun line =>
    match matchField key line with
    | some (group, _) => group ++ value
    | none => line
  let found := (getContent text).any (isField key)
  setContent (if found then rewritten else rewritten ++ [key ++ " = ".toList ++ value])

/-- `^\s*Key\s*=\s*(\S*)\s*$`: the value of one line, when nothing follows it. -/
def readValue (key line : Text) : Option Text :=
  match matchField key line with
  | none => none
  | some (_, rest) =>
    if (rest.dropWhile fun character => !isSpace character).all isSpace then
      some (rest.takeWhile fun character => !isSpace character)
    else none

/-- The last value that can be read. -/
def lastValue (key text : Text) : Option Text :=
  (getContent text).foldl
    (fun current line =>
      match readValue key line with
      | some value => some value
      | none => current)
    none

end Operations

section Meaning

/-- The value the last line of a key gives it, without the blanks around it. -/
def effectiveValue (key text : Text) : Option Text :=
  ((getContent text).filterMap (matchField key)).getLast?.map fun found =>
    found.2.rdropWhile isSpace

/-- The lines that do not set the key. -/
def otherLines (key text : Text) : List Text :=
  (getContent text).filter fun line => !isField key line

/-- Everything a rewrite of the key keeps is ASCII: the lines of other keys, and what
stands before the values it replaces. -/
def asciiOutsideValues (key text : Text) : Bool :=
  (getContent text).all fun line =>
    match matchField key line with
    | some (group, _) => group.all isAscii
    | none => line.all isAscii

/-- A key that begins with a character no blank is taken for. -/
def VisibleKey (key : Text) : Prop :=
  ∃ letter rest, key = letter :: rest ∧ isSpace letter.toLower = false

/-- A text that can follow the group of a field: it does not begin with a blank. -/
def StartsVisible (text : Text) : Prop :=
  text.takeWhile isSpace = []

/-- The group of a field of the key. -/
def IsGroup (key group : Text) : Prop :=
  ∃ lead name pad gap, group = lead ++ name ++ pad ++ '=' :: gap ∧
    matchWord key name = some (name, []) ∧
    lead.all isSpace = true ∧ pad.all isSpace = true ∧ gap.all isSpace = true

end Meaning

section Lines

theorem getContent_cons_plain {character : Char} (plain : endsLine character = false)
    (rest : Text) :
    getContent (character :: rest) =
      match getContent rest with
      | [] => [[character]]
      | line :: lines => (character :: line) :: lines := by
  have notReturn : character ≠ '\r' := by
    rintro rfl
    exact absurd plain (by decide)
  rw [getContent]
  · rw [if_neg (by simp [plain])]
  · rintro _ rfl
    exact absurd rfl notReturn

theorem getContent_line {line : Text} (plain : ∀ character ∈ line, endsLine character = false)
    (rest : Text) :
    getContent (line ++ '\r' :: '\n' :: rest) = line :: getContent rest := by
  induction line with
  | nil => rfl
  | cons character line ih =>
    obtain ⟨here, later⟩ := List.forall_mem_cons.mp plain
    rw [List.cons_append, getContent_cons_plain here, ih later]

theorem getContent_lines {lines : List Text}
    (plain : ∀ line ∈ lines, ∀ character ∈ line, endsLine character = false) :
    getContent (lines.flatMap fun line => line ++ ['\r', '\n']) = lines := by
  induction lines with
  | nil => rfl
  | cons line lines ih =>
    obtain ⟨here, later⟩ := List.forall_mem_cons.mp plain
    rw [List.flatMap_cons, List.append_assoc]
    exact (getContent_line here _).trans (congrArg (line :: ·) (ih later))

/-- No line has a line end in it. -/
theorem plain_of_mem_getContent {text line : Text} (member : line ∈ getContent text) :
    ∀ character ∈ line, endsLine character = false := by
  fun_induction getContent text generalizing line with
  | case1 => cases member
  | case2 rest ih =>
    rcases List.mem_cons.mp member with rfl | later
    · simp
    · exact ih later
  | case3 character rest _ _ ih =>
    rcases List.mem_cons.mp member with rfl | later
    · simp
    · exact ih later
  | case4 character rest _ plain none ih =>
    rw [List.mem_singleton] at member
    subst member
    simpa using plain
  | case5 character rest _ plain first lines found ih =>
    rw [found] at ih
    rcases List.mem_cons.mp member with rfl | later
    · intro symbol inLine
      rcases List.mem_cons.mp inLine with rfl | inFirst
      · simpa using plain
      · exact ih List.mem_cons_self symbol inFirst
    · exact ih (List.mem_cons_of_mem _ later)

theorem map_toAscii {line : Text} (ascii : line.all isAscii = true) : line.map toAscii = line := by
  conv_rhs => rw [← List.map_id line]
  refine List.map_congr_left fun character member => ?_
  rw [toAscii, if_pos (List.all_eq_true.mp ascii character member), id_eq]

/-- ASCII lines are read back as they were written. -/
theorem getContent_setContent {lines : List Text}
    (plain : ∀ line ∈ lines, ∀ character ∈ line, endsLine character = false)
    (ascii : ∀ line ∈ lines, line.all isAscii = true) :
    getContent (setContent lines) = lines := by
  have written : setContent lines = lines.flatMap fun line => line ++ ['\r', '\n'] := by
    unfold setContent
    exact List.flatMap_congr fun line member => by rw [map_toAscii (ascii line member)]
  rw [written, getContent_lines plain]

end Lines

section Fields

variable {key : Text}

/-- A word found is what its characters and what follows them make up, and nothing of
it needs what follows. -/
theorem matchWord_eq_some {word text name rest : Text} :
    matchWord word text = some (name, rest) ↔
      text = name ++ rest ∧ matchWord word name = some (name, []) := by
  induction word generalizing text name with
  | nil =>
    simp only [matchWord, Option.some.injEq, Prod.mk.injEq]
    constructor
    · rintro ⟨rfl, rfl⟩
      exact ⟨rfl, rfl, rfl⟩
    · rintro ⟨rfl, rfl, -⟩
      exact ⟨rfl, rfl⟩
  | cons letter word ih =>
    constructor
    · intro found
      cases text with
      | nil => cases found
      | cons character text =>
        rw [matchWord] at found
        split at found
        · rename_i same
          obtain ⟨⟨matched, more⟩, inner, paired⟩ := Option.map_eq_some_iff.mp found
          obtain ⟨rfl, rfl⟩ := Prod.mk.inj paired
          obtain ⟨rfl, whole⟩ := ih.mp inner
          refine ⟨rfl, ?_⟩
          rw [matchWord, if_pos same, whole]
          rfl
        · cases found
    · rintro ⟨rfl, whole⟩
      cases name with
      | nil => cases whole
      | cons character name =>
        rw [matchWord] at whole
        split at whole
        · rename_i same
          obtain ⟨⟨matched, more⟩, inner, paired⟩ := Option.map_eq_some_iff.mp whole
          obtain ⟨tail, rfl⟩ := Prod.mk.inj paired
          obtain rfl : matched = name := (List.cons.inj tail).2
          rw [List.cons_append, matchWord, if_pos same, ih.mpr ⟨rfl, inner⟩]
          rfl
        · cases whole

theorem toLower_cases (character : Char) :
    character.toLower = character ∨
      (65 ≤ character.toNat ∧ character.toNat ≤ 90) ∧
        97 ≤ character.toLower.toNat ∧ character.toLower.toNat ≤ 122 := by
  unfold Char.toLower
  split
  · rename_i upper
    have low : 65 ≤ character.toNat := upper.1
    have high : character.toNat ≤ 90 := upper.2
    have shifted : (character.val + ('a'.val - 'A'.val)).toNat = character.toNat + 32 := by
      rw [UInt32.toNat_add]
      exact Nat.mod_eq_of_lt (by show character.toNat + 32 < _; omega)
    refine .inr ⟨⟨low, high⟩, ?_, ?_⟩
    · show 97 ≤ (character.val + ('a'.val - 'A'.val)).toNat
      omega
    · show (character.val + ('a'.val - 'A'.val)).toNat ≤ 122
      omega
  · exact .inl rfl

theorem toNat_of_isAlphanum {character : Char} (alphanum : character.isAlphanum = true) :
    (48 ≤ character.toNat ∧ character.toNat ≤ 57) ∨ (65 ≤ character.toNat ∧ character.toNat ≤ 90) ∨
      (97 ≤ character.toNat ∧ character.toNat ≤ 122) := by
  change ((decide (65 ≤ character.val ∧ character.val ≤ 90) ||
    (decide (97 ≤ character.val) && decide (character.val ≤ 122))) ||
      (decide (48 ≤ character.val) && decide (character.val ≤ 57))) = true at alphanum
  simp only [Bool.or_eq_true, Bool.and_eq_true, decide_eq_true_eq] at alphanum
  rcases alphanum with (⟨low, high⟩ | ⟨low, high⟩) | ⟨low, high⟩
  · exact .inr (.inl ⟨low, high⟩)
  · exact .inr (.inr ⟨low, high⟩)
  · exact .inl ⟨low, high⟩

/-- No character between the blank and the last of ASCII is white space. -/
theorem isSpace_of_visible {character : Char} (above : 0x20 < character.toNat)
    (below : character.toNat < 0x80) : isSpace character = false := by
  rw [← Bool.not_eq_true]
  intro blank
  simp only [isSpace, Bool.or_eq_true, Bool.and_eq_true, decide_eq_true_eq, List.contains_iff_mem,
    List.mem_cons, List.not_mem_nil, or_false] at blank
  omega

/-- Case and white space do not depend on each other. -/
theorem isSpace_toLower (character : Char) :
    isSpace character.toLower = isSpace character := by
  rcases toLower_cases character with same | ⟨upper, lower⟩
  · rw [same]
  · rw [isSpace_of_visible (by omega) (by omega), isSpace_of_visible (by omega) (by omega)]

theorem isAscii_toLower (character : Char) :
    isAscii character.toLower = isAscii character := by
  rcases toLower_cases character with same | ⟨upper, lower⟩
  · rw [same]
  · rw [isAscii, isAscii, decide_eq_true (by omega), decide_eq_true (by omega)]

/-- What a visible key matches begins with a visible character. -/
theorem startsVisible_of_matchWord (visible : VisibleKey key) {name : Text}
    (found : matchWord key name = some (name, [])) (rest : Text) :
    StartsVisible (name ++ rest) := by
  obtain ⟨letter, word, rfl, seen⟩ := visible
  cases name with
  | nil => cases found
  | cons character name =>
    rw [matchWord] at found
    split at found
    · rename_i same
      have plain : isSpace character = false := by rw [← isSpace_toLower, same, seen]
      simp [StartsVisible, plain]
    · cases found

/-- What matches a word differs from it in case at most. -/
theorem toLower_of_matchWord {word name : Text} (found : matchWord word name = some (name, [])) :
    name.map Char.toLower = word.map Char.toLower := by
  induction word generalizing name with
  | nil =>
    obtain rfl : ([] : Text) = name := congrArg Prod.fst (Option.some.inj found)
    rfl
  | cons letter word ih =>
    cases name with
    | nil => cases found
    | cons character name =>
      rw [matchWord] at found
      split at found
      · rename_i same
        obtain ⟨⟨matched, more⟩, inner, paired⟩ := Option.map_eq_some_iff.mp found
        obtain ⟨tail, rfl⟩ := Prod.mk.inj paired
        obtain rfl : matched = name := (List.cons.inj tail).2
        rw [List.map_cons, List.map_cons, same, ih inner]
      · cases found

/-- A trimmed text has nothing to trim. -/
theorem trim_trim (text : Text) : trim (trim text) = trim text := by
  unfold trim
  have front : ((text.dropWhile isSpace).rdropWhile isSpace).dropWhile isSpace =
      (text.dropWhile isSpace).rdropWhile isSpace := by
    have isPrefix := List.rdropWhile_prefix isSpace (text.dropWhile isSpace)
    cases isTrimmed : (text.dropWhile isSpace).rdropWhile isSpace with
    | nil => rfl
    | cons first more =>
      rw [isTrimmed] at isPrefix
      obtain ⟨rest, same⟩ := isPrefix
      have visible : isSpace first = false := by
        have head := List.head?_dropWhile_not isSpace text
        rw [← same] at head
        simpa using head
      rw [List.dropWhile_cons_of_neg (by simp [visible])]
  rw [front, List.rdropWhile_idempotent]

theorem trim_of_visible {text : Text} (visible : ∀ character ∈ text, isSpace character = false) :
    trim text = text := by
  have front : text.dropWhile isSpace = text := by
    cases text with
    | nil => rfl
    | cons character rest =>
      rw [List.dropWhile_cons, if_neg (by simp [visible character List.mem_cons_self])]
  rw [trim, front]
  apply List.rdropWhile_eq_self_iff.mpr
  intro nonempty blank
  rw [visible _ (List.getLast_mem nonempty)] at blank
  cases blank

/-- Trimming takes blanks from the end of what begins with a visible character. -/
theorem exists_trim_append {front body : Text} (blank : front.all isSpace = true)
    (starts : StartsVisible body) :
    ∃ tail, tail.all isSpace = true ∧ body = trim (front ++ body) ++ tail := by
  refine ⟨body.rtakeWhile isSpace, ?_, ?_⟩
  · rw [List.all_eq_true]
    intro character member
    exact List.mem_rtakeWhile_imp member
  · rw [trim, dropWhile_front blank starts, List.rdropWhile_append_rtakeWhile]

theorem startsVisible_dropWhile (text : Text) : StartsVisible (text.dropWhile isSpace) := by
  induction text with
  | nil => rfl
  | cons character rest ih =>
    rw [List.dropWhile_cons]
    split
    · exact ih
    · rename_i plain
      simp [StartsVisible, plain]

/-- A line sets the key when it is a group followed by what does not begin with a blank. -/
theorem matchField_eq_some (visible : VisibleKey key) {line group rest : Text} :
    matchField key line = some (group, rest) ↔
      line = group ++ rest ∧ IsGroup key group ∧ StartsVisible rest := by
  constructor
  · intro found
    rw [matchField] at found
    split at found
    · cases found
    · rename_i name afterName word
      obtain ⟨split, whole⟩ := matchWord_eq_some.mp word
      split at found
      · rename_i afterSign sign
        obtain ⟨rfl, rfl⟩ := Prod.mk.inj (Option.some.inj found)
        refine ⟨?_, ⟨_, name, _, _, rfl, whole, List.all_takeWhile, List.all_takeWhile,
          List.all_takeWhile⟩, startsVisible_dropWhile _⟩
        calc
          line = line.takeWhile isSpace ++ (name ++ afterName) := by
            rw [← split, List.takeWhile_append_dropWhile]
          _ = line.takeWhile isSpace ++ (name ++ (afterName.takeWhile isSpace ++ '=' :: afterSign)) := by
            rw [← sign, List.takeWhile_append_dropWhile]
          _ = _ := by
            conv_lhs => rw [← List.takeWhile_append_dropWhile (p := isSpace) (l := afterSign)]
            simp
      · cases found
  · rintro ⟨rfl, ⟨lead, name, pad, gap, rfl, whole, leadBlank, padBlank, gapBlank⟩, starts⟩
    have sign : StartsVisible ('=' :: (gap ++ rest)) := by
      simp [StartsVisible, show isSpace '=' = false by decide]
    have shape : lead ++ name ++ pad ++ '=' :: gap ++ rest =
        lead ++ (name ++ (pad ++ '=' :: (gap ++ rest))) := by simp
    have word := startsVisible_of_matchWord visible whole (pad ++ '=' :: (gap ++ rest))
    rw [shape, matchField, dropWhile_front leadBlank word, takeWhile_front leadBlank word,
      matchWord_eq_some.mpr ⟨rfl, whole⟩]
    simp only [dropWhile_front padBlank sign, takeWhile_front padBlank sign,
      takeWhile_front gapBlank starts, dropWhile_front gapBlank starts]

/-- The line a rewrite makes of one that sets the key sets it to the new value. -/
theorem matchField_rewritten (visible : VisibleKey key) {line group rest value : Text}
    (found : matchField key line = some (group, rest)) (starts : StartsVisible value) :
    matchField key (group ++ value) = some (group, value) :=
  (matchField_eq_some visible).mpr ⟨rfl, ((matchField_eq_some visible).mp found).2.1, starts⟩

theorem matchWord_self (word : Text) : matchWord word word = some (word, []) := by
  induction word with
  | nil => rfl
  | cons letter word ih => simp [matchWord, ih]

/-- The line a rewrite adds sets the key. -/
theorem matchField_added (visible : VisibleKey key) {value : Text} (starts : StartsVisible value) :
    matchField key (key ++ " = ".toList ++ value) = some (key ++ " = ".toList, value) :=
  (matchField_eq_some visible).mpr
    ⟨rfl, ⟨[], key, [' '], [' '], by simp, matchWord_self key, by decide, by decide, by decide⟩, starts⟩

end Fields

section Rewriting

variable {key value text : Text}

/-- What a rewrite makes of one line. -/
def rewriteLine (key value line : Text) : Text :=
  match matchField key line with
  | some (group, _) => group ++ value
  | none => line

/-- A value as a port's name is one: visible ASCII characters, none of which ends a line. -/
structure IsValue (value : Text) : Prop where
  visible : ∀ character ∈ value, isSpace character = false
  ascii : value.all isAscii = true

theorem IsValue.startsVisible (plain : IsValue value) : StartsVisible value := by
  cases value with
  | nil => rfl
  | cons character rest => simp [StartsVisible, plain.visible character List.mem_cons_self]

/-- What has the characters of a value in either case is a value. -/
theorem IsValue.ofSame {other : Text} (plain : IsValue value)
    (same : other.map Char.toLower = value.map Char.toLower) : IsValue other := by
  have lowered : ∀ character ∈ other, ∃ letter ∈ value, letter.toLower = character.toLower := by
    intro character member
    exact List.mem_map.mp (same ▸ List.mem_map_of_mem member)
  constructor
  · intro character member
    obtain ⟨letter, inValue, equal⟩ := lowered character member
    rw [← isSpace_toLower, ← equal, isSpace_toLower]
    exact plain.visible letter inValue
  · refine List.all_eq_true.mpr fun character member => ?_
    obtain ⟨letter, inValue, equal⟩ := lowered character member
    rw [← isAscii_toLower, ← equal, isAscii_toLower]
    exact List.all_eq_true.mp plain.ascii letter inValue

theorem isSpace_of_endsLine {character : Char} (ends : endsLine character = true) :
    isSpace character = true := by
  simp only [endsLine, Bool.or_eq_true, beq_iff_eq] at ends
  rcases ends with rfl | rfl <;> decide

theorem IsValue.plain (plain : IsValue value) :
    ∀ character ∈ value, endsLine character = false := by
  intro character member
  by_contra ends
  have blank := isSpace_of_endsLine (Bool.not_eq_false _ ▸ ends)
  exact absurd (plain.visible character member) (by simp [blank])

/-- The lines a rewrite writes. -/
def rewritten (key value text : Text) : List Text :=
  let lines := (getContent text).map (rewriteLine key value)
  if (getContent text).any (isField key) then lines else lines ++ [key ++ " = ".toList ++ value]

theorem setCfgField_eq : setCfgField key value text = setContent (rewritten key value text) := rfl

/-- A key of visible ASCII characters. -/
structure IsKey (key : Text) : Prop where
  visible : VisibleKey key
  isValue : IsValue key

theorem plain_rewriteLine (plainValue : IsValue value) (visible : VisibleKey key) {line : Text}
    (plain : ∀ character ∈ line, endsLine character = false) :
    ∀ character ∈ rewriteLine key value line, endsLine character = false := by
  intro character member
  unfold rewriteLine at member
  split at member
  · rename_i group rest found
    obtain ⟨rfl, -⟩ := (matchField_eq_some visible).mp found
    rcases List.mem_append.mp member with inGroup | inValue
    · exact plain character (List.mem_append_left _ inGroup)
    · exact plainValue.plain character inValue
  · exact plain character member

theorem ascii_rewriteLine (plainValue : IsValue value) {line : Text}
    (ascii : (match matchField key line with
      | some (group, _) => group.all isAscii
      | none => line.all isAscii) = true) :
    (rewriteLine key value line).all isAscii = true := by
  unfold rewriteLine
  split
  · rename_i group rest found
    rw [found] at ascii
    rw [List.all_append, plainValue.ascii, Bool.and_true]
    exact ascii
  · rename_i none
    rw [none] at ascii
    exact ascii

/-- The lines of a rewritten file, when everything a rewrite keeps is ASCII. -/
theorem getContent_setCfgField (isKey : IsKey key) (plainValue : IsValue value)
    (ascii : asciiOutsideValues key text = true) :
    getContent (setCfgField key value text) = rewritten key value text := by
  have linesPlain : ∀ line ∈ (getContent text).map (rewriteLine key value),
      ∀ character ∈ line, endsLine character = false := by
    intro line member
    obtain ⟨source, inText, rfl⟩ := List.mem_map.mp member
    exact plain_rewriteLine plainValue isKey.visible (plain_of_mem_getContent inText)
  have linesAscii : ∀ line ∈ (getContent text).map (rewriteLine key value),
      line.all isAscii = true := by
    intro line member
    obtain ⟨source, inText, rfl⟩ := List.mem_map.mp member
    exact ascii_rewriteLine plainValue (List.all_eq_true.mp ascii source inText)
  have addedPlain : ∀ character ∈ key ++ " = ".toList ++ value, endsLine character = false := by
    intro character member
    rcases List.mem_append.mp member with inFront | inValue
    · rcases List.mem_append.mp inFront with inKey | inSign
      · exact isKey.isValue.plain character inKey
      · have signPlain : ∀ symbol ∈ " = ".toList, endsLine symbol = false :=
          List.all_iff_forall_prop.mp (by decide)
        exact signPlain character inSign
    · exact plainValue.plain character inValue
  have addedAscii : (key ++ " = ".toList ++ value).all isAscii = true := by
    rw [List.all_append, List.all_append, isKey.isValue.ascii, plainValue.ascii]
    decide
  rw [setCfgField_eq]
  refine getContent_setContent ?_ ?_
  · unfold rewritten
    split
    · exact linesPlain
    · exact List.forall_mem_append.mpr ⟨linesPlain, List.forall_mem_singleton.mpr addedPlain⟩
  · unfold rewritten
    split
    · exact linesAscii
    · exact List.forall_mem_append.mpr ⟨linesAscii, List.forall_mem_singleton.mpr addedAscii⟩

theorem matchField_rewriteLine (visible : VisibleKey key) (starts : StartsVisible value)
    (line : Text) :
    matchField key (rewriteLine key value line) =
      (matchField key line).map fun found => (found.1, value) := by
  unfold rewriteLine
  split
  · rename_i group rest found
    rw [matchField_rewritten visible found starts, found]
    rfl
  · rename_i none
    rw [none]
    rfl

/-- A rewrite changes no line of another key. -/
theorem otherLines_setCfgField (isKey : IsKey key) (plainValue : IsValue value)
    (ascii : asciiOutsideValues key text = true) :
    otherLines key (setCfgField key value text) = otherLines key text := by
  have starts := plainValue.startsVisible
  have kept : ((getContent text).map (rewriteLine key value)).filter (fun line => !isField key line) =
      (getContent text).filter fun line => !isField key line := by
    rw [List.filter_map]
    have sameLines : ((fun line => !isField key line) ∘ rewriteLine key value) =
        fun line => !isField key line := by
      funext line
      simp [isField, matchField_rewriteLine isKey.visible starts]
    rw [sameLines]
    refine (List.map_congr_left fun line member => ?_).trans (List.map_id _)
    have other := (List.mem_filter.mp member).2
    rw [isField, Bool.not_eq_true', Option.isSome_eq_false_iff, Option.isNone_iff_eq_none] at other
    rw [rewriteLine, other]
    rfl
  have added : isField key (key ++ " = ".toList ++ value) = true := by
    rw [isField, matchField_added isKey.visible starts]
    rfl
  unfold otherLines
  rw [getContent_setCfgField isKey plainValue ascii, rewritten]
  split
  · exact kept
  · rw [List.filter_append, kept, List.filter_singleton, added]
    simp

theorem lastValue_eq (key text : Text) :
    lastValue key text = ((getContent text).filterMap (readValue key)).getLast? := by
  unfold lastValue
  induction getContent text using List.reverseRecOn with
  | nil => rfl
  | append_singleton lines line ih =>
    rw [List.foldl_append, List.filterMap_append, List.getLast?_append, ← ih]
    cases readable : readValue key line <;> simp [readable]

theorem readValue_of_matchField {line group : Text} (found : matchField key line = some (group, value))
    (visible : ∀ character ∈ value, isSpace character = false) :
    readValue key line = some value := by
  have taken : value.takeWhile (fun character => !isSpace character) = value :=
    List.takeWhile_eq_self_iff.mpr fun character member => by simp [visible character member]
  have dropped : value.dropWhile (fun character => !isSpace character) = [] :=
    List.dropWhile_eq_nil_iff.mpr fun character member => by simp [visible character member]
  simp [readValue, found, taken, dropped]

/-- Read back, a rewritten file has the new value. -/
theorem lastValue_setCfgField (isKey : IsKey key) (plainValue : IsValue value)
    (ascii : asciiOutsideValues key text = true) :
    lastValue key (setCfgField key value text) = some value := by
  have starts := plainValue.startsVisible
  have added : readValue key (key ++ " = ".toList ++ value) = some value :=
    readValue_of_matchField (matchField_added isKey.visible starts) plainValue.visible
  have readable : ∀ line : Text, readValue key (rewriteLine key value line) =
      if isField key line then some value else none := by
    intro line
    have field := matchField_rewriteLine isKey.visible starts line
    unfold isField
    cases found : matchField key line with
    | none => simp [readValue, field, found]
    | some pair =>
      rw [found] at field
      rw [readValue_of_matchField field plainValue.visible]
      rfl
  rw [lastValue_eq, getContent_setCfgField isKey plainValue ascii, rewritten]
  split
  · rename_i any
    obtain ⟨line, member, isLine⟩ := List.any_eq_true.mp any
    have allSame : ∀ found ∈ ((getContent text).map (rewriteLine key value)).filterMap (readValue key),
        found = value := by
      intro found member
      obtain ⟨source, inLines, reads⟩ := List.mem_filterMap.mp member
      obtain ⟨original, -, rfl⟩ := List.mem_map.mp inLines
      rw [readable original] at reads
      split at reads
      · exact (Option.some.inj reads).symm
      · cases reads
    have someLine : value ∈ ((getContent text).map (rewriteLine key value)).filterMap (readValue key) :=
      List.mem_filterMap.mpr ⟨_, List.mem_map_of_mem member, by rw [readable, if_pos isLine]⟩
    rw [List.getLast?_eq_some_getLast (List.ne_nil_of_mem someLine)]
    exact congrArg some (allSame _ (List.getLast_mem _))
  · have last : [key ++ " = ".toList ++ value].filterMap (readValue key) = [value] := by
      rw [List.filterMap_cons, added, List.filterMap_nil]
    rw [List.filterMap_append, last, List.getLast?_concat]

/-- The value a file gives a key is the one read, when it has no blank in it. -/
theorem lastValue_of_effectiveValue (effective : effectiveValue key text = some value)
    (visible : ∀ character ∈ value, isSpace character = false) :
    lastValue key text = some value := by
  obtain ⟨⟨group, rest⟩, last, trimmed⟩ := Option.map_eq_some_iff.mp effective
  have readRest : (if (rest.dropWhile fun character => !isSpace character).all isSpace then
      some (rest.takeWhile fun character => !isSpace character) else none) = some value := by
    have parts : rest = value ++ rest.rtakeWhile isSpace := by
      rw [← trimmed]
      exact List.rdropWhile_append_rtakeWhile.symm
    have front : value.all (fun character => !isSpace character) = true :=
      List.all_eq_true.mpr fun character member => by simp [visible character member]
    have blank : (rest.rtakeWhile isSpace).all isSpace = true :=
      List.all_eq_true.mpr fun character member => List.mem_rtakeWhile_imp member
    have stops : (rest.rtakeWhile isSpace).takeWhile (fun character => !isSpace character) = [] := by
      cases tail : rest.rtakeWhile isSpace with
      | nil => rfl
      | cons character more =>
        rw [tail, List.all_cons, Bool.and_eq_true] at blank
        simp [blank.1]
    rw [parts, dropWhile_front front stops, takeWhile_front front stops, if_pos blank]
  have readLines : readValue key = fun line => (matchField key line).bind fun found =>
      if (found.2.dropWhile fun character => !isSpace character).all isSpace then
        some (found.2.takeWhile fun character => !isSpace character)
      else none := by
    funext line
    unfold readValue
    cases matchField key line <;> rfl
  rw [lastValue_eq, readLines, ← List.filterMap_filterMap]
  obtain ⟨front, shape⟩ := List.getLast?_eq_some_iff.mp last
  have lastRead : [(group, rest)].filterMap (fun found : Text × Text =>
      if (found.2.dropWhile fun character => !isSpace character).all isSpace then
        some (found.2.takeWhile fun character => !isSpace character)
      else none) = [value] := by
    rw [List.filterMap_cons, readRest, List.filterMap_nil]
  rw [shape, List.filterMap_append, lastRead, List.getLast?_concat]

end Rewriting

end MastProvisioning.PowerShell.SettingsFile
