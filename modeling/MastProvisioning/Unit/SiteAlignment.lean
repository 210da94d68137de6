import MastProvisioning.PowerShell.SettingsFile
import Mathlib

/-!
# Alignment of the PWI4 site

The latitude, longitude and height of a unit stand in its `config.toml` and again in
`PWI4.cfg`. The provider reads them from the first, writes the three texts as they
stand into the second, and reads the second back to compare.

The writer takes a key in any case, the reader only as it is spelled here; and the
writer takes a text with blanks inside its quotes, which the reader drops.
-/

namespace MastProvisioning.Unit.SiteAlignment

open MastProvisioning.PowerShell.SettingsFile
open MastProvisioning.Collections.Patterns (dropWhile_front)

section Numbers

/-- Digits as `[double]::TryParse` takes them. -/
def digitsValue (digits : Text) : Nat :=
  digits.foldl (fun value digit => value * 10 + (digit.toNat - '0'.toNat)) 0

def parseDigits (text : Text) : Option Nat :=
  if text ≠ [] ∧ text.all Char.isDigit then some (digitsValue text) else none

/-- What follows the digits: nothing, or a power of ten. -/
def parseExponent : Text → Option Int
  | [] => some 0
  | mark :: rest =>
    if mark = 'e' ∨ mark = 'E' then
      match rest with
      | '-' :: digits => (parseDigits digits).map fun power => -Int.ofNat power
      | '+' :: digits => (parseDigits digits).map Int.ofNat
      | digits => (parseDigits digits).map Int.ofNat
    else none

/-- A number that a text denotes, before it is rounded to a `double`. -/
inductive SiteNumber where
  | decimal (negative : Bool) (digits : Nat) (power : Int)
  | infinite (negative : Bool)
  | notANumber
deriving DecidableEq, Repr

/-- The magnitude is rounded to no infinity, which `TryParse` refuses. -/
def inRange (digits : Nat) (power : Int) : Bool :=
  let limit := (2 ^ 54 - 1) * 2 ^ 970
  if 0 ≤ power then decide (digits * 10 ^ power.toNat < limit)
  else decide (digits < limit * 10 ^ (-power).toNat)

def parseMagnitude (negative : Bool) (whole fraction rest : Text) : Option SiteNumber :=
  if whole ++ fraction = [] then none
  else
    match parseExponent rest with
    | none => none
    | some exponent =>
      let digits := digitsValue (whole ++ fraction)
      let power := exponent - fraction.length
      if inRange digits power then some (.decimal negative digits power) else none

def parseUnsigned (negative : Bool) (text : Text) : Option SiteNumber :=
  match text.dropWhile Char.isDigit with
  | '.' :: rest =>
    parseMagnitude negative (text.takeWhile Char.isDigit) (rest.takeWhile Char.isDigit)
      (rest.dropWhile Char.isDigit)
  | rest => parseMagnitude negative (text.takeWhile Char.isDigit) [] rest

def parseSigned : Text → Option SiteNumber
  | '-' :: rest => parseUnsigned true rest
  | '+' :: rest => parseUnsigned false rest
  | text => parseUnsigned false text

/-- `[double]::TryParse` of a text without blanks around it, in the invariant culture and
the `Float` style. -/
def tryParse (text : Text) : Option SiteNumber :=
  match parseSigned text with
  | some number => some number
  | none =>
    if text = "Infinity".toList then some (.infinite false)
    else if text = "-Infinity".toList then some (.infinite true)
    else if text = "NaN".toList then some .notANumber
    else none

/-- `.Trim('"')`. -/
def trimQuotes (text : Text) : Text :=
  (text.dropWhile (· == '"')).rdropWhile (· == '"')

/-- `ConvertTo-MastSiteNumber`. An empty text is refused as an argument. -/
def convertToMastSiteNumber (what : String) (text : Text) : Except String SiteNumber :=
  if text = [] then
    .error "Cannot bind argument to parameter 'Text' because it is an empty string."
  else
    match tryParse (trim text) with
    | some number => .ok number
    | none => .error (what ++ " is not a number: '" ++ String.ofList text ++ "'")

end Numbers

section Operations

/-- The fields of a site, as they are written. -/
inductive SiteField where
  | latitude
  | longitude
  | height
deriving DecidableEq, Repr

/-- The key of a field in `PWI4.cfg`. -/
def SiteField.key : SiteField → Text
  | .latitude => "Latitude".toList
  | .longitude => "Longitude".toList
  | .height => "HeightMeters".toList

/-- The key of a field in `config.toml`. -/
def SiteField.tomlKey : SiteField → Text
  | .latitude => "latitude".toList
  | .longitude => "longitude".toList
  | .height => "elevation".toList

def fields : List SiteField := [.latitude, .longitude, .height]

/-- One value for each field. -/
structure Site (α : Type) where
  latitude : α
  longitude : α
  height : α
deriving DecidableEq, Repr

def Site.get {α : Type} (site : Site α) : SiteField → α
  | .latitude => site.latitude
  | .longitude => site.longitude
  | .height => site.height

/-- The first field that fails ends it. -/
def forFields {α : Type} (read : SiteField → Except String α) : Except String (Site α) := do
  let latitude ← read .latitude
  let longitude ← read .longitude
  let height ← read .height
  return { latitude, longitude, height }

/-- A key as it is spelled, and what follows it. -/
def afterKey (key text : Text) : Option Text :=
  if key.isPrefixOf text then some (text.drop key.length) else none

/-- `^\s*key\s*=\s*(.+?)\s*$` at the start of a line: the value ends where its line does,
and one of blanks alone is left of a key that nothing follows. -/
def matchToml (key text : Text) : Option Text :=
  match afterKey key (text.dropWhile isSpace) with
  | none => none
  | some afterName =>
    match afterName.dropWhile isSpace with
    | '=' :: afterSign =>
      match afterSign.dropWhile isSpace with
      | [] => if afterSign.all (· == '\n') then none else some []
      | rest => some ((rest.takeWhile (· != '\n')).rdropWhile isSpace)
    | _ => none

/-- The text of a key of `config.toml`, from the first line that has one. -/
def tomlText (path : String) (content : Text) (field : SiteField) : Except String Text :=
  match (content :: laterLines content).findSome? (matchToml field.tomlKey) with
  | none => .error (path ++ " has no '" ++ String.ofList field.tomlKey ++ "' key")
  | some value => .ok (trimQuotes (trim value))

/-- `Get-MastTomlLocation`: the texts and the numbers. -/
def getMastTomlLocation (path : String) (content : Text) :
    Except String (Site Text × Site SiteNumber) := do
  let texts ← forFields (tomlText path content)
  let numbers ← forFields fun field =>
    convertToMastSiteNumber (path ++ " " ++ String.ofList field.tomlKey) (texts.get field)
  return (texts, numbers)

/-- `^\s*Key\s*=\s*(.*?)\s*$`, the key as it is spelled. -/
def matchSpelled (key line : Text) : Option Text :=
  match afterKey key (line.dropWhile isSpace) with
  | none => none
  | some afterName =>
    match afterName.dropWhile isSpace with
    | '=' :: afterSign => some (trim afterSign)
    | _ => none

/-- The field that a line gives, and its value. -/
def matchSiteLine (line : Text) : Option (SiteField × Text) :=
  fields.findSome? fun field => (matchSpelled field.key line).map fun value => (field, value)

/-- The table of fields, of which a later line replaces an earlier one. -/
def readFields (text : Text) : SiteField → Option Text :=
  (getContent text).foldl
    (fun found line =>
      match matchSiteLine line with
      | some (field, value) => Function.update found field (some value)
      | none => found)
    fun _ => none

/-- `Get-MastPwi4CfgSite`. -/
def getMastPwi4CfgSite (path : String) (text : Text) : Except String (Site SiteNumber) := do
  let texts ← forFields fun field =>
    match readFields text field with
    | some value => .ok value
    | none => .error (path ++ " has no " ++ String.ofList field.key ++ " field")
  forFields fun field =>
    convertToMastSiteNumber (path ++ " " ++ String.ofList field.key) (texts.get field)

/-- `Set-MastPwi4CfgField`. -/
def setMastPwi4CfgField (field : SiteField) (value text : Text) : Text :=
  setCfgField field.key value text

/-- The fields written one after another. -/
def writeFields (texts : Site Text) (order : List SiteField) (text : Text) : Text :=
  order.foldl (fun current field => setMastPwi4CfgField field (texts.get field) current) text

/-- The three writes of the provider. -/
def align (texts : Site Text) (text : Text) : Text :=
  writeFields texts fields text

end Operations

section Purpose

/-- A line that gives a field of a site, its key in any case. -/
def isSiteLine (line : Text) : Bool :=
  fields.any fun field => isField field.key line

/-- What alignment is for: nothing else in the file changes, a second one changes
nothing, the order does not matter, and the reader finds what was written. -/
structure Converges (path : String) (cfg : Text) (texts : Site Text) (numbers : Site SiteNumber) :
    Prop where
  otherLines : (getContent (align texts cfg)).filter (fun line => !isSiteLine line) =
    (getContent cfg).filter fun line => !isSiteLine line
  settles : align texts (align texts cfg) = align texts cfg
  commutes : (∀ field : SiteField, (getContent cfg).any (isField field.key) = true) →
    ∀ order, order.Perm fields → writeFields texts order cfg = align texts cfg
  readsTexts : ∀ field : SiteField, readFields (align texts cfg) field = some (texts.get field)
  readsNumbers : getMastPwi4CfgSite path (align texts cfg) = .ok numbers

/-- The texts have no blanks around them, and a key that the file has in some case it has
as it is spelled. -/
structure Alignable (cfg : Text) (texts : Site Text) : Prop where
  trimmed : ∀ field : SiteField, trim (texts.get field) = texts.get field
  spelled : ∀ field : SiteField, (getContent cfg).any (isField field.key) = true →
    (getContent cfg).any (fun line => (matchSpelled field.key line).isSome) = true

end Purpose

section Numbers

variable {text : Text}

/-- Every character of a number is a visible one of ASCII. -/
def Visible (text : Text) : Prop :=
  ∀ character ∈ text, 0x20 < character.toNat ∧ character.toNat < 0x80

theorem isDigit_visible {character : Char} (digit : character.isDigit = true) :
    0x20 < character.toNat ∧ character.toNat < 0x80 := by
  simp only [Char.isDigit, Bool.and_eq_true, decide_eq_true_eq] at digit
  have low : 48 ≤ character.toNat := digit.1
  have high : character.toNat ≤ 57 := digit.2
  omega

theorem visible_of_digits (digits : text.all Char.isDigit = true) : Visible text :=
  fun character member => isDigit_visible (List.all_eq_true.mp digits character member)

theorem Visible.cons {character : Char} (rest : Visible text)
    (here : 0x20 < character.toNat ∧ character.toNat < 0x80) : Visible (character :: text) :=
  List.forall_mem_cons.mpr ⟨here, rest⟩

theorem visible_of_parseDigits (parsed : (parseDigits text).isSome = true) : Visible text := by
  apply visible_of_digits
  unfold parseDigits at parsed
  split at parsed
  · rename_i both
    exact both.2
  · cases parsed

theorem visible_of_parseExponent (parsed : (parseExponent text).isSome = true) :
    Visible text := by
  revert parsed
  fun_cases parseExponent text with
  | case1 => exact fun _ _ member => absurd member List.not_mem_nil
  | case2 mark isMark digits =>
    intro parsed
    rw [Option.isSome_map] at parsed
    apply Visible.cons ((visible_of_parseDigits parsed).cons (by decide))
    rcases isMark with rfl | rfl <;> decide
  | case3 mark isMark digits =>
    intro parsed
    rw [Option.isSome_map] at parsed
    apply Visible.cons ((visible_of_parseDigits parsed).cons (by decide))
    rcases isMark with rfl | rfl <;> decide
  | case4 mark isMark digits =>
    intro parsed
    rw [Option.isSome_map] at parsed
    apply Visible.cons (visible_of_parseDigits parsed)
    rcases isMark with rfl | rfl <;> decide
  | case5 => exact fun parsed => absurd parsed (by simp)

theorem visible_of_parseMagnitude {negative : Bool} {whole fraction rest : Text}
    (parsed : (parseMagnitude negative whole fraction rest).isSome = true) :
    whole ++ fraction ≠ [] ∧ Visible rest := by
  unfold parseMagnitude at parsed
  split at parsed
  · cases parsed
  · rename_i digits
    split at parsed
    · cases parsed
    · rename_i exponent found
      exact ⟨digits, visible_of_parseExponent (by rw [found]; rfl)⟩

theorem visible_of_parseUnsigned {negative : Bool}
    (parsed : (parseUnsigned negative text).isSome = true) : text ≠ [] ∧ Visible text := by
  have whole : Visible (text.takeWhile Char.isDigit) := visible_of_digits List.all_takeWhile
  have parts : text.takeWhile Char.isDigit ++ text.dropWhile Char.isDigit = text :=
    List.takeWhile_append_dropWhile
  unfold parseUnsigned at parsed
  split at parsed
  · rename_i rest point
    obtain ⟨-, after⟩ := visible_of_parseMagnitude parsed
    have fraction : Visible (rest.takeWhile Char.isDigit) := visible_of_digits List.all_takeWhile
    have restVisible : Visible rest := by
      rw [← List.takeWhile_append_dropWhile (p := Char.isDigit) (l := rest)]
      exact List.forall_mem_append.mpr ⟨fraction, after⟩
    rw [← parts, point]
    exact ⟨by simp, List.forall_mem_append.mpr ⟨whole, restVisible.cons (by decide)⟩⟩
  · obtain ⟨digits, after⟩ := visible_of_parseMagnitude parsed
    rw [List.append_nil] at digits
    rw [← parts]
    exact ⟨fun empty => digits (List.append_eq_nil_iff.mp empty).1,
      List.forall_mem_append.mpr ⟨whole, after⟩⟩

theorem visible_of_parseSigned (parsed : (parseSigned text).isSome = true) :
    text ≠ [] ∧ Visible text := by
  unfold parseSigned at parsed
  split at parsed
  · exact ⟨by simp, (visible_of_parseUnsigned parsed).2.cons (by decide)⟩
  · exact ⟨by simp, (visible_of_parseUnsigned parsed).2.cons (by decide)⟩
  · exact visible_of_parseUnsigned parsed

theorem visible_of_all
    (all : text.all (fun character =>
      decide (0x20 < character.toNat) && decide (character.toNat < 0x80)) = true) :
    Visible text := by
  intro character member
  simpa using List.all_eq_true.mp all character member

/-- A number has characters, and none of them is a blank or outside ASCII. -/
theorem visible_of_tryParse {number : SiteNumber} (parsed : tryParse text = some number) :
    text ≠ [] ∧ Visible text := by
  unfold tryParse at parsed
  split at parsed
  · rename_i found
    exact visible_of_parseSigned (by rw [found]; rfl)
  · split at parsed
    · rename_i isSymbol
      exact ⟨by rw [isSymbol]; decide, visible_of_all (by rw [isSymbol]; decide)⟩
    · split at parsed
      · rename_i isSymbol
        exact ⟨by rw [isSymbol]; decide, visible_of_all (by rw [isSymbol]; decide)⟩
      · split at parsed
        · rename_i isSymbol
          exact ⟨by rw [isSymbol]; decide, visible_of_all (by rw [isSymbol]; decide)⟩
        · cases parsed

theorem Visible.isValue (visible : Visible text) : IsValue text where
  visible := fun character member =>
    isSpace_of_visible (visible character member).1 (visible character member).2
  ascii := List.all_eq_true.mpr fun character member =>
    decide_eq_true (visible character member).2

theorem convert_eq_ok {what : String} {number : SiteNumber} :
    convertToMastSiteNumber what text = .ok number ↔
      text ≠ [] ∧ tryParse (trim text) = some number := by
  unfold convertToMastSiteNumber
  split
  · rename_i empty
    simp [empty]
  · rename_i filled
    split <;> rename_i found <;> simp [filled, found]

end Numbers

section Keys

variable {field other : SiteField} {line value : Text}

theorem SiteField.isKey (field : SiteField) : IsKey field.key where
  visible := by cases field <;> exact ⟨_, _, rfl, by decide⟩
  isValue := by cases field <;> exact (visible_of_all (by decide)).isValue

/-- No key begins with another one, in any case. -/
theorem not_prefix_of_ne (distinct : field ≠ other) :
    ¬field.key.map Char.toLower <+: other.key.map Char.toLower := by
  cases field <;> cases other <;> first | exact absurd rfl distinct | decide

theorem prefix_of_isField {key : Text} (sets : isField key line = true) :
    key.map Char.toLower <+: (line.dropWhile isSpace).map Char.toLower := by
  unfold isField matchField at sets
  split at sets
  · cases sets
  · rename_i name afterName found
    obtain ⟨shape, whole⟩ := matchWord_eq_some.mp found
    rw [shape, List.map_append, toLower_of_matchWord whole]
    exact List.prefix_append _ _

/-- A line sets one field at most. -/
theorem not_isField_of_ne (distinct : field ≠ other) (sets : isField other.key line = true) :
    isField field.key line = false := by
  rw [← Bool.not_eq_true]
  intro also
  rcases List.prefix_or_prefix_of_prefix (prefix_of_isField also) (prefix_of_isField sets) with
    first | second
  · exact not_prefix_of_ne distinct first
  · exact not_prefix_of_ne distinct.symm second

theorem rewriteLine_of_not_isField {key : Text} (not : isField key line = false) :
    rewriteLine key value line = line := by
  rw [isField, Option.isSome_eq_false_iff, Option.isNone_iff_eq_none] at not
  rw [rewriteLine, not]

/-- A rewrite changes the field of no line. -/
theorem isField_rewriteLine (plain : IsValue value) :
    isField field.key (rewriteLine other.key value line) = isField field.key line := by
  have same : isField other.key (rewriteLine other.key value line) = isField other.key line := by
    rw [isField, matchField_rewriteLine other.isKey.visible plain.startsVisible, Option.isSome_map]
    rfl
  cases sets : isField other.key line with
  | false => rw [rewriteLine_of_not_isField sets]
  | true =>
    by_cases distinct : field = other
    · rw [distinct, same]
    · rw [not_isField_of_ne distinct sets, not_isField_of_ne distinct (same.trans sets)]

/-- The line a rewrite adds. -/
def addedLine (field : SiteField) (value : Text) : Text :=
  field.key ++ " = ".toList ++ value

theorem isField_addedLine (plain : IsValue value) :
    isField field.key (addedLine other value) = decide (field = other) := by
  have own : isField other.key (addedLine other value) = true := by
    rw [isField, addedLine, matchField_added other.isKey.visible plain.startsVisible]
    rfl
  by_cases same : field = other
  · rw [same, own, decide_eq_true rfl]
  · rw [not_isField_of_ne same own, decide_eq_false same]

/-- Two rewrites of a line do not depend on their order. -/
theorem rewriteLine_comm {second : Text} (distinct : field ≠ other) (plain : IsValue value)
    (plainSecond : IsValue second) :
    rewriteLine field.key value (rewriteLine other.key second line) =
      rewriteLine other.key second (rewriteLine field.key value line) := by
  cases sets : isField other.key line with
  | false =>
    have kept : isField other.key (rewriteLine field.key value line) = false := by
      rw [isField_rewriteLine plain, sets]
    rw [rewriteLine_of_not_isField sets, rewriteLine_of_not_isField kept]
  | true =>
    have not := not_isField_of_ne distinct sets
    have kept : isField field.key (rewriteLine other.key second line) = false := by
      rw [isField_rewriteLine plainSecond, not]
    rw [rewriteLine_of_not_isField kept, rewriteLine_of_not_isField not]

theorem rewriteLine_rewriteLine (plain : IsValue value) :
    rewriteLine field.key value (rewriteLine field.key value line) =
      rewriteLine field.key value line := by
  have found := matchField_rewriteLine field.isKey.visible plain.startsVisible line
  cases original : matchField field.key line with
  | none =>
    have not : isField field.key line = false := by rw [isField, original]; rfl
    rw [rewriteLine_of_not_isField not, rewriteLine_of_not_isField not]
  | some parts =>
    rw [original, Option.map_some] at found
    conv_lhs => rw [rewriteLine, found]
    rw [rewriteLine, original]

theorem rewriteLine_addedLine (plain : IsValue value) :
    rewriteLine field.key value (addedLine field value) = addedLine field value := by
  rw [rewriteLine, addedLine, matchField_added field.isKey.visible plain.startsVisible]

end Keys

section Lines

variable {field other : SiteField} {value : Text} {lines : List Text}

/-- What a rewrite makes of the lines of a file. -/
def writeLines (field : SiteField) (value : Text) (lines : List Text) : List Text :=
  let written := lines.map (rewriteLine field.key value)
  if lines.any (isField field.key) then written else written ++ [addedLine field value]

theorem any_map_rewriteLine (plain : IsValue value) :
    (lines.map (rewriteLine other.key value)).any (isField field.key) =
      lines.any (isField field.key) := by
  rw [List.any_map]
  exact congrArg lines.any (funext fun line => isField_rewriteLine plain)

theorem any_writeLines (plain : IsValue value) :
    (writeLines other value lines).any (isField field.key) =
      (decide (field = other) || lines.any (isField field.key)) := by
  unfold writeLines
  split
  · rename_i present
    rw [any_map_rewriteLine plain]
    by_cases same : field = other
    · rw [same, present, Bool.or_true]
    · rw [decide_eq_false same, Bool.false_or]
  · rw [List.any_append, any_map_rewriteLine plain, List.any_cons, List.any_nil, Bool.or_false,
      isField_addedLine plain, Bool.or_comm]

/-- A rewrite keeps every line of no field. -/
theorem otherLines_writeLines (plain : IsValue value) :
    (writeLines field value lines).filter (fun line => !isSiteLine line) =
      lines.filter fun line => !isSiteLine line := by
  have sameClass : ∀ line, isSiteLine (rewriteLine field.key value line) = isSiteLine line := by
    intro line
    exact congrArg fields.any (funext fun other => isField_rewriteLine plain)
  have kept : (lines.map (rewriteLine field.key value)).filter (fun line => !isSiteLine line) =
      lines.filter fun line => !isSiteLine line := by
    induction lines with
    | nil => rfl
    | cons line lines ih =>
      rw [List.map_cons, List.filter_cons, List.filter_cons, ih, sameClass]
      split
      · rename_i none
        have not : isField field.key line = false := by
          rw [Bool.not_eq_true', isSiteLine, List.any_eq_false] at none
          exact Bool.not_eq_true _ ▸ none field (by cases field <;> decide)
        rw [rewriteLine_of_not_isField not]
      · rfl
  have added : isSiteLine (addedLine field value) = true :=
    List.any_eq_true.mpr ⟨field, by cases field <;> decide, by
      rw [isField_addedLine plain, decide_eq_true rfl]⟩
  unfold writeLines
  split
  · exact kept
  · rw [List.filter_append, kept, List.filter_singleton, added]
    simp

/-- The field is there, and every line of it has the value. -/
structure Settled (field : SiteField) (value : Text) (lines : List Text) : Prop where
  present : lines.any (isField field.key) = true
  same : ∀ line ∈ lines, rewriteLine field.key value line = line

theorem Settled.writeLines_eq (settled : Settled field value lines) :
    writeLines field value lines = lines := by
  rw [writeLines, if_pos settled.present]
  exact (List.map_congr_left settled.same).trans (List.map_id' lines)

theorem settled_writeLines (plain : IsValue value) :
    Settled field value (writeLines field value lines) where
  present := by rw [any_writeLines plain, decide_eq_true rfl, Bool.true_or]
  same := by
    have written : ∀ line ∈ lines.map (rewriteLine field.key value),
        rewriteLine field.key value line = line := by
      intro line member
      obtain ⟨source, -, rfl⟩ := List.mem_map.mp member
      exact rewriteLine_rewriteLine plain
    unfold writeLines
    split
    · exact written
    · exact List.forall_mem_append.mpr
        ⟨written, List.forall_mem_singleton.mpr (rewriteLine_addedLine plain)⟩

theorem Settled.writeLines_other {second : Text} (settled : Settled field value lines)
    (distinct : field ≠ other) (plain : IsValue value) (plainSecond : IsValue second) :
    Settled field value (writeLines other second lines) where
  present := by rw [any_writeLines plainSecond, settled.present, Bool.or_true]
  same := by
    have written : ∀ line ∈ lines.map (rewriteLine other.key second),
        rewriteLine field.key value line = line := by
      intro line member
      obtain ⟨source, inLines, rfl⟩ := List.mem_map.mp member
      rw [rewriteLine_comm distinct plain plainSecond, settled.same source inLines]
    have added : rewriteLine field.key value (addedLine other second) = addedLine other second := by
      apply rewriteLine_of_not_isField
      rw [isField_addedLine plainSecond, decide_eq_false distinct]
    unfold writeLines
    split
    · exact written
    · exact List.forall_mem_append.mpr ⟨written, List.forall_mem_singleton.mpr added⟩

end Lines

section Writes

variable {texts : Site Text} {order : List SiteField} {field : SiteField} {lines : List Text}
  {text : Text}

/-- What a sequence of writes makes of the lines of a file. -/
def writeAll (texts : Site Text) (order : List SiteField) (lines : List Text) : List Text :=
  order.foldl (fun current field => writeLines field (texts.get field) current) lines

theorem writeAll_cons :
    writeAll texts (field :: order) lines =
      writeAll texts order (writeLines field (texts.get field) lines) := rfl

/-- Texts that a line can have: visible ASCII characters. -/
def Plain (texts : Site Text) : Prop :=
  ∀ field, IsValue (texts.get field)

theorem mem_of_mem_getContent {line : Text} (member : line ∈ getContent text) :
    ∀ character ∈ line, character ∈ text := by
  fun_induction getContent text generalizing line with
  | case1 => cases member
  | case2 rest ih =>
    rcases List.mem_cons.mp member with rfl | later
    · simp
    · exact fun character inLine =>
        List.mem_cons_of_mem _ (List.mem_cons_of_mem _ (ih later character inLine))
  | case3 character rest _ _ ih =>
    rcases List.mem_cons.mp member with rfl | later
    · simp
    · exact fun symbol inLine => List.mem_cons_of_mem _ (ih later symbol inLine)
  | case4 character rest _ _ none ih =>
    rw [List.mem_singleton] at member
    subst member
    simp
  | case5 character rest _ _ first lines found ih =>
    rw [found] at ih
    rcases List.mem_cons.mp member with rfl | later
    · intro symbol inLine
      rcases List.mem_cons.mp inLine with rfl | inFirst
      · exact List.mem_cons_self
      · exact List.mem_cons_of_mem _ (ih List.mem_cons_self symbol inFirst)
    · exact fun symbol inLine =>
        List.mem_cons_of_mem _ (ih (List.mem_cons_of_mem _ later) symbol inLine)

/-- Of a text of ASCII a rewrite keeps only ASCII. -/
theorem asciiOutsideValues_of_ascii (ascii : text.all isAscii = true) (field : SiteField) :
    asciiOutsideValues field.key text = true := by
  refine List.all_eq_true.mpr fun line member => ?_
  have lineAscii : line.all isAscii = true :=
    List.all_eq_true.mpr fun character inLine =>
      List.all_eq_true.mp ascii character (mem_of_mem_getContent member character inLine)
  split
  · rename_i group rest found
    rw [((matchField_eq_some field.isKey.visible).mp found).1, List.all_append,
      Bool.and_eq_true] at lineAscii
    exact lineAscii.1
  · exact lineAscii

theorem ascii_setContent (lines : List Text) : (setContent lines).all isAscii = true := by
  refine List.all_eq_true.mpr fun character member => ?_
  obtain ⟨line, -, inLine⟩ := List.mem_flatMap.mp member
  rcases List.mem_append.mp inLine with written | ending
  · obtain ⟨symbol, -, rfl⟩ := List.mem_map.mp written
    unfold toAscii
    split
    · assumption
    · decide
  · exact List.all_eq_true.mp (by decide : (['\r', '\n'] : Text).all isAscii = true) character ending

theorem getContent_setMastPwi4CfgField (plain : Plain texts) (ascii : text.all isAscii = true) :
    getContent (setMastPwi4CfgField field (texts.get field) text) =
      writeLines field (texts.get field) (getContent text) :=
  getContent_setCfgField field.isKey (plain field) (asciiOutsideValues_of_ascii ascii field)

/-- The lines after a sequence of writes, by induction on the sequence: what a write
leaves is ASCII again. -/
theorem getContent_writeFields (plain : Plain texts) (ascii : text.all isAscii = true) :
    getContent (writeFields texts order text) = writeAll texts order (getContent text) := by
  induction order generalizing text with
  | nil => rfl
  | cons field order ih =>
    calc
      getContent (writeFields texts (field :: order) text) =
          writeAll texts order (getContent (setMastPwi4CfgField field (texts.get field) text)) :=
        ih (ascii_setContent _)
      _ = writeAll texts (field :: order) (getContent text) := by
        rw [getContent_setMastPwi4CfgField plain ascii, writeAll_cons]

/-- A file that was written at all is what its lines make up. -/
theorem writeFields_eq (plain : Plain texts) (ascii : text.all isAscii = true) (writes : order ≠ []) :
    writeFields texts order text = setContent (writeAll texts order (getContent text)) := by
  induction order generalizing text with
  | nil => exact absurd rfl writes
  | cons field order ih =>
    cases order with
    | nil => rfl
    | cons next order =>
      calc
        writeFields texts (field :: next :: order) text =
            setContent (writeAll texts (next :: order)
              (getContent (setMastPwi4CfgField field (texts.get field) text))) :=
          ih (ascii_setContent _) (List.cons_ne_nil _ _)
        _ = _ := by rw [getContent_setMastPwi4CfgField plain ascii, ← writeAll_cons]

theorem otherLines_writeAll (plain : Plain texts) :
    (writeAll texts order lines).filter (fun line => !isSiteLine line) =
      lines.filter fun line => !isSiteLine line := by
  induction order generalizing lines with
  | nil => rfl
  | cons field order ih => rw [writeAll_cons, ih, otherLines_writeLines (plain field)]

theorem Settled.afterAll (plain : Plain texts) (settled : Settled field (texts.get field) lines) :
    Settled field (texts.get field) (writeAll texts order lines) := by
  induction order generalizing lines with
  | nil => exact settled
  | cons other order ih =>
    rw [writeAll_cons]
    apply ih
    by_cases same : field = other
    · rw [← same, settled.writeLines_eq]
      exact settled
    · exact settled.writeLines_other same (plain field) (plain other)

theorem settled_writeAll (plain : Plain texts) (member : field ∈ order) :
    Settled field (texts.get field) (writeAll texts order lines) := by
  induction order generalizing lines with
  | nil => cases member
  | cons other order ih =>
    rw [writeAll_cons]
    rcases List.mem_cons.mp member with rfl | later
    · exact (settled_writeLines (plain field)).afterAll plain
    · exact ih later

theorem writeAll_of_settled (settled : ∀ field ∈ order, Settled field (texts.get field) lines) :
    writeAll texts order lines = lines := by
  induction order with
  | nil => rfl
  | cons field order ih =>
    obtain ⟨here, later⟩ := List.forall_mem_cons.mp settled
    rw [writeAll_cons, here.writeLines_eq, ih later]

/-- A second sequence of the same writes changes nothing. -/
theorem writeAll_writeAll (plain : Plain texts) :
    writeAll texts order (writeAll texts order lines) = writeAll texts order lines :=
  writeAll_of_settled fun _ member => settled_writeAll plain member

/-- Where every field is there, a sequence of writes is one of rewrites of each line. -/
theorem writeAll_eq_map (plain : Plain texts)
    (present : ∀ field : SiteField, lines.any (isField field.key) = true) :
    writeAll texts order lines = lines.map fun line =>
      order.foldl (fun current field => rewriteLine field.key (texts.get field) current) line := by
  induction order generalizing lines with
  | nil => exact (List.map_id' lines).symm
  | cons field order ih =>
    have still : ∀ other : SiteField,
        (writeLines field (texts.get field) lines).any (isField other.key) = true := by
      intro other
      rw [any_writeLines (plain field), present other, Bool.or_true]
    rw [writeAll_cons, ih still, writeLines, if_pos (present field), List.map_map]
    rfl

/-- Where every field is there, the order of the writes does not matter. -/
theorem writeAll_perm {second : List SiteField} (plain : Plain texts)
    (present : ∀ field : SiteField, lines.any (isField field.key) = true)
    (same : order.Perm second) :
    writeAll texts order lines = writeAll texts second lines := by
  rw [writeAll_eq_map plain present, writeAll_eq_map plain present]
  refine List.map_congr_left fun line _ => same.foldl_eq' ?_ line
  intro field _ other _ current
  by_cases equal : field = other
  · rw [equal]
  · exact (rewriteLine_comm equal (plain field) (plain other)).symm

end Writes

section Reading

variable {texts : Site Text} {order : List SiteField} {field other : SiteField}
  {line value text : Text} {lines : List Text}

theorem afterKey_append {key name : Text} (same : name.length = key.length) (rest : Text) :
    afterKey key (name ++ rest) = if name = key then some rest else none := by
  unfold afterKey
  by_cases equal : name = key
  · rw [if_pos equal, equal, List.drop_left, if_pos]
    exact List.isPrefixOf_iff_prefix.mpr (List.prefix_append _ _)
  · rw [if_neg equal, if_neg]
    intro isPrefix
    have front := List.prefix_of_prefix_length_le (List.isPrefixOf_iff_prefix.mp isPrefix)
      (List.prefix_append name rest) same.ge
    exact equal (front.eq_of_length same.symm).symm

/-- What stands before a value of a field, the reader takes or does not take, whatever
the value. -/
theorem matchSpelled_group {group : Text} (isGroup : IsGroup field.key group) :
    (∀ rest, StartsVisible rest →
      matchSpelled field.key (group ++ rest) = some (rest.rdropWhile isSpace)) ∨
    ∀ rest, StartsVisible rest → matchSpelled field.key (group ++ rest) = none := by
  obtain ⟨lead, name, pad, gap, rfl, whole, leadBlank, padBlank, gapBlank⟩ := isGroup
  have sameLength : name.length = field.key.length := by
    have lowered := congrArg List.length (toLower_of_matchWord whole)
    rwa [List.length_map, List.length_map] at lowered
  have reads : ∀ rest, StartsVisible rest →
      matchSpelled field.key (lead ++ name ++ pad ++ '=' :: gap ++ rest) =
        if name = field.key then some (rest.rdropWhile isSpace) else none := by
    intro rest starts
    have sign : StartsVisible ('=' :: (gap ++ rest)) := by
      simp [StartsVisible, show isSpace '=' = false by decide]
    have word := startsVisible_of_matchWord field.isKey.visible whole (pad ++ '=' :: (gap ++ rest))
    have shape : lead ++ name ++ pad ++ '=' :: gap ++ rest =
        lead ++ (name ++ (pad ++ '=' :: (gap ++ rest))) := by simp
    rw [shape, matchSpelled, dropWhile_front leadBlank word, afterKey_append sameLength]
    by_cases spelled : name = field.key
    · rw [if_pos spelled, if_pos spelled]
      simp only [dropWhile_front padBlank sign, trim, dropWhile_front gapBlank starts]
    · rw [if_neg spelled, if_neg spelled]
  by_cases spelled : name = field.key
  · exact .inl fun rest starts => by rw [reads rest starts, if_pos spelled]
  · exact .inr fun rest starts => by rw [reads rest starts, if_neg spelled]

/-- What the reader takes for a field, the writer does. -/
theorem isField_of_matchSpelled (found : matchSpelled field.key line = some value) :
    isField field.key line = true := by
  unfold matchSpelled afterKey at found
  split at found
  · cases found
  · rename_i afterName key
    split at key
    · rename_i isPrefix
      obtain ⟨rest, shape⟩ := List.isPrefixOf_iff_prefix.mp isPrefix
      have word : matchWord field.key (line.dropWhile isSpace) = some (field.key, rest) :=
        matchWord_eq_some.mpr ⟨shape.symm, matchWord_self _⟩
      have after : rest = afterName := by
        rw [← shape, List.drop_left] at key
        exact Option.some.inj key
      split at found
      · rename_i afterSign sign
        unfold isField matchField
        rw [word]
        simp only [after, sign, Option.isSome_some]
      · cases found
    · cases key

theorem matchSpelled_of_not_isField (not : isField field.key line = false) :
    matchSpelled field.key line = none := by
  cases found : matchSpelled field.key line with
  | none => rfl
  | some value =>
    rw [isField_of_matchSpelled found] at not
    cases not

/-- What is read never has blanks around it. -/
theorem trim_of_matchSpelled (found : matchSpelled field.key line = some value) :
    ∃ rest, value = trim rest := by
  unfold matchSpelled at found
  split at found
  · cases found
  · split at found
    · exact ⟨_, (Option.some.inj found).symm⟩
    · cases found

theorem dropWhile_of_startsVisible (starts : StartsVisible text) : text.dropWhile isSpace = text :=
  @dropWhile_front _ isSpace [] text rfl starts

theorem rdropWhile_of_isValue (plain : IsValue value) : value.rdropWhile isSpace = value :=
  List.rdropWhile_eq_self_iff.mpr fun filled => by
    rw [plain.visible _ (List.getLast_mem filled)]
    exact Bool.false_ne_true

/-- A rewritten line is read as its new value where it was read before. -/
theorem matchSpelled_rewriteLine (plain : IsValue value) :
    matchSpelled field.key (rewriteLine field.key value line) =
      (matchSpelled field.key line).map fun _ => value := by
  cases found : matchField field.key line with
  | none =>
    have not : isField field.key line = false := by rw [isField, found]; rfl
    rw [rewriteLine_of_not_isField not, matchSpelled_of_not_isField not, Option.map_none]
  | some parts =>
    obtain ⟨group, rest⟩ := parts
    obtain ⟨shape, isGroup, starts⟩ := (matchField_eq_some field.isKey.visible).mp found
    have written : rewriteLine field.key value line = group ++ value := by rw [rewriteLine, found]
    rw [written, shape]
    rcases matchSpelled_group isGroup with taken | skipped
    · rw [taken value plain.startsVisible, taken rest starts, Option.map_some,
        rdropWhile_of_isValue plain]
    · rw [skipped value plain.startsVisible, skipped rest starts, Option.map_none]

theorem matchSpelled_rewriteLine_other (distinct : field ≠ other) (plain : IsValue value) :
    matchSpelled field.key (rewriteLine other.key value line) = matchSpelled field.key line := by
  cases sets : isField other.key line with
  | false => rw [rewriteLine_of_not_isField sets]
  | true =>
    have not := not_isField_of_ne distinct sets
    have still : isField field.key (rewriteLine other.key value line) = false := by
      rw [isField_rewriteLine plain, not]
    rw [matchSpelled_of_not_isField not, matchSpelled_of_not_isField still]

theorem matchSpelled_addedLine (plain : IsValue value) :
    matchSpelled field.key (addedLine field value) = some value := by
  have isGroup : IsGroup field.key (field.key ++ " = ".toList) :=
    ⟨[], field.key, [' '], [' '], by simp, matchWord_self _, by decide, by decide, by decide⟩
  have spelled : matchSpelled field.key (field.key ++ " = ".toList ++ []) = some [] := by
    cases field <;> decide
  rcases matchSpelled_group isGroup with taken | skipped
  · rw [addedLine, taken value plain.startsVisible, rdropWhile_of_isValue plain]
  · rw [skipped [] rfl] at spelled
    cases spelled

/-- The values the reader takes for a field, in the order of the lines. -/
def readings (field : SiteField) (lines : List Text) : List Text :=
  lines.filterMap (matchSpelled field.key)

/-- After the write of its field each of them is the value, and a field that was not
there is read from the line added. -/
theorem readings_writeLines (plain : IsValue value) :
    readings field (writeLines field value lines) =
      (readings field lines).map (fun _ => value) ++
        if lines.any (isField field.key) then [] else [value] := by
  have written : readings field (lines.map (rewriteLine field.key value)) =
      (readings field lines).map fun _ => value := by
    unfold readings
    rw [List.filterMap_map, List.map_filterMap]
    exact List.filterMap_congr fun line _ => matchSpelled_rewriteLine plain
  unfold writeLines
  split
  · rw [written, List.append_nil]
  · rw [← written, readings, List.filterMap_append, List.filterMap_cons,
      matchSpelled_addedLine plain]
    rfl

theorem readings_writeLines_other (distinct : field ≠ other) (plain : IsValue value) :
    readings field (writeLines other value lines) = readings field lines := by
  have written : readings field (lines.map (rewriteLine other.key value)) =
      readings field lines := by
    unfold readings
    rw [List.filterMap_map]
    exact List.filterMap_congr fun line _ => matchSpelled_rewriteLine_other distinct plain
  have added : matchSpelled field.key (addedLine other value) = none := by
    apply matchSpelled_of_not_isField
    rw [isField_addedLine plain, decide_eq_false distinct]
  unfold writeLines
  split
  · exact written
  · rw [← written, readings, List.filterMap_append, List.filterMap_cons, added]
    exact List.append_nil _

theorem readings_writeAll_other (plain : Plain texts) (absent : field ∉ order) :
    readings field (writeAll texts order lines) = readings field lines := by
  induction order generalizing lines with
  | nil => rfl
  | cons other order ih =>
    rw [List.mem_cons, not_or] at absent
    rw [writeAll_cons, ih absent.2, readings_writeLines_other absent.1 (plain other)]

/-- What is read of a field after writes that name it once. -/
theorem readings_writeAll (plain : Plain texts) (once : order.Nodup) (member : field ∈ order) :
    readings field (writeAll texts order lines) =
      (readings field lines).map (fun _ => texts.get field) ++
        if lines.any (isField field.key) then [] else [texts.get field] := by
  induction order generalizing lines with
  | nil => cases member
  | cons other order ih =>
    obtain ⟨apart, later⟩ := List.nodup_cons.mp once
    rw [writeAll_cons]
    by_cases same : field = other
    · rw [same, readings_writeAll_other plain apart, readings_writeLines (plain other)]
    · rw [ih later ((List.mem_cons.mp member).resolve_left same),
        readings_writeLines_other same (plain other), any_writeLines (plain other),
        decide_eq_false same, Bool.false_or]

/-- A line is read as at most one field. -/
theorem matchSiteLine_eq_some :
    matchSiteLine line = some (field, value) ↔ matchSpelled field.key line = some value := by
  constructor
  · intro found
    obtain ⟨other, -, reads⟩ := List.exists_of_findSome?_eq_some found
    obtain ⟨read, here, same⟩ := Option.map_eq_some_iff.mp reads
    obtain ⟨rfl, rfl⟩ := Prod.mk.inj same
    exact here
  · intro found
    have others : ∀ other, field ≠ other → matchSpelled other.key line = none := by
      intro other distinct
      apply matchSpelled_of_not_isField
      exact not_isField_of_ne distinct.symm (isField_of_matchSpelled found)
    cases field with
    | latitude => simp [matchSiteLine, fields, found]
    | longitude => simp [matchSiteLine, fields, found, others .latitude (by decide)]
    | height =>
      simp [matchSiteLine, fields, found, others .latitude (by decide),
        others .longitude (by decide)]

/-- The table has of each field what its last line gives. -/
theorem readFields_eq : readFields text field = (readings field (getContent text)).getLast? := by
  unfold readFields readings
  induction getContent text using List.reverseRecOn with
  | nil => rfl
  | append_singleton lines line ih =>
    rw [List.foldl_append, List.filterMap_append, List.getLast?_append, ← ih]
    simp only [List.foldl_cons, List.foldl_nil]
    cases read : matchSiteLine line with
    | none =>
      have not : matchSpelled field.key line = none := by
        cases spelled : matchSpelled field.key line with
        | none => rfl
        | some value =>
          rw [matchSiteLine_eq_some.mpr spelled] at read
          cases read
      simp [not]
    | some entry =>
      obtain ⟨other, value⟩ := entry
      have spelled := matchSiteLine_eq_some.mp read
      by_cases same : field = other
      · subst same
        simp [spelled]
      · have not : matchSpelled field.key line = none :=
          matchSpelled_of_not_isField (not_isField_of_ne same (isField_of_matchSpelled spelled))
        simp [not, Function.update_of_ne same]

end Reading

section Alignment

variable {path : String} {config cfg : Text} {texts : Site Text} {numbers : Site SiteNumber}

theorem forFields_eq_ok {α : Type} {read : SiteField → Except String α} {site : Site α} :
    forFields read = .ok site ↔ ∀ field, read field = .ok (site.get field) := by
  constructor
  · intro found
    unfold forFields at found
    cases first : read .latitude with
    | error message => simp [first, bind, Except.bind] at found
    | ok latitude =>
      cases second : read .longitude with
      | error message => simp [first, second, bind, Except.bind] at found
      | ok longitude =>
        cases third : read .height with
        | error message => simp [first, second, third, bind, Except.bind] at found
        | ok height =>
          simp only [first, second, third, bind, Except.bind, pure, Except.pure,
            Except.ok.injEq] at found
          subst found
          intro field
          cases field with
          | latitude => exact first
          | longitude => exact second
          | height => exact third
  · intro all
    simp [forFields, all .latitude, all .longitude, all .height, bind, Except.bind, pure,
      Except.pure, Site.get]

/-- The texts that are accepted are the ones that are converted. -/
theorem accepted (located : getMastTomlLocation path config = .ok (texts, numbers)) :
    ∀ field, texts.get field ≠ [] ∧
      tryParse (trim (texts.get field)) = some (numbers.get field) := by
  intro field
  unfold getMastTomlLocation at located
  cases read : forFields (tomlText path config) with
  | error message => simp [read, bind, Except.bind] at located
  | ok found =>
    cases converted : forFields fun field =>
        convertToMastSiteNumber (path ++ " " ++ String.ofList field.tomlKey) (found.get field) with
    | error message => simp [read, converted, bind, Except.bind] at located
    | ok values =>
      simp only [read, converted, bind, Except.bind, pure, Except.pure, Except.ok.injEq,
        Prod.mk.injEq] at located
      obtain ⟨rfl, rfl⟩ := located
      exact convert_eq_ok.mp (forFields_eq_ok.mp converted field)

/-- Without blanks around them, accepted texts are visible ASCII. -/
theorem plain_of_trimmed (located : getMastTomlLocation path config = .ok (texts, numbers))
    (trimmed : ∀ field : SiteField, trim (texts.get field) = texts.get field) : Plain texts := by
  intro field
  have parsed := (accepted located field).2
  rw [trimmed field] at parsed
  exact (visible_of_tryParse parsed).2.isValue

theorem mem_fields (field : SiteField) : field ∈ fields := by
  cases field <;> decide

theorem nodup_fields : fields.Nodup := by decide

/-- What is read of a field after an alignment. -/
theorem readFields_align (plain : Plain texts) (ascii : cfg.all isAscii = true)
    (field : SiteField) :
    readFields (align texts cfg) field =
      ((readings field (getContent cfg)).map (fun _ => texts.get field) ++
        if (getContent cfg).any (isField field.key) then [] else [texts.get field]).getLast? := by
  rw [readFields_eq, align, getContent_writeFields plain ascii,
    readings_writeAll plain nodup_fields (mem_fields field)]

/-- The reader finds the text when the file has the key as it is spelled, or not at all. -/
theorem readFields_align_iff (plain : Plain texts) (ascii : cfg.all isAscii = true)
    (field : SiteField) :
    readFields (align texts cfg) field = some (texts.get field) ↔
      ((getContent cfg).any (isField field.key) = true →
        (getContent cfg).any (fun line => (matchSpelled field.key line).isSome) = true) := by
  have anyRead : (getContent cfg).any (fun line => (matchSpelled field.key line).isSome) = true ↔
      readings field (getContent cfg) ≠ [] := by
    simp [readings, Option.isSome_iff_ne_none]
  rw [readFields_align plain ascii, anyRead]
  by_cases present : (getContent cfg).any (isField field.key) = true
  · rw [if_pos present, List.append_nil, List.getLast?_map]
    constructor
    · intro found _ empty
      rw [empty] at found
      cases found
    · intro filled
      rw [List.getLast?_eq_some_getLast (filled present), Option.map_some]
  · rw [if_neg present, List.getLast?_concat]
    exact ⟨fun _ isPresent => absurd isPresent present, fun _ => rfl⟩

/-- The numbers that are read back are the ones of the texts. -/
theorem getMastPwi4CfgSite_align (located : getMastTomlLocation path config = .ok (texts, numbers))
    {cfgPath : String} (reads : ∀ field, readFields (align texts cfg) field = some (texts.get field)) :
    getMastPwi4CfgSite cfgPath (align texts cfg) = .ok numbers := by
  have found : (forFields fun field =>
      match readFields (align texts cfg) field with
      | some value => Except.ok value
      | none => .error (cfgPath ++ " has no " ++ String.ofList field.key ++ " field")) =
        .ok texts := by
    apply forFields_eq_ok.mpr
    intro field
    rw [reads field]
  unfold getMastPwi4CfgSite
  rw [found]
  show (forFields fun field => convertToMastSiteNumber (cfgPath ++ " " ++ String.ofList field.key)
    (texts.get field)) = .ok numbers
  apply forFields_eq_ok.mpr
  intro field
  exact convert_eq_ok.mpr (accepted located field)

/-- Alignment of an ASCII file with accepted texts does what it is for exactly when no text
has blanks around it, and no key stands in the file in another case only. -/
theorem converges_iff {cfgPath : String} (ascii : cfg.all isAscii = true)
    (located : getMastTomlLocation path config = .ok (texts, numbers)) :
    Converges cfgPath cfg texts numbers ↔ Alignable cfg texts := by
  constructor
  · intro converges
    have trimmed : ∀ field : SiteField, trim (texts.get field) = texts.get field := by
      intro field
      have reads := converges.readsTexts field
      rw [readFields_eq] at reads
      obtain ⟨line, -, spelled⟩ := List.mem_filterMap.mp (List.mem_of_getLast? reads)
      obtain ⟨rest, shape⟩ := trim_of_matchSpelled spelled
      rw [shape, trim_trim]
    exact {
      trimmed
      spelled := fun field =>
        (readFields_align_iff (plain_of_trimmed located trimmed) ascii field).mp
          (converges.readsTexts field) }
  · intro alignable
    have plain := plain_of_trimmed located alignable.trimmed
    have reads : ∀ field, readFields (align texts cfg) field = some (texts.get field) :=
      fun field => (readFields_align_iff plain ascii field).mpr (alignable.spelled field)
    have alignedAscii : (align texts cfg).all isAscii = true := by
      rw [align, writeFields_eq plain ascii (by decide)]
      exact ascii_setContent _
    constructor
    · rw [align, getContent_writeFields plain ascii, otherLines_writeAll plain]
    · calc
        align texts (align texts cfg) =
            setContent (writeAll texts fields (getContent (align texts cfg))) :=
          writeFields_eq plain alignedAscii (by decide)
        _ = setContent (writeAll texts fields (getContent cfg)) := by
          rw [align, getContent_writeFields plain ascii, writeAll_writeAll plain]
        _ = align texts cfg := (writeFields_eq plain ascii (by decide)).symm
    · intro present order same
      have writes : order ≠ [] := by
        rintro rfl
        exact absurd same.length_eq (by decide)
      rw [align, writeFields_eq plain ascii writes, writeFields_eq plain ascii (by decide),
        writeAll_perm plain present same]
    · exact reads
    · exact getMastPwi4CfgSite_align located reads

/-- A `config.toml` as a unit carries it. -/
def unitToml : Text :=
  "[location]\nlatitude = 30.05\nlongitude = \"35.04\" \nelevation = 400\n".toList

def unitTexts : Site Text where
  latitude := "30.05".toList
  longitude := "35.04".toList
  height := "400".toList

def unitNumbers : Site SiteNumber where
  latitude := .decimal false 3005 (-2)
  longitude := .decimal false 3504 (-2)
  height := .decimal false 400 0

/-- A file with comments, a key twice and one that is missing. -/
def unitCfg : Text :=
  "# PWI4\r\nLatitude      = 1\r\nPort = 8220\r\nlatitude=2\r\nHeightMeters = 3\r\n".toList

theorem converges_unitCfg :
    Converges "PWI4.cfg" unitCfg unitTexts unitNumbers :=
  (converges_iff (by decide +kernel)
    (by decide +kernel : getMastTomlLocation "config.toml" unitToml = .ok (unitTexts, unitNumbers))).mpr
    { trimmed := by intro field; cases field <;> decide +kernel
      spelled := by intro field; cases field <;> decide +kernel }

/-- A key in another case is written, and then not found; blanks inside quotes are written,
and pile up with every alignment. -/
theorem alignment_lost :
    (getMastTomlLocation "config.toml" unitToml = .ok (unitTexts, unitNumbers) ∧
      ¬Converges "PWI4.cfg" "latitude = 1\r\n".toList unitTexts unitNumbers) ∧
    getMastTomlLocation "config.toml"
        "latitude = \" 30.05\"\nlongitude = 35.04\nelevation = 400\n".toList =
      .ok ({ unitTexts with latitude := " 30.05".toList }, unitNumbers) ∧
    ¬Converges "PWI4.cfg" unitCfg { unitTexts with latitude := " 30.05".toList } unitNumbers := by
  refine ⟨⟨by decide +kernel, fun converges => ?_⟩, by decide +kernel, fun converges => ?_⟩
  · exact absurd (converges.readsTexts .latitude) (by decide +kernel)
  · exact absurd converges.settles (by decide +kernel)

end Alignment

end MastProvisioning.Unit.SiteAlignment
