import Mathlib.Data.Bool.AllAny
import MastProvisioning.Build.TransferSize
import MastProvisioning.Driver.PullReply
import MastProvisioning.PowerShell.SingleQuoted

/-!
# Values in the scripts the driver sends

The driver writes values into PowerShell scripts as single-quoted literals. `ps_lit` doubles
the apostrophes of a value, `_write_unit_json` puts a path and a JSON text between quotes as
they are, and the pull script gets two lists of names as one literal each, which it splits.
-/

namespace MastProvisioning.Driver

open MastProvisioning.Collections MastProvisioning.PowerShell
open MastProvisioning.PowerShell.SingleQuoted
open MastProvisioning.Build (joinBars splitBars trimName)

/-- `_ps_escape`. -/
def psEscape : Text → Text := doubling (· = '\'')

/-- `ps_lit`. -/
def psLit (value : Option String) : Text :=
  '\'' :: (psEscape (value.getD "").toList ++ ['\''])

/-- A value that is written as it is. -/
def raw : Text → Text := doubling fun _ => false

/-- A literal of a script whose values `_ps_escape` writes is what `ps_lit` gives. -/
theorem psLit_text (before after : Text) (value : String) :
    before ++ psLit (some value) ++ after =
      Script.text psEscape ⟨before, [(value.toList, after)]⟩ := by
  simp [Script.text, psLit]

section Json

/-- `'\\u{0:04x}'.format(n)`. -/
def unicodeEscape (number : Nat) : Text :=
  '\\' :: 'u' :: [number / 4096, number / 256, number / 16, number].map fun shifted =>
    Nat.digitChar (shifted % 16)

/-- What `json.dumps` writes for a character of a string: all of it is ASCII. -/
def escapeChar (character : Char) : Text :=
  if character = '"' then "\\\"".toList
  else if character = '\\' then "\\\\".toList
  else if character = '\n' then "\\n".toList
  else if character = '\r' then "\\r".toList
  else if character = '\t' then "\\t".toList
  else if character.toNat = 0x08 then "\\b".toList
  else if character.toNat = 0x0C then "\\f".toList
  else if 0x20 ≤ character.toNat ∧ character.toNat ≤ 0x7E then [character]
  else if character.toNat < 0x10000 then unicodeEscape character.toNat
  else unicodeEscape (0xD800 + (character.toNat - 0x10000) / 0x400)
    ++ unicodeEscape (0xDC00 + (character.toNat - 0x10000) % 0x400)

def dumpsText (value : String) : Text := '"' :: (value.toList.flatMap escapeChar ++ ['"'])

mutual

/-- `json.dumps`. -/
def dumps : Json → Text
  | .null => "null".toList
  | .bool value => if value then "true".toList else "false".toList
  | .int value => (toString value).toList
  | .float text _ => text.toList
  | .text value => dumpsText value
  | .list items => '[' :: (dumpsItems items ++ [']'])
  | .object fields => '\x7b' :: (dumpsFields fields ++ ['\x7d'])

def dumpsItems : List Json → Text
  | [] => []
  | [item] => dumps item
  | item :: rest => dumps item ++ ", ".toList ++ dumpsItems rest

def dumpsFields : List (String × Json) → Text
  | [] => []
  | [(key, value)] => dumpsText key ++ ": ".toList ++ dumps value
  | (key, value) :: rest =>
    dumpsText key ++ ": ".toList ++ dumps value ++ ", ".toList ++ dumpsFields rest

end

mutual

/-- No string of a value has an apostrophe. What Python prints for a float has no quotes
at all. -/
def NoApostrophe : Json → Prop
  | .null | .bool _ | .int _ => True
  | .float text _ => Plain text.toList
  | .text value => '\'' ∉ value.toList
  | .list items => NoApostropheItems items
  | .object fields => NoApostropheFields fields

def NoApostropheItems : List Json → Prop
  | [] => True
  | item :: rest => NoApostrophe item ∧ NoApostropheItems rest

def NoApostropheFields : List (String × Json) → Prop
  | [] => True
  | (key, value) :: rest => '\'' ∉ key.toList ∧ NoApostrophe value ∧ NoApostropheFields rest

end

end Json

section Scripts

/-- `unit_path.rsplit('\\', 1)[0]`. -/
def parentOf (path : Text) : Text :=
  if '\\' ∈ path then (path.rdropWhile (· ≠ '\\')).dropLast else path

/-- The script of `_write_unit_json`: its code, and the values between quotes. -/
def unitJsonScript (path : String) (fields : List (String × Json)) : Script where
  code := "$d = ".toList
  literals := [
    (parentOf path.toList,
      "; New-Item -ItemType Directory -Force -Path $d | Out-Null; $tmp = ".toList),
    (path.toList ++ ".tmp".toList, "; [System.IO.File]::WriteAllText($tmp, ".toList),
    (dumps (.object fields),
      ", (New-Object System.Text.UTF8Encoding($false))); Move-Item -Force $tmp ".toList),
    (path.toList, [])]

/-- `_write_unit_json` puts the values between quotes as they are. -/
def writeUnitJson (path : String) (fields : List (String × Json)) : Text :=
  (unitJsonScript path fields).text raw

/-- A name of a file or a directory that Windows allows. -/
structure WindowsName where
  text : String
  nonempty : text ≠ ""
  legal : ∀ character ∈ text.toList, 0x20 ≤ character.toNat ∧ character ∉ "\\/:*?\"<>|".toList

/-- The arguments of `pull_staging_args`. -/
structure PullStagingArgs where
  provAddress : String
  unitHostname : String
  smbUser : String
  smbPass : String
  unitStage : String
  srcUNC : String
  payloadBytes : Int
  excludeFiles : List WindowsName
  excludeDirs : List WindowsName

/-- `'|'.join(names)`. -/
def joinNames (names : List WindowsName) : String := joinBars (names.map WindowsName.text)

/-- The argument list of `pull_staging_args`: the names of the parameters, and the values. -/
def pullScript (args : PullStagingArgs) : Script where
  code := "-ProvAddress ".toList
  literals := [
    (args.provAddress.toList, " -UnitHostname ".toList),
    (args.unitHostname.toList, " -SmbUser ".toList),
    (args.smbUser.toList, " -SmbPass ".toList),
    (args.smbPass.toList, " -UnitStage ".toList),
    (args.unitStage.toList, " -SrcUNC ".toList),
    (args.srcUNC.toList, " -PayloadBytes ".toList),
    ((toString args.payloadBytes).toList, " -ExcludeFiles ".toList),
    ((joinNames args.excludeFiles).toList, " -ExcludeDirs ".toList),
    ((joinNames args.excludeDirs).toList, [])]

/-- `pull_staging_args` puts every value in as `ps_lit` does. -/
def pullStagingArgs (args : PullStagingArgs) : Text := (pullScript args).text psEscape

end Scripts

/-- A value, or values, that are put into a script. -/
inductive Embedding
  | literal (value : String)
  | unitJson (path : String) (fields : List (String × Json))
  | pullArgs (args : PullStagingArgs)

/-- PowerShell reads back what was put in, whatever code is around a literal, and the unit
splits the lists of names into the names that were joined. -/
def Embedding.Survives : Embedding → Prop
  | literal value => ∀ before after, Plain before → Plain after →
      readScript (before ++ psLit (some value) ++ after) = some [before, value.toList, after]
  | unitJson path fields =>
      readScript (writeUnitJson path fields) = some (unitJsonScript path fields).pieces
  | pullArgs args => readScript (pullStagingArgs args) = some (pullScript args).pieces ∧
      splitBars (joinNames args.excludeFiles) = args.excludeFiles.map WindowsName.text ∧
      splitBars (joinNames args.excludeDirs) = args.excludeDirs.map WindowsName.text

/-- A text has none of the quotes that are no apostrophes. -/
def NoTypographicQuote (text : String) : Prop :=
  ∀ character ∈ text.toList, isQuote character = true → character = '\''

/-- A name that neither begins nor ends with white space. -/
def WindowsName.Trimmed (name : WindowsName) : Prop :=
  trimName name.text.toList = name.text.toList

/-- What a value must not have in it. -/
def Embedding.Safe : Embedding → Prop
  | literal value => NoTypographicQuote value
  | unitJson path fields => Plain path.toList ∧ NoApostropheFields fields
  | pullArgs args =>
      (∀ text ∈ [args.provAddress, args.unitHostname, args.smbUser, args.smbPass, args.unitStage,
        args.srcUNC], NoTypographicQuote text) ∧
      ∀ name ∈ args.excludeFiles ++ args.excludeDirs, NoTypographicQuote name.text ∧ name.Trimmed

section Plain

theorem plain_append {text more : Text} : Plain (text ++ more) ↔ Plain text ∧ Plain more := by
  simp only [Plain, List.forall_mem_append]

theorem plain_cons {character : Char} {text : Text} :
    Plain (character :: text) ↔ isQuote character = false ∧ Plain text := by
  simp only [Plain, List.forall_mem_cons]

theorem isQuote_of_range {character : Char} (ascii : character.toNat < 128) :
    isQuote character = decide (character = '\'') := by
  have small : ¬ 0x2018 ≤ character.toNat := by omega
  simp [isQuote, small]

theorem plain_digits (value : Int) : Plain (toString value).toList := by
  have digits : ∀ number : Nat, Plain number.repr.toList := by
    intro number character member
    rw [Nat.toList_repr] at member
    have isDigit := Nat.isDigit_of_mem_toDigits (by decide) (by decide) member
    simp only [Char.isDigit, Bool.and_eq_true, decide_eq_true_eq, UInt32.le_iff_toNat_le] at isDigit
    have ascii : character.toNat < 128 := Nat.lt_of_le_of_lt isDigit.2 (by decide)
    rw [isQuote_of_range ascii, decide_eq_false_iff_not]
    rintro rfl
    exact absurd isDigit.1 (by decide)
  rw [Int.toString_eq_repr, Int.repr_eq_if]
  split
  · exact digits _
  · rw [String.toList_append, plain_append]
    exact ⟨plain_of_all (by decide), digits _⟩

theorem plain_unicodeEscape (number : Nat) : Plain (unicodeEscape number) := by
  have digit : ∀ shifted : Nat, isQuote (Nat.digitChar (shifted % 16)) = false := by
    intro shifted
    have small : shifted % 16 < 16 := Nat.mod_lt _ (by decide)
    generalize shifted % 16 = digit at small
    interval_cases digit <;> rfl
  simp only [unicodeEscape, List.map_cons, List.map_nil, plain_cons, digit, true_and]
  exact ⟨rfl, rfl, by simp [Plain]⟩

theorem plain_printable {character : Char} (other : character ≠ '\'')
    (printable : 0x20 ≤ character.toNat ∧ character.toNat ≤ 0x7E) : Plain [character] := by
  rw [plain_cons, isQuote_of_range (by omega)]
  exact ⟨decide_eq_false other, by simp [Plain]⟩

/-- The only character whose escape has a quote is the apostrophe. -/
theorem plain_escapeChar {character : Char} : Plain (escapeChar character) ↔ character ≠ '\'' := by
  constructor
  · rintro plain rfl
    exact absurd (plain '\'' (by decide)) (by decide)
  · intro other
    unfold escapeChar
    repeat' split
    all_goals first
      | exact plain_of_all (by decide)
      | exact plain_printable other (by assumption)
      | exact plain_unicodeEscape _
      | exact plain_append.mpr ⟨plain_unicodeEscape _, plain_unicodeEscape _⟩

theorem plain_dumpsText {value : String} : Plain (dumpsText value) ↔ '\'' ∉ value.toList := by
  have body : Plain (value.toList.flatMap escapeChar) ↔ '\'' ∉ value.toList := by
    have each : Plain (value.toList.flatMap escapeChar) ↔
        ∀ character ∈ value.toList, Plain (escapeChar character) := by
      simp only [Plain, List.mem_flatMap]
      constructor
      · intro plain character member other found
        exact plain other ⟨character, member, found⟩
      · rintro plain other ⟨character, member, found⟩
        exact plain character member other found
    simp only [each, plain_escapeChar]
    exact ⟨fun none member => none _ member rfl, fun none _ member same => none (same ▸ member)⟩
  have quote : isQuote '"' = false := rfl
  simp only [dumpsText, plain_cons, plain_append, body, quote, true_and]
  exact and_iff_left (plain_of_all (by decide))

mutual

theorem plain_dumps : ∀ value : Json, Plain (dumps value) ↔ NoApostrophe value
  | .null => by
    simp only [dumps, NoApostrophe, iff_true]
    exact plain_of_all (by decide)
  | .bool value => by
    simp only [dumps, NoApostrophe, iff_true]
    cases value <;> exact plain_of_all (by decide)
  | .int value => by
    simp only [dumps, NoApostrophe, iff_true]
    exact plain_digits value
  | .float text _ => Iff.rfl
  | .text value => plain_dumpsText
  | .list items => by
    have bracket : Plain [']'] := plain_of_all (by decide)
    have opening : isQuote '[' = false := rfl
    simp only [dumps, NoApostrophe, plain_cons, plain_append, opening, true_and, bracket, and_true]
    exact plain_dumpsItems items
  | .object fields => by
    have brace : Plain ['\x7d'] := plain_of_all (by decide)
    have opening : isQuote '\x7b' = false := rfl
    simp only [dumps, NoApostrophe, plain_cons, plain_append, opening, true_and, brace, and_true]
    exact plain_dumpsFields fields

theorem plain_dumpsItems : ∀ items : List Json, Plain (dumpsItems items) ↔ NoApostropheItems items
  | [] => by simp [dumpsItems, NoApostropheItems, Plain]
  | [item] => by
    simp only [dumpsItems, NoApostropheItems, and_true]
    exact plain_dumps item
  | item :: next :: rest => by
    have comma : Plain ", ".toList := plain_of_all (by decide)
    simp only [dumpsItems, plain_append, comma, and_true]
    rw [plain_dumps item, plain_dumpsItems (next :: rest), NoApostropheItems.eq_def (item :: _)]

theorem plain_dumpsFields :
    ∀ fields : List (String × Json), Plain (dumpsFields fields) ↔ NoApostropheFields fields
  | [] => by simp [dumpsFields, NoApostropheFields, Plain]
  | [(key, value)] => by
    have colon : Plain ": ".toList := plain_of_all (by decide)
    simp only [dumpsFields, NoApostropheFields, plain_append, colon, and_true, plain_dumpsText]
    rw [plain_dumps value]
  | (key, value) :: next :: rest => by
    have colon : Plain ": ".toList := plain_of_all (by decide)
    have comma : Plain ", ".toList := plain_of_all (by decide)
    simp only [dumpsFields, plain_append, colon, comma, and_true, plain_dumpsText, and_assoc]
    rw [plain_dumps value, plain_dumpsFields (next :: rest), NoApostropheFields.eq_def (_ :: next :: rest)]

end

end Plain

section Written

theorem quote_of_apostrophe (character : Char)
    (apostrophe : decide (character = '\'') = true) : isQuote character = true := by
  rw [of_decide_eq_true apostrophe]
  rfl

theorem shortens_psEscape : Shortens psEscape := shortens_doubling quote_of_apostrophe

theorem psEscape_eq_double {value : String} :
    psEscape value.toList = double value.toList ↔ NoTypographicQuote value := by
  have iff := @doubling_eq_double_iff _ quote_of_apostrophe value.toList
  simpa [NoTypographicQuote, psEscape] using iff

theorem shortens_raw : Shortens raw :=
  shortens_doubling fun _ never => absurd never Bool.false_ne_true

theorem raw_eq_double {value : Text} : raw value = double value ↔ Plain value := by
  have iff := @doubling_eq_double_iff (fun _ => false) (by simp) value
  simpa [Plain, raw] using iff

theorem unitJsonScript_plain (path : String) (fields : List (String × Json)) :
    (unitJsonScript path fields).Plain :=
  Script.plain_of_all rfl rfl rfl

theorem pullScript_plain (args : PullStagingArgs) : (pullScript args).Plain :=
  Script.plain_of_all rfl rfl rfl

end Written

section Names

variable {names : List WindowsName}

theorem toList_joinNames (names : List WindowsName) :
    (joinNames names).toList = ['|'].intercalate (names.map fun name => name.text.toList) := by
  simp [joinNames, joinBars, Function.comp_def]

theorem splitOn_joinNames (some : names ≠ []) :
    (joinNames names).toList.splitOn '|' = names.map fun name => name.text.toList := by
  rw [toList_joinNames]
  refine List.splitOn_intercalate '|' ?_ (by simpa using some)
  intro text member bar
  obtain ⟨name, -, rfl⟩ := List.mem_map.mp member
  exact (name.legal '|' bar).2 (by decide)

theorem trimName_eq_nil {text : Text} :
    trimName text = [] ↔ ∀ character ∈ text, SettingsFile.isSpace character = true := by
  unfold trimName
  rw [List.rdropWhile_eq_nil_iff]
  constructor
  · intro spaces character member
    rw [← List.takeWhile_append_dropWhile (p := SettingsFile.isSpace) (l := text)] at member
    rcases List.mem_append.mp member with taken | dropped
    · exact List.mem_takeWhile_imp taken
    · exact spaces character dropped
  · intro spaces character member
    exact spaces character ((List.dropWhile_sublist _).mem member)

/-- A list that is blank as a whole joins no trimmed name. -/
theorem joinNames_not_blank (some : names ≠ []) (trimmed : ∀ name ∈ names, name.Trimmed) :
    trimName (joinNames names).toList ≠ [] := by
  obtain ⟨name, rest, rfl⟩ := List.exists_cons_of_ne_nil some
  intro blank
  apply name.nonempty
  have spaces : ∀ character ∈ name.text.toList, SettingsFile.isSpace character = true := by
    intro character member
    apply trimName_eq_nil.mp blank
    rw [toList_joinNames]
    exact mem_intercalate_of_mem (List.mem_map_of_mem List.mem_cons_self) member
  have nothing := trimName_eq_nil.mpr spaces
  rw [trimmed name List.mem_cons_self] at nothing
  exact String.toList_eq_nil_iff.mp nothing

/-- A list of names is split as it was joined exactly when no name begins or ends with white
space. -/
theorem splitBars_joinNames (names : List WindowsName) :
    splitBars (joinNames names) = names.map WindowsName.text ↔
      ∀ name ∈ names, name.Trimmed := by
  by_cases some : names = []
  · subst some
    simp [splitBars, joinNames, joinBars, trimName]
  have texts : names.map WindowsName.text =
      (names.map fun name => name.text.toList).map String.ofList := by
    simp [List.map_map, Function.comp_def]
  unfold splitBars
  rw [splitOn_joinNames some, texts]
  constructor
  · intro same
    split at same
    · exact absurd (List.map_eq_nil_iff.mp (List.map_eq_nil_iff.mp same.symm)) some
    · have kept := List.map_injective_iff.mpr (fun _ _ => String.ofList_inj.mp) same
      have lengths := congrArg List.length kept
      simp only [List.length_map] at lengths
      have all := List.filter_eq_self.mpr (List.length_filter_eq_length_iff.mp
        (lengths.trans (by simp)))
      rw [all, List.map_map] at kept
      exact List.map_inj_left.mp kept
  · intro trimmed
    have same : names.map (trimName ∘ fun name => name.text.toList) =
        names.map fun name => name.text.toList := List.map_congr_left trimmed
    rw [if_neg (joinNames_not_blank some trimmed), List.map_map, same, List.filter_eq_self.mpr]
    intro text member
    obtain ⟨name, -, rfl⟩ := List.mem_map.mp member
    simpa using name.nonempty

theorem noTypographicQuote_joinNames :
    NoTypographicQuote (joinNames names) ↔ ∀ name ∈ names, NoTypographicQuote name.text := by
  unfold NoTypographicQuote
  rw [toList_joinNames]
  constructor
  · intro none name member character found quote
    exact none character (mem_intercalate_of_mem (List.mem_map_of_mem member) found) quote
  · intro none character found quote
    have other : character ≠ '|' := by
      rintro rfl
      cases quote
    obtain ⟨text, isText, found⟩ := (mem_intercalate other).mp found
    obtain ⟨name, member, rfl⟩ := List.mem_map.mp isText
    exact none name member character found quote

end Names

section Survival

theorem literal_survives {value : String} :
    (Embedding.literal value).Survives ↔ (Embedding.literal value).Safe := by
  have reads : ∀ before after, Plain before → Plain after →
      (readScript (before ++ psLit (some value) ++ after) = some [before, value.toList, after] ↔
        NoTypographicQuote value) := by
    intro before after plainBefore plainAfter
    have plain : Script.Plain ⟨before, [(value.toList, after)]⟩ :=
      ⟨plainBefore, by simpa using plainAfter, .singleton _⟩
    have iff := readScript_iff shortens_psEscape plain
    rw [psLit_text, ← psEscape_eq_double]
    simpa [Script.pieces, Script.values] using iff
  constructor
  · intro survives
    have nothing : Plain [] := plain_of_all rfl
    exact (reads [] [] nothing nothing).mp (survives [] [] nothing nothing)
  · intro safe before after plainBefore plainAfter
    exact (reads before after plainBefore plainAfter).mpr safe

theorem mem_parentOf {path : Text} {character : Char} (member : character ∈ parentOf path) :
    character ∈ path := by
  unfold parentOf at member
  split at member
  · exact (List.rdropWhile_prefix _ _).subset (List.dropLast_subset _ member)
  · exact member

theorem unitJson_survives {path : String} {fields : List (String × Json)} :
    (Embedding.unitJson path fields).Survives ↔ (Embedding.unitJson path fields).Safe := by
  have iff := readScript_iff shortens_raw (unitJsonScript_plain path fields)
  have suffix : Plain ".tmp".toList := plain_of_all (by decide)
  have values : (unitJsonScript path fields).values =
      [parentOf path.toList, path.toList ++ ".tmp".toList, dumps (.object fields), path.toList] :=
    rfl
  have json : Plain (dumps (.object fields)) ↔ NoApostropheFields fields := plain_dumps _
  refine iff.trans ?_
  rw [values]
  simp only [raw_eq_double, List.forall_mem_cons, plain_append, suffix, and_true, json]
  constructor
  · rintro ⟨-, plainPath, plainJson, -⟩
    exact ⟨plainPath, plainJson⟩
  · rintro ⟨plainPath, plainJson⟩
    exact ⟨fun character member => plainPath character (mem_parentOf member), plainPath, plainJson,
      plainPath, by simp⟩

theorem noTypographicQuote_digits (value : Int) : NoTypographicQuote (toString value) := by
  intro character member quote
  rw [plain_digits value character member] at quote
  cases quote

theorem pullArgs_survives {args : PullStagingArgs} :
    (Embedding.pullArgs args).Survives ↔ (Embedding.pullArgs args).Safe := by
  have iff := readScript_iff shortens_psEscape (pullScript_plain args)
  have values : (pullScript args).values =
      [args.provAddress, args.unitHostname, args.smbUser, args.smbPass, args.unitStage,
        args.srcUNC, toString args.payloadBytes, joinNames args.excludeFiles,
        joinNames args.excludeDirs].map String.toList := rfl
  have read : readScript (pullStagingArgs args) = some (pullScript args).pieces ↔
      (∀ text ∈ [args.provAddress, args.unitHostname, args.smbUser, args.smbPass, args.unitStage,
        args.srcUNC], NoTypographicQuote text) ∧
      ∀ name ∈ args.excludeFiles ++ args.excludeDirs, NoTypographicQuote name.text := by
    refine iff.trans ?_
    rw [values]
    simp only [List.map_cons, List.map_nil, List.forall_mem_cons, psEscape_eq_double,
      noTypographicQuote_digits, noTypographicQuote_joinNames, List.forall_mem_append, true_and]
    simp only [List.not_mem_nil, false_implies, implies_true, and_true, and_assoc]
  simp only [Embedding.Survives, Embedding.Safe, read, splitBars_joinNames, forall_and,
    List.forall_mem_append, and_assoc]

end Survival

/-- Values survive exactly when they are free of what their way into the script does not
escape, and the names of a list begin and end with no white space. -/
theorem embedding_survives_iff (embedding : Embedding) : embedding.Survives ↔ embedding.Safe := by
  cases embedding with
  | literal value => exact literal_survives
  | unitJson path fields => exact unitJson_survives
  | pullArgs args => exact pullArgs_survives

/-- A pull without exclusions but for one file, whose name begins with a space. -/
def blankNamePull : PullStagingArgs :=
  ⟨"10.0.0.2", "mast01", "mast", "secret", "C:\\mast-staging", "\\\\10.0.0.2\\mast-staging", 0,
    [⟨" setup.exe", by decide, List.all_iff_forall_prop.mp (by decide)⟩], []⟩

/-- A password with a typographic quote, a user with an apostrophe, a name that begins with
a space. -/
theorem embeddings_lost :
    ¬ (Embedding.literal "pass\u2019word").Survives ∧
      ¬ (Embedding.unitJson "C:\\MAST\\shared.json" [("user", .text "o'brien")]).Survives ∧
      ¬ (Embedding.pullArgs blankNamePull).Survives := by
  refine ⟨?_, ?_, ?_⟩
  · rw [literal_survives]
    intro safe
    exact absurd (safe '\u2019' (by decide) (by decide)) (by decide)
  · rw [unitJson_survives]
    rintro ⟨-, -, apostrophe, -⟩
    exact apostrophe (by decide)
  · rw [pullArgs_survives]
    rintro ⟨-, names⟩
    have trimmed : trimName " setup.exe".toList = " setup.exe".toList :=
      (names _ (List.mem_append_left _ (List.mem_singleton_self _))).2
    exact absurd trimmed (by decide)

end MastProvisioning.Driver
