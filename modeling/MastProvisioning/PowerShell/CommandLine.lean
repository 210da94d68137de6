import Mathlib.Data.List.Infix
import Mathlib.Data.List.DropRight

/-!
# Command lines of Windows

How `CommandLineToArgvW` splits a line. A quote that follows an even number of
backslashes opens or closes a quoted part, one that follows an odd number stands for
itself; in front of a quote every two backslashes are one, anywhere else they are
what they are.
-/

namespace MastProvisioning.PowerShell

/-- White space between arguments. -/
def isSeparator (character : Char) : Bool :=
  character = ' ' || character = '\t'

/-- A run of backslashes. -/
def backslashes (count : Nat) : List Char :=
  List.replicate count '\\'

/-- One argument and the text after it, inside or outside of a quoted part and after some
backslashes. -/
def scan (quoted : Bool) (slashes : Nat) : List Char → List Char × List Char
  | [] => (backslashes slashes, [])
  | character :: rest =>
    if character = '\\' then scan quoted (slashes + 1) rest
    else if character = '"' then
      if slashes % 2 = 0 then
        let found := scan (!quoted) 0 rest
        (backslashes (slashes / 2) ++ found.1, found.2)
      else
        let found := scan quoted 0 rest
        (backslashes (slashes / 2) ++ '"' :: found.1, found.2)
    else if isSeparator character && !quoted then (backslashes slashes, character :: rest)
    else
      let found := scan quoted 0 rest
      (backslashes slashes ++ character :: found.1, found.2)

theorem scan_length (quoted : Bool) (slashes : Nat) (text : List Char) :
    (scan quoted slashes text).2.length ≤ text.length := by
  induction text generalizing quoted slashes with
  | nil => simp [scan]
  | cons character rest ih =>
    have step (quoted : Bool) (slashes : Nat) := Nat.le_succ_of_le (ih quoted slashes)
    unfold scan
    split
    · exact step _ _
    split
    · split <;> exact step _ _
    split
    · exact Nat.le_refl _
    · exact step _ _

/-- An argument takes its first character. -/
theorem scan_cons_length {character : Char} (plain : isSeparator character = false)
    (rest : List Char) : (scan false 0 (character :: rest)).2.length ≤ rest.length := by
  unfold scan
  rw [plain]
  split
  · exact scan_length _ _ _
  split
  · exact scan_length _ _ _
  · exact scan_length _ _ _

/-- The arguments of a text. -/
def arguments (text : List Char) : List (List Char) :=
  match text with
  | [] => []
  | character :: rest =>
    if separator : isSeparator character then arguments rest
    else
      have _shorter := scan_cons_length (Bool.eq_false_iff.mpr separator) rest
      let found := scan false 0 (character :: rest)
      found.1 :: arguments found.2
  termination_by text.length
  decreasing_by
    · simp
    · simpa using Nat.lt_succ_of_le _shorter

/-- The name of the program: up to the next quote, or up to the next white space. -/
def programName : List Char → List Char
  | '"' :: rest => rest.takeWhile (· ≠ '"')
  | text => text.takeWhile fun character => !isSeparator character

/-- What follows the name of the program. -/
def afterProgram : List Char → List Char
  | '"' :: rest => (rest.dropWhile (· ≠ '"')).drop 1
  | text => text.dropWhile fun character => !isSeparator character

/-- `CommandLineToArgvW`. -/
def commandLineToArgv (line : List Char) : List (List Char) :=
  programName line :: arguments (afterProgram line)

/-- The text after an argument: nothing, or white space. -/
def Ends (text : List Char) : Prop :=
  ∀ character ∈ text.head?, isSeparator character = true

section Scanning

variable {quoted : Bool} {slashes : Nat} {character : Char} {text rest : List Char}

theorem scan_nil : scan quoted slashes [] = (backslashes slashes, []) := rfl

theorem scan_slash : scan quoted slashes ('\\' :: rest) = scan quoted (slashes + 1) rest := by
  rw [scan, if_pos rfl]

theorem scan_quote_even (even : slashes % 2 = 0) : scan quoted slashes ('"' :: rest) =
    (backslashes (slashes / 2) ++ (scan (!quoted) 0 rest).1, (scan (!quoted) 0 rest).2) := by
  rw [scan, if_neg (by decide), if_pos rfl, if_pos even]

theorem scan_quote_odd (odd : slashes % 2 = 1) : scan quoted slashes ('"' :: rest) =
    (backslashes (slashes / 2) ++ '"' :: (scan quoted 0 rest).1, (scan quoted 0 rest).2) := by
  rw [scan, if_neg (by decide), if_pos rfl, if_neg (by omega)]

/-- A character without a meaning of its own. -/
theorem scan_plain (noSlash : character ≠ '\\') (noQuote : character ≠ '"')
    (inside : isSeparator character = false ∨ quoted = true) :
    scan quoted slashes (character :: rest) =
      (backslashes slashes ++ character :: (scan quoted 0 rest).1, (scan quoted 0 rest).2) := by
  have goesOn : (isSeparator character && !quoted) = false := by
    rcases inside with plain | rfl
    · simp [plain]
    · simp
  rw [scan, if_neg noSlash, if_neg noQuote, goesOn]
  rfl

/-- White space has no meaning of its own. -/
theorem separator_plain (separator : isSeparator character = true) :
    character ≠ '\\' ∧ character ≠ '"' := by
  constructor <;>
    · rintro rfl
      exact absurd separator (by decide)

/-- The end of an argument. -/
theorem scan_ends (ends : Ends text) : scan false slashes text = (backslashes slashes, text) := by
  cases text with
  | nil => rfl
  | cons character rest =>
    have separator : isSeparator character = true := ends character rfl
    obtain ⟨noSlash, noQuote⟩ := separator_plain separator
    rw [scan, if_neg noSlash, if_neg noQuote, separator]
    rfl

/-- An argument with nothing in it that has a meaning of its own. -/
theorem scan_word {word : List Char}
    (plain : ∀ character ∈ word, isSeparator character = false ∧ character ≠ '"')
    (ends : Ends rest) :
    scan false slashes (word ++ rest) = (backslashes slashes ++ word, rest) := by
  induction word generalizing slashes with
  | nil => simpa using scan_ends ends
  | cons character word ih =>
    rw [List.forall_mem_cons] at plain
    rw [List.cons_append]
    by_cases isSlash : character = '\\'
    · subst isSlash
      rw [scan_slash, ih plain.2, backslashes, List.replicate_succ', List.append_assoc]
      rfl
    · rw [scan_plain isSlash plain.1.2 (.inl plain.1.1), ih plain.2]
      rfl

/-- Backslashes leave something, whatever follows them. -/
theorem scan_slashes_ne_nil (text : List Char) : (scan quoted (slashes + 1) text).1 ≠ [] := by
  induction text generalizing slashes with
  | nil => simp [scan_nil, backslashes]
  | cons character rest ih =>
    rw [scan]
    split
    · exact ih
    split
    · split
      · have some : (slashes + 1) / 2 ≠ 0 := by omega
        simp [backslashes, some]
      · simp
    split <;> simp [backslashes]

end Scanning

section Arguments

variable {character : Char} {rest : List Char}

@[simp] theorem arguments_nil : arguments [] = [] := by
  rw [arguments]

theorem arguments_separator (separator : isSeparator character = true) :
    arguments (character :: rest) = arguments rest := by
  rw [arguments, dif_pos separator]

theorem arguments_cons (plain : isSeparator character = false) :
    arguments (character :: rest) =
      (scan false 0 (character :: rest)).1 :: arguments (scan false 0 (character :: rest)).2 := by
  rw [arguments, dif_neg (by simp [plain])]

end Arguments

end MastProvisioning.PowerShell
