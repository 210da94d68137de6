import MastProvisioning.PowerShell.CommandLine
import MastProvisioning.PowerShell.SettingsFile

/-!
# Command lines of child processes

`Invoke-MastChildCommandLine` splits a command line as Windows does and puts the
arguments together again for `Start-Process`, which adds the program in quotes in front.
It quotes an argument that has a blank or a quote in it and puts a backslash before each
quote. Backslashes that stand before a quote already, or before the closing one, and
arguments that are empty, it does not think of.
-/

namespace MastProvisioning.Unit.ChildCommand

open MastProvisioning.PowerShell MastProvisioning.PowerShell.SettingsFile

/-- `-replace "\r\n", ' ' -replace "\n", ' '`. -/
def replaceBreaks : Text → Text
  | '\r' :: '\n' :: rest => ' ' :: replaceBreaks rest
  | '\n' :: rest => ' ' :: replaceBreaks rest
  | character :: rest => character :: replaceBreaks rest
  | [] => []

/-- `ConvertTo-MastSingleCommandString` of a string. -/
def singleCommandString (value : Text) : Text :=
  ((replaceBreaks value).dropWhile isSpace).rdropWhile isSpace

/-- A file that can be started; no name of a file has a quote in it. -/
structure ProgramFile where
  path : Text
  plain : '"' ∉ path

/-- What the machine makes of the name of a program: the path `Get-Command` has for it,
and the file `Start-Process` finds, if it finds one. -/
structure Programs where
  getCommand : Text → Option Text
  startProcess : Text → Option ProgramFile

/-- The program to start: a bare name that ends in `.exe` is looked up. -/
def exePath (programs : Programs) (program : Text) : Text :=
  if !program.any (fun character => character = '\\' || character = '/') &&
      ".exe".toList.isSuffixOf (program.map Char.toLower) then
    (programs.getCommand program).getD program
  else program

/-- `-match '[ \t"]'`. -/
def needsQuotes (argument : Text) : Bool :=
  argument.any fun character => isSeparator character || character = '"'

/-- `-replace '"', '\"'`. -/
def escapeQuotes (argument : Text) : Text :=
  argument.flatMap fun character => if character = '"' then ['\\', '"'] else [character]

/-- An argument as it is put back into a line. -/
def requote (argument : Text) : Text :=
  if needsQuotes argument then '"' :: (escapeQuotes argument ++ ['"']) else argument

def argString (arguments : List Text) : Text :=
  [' '].intercalate (arguments.map requote)

/-- The line `Start-Process` makes of a file and its arguments. -/
def startLine (file : ProgramFile) (argumentList : Text) : Text :=
  '"' :: (file.path ++ '"' :: if argumentList = [] then [] else ' ' :: argumentList)

/-- `Invoke-MastChildCommandLine`: the line the child process is started with; `none` when
none is started. -/
def invoke (programs : Programs) (commandLine : Text) : Option Text :=
  let line := singleCommandString commandLine
  if line.all isSpace then none
  else
    match commandLineToArgv line with
    | [] => none
    | program :: arguments =>
      (programs.startProcess (exePath programs program)).map fun file =>
        startLine file (argString arguments)

/-- On every machine a child process gets the arguments its command line has, and its
program is the one the line names. -/
def Keeps (commandLine : Text) : Prop :=
  ∀ programs started, invoke programs commandLine = some started →
    ∃ file, programs.startProcess (exePath programs (programName commandLine)) = some file ∧
      commandLineToArgv started = file.path :: (commandLineToArgv commandLine).tail

/-- Making one line of a command leaves its arguments as they are. -/
def IsOneLine (commandLine : Text) : Prop :=
  commandLineToArgv (singleCommandString commandLine) = commandLineToArgv commandLine

/-- What quoting does not preserve: a backslash that stands before a quote, or at the end. -/
def Loses (argument : Text) : Prop :=
  ['\\', '"'] <:+: argument ∨ argument.getLast? = some '\\'

/-- An argument that comes through: it is not empty, and when it has to be quoted, no
backslash stands before a quote in it or at its end. -/
def ComesThrough (argument : Text) : Prop :=
  argument ≠ [] ∧ (needsQuotes argument = true → ¬Loses argument)

section Quoting

variable {argument rest given later : Text} {slashes : Nat}

@[simp] theorem escapeQuotes_nil : escapeQuotes [] = [] := rfl

theorem escapeQuotes_quote (argument : Text) :
    escapeQuotes ('"' :: argument) = '\\' :: '"' :: escapeQuotes argument := by
  simp [escapeQuotes]

theorem escapeQuotes_plain {character : Char} (plain : character ≠ '"') (argument : Text) :
    escapeQuotes (character :: argument) = character :: escapeQuotes argument := by
  simp [escapeQuotes, plain]

theorem backslashes_append_slash (slashes : Nat) (argument : Text) :
    backslashes slashes ++ '\\' :: argument = backslashes (slashes + 1) ++ argument := by
  rw [backslashes, backslashes, List.replicate_succ', List.append_assoc]
  rfl

theorem not_loses_nil : ¬Loses [] := by
  rintro (pair | last)
  · exact absurd pair.length_le (by decide)
  · exact absurd last (by decide)

theorem loses_backslashes (slashes : Nat) : Loses (backslashes (slashes + 1)) :=
  .inr (by simp [backslashes, List.getLast?_replicate])

theorem loses_pair (slashes : Nat) (argument : Text) :
    Loses (backslashes (slashes + 1) ++ '"' :: argument) := by
  refine .inl ⟨backslashes slashes, argument, ?_⟩
  rw [← backslashes_append_slash]
  simp

/-- A quote at the beginning does no harm. -/
theorem loses_quote : Loses ('"' :: argument) ↔ Loses argument := by
  have pairs : ['\\', '"'] <:+: '"' :: argument ↔ ['\\', '"'] <:+: argument := by
    rw [List.infix_cons_iff, List.cons_prefix_cons]
    simp
  have lasts : ('"' :: argument).getLast? = some '\\' ↔ argument.getLast? = some '\\' := by
    cases argument with
    | nil => decide
    | cons character argument => rw [List.getLast?_cons_cons]
  rw [Loses, pairs, lasts, Loses]

/-- A character that is no mark ends what backslashes stand before. -/
theorem loses_plain {character : Char} (noSlash : character ≠ '\\') (noQuote : character ≠ '"') :
    Loses (backslashes slashes ++ character :: argument) ↔ Loses argument := by
  have pairs : ['\\', '"'] <:+: backslashes slashes ++ character :: argument ↔
      ['\\', '"'] <:+: argument := by
    induction slashes with
    | zero =>
      have first : ¬ ['\\', '"'] <+: character :: argument := by
        rw [List.cons_prefix_cons]
        exact fun same => noSlash same.1.symm
      change ['\\', '"'] <:+: character :: argument ↔ _
      rw [List.infix_cons_iff]
      simp [first]
    | succ slashes ih =>
      have first : ¬ ['\\', '"'] <+: '\\' :: (backslashes slashes ++ character :: argument) := by
        rw [List.cons_prefix_cons]
        cases slashes with
        | zero => simpa [backslashes] using Ne.symm noQuote
        | succ slashes => simp [backslashes, List.replicate_succ]
      have shape : backslashes (slashes + 1) ++ character :: argument =
          '\\' :: (backslashes slashes ++ character :: argument) := rfl
      rw [shape, List.infix_cons_iff, ih]
      simp [first]
  have lasts : (backslashes slashes ++ character :: argument).getLast? = some '\\' ↔
      argument.getLast? = some '\\' := by
    cases argument with
    | nil => simpa using noSlash
    | cons head argument => simp [List.getLast?_append, List.getLast?_cons_cons]
  rw [Loses, pairs, lasts, Loses]

/-- A quoted part is read back when quoting preserves it. -/
theorem scan_escaped (preserved : ¬Loses (backslashes slashes ++ argument)) (ends : Ends rest) :
    scan true slashes (escapeQuotes argument ++ '"' :: rest) =
      (backslashes slashes ++ argument, rest) := by
  induction argument generalizing slashes with
  | nil =>
    cases slashes with
    | zero =>
      rw [escapeQuotes_nil, List.nil_append, scan_quote_even rfl, Bool.not_true, scan_ends ends]
      rfl
    | succ slashes =>
      rw [List.append_nil] at preserved
      exact absurd (loses_backslashes slashes) preserved
  | cons character argument ih =>
    by_cases isSlash : character = '\\'
    · subst isSlash
      rw [backslashes_append_slash] at preserved ⊢
      rw [escapeQuotes_plain (by decide), List.cons_append, scan_slash]
      exact ih preserved
    by_cases isQuote : character = '"'
    · subst isQuote
      cases slashes with
      | zero =>
        have later : ¬Loses (backslashes 0 ++ argument) := fun loses =>
          preserved (loses_quote.mpr loses)
        rw [escapeQuotes_quote, List.cons_append, List.cons_append, scan_slash,
          scan_quote_odd rfl, ih later]
        rfl
      | succ slashes => exact absurd (loses_pair slashes argument) preserved
    · have later : ¬Loses (backslashes 0 ++ argument) := fun loses =>
        preserved ((loses_plain isSlash isQuote).mpr loses)
      rw [escapeQuotes_plain isQuote, List.cons_append,
        scan_plain isSlash isQuote (.inr rfl), ih later]
      rfl

/-- What is left of a prefix once the beginning of the longer text is taken off. -/
theorem prefix_rest {given beginning more later : Text} (long : beginning.length ≤ given.length)
    (isPrefix : given ++ later <+: beginning ++ more) :
    ∃ left, given = beginning ++ left ∧ left ++ later <+: more := by
  obtain ⟨after, same⟩ := isPrefix
  rw [List.append_assoc, List.append_eq_append_iff] at same
  rcases same with ⟨left, isBeginning, isRest⟩ | ⟨left, isGiven, isMore⟩
  · have none : left = [] := by
      have total := congrArg List.length isBeginning
      rw [List.length_append] at total
      exact List.length_eq_zero_iff.mp (by omega)
    subst none
    exact ⟨[], by simpa using isBeginning.symm, after, by simpa using isRest⟩
  · exact ⟨left, isGiven, after, by rw [isMore, List.append_assoc]⟩

/-- Backslashes and quotes. -/
def Marks (text : Text) : Prop :=
  ∀ character ∈ text, character = '\\' ∨ character = '"'

/-- A prefix that goes on with marks does not go on with anything else. -/
theorem Marks.not_prefix {beginning more : Text} {character : Char} (marks : Marks given)
    (long : beginning.length < given.length) (noSlash : character ≠ '\\')
    (noQuote : character ≠ '"') : ¬ given ++ later <+: beginning ++ character :: more := by
  intro isPrefix
  obtain ⟨left, rfl, ⟨after, same⟩⟩ := prefix_rest long.le isPrefix
  cases left with
  | nil => simp at long
  | cons head left =>
    obtain rfl : head = character := (List.cons.inj same).1
    rcases marks head (by simp) with isSlash | isQuote
    · exact noSlash isSlash
    · exact noQuote isQuote

/-- What is scanned of the text after an argument: nothing, or white space that has come to
stand inside of quotes. -/
theorem scan_after (quoted : Bool) (ends : Ends rest) :
    (scan quoted 0 rest).1 = [] ∨
      ∃ character more, (scan quoted 0 rest).1 = character :: more ∧
        isSeparator character = true := by
  cases quoted with
  | false => exact .inl (by rw [scan_ends ends]; rfl)
  | true =>
    cases rest with
    | nil => exact .inl rfl
    | cons character rest =>
      have separator : isSeparator character = true := ends character rfl
      obtain ⟨noSlash, noQuote⟩ := separator_plain separator
      refine .inr ⟨character, (scan true 0 rest).1, ?_, separator⟩
      rw [scan_plain noSlash noQuote (.inr rfl)]
      rfl

/-- Marks that are more than what has been scanned so far do not go on with what comes
before the end of the argument. -/
theorem Marks.not_prefix_after {beginning : Text} (marks : Marks given)
    (long : beginning.length < given.length) (quoted : Bool) (ends : Ends rest) :
    ¬ given <+: beginning ++ (scan quoted 0 rest).1 := by
  rcases scan_after quoted ends with nothing | ⟨character, more, isMore, separator⟩
  · rw [nothing, List.append_nil]
    intro isPrefix
    exact absurd isPrefix.length_le (by omega)
  · rw [isMore]
    intro isPrefix
    rw [← List.append_nil given] at isPrefix
    exact marks.not_prefix long (separator_plain separator).1 (separator_plain separator).2 isPrefix

theorem length_backslashes (count : Nat) : (backslashes count).length = count :=
  List.length_replicate

/-- Once something has been lost, what is scanned never catches up with the argument. What
is `given` of the argument already is made of marks, and longer than what is still held
back. -/
theorem Marks.not_prefix_scan (marks : Marks given) (long : slashes < given.length)
    (quoted : Bool) (ends : Ends rest) :
    ¬ given ++ argument <+: (scan quoted slashes (escapeQuotes argument ++ '"' :: rest)).1 := by
  induction argument generalizing given slashes quoted with
  | nil =>
    rw [escapeQuotes_nil, List.nil_append, List.append_nil]
    rcases Nat.mod_two_eq_zero_or_one slashes with even | odd
    · rw [scan_quote_even even]
      exact marks.not_prefix_after (by rw [length_backslashes]; omega) _ ends
    · have shape : backslashes (slashes / 2) ++ '"' :: (scan quoted 0 rest).1 =
          (backslashes (slashes / 2) ++ ['"']) ++ (scan quoted 0 rest).1 := by simp
      rw [scan_quote_odd odd, shape]
      refine marks.not_prefix_after ?_ _ ends
      rw [List.length_append, length_backslashes, List.length_singleton]
      omega
  | cons character argument ih =>
    have moved : given ++ character :: argument = (given ++ [character]) ++ argument := by simp
    by_cases isSlash : character = '\\'
    · subst isSlash
      have more : Marks (given ++ ['\\']) := by
        intro character member
        rcases List.mem_append.mp member with old | new
        · exact marks character old
        · exact .inl (List.mem_singleton.mp new)
      rw [escapeQuotes_plain (by decide), List.cons_append, scan_slash, moved]
      exact ih more (by rw [List.length_append, List.length_singleton]; omega) quoted
    by_cases isQuote : character = '"'
    · subst isQuote
      have more : Marks (given ++ ['"']) := by
        intro character member
        rcases List.mem_append.mp member with old | new
        · exact marks character old
        · exact .inr (List.mem_singleton.mp new)
      have length : (given ++ ['"']).length = given.length + 1 := by simp
      rw [escapeQuotes_quote, List.cons_append, List.cons_append, scan_slash, moved]
      intro isPrefix
      rcases Nat.mod_two_eq_zero_or_one (slashes + 1) with even | odd
      · rw [scan_quote_even even] at isPrefix
        obtain ⟨left, isLeft, leftPrefix⟩ := prefix_rest
          (by rw [length_backslashes, length]; omega) isPrefix
        have lengths := congrArg List.length isLeft
        rw [length, List.length_append, length_backslashes] at lengths
        refine ih (fun character member => more character ?_) (by omega) (!quoted) leftPrefix
        rw [isLeft]
        exact List.mem_append_right _ member
      · have shape : backslashes ((slashes + 1) / 2) ++
            '"' :: (scan quoted 0 (escapeQuotes argument ++ '"' :: rest)).1 =
            (backslashes ((slashes + 1) / 2) ++ ['"']) ++
              (scan quoted 0 (escapeQuotes argument ++ '"' :: rest)).1 := by simp
        rw [scan_quote_odd odd, shape] at isPrefix
        obtain ⟨left, isLeft, leftPrefix⟩ := prefix_rest
          (by rw [List.length_append, length_backslashes, length, List.length_singleton]; omega)
          isPrefix
        have lengths := congrArg List.length isLeft
        rw [length, List.length_append, List.length_append, length_backslashes,
          List.length_singleton] at lengths
        refine ih (fun character member => more character ?_) (by omega) quoted leftPrefix
        rw [isLeft]
        exact List.mem_append_right _ member
    · rw [escapeQuotes_plain isQuote, List.cons_append]
      by_cases inside : isSeparator character = false ∨ quoted = true
      · rw [scan_plain isSlash isQuote inside]
        exact marks.not_prefix (by rw [length_backslashes]; exact long) isSlash isQuote
      · have stops : isSeparator character = true ∧ quoted = false := by
          rw [not_or] at inside
          simpa using inside
        have endsHere : Ends (character :: (escapeQuotes argument ++ '"' :: rest)) := by
          intro first isFirst
          obtain rfl := Option.some.inj isFirst
          exact stops.1
        rw [stops.2, scan_ends endsHere]
        intro isPrefix
        have lengths := isPrefix.length_le
        rw [List.length_append, length_backslashes] at lengths
        omega

theorem backslashes_not_prefix {fewer more : Nat} (less : fewer < more) (argument text : Text) :
    ¬ backslashes more ++ argument <+: backslashes fewer ++ '"' :: text := by
  obtain ⟨extra, rfl⟩ := Nat.exists_eq_add_of_lt less
  have shape : backslashes (fewer + extra + 1) = backslashes fewer ++ '\\' :: backslashes extra := by
    rw [backslashes_append_slash, backslashes, backslashes, backslashes, List.replicate_append_replicate]
    congr 1
    omega
  rw [shape, List.append_assoc, List.prefix_append_right_inj, List.cons_append, List.cons_prefix_cons]
  exact fun same => absurd same.1 (by decide)

/-- When quoting loses something, the argument that is read back does not begin with the
argument that was quoted. -/
theorem not_prefix_scan (loses : Loses (backslashes slashes ++ argument)) (ends : Ends rest) :
    ¬ backslashes slashes ++ argument <+:
      (scan true slashes (escapeQuotes argument ++ '"' :: rest)).1 := by
  have marks (slashes : Nat) : Marks (backslashes slashes) := fun character member =>
    .inl (List.eq_of_mem_replicate member)
  induction argument generalizing slashes with
  | nil =>
    rw [List.append_nil] at loses ⊢
    have some : 0 < slashes := by
      rcases Nat.eq_zero_or_pos slashes with rfl | some
      · exact absurd loses not_loses_nil
      · exact some
    rw [escapeQuotes_nil, List.nil_append]
    rcases Nat.mod_two_eq_zero_or_one slashes with even | odd
    · rw [scan_quote_even even]
      refine (marks slashes).not_prefix_after ?_ _ ends
      rw [length_backslashes, length_backslashes]
      omega
    · rw [scan_quote_odd odd, ← List.append_nil (backslashes slashes)]
      exact backslashes_not_prefix (by omega) _ _
  | cons character argument ih =>
    by_cases isSlash : character = '\\'
    · subst isSlash
      rw [backslashes_append_slash] at loses ⊢
      rw [escapeQuotes_plain (by decide), List.cons_append, scan_slash]
      exact ih loses
    by_cases isQuote : character = '"'
    · subst isQuote
      rw [escapeQuotes_quote, List.cons_append, List.cons_append, scan_slash]
      rcases Nat.mod_two_eq_zero_or_one (slashes + 1) with even | odd
      · -- The backslashes are an even number now, and the quote ends the quoted part.
        rw [scan_quote_even even]
        have shape : backslashes slashes ++ '"' :: argument =
            (backslashes slashes ++ ['"']) ++ argument := by simp
        rw [shape]
        intro isPrefix
        obtain ⟨left, isLeft, leftPrefix⟩ := prefix_rest
          (by rw [List.length_append, length_backslashes, length_backslashes,
            List.length_singleton]; omega) isPrefix
        have lengths := congrArg List.length isLeft
        rw [List.length_append, List.length_append, length_backslashes, length_backslashes,
          List.length_singleton] at lengths
        have leftMarks : Marks left := by
          intro character member
          have inBoth : character ∈ backslashes slashes ++ ['"'] := by
            rw [isLeft]
            exact List.mem_append_right _ member
          rcases List.mem_append.mp inBoth with old | new
          · exact marks slashes character old
          · exact .inr (List.mem_singleton.mp new)
        exact leftMarks.not_prefix_scan (by omega) _ ends leftPrefix
      · rw [scan_quote_odd odd]
        rcases Nat.eq_zero_or_pos slashes with rfl | some
        · have later : Loses (backslashes 0 ++ argument) := loses_quote.mp loses
          change ¬ '"' :: argument <+: '"' :: _
          rw [List.cons_prefix_cons]
          exact fun same => ih later same.2
        · exact backslashes_not_prefix (by omega) _ _
    · have later : Loses (backslashes 0 ++ argument) := (loses_plain isSlash isQuote).mp loses
      rw [escapeQuotes_plain isQuote, List.cons_append, scan_plain isSlash isQuote (.inr rfl),
        List.prefix_append_right_inj, List.cons_prefix_cons]
      exact fun same => ih later same.2

end Quoting

section Joining

variable {argument rest : Text} {args : List Text}

/-- The arguments as they follow what is before them. -/
def following (args : List Text) : Text :=
  args.flatMap fun argument => ' ' :: requote argument

theorem following_cons (argument : Text) (args : List Text) :
    following (argument :: args) = ' ' :: (requote argument ++ following args) := by
  simp [following]

theorem following_ends (args : List Text) : Ends (following args) := by
  cases args with
  | nil => simp [Ends, following]
  | cons argument args =>
    rw [following_cons]
    intro first isFirst
    obtain rfl := Option.some.inj isFirst
    rfl

theorem argString_cons (argument : Text) (args : List Text) :
    argString (argument :: args) = requote argument ++ following args := by
  unfold argString
  induction args generalizing argument with
  | nil => simp [following]
  | cons second args ih =>
    rw [List.map_cons, List.map_cons, List.intercalate_cons_cons, ← List.map_cons, ih, following_cons]
    simp

/-- What begins an argument that is not quoted. -/
theorem requote_plain (plain : needsQuotes argument = false) : requote argument = argument := by
  rw [requote, plain]
  rfl

theorem requote_quoted (quoted : needsQuotes argument = true) :
    requote argument = '"' :: (escapeQuotes argument ++ ['"']) := by
  rw [requote, if_pos quoted]

theorem plain_of_needsQuotes (plain : needsQuotes argument = false) :
    ∀ character ∈ argument, isSeparator character = false ∧ character ≠ '"' := by
  intro character member
  have checked := List.any_eq_false.mp plain character member
  simpa using checked

/-- An argument that comes through is read back. -/
theorem arguments_comesThrough (through : ComesThrough argument) (ends : Ends rest) :
    arguments (requote argument ++ rest) = argument :: arguments rest := by
  cases isQuoted : needsQuotes argument with
  | false =>
    obtain ⟨first, more, rfl⟩ := List.exists_cons_of_ne_nil through.1
    have plain := plain_of_needsQuotes isQuoted
    have scanned : scan false 0 (first :: more ++ rest) = (first :: more, rest) := scan_word plain ends
    rw [requote_plain isQuoted, List.cons_append, arguments_cons (plain first List.mem_cons_self).1,
      ← List.cons_append, scanned]
  | true =>
    have preserved : ¬Loses (backslashes 0 ++ argument) := through.2 isQuoted
    have scanned := scan_escaped preserved ends
    rw [requote_quoted isQuoted, List.cons_append, arguments_cons (by decide), scan_quote_even rfl,
      List.append_assoc, List.singleton_append, Bool.not_false, scanned]
    rfl

/-- An argument that is not empty does not become empty. -/
theorem scan_requote_ne_nil (nonempty : argument ≠ []) (rest : Text) :
    (scan false 0 (requote argument ++ rest)).1 ≠ [] := by
  obtain ⟨first, more, rfl⟩ := List.exists_cons_of_ne_nil nonempty
  cases isQuoted : needsQuotes (first :: more) with
  | false =>
    have plain := plain_of_needsQuotes isQuoted first List.mem_cons_self
    rw [requote_plain isQuoted, List.cons_append]
    by_cases isSlash : first = '\\'
    · subst isSlash
      rw [scan_slash]
      exact scan_slashes_ne_nil _
    · rw [scan_plain isSlash plain.2 (.inl plain.1)]
      simp
  | true =>
    rw [requote_quoted isQuoted, List.cons_append, scan_quote_even rfl, Bool.not_false]
    apply List.append_ne_nil_of_right_ne_nil
    by_cases isQuote : first = '"'
    · subst isQuote
      rw [escapeQuotes_quote, List.cons_append, List.cons_append, scan_slash]
      exact scan_slashes_ne_nil _
    by_cases isSlash : first = '\\'
    · subst isSlash
      rw [escapeQuotes_plain isQuote, List.cons_append, List.cons_append, scan_slash]
      exact scan_slashes_ne_nil _
    · rw [escapeQuotes_plain isQuote, List.cons_append, List.cons_append,
        scan_plain isSlash isQuote (.inr rfl)]
      simp

theorem arguments_requote (nonempty : argument ≠ []) (rest : Text) :
    arguments (requote argument ++ rest) =
      (scan false 0 (requote argument ++ rest)).1 ::
        arguments (scan false 0 (requote argument ++ rest)).2 := by
  obtain ⟨first, more, rfl⟩ := List.exists_cons_of_ne_nil nonempty
  cases isQuoted : needsQuotes (first :: more) with
  | false =>
    rw [requote_plain isQuoted]
    exact arguments_cons (plain_of_needsQuotes isQuoted first List.mem_cons_self).1
  | true =>
    rw [requote_quoted isQuoted]
    exact arguments_cons (by decide)

theorem arguments_following_cons (argument : Text) (args : List Text) :
    arguments (following (argument :: args)) =
      arguments (requote argument ++ following args) := by
  rw [following_cons]
  exact arguments_separator (by decide)

/-- Of arguments that are put together, none is read as an empty one in the first place. -/
theorem arguments_following_ne (args : List Text) (more : List Text) :
    arguments (following args) ≠ [] :: more := by
  induction args with
  | nil => simp [following]
  | cons argument args ih =>
    rw [arguments_following_cons]
    by_cases isEmpty : argument = []
    · subst isEmpty
      exact ih
    · rw [arguments_requote isEmpty]
      exact fun same => scan_requote_ne_nil isEmpty _ (List.cons.inj same).1

/-- The arguments are read back exactly when every one comes through. -/
theorem arguments_following_iff (args : List Text) :
    arguments (following args) = args ↔ ∀ argument ∈ args, ComesThrough argument := by
  induction args with
  | nil => simp [following]
  | cons argument args ih =>
    rw [arguments_following_cons, List.forall_mem_cons]
    by_cases through : ComesThrough argument
    · rw [arguments_comesThrough through (following_ends args), List.cons.injEq, ih]
      simp [through]
    · refine iff_of_false (fun same => through ?_) (fun holds => through holds.1)
      by_cases isEmpty : argument = []
      · subst isEmpty
        exact absurd same (arguments_following_ne args args)
      refine ⟨isEmpty, fun isQuoted loses => ?_⟩
      -- The first of the arguments that are read does not begin with this one.
      rw [arguments_requote isEmpty, requote_quoted isQuoted, List.cons_append,
        scan_quote_even rfl, List.append_assoc, List.singleton_append] at same
      have whole : (scan true 0 (escapeQuotes argument ++ '"' :: following args)).1 = argument :=
        (List.cons.inj same).1
      have lost : Loses (backslashes 0 ++ argument) := loses
      refine not_prefix_scan lost (following_ends args) ?_
      rw [whole]
      exact List.prefix_rfl

theorem arguments_argString (args : List Text) :
    arguments (if argString args = [] then [] else ' ' :: argString args) =
      arguments (following args) := by
  cases args with
  | nil => simp [argString, following]
  | cons argument args =>
    rw [following_cons, argString_cons]
    split
    · rename_i nothing
      rw [nothing, arguments_separator (by decide)]
    · rfl

end Joining

/-- How the line of a child process splits. -/
theorem commandLineToArgv_startLine (file : ProgramFile) (args : List Text) :
    commandLineToArgv (startLine file (argString args)) =
      file.path :: arguments (following args) := by
  have plain : ∀ character ∈ file.path, (decide (character ≠ '"')) = true := by
    intro character member
    have different : character ≠ '"' := fun same => file.plain (same ▸ member)
    simpa using different
  have after (rest : Text) : (file.path ++ '"' :: rest).dropWhile (· ≠ '"') = '"' :: rest := by
    rw [List.dropWhile_append_of_pos plain]
    rfl
  have before (rest : Text) : (file.path ++ '"' :: rest).takeWhile (· ≠ '"') = file.path := by
    rw [List.takeWhile_append_of_pos plain]
    simp
  rw [commandLineToArgv, startLine, programName, afterProgram, before, after, List.drop_one,
    List.tail_cons, arguments_argString]

section OneLine

theorem replaceBreaks_plain {text : Text} (plain : '\n' ∉ text) : replaceBreaks text = text := by
  induction text using replaceBreaks.induct with
  | case1 rest ih => simp at plain
  | case2 rest ih => simp at plain
  | case3 character rest noBreak noFeed ih =>
    rw [List.mem_cons, not_or] at plain
    rw [replaceBreaks, ih plain.2]
    · exact fun more isReturn isBreak => noBreak more isReturn isBreak
    · exact noFeed
  | case4 => rfl

theorem lineFeed_notMem_replaceBreaks (text : Text) : '\n' ∉ replaceBreaks text := by
  induction text using replaceBreaks.induct with
  | case1 rest ih => simpa [replaceBreaks] using ih
  | case2 rest ih => simpa [replaceBreaks] using ih
  | case3 character rest noBreak noFeed ih =>
    rw [replaceBreaks, List.mem_cons, not_or]
    · exact ⟨fun same => noFeed same.symm, ih⟩
    · exact fun more isReturn isBreak => noBreak more isReturn isBreak
    · exact noFeed
  | case4 => simp [replaceBreaks]

/-- The callers hand over commands that are on one line already. -/
theorem isOneLine_singleCommandString (value : Text) : IsOneLine (singleCommandString value) := by
  have plain : '\n' ∉ singleCommandString value := by
    intro member
    refine lineFeed_notMem_replaceBreaks value ?_
    exact (List.dropWhile_sublist _).subset ((List.rdropWhile_prefix _ _).subset member)
  have again : singleCommandString (singleCommandString value) = singleCommandString value := by
    rw [singleCommandString, replaceBreaks_plain plain]
    exact trim_trim _
  rw [IsOneLine, again]

end OneLine

/-- A command of white space is no command. -/
theorem singleCommandString_eq_nil {value : Text}
    (blank : (singleCommandString value).all isSpace = true) : singleCommandString value = [] := by
  by_contra nonempty
  have last := List.rdropWhile_last_not isSpace _ nonempty
  exact last (List.all_eq_true.mp blank _ (List.getLast_mem nonempty))

theorem invoke_eq {commandLine : Text} (programs : Programs)
    (nonblank : (singleCommandString commandLine).all isSpace = false) :
    invoke programs commandLine =
      (programs.startProcess (exePath programs (programName (singleCommandString commandLine)))).map
        fun file => startLine file
          (argString (commandLineToArgv (singleCommandString commandLine)).tail) := by
  unfold invoke
  dsimp only
  rw [nonblank]
  rfl

/-- A command of white space has no arguments, and starts nothing. -/
theorem arguments_blank {commandLine : Text} (oneLine : IsOneLine commandLine)
    (blank : (singleCommandString commandLine).all isSpace = true) :
    (commandLineToArgv commandLine).tail = [] := by
  have splits : commandLineToArgv [] = commandLineToArgv commandLine :=
    singleCommandString_eq_nil blank ▸ oneLine
  rw [← splits]
  decide +kernel

/-- The arguments of a command on one line that is kept come through. -/
theorem Keeps.comesThrough {commandLine : Text} (keeps : Keeps commandLine)
    (oneLine : IsOneLine commandLine) :
    ∀ argument ∈ (commandLineToArgv commandLine).tail, ComesThrough argument := by
  cases isBlank : (singleCommandString commandLine).all isSpace with
  | true =>
    rw [arguments_blank oneLine isBlank]
    simp
  | false =>
    let anywhere : ProgramFile := ⟨[], by simp⟩
    have started := invoke_eq ⟨fun _ => none, fun _ => some anywhere⟩ isBlank
    obtain ⟨file, isFile, splits⟩ := keeps _ _ started
    rw [commandLineToArgv_startLine,
      show commandLineToArgv (singleCommandString commandLine) = _ from oneLine] at splits
    rw [← arguments_following_iff]
    exact (List.cons.inj splits).2

end MastProvisioning.Unit.ChildCommand
