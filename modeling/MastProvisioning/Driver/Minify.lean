import MastProvisioning.PowerShell.Elements
import MastProvisioning.Tools.ManifestReaders

/-!
# Minifying a script

`_minify_ps` shrinks a script before it is sent in one command line. One regular expression
removes block comments; then the lines are stripped, and those that are empty or begin with
a number sign are left out. Neither knows of strings, continuations or tokens.

What the stripping of lines does is stated for a front that it leaves as it is.
-/

namespace MastProvisioning.Driver.Minify

open MastProvisioning.Collections.Patterns (dropWord firstMatch firstMatch_mark removeFrom)
open MastProvisioning.PowerShell.SettingsFile (Text)
open MastProvisioning.Tools.ManifestReaders.Report (endsLine splitlines isSpace strip)
open MastProvisioning.PowerShell.Elements (LineEnd)

section Operations

/-- What follows `<#.*?#>` at the start of a text; the point matches line ends. -/
def blockEnd (text : Text) : Option Text :=
  (dropWord id "<#".toList text).bind fun body =>
    (firstMatch id [.word "#>".toList] body).map Prod.snd

/-- `re.sub(r"<#.*?#>", "", raw, flags=re.DOTALL)`. -/
def removeBlocks (raw : Text) : Text := removeFrom blockEnd 0 raw

/-- A line that stays: `not (not stripped or stripped.startswith("#"))`. -/
def stays (stripped : Text) : Bool :=
  !(stripped == [] || stripped.head? == some '#')

/-- `out`, of lines. -/
def kept (lines : List Text) : List Text := (lines.map strip).filter stays

/-- `out`, of a text. -/
def keptLines (text : Text) : List Text := kept (splitlines text)

/-- `"\n".join(out)`. -/
def joinLines (lines : List Text) : Text := ['\n'].intercalate lines

/-- The loop over the lines. -/
def stripLines (text : Text) : Text := joinLines (keptLines text)

/-- `_minify_ps`. -/
def minifyPs (raw : Text) : Text := stripLines (removeBlocks raw)

end Operations

section Lines

theorem kept_append (lines more : List Text) : kept (lines ++ more) = kept lines ++ kept more := by
  rw [kept, List.map_append, List.filter_append, kept, kept]

theorem kept_cons (line : Text) (lines : List Text) : kept (line :: lines) = kept [line] ++ kept lines :=
  kept_append [line] lines

theorem kept_blank : kept [[]] = [] := rfl

theorem kept_strip {first second : Text} (same : strip first = strip second) (lines : List Text) :
    kept (first :: lines) = kept (second :: lines) := by
  rw [kept, List.map_cons, same, kept, List.map_cons]

/-- How the lines of a text are when every character that ends one is by itself: the first is
the same and of the others the same are kept. -/
def Matches (text : Text) (lines : List Text) : Prop :=
  ∃ first later, text.splitOnP endsLine = first :: later ∧
    ((lines = [] ∧ first = [] ∧ later = []) ∨
      ∃ others, lines = first :: others ∧ kept others = kept later)

theorem Matches.kept {text : Text} {lines : List Text} (same : Matches text lines) :
    kept lines = kept (text.splitOnP endsLine) := by
  obtain ⟨first, later, split, ⟨rfl, rfl, rfl⟩ | ⟨others, rfl, others'⟩⟩ := same
  · rw [split]
    rfl
  · rw [split, kept_cons, others', ← kept_cons]

/-- A character that ends no line joins the first. -/
theorem splitOnP_join {character : Char} {rest first : Text} {later : List Text}
    (goesOn : endsLine character = false) (split : rest.splitOnP endsLine = first :: later) :
    (character :: rest).splitOnP endsLine = (character :: first) :: later := by
  rw [List.splitOnP_cons_eq_if_modifyHead, goesOn, split]
  rfl

theorem splitOnP_end {character : Char} (ends : endsLine character = true) (rest : Text) :
    (character :: rest).splitOnP endsLine = [] :: rest.splitOnP endsLine := by
  rw [List.splitOnP_cons_eq_if_modifyHead, if_pos ends]

theorem matches_splitlines (text : Text) : Matches text (splitlines text) := by
  fun_induction splitlines text with
  | case1 => exact ⟨[], [], rfl, .inl ⟨rfl, rfl, rfl⟩⟩
  | case2 rest ih =>
    have pair : ('\r' :: '\n' :: rest).splitOnP endsLine = [] :: [] :: rest.splitOnP endsLine := by
      rw [splitOnP_end (by decide), splitOnP_end (by decide)]
    refine ⟨[], [] :: rest.splitOnP endsLine, pair, .inr ⟨splitlines rest, rfl, ?_⟩⟩
    rw [ih.kept, kept_cons [], kept_blank, List.nil_append]
  | case3 character rest _ ends ih =>
    exact ⟨[], rest.splitOnP endsLine, splitOnP_end ends rest, .inr ⟨splitlines rest, rfl, ih.kept⟩⟩
  | case4 character rest _ goesOn none ih =>
    obtain ⟨first, later, split, ⟨-, rfl, rfl⟩ | ⟨others, some, -⟩⟩ := ih
    · exact ⟨[character], [], splitOnP_join (Bool.eq_false_iff.mpr goesOn) split,
        .inr ⟨[], rfl, rfl⟩⟩
    · rw [none] at some
      cases some
  | case5 character rest _ goesOn line lines some ih =>
    obtain ⟨first, later, split, ⟨none, -, -⟩ | ⟨others, same, kept⟩⟩ := ih
    · rw [none] at some
      cases some
    · obtain ⟨rfl, rfl⟩ := List.cons.inj (some.symm.trans same)
      exact ⟨character :: line, later, splitOnP_join (Bool.eq_false_iff.mpr goesOn) split,
        .inr ⟨lines, rfl, kept⟩⟩

/-- A character that ends a line parts the lines before it from those behind it. -/
theorem keptLines_break {character : Char} (ends : endsLine character = true) (text rest : Text) :
    keptLines (text ++ character :: rest) = keptLines text ++ keptLines rest := by
  unfold keptLines
  rw [(matches_splitlines _).kept, List.splitOnP_append_cons _ _ ends, kept_append,
    (matches_splitlines text).kept, (matches_splitlines rest).kept]

/-- A text in which no line ends is one line. -/
theorem keptLines_line {line : Text} (plain : ∀ character ∈ line, endsLine character = false) :
    keptLines line = kept [line] := by
  unfold keptLines
  rw [(matches_splitlines line).kept, List.splitOnP_eq_singleton plain]

/-- What is stripped off the first line is not seen. -/
theorem keptLines_blank {character : Char} (blank : isSpace character = true)
    (goesOn : endsLine character = false) (rest : Text) :
    keptLines (character :: rest) = keptLines rest := by
  unfold keptLines
  obtain ⟨first, later, split⟩ := List.exists_cons_of_ne_nil (List.splitOnP_ne_nil endsLine rest)
  have stripped : strip (character :: first) = strip first := by
    rw [strip, List.dropWhile_cons_of_pos blank, strip]
  rw [(matches_splitlines _).kept, (matches_splitlines rest).kept, splitOnP_join goesOn split, split,
    kept_strip stripped]

theorem nonempty_of_mem_keptLines {text line : Text} (member : line ∈ keptLines text) : line ≠ [] := by
  rintro rfl
  have staying := (List.mem_filter.mp member).2
  cases staying

theorem joinLines_cons_cons (first second : Text) (lines : List Text) :
    joinLines (first :: second :: lines) = first ++ '\n' :: joinLines (second :: lines) := by
  simp [joinLines, List.intercalate]

theorem joinLines_append {lines more : List Text} (some : lines ≠ []) (others : more ≠ []) :
    joinLines (lines ++ more) = joinLines lines ++ '\n' :: joinLines more := by
  obtain ⟨next, later, rfl⟩ := List.exists_cons_of_ne_nil others
  induction lines with
  | nil => exact absurd rfl some
  | cons first lines ih =>
    cases lines with
    | nil =>
      rw [List.singleton_append, joinLines_cons_cons]
      simp [joinLines]
    | cons second lines =>
      rw [List.cons_append, List.cons_append, joinLines_cons_cons, ← List.cons_append,
        ih (List.cons_ne_nil _ _), joinLines_cons_cons, List.append_assoc, List.cons_append]

theorem joinLines_eq_nil {lines : List Text} (filled : ∀ line ∈ lines, line ≠ []) :
    joinLines lines = [] ↔ lines = [] := by
  constructor
  · intro empty
    cases lines with
    | nil => rfl
    | cons first lines =>
      have nonempty := filled first List.mem_cons_self
      cases lines with
      | nil => exact absurd (by simpa [joinLines] using empty) nonempty
      | cons second lines =>
        rw [joinLines_cons_cons] at empty
        exact absurd (List.append_eq_nil_iff.mp empty).1 nonempty
  · rintro rfl
    rfl

theorem stripLines_eq_nil {text : Text} : stripLines text = [] ↔ keptLines text = [] :=
  joinLines_eq_nil fun _ => nonempty_of_mem_keptLines

end Lines

section Fronts

/-- Begins with a character that is neither stripped nor the sign of a comment. -/
def StartsCode (text : Text) : Prop :=
  ∃ character rest, text = character :: rest ∧ isSpace character = false ∧ character ≠ '#'

/-- Ends with a character that is not stripped. -/
def EndsVisible (text : Text) : Prop :=
  ∃ front character, text = front ++ [character] ∧ isSpace character = false

/-- Every line in a text but the last ends as it is written, and every one but the first
begins so; the lines end by line feeds alone. -/
structure Lined (text : Text) : Prop where
  feeds : ∀ character ∈ text, endsLine character = true → character = '\n'
  around : ∀ before after, text = before ++ '\n' :: after → EndsVisible before ∧ StartsCode after

/-- A text that is left as it is. -/
structure Solid (text : Text) : Prop where
  starts : StartsCode text
  ends : EndsVisible text
  lined : Lined text

/-- Blanks on one line. -/
def Blanks (text : Text) : Prop :=
  ∀ character ∈ text, isSpace character = true ∧ endsLine character = false

theorem isSpace_of_endsLine {character : Char} (ends : endsLine character = true) :
    isSpace character = true := by
  simp only [endsLine, List.contains_iff_mem, List.mem_cons, List.not_mem_nil, or_false] at ends
  simp only [isSpace, PowerShell.SettingsFile.isSpace, Bool.or_eq_true, Bool.and_eq_true,
    decide_eq_true_eq, List.contains_iff_mem, List.mem_cons, List.not_mem_nil, or_false]
  omega

theorem StartsCode.append {text : Text} (starts : StartsCode text) (rest : Text) :
    StartsCode (text ++ rest) := by
  obtain ⟨character, more, rfl, visible, noComment⟩ := starts
  exact ⟨character, more ++ rest, rfl, visible, noComment⟩

theorem EndsVisible.append {text : Text} (ends : EndsVisible text) (before : Text) :
    EndsVisible (before ++ text) := by
  obtain ⟨front, character, rfl, visible⟩ := ends
  exact ⟨before ++ front, character, (List.append_assoc _ _ _).symm, visible⟩

theorem StartsCode.ne_nil {text : Text} (starts : StartsCode text) : text ≠ [] := by
  obtain ⟨character, rest, rfl, -⟩ := starts
  exact List.cons_ne_nil _ _

theorem EndsVisible.ne_nil {text : Text} (ends : EndsVisible text) : text ≠ [] := by
  obtain ⟨front, character, rfl, -⟩ := ends
  simp

theorem endsVisible_rdropWhile {text : Text} (some : text.rdropWhile isSpace ≠ []) :
    EndsVisible (text.rdropWhile isSpace) := by
  refine ⟨_, _, (List.dropLast_append_getLast some).symm, ?_⟩
  exact Bool.eq_false_iff.mpr (List.rdropWhile_last_not isSpace text some)

theorem strip_visible {line blanks : Text} (starts : StartsCode line) (ends : EndsVisible line)
    (blank : Blanks blanks) : strip (line ++ blanks) = line := by
  have front : (line ++ blanks).dropWhile isSpace = line ++ blanks := by
    obtain ⟨character, rest, rfl, visible, -⟩ := starts
    exact List.dropWhile_cons_of_neg (by simp [visible])
  have back : ∀ character ∈ blanks.reverse, isSpace character = true := fun character member =>
    (blank character (List.mem_reverse.mp member)).1
  obtain ⟨more, last, rfl, visible⟩ := ends
  rw [strip, front, List.rdropWhile, List.reverse_append, List.dropWhile_append_of_pos back,
    List.reverse_append, List.reverse_singleton, List.singleton_append,
    List.dropWhile_cons_of_neg (by simp [visible]), List.reverse_cons, List.reverse_reverse]

/-- A line of code stays. -/
theorem keptLines_code {line blanks : Text} (starts : StartsCode line) (ends : EndsVisible line)
    (plain : ∀ character ∈ line, endsLine character = false) (blank : Blanks blanks) :
    keptLines (line ++ blanks) = [line] := by
  have oneLine : ∀ character ∈ line ++ blanks, endsLine character = false := by
    intro character member
    rcases List.mem_append.mp member with inLine | inBlanks
    · exact plain character inLine
    · exact (blank character inBlanks).2
  have staying : stays line = true := by
    obtain ⟨character, rest, rfl, -, noComment⟩ := starts
    simp [stays, noComment]
  rw [keptLines_line oneLine, kept, List.map_singleton, strip_visible starts ends blank,
    List.filter_cons_of_pos staying, List.filter_nil]

/-- What follows a line feed in a solid text is solid. -/
theorem Solid.after {before after : Text} (solid : Solid (before ++ '\n' :: after)) :
    Solid after where
  starts := (solid.lined.around before after rfl).2
  ends := by
    obtain ⟨front, character, same, visible⟩ := solid.ends
    have nonempty := (solid.lined.around before after rfl).2.ne_nil
    have last : (before ++ '\n' :: after).getLast? = some character := by
      rw [same, List.getLast?_concat]
    rw [List.getLast?_append_of_ne_nil _ (List.cons_ne_nil _ _),
      List.getLast?_cons_of_ne_nil nonempty] at last
    obtain ⟨rest, rfl⟩ := List.getLast?_eq_some_iff.mp last
    exact ⟨rest, character, rfl, visible⟩
  lined :=
    { feeds := fun character member ends =>
        solid.lined.feeds character
          (List.mem_append_right _ (List.mem_cons_of_mem _ member)) ends
      around := by
        rintro first second rfl
        obtain ⟨ends, starts⟩ := solid.lined.around (before ++ '\n' :: first) second (by simp)
        refine ⟨?_, starts⟩
        obtain ⟨front, character, same, visible⟩ := ends
        have nonempty : first ≠ [] := by
          rintro rfl
          have last : (before ++ '\n' :: []).getLast? = some character := by
            rw [same, List.getLast?_concat]
          rw [List.getLast?_concat] at last
          obtain rfl := Option.some.inj last
          cases visible
        have last : (before ++ '\n' :: first).getLast? = some character := by
          rw [same, List.getLast?_concat]
        rw [List.getLast?_append_of_ne_nil _ (List.cons_ne_nil _ _),
          List.getLast?_cons_of_ne_nil nonempty] at last
        obtain ⟨rest, rfl⟩ := List.getLast?_eq_some_iff.mp last
        exact ⟨rest, character, rfl, visible⟩ }

/-- A solid front stays, and blanks behind it go. -/
theorem stripLines_solid {front blanks : Text} (solid : Solid front) (blank : Blanks blanks) :
    stripLines (front ++ blanks) = front := by
  induction length : front.length using Nat.strong_induction_on generalizing front with
  | _ count ih =>
    by_cases feed : '\n' ∈ front
    · obtain ⟨before, after, rfl, none⟩ := List.eq_append_cons_of_mem feed
      have plain : ∀ character ∈ before, endsLine character = false := by
        intro character member
        rw [← Bool.not_eq_true]
        intro ends
        obtain rfl := solid.lined.feeds character (List.mem_append_left _ member) ends
        exact none member
      obtain ⟨ends, -⟩ := solid.lined.around before after rfl
      have starts : StartsCode before := by
        obtain ⟨character, rest, same, visible, noComment⟩ := solid.starts
        obtain ⟨first, more, rfl⟩ := List.exists_cons_of_ne_nil ends.ne_nil
        obtain ⟨rfl, -⟩ := List.cons.inj same
        exact ⟨first, more, rfl, visible, noComment⟩
      have line : keptLines before = [before] := by
        have alone : keptLines (before ++ []) = [before] :=
          keptLines_code starts ends plain (by simp [Blanks])
        rwa [List.append_nil] at alone
      have rest : stripLines (after ++ blanks) = after :=
        ih after.length (by simp only [List.length_append, List.length_cons] at length; omega)
          solid.after rfl
      have some : keptLines (after ++ blanks) ≠ [] := by
        intro empty
        rw [← stripLines_eq_nil, rest] at empty
        exact solid.after.starts.ne_nil empty
      have shape : before ++ '\n' :: after ++ blanks = before ++ '\n' :: (after ++ blanks) := by simp
      rw [shape, stripLines, keptLines_break (by decide), line,
        joinLines_append (List.cons_ne_nil _ _) some, ← stripLines, rest]
      simp [joinLines]
    · have plain : ∀ character ∈ front, endsLine character = false := by
        intro character member
        rw [← Bool.not_eq_true]
        intro ends
        obtain rfl := solid.lined.feeds character member ends
        exact feed member
      rw [stripLines, keptLines_code solid.starts solid.ends plain blank]
      simp [joinLines]

theorem keptLines_ending (text : Text) (ending : LineEnd) (rest : Text) :
    keptLines (text ++ (ending.text ++ rest)) = keptLines text ++ keptLines rest := by
  have first {character : Char} (ends : endsLine character = true) :
      keptLines (character :: rest) = keptLines rest := keptLines_break ends [] rest
  cases ending with
  | feed => exact keptLines_break (by decide) text rest
  | carriage => exact keptLines_break (by decide) text rest
  | carriageFeed =>
    have pair : keptLines (text ++ '\r' :: '\n' :: rest) =
        keptLines text ++ keptLines ('\n' :: rest) := keptLines_break (by decide) text _
    rw [first (by decide)] at pair
    exact pair

/-- Where a line ends, the lines behind it follow. -/
theorem stripLines_break {front blanks : Text} (solid : Solid front) (blank : Blanks blanks)
    (ending : LineEnd) (rest : Text) :
    stripLines (front ++ (blanks ++ (ending.text ++ rest))) =
      front ++ (if stripLines rest = [] then [] else '\n' :: stripLines rest) := by
  have here : joinLines (keptLines (front ++ blanks)) = front := stripLines_solid solid blank
  have some : keptLines (front ++ blanks) ≠ [] := by
    intro empty
    rw [empty] at here
    exact solid.starts.ne_nil here.symm
  rw [← List.append_assoc front, stripLines, keptLines_ending]
  by_cases none : keptLines rest = []
  · rw [if_pos (stripLines_eq_nil.mpr none), none, List.append_nil, List.append_nil, here]
  · rw [if_neg (stripLines_eq_nil.not.mpr none), joinLines_append some none, here, stripLines]

/-- A front goes on behind blanks. -/
theorem Solid.append {front blanks core : Text} (solid : Solid front) (blank : Blanks blanks)
    (ends : EndsVisible core) (lined : Lined core) : Solid (front ++ (blanks ++ core)) where
  starts := solid.starts.append _
  ends := (ends.append blanks).append front
  lined :=
    { feeds := by
        intro character member isEnd
        rcases List.mem_append.mp member with inFront | later
        · exact solid.lined.feeds character inFront isEnd
        · rcases List.mem_append.mp later with inBlanks | inCore
          · rw [(blank character inBlanks).2] at isEnd
            cases isEnd
          · exact lined.feeds character inCore isEnd
      around := by
        intro before after same
        rcases List.append_eq_append_iff.mp same with ⟨more, rfl, rest⟩ | ⟨more, rfl, rest⟩
        · rcases List.append_eq_append_iff.mp rest with ⟨middle, rfl, inner⟩ | ⟨middle, rfl, inner⟩
          · obtain ⟨ends, starts⟩ := lined.around middle after inner
            exact ⟨(ends.append blanks).append front, starts⟩
          · cases middle with
            | nil =>
              obtain ⟨ends, -⟩ := lined.around [] after inner.symm
              exact absurd rfl ends.ne_nil
            | cons character middle =>
              obtain ⟨rfl, -⟩ := List.cons.inj inner
              have goesOn := (blank _ (List.mem_append_right _ List.mem_cons_self)).2
              cases goesOn
        · cases more with
          | nil =>
            rw [List.nil_append] at rest
            cases blanks with
            | nil =>
              obtain ⟨ends, -⟩ := lined.around [] after rest.symm
              exact absurd rfl ends.ne_nil
            | cons character blanks =>
              obtain ⟨rfl, -⟩ := List.cons.inj rest
              have goesOn := (blank _ List.mem_cons_self).2
              cases goesOn
          | cons character more =>
            obtain ⟨rfl, rfl⟩ := List.cons.inj rest
            obtain ⟨ends, starts⟩ := solid.lined.around before more rfl
            exact ⟨ends, starts.append _⟩ }

/-- A token whose lines are left as they are; only blanks at its end could be stripped. -/
structure Steady (token : Text) : Prop where
  starts : StartsCode token
  lined : Lined token

/-- The last character is one that would be stripped at the end of a line. -/
def endsBlank (text : Text) : Bool := text.getLast?.any isSpace

theorem Steady.split {token : Text} (steady : Steady token) :
    ∃ core blanks, token = core ++ blanks ∧ Solid core ∧ Blanks blanks ∧
      (endsBlank token = false → blanks = []) := by
  have whole : token = token.rdropWhile isSpace ++ token.rtakeWhile isSpace :=
    List.rdropWhile_append_rtakeWhile.symm
  have spaces : ∀ character ∈ token.rtakeWhile isSpace, isSpace character = true :=
    fun character => List.mem_rtakeWhile_imp
  have starts : StartsCode (token.rdropWhile isSpace) := by
    obtain ⟨character, rest, shape, visible, noComment⟩ := steady.starts
    cases core : token.rdropWhile isSpace with
    | nil =>
      have all := List.rdropWhile_eq_nil_iff.mp core character (shape ▸ List.mem_cons_self)
      rw [visible] at all
      cases all
    | cons first more =>
      rw [core, shape] at whole
      obtain ⟨rfl, -⟩ := List.cons.inj whole
      exact ⟨character, more, rfl, visible, noComment⟩
  have ends := endsVisible_rdropWhile starts.ne_nil
  have blank : Blanks (token.rtakeWhile isSpace) := by
    intro character member
    refine ⟨spaces character member, ?_⟩
    rw [← Bool.not_eq_true]
    intro isEnd
    obtain rfl := steady.lined.feeds character (whole ▸ List.mem_append_right _ member) isEnd
    obtain ⟨before, after, split⟩ := List.append_of_mem member
    rw [split, ← List.append_assoc] at whole
    obtain ⟨first, rest, rfl, visible, -⟩ := (steady.lined.around _ _ whole).2
    have space := spaces first (by rw [split]; simp)
    rw [visible] at space
    cases space
  refine ⟨_, _, whole, ⟨starts, ends, ?_, ?_⟩, blank, ?_⟩
  · intro character member
    exact steady.lined.feeds character (whole ▸ List.mem_append_left _ member)
  · intro before after same
    have joined : token = before ++ '\n' :: (after ++ token.rtakeWhile isSpace) := by
      rw [← List.cons_append, ← List.append_assoc, ← same]
      exact whole
    obtain ⟨endsHere, startsThere⟩ := steady.lined.around before _ joined
    refine ⟨endsHere, ?_⟩
    obtain ⟨front, last, shape, visible⟩ := ends
    cases after with
    | nil =>
      have lastly := congrArg List.getLast? (same.symm.trans shape)
      rw [List.getLast?_concat, List.getLast?_concat] at lastly
      obtain rfl := Option.some.inj lastly
      cases visible
    | cons first more =>
      obtain ⟨character, rest, begins, seen, noComment⟩ := startsThere
      obtain ⟨rfl, -⟩ := List.cons.inj begins
      exact ⟨first, more, rfl, seen, noComment⟩
  · intro notBlank
    rcases List.eq_nil_or_concat (token.rtakeWhile isSpace) with none | ⟨front, last, some⟩
    · exact none
    · have space := spaces last (by rw [some]; simp)
      rw [List.concat_eq_append] at some
      rw [whole, some, endsBlank, ← List.append_assoc, List.getLast?_concat] at notBlank
      rw [Option.any_some, space] at notBlank
      cases notBlank

end Fronts

end MastProvisioning.Driver.Minify
