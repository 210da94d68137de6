import Mathlib.Logic.Relation
import MastProvisioning.PowerShell.SettingsFile

/-!
# The lexical elements of a script

PowerShell's lexer cuts a script into tokens, blanks, line ends, line continuations and
comments. It is a parameter here: what is taken from it is that it loses no character and
that the layout of a script means nothing to it. Indentation, blanks at the end of a line,
comments and empty lines can be edited away, and the rest is cut as before.

What a script says is its tokens, line by line.
-/

namespace MastProvisioning.PowerShell.Elements

open SettingsFile (Text)

inductive LineEnd
  | feed
  | carriageFeed
  | carriage
deriving DecidableEq, Repr

def LineEnd.text : LineEnd → Text
  | .feed => ['\n']
  | .carriageFeed => ['\r', '\n']
  | .carriage => ['\r']

/-- An element of a script. A string of several lines is one token; a continuation is a
backtick and the line end behind it. -/
inductive Element
  | token (text : Text)
  | blank (character : Char)
  | continuation (ending : LineEnd)
  | lineComment (words : Text)
  | blockComment (words : Text)
  | newline (ending : LineEnd)
deriving DecidableEq, Repr

namespace Element

def text : Element → Text
  | .token written => written
  | .blank character => [character]
  | .continuation ending => '`' :: ending.text
  | .lineComment words => '#' :: words
  | .blockComment words => "<#".toList ++ (words ++ "#>".toList)
  | .newline ending => ending.text

def isNewline : Element → Bool
  | .newline _ => true
  | _ => false

def isContinuation : Element → Bool
  | .continuation _ => true
  | _ => false

def isBlank : Element → Bool
  | .blank _ => true
  | _ => false

def isBlockComment : Element → Bool
  | .blockComment _ => true
  | _ => false

/-- The element with a line feed for its line end. -/
def unix : Element → Element
  | .newline _ => .newline .feed
  | .continuation _ => .continuation .feed
  | element => element

/-- What an element says: a token itself, and where a line ends. -/
def said : Element → Option (Option Text)
  | .token written => some (some written)
  | .newline _ => some none
  | _ => none

end Element

/-- The text of elements. -/
def script (elements : List Element) : Text := elements.flatMap Element.text

/-- The elements without the block comments. -/
def visible (elements : List Element) : List Element :=
  elements.filter fun element => !element.isBlockComment

/-- The tokens of a script, line by line; lines without any are left out. -/
def logicalLines (elements : List Element) : List (List (Option Text)) :=
  ((elements.filterMap Element.said).splitOnP Option.isNone).filter (· ≠ [])

section Layout

/-- A new line begins behind the elements. -/
def StartsLine (before : List Element) : Prop :=
  ∀ element ∈ before.getLast?, element.isNewline = true

/-- What comes next is the first of its line, or continues one. -/
def Indents (before : List Element) : Prop :=
  ∀ element ∈ before.getLast?, element.isNewline = true ∨ element.isContinuation = true

/-- The line ends here. -/
def AtEnd (after : List Element) : Prop :=
  ∀ element ∈ after.head?, element.isNewline = true

instance (after : List Element) : Decidable (AtEnd after) :=
  inferInstanceAs (Decidable (∀ element ∈ after.head?, element.isNewline = true))

/-- Nothing but a block comment parts what comes next from a token before it. -/
def OpenBefore (before : List Element) : Prop :=
  ∀ element ∈ before.getLast?,
    element.isBlank = true ∨ element.isNewline = true ∨ element.isContinuation = true

/-- A blank or a line end follows, block comments aside. -/
def OpenAfter (after : List Element) : Prop :=
  ∀ element ∈ (visible after).head?, element.isBlank = true ∨ element.isNewline = true

/-- One edit of the layout. -/
inductive Edit : List Element → List Element → Prop
  | blockComment {before after : List Element} (words : Text)
      (parted : OpenBefore before ∨ OpenAfter after) :
      Edit (before ++ .blockComment words :: after) (before ++ after)
  | indentation {before : List Element} (character : Char) (after : List Element)
      (indents : Indents before) : Edit (before ++ .blank character :: after) (before ++ after)
  | trailing (before : List Element) (character : Char) {after : List Element}
      (atEnd : AtEnd after) : Edit (before ++ .blank character :: after) (before ++ after)
  | commentLine {before after : List Element} (words : Text) (starts : StartsLine before)
      (atEnd : AtEnd after) : Edit (before ++ .lineComment words :: after) (before ++ after)
  | commentEnd (before : List Element) (words cut : Text) (after : List Element) :
      Edit (before ++ .lineComment (words ++ cut) :: after) (before ++ .lineComment words :: after)
  | emptyLine {before after : List Element} (ending : LineEnd)
      (empty : StartsLine before ∨ after = []) :
      Edit (before ++ .newline ending :: after) (before ++ after)

/-- Edits one after the other. -/
abbrev Edits : List Element → List Element → Prop := Relation.ReflTransGen Edit

/-- What the elements of any script are like: a token has a character, a line comment goes on
to the end of its line and a block comment up to the first of its closing marks. -/
def Shaped : List Element → Prop
  | [] => True
  | .token written :: rest => written ≠ [] ∧ Shaped rest
  | .lineComment _ :: rest => AtEnd rest ∧ Shaped rest
  | .blockComment words :: rest => ¬"#>".toList <:+: words ∧ Shaped rest
  | _ :: rest => Shaped rest

/-- PowerShell's lexer, as far as the layout goes. Line ends are one and the same; of a
script of line feeds any edit of the layout is cut into the edited elements. -/
structure Lexer where
  elements : Text → List Element
  lossless : ∀ text, script (elements text) = text
  shaped : ∀ text, Shaped (elements text)
  unix : ∀ text, elements (script ((elements text).map Element.unix)) =
    (elements text).map Element.unix
  edit : ∀ text others, (elements text).map Element.unix = elements text →
    Edit (elements text) others → elements (script others) = others

end Layout

section Meaning

theorem script_append (first second : List Element) :
    script (first ++ second) = script first ++ script second := List.flatMap_append

theorem script_cons (element : Element) (rest : List Element) :
    script (element :: rest) = element.text ++ script rest := List.flatMap_cons

theorem visible_cons {element : Element} (seen : element.isBlockComment = false)
    (rest : List Element) : visible (element :: rest) = element :: visible rest :=
  List.filter_cons_of_pos (by simp [seen])

theorem logicalLines_eq {first second : List Element}
    (same : first.filterMap Element.said = second.filterMap Element.said) :
    logicalLines first = logicalLines second := by
  rw [logicalLines, same, logicalLines]

/-- An element that says nothing can be left out. -/
theorem logicalLines_silent {element : Element} (silent : element.said = none)
    (before after : List Element) :
    logicalLines (before ++ element :: after) = logicalLines (before ++ after) := by
  apply logicalLines_eq
  rw [List.filterMap_append, List.filterMap_append, List.filterMap_cons_none silent]

/-- A line end parts the lines before it from those behind it. -/
theorem logicalLines_newline (before : List Element) (ending : LineEnd) (after : List Element) :
    logicalLines (before ++ .newline ending :: after) = logicalLines before ++ logicalLines after := by
  have said : (Element.newline ending).said = some none := rfl
  unfold logicalLines
  rw [List.filterMap_append, List.filterMap_cons_some said, List.splitOnP_append_cons _ _ rfl,
    List.filter_append]

theorem logicalLines_nil : logicalLines [] = [] := by
  simp [logicalLines]

theorem logicalLines_startsLine {before : List Element} (starts : StartsLine before)
    (after : List Element) :
    logicalLines (before ++ after) = logicalLines before ++ logicalLines after := by
  cases last : before.getLast? with
  | none =>
    obtain rfl := List.getLast?_eq_none_iff.mp last
    rw [logicalLines_nil, List.nil_append, List.nil_append]
  | some element =>
    obtain ⟨front, rfl⟩ := List.getLast?_eq_some_iff.mp last
    have isNewline := starts element (by simp)
    cases element with
    | newline ending =>
      rw [List.append_assoc, List.singleton_append, logicalLines_newline, logicalLines_newline,
        logicalLines_nil, List.append_nil]
    | token written => cases isNewline
    | blank character => cases isNewline
    | continuation ending => cases isNewline
    | lineComment words => cases isNewline
    | blockComment words => cases isNewline

/-- An edit of the layout changes nothing of what the script says. -/
theorem Edit.logicalLines {first second : List Element} (edit : Edit first second) :
    logicalLines second = logicalLines first := by
  cases edit with
  | blockComment words parted => exact (logicalLines_silent rfl _ _).symm
  | indentation character after indents => exact (logicalLines_silent rfl _ _).symm
  | trailing before character atEnd => exact (logicalLines_silent rfl _ _).symm
  | commentLine words starts atEnd => exact (logicalLines_silent rfl _ _).symm
  | commentEnd before words cut after =>
    rw [logicalLines_silent rfl, logicalLines_silent rfl]
  | emptyLine ending empty =>
    rw [logicalLines_newline]
    rcases empty with starts | rfl
    · exact logicalLines_startsLine starts _
    · rw [logicalLines_nil, List.append_nil, List.append_nil]

theorem Edits.logicalLines {first second : List Element} (edits : Edits first second) :
    logicalLines second = logicalLines first := by
  induction edits with
  | refl => rfl
  | tail _ edit same => rw [edit.logicalLines, same]

theorem said_unix (element : Element) : element.unix.said = element.said := by
  cases element <;> rfl

theorem logicalLines_unix (elements : List Element) :
    logicalLines (elements.map Element.unix) = logicalLines elements := by
  apply logicalLines_eq
  rw [List.filterMap_map]
  exact List.filterMap_congr fun element _ => said_unix element

end Meaning

section Lexing

/-- An edit leaves line feeds. -/
theorem Edit.unix {first second : List Element} (edit : Edit first second)
    (feeds : first.map Element.unix = first) : second.map Element.unix = second := by
  have each {elements : List Element} : elements.map Element.unix = elements ↔
      ∀ element ∈ elements, element.unix = element := by
    have compared := @List.map_inj_left _ _ elements Element.unix id
    rwa [List.map_id] at compared
  rw [each] at feeds ⊢
  have without {before after : List Element} {element : Element}
      (all : ∀ other ∈ before ++ element :: after, other.unix = other) :
      ∀ other ∈ before ++ after, other.unix = other := by
    intro other member
    apply all
    simp only [List.mem_append, List.mem_cons] at member ⊢
    tauto
  cases edit with
  | blockComment words parted => exact without feeds
  | indentation character after indents => exact without feeds
  | trailing before character atEnd => exact without feeds
  | commentLine words starts atEnd => exact without feeds
  | commentEnd before words cut after =>
    intro other member
    rcases List.mem_append.mp member with earlier | later
    · exact feeds other (List.mem_append_left _ earlier)
    · rcases List.mem_cons.mp later with rfl | later
      · rfl
      · exact feeds other (List.mem_append_right _ (List.mem_cons_of_mem _ later))
  | emptyLine ending empty => exact without feeds

/-- A script whose layout is edited is cut into the edited elements. -/
theorem Lexer.elements_of_edits (lexer : Lexer) (text : Text) {others : List Element}
    (edits : Edits ((lexer.elements text).map Element.unix) others) :
    lexer.elements (script others) = others ∧ others.map Element.unix = others := by
  induction edits with
  | refl =>
    constructor
    · exact lexer.unix text
    · rw [List.map_map]
      apply List.map_congr_left
      intro element _
      cases element <;> rfl
  | @tail middle others _ edit both =>
    obtain ⟨cut, feeds⟩ := both
    rw [← cut] at edit feeds
    constructor
    · exact lexer.edit _ _ feeds edit
    · exact edit.unix feeds

/-- The lexer reads the same tokens in an edited script, line by line. -/
theorem Lexer.logicalLines_of_edits (lexer : Lexer) (text : Text) {others : List Element}
    (edits : Edits ((lexer.elements text).map Element.unix) others) :
    logicalLines (lexer.elements (script others)) = logicalLines (lexer.elements text) := by
  rw [(lexer.elements_of_edits text edits).1, edits.logicalLines, logicalLines_unix]

end Lexing

end MastProvisioning.PowerShell.Elements
