import MastProvisioning.Driver.Minify

/-!
# What minifying leaves of a script

A script of which the expression removes the block comments and nothing else, and of which
stripping takes only the layout, says the same when it is minified: its elements are edited
in ways that mean nothing to PowerShell.

The condition walks over the elements: what stands where a line begins or ends, what is
behind a continuation, and what a block comment parts.
-/

namespace MastProvisioning.Driver.Minify

open MastProvisioning.Collections.Patterns
  (dropWord dropWord_append firstMatch firstMatch_mark matchAt removeFrom removeFrom_append
    removeFrom_found)
open MastProvisioning.PowerShell.SettingsFile (Text)
open MastProvisioning.PowerShell.Elements
open MastProvisioning.Tools.ManifestReaders.Report (endsLine isSpace strip)

section Conditions

/-- The expression finds the block comments and nothing else: behind a `<#` that begins none
of them stands no `#>`. -/
def Matched : List Element → Prop
  | [] => True
  | .blockComment _ :: rest => Matched rest
  | element :: rest =>
    (∀ suffix, suffix ≠ [] → suffix <:+ element.text → blockEnd (suffix ++ script rest) = none) ∧
      Matched rest

/-- How far a line of the script has come: nothing of it yet, a continuation, or something
that stays. Held, the line has come to a blank of a token; parted, to a blank between two. -/
inductive Place
  | start
  | continued
  | inside (held parted : Bool)
deriving DecidableEq, Repr

namespace Place

def isInside : Place → Bool
  | .inside _ _ => true
  | _ => false

/-- The line may end here: it is empty, or the blanks at its end are of no token. -/
def MayEnd : Place → Prop
  | .start => True
  | .continued => False
  | .inside held _ => held = false

/-- No token stands right before. -/
def Open : Place → Prop
  | .inside _ parted => parted = true
  | _ => True

def afterBlank : Place → Place
  | .inside held _ => .inside held true
  | place => place

def afterComment : Place → Place
  | .inside _ _ => .inside false false
  | place => place

end Place

/-- Stripping takes only the layout. The lines in a token are left as they are, and so is a
token at the end of a line; blanks and line comments have nothing in them that ends a line
for Python alone; a continuation is followed by a line with code; and a block comment
stands beside a blank or a line end. -/
def Safe : Place → List Element → Prop
  | place, [] => place.MayEnd
  | _, .token written :: rest => Steady written ∧ Safe (.inside (endsBlank written) false) rest
  | place, .blank character :: rest =>
    (isSpace character = true ∧ endsLine character = false) ∧ Safe place.afterBlank rest
  | _, .continuation _ :: rest => Safe .continued rest
  | place, .lineComment words :: rest =>
    place ≠ .continued ∧ (∀ character ∈ words, endsLine character = false) ∧
      Safe place.afterComment rest
  | place, .blockComment _ :: rest => (place.Open ∨ OpenAfter rest) ∧ Safe place rest
  | place, .newline _ :: rest => place.MayEnd ∧ Safe .start rest

/-- The lexer's elements of a text are such that minifying takes only the layout. -/
structure Minifiable (lexer : Lexer) (text : Text) : Prop where
  matched : Matched (lexer.elements text)
  safe : Safe .start (lexer.elements text)

/-- Minifying a text changes nothing of what it says. -/
def Unchanged (lexer : Lexer) (text : Text) : Prop :=
  logicalLines (lexer.elements (minifyPs text)) = logicalLines (lexer.elements text)

end Conditions

section Blocks

theorem blockEnd_comment {words : Text} (closed : ¬"#>".toList <:+: words) (rest : Text) :
    blockEnd ("<#".toList ++ (words ++ ("#>".toList ++ rest))) = some rest := by
  have found : firstMatch id [.word "#>".toList] (words ++ ("#>".toList ++ rest)) =
      some ([], rest) :=
    firstMatch_mark (by decide) closed rfl
  rw [blockEnd, dropWord_append, Option.bind_some, found]
  rfl

/-- The expression removes the block comments. -/
theorem removeBlocks_script {elements : List Element} (shaped : Shaped elements)
    (matched : Matched elements) :
    removeBlocks (script elements) = script (visible elements) := by
  unfold removeBlocks
  have kept {element : Element} {rest : List Element} (seen : element.isBlockComment = false)
      (nothing : ∀ suffix, suffix ≠ [] → suffix <:+ element.text →
        blockEnd (suffix ++ script rest) = none)
      (hypothesis : removeFrom blockEnd 0 (script rest) = script (visible rest)) :
      removeFrom blockEnd 0 (script (element :: rest)) = script (visible (element :: rest)) := by
    rw [script_cons, removeFrom_append nothing, hypothesis, visible_cons seen, script_cons]
  induction elements with
  | nil => rfl
  | cons element rest ih =>
    cases element with
    | blockComment words =>
      have whole : script (.blockComment words :: rest) =
          '<' :: (('#' :: (words ++ "#>".toList)) ++ script rest) := by
        simp [script_cons, Element.text]
      have found := blockEnd_comment shaped.1 (script rest)
      have shape : "<#".toList ++ (words ++ ("#>".toList ++ script rest)) =
          '<' :: (('#' :: (words ++ "#>".toList)) ++ script rest) := by simp
      rw [shape] at found
      rw [whole, removeFrom_found found]
      exact ih shaped.2 matched
    | token written => exact kept rfl matched.1 (ih shaped.2 matched.2)
    | blank character => exact kept rfl matched.1 (ih shaped matched.2)
    | continuation ending => exact kept rfl matched.1 (ih shaped matched.2)
    | lineComment words => exact kept rfl matched.1 (ih shaped.2 matched.2)
    | newline ending => exact kept rfl matched.1 (ih shaped matched.2)

end Blocks

section Tidying

/-- The elements as minifying leaves them, of a line that has come to something that stays
or not. -/
def tidy : Bool → List Element → List Element
  | _, [] => []
  | _, .token written :: rest => .token written :: tidy true rest
  | inside, .blank character :: rest =>
    if inside = true ∧ ¬AtEnd (tidy true rest) then .blank character :: tidy true rest
    else tidy inside rest
  | _, .continuation _ :: rest => .continuation .feed :: tidy false rest
  | inside, .lineComment words :: rest =>
    if inside then .lineComment (words.rdropWhile isSpace) :: tidy true rest else tidy false rest
  | inside, .blockComment _ :: rest => tidy inside rest
  | inside, .newline _ :: rest =>
    if inside = true ∧ tidy false rest ≠ [] then .newline .feed :: tidy false rest
    else tidy false rest

theorem atEnd_cons {element : Element} {rest : List Element} :
    AtEnd (element :: rest) ↔ element.isNewline = true := by
  simp [AtEnd]

theorem atEnd_map_unix {elements : List Element} :
    AtEnd (elements.map Element.unix) ↔ AtEnd elements := by
  cases elements with
  | nil => rfl
  | cons element rest =>
    rw [List.map_cons, atEnd_cons, atEnd_cons]
    cases element <;> rfl

theorem openAfter_map_unix {elements : List Element} (after : OpenAfter elements) :
    OpenAfter (elements.map Element.unix) := by
  have filtered : visible (elements.map Element.unix) = (visible elements).map Element.unix := by
    rw [visible, visible, List.filter_map]
    apply congrArg
    apply List.filter_congr
    intro element _
    cases element <;> rfl
  intro element first
  rw [filtered, List.head?_map] at first
  obtain ⟨other, isFirst, rfl⟩ := Option.mem_map.mp first
  have kind := after other isFirst
  cases other <;> exact kind

/-- What the place says of the elements before it. -/
def Stands : Place → List Element → Prop
  | .start, before => StartsLine before
  | .continued, before => Indents before
  | .inside _ parted, before =>
    parted = true → ∀ element ∈ before.getLast?, element.isBlank = true

theorem Stands.openBefore {place : Place} {before : List Element} (stands : Stands place before)
    (isOpen : place.Open) : OpenBefore before := by
  intro element last
  cases place with
  | start => exact .inr (.inl (stands element last))
  | continued => exact .inr (stands element last)
  | inside held parted => exact .inl (stands isOpen element last)

theorem last_concat (kind : Element → Prop) {element : Element} (holds : kind element)
    (before : List Element) : ∀ last ∈ (before ++ [element]).getLast?, kind last := by
  intro last isLast
  rw [List.getLast?_concat] at isLast
  obtain rfl := Option.some.inj isLast
  exact holds

theorem Edits.onward {before after others : List Element} {element : Element}
    (edits : Edits (before ++ [element] ++ after) (before ++ [element] ++ others)) :
    Edits (before ++ element :: after) (before ++ element :: others) := by
  rwa [List.append_assoc, List.append_assoc] at edits

theorem tidy_blank_inside (character : Char) (rest : List Element) :
    tidy true (.blank character :: rest) =
      if AtEnd (tidy true rest) then tidy true rest else .blank character :: tidy true rest := by
  rw [tidy]
  by_cases atEnd : AtEnd (tidy true rest) <;> simp [atEnd]

theorem tidy_newline_inside (ending : LineEnd) (rest : List Element) :
    tidy true (.newline ending :: rest) =
      if tidy false rest = [] then [] else .newline .feed :: tidy false rest := by
  rw [tidy]
  by_cases none : tidy false rest = [] <;> simp [none]

/-- The elements are edited into those that minifying leaves. -/
theorem edits_tidy {elements : List Element} (shaped : Shaped elements) {place : Place}
    (safe : Safe place elements) {before : List Element} (stands : Stands place before) :
    Edits (before ++ elements.map Element.unix) (before ++ tidy place.isInside elements) := by
  induction elements generalizing place before with
  | nil => exact .refl
  | cons element rest ih =>
    cases element with
    | token written =>
      have behind : Stands (.inside (endsBlank written) false) (before ++ [.token written]) :=
        fun never => by cases never
      exact Edits.onward (ih shaped.2 safe.2 behind)
    | continuation ending =>
      have behind : Stands .continued (before ++ [.continuation .feed]) :=
        last_concat (fun last => last.isNewline = true ∨ last.isContinuation = true) (.inr rfl) before
      exact Edits.onward (ih shaped safe behind)
    | blockComment words =>
      have parted : OpenBefore before ∨ OpenAfter (rest.map Element.unix) :=
        safe.1.imp stands.openBefore openAfter_map_unix
      exact .head (.blockComment words parted) (ih shaped.2 safe.2 stands)
    | blank character =>
      cases place with
      | start =>
        have indents : Indents before := fun last isLast => .inl (stands last isLast)
        exact .head (.indentation character _ indents) (ih shaped safe.2 stands)
      | continued => exact .head (.indentation character _ stands) (ih shaped safe.2 stands)
      | inside held parted =>
        have behind : Stands (.inside held true) (before ++ [.blank character]) :=
          fun _ => last_concat (fun last => last.isBlank = true) rfl before
        have edits := Edits.onward (ih shaped safe.2 behind)
        rw [Place.isInside, tidy_blank_inside]
        by_cases atEnd : AtEnd (tidy true rest)
        · rw [if_pos atEnd]
          exact .tail edits (.trailing before character atEnd)
        · rw [if_neg atEnd]
          exact edits
    | lineComment words =>
      obtain ⟨notContinued, -, later⟩ := safe
      cases place with
      | start =>
        have atEnd : AtEnd (rest.map Element.unix) := atEnd_map_unix.mpr shaped.1
        exact .head (.commentLine words stands atEnd) (ih shaped.2 later stands)
      | continued => exact absurd rfl notContinued
      | inside held parted =>
        have behind : Stands (.inside false false)
            (before ++ [.lineComment (words.rdropWhile isSpace)]) := fun never => by cases never
        have parts : words = words.rdropWhile isSpace ++ words.rtakeWhile isSpace :=
          List.rdropWhile_append_rtakeWhile.symm
        have edit := Edit.commentEnd before (words.rdropWhile isSpace)
          (words.rtakeWhile isSpace) (rest.map Element.unix)
        rw [← parts] at edit
        exact .head edit (Edits.onward (ih shaped.2 later behind))
    | newline ending =>
      obtain ⟨mayEnd, later⟩ := safe
      cases place with
      | start => exact .head (.emptyLine .feed (.inl stands)) (ih shaped later stands)
      | continued => cases mayEnd
      | inside held parted =>
        have behind : Stands .start (before ++ [.newline .feed]) :=
          last_concat (fun last => last.isNewline = true) rfl before
        have edits : Edits (before ++ .newline .feed :: rest.map Element.unix)
            (before ++ .newline .feed :: tidy false rest) :=
          Edits.onward (ih shaped later behind)
        rw [Place.isInside, tidy_newline_inside]
        by_cases none : tidy false rest = []
        · rw [if_pos none]
          rw [none] at edits
          exact .tail edits (.emptyLine .feed (.inr rfl))
        · rw [if_neg none]
          exact edits

end Tidying

section Stripping

theorem LineEnd.text_ne_nil (ending : LineEnd) : ending.text ≠ [] := by
  cases ending <;> exact List.cons_ne_nil _ _

/-- Every element that minifying leaves has a character. -/
theorem filled_tidy {elements : List Element} {place : Place} (safe : Safe place elements)
    (inside : Bool) : ∀ element ∈ tidy inside elements, element.text ≠ [] := by
  induction elements generalizing place inside with
  | nil => simp [tidy]
  | cons element rest ih =>
    cases element with
    | token written =>
      rw [tidy, List.forall_mem_cons]
      exact ⟨safe.1.starts.ne_nil, ih safe.2 true⟩
    | continuation ending =>
      rw [tidy, List.forall_mem_cons]
      exact ⟨List.cons_ne_nil _ _, ih safe false⟩
    | blockComment words => exact ih safe.2 inside
    | blank character =>
      rw [tidy]
      split
      · rw [List.forall_mem_cons]
        exact ⟨List.cons_ne_nil _ _, ih safe.2 true⟩
      · exact ih safe.2 inside
    | lineComment words =>
      rw [tidy]
      split
      · rw [List.forall_mem_cons]
        exact ⟨List.cons_ne_nil _ _, ih safe.2.2 true⟩
      · exact ih safe.2.2 false
    | newline ending =>
      rw [tidy]
      split
      · rw [List.forall_mem_cons]
        exact ⟨LineEnd.text_ne_nil .feed, ih safe.2 false⟩
      · exact ih safe.2 false

theorem script_eq_nil {elements : List Element}
    (filled : ∀ element ∈ elements, element.text ≠ []) : script elements = [] ↔ elements = [] := by
  constructor
  · intro empty
    cases elements with
    | nil => rfl
    | cons element rest =>
      rw [script_cons] at empty
      exact absurd (List.append_eq_nil_iff.mp empty).1 (filled element List.mem_cons_self)
  · rintro rfl
    rfl

/-- A line in which a blank of a token is held goes on with something that stays. -/
theorem not_atEnd_of_held {elements : List Element} {parted : Bool}
    (safe : Safe (.inside true parted) elements) : ¬AtEnd (tidy true elements) := by
  induction elements generalizing parted with
  | nil => cases safe
  | cons element rest ih =>
    cases element with
    | token written =>
      rw [tidy, atEnd_cons]
      exact Bool.false_ne_true
    | continuation ending =>
      rw [tidy, atEnd_cons]
      exact Bool.false_ne_true
    | blockComment words => exact ih safe.2
    | blank character =>
      rw [tidy_blank_inside, if_neg (ih safe.2), atEnd_cons]
      exact Bool.false_ne_true
    | lineComment words =>
      rw [tidy, if_pos rfl, atEnd_cons]
      exact Bool.false_ne_true
    | newline ending => cases safe.1

/-- Something that stays follows a continuation. -/
theorem tidy_continued_ne_nil {elements : List Element} (safe : Safe .continued elements) :
    tidy false elements ≠ [] := by
  induction elements with
  | nil => cases safe
  | cons element rest ih =>
    cases element with
    | token written => exact List.cons_ne_nil _ _
    | continuation ending => exact List.cons_ne_nil _ _
    | blockComment words => exact ih safe.2
    | blank character =>
      rw [tidy, if_neg (by simp)]
      exact ih safe.2
    | lineComment words => exact absurd rfl safe.1
    | newline ending => cases safe.1

theorem atEnd_tidy {elements : List Element} (atEnd : AtEnd elements) :
    AtEnd (tidy true elements) := by
  cases elements with
  | nil => exact atEnd
  | cons element rest =>
    rw [atEnd_cons] at atEnd
    cases element with
    | newline ending =>
      rw [tidy_newline_inside]
      split
      · simp [AtEnd]
      · exact atEnd_cons.mpr rfl
    | token written => cases atEnd
    | blank character => cases atEnd
    | continuation ending => cases atEnd
    | lineComment words => cases atEnd
    | blockComment words => cases atEnd

theorem solid_backtick : Solid ['`'] where
  starts := ⟨'`', [], rfl, by decide, by decide⟩
  ends := ⟨[], '`', rfl, by decide⟩
  lined := by
    constructor
    · intro character member ends
      obtain rfl := List.mem_singleton.mp member
      cases ends
    · intro before after same
      cases before with
      | nil => cases same
      | cons first before => simp at same

theorem blanks_nil : Blanks [] := by
  simp [Blanks]

/-- A line of a comment is left out. -/
theorem stripLines_comment {words : Text}
    (plain : ∀ character ∈ words, endsLine character = false) {rest : List Element}
    (atEnd : AtEnd rest) :
    stripLines ('#' :: words ++ script (visible rest)) = stripLines (script (visible rest)) := by
  have left : keptLines ('#' :: words) = [] := by
    have oneLine : ∀ character ∈ '#' :: words, endsLine character = false :=
      List.forall_mem_cons.mpr ⟨by decide, plain⟩
    have dropped : stays (strip ('#' :: words)) = false := by
      have front : ('#' :: words).dropWhile isSpace = '#' :: words :=
        List.dropWhile_cons_of_neg (by decide)
      have within := List.rdropWhile_prefix isSpace ('#' :: words)
      rw [strip, front]
      cases stripped : ('#' :: words).rdropWhile isSpace with
      | nil => rfl
      | cons first more =>
        rw [stripped] at within
        obtain ⟨rfl, -⟩ := List.cons_prefix_cons.mp within
        rfl
    rw [keptLines_line oneLine, kept, List.map_singleton, List.filter_cons_of_neg (by simp [dropped]),
      List.filter_nil]
  cases rest with
  | nil =>
    have empty : script (visible []) = [] := rfl
    rw [empty, List.append_nil, stripLines, left]
    rfl
  | cons element rest =>
    rw [atEnd_cons] at atEnd
    cases element with
    | newline ending =>
      have shape : script (visible (.newline ending :: rest)) =
          ending.text ++ script (visible rest) := by
        rw [visible_cons rfl, script_cons]
        rfl
      have behind := keptLines_ending [] ending (script (visible rest))
      rw [shape, stripLines, keptLines_ending, left, stripLines]
      exact congrArg joinLines behind.symm
    | token written => cases atEnd
    | blank character => cases atEnd
    | continuation ending => cases atEnd
    | lineComment words => cases atEnd
    | blockComment words => cases atEnd

/-- Behind a solid front and a continuation the script goes on in the next line. -/
theorem stripLines_continuation {front : Text} {rest : List Element} (solid : Solid front)
    (ending : LineEnd) (safe : Safe .continued rest)
    (behind : stripLines (script (visible rest)) = script (tidy false rest)) :
    stripLines (front ++ (ending.text ++ script (visible rest))) =
      front ++ '\n' :: script (tidy false rest) := by
  have some : stripLines (script (visible rest)) ≠ [] := by
    rw [behind, Ne, script_eq_nil (filled_tidy safe false)]
    exact tidy_continued_ne_nil safe
  have broken := stripLines_break solid blanks_nil ending (script (visible rest))
  rwa [if_neg some, behind, List.nil_append] at broken

/-- The blanks at the end of a token stay. -/
theorem held_blanks {written blanks : Text} {rest : List Element} {parted : Bool}
    (safe : Safe (.inside (endsBlank written) parted) rest)
    (only : endsBlank written = false → blanks = []) :
    (if AtEnd (tidy true rest) then [] else blanks) = blanks := by
  cases held : endsBlank written with
  | false =>
    rw [only held]
    exact ite_self []
  | true =>
    rw [held] at safe
    exact if_neg (not_atEnd_of_held safe)

/-- A comment behind tokens, up to the blanks at its end. -/
theorem comment_split {words : Text} (plain : ∀ character ∈ words, endsLine character = false) :
    EndsVisible ('#' :: words.rdropWhile isSpace) ∧ Lined ('#' :: words.rdropWhile isSpace) ∧
      Blanks (words.rtakeWhile isSpace) := by
  have parts : words = words.rdropWhile isSpace ++ words.rtakeWhile isSpace :=
    List.rdropWhile_append_rtakeWhile.symm
  have none : ∀ character ∈ '#' :: words.rdropWhile isSpace, endsLine character = false := by
    rw [List.forall_mem_cons]
    refine ⟨by decide, ?_⟩
    intro character member
    exact plain character (parts ▸ List.mem_append_left _ member)
  refine ⟨?_, ⟨?_, ?_⟩, ?_⟩
  · by_cases empty : words.rdropWhile isSpace = []
    · rw [empty]
      exact ⟨[], '#', rfl, by decide⟩
    · exact (endsVisible_rdropWhile empty).append ['#']
  · intro character member ends
    rw [none character member] at ends
    cases ends
  · intro before after same
    have ends := none '\n' (same ▸ List.mem_append_right _ List.mem_cons_self)
    cases ends
  · intro character member
    exact ⟨List.mem_rtakeWhile_imp member, plain character (parts ▸ List.mem_append_right _ member)⟩

/-- The lines of elements are stripped to what minifying leaves, at the start of a line and
behind a solid front. -/
structure Stripped (elements : List Element) : Prop where
  outside : ∀ place, place.isInside = false → Safe place elements →
    stripLines (script (visible elements)) = script (tidy false elements)
  inside : ∀ held parted front blanks, Safe (.inside held parted) elements → Solid front →
    Blanks blanks → stripLines (front ++ (blanks ++ script (visible elements))) =
      front ++ ((if AtEnd (tidy true elements) then [] else blanks) ++ script (tidy true elements))

theorem stripped_nil : Stripped [] where
  outside _ _ _ := rfl
  inside held parted front blanks _ solid blank := by
    have here := stripLines_solid solid blank
    simpa [script, visible, tidy, AtEnd] using here

theorem Stripped.token {written : Text} {rest : List Element} (stripped : Stripped rest) :
    Stripped (.token written :: rest) where
  outside place _ safe := by
    obtain ⟨core, tail, shape, solid, blank, only⟩ := safe.1.split
    have behind := stripped.inside _ _ core tail safe.2 solid blank
    rw [held_blanks safe.2 only, ← List.append_assoc, ← List.append_assoc, ← shape] at behind
    rw [visible_cons rfl, script_cons, tidy, script_cons]
    exact behind
  inside held parted front blanks safe solid blank := by
    obtain ⟨core, tail, shape, solidCore, blankTail, only⟩ := safe.1.split
    have behind := stripped.inside _ _ (front ++ (blanks ++ core)) tail safe.2
      (solid.append blank solidCore.ends solidCore.lined) blankTail
    have goesOn : ¬AtEnd (.token written :: tidy true rest) := by
      rw [atEnd_cons]
      exact Bool.false_ne_true
    rw [held_blanks safe.2 only] at behind
    rw [visible_cons rfl, script_cons, tidy, if_neg goesOn, script_cons, Element.text, shape]
    simpa only [List.append_assoc] using behind

theorem Stripped.blank {character : Char} {rest : List Element} (stripped : Stripped rest) :
    Stripped (.blank character :: rest) where
  outside place notInside safe := by
    have same : place.afterBlank = place := by
      cases place with
      | inside held parted => cases notInside
      | start => rfl
      | continued => rfl
    have behind := stripped.outside place notInside (same ▸ safe.2)
    rw [visible_cons rfl, script_cons, tidy, if_neg (by simp), ← behind]
    exact congrArg joinLines (keptLines_blank safe.1.1 safe.1.2 _)
  inside held parted front blanks safe solid blank := by
    have more : Blanks (blanks ++ [character]) := by
      intro other member
      rcases List.mem_append.mp member with earlier | last
      · exact blank other earlier
      · exact List.mem_singleton.mp last ▸ safe.1
    have behind := stripped.inside held true front (blanks ++ [character]) safe.2 solid more
    rw [visible_cons rfl, script_cons, tidy_blank_inside]
    by_cases atEnd : AtEnd (tidy true rest)
    · rw [if_pos atEnd, if_pos atEnd]
      rw [if_pos atEnd, List.append_assoc] at behind
      exact behind
    · have goesOn : ¬AtEnd (.blank character :: tidy true rest) := by
        rw [atEnd_cons]
        exact Bool.false_ne_true
      rw [if_neg atEnd, List.append_assoc, List.append_assoc] at behind
      rw [if_neg atEnd, if_neg goesOn, script_cons]
      exact behind

theorem Stripped.continuation {ending : LineEnd} {rest : List Element} (stripped : Stripped rest) :
    Stripped (.continuation ending :: rest) where
  outside place _ safe := by
    have behind := stripped.outside .continued rfl safe
    have broken := stripLines_continuation solid_backtick ending safe behind
    rw [visible_cons rfl, script_cons, tidy, script_cons]
    exact broken
  inside held parted front blanks safe solid blank := by
    have behind := stripped.outside .continued rfl safe
    have more := solid.append blank solid_backtick.ends solid_backtick.lined
    have broken := stripLines_continuation more ending safe behind
    have goesOn : ¬AtEnd (.continuation .feed :: tidy false rest) := by
      rw [atEnd_cons]
      exact Bool.false_ne_true
    rw [visible_cons rfl, script_cons, tidy, if_neg goesOn, script_cons]
    simpa [Element.text, LineEnd.text] using broken

theorem Stripped.newline {ending : LineEnd} {rest : List Element} (stripped : Stripped rest) :
    Stripped (.newline ending :: rest) where
  outside place _ safe := by
    have behind := stripped.outside .start rfl safe.2
    have parted := keptLines_ending [] ending (script (visible rest))
    rw [visible_cons rfl, script_cons, tidy, if_neg (by simp), ← behind]
    exact congrArg joinLines parted
  inside held parted front blanks safe solid blank := by
    have behind := stripped.outside .start rfl safe.2
    have broken := stripLines_break solid blank ending (script (visible rest))
    rw [visible_cons rfl, script_cons, tidy_newline_inside]
    rw [behind] at broken
    have empty := script_eq_nil (filled_tidy safe.2 false)
    by_cases none : tidy false rest = []
    · rw [if_pos (empty.mpr none)] at broken
      rw [if_pos none]
      simpa [AtEnd, script, Element.text] using broken
    · have atEnd : AtEnd (.newline .feed :: tidy false rest) := atEnd_cons.mpr rfl
      rw [if_neg (empty.not.mpr none)] at broken
      rw [if_neg none, if_pos atEnd, script_cons]
      exact broken

theorem Stripped.lineComment {words : Text} {rest : List Element} (atEnd : AtEnd rest)
    (stripped : Stripped rest) : Stripped (.lineComment words :: rest) where
  outside place notInside safe := by
    obtain ⟨notContinued, plain, later⟩ := safe
    cases place with
    | inside held parted => cases notInside
    | continued => exact absurd rfl notContinued
    | start =>
      have behind := stripped.outside .start rfl later
      rw [visible_cons rfl, script_cons, tidy, if_neg Bool.false_ne_true, ← behind]
      exact stripLines_comment plain atEnd
  inside held parted front blanks safe solid blank := by
    obtain ⟨-, plain, later⟩ := safe
    obtain ⟨ends, lined, cut⟩ := comment_split plain
    have behind := stripped.inside false false _ _ later (solid.append blank ends lined) cut
    have goesOn : ¬AtEnd (.lineComment (words.rdropWhile isSpace) :: tidy true rest) := by
      rw [atEnd_cons]
      exact Bool.false_ne_true
    have parts : words.rdropWhile isSpace ++ words.rtakeWhile isSpace = words :=
      List.rdropWhile_append_rtakeWhile
    rw [if_pos (atEnd_tidy atEnd), List.nil_append] at behind
    rw [visible_cons rfl, script_cons, tidy, if_pos rfl, if_neg goesOn, script_cons, Element.text,
      Element.text]
    simpa only [List.append_assoc, List.cons_append, parts, ← List.append_assoc (words.rdropWhile isSpace)]
      using behind

theorem Stripped.blockComment {words : Text} {rest : List Element} (stripped : Stripped rest) :
    Stripped (.blockComment words :: rest) where
  outside place notInside safe := stripped.outside place notInside safe.2
  inside held parted front blanks safe solid blank :=
    stripped.inside held parted front blanks safe.2 solid blank

theorem stripped_of_shaped {elements : List Element} (shaped : Shaped elements) :
    Stripped elements := by
  induction elements with
  | nil => exact stripped_nil
  | cons element rest ih =>
    cases element with
    | token written => exact (ih shaped.2).token
    | blank character => exact (ih shaped).blank
    | continuation ending => exact (ih shaped).continuation
    | lineComment words => exact (ih shaped.2).lineComment shaped.1
    | blockComment words => exact (ih shaped.2).blockComment
    | newline ending => exact (ih shaped).newline

end Stripping

section Meaning

variable {lexer : Lexer} {text : Text}

/-- Minifying leaves the script of the elements it leaves. -/
theorem minifyPs_eq (minifiable : Minifiable lexer text) :
    minifyPs text = script (tidy false (lexer.elements text)) := by
  have shaped := lexer.shaped text
  have removed := removeBlocks_script shaped minifiable.matched
  rw [lexer.lossless] at removed
  rw [minifyPs, removed]
  exact (stripped_of_shaped shaped).outside .start rfl minifiable.safe

/-- A script of which minifying takes only the layout says the same. -/
theorem minified_script_unchanged (minifiable : Minifiable lexer text) : Unchanged lexer text := by
  have starts : Stands .start [] := fun element none => by cases none
  have edits := edits_tidy (lexer.shaped text) minifiable.safe starts
  rw [List.nil_append, List.nil_append] at edits
  rw [Unchanged, minifyPs_eq minifiable]
  exact lexer.logicalLines_of_edits text edits

end Meaning

section Samples

def plainElement (character : Char) : Element :=
  if character = '\n' then .newline .feed
  else if character = ' ' ∨ character = '\t' then .blank character
  else .token [character]

/-- The elements of a script of one-letter tokens and strings in single quotes; given is the
string that has been begun. -/
def scan : Option Text → Text → List Element
  | none, [] => []
  | some string, [] => [.token string]
  | none, character :: rest =>
    if character = '\'' then scan (some [character]) rest
    else plainElement character :: scan none rest
  | some string, character :: rest =>
    if character = '\'' then .token (string ++ [character]) :: scan none rest
    else scan (some (string ++ [character])) rest

/-- What the scan finds before the elements given: only a last string may not be closed. -/
def Scans (element : Element) (after : List Element) : Prop :=
  match element with
  | .token written =>
    (∃ character, written = [character] ∧ character ≠ '\'' ∧
      plainElement character = .token [character]) ∨
    ∃ body, '\'' ∉ body ∧ (written = '\'' :: (body ++ ['\'']) ∨
      written = '\'' :: body ∧ after = [])
  | .blank character => character = ' ' ∨ character = '\t'
  | .newline ending => ending = .feed
  | _ => False

def Scanned : List Element → Prop
  | [] => True
  | element :: rest => Scans element rest ∧ Scanned rest

theorem script_scan (pending : Option Text) (text : Text) :
    script (scan pending text) = pending.getD [] ++ text := by
  induction text generalizing pending with
  | nil => cases pending <;> simp [scan, script, Element.text]
  | cons character rest ih =>
    cases pending with
    | none =>
      rw [scan]
      split
      · rw [ih]
        rfl
      · have one : (plainElement character).text = [character] := by
          unfold plainElement
          split
          · rename_i feed
            rw [feed]
            rfl
          · split <;> rfl
        rw [script_cons, ih, one]
        rfl
    | some string =>
      rw [scan]
      split
      · rw [script_cons, ih]
        simp [Element.text]
      · rw [ih]
        simp

theorem scan_string {body : Text} (inside : '\'' ∉ body) (string rest : Text) :
    scan (some string) (body ++ '\'' :: rest) =
      .token (string ++ (body ++ ['\''])) :: scan none rest := by
  induction body generalizing string with
  | nil => exact if_pos rfl
  | cons character body ih =>
    rw [List.mem_cons, not_or] at inside
    obtain ⟨here, later⟩ := inside
    rw [List.cons_append, scan, if_neg (Ne.symm here), ih later]
    simp

theorem scan_open {body : Text} (inside : '\'' ∉ body) (string : Text) :
    scan (some string) body = [.token (string ++ body)] := by
  induction body generalizing string with
  | nil => simp [scan]
  | cons character body ih =>
    rw [List.mem_cons, not_or] at inside
    obtain ⟨here, later⟩ := inside
    rw [scan, if_neg (Ne.symm here), ih later]
    simp

/-- The scan finds again what it can find. -/
theorem scan_script {elements : List Element} (scanned : Scanned elements) :
    scan none (script elements) = elements := by
  induction elements with
  | nil => rfl
  | cons element rest ih =>
    obtain ⟨here, later⟩ := scanned
    have behind := ih later
    have one {character : Char} (plain : character ≠ '\'')
        (made : plainElement character = element) (written : element.text = [character]) :
        scan none (script (element :: rest)) = element :: rest := by
      rw [script_cons, written, List.singleton_append, scan, if_neg plain, made, behind]
    cases element with
    | token written =>
      rcases here with ⟨character, rfl, plain, made⟩ | ⟨body, inside, rfl | ⟨rfl, rfl⟩⟩
      · exact one plain made rfl
      · have found := scan_string inside ['\''] (script rest)
        rw [behind] at found
        simpa [script_cons, Element.text, scan] using found
      · simpa [script, Element.text, scan] using scan_open inside ['\'']
    | blank character =>
      rcases here with rfl | rfl
      · exact one (by decide) rfl rfl
      · exact one (by decide) rfl rfl
    | newline ending =>
      obtain rfl : ending = .feed := here
      exact one (by decide) rfl rfl
    | continuation ending => cases here
    | lineComment words => cases here
    | blockComment words => cases here

theorem scanned_scan (text : Text) :
    Scanned (scan none text) ∧ ∀ body, '\'' ∉ body → Scanned (scan (some ('\'' :: body)) text) := by
  induction text with
  | nil =>
    refine ⟨trivial, ?_⟩
    intro body inside
    exact ⟨.inr ⟨body, inside, .inr ⟨rfl, rfl⟩⟩, trivial⟩
  | cons character rest ih =>
    constructor
    · rw [scan]
      split
      · rename_i quote
        rw [quote]
        exact ih.2 [] (by simp)
      · rename_i plain
        refine ⟨?_, ih.1⟩
        unfold plainElement
        split
        · rfl
        · split
          · rename_i blank
            exact blank
          · rename_i notFeed notBlank
            refine .inl ⟨character, rfl, plain, ?_⟩
            rw [plainElement, if_neg notFeed, if_neg notBlank]
    · intro body inside
      rw [scan]
      split
      · rename_i quote
        refine ⟨.inr ⟨body, inside, .inl ?_⟩, ih.1⟩
        rw [quote, List.cons_append]
      · rename_i other
        rw [List.cons_append]
        exact ih.2 _ (by simp [inside, Ne.symm other])

theorem Scanned.sublist {elements others : List Element} (sub : others.Sublist elements)
    (scanned : Scanned elements) : Scanned others := by
  induction sub with
  | slnil => trivial
  | cons element _ ih => exact ih scanned.2
  | @cons_cons others elements element sub ih =>
    refine ⟨?_, ih scanned.2⟩
    cases element with
    | token written =>
      rcases scanned.1 with one | ⟨body, inside, closed | ⟨isOpen, rfl⟩⟩
      · exact .inl one
      · exact .inr ⟨body, inside, .inl closed⟩
      · exact .inr ⟨body, inside, .inr ⟨isOpen, List.sublist_nil.mp sub⟩⟩
    | blank character => exact scanned.1
    | newline ending => exact scanned.1
    | continuation ending => exact scanned.1
    | lineComment words => exact scanned.1
    | blockComment words => exact scanned.1

theorem Scanned.no_comment {elements : List Element} (scanned : Scanned elements) (words : Text) :
    .lineComment words ∉ elements := by
  induction elements with
  | nil => simp
  | cons element rest ih =>
    rw [List.mem_cons, not_or]
    refine ⟨?_, ih scanned.2⟩
    rintro rfl
    cases scanned.1

theorem Scanned.edit {elements others : List Element} (scanned : Scanned elements)
    (edit : Edit elements others) : Scanned others := by
  have without {before after : List Element} {element : Element}
      (whole : Scanned (before ++ element :: after)) : Scanned (before ++ after) :=
    whole.sublist ((List.sublist_cons_self element after).append_left before)
  cases edit with
  | blockComment words parted => exact without scanned
  | indentation character after indents => exact without scanned
  | trailing before character atEnd => exact without scanned
  | commentLine words starts atEnd => exact without scanned
  | commentEnd before words cut after => exact absurd (by simp) (scanned.no_comment (words ++ cut))
  | emptyLine ending empty => exact without scanned

theorem Scanned.shaped {elements : List Element} (scanned : Scanned elements) :
    Shaped elements ∧ elements.map Element.unix = elements := by
  induction elements with
  | nil => exact ⟨trivial, rfl⟩
  | cons element rest ih =>
    obtain ⟨here, later⟩ := scanned
    obtain ⟨shaped, feeds⟩ := ih later
    rw [List.map_cons, feeds]
    cases element with
    | token written =>
      refine ⟨⟨?_, shaped⟩, rfl⟩
      rcases here with ⟨character, rfl, -⟩ | ⟨body, -, rfl | ⟨rfl, -⟩⟩ <;> simp
    | blank character => exact ⟨shaped, rfl⟩
    | newline ending =>
      obtain rfl : ending = .feed := here
      exact ⟨shaped, rfl⟩
    | continuation ending => cases here
    | lineComment words => cases here
    | blockComment words => cases here

/-- A lexer of scripts that have no more than letters, strings in single quotes, blanks and
line feeds. -/
def quoted : Lexer where
  elements := scan none
  lossless text := script_scan none text
  shaped text := (scanned_scan text).1.shaped.1
  unix text := by
    rw [(scanned_scan text).1.shaped.2]
    exact scan_script (scanned_scan text).1
  edit text others _ edit := scan_script ((scanned_scan text).1.edit edit)

/-- A text without the sign of redirection is left whole. -/
theorem matched_of_no_mark {elements : List Element} (unmarked : '<' ∉ script elements) :
    Matched elements := by
  induction elements with
  | nil => trivial
  | cons element rest ih =>
    rw [script_cons, List.mem_append, not_or] at unmarked
    have nothing : ∀ suffix, suffix ≠ [] → suffix <:+ element.text →
        blockEnd (suffix ++ script rest) = none := by
      intro suffix nonempty within
      obtain ⟨first, more, rfl⟩ := List.exists_cons_of_ne_nil nonempty
      have other : ¬id first = id '<' := by
        rintro rfl
        exact unmarked.1 (within.subset List.mem_cons_self)
      have missing : dropWord id "<#".toList (first :: more ++ script rest) = none :=
        if_neg other
      rw [blockEnd, missing]
      rfl
    cases element with
    | blockComment words => exact ih unmarked.2
    | token written => exact ⟨nothing, ih unmarked.2⟩
    | blank character => exact ⟨nothing, ih unmarked.2⟩
    | continuation ending => exact ⟨nothing, ih unmarked.2⟩
    | lineComment words => exact ⟨nothing, ih unmarked.2⟩
    | newline ending => exact ⟨nothing, ih unmarked.2⟩

/-- A token of one line. -/
theorem steady_line {token : Text} (starts : StartsCode token)
    (plain : token.any endsLine = false) : Steady token where
  starts := starts
  lined := by
    rw [List.any_eq_false] at plain
    constructor
    · intro character member ends
      exact absurd ends (plain character member)
    · rintro before after rfl
      exact absurd rfl (plain '\n' (List.mem_append_right _ List.mem_cons_self))

def twoLines : Text := "\n  a 'x  #y'\n\n\tb \n".toList

theorem elements_twoLines : quoted.elements twoLines =
    [.newline .feed, .blank ' ', .blank ' ', .token ['a'], .blank ' ', .token "'x  #y'".toList,
      .newline .feed, .newline .feed, .blank '\t', .token ['b'], .blank ' ', .newline .feed] := by
  decide +kernel

theorem minifiable_twoLines : Minifiable quoted twoLines := by
  constructor
  · apply matched_of_no_mark
    rw [quoted.lossless]
    decide
  · rw [elements_twoLines]
    have letter : Steady ['a'] := steady_line ⟨'a', [], rfl, rfl, by decide⟩ rfl
    have string : Steady "'x  #y'".toList := steady_line ⟨'\'', "x  #y'".toList, rfl, rfl, by decide⟩ rfl
    have other : Steady ['b'] := steady_line ⟨'b', [], rfl, rfl, by decide⟩ rfl
    have space : isSpace ' ' = true ∧ endsLine ' ' = false := ⟨rfl, rfl⟩
    have tab : isSpace '\t' = true ∧ endsLine '\t' = false := ⟨rfl, rfl⟩
    exact ⟨trivial, space, space, letter, space, string, rfl, trivial, tab, other, space, rfl, trivial⟩

theorem twoLines_unchanged : Unchanged quoted twoLines :=
  minified_script_unchanged minifiable_twoLines

/-- A string of two lines, the second of them indented. -/
def indentedString : Text := "'x\n  y'".toList

theorem minify_changes_string : ¬Unchanged quoted indentedString := by
  unfold Unchanged
  decide +kernel

end Samples

end MastProvisioning.Driver.Minify
