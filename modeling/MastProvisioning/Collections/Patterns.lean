import Mathlib.Data.List.DropRight
import Mathlib.Data.List.Infix

/-!
# Patterns of words and runs

A pattern is a sequence of words and of runs of symbols of one kind, some of them captured.
It is matched from left to right, every run as long as it can be and never given back, which
decides a regular expression in which no run can go on into what follows it.

Words are compared up to a normal form: the identity gives exact words, case folding those
of an expression that ignores case.
-/

namespace MastProvisioning.Collections.Patterns

/-- One piece of a pattern. A captured run is not empty. -/
inductive Piece (Symbol : Type*)
  | word (symbols : List Symbol)
  | run (kind : Symbol → Bool)
  | capture (kind : Symbol → Bool)

/-- What a match captures, and what follows it. -/
abbrev Found (Symbol : Type*) := List (List Symbol) × List Symbol

variable {Symbol Norm : Type*} [DecidableEq Norm]

section Operations

variable (norm : Symbol → Norm)

/-- What follows a word at the start of a text. -/
def dropWord : List Symbol → List Symbol → Option (List Symbol)
  | [], text => some text
  | _ :: _, [] => none
  | letter :: word, symbol :: text =>
    if norm symbol = norm letter then dropWord word text else none

/-- A match at the start of a text. -/
def matchAt [DecidableEq Symbol] : List (Piece Symbol) → List Symbol → Option (Found Symbol)
  | [], text => some ([], text)
  | .word word :: pattern, text => (dropWord norm word text).bind (matchAt pattern)
  | .run kind :: pattern, text => matchAt pattern (text.dropWhile kind)
  | .capture kind :: pattern, text =>
    if text.takeWhile kind = [] then none
    else
      (matchAt pattern (text.dropWhile kind)).map fun found =>
        (text.takeWhile kind :: found.1, found.2)

variable [DecidableEq Symbol] (pattern : List (Piece Symbol))

/-- The first match in a text. -/
def firstMatch : List Symbol → Option (Found Symbol)
  | [] => matchAt norm pattern []
  | symbol :: rest =>
    match matchAt norm pattern (symbol :: rest) with
    | some found => some found
    | none => firstMatch rest

/-- The matches after the given number of symbols, none of which begins in another. -/
def matchesFrom : Nat → List Symbol → List (List (List Symbol))
  | _, [] => []
  | skip + 1, _ :: rest => matchesFrom skip rest
  | 0, symbol :: rest =>
    match matchAt norm pattern (symbol :: rest) with
    | none => matchesFrom 0 rest
    | some (captures, after) => captures :: matchesFrom (rest.length - after.length) rest

/-- What the matches in a text capture. -/
def allMatches (text : List Symbol) : List (List (List Symbol)) :=
  matchesFrom norm pattern 0 text

/-- A text without what is found in it, after the given number of symbols; the function says
what follows when something is found at the start. -/
def removeFrom (found : List Symbol → Option (List Symbol)) : Nat → List Symbol → List Symbol
  | _, [] => []
  | skip + 1, _ :: rest => removeFrom found skip rest
  | 0, symbol :: rest =>
    match found (symbol :: rest) with
    | none => symbol :: removeFrom found 0 rest
    | some after => removeFrom found (rest.length - after.length) rest

end Operations

variable {norm : Symbol → Norm}

section Words

theorem dropWord_append (word text : List Symbol) : dropWord norm word (word ++ text) = some text := by
  induction word with
  | nil => rfl
  | cons letter word ih => rw [List.cons_append, dropWord, if_pos rfl, ih]

/-- Words of one normal form are found in the same places. -/
theorem dropWord_congr {word other : List Symbol} (same : word.map norm = other.map norm)
    (text : List Symbol) : dropWord norm word text = dropWord norm other text := by
  induction word generalizing other text with
  | nil =>
    obtain rfl : other = [] := by simpa using same.symm
    rfl
  | cons letter word ih =>
    cases other with
    | nil => cases same
    | cons character other =>
      obtain ⟨here, later⟩ := List.cons.inj same
      cases text with
      | nil => rfl
      | cons symbol text =>
        rw [dropWord, dropWord, here, ih later]

/-- A word whose first letter is not the first of the text is not there. -/
theorem dropWord_cons_of_ne {letter symbol : Symbol} (differs : norm symbol ≠ norm letter)
    (word text : List Symbol) : dropWord norm (letter :: word) (symbol :: text) = none := by
  rw [dropWord, if_neg differs]

/-- A word is there exactly when the text begins with it. -/
theorem dropWord_isSome [DecidableEq Symbol] {word text : List Symbol} :
    (dropWord id word text).isSome = true ↔ word <+: text := by
  induction word generalizing text with
  | nil => simp [dropWord]
  | cons letter word ih =>
    cases text with
    | nil => simp [dropWord]
    | cons symbol text =>
      rw [dropWord, List.cons_prefix_cons]
      by_cases same : symbol = letter
      · subst same
        simpa using ih
      · have differs : ¬letter = symbol := fun equal => same equal.symm
        simp [same, differs]

end Words

section Runs

theorem takeWhile_front {kind : Symbol → Bool} {front after : List Symbol}
    (runs : front.all kind = true) (stops : after.takeWhile kind = []) :
    (front ++ after).takeWhile kind = front := by
  rw [List.takeWhile_append_of_pos (List.all_eq_true.mp runs), stops, List.append_nil]

theorem dropWhile_front {kind : Symbol → Bool} {front after : List Symbol}
    (runs : front.all kind = true) (stops : after.takeWhile kind = []) :
    (front ++ after).dropWhile kind = after := by
  have parts : (front ++ after).takeWhile kind ++ (front ++ after).dropWhile kind =
      front ++ after := List.takeWhile_append_dropWhile
  rw [takeWhile_front runs stops] at parts
  exact List.append_cancel_left parts

end Runs

section Matches

variable [DecidableEq Symbol] {pattern : List (Piece Symbol)}

@[simp] theorem matchAt_nil (text : List Symbol) : matchAt norm [] text = some ([], text) := rfl

@[simp] theorem matchAt_word (word text : List Symbol) :
    matchAt norm (.word word :: pattern) (word ++ text) = matchAt norm pattern text := by
  rw [matchAt, dropWord_append]
  rfl

theorem matchAt_run {kind : Symbol → Bool} {front after : List Symbol}
    (runs : front.all kind = true) (stops : after.takeWhile kind = []) :
    matchAt norm (.run kind :: pattern) (front ++ after) = matchAt norm pattern after := by
  rw [matchAt, dropWhile_front runs stops]

theorem matchAt_capture {kind : Symbol → Bool} {front after : List Symbol}
    (runs : front.all kind = true) (nonempty : front ≠ []) (stops : after.takeWhile kind = []) :
    matchAt norm (.capture kind :: pattern) (front ++ after) =
      (matchAt norm pattern after).map fun found => (front :: found.1, found.2) := by
  rw [matchAt, takeWhile_front runs stops, dropWhile_front runs stops, if_neg nonempty]

/-- Patterns that differ in a word of one normal form match in the same places. -/
theorem matchAt_word_congr {word other : List Symbol} (same : word.map norm = other.map norm)
    (text : List Symbol) :
    matchAt norm (.word word :: pattern) text = matchAt norm (.word other :: pattern) text := by
  rw [matchAt, matchAt, dropWord_congr same]

/-- Patterns that agree on every text agree after any piece. -/
theorem matchAt_cons_congr {other : List (Piece Symbol)}
    (same : ∀ text, matchAt norm pattern text = matchAt norm other text) (piece : Piece Symbol)
    (text : List Symbol) :
    matchAt norm (piece :: pattern) text = matchAt norm (piece :: other) text := by
  have agree : matchAt norm pattern = matchAt norm other := funext same
  cases piece <;> simp only [matchAt, agree]

end Matches

section Ends

/-- A piece takes none of these symbols. -/
def Piece.Refuses (norm : Symbol → Norm) (tail : List Symbol) : Piece Symbol → Prop
  | .word letters => ∀ symbol ∈ tail, ∀ letter ∈ letters, norm symbol ≠ norm letter
  | .run kind => ∀ symbol ∈ tail, kind symbol = false
  | .capture kind => ∀ symbol ∈ tail, kind symbol = false

theorem takeWhile_append_refused {kind : Symbol → Bool} {tail : List Symbol}
    (refused : ∀ symbol ∈ tail, kind symbol = false) (text : List Symbol) :
    (text ++ tail).takeWhile kind = text.takeWhile kind := by
  induction text with
  | nil =>
    cases tail with
    | nil => rfl
    | cons symbol tail =>
      have stops : ¬kind symbol = true := by simp [refused symbol List.mem_cons_self]
      exact List.takeWhile_cons_of_neg stops
  | cons symbol text ih => rw [List.cons_append, List.takeWhile_cons, List.takeWhile_cons, ih]

theorem dropWhile_append_refused {kind : Symbol → Bool} {tail : List Symbol}
    (refused : ∀ symbol ∈ tail, kind symbol = false) (text : List Symbol) :
    (text ++ tail).dropWhile kind = text.dropWhile kind ++ tail := by
  have whole : (text ++ tail).takeWhile kind ++ (text ++ tail).dropWhile kind = text ++ tail :=
    List.takeWhile_append_dropWhile
  have part : text.takeWhile kind ++ text.dropWhile kind = text :=
    List.takeWhile_append_dropWhile
  rw [takeWhile_append_refused refused] at whole
  have joined : text ++ tail = text.takeWhile kind ++ (text.dropWhile kind ++ tail) := by
    rw [← List.append_assoc, part]
  exact List.append_cancel_left (whole.trans joined)

theorem dropWord_append_refused {word tail : List Symbol}
    (refused : ∀ symbol ∈ tail, ∀ letter ∈ word, norm symbol ≠ norm letter) (text : List Symbol) :
    dropWord norm word (text ++ tail) = (dropWord norm word text).map (· ++ tail) := by
  induction word generalizing text with
  | nil => rfl
  | cons letter word ih =>
    have later : ∀ symbol ∈ tail, ∀ letter ∈ word, norm symbol ≠ norm letter :=
      fun symbol member letter within => refused symbol member letter (List.mem_cons_of_mem _ within)
    cases text with
    | nil =>
      cases tail with
      | nil => rfl
      | cons symbol tail =>
        exact dropWord_cons_of_ne (refused symbol List.mem_cons_self letter List.mem_cons_self) _ _
    | cons symbol text =>
      rw [List.cons_append, dropWord, dropWord, ih later]
      by_cases same : norm symbol = norm letter
      · rw [if_pos same, if_pos same]
      · rw [if_neg same, if_neg same]
        rfl

/-- An end of the text that no piece takes changes nothing of what a match captures. -/
theorem captures_append [DecidableEq Symbol] {pattern : List (Piece Symbol)} {tail : List Symbol}
    (refused : ∀ piece ∈ pattern, piece.Refuses norm tail) (text : List Symbol) :
    (matchAt norm pattern (text ++ tail)).map Prod.fst =
      (matchAt norm pattern text).map Prod.fst := by
  induction pattern generalizing text with
  | nil => rfl
  | cons piece pattern ih =>
    obtain ⟨here, later⟩ := List.forall_mem_cons.mp refused
    cases piece with
    | word word =>
      rw [matchAt, matchAt, dropWord_append_refused here]
      cases dropWord norm word text with
      | none => rfl
      | some rest => exact ih later rest
    | run kind =>
      rw [matchAt, matchAt, dropWhile_append_refused here]
      exact ih later _
    | capture kind =>
      rw [matchAt, matchAt, takeWhile_append_refused here, dropWhile_append_refused here]
      by_cases empty : text.takeWhile kind = []
      · rw [if_pos empty, if_pos empty]
      · have rest := congrArg (Option.map fun captures => text.takeWhile kind :: captures)
          (ih later (text.dropWhile kind))
        rw [if_neg empty, if_neg empty]
        simpa only [Option.map_map, Function.comp_def] using rest

end Ends

section Scans

variable [DecidableEq Symbol] {pattern : List (Piece Symbol)}

/-- The first match is past a text in which none begins. -/
theorem firstMatch_append {front text : List Symbol} {found : Found Symbol}
    (here : matchAt norm pattern text = some found)
    (none : ∀ suffix, suffix ≠ [] → suffix <:+ front → matchAt norm pattern (suffix ++ text) = none) :
    firstMatch norm pattern (front ++ text) = some found := by
  induction front with
  | nil =>
    cases text with
    | nil => exact here
    | cons symbol rest => rw [List.nil_append, firstMatch, here]
  | cons symbol front ih =>
    have notHere := none (symbol :: front) (List.cons_ne_nil _ _) List.suffix_rfl
    rw [List.cons_append] at notHere
    rw [List.cons_append, firstMatch, notHere]
    apply ih
    intro suffix nonempty within
    exact none suffix nonempty (within.trans (List.suffix_cons symbol front))

omit [DecidableEq Symbol] in
/-- Only one letter of a mark begins it, so a mark cannot begin before another and run into
it: it stands wholly before the other or not at all. -/
theorem not_prefix_append {letter : Symbol} {mark suffix front rest : List Symbol}
    (once : letter ∉ mark) (nonempty : suffix ≠ []) (within : suffix <:+ front)
    (absent : ¬letter :: mark <:+: front) : ¬letter :: mark <+: suffix ++ (letter :: mark ++ rest) := by
  rintro ⟨after, equal⟩
  rcases List.append_eq_append_iff.mp equal with ⟨more, inside, -⟩ | ⟨beyond, split, ahead⟩
  · exact absent ((List.infix_append [] _ more).trans (inside ▸ within.isInfix))
  · obtain ⟨first, front', rfl⟩ := List.exists_cons_of_ne_nil nonempty
    obtain rfl := (List.cons.inj split).1
    have tail : mark = front' ++ beyond := (List.cons.inj split).2
    cases beyond with
    | nil =>
      rw [List.append_nil] at tail
      exact absent (tail ▸ within.isInfix)
    | cons symbol beyond =>
      obtain ⟨rfl, -⟩ := List.cons.inj ahead
      exact once (tail ▸ List.mem_append_right _ List.mem_cons_self)

/-- The first match is at the first place its mark stands. -/
theorem firstMatch_mark {letter : Symbol} {mark front rest : List Symbol} {found : Found Symbol}
    (once : letter ∉ mark) (absent : ¬letter :: mark <:+: front)
    (here : matchAt id (.word (letter :: mark) :: pattern) (letter :: mark ++ rest) = some found) :
    firstMatch id (.word (letter :: mark) :: pattern) (front ++ (letter :: mark ++ rest)) =
      some found := by
  apply firstMatch_append here
  intro suffix nonempty within
  have elsewhere : ¬letter :: mark <+: suffix ++ (letter :: mark ++ rest) :=
    not_prefix_append once nonempty within absent
  rw [← dropWord_isSome, Bool.not_eq_true, Option.isSome_eq_false_iff, Option.isNone_iff_eq_none]
    at elsewhere
  rw [matchAt, elsewhere]
  rfl

/-- Nothing is found before the first symbol a match can begin with. -/
theorem matchesFrom_append {letter : Symbol} {word : List Symbol} {front : List Symbol}
    (other : ∀ symbol ∈ front, norm symbol ≠ norm letter) (text : List Symbol) :
    matchesFrom norm (.word (letter :: word) :: pattern) 0 (front ++ text) =
      matchesFrom norm (.word (letter :: word) :: pattern) 0 text := by
  induction front with
  | nil => rfl
  | cons symbol front ih =>
    obtain ⟨here, later⟩ := List.forall_mem_cons.mp other
    rw [List.cons_append, matchesFrom, matchAt, dropWord_cons_of_ne here]
    exact ih later

/-- What a match covers is left out of the search. -/
theorem matchesFrom_skip (covered text : List Symbol) :
    matchesFrom norm pattern covered.length (covered ++ text) = matchesFrom norm pattern 0 text := by
  induction covered with
  | nil => rfl
  | cons symbol covered ih => rw [List.length_cons, List.cons_append, matchesFrom, ih]

/-- The search goes on after a match. -/
theorem matchesFrom_of_matchAt {symbol : Symbol} {covered text : List Symbol}
    {captures : List (List Symbol)}
    (here : matchAt norm pattern (symbol :: covered ++ text) = some (captures, text)) :
    matchesFrom norm pattern 0 (symbol :: covered ++ text) =
      captures :: matchesFrom norm pattern 0 text := by
  rw [List.cons_append] at here
  have length : (covered ++ text).length - text.length = covered.length := by simp
  rw [List.cons_append, matchesFrom, here]
  simp only [length, matchesFrom_skip]

omit [DecidableEq Symbol] in
theorem removeFrom_skip (found : List Symbol → Option (List Symbol)) (covered text : List Symbol) :
    removeFrom found covered.length (covered ++ text) = removeFrom found 0 text := by
  induction covered with
  | nil => rfl
  | cons symbol covered ih => rw [List.length_cons, List.cons_append, removeFrom, ih]

omit [DecidableEq Symbol] in
/-- What is found is left out, and the search goes on behind it. -/
theorem removeFrom_found {found : List Symbol → Option (List Symbol)} {symbol : Symbol}
    {covered text : List Symbol} (here : found (symbol :: (covered ++ text)) = some text) :
    removeFrom found 0 (symbol :: (covered ++ text)) = removeFrom found 0 text := by
  have length : (covered ++ text).length - text.length = covered.length := by simp
  rw [removeFrom, here]
  simp only [length, removeFrom_skip]

omit [DecidableEq Symbol] in
/-- A front at no place of which something is found is kept. -/
theorem removeFrom_append {found : List Symbol → Option (List Symbol)} {front text : List Symbol}
    (nothing : ∀ suffix, suffix ≠ [] → suffix <:+ front → found (suffix ++ text) = none) :
    removeFrom found 0 (front ++ text) = front ++ removeFrom found 0 text := by
  induction front with
  | nil => rfl
  | cons symbol front ih =>
    have notHere := nothing (symbol :: front) (List.cons_ne_nil _ _) List.suffix_rfl
    rw [List.cons_append] at notHere
    rw [List.cons_append, removeFrom, notHere, List.cons_append]
    apply congrArg (symbol :: ·)
    apply ih
    intro suffix nonempty within
    exact nothing suffix nonempty (within.trans (List.suffix_cons symbol front))

end Scans

end MastProvisioning.Collections.Patterns
