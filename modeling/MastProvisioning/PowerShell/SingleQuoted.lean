import Mathlib.Data.List.Basic

/-!
# Single-quoted literals of PowerShell

A single-quoted literal may be opened and closed by any of five characters. Between them
everything stands for itself, except that two of these characters in a row stand for the
second. A script without other quotation is read as the code and the values of its literals
in turn.
-/

namespace MastProvisioning.PowerShell

namespace SingleQuoted

abbrev Text := List Char

/-- The characters PowerShell takes for a single quote. -/
def isQuote (character : Char) : Bool :=
  character = '\'' || (0x2018 ≤ character.toNat && character.toNat ≤ 0x201B)

/-- Put a character in front of the piece that is being read. -/
def consHead (character : Char) : List Text → List Text
  | [] => []
  | piece :: rest => (character :: piece) :: rest

/-- The pieces of a script, code and values in turn; `inLiteral` when the text begins inside
of a literal, `none` when a literal is not closed. -/
def readPieces : Bool → Text → Option (List Text)
  | false, [] => some [[]]
  | false, character :: rest =>
    if isQuote character then (readPieces true rest).map ([] :: ·)
    else (readPieces false rest).map (consHead character)
  | true, [] => none
  | true, [character] => if isQuote character then some [[], []] else none
  | true, character :: next :: rest =>
    if isQuote character then
      if isQuote next then (readPieces true rest).map (consHead next)
      else (readPieces false (next :: rest)).map ([] :: ·)
    else (readPieces true (next :: rest)).map (consHead character)

/-- The pieces of a whole script. -/
def readScript (text : Text) : Option (List Text) := readPieces false text

/-- A script: code, and literals with the code that follows each. -/
structure Script where
  code : Text
  literals : List (Text × Text)

/-- A text without quotes. -/
def Plain (text : Text) : Prop := ∀ character ∈ text, isQuote character = false

/-- The code of a script has no quotes of its own, and some of it is between any two
literals. -/
structure Script.Plain (script : Script) : Prop where
  code : SingleQuoted.Plain script.code
  after : ∀ literal ∈ script.literals, SingleQuoted.Plain literal.2
  between : script.literals.IsChain fun literal _ => literal.2 ≠ []

/-- Code and values in turn. -/
def Script.pieces (script : Script) : List Text :=
  script.code :: script.literals.flatMap fun literal => [literal.1, literal.2]

def Script.values (script : Script) : List Text := script.literals.map Prod.fst

/-- The text of a script whose values are written by `escape`. -/
def Script.text (escape : Text → Text) (script : Script) : Text :=
  script.code ++ script.literals.flatMap fun literal =>
    '\'' :: (escape literal.1 ++ '\'' :: literal.2)

/-- Double the characters of a kind. -/
def doubling (kind : Char → Bool) (value : Text) : Text :=
  value.flatMap fun character => if kind character then [character, character] else [character]

/-- Double every quote: what the rules of PowerShell ask for. -/
def double : Text → Text := doubling isQuote

/-- The characters a reading used up, the quotes around values counted to the values. -/
def weight : Bool → List Text → Nat
  | _, [] => 0
  | false, piece :: rest => piece.length + weight true rest
  | true, piece :: rest => (double piece).length + 2 + weight false rest

theorem plain_of_all {text : Text} (all : (text.all fun character => !isQuote character) = true) :
    Plain text := by
  simpa [Plain] using all

/-- Code that can be seen to be plain. -/
theorem Script.plain_of_all {script : Script}
    (code : (script.code.all fun character => !isQuote character) = true)
    (after : (script.literals.all fun literal =>
      literal.2.all fun character => !isQuote character) = true)
    (between : (script.literals.dropLast.all fun literal => !literal.2.isEmpty) = true) :
    script.Plain where
  code := SingleQuoted.plain_of_all code
  after literal member := SingleQuoted.plain_of_all (List.all_eq_true.mp after literal member)
  between := by
    generalize script.literals = literals at between
    induction literals with
    | nil => exact .nil
    | cons literal rest hypothesis =>
      cases rest with
      | nil => exact .singleton literal
      | cons next rest =>
        rw [List.dropLast_cons_cons, List.all_cons, Bool.and_eq_true] at between
        exact .cons_cons (by simpa using between.1) (hypothesis between.2)

section Steps

variable {character next : Char} {rest : Text}

/-- The first character of what follows a literal is no quote. -/
def Follows (rest : Text) : Prop :=
  ∀ character, rest.head? = some character → isQuote character = false

theorem readPieces_code (notQuote : isQuote character = false) :
    readPieces false (character :: rest) = (readPieces false rest).map (consHead character) := by
  simp [readPieces, notQuote]

theorem readPieces_open (quote : isQuote character = true) :
    readPieces false (character :: rest) = (readPieces true rest).map ([] :: ·) := by
  simp [readPieces, quote]

theorem readPieces_content (notQuote : isQuote character = false) :
    readPieces true (character :: rest) = (readPieces true rest).map (consHead character) := by
  cases rest with
  | nil => simp [readPieces, notQuote]
  | cons next rest => simp [readPieces, notQuote]

theorem readPieces_pair (quote : isQuote character = true) (second : isQuote next = true) :
    readPieces true (character :: next :: rest) = (readPieces true rest).map (consHead next) := by
  simp [readPieces, quote, second]

theorem readPieces_close (quote : isQuote character = true) (follows : Follows rest) :
    readPieces true (character :: rest) = (readPieces false rest).map ([] :: ·) := by
  cases rest with
  | nil => simp [readPieces, quote]
  | cons next rest => simp [readPieces, quote, follows next rfl]

end Steps

section Reading

theorem doubling_cons (kind : Char → Bool) (character : Char) (value : Text) :
    doubling kind (character :: value) =
      (if kind character then [character, character] else [character]) ++ doubling kind value :=
  List.flatMap_cons

theorem double_cons (character : Char) (value : Text) : double (character :: value) =
    (if isQuote character then [character, character] else [character]) ++ double value :=
  doubling_cons isQuote character value

theorem readPieces_plain {code rest : Text} (plain : Plain code) {pieces : List Text}
    {next : Text} (read : readPieces false rest = some (next :: pieces)) :
    readPieces false (code ++ rest) = some ((code ++ next) :: pieces) := by
  induction code with
  | nil => exact read
  | cons character code hypothesis =>
    obtain ⟨notQuote, plain⟩ := List.forall_mem_cons.mp plain
    rw [List.cons_append, readPieces_code notQuote, hypothesis plain]
    rfl

/-- A literal whose quotes are doubled is read as its value. -/
theorem readPieces_double {value rest : Text} (follows : Follows rest) :
    readPieces true (double value ++ '\'' :: rest) =
      (readPieces false rest).map (value :: ·) := by
  induction value with
  | nil => exact readPieces_close rfl follows
  | cons character value hypothesis =>
    rw [double_cons]
    by_cases quote : isQuote character = true
    · rw [if_pos quote, List.append_assoc, List.cons_append, List.cons_append, List.nil_append,
        readPieces_pair quote quote, hypothesis, Option.map_map]
      rfl
    · rw [if_neg quote, List.append_assoc, List.cons_append, List.nil_append,
        readPieces_content (Bool.eq_false_iff.mpr quote), hypothesis, Option.map_map]
      rfl

theorem follows_of_plain {code rest : Text} (plain : Plain code) (follows : Follows rest) :
    Follows (code ++ rest) := by
  cases code with
  | nil => exact follows
  | cons character code =>
    rintro first isFirst
    obtain rfl : character = first := by simpa using isFirst
    exact plain _ List.mem_cons_self

theorem Script.text_cons (escape : Text → Text) (code : Text) (literal : Text × Text)
    (literals : List (Text × Text)) :
    Script.text escape ⟨code, literal :: literals⟩ =
      code ++ '\'' :: (escape literal.1 ++ '\'' :: Script.text escape ⟨literal.2, literals⟩) := by
  simp [Script.text]

/-- The pieces of a script whose values are doubled. -/
theorem readScript_double {script : Script} (plain : script.Plain) :
    readScript (script.text double) = some script.pieces := by
  obtain ⟨code, literals⟩ := script
  obtain ⟨plainCode, plainAfter, between⟩ := plain
  unfold readScript
  induction literals generalizing code with
  | nil =>
    have read : readPieces false (code ++ []) = some [code ++ []] :=
      readPieces_plain plainCode rfl
    simpa [Script.text, Script.pieces] using read
  | cons literal literals hypothesis =>
    obtain ⟨plainNext, plainRest⟩ := List.forall_mem_cons.mp plainAfter
    have rest := hypothesis literal.2 plainNext plainRest between.of_cons
    have follows : Follows (Script.text double ⟨literal.2, literals⟩) := by
      cases literals with
      | nil =>
        simp only [Script.text, List.flatMap_nil]
        exact follows_of_plain plainNext fun _ none => by cases none
      | cons other literals =>
        have some : literal.2 ≠ [] := (List.isChain_cons_cons.mp between).1
        rintro first isFirst
        rw [Script.text_cons, List.head?_append_of_ne_nil _ some] at isFirst
        exact plainNext first (List.mem_of_mem_head? isFirst)
    have opened : readPieces false ('\'' :: (double literal.1 ++ '\'' ::
        Script.text double ⟨literal.2, literals⟩)) =
        some ([] :: literal.1 :: Script.pieces ⟨literal.2, literals⟩) := by
      rw [readPieces_open rfl, readPieces_double follows, rest]
      rfl
    rw [Script.text_cons, readPieces_plain plainCode opened, List.append_nil]
    rfl

theorem weight_consHead {inLiteral : Bool} {character : Char} {pieces : List Text}
    (some : pieces ≠ []) : weight inLiteral (consHead character pieces) =
      weight inLiteral pieces + if inLiteral && isQuote character then 2 else 1 := by
  obtain ⟨piece, rest, rfl⟩ := List.exists_cons_of_ne_nil some
  cases inLiteral with
  | false => simp [consHead, weight]; omega
  | true =>
    simp only [consHead, weight, double_cons, List.length_append]
    split <;> simp_all <;> omega

theorem consHead_ne_nil {character : Char} {pieces : List Text} (some : pieces ≠ []) :
    consHead character pieces ≠ [] := by
  obtain ⟨piece, rest, rfl⟩ := List.exists_cons_of_ne_nil some
  simp [consHead]

/-- A reading uses up the text; inside of a literal, its opening quote was read before. -/
theorem weight_readPieces {inLiteral : Bool} {text : Text} {pieces : List Text}
    (read : readPieces inLiteral text = some pieces) :
    pieces ≠ [] ∧ text.length + (if inLiteral then 1 else 0) = weight inLiteral pieces := by
  induction inLiteral, text using readPieces.induct generalizing pieces with
  | case1 =>
    obtain rfl : [[]] = pieces := by simpa [readPieces] using read
    exact ⟨by simp, rfl⟩
  | case2 character rest quote hypothesis =>
    rw [readPieces_open quote] at read
    obtain ⟨more, readRest, rfl⟩ := Option.map_eq_some_iff.mp read
    have used := (hypothesis readRest).2
    simp only [if_true] at used
    simp [weight, ← used]
  | case3 character rest notQuote hypothesis =>
    have notQuote := Bool.eq_false_iff.mpr notQuote
    rw [readPieces_code notQuote] at read
    obtain ⟨more, readRest, rfl⟩ := Option.map_eq_some_iff.mp read
    obtain ⟨some, used⟩ := hypothesis readRest
    rw [weight_consHead some, ← used]
    exact ⟨consHead_ne_nil some, by simp⟩
  | case4 => simp [readPieces] at read
  | case5 character quote =>
    obtain rfl : [[], []] = pieces := by simpa [readPieces, quote] using read
    exact ⟨by simp, rfl⟩
  | case6 character notQuote => simp [readPieces, notQuote] at read
  | case7 character next rest quote second hypothesis =>
    rw [readPieces_pair quote second] at read
    obtain ⟨more, readRest, rfl⟩ := Option.map_eq_some_iff.mp read
    obtain ⟨some, used⟩ := hypothesis readRest
    rw [weight_consHead some, ← used]
    exact ⟨consHead_ne_nil some, by simp [second]⟩
  | case8 character next rest quote notSecond hypothesis =>
    have read : (readPieces false (next :: rest)).map ([] :: ·) = some pieces := by
      simpa [readPieces, quote, notSecond] using read
    obtain ⟨more, readRest, rfl⟩ := Option.map_eq_some_iff.mp read
    have used := (hypothesis readRest).2
    refine ⟨by simp, ?_⟩
    simp only [weight, ← used, double, doubling]
    simp
    omega
  | case9 character next rest notQuote hypothesis =>
    rw [readPieces_content (Bool.eq_false_iff.mpr notQuote)] at read
    obtain ⟨more, readRest, rfl⟩ := Option.map_eq_some_iff.mp read
    obtain ⟨some, used⟩ := hypothesis readRest
    rw [weight_consHead some, ← used]
    exact ⟨consHead_ne_nil some, by simp [notQuote]⟩

theorem weight_pieces (script : Script) :
    weight false script.pieces = (script.text double).length := by
  obtain ⟨code, literals⟩ := script
  induction literals generalizing code with
  | nil => simp [Script.pieces, Script.text, weight]
  | cons literal literals hypothesis =>
    have rest := hypothesis literal.2
    simp only [Script.pieces, weight] at rest
    rw [Script.text_cons, Script.pieces, List.flatMap_cons]
    simp only [List.cons_append, List.nil_append, weight, List.length_append, List.length_cons]
    omega

/-- The text of a script is at most as long as with its values doubled, and as long only
when every value is written as if it were. -/
theorem length_text {escape : Text → Text} {literals : List (Text × Text)}
    (bounded : ∀ literal ∈ literals, (escape literal.1).length ≤ (double literal.1).length)
    (code : Text) :
    (Script.text escape ⟨code, literals⟩).length ≤ (Script.text double ⟨code, literals⟩).length ∧
      ((Script.text escape ⟨code, literals⟩).length =
          (Script.text double ⟨code, literals⟩).length →
        ∀ literal ∈ literals, (escape literal.1).length = (double literal.1).length) := by
  induction literals generalizing code with
  | nil => simp [Script.text]
  | cons literal literals hypothesis =>
    obtain ⟨here, later⟩ := List.forall_mem_cons.mp bounded
    obtain ⟨shorter, same⟩ := hypothesis later literal.2
    simp only [Script.text_cons, List.length_append, List.length_cons]
    constructor
    · omega
    · intro equal
      refine List.forall_mem_cons.mpr ⟨?_, same ?_⟩ <;> omega

/-- A way to write values that is never longer than doubling their quotes, and is the
doubling where it is as long. -/
structure Shortens (escape : Text → Text) : Prop where
  bounded : ∀ value, (escape value).length ≤ (double value).length
  exact : ∀ value, (escape value).length = (double value).length → escape value = double value

/-- Doubling some of the quotes is as long as doubling all only when no others are there. -/
theorem length_doubling {kind : Char → Bool}
    (quotes : ∀ character, kind character = true → isQuote character = true) (value : Text) :
    (doubling kind value).length ≤ (double value).length ∧
      ((doubling kind value).length = (double value).length →
        ∀ character ∈ value, isQuote character = true → kind character = true) := by
  induction value with
  | nil => simp [doubling, double]
  | cons character value hypothesis =>
    obtain ⟨shorter, same⟩ := hypothesis
    simp only [doubling_cons, double_cons, List.length_append, List.forall_mem_cons]
    by_cases isKind : kind character = true
    · simp only [isKind, quotes character isKind, if_true, List.length_cons, List.length_nil,
        implies_true, true_and]
      exact ⟨by omega, fun equal => same (by omega)⟩
    · by_cases quote : isQuote character = true
      · simp only [isKind, quote, if_true, Bool.false_eq_true, if_false, List.length_cons,
          List.length_nil]
        exact ⟨by omega, fun equal => by omega⟩
      · simp only [isKind, quote, Bool.false_eq_true, if_false, List.length_cons,
          List.length_nil, false_implies, true_and]
        exact ⟨by omega, fun equal => same (by omega)⟩

theorem doubling_eq_double_iff {kind : Char → Bool}
    (quotes : ∀ character, kind character = true → isQuote character = true) {value : Text} :
    doubling kind value = double value ↔
      ∀ character ∈ value, isQuote character = true → kind character = true := by
  constructor
  · intro same
    exact (length_doubling quotes value).2 (congrArg List.length same)
  · intro only
    refine List.flatMap_congr fun character member => ?_
    have same : kind character = isQuote character :=
      Bool.eq_iff_iff.mpr ⟨quotes character, only character member⟩
    rw [same]

theorem shortens_doubling {kind : Char → Bool}
    (quotes : ∀ character, kind character = true → isQuote character = true) :
    Shortens (doubling kind) where
  bounded value := (length_doubling quotes value).1
  exact value same := (doubling_eq_double_iff quotes).mpr ((length_doubling quotes value).2 same)

/-- A script is read as it was meant exactly when every value is written with its quotes
doubled. -/
theorem readScript_iff {escape : Text → Text} (shortens : Shortens escape) {script : Script}
    (plain : script.Plain) :
    readScript (script.text escape) = some script.pieces ↔
      ∀ value ∈ script.values, escape value = double value := by
  rw [Script.values, List.forall_mem_map]
  constructor
  · intro read
    have used := (weight_readPieces read).2
    rw [weight_pieces] at used
    intro literal member
    exact shortens.exact _ ((length_text (fun other _ => shortens.bounded other.1) script.code).2
      (by simpa using used) literal member)
  · intro doubled
    have same : script.text escape = script.text double := by
      unfold Script.text
      congr 1
      exact List.flatMap_congr fun literal member => by rw [doubled literal member]
    rw [same]
    exact readScript_double plain

end Reading

end SingleQuoted

end MastProvisioning.PowerShell
