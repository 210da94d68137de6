import Mathlib.Data.Nat.Digits.Defs
import Mathlib.Data.List.Basic
import Mathlib.Tactic.IntervalCases

/-!
# Bytes as Python handles them

`bytes.split()`, `bytes.index`, slices with indices of either sign, and `int` of a word;
and what they do on texts that were put together from pieces.
-/

namespace MastProvisioning.Collections

/-- A sequence of bytes. -/
abbrev ByteText := List UInt8

namespace ByteText

/-- The line feed. -/
def lineFeed : UInt8 := 10

/-- The blank. -/
def blank : UInt8 := 32

/-- White space of `bytes.split`. -/
def isSpace (byte : UInt8) : Bool :=
  byte == 32 || (9 ≤ byte && byte ≤ 13)

/-- `bytes.split()`. -/
def split (text : ByteText) : List ByteText :=
  (text.splitOnP isSpace).filter fun word => word ≠ []

/-- A word: what `split` keeps together. -/
def IsWord (word : ByteText) : Prop :=
  word ≠ [] ∧ ∀ byte ∈ word, isSpace byte = false

/-- The position an index denotes. -/
def position (text : ByteText) (index : Int) : Nat :=
  if index < 0 then (index + text.length).toNat else min index.toNat text.length

/-- `text[start:stop]`. -/
def slice (text : ByteText) (start stop : Int) : ByteText :=
  (text.drop (text.position start)).take (text.position stop - text.position start)

/-- `text.index(byte, start)`; `none` when it raises. -/
def index (text : ByteText) (byte : UInt8) (start : Int) : Option Int :=
  ((text.drop (text.position start)).idxOf? byte).map fun found =>
    (text.position start : Int) + found

/-- The value of a decimal digit. -/
def digit? (byte : UInt8) : Option Nat :=
  if 48 ≤ byte ∧ byte ≤ 57 then some (byte.toNat - 48) else none

/-- The value of digits, with single underscores between them; `must` says that a digit
has to come next. -/
def readDigits (value : Nat) (must : Bool) : ByteText → Option Nat
  | [] => if must then none else some value
  | byte :: rest =>
    match digit? byte with
    | some digit => readDigits (value * 10 + digit) false rest
    | none => if byte = 95 ∧ must = false then readDigits value true rest else none

/-- The value of an unsigned word. -/
def readNat (word : ByteText) : Option Nat :=
  readDigits 0 true word

/-- `int(word)`; `none` when it raises. -/
def toInt (word : ByteText) : Option Int :=
  match word with
  | 43 :: rest => (readNat rest).map Int.ofNat
  | 45 :: rest => (readNat rest).map fun value => -Int.ofNat value
  | _ => (readNat word).map Int.ofNat

/-- The digits of a number, the first one first. -/
def digits (value : Nat) : List Nat :=
  if value = 0 then [0] else (Nat.digits 10 value).reverse

/-- A number in decimal. -/
def decimal (value : Nat) : ByteText :=
  (digits value).map fun digit => UInt8.ofNat (48 + digit)

section Slices

variable {before middle after line : ByteText} {byte : UInt8}

theorem position_append (before after : ByteText) :
    (before ++ after).position before.length = before.length := by
  unfold position
  rw [if_neg (by omega), List.length_append]
  omega

/-- The slice of a text that is one of its pieces. -/
theorem slice_piece (before middle after : ByteText) :
    (before ++ middle ++ after).slice before.length (before.length + middle.length) = middle := by
  have start : (before ++ middle ++ after).position before.length = before.length := by
    rw [List.append_assoc]
    exact position_append before (middle ++ after)
  have stop : (before ++ middle ++ after).position (before.length + middle.length) =
      before.length + middle.length := by
    have whole := position_append (before ++ middle) after
    rwa [List.length_append, Nat.cast_add] at whole
  rw [slice, start, stop, List.append_assoc, List.drop_left, Nat.add_sub_cancel_left, List.take_left]

/-- The first mark after a position ends the line there. -/
theorem index_line (plain : byte ∉ line) (before after : ByteText) :
    (before ++ line ++ byte :: after).index byte before.length =
      some (before.length + line.length : Int) := by
  have start : (before ++ line ++ byte :: after).position before.length = before.length := by
    rw [List.append_assoc]
    exact position_append before (line ++ byte :: after)
  have found : (line ++ byte :: after).idxOf? byte = some line.length := by
    induction line with
    | nil => simp [List.idxOf?_cons]
    | cons head line ih =>
      rw [List.mem_cons, not_or] at plain
      have rest := ih plain.2 (by rw [List.append_assoc]; exact position_append before _)
      rw [List.cons_append, List.idxOf?_cons, if_neg (by simpa using fun same => plain.1 same.symm), rest]
      rfl
  rw [index, start, List.append_assoc, List.drop_left, found]
  rfl

end Slices

section Words

variable {word : ByteText}

theorem split_word (isWord : IsWord word) : split word = [word] := by
  unfold split
  rw [List.splitOnP_eq_singleton isWord.2]
  simp [isWord.1]

/-- A word more at the end of a line. -/
theorem split_append_blank (text rest : ByteText) :
    split (text ++ blank :: rest) = split text ++ split rest := by
  unfold split
  rw [List.splitOnP_append_cons text rest (by decide), List.filter_append]

/-- A text that begins with a word has one. -/
theorem split_cons_ne_nil {byte : UInt8} (plain : isSpace byte = false) (rest : ByteText) :
    split (byte :: rest) ≠ [] := by
  obtain ⟨first, more, pieces⟩ :=
    List.exists_cons_of_ne_nil (List.splitOnP_ne_nil isSpace rest)
  unfold split
  rw [List.splitOnP_cons_eq_if_modifyHead, plain, if_neg (by decide), pieces]
  simp

end Words

section Numbers

theorem digits_lt {value digit : Nat} (member : digit ∈ digits value) : digit < 10 := by
  unfold digits at member
  split at member
  · obtain rfl := List.mem_singleton.mp member
    decide
  · exact Nat.digits_lt_base (by decide) (List.mem_reverse.mp member)

theorem digits_ne_nil (value : Nat) : digits value ≠ [] := by
  unfold digits
  split
  · simp
  · simpa [Nat.digits_ne_nil_iff_ne_zero] using ‹_›

theorem foldl_digits (value : Nat) :
    (digits value).foldl (fun value digit => value * 10 + digit) 0 = value := by
  unfold digits
  split
  · simp [*]
  · have folded := Nat.ofDigits_eq_foldr 10 (Nat.digits 10 value)
    rw [Nat.ofDigits_digits] at folded
    rw [List.foldl_reverse]
    simpa [Nat.add_comm, Nat.mul_comm] using folded.symm

theorem digit?_ofNat {digit : Nat} (small : digit < 10) :
    digit? (UInt8.ofNat (48 + digit)) = some digit := by
  interval_cases digit <;> rfl

theorem readDigits_digits (value : Nat) {digits : List Nat} (small : ∀ digit ∈ digits, digit < 10) :
    readDigits value false (digits.map fun digit => UInt8.ofNat (48 + digit)) =
      some (digits.foldl (fun value digit => value * 10 + digit) value) := by
  induction digits generalizing value with
  | nil => rfl
  | cons digit rest ih =>
    rw [List.forall_mem_cons] at small
    rw [List.map_cons, readDigits, digit?_ofNat small.1]
    exact ih _ small.2

theorem decimal_cons (value : Nat) : ∃ digit rest, digits value = digit :: rest ∧ digit < 10 ∧
    (∀ digit ∈ rest, digit < 10) ∧
      rest.foldl (fun value digit => value * 10 + digit) digit = value := by
  have small : ∀ digit ∈ digits value, digit < 10 := fun _ => digits_lt
  have folded := foldl_digits value
  obtain ⟨digit, rest, isDigits⟩ := List.exists_cons_of_ne_nil (digits_ne_nil value)
  rw [isDigits, List.forall_mem_cons] at small
  rw [isDigits, List.foldl_cons, Nat.zero_mul, Nat.zero_add] at folded
  exact ⟨digit, rest, isDigits, small.1, small.2, folded⟩

theorem readNat_decimal (value : Nat) : readNat (decimal value) = some value := by
  obtain ⟨digit, rest, isDigits, small, smallRest, folded⟩ := decimal_cons value
  rw [readNat, decimal, isDigits, List.map_cons, readDigits, digit?_ofNat small]
  dsimp only
  rw [readDigits_digits _ smallRest, Nat.zero_mul, Nat.zero_add, folded]

/-- `int` reads a number in decimal. -/
theorem toInt_decimal (value : Nat) : toInt (decimal value) = some (value : Int) := by
  obtain ⟨digit, rest, isDigits, small, -⟩ := decimal_cons value
  have unsigned : toInt (decimal value) = (readNat (decimal value)).map Int.ofNat := by
    have plain : UInt8.ofNat (48 + digit) ≠ 43 ∧ UInt8.ofNat (48 + digit) ≠ 45 := by
      interval_cases digit <;> decide
    rw [decimal, isDigits, List.map_cons]
    unfold toInt
    split
    · rename_i same
      exact absurd (List.cons.inj same).1 plain.1
    · rename_i same
      exact absurd (List.cons.inj same).1 plain.2
    · rfl
  rw [unsigned, readNat_decimal]
  rfl

/-- A number in decimal has some digits, and nothing else. -/
theorem decimal_digits (value : Nat) :
    decimal value ≠ [] ∧ ∀ byte ∈ decimal value, (digit? byte).isSome := by
  refine ⟨by simpa [decimal] using digits_ne_nil value, fun byte member => ?_⟩
  obtain ⟨digit, isDigit, rfl⟩ := List.mem_map.mp member
  rw [digit?_ofNat (digits_lt isDigit)]
  rfl

theorem decimal_isWord (value : Nat) : IsWord (decimal value) := by
  refine ⟨by simpa [decimal] using digits_ne_nil value, fun byte member => ?_⟩
  obtain ⟨digit, isDigit, rfl⟩ := List.mem_map.mp member
  have small := digits_lt isDigit
  interval_cases digit <;> rfl

end Numbers

end ByteText

end MastProvisioning.Collections
