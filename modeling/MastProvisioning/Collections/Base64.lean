import Mathlib.Data.List.Basic
import Mathlib.Tactic.IntervalCases

/-!
# Base64

Encoding as everyone writes it, and decoding as Python's `binascii` does when it is not
strict: what is not of the alphabet is passed over, the end of a padding ends the text, and
the text must end with a full group.
-/

namespace MastProvisioning.Collections.Base64

abbrev Text := List Char

/-- The characters for the numbers below 64. -/
def alphabet : Text :=
  "ABCDEFGHIJKLMNOPQRSTUVWXYZabcdefghijklmnopqrstuvwxyz0123456789+/".toList

def symbol (value : Nat) : Char := alphabet.getD value '='

def value? (character : Char) : Option Nat := alphabet.idxOf? character

/-- The encoding of bytes, three at a time. -/
def encode : List UInt8 → Text
  | [] => []
  | [first] => [symbol (first.toNat / 4), symbol (first.toNat % 4 * 16), '=', '=']
  | [first, second] =>
    [symbol (first.toNat / 4), symbol (first.toNat % 4 * 16 + second.toNat / 16),
      symbol (second.toNat % 16 * 4), '=']
  | first :: second :: third :: rest =>
    symbol (first.toNat / 4) :: symbol (first.toNat % 4 * 16 + second.toNat / 16)
      :: symbol (second.toNat % 16 * 4 + third.toNat / 64) :: symbol (third.toNat % 64)
      :: encode rest

/-- Where a decoder is: in which place of a group, what is left of the last number, and how
many padding characters it has seen since. -/
structure Position where
  place : Nat
  left : Nat
  pads : Nat

/-- The start of a group. -/
def Position.start : Position := ⟨0, 0, 0⟩

/-- The position after a number, and the byte that is complete with it. -/
def Position.advance (position : Position) (value : Nat) : Position × List UInt8 :=
  match position.place with
  | 0 => (⟨1, value, 0⟩, [])
  | 1 => (⟨2, value % 16, 0⟩, [UInt8.ofNat (position.left * 4 + value / 16)])
  | 2 => (⟨3, value % 4, 0⟩, [UInt8.ofNat (position.left * 16 + value / 4)])
  | _ => (⟨0, 0, 0⟩, [UInt8.ofNat (position.left * 64 + value)])

/-- `binascii.a2b_base64` from a position on; `none` when it raises. -/
def decodeFrom (position : Position) : Text → Option (List UInt8)
  | [] => if position.place = 0 then some [] else none
  | character :: rest =>
    if character = '=' then
      if 2 ≤ position.place then
        if 4 ≤ position.place + (position.pads + 1) then some []
        else decodeFrom { position with pads := position.pads + 1 } rest
      else decodeFrom position rest
    else
      match value? character with
      | none => decodeFrom position rest
      | some value =>
        (decodeFrom (position.advance value).1 rest).map ((position.advance value).2 ++ ·)

/-- `base64.b64decode` of a text; `none` when it raises. -/
def b64decode (text : Text) : Option (List UInt8) :=
  if text.all fun character => character.toNat < 128 then decodeFrom .start text else none

section Symbols

theorem value?_symbol {value : Nat} (small : value < 64) : value? (symbol value) = some value := by
  have all : ∀ value ∈ List.range 64, value? (symbol value) = some value := by decide
  exact all value (List.mem_range.mpr small)

/-- A symbol is an ASCII character that neither pads nor ends anything. -/
theorem symbol_spec {value : Nat} (small : value < 64) : symbol value ≠ '=' ∧
    0x2B ≤ (symbol value).toNat ∧ (symbol value).toNat < 128 := by
  have all : ∀ value ∈ List.range 64, symbol value ≠ '=' ∧
      0x2B ≤ (symbol value).toNat ∧ (symbol value).toNat < 128 := by decide
  exact all value (List.mem_range.mpr small)

theorem decodeFrom_symbol (position : Position) {value : Nat} (small : value < 64) (rest : Text) :
    decodeFrom position (symbol value :: rest) =
      (decodeFrom (position.advance value).1 rest).map ((position.advance value).2 ++ ·) := by
  rw [decodeFrom, if_neg (symbol_spec small).1, value?_symbol small]

end Symbols

section RoundTrip

theorem ofNat_eq {byte : UInt8} {number : Nat} (same : number = byte.toNat) :
    UInt8.ofNat number = byte := by
  rw [same, UInt8.ofNat_toNat]

/-- A full group is three bytes. -/
theorem decodeFrom_group (first second third : UInt8) (rest : Text) :
    decodeFrom .start (encode [first, second, third] ++ rest) =
      (decodeFrom .start rest).map ([first, second, third] ++ ·) := by
  have boundFirst := first.toNat_lt
  have boundSecond := second.toNat_lt
  have boundThird := third.toNat_lt
  have one : UInt8.ofNat (first.toNat / 4 * 4 +
      (first.toNat % 4 * 16 + second.toNat / 16) / 16) = first := ofNat_eq (by omega)
  have two : UInt8.ofNat ((first.toNat % 4 * 16 + second.toNat / 16) % 16 * 16 +
      (second.toNat % 16 * 4 + third.toNat / 64) / 4) = second := ofNat_eq (by omega)
  have three : UInt8.ofNat ((second.toNat % 16 * 4 + third.toNat / 64) % 4 * 64 +
      third.toNat % 64) = third := ofNat_eq (by omega)
  simp only [encode, List.cons_append, List.nil_append]
  rw [decodeFrom_symbol _ (by omega), decodeFrom_symbol _ (by omega),
    decodeFrom_symbol _ (by omega), decodeFrom_symbol _ (by omega)]
  simp only [Position.start, Position.advance, one, two, three, Option.map_map,
    List.nil_append]
  rfl

/-- What was encoded is decoded. -/
theorem decodeFrom_encode (bytes : List UInt8) : decodeFrom .start (encode bytes) = some bytes := by
  induction bytes using encode.induct with
  | case1 => rfl
  | case2 first =>
    have bound := first.toNat_lt
    have one : UInt8.ofNat (first.toNat / 4 * 4 + first.toNat % 4 * 16 / 16) = first :=
      ofNat_eq (by omega)
    have padded (left : Nat) : decodeFrom ⟨2, left, 0⟩ ['=', '='] = some [] := rfl
    rw [encode, decodeFrom_symbol _ (by omega), decodeFrom_symbol _ (by omega)]
    simp only [Position.start, Position.advance, one, padded, Option.map_some]
    rfl
  | case3 first second =>
    have boundFirst := first.toNat_lt
    have boundSecond := second.toNat_lt
    have one : UInt8.ofNat (first.toNat / 4 * 4 +
        (first.toNat % 4 * 16 + second.toNat / 16) / 16) = first := ofNat_eq (by omega)
    have two : UInt8.ofNat ((first.toNat % 4 * 16 + second.toNat / 16) % 16 * 16 +
        second.toNat % 16 * 4 / 4) = second := ofNat_eq (by omega)
    have padded (left : Nat) : decodeFrom ⟨3, left, 0⟩ ['='] = some [] := rfl
    rw [encode, decodeFrom_symbol _ (by omega), decodeFrom_symbol _ (by omega),
      decodeFrom_symbol _ (by omega)]
    simp only [Position.start, Position.advance, one, two, padded, Option.map_some]
    rfl
  | case4 first second third rest hypothesis =>
    have group := decodeFrom_group first second third (encode rest)
    rw [hypothesis] at group
    exact group

/-- The encoding is ASCII, and has neither blanks nor control characters. -/
theorem encode_spec (bytes : List UInt8) :
    ∀ character ∈ encode bytes, 0x2B ≤ character.toNat ∧ character.toNat < 128 := by
  have padding : 0x2B ≤ '='.toNat ∧ '='.toNat < 128 := by decide
  induction bytes using encode.induct with
  | case1 => simp [encode]
  | case2 first =>
    have bound := first.toNat_lt
    simp only [encode, List.forall_mem_cons, padding]
    exact ⟨(symbol_spec (by omega)).2, (symbol_spec (by omega)).2, by simp⟩
  | case3 first second =>
    have boundFirst := first.toNat_lt
    have boundSecond := second.toNat_lt
    simp only [encode, List.forall_mem_cons, padding]
    exact ⟨(symbol_spec (by omega)).2, (symbol_spec (by omega)).2, (symbol_spec (by omega)).2,
      by simp⟩
  | case4 first second third rest hypothesis =>
    have boundFirst := first.toNat_lt
    have boundSecond := second.toNat_lt
    have boundThird := third.toNat_lt
    simp only [encode, List.forall_mem_cons]
    exact ⟨(symbol_spec (by omega)).2, (symbol_spec (by omega)).2, (symbol_spec (by omega)).2,
      (symbol_spec (by omega)).2, hypothesis⟩

theorem b64decode_encode (bytes : List UInt8) : b64decode (encode bytes) = some bytes := by
  have ascii : (encode bytes).all (fun character => character.toNat < 128) = true := by
    rw [List.all_eq_true]
    intro character member
    exact decide_eq_true (encode_spec bytes character member).2
  rw [b64decode, if_pos ascii, decodeFrom_encode]

end RoundTrip

end MastProvisioning.Collections.Base64
