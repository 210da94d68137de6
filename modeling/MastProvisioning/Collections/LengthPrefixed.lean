import Mathlib.Data.List.Basic
import Mathlib.Tactic.Ring

/-!
# Numbers and fields of a binary record

Numbers of a fixed width, the low byte first, and fields that begin with their length.
A field is read back when its length fits the width, and never at another length than
the one that was written, up to what the width holds.
-/

namespace MastProvisioning.Collections.LengthPrefixed

/-- The value of bytes, the low one first. -/
def valueOf : List UInt8 → Nat
  | [] => 0
  | byte :: rest => byte.toNat + 256 * valueOf rest

/-- The low bytes of a number. -/
def number : Nat → Nat → List UInt8
  | 0, _ => []
  | width + 1, value => UInt8.ofNat value :: number width (value / 256)

/-- A content behind its length. -/
def field (width : Nat) (content : List UInt8) : List UInt8 :=
  number width content.length ++ content

/-- The content at the front, and what follows it. -/
def takeField (width : Nat) (bytes : List UInt8) : Option (List UInt8 × List UInt8) :=
  let size := valueOf (bytes.take width)
  let rest := bytes.drop width
  if width ≤ bytes.length ∧ size ≤ rest.length then some (rest.take size, rest.drop size) else none

@[simp] theorem length_number (width value : Nat) : (number width value).length = width := by
  induction width generalizing value with
  | zero => rfl
  | succ width ih => simp [number, ih]

/-- Of a number the width keeps the remainder. -/
theorem valueOf_number (width value : Nat) : valueOf (number width value) = value % 256 ^ width := by
  induction width generalizing value with
  | zero => simp [number, valueOf, Nat.mod_one]
  | succ width ih =>
    have wider : 256 ^ (width + 1) = 256 * 256 ^ width := Nat.pow_succ'
    rw [number, valueOf, ih, UInt8.toNat_ofNat', wider, Nat.mod_mul]

theorem takeField_field_append (width : Nat) (content rest : List UInt8) :
    takeField width (field width content ++ rest) =
      some ((content ++ rest).take (content.length % 256 ^ width),
        (content ++ rest).drop (content.length % 256 ^ width)) := by
  have front : (field width content ++ rest).take width = number width content.length := by
    rw [field, List.append_assoc]
    exact List.take_left' (length_number _ _)
  have after : (field width content ++ rest).drop width = content ++ rest := by
    rw [field, List.append_assoc]
    exact List.drop_left' (length_number _ _)
  have fits : content.length % 256 ^ width ≤ (content ++ rest).length :=
    (Nat.mod_le _ _).trans (by simp)
  rw [takeField, front, after, valueOf_number, if_pos]
  exact ⟨by simp [field], fits⟩

/-- A field whose length the width holds is read back. -/
theorem takeField_field {width : Nat} {content : List UInt8} (fits : content.length < 256 ^ width)
    (rest : List UInt8) : takeField width (field width content ++ rest) = some (content, rest) := by
  rw [takeField_field_append, Nat.mod_eq_of_lt fits, List.take_left, List.drop_left]

/-- What is read of a field is as long as it only when the width holds its length. -/
theorem fits_of_takeField {width : Nat} {content rest found after : List UInt8}
    (taken : takeField width (field width content ++ rest) = some (found, after))
    (same : found.length = content.length) : content.length < 256 ^ width := by
  rw [takeField_field_append] at taken
  have size : found.length = content.length % 256 ^ width := by
    rw [← (Prod.mk.inj (Option.some.inj taken)).1, List.length_take]
    refine Nat.min_eq_left ((Nat.mod_le _ _).trans ?_)
    simp
  rw [same] at size
  rw [size]
  exact Nat.mod_lt _ (Nat.pow_pos (by decide))

end MastProvisioning.Collections.LengthPrefixed
