import Crps.Foundation.Bytes

/-!
# Fields of a packed record

A packed record lies at the start of a message; a field is a few bytes at a
fixed offset, least significant first. Writing one field leaves the others.
-/

namespace Crps

/-- The `width` lowest bytes of a number. -/
def leBytes : ℕ → ℕ → Bytes
  | 0, _ => []
  | width + 1, value => UInt8.ofNat value :: leBytes width (value / 256)

def leValue : Bytes → ℕ
  | [] => 0
  | byte :: bytes => byte.toNat + 256 * leValue bytes

@[simp] theorem length_leBytes (width value : ℕ) : (leBytes width value).length = width := by
  induction width generalizing value with
  | zero => rfl
  | succ width ih => rw [leBytes, List.length_cons, ih]

theorem leValue_leBytes (width value : ℕ) :
    leValue (leBytes width value) = value % 256 ^ width := by
  induction width generalizing value with
  | zero => rw [pow_zero, Nat.mod_one, leBytes, leValue]
  | succ width ih =>
    rw [leBytes, leValue, ih, UInt8.toNat_ofNat', pow_succ' 256 width, Nat.mod_mul]

/-- The field of `width` bytes at offset `off`. -/
def readField (message : Bytes) (off width : ℕ) : ℕ := leValue ((message.drop off).take width)

def writeField (message : Bytes) (off width value : ℕ) : Bytes :=
  overwrite message off (leBytes width value)

variable {message : Bytes} {off width value off' width' : ℕ}

@[simp] theorem length_writeField (message : Bytes) (off width value : ℕ) :
    (writeField message off width value).length = message.length := length_overwrite _ _ _

theorem writeField_eq (h : off + width ≤ message.length) : writeField message off width value =
    message.take off ++ (leBytes width value ++ message.drop (off + width)) := by
  rw [writeField, overwrite_eq (by simpa using h), length_leBytes, List.append_assoc]

theorem readField_writeField (h : off + width ≤ message.length) :
    readField (writeField message off width value) off width = value % 256 ^ width := by
  have hoff : (message.take off).length = off := List.length_take_of_le (by omega)
  have hbytes : (leBytes width value ++ message.drop (off + width)).take width =
      leBytes width value := by
    rw [List.take_append_of_le_length (length_leBytes width value).ge, List.take_of_length_le
      (length_leBytes width value).le]
  rw [readField, writeField_eq h, List.drop_append_of_le_length hoff.ge,
    List.drop_of_length_le hoff.le, List.nil_append, hbytes, leValue_leBytes]

theorem readField_writeField_ne (h : off + width ≤ message.length)
    (hapart : off' + width' ≤ off ∨ off + width ≤ off') :
    readField (writeField message off width value) off' width' = readField message off' width' := by
  rcases hapart with hbefore | hbehind
  · have hoff : (message.take off).length = off := List.length_take_of_le (by omega)
    rw [readField, readField, writeField_eq h, List.drop_append_of_le_length (by omega),
      List.take_append_of_le_length (by rw [List.length_drop, hoff]; omega), List.drop_take,
      List.take_take, Nat.min_eq_left (by omega)]
  · have hwritten : (message.take off ++ leBytes width value).length = off + width := by
      rw [List.length_append, length_leBytes, List.length_take_of_le (by omega)]
    rw [readField, readField, writeField_eq h, ← List.append_assoc, List.drop_append, hwritten,
      List.drop_of_length_le (by omega), List.nil_append, List.drop_drop,
      Nat.add_sub_cancel' hbehind]

end Crps
