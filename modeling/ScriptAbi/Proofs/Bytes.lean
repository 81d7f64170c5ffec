import ScriptAbi.Bytes
import Mathlib.Tactic.Ring

namespace ScriptAbi

/-!
# Digits and the numbers they denote

* `ofLittleEndian_lt`: the number that bytes denote is below the power of 256 of their length.
* `littleEndianOf_ofLittleEndian`: writing undoes reading, in the width of what was read; so that
  bytes of one length are told by the number (`eq_of_ofLittleEndian_eq`).
* `length_littleEndian_le_iff`: a number has its digits in a width iff it is below that power of 256.
-/

/-! ### Reading -/

/-- The bytes at the end count for a power of 256 each. -/
theorem ofLittleEndian_append (low high : Bytes) :
    ofLittleEndian (low ++ high) = ofLittleEndian low + 256 ^ low.length * ofLittleEndian high := by
  induction low with
  | nil => simp
  | cons byte rest ih =>
    rw [List.cons_append, ofLittleEndian_cons, ih, ofLittleEndian_cons, List.length_cons,
      Nat.pow_succ]
    ring

/-- **A width bounds the number.** -/
theorem ofLittleEndian_lt (bytes : Bytes) : ofLittleEndian bytes < 256 ^ bytes.length := by
  induction bytes with
  | nil => decide
  | cons byte rest ih =>
    have hbyte : byte.toNat < 256 := byte.toNat_lt
    rw [ofLittleEndian_cons, List.length_cons, Nat.pow_succ]
    omega

/-- Only zero bytes denote zero. -/
theorem ofLittleEndian_eq_zero_iff {bytes : Bytes} :
    ofLittleEndian bytes = 0 ↔ bytes = List.replicate bytes.length 0 := by
  induction bytes with
  | nil => simp
  | cons byte rest ih =>
    rw [ofLittleEndian_cons, List.length_cons, List.replicate_succ, List.cons.injEq, ← ih,
      ← UInt8.toNat_inj]
    simp

/-! ### Writing what was read -/

/-- **Writing undoes reading**, in the width of the bytes that were read. -/
theorem littleEndianOf_ofLittleEndian (bytes : Bytes) :
    littleEndianOf bytes.length (ofLittleEndian bytes) = bytes := by
  induction bytes with
  | nil => rfl
  | cons byte rest ih =>
    have hbyte : byte.toNat < 256 := byte.toNat_lt
    have hlow : UInt8.ofNat (byte.toNat + 256 * ofLittleEndian rest) = byte := by
      rw [← UInt8.toNat_inj, UInt8.toNat_ofNat']
      omega
    have hhigh : (byte.toNat + 256 * ofLittleEndian rest) / 256 = ofLittleEndian rest := by
      omega
    rw [List.length_cons, ofLittleEndian_cons, littleEndianOf, hlow, hhigh, ih]

/-- Bytes of one length are told by the number that they denote. -/
theorem eq_of_ofLittleEndian_eq {bytes other : Bytes} (hlength : bytes.length = other.length)
    (h : ofLittleEndian bytes = ofLittleEndian other) : bytes = other := by
  rw [← littleEndianOf_ofLittleEndian bytes, hlength, h, littleEndianOf_ofLittleEndian]

/-! ### The digits of a number -/

/-- **A number has its digits in a width** iff it is below that power of 256. -/
theorem length_littleEndian_le_iff {n width : Nat} :
    (littleEndian n).length ≤ width ↔ n < 256 ^ width := by
  induction width generalizing n with
  | zero =>
    rw [Nat.pow_zero, Nat.lt_one_iff, Nat.le_zero, List.length_eq_zero_iff]
    unfold littleEndian
    split <;> simp_all
  | succ width ih =>
    unfold littleEndian
    split
    · simp_all
    · rw [List.length_cons, Nat.add_le_add_iff_right, ih, Nat.pow_succ]
      exact Nat.div_lt_iff_lt_mul (by decide)

end ScriptAbi
