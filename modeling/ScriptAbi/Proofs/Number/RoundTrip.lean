import ScriptAbi.Number.Basic
import Mathlib.Data.List.Basic

namespace ScriptAbi.Number

/-!
# Numbers read back from their bytes

The shortest bytes of a number denote it (`decode_minimal`), so that no two numbers share them
(`minimal_injective`).

All turns on the last byte: `isSigned`, `setSign` and `clearSign` are first described on
`init ++ [last]`, and the magnitude's bytes leave the top bit of the last one free
(`isSigned_magnitude`), so that marking a sign can be undone (`decode_withSign`).
-/

/-! ### The top bit of one byte -/

/-- A fact about every byte is a fact about 256 numbers. -/
theorem forall_byte {P : UInt8 → Prop} (h : ∀ n : Fin 256, P (UInt8.ofNat n)) (b : UInt8) :
    P b := by
  simpa using h ⟨b.toNat, b.toNat_lt⟩

/-- The top bit is set once it is set. -/
theorem or_signBit_and_signBit (b : UInt8) : (b ||| signBit) &&& signBit ≠ 0 :=
  forall_byte (P := fun b => (b ||| signBit) &&& signBit ≠ 0) (by decide +kernel) b

/-- A free top bit need not be cleared. -/
theorem and_clear_of_and_signBit {b : UInt8} (h : b &&& signBit = 0) : b &&& 0x7f = b :=
  forall_byte (P := fun b => b &&& signBit = 0 → b &&& 0x7f = b) (by decide +kernel) b h

/-- A free top bit is set and cleared again. -/
theorem or_signBit_and_clear {b : UInt8} (h : b &&& signBit = 0) : (b ||| signBit) &&& 0x7f = b :=
  forall_byte (P := fun b => b &&& signBit = 0 → (b ||| signBit) &&& 0x7f = b) (by decide +kernel) b h

/-! ### The last byte of a byte string -/

/-- The sign is the top bit of the last byte. -/
theorem isSigned_concat (init : Bytes) (last : UInt8) :
    isSigned (init ++ [last]) = (last &&& signBit != 0) := by
  simp [isSigned]

theorem isSigned_concat_eq_false {init : Bytes} {last : UInt8} :
    isSigned (init ++ [last]) = false ↔ last &&& signBit = 0 := by
  simp [isSigned_concat]

/-- Setting the sign changes the last byte alone. -/
@[simp] theorem setSign_concat (init : Bytes) (last : UInt8) :
    setSign (init ++ [last]) = init ++ [last ||| signBit] := by
  induction init with
  | nil => rfl
  | cons b init ih => cases init <;> simp_all [setSign]

@[simp] theorem clearSign_concat (init : Bytes) (last : UInt8) :
    clearSign (init ++ [last]) = init ++ [last &&& 0x7f] := by
  induction init with
  | nil => rfl
  | cons b init ih => cases init <;> simp_all [clearSign]

theorem setSign_ne_nil {bytes : Bytes} (h : bytes ≠ []) : setSign bytes ≠ [] := by
  obtain ⟨init, last, rfl⟩ := (List.eq_nil_or_concat' bytes).resolve_left h
  simp

@[simp] theorem length_setSign (bytes : Bytes) : (setSign bytes).length = bytes.length := by
  rcases List.eq_nil_or_concat' bytes with rfl | ⟨init, last, rfl⟩
  · rfl
  · simp

/-- The sign of a number takes no byte of its own. -/
@[simp] theorem length_withSign (n : Int) (bytes : Bytes) :
    (withSign n bytes).length = bytes.length := by
  unfold withSign
  split
  · exact length_setSign bytes
  · rfl

/-- Zero bytes above the others do not count. -/
theorem ofLittleEndian_append_replicate (bytes : Bytes) (k : Nat) :
    ofLittleEndian (bytes ++ List.replicate k 0) = ofLittleEndian bytes := by
  induction bytes with
  | nil => induction k <;> simp_all [List.replicate_succ]
  | cons b rest ih => simp [ih]

/-! ### Reading a sign -/

/-- Bytes with a free top bit denote what their digits denote. -/
theorem decode_of_isSigned_eq_false {bytes : Bytes} (h : isSigned bytes = false) :
    decode bytes = ofLittleEndian bytes := by
  rcases List.eq_nil_or_concat' bytes with rfl | ⟨init, last, rfl⟩
  · rfl
  · have hlast : last &&& signBit = 0 := isSigned_concat_eq_false.1 h
    simp [decode, h, and_clear_of_and_signBit hlast]

/-- Marked bytes denote the negative of what the unmarked ones denote. -/
theorem decode_setSign {bytes : Bytes} (hne : bytes ≠ []) (h : isSigned bytes = false) :
    decode (setSign bytes) = -(ofLittleEndian bytes : Int) := by
  obtain ⟨init, last, rfl⟩ := (List.eq_nil_or_concat' bytes).resolve_left hne
  have hlast : last &&& signBit = 0 := isSigned_concat_eq_false.1 h
  have hset : isSigned (init ++ [last ||| signBit]) = true := by
    rw [isSigned_concat]
    exact bne_iff_ne.2 (or_signBit_and_signBit last)
  simp [decode, hset, or_signBit_and_clear hlast]

/-- **Undoing a sign.** Bytes of the magnitude with a free top bit, marked with the sign of the
    number, denote the number. -/
theorem decode_withSign {n : Int} {bytes : Bytes} (hne : bytes ≠ []) (h : isSigned bytes = false)
    (hvalue : ofLittleEndian bytes = n.natAbs) : decode (withSign n bytes) = n := by
  unfold withSign
  -- negative numbers are marked, the others are left as they are
  split
  · rw [decode_setSign hne h, hvalue]
    omega
  · rw [decode_of_isSigned_eq_false h, hvalue]
    omega

/-! ### The bytes of a magnitude -/

/-- The bytes of a magnitude leave the top bit free. -/
theorem isSigned_magnitude (n : Nat) : isSigned (magnitude n) = false := by
  unfold magnitude
  dsimp only
  -- where the digits take the top bit, a zero byte comes above them
  split
  · exact isSigned_concat_eq_false.2 (by decide)
  · simp_all

/-- The bytes of a magnitude denote it. -/
@[simp] theorem ofLittleEndian_magnitude (n : Nat) : ofLittleEndian (magnitude n) = n := by
  unfold magnitude
  dsimp only
  split
  · rw [show [(0 : UInt8)] = List.replicate 1 0 from rfl, ofLittleEndian_append_replicate,
      ofLittleEndian_littleEndian]
  · exact ofLittleEndian_littleEndian n

/-- Only zero has no bytes. -/
theorem eq_zero_of_magnitude_eq_nil {n : Nat} (h : magnitude n = []) : n = 0 := by
  rw [← ofLittleEndian_magnitude n, h]
  rfl

/-! ### Shortest bytes -/

/-- The shortest bytes of a number other than zero are its magnitude's with the sign. -/
theorem minimal_of_magnitude_ne_nil {n : Int} (h : magnitude n.natAbs ≠ []) :
    minimal n = withSign n (magnitude n.natAbs) := by
  unfold minimal
  split
  · contradiction
  · rfl

/-- Every number takes a byte. -/
theorem minimal_ne_nil (n : Int) : minimal n ≠ [] := by
  unfold minimal
  split
  · simp
  · rename_i bytes hne
    unfold withSign
    split
    · exact setSign_ne_nil hne
    · exact hne

/-- **Reading undoes writing.** The shortest bytes of a number denote it. -/
@[simp] theorem decode_minimal (n : Int) : decode (minimal n) = n := by
  by_cases h : magnitude n.natAbs = []
  · -- only zero has no digits, and its shortest bytes are one zero byte
    have hn : n = 0 := Int.natAbs_eq_zero.1 (eq_zero_of_magnitude_eq_nil h)
    rw [minimal, h, hn]
    rfl
  · rw [minimal_of_magnitude_ne_nil h]
    exact decode_withSign h (isSigned_magnitude _) (ofLittleEndian_magnitude _)

/-- No two numbers have the same shortest bytes. -/
theorem minimal_injective : Function.Injective minimal := by
  intro m n h
  rw [← decode_minimal m, h, decode_minimal]

/-! ### Bytes of a given width -/

/-- Bytes of a given width are as many as the width says. -/
theorem length_of_fixed?_eq_some {width : Nat} {n : Int} {bytes : Bytes}
    (h : fixed? width n = some bytes) : bytes.length = width := by
  unfold fixed? at h
  dsimp only at h
  split at h
  · rename_i hle
    cases h
    simp only [length_withSign, List.length_append, List.length_replicate]
    omega
  · contradiction

end ScriptAbi.Number
