import ScriptAbi.Proofs.Number.Fixed

namespace ScriptAbi.Number

/-!
# The shortest bytes of a number

Many byte strings denote the same number: zero bytes may stand above its digits, below the sign.
`minimal` picks the shortest of them.

* `length_minimal`: the shortest bytes are as many as the magnitude has, and never none.
* `length_minimal_decode_le`: no bytes that denote a number are fewer than its shortest ones.
* `length_eq_minimal_iff`: as few are only the shortest bytes themselves and, for zero, the byte
  that is a sign and nothing else.
* `minimal_unique_shortest`: the three together, for all numbers and all byte strings.
-/

/-- The shortest bytes are those of the magnitude, but one byte stands for zero. -/
theorem length_minimal (n : Int) : (minimal n).length = max 1 (magnitude n.natAbs).length := by
  by_cases h : magnitude n.natAbs = []
  · rw [minimal, h]
    rfl
  · have hpos : 0 < (magnitude n.natAbs).length := List.length_pos_iff.2 h
    rw [minimal_of_magnitude_ne_nil h, length_withSign]
    omega

/-- Zero is written as one zero byte. -/
theorem minimal_zero : minimal 0 = [0] := by
  simp [minimal, magnitude, littleEndian, isSigned]

/-- Zero is not marked with a sign. -/
theorem not_isNegativeZero_minimal (n : Int) : ¬ IsNegativeZero (minimal n) := by
  by_cases h : magnitude n.natAbs = []
  · obtain rfl : n = 0 := Int.natAbs_eq_zero.1 (eq_zero_of_magnitude_eq_nil h)
    rw [minimal_zero, isNegativeZero_iff]
    decide
  · rw [minimal_of_magnitude_ne_nil h]
    exact (decode_withSign_and_not_isNegativeZero (isSigned_magnitude _)
      (ofLittleEndian_magnitude _)).2

/-- **No bytes of a number are fewer than its shortest ones.** -/
theorem length_minimal_decode_le {bytes : Bytes} (hne : bytes ≠ []) :
    (minimal (decode bytes)).length ≤ bytes.length := by
  have hpos : 0 < bytes.length := List.length_pos_iff.2 hne
  -- bytes of that length leave the top bit free, so that the magnitude fits in it
  have hfits : (magnitude (decode bytes).natAbs).length ≤ bytes.length :=
    length_magnitude_le_iff.2 (two_mul_natAbs_decode_lt bytes)
  rw [length_minimal]
  omega

/-- **As few as the shortest bytes** are only they, and the sign alone as a form of zero. -/
theorem length_eq_minimal_iff {bytes : Bytes} (hne : bytes ≠ []) :
    bytes.length = (minimal (decode bytes)).length ↔
      bytes = minimal (decode bytes) ∨ decode bytes = 0 ∧ bytes = [signBit] := by
  constructor
  · intro hlength
    by_cases hbytes : IsNegativeZero bytes
    · -- a negative zero denotes zero, which takes one byte
      have hzero : decode bytes = 0 := by
        rw [← Int.natAbs_eq_zero, natAbs_decode]
        exact (isNegativeZero_iff.1 hbytes).2
      obtain ⟨k, rfl⟩ := hbytes
      simp only [hzero, minimal_zero, List.length_append, List.length_replicate,
        List.length_singleton] at hlength
      obtain rfl : k = 0 := by omega
      exact .inr ⟨hzero, rfl⟩
    · exact .inl (eq_of_decode_eq hlength hbytes (not_isNegativeZero_minimal _)
        (decode_minimal _).symm)
  · rintro (heq | ⟨hzero, rfl⟩)
    · exact congrArg List.length heq
    · rw [hzero, minimal_zero]
      rfl

/-- **The shortest bytes of a number are its one shortest form.** They denote the number; no other
    bytes of it are fewer, and only zero has others that are as few, which is the sign alone. So they
    are the one form for all bytes of a number, which makes none of these longer. -/
theorem minimal_unique_shortest :
    (∀ n : Int, decode (minimal n) = n ∧ ∀ bytes, bytes ≠ [] → decode bytes = n →
        (minimal n).length ≤ bytes.length
          ∧ (bytes.length = (minimal n).length ↔ bytes = minimal n ∨ n = 0 ∧ bytes = [0x80]))
      ∧ decode [0x80] = 0
      ∧ ∀ bytes, bytes ≠ [] →
        (minimal (decode bytes)).length ≤ bytes.length
          ∧ decode (minimal (decode bytes)) = decode bytes
          ∧ ∀ other, minimal (decode other) = minimal (decode bytes) ↔
            decode other = decode bytes := by
  refine ⟨fun n => ⟨decode_minimal n, ?_⟩, by decide, fun bytes hne => ?_⟩
  · rintro bytes hne rfl
    exact ⟨length_minimal_decode_le hne, length_eq_minimal_iff hne⟩
  · exact ⟨length_minimal_decode_le hne, decode_minimal _, fun other => minimal_injective.eq_iff⟩

/-- Minus five, with a zero byte between the digit and the sign. -/
theorem minimal_unique_shortest_padded :
    [0x05, 0x00, 0x80] ≠ ([] : Bytes) ∧ decode [0x05, 0x00, 0x80] = -5
      ∧ (minimal (-5)).length ≤ 3 ∧ ([0x05, 0x00, 0x80] : Bytes) ≠ minimal (-5) := by
  have hne : [0x05, 0x00, 0x80] ≠ ([] : Bytes) := by simp
  have hdecode : decode [0x05, 0x00, 0x80] = -5 := by decide
  obtain ⟨hle, -⟩ := (minimal_unique_shortest.1 (-5)).2 _ hne hdecode
  exact ⟨hne, hdecode, hle, by decide +kernel⟩

end ScriptAbi.Number
