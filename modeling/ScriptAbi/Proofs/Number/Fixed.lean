import ScriptAbi.Number.Encoding
import ScriptAbi.Proofs.Bytes
import ScriptAbi.Proofs.Number.RoundTrip

namespace ScriptAbi.Number

/-!
# Numbers and the bytes of a width

In a width, the numbers that leave a bit for their sign and the byte strings other than the negative
zero tell each other.

* `isSigned_eq_false_iff`, `length_magnitude_le_iff`: the top bit of bytes is free iff twice their
  number is still below the power of 256 of their length; so the magnitude fits in a width iff twice
  the number is below that of the width.
* `natAbs_decode`, `withSign_clearSign`: bytes are the magnitude of what they denote, with its sign.
* `fixed?_eq_some_iff`: the bytes of a number in a width are those of that length that denote it and
  that are no negative zero.
* `encodeFixed_decode`: which numbers have bytes in a width, and which numbers given bytes are of.
-/

/-- The bytes of zero, but with a sign. -/
def IsNegativeZero (bytes : Bytes) : Prop := ∃ k, bytes = List.replicate k 0 ++ [signBit]

/-- The magnitude leaves the top bit of the width free; where there is no byte, only zero does. -/
def InRange (width : Nat) (n : Int) : Prop :=
  if width = 0 then n = 0 else n.natAbs < 2 ^ (8 * width - 1)

/-! ### The top bit of one byte -/

/-- The top bit is free in the lower half of the bytes. -/
theorem and_signBit_eq_zero_iff (b : UInt8) : b &&& signBit = 0 ↔ b.toNat < 128 :=
  forall_byte (P := fun b => b &&& signBit = 0 ↔ b.toNat < 128) (by decide +kernel) b

/-- The top bit is free once it is cleared. -/
theorem and_clear_and_signBit (b : UInt8) : (b &&& 0x7f) &&& signBit = 0 :=
  forall_byte (P := fun b => (b &&& 0x7f) &&& signBit = 0) (by decide +kernel) b

/-- A top bit that was set is cleared and set again. -/
theorem and_clear_or_signBit {b : UInt8} (h : b &&& signBit ≠ 0) : (b &&& 0x7f) ||| signBit = b :=
  forall_byte (P := fun b => b &&& signBit ≠ 0 → (b &&& 0x7f) ||| signBit = b) (by decide +kernel) b h

/-! ### How far a magnitude reaches -/

/-- **The top bit is free** iff twice the number is still below the power of 256. -/
theorem isSigned_eq_false_iff {bytes : Bytes} :
    isSigned bytes = false ↔ 2 * ofLittleEndian bytes < 256 ^ bytes.length := by
  rcases List.eq_nil_or_concat' bytes with rfl | ⟨init, last, rfl⟩
  · simp [isSigned]
  · rw [isSigned_concat_eq_false, and_signBit_eq_zero_iff, ofLittleEndian_append,
      List.length_append, Nat.pow_add]
    simp only [ofLittleEndian_cons, ofLittleEndian_nil, List.length_singleton, Nat.mul_zero,
      Nat.add_zero, Nat.pow_one]
    have hinit := ofLittleEndian_lt init
    -- the sign bit is the top bit of the last byte, which counts for the whole power below it
    generalize 256 ^ init.length = power at *
    constructor
    · intro hlast
      have hle : power * (last.toNat + 1) ≤ power * 128 := Nat.mul_le_mul_left power hlast
      rw [Nat.mul_succ] at hle
      omega
    · intro hlt
      by_contra hlast
      have hle : power * 128 ≤ power * last.toNat := Nat.mul_le_mul_left power (Nat.not_lt.1 hlast)
      omega

/-- **A magnitude fits in a width** iff twice the number is below the power of 256. -/
theorem length_magnitude_le_iff {n width : Nat} :
    (magnitude n).length ≤ width ↔ 2 * n < 256 ^ width := by
  constructor
  · intro hle
    have hlt := isSigned_eq_false_iff.1 (isSigned_magnitude n)
    rw [ofLittleEndian_magnitude] at hlt
    exact hlt.trans_le (Nat.pow_le_pow_right (by decide) hle)
  · intro hlt
    have hdigits : (littleEndian n).length ≤ width := length_littleEndian_le_iff.2 (by omega)
    unfold magnitude
    dsimp only
    -- a byte is added only where the digits reach beyond half of what they could
    split
    · rename_i hsigned
      have hreach : ¬ 2 * n < 256 ^ (littleEndian n).length := by
        have := (not_congr isSigned_eq_false_iff).1 (ne_of_eq_of_ne hsigned (by decide))
        rwa [ofLittleEndian_littleEndian] at this
      have hne : (littleEndian n).length ≠ width := by
        intro heq
        exact hreach (heq ▸ hlt)
      simp only [List.length_append, List.length_singleton]
      omega
    · exact hdigits

/-- The range of a width, with no halves in it. -/
theorem inRange_iff {width : Nat} {n : Int} : InRange width n ↔ 2 * n.natAbs < 256 ^ width := by
  unfold InRange
  split
  · simp_all
  · have hpower : 256 ^ width = 2 * 2 ^ (8 * width - 1) := by
      rw [← Nat.pow_succ', show 256 = 2 ^ 8 from rfl, ← Nat.pow_mul]
      congr 1
      omega
    omega

/-! ### Bytes and the magnitude of what they denote -/

@[simp] theorem length_clearSign (bytes : Bytes) : (clearSign bytes).length = bytes.length := by
  rcases List.eq_nil_or_concat' bytes with rfl | ⟨init, last, rfl⟩
  · rfl
  · simp

/-- A cleared sign leaves the top bit free. -/
theorem isSigned_clearSign (bytes : Bytes) : isSigned (clearSign bytes) = false := by
  rcases List.eq_nil_or_concat' bytes with rfl | ⟨init, last, rfl⟩
  · rfl
  · rw [clearSign_concat, isSigned_concat_eq_false]
    exact and_clear_and_signBit last

/-- Where the top bit is free there is nothing to clear. -/
theorem clearSign_of_isSigned_eq_false {bytes : Bytes} (h : isSigned bytes = false) :
    clearSign bytes = bytes := by
  rcases List.eq_nil_or_concat' bytes with rfl | ⟨init, last, rfl⟩
  · rfl
  · rw [clearSign_concat, and_clear_of_and_signBit (isSigned_concat_eq_false.1 h)]

/-- A sign that was there is cleared and set again. -/
theorem setSign_clearSign {bytes : Bytes} (h : isSigned bytes = true) :
    setSign (clearSign bytes) = bytes := by
  rcases List.eq_nil_or_concat' bytes with rfl | ⟨init, last, rfl⟩
  · rfl
  · rw [isSigned_concat, bne_iff_ne] at h
    rw [clearSign_concat, setSign_concat, and_clear_or_signBit h]

/-- The size of a number is what its bytes denote without their sign. -/
theorem natAbs_decode (bytes : Bytes) :
    (decode bytes).natAbs = ofLittleEndian (clearSign bytes) := by
  unfold decode
  dsimp only
  split <;> simp

/-- A negative zero has a sign, and nothing else. -/
theorem isNegativeZero_iff {bytes : Bytes} :
    IsNegativeZero bytes ↔ isSigned bytes = true ∧ ofLittleEndian (clearSign bytes) = 0 := by
  constructor
  · rintro ⟨k, rfl⟩
    constructor
    · rw [isSigned_concat]
      decide
    · rw [clearSign_concat, ofLittleEndian_eq_zero_iff, List.length_append, List.length_replicate,
        List.length_singleton, List.replicate_succ']
      rfl
  · rintro ⟨hsigned, hzero⟩
    rcases List.eq_nil_or_concat' bytes with rfl | ⟨init, last, rfl⟩
    · cases hsigned
    · rw [isSigned_concat, bne_iff_ne] at hsigned
      rw [clearSign_concat, ofLittleEndian_eq_zero_iff, List.length_append, List.length_singleton,
        List.replicate_succ'] at hzero
      -- all digits are zero, so that the last byte is its sign alone
      obtain ⟨hinit, hlast⟩ := List.append_inj hzero (by simp)
      have hsign : last = signBit := by
        rw [← and_clear_or_signBit hsigned, List.singleton_inj.1 hlast]
        rfl
      exact ⟨init.length, by rw [hinit, hsign, List.length_replicate]⟩

/-- **Bytes are a magnitude with a sign**, unless the sign is all there is. -/
theorem withSign_clearSign {bytes : Bytes} (h : ¬ IsNegativeZero bytes) :
    withSign (decode bytes) (clearSign bytes) = bytes := by
  by_cases hsigned : isSigned bytes = true
  · have hvalue : ofLittleEndian (clearSign bytes) ≠ 0 := fun hzero =>
      h (isNegativeZero_iff.2 ⟨hsigned, hzero⟩)
    have hnegative : decode bytes < 0 := by
      simp only [decode, hsigned, if_true]
      omega
    rw [withSign, if_pos hnegative, setSign_clearSign hsigned]
  · rw [Bool.not_eq_true] at hsigned
    have hpositive : ¬ decode bytes < 0 := by
      rw [decode_of_isSigned_eq_false hsigned]
      omega
    rw [withSign, if_neg hpositive, clearSign_of_isSigned_eq_false hsigned]

/-- Bytes of one length that are no negative zero are told by the number that they denote. -/
theorem eq_of_decode_eq {bytes other : Bytes} (hlength : bytes.length = other.length)
    (hbytes : ¬ IsNegativeZero bytes) (hother : ¬ IsNegativeZero other)
    (h : decode bytes = decode other) : bytes = other := by
  have hclear : clearSign bytes = clearSign other := by
    apply eq_of_ofLittleEndian_eq
    · rw [length_clearSign, length_clearSign, hlength]
    · rw [← natAbs_decode, ← natAbs_decode, h]
  rw [← withSign_clearSign hbytes, h, hclear, withSign_clearSign hother]

/-- Bytes leave the top bit free for the sign of what they denote. -/
theorem two_mul_natAbs_decode_lt (bytes : Bytes) :
    2 * (decode bytes).natAbs < 256 ^ bytes.length := by
  have hlt := isSigned_eq_false_iff.1 (isSigned_clearSign bytes)
  rwa [← natAbs_decode, length_clearSign] at hlt

/-! ### The bytes of a number in a width -/

/-- Zero bytes above a magnitude leave its top bit free. -/
theorem isSigned_append_replicate {bytes : Bytes} (h : isSigned bytes = false) (k : Nat) :
    isSigned (bytes ++ List.replicate k 0) = false := by
  rw [isSigned_eq_false_iff] at h ⊢
  rw [ofLittleEndian_append_replicate, List.length_append]
  exact h.trans_le (Nat.pow_le_pow_right (by decide) (by omega))

/-- Bytes with a free top bit, marked with the sign of the number whose magnitude they are, denote
    the number and are no negative zero. -/
theorem decode_withSign_and_not_isNegativeZero {n : Int} {bytes : Bytes}
    (h : isSigned bytes = false) (hvalue : ofLittleEndian bytes = n.natAbs) :
    decode (withSign n bytes) = n ∧ ¬ IsNegativeZero (withSign n bytes) := by
  have hdecode : decode (withSign n bytes) = n := by
    by_cases hne : bytes = []
    · -- no bytes are the magnitude of zero
      have hn : n = 0 := Int.natAbs_eq_zero.1 (hvalue.symm.trans (by rw [hne]; rfl))
      rw [hne, hn]
      rfl
    · exact decode_withSign hne h hvalue
  refine ⟨hdecode, fun hnegative => ?_⟩
  obtain ⟨hsigned, hzero⟩ := isNegativeZero_iff.1 hnegative
  -- zero is not marked
  rw [← natAbs_decode, hdecode, Int.natAbs_eq_zero] at hzero
  rw [withSign, if_neg (by omega), h] at hsigned
  contradiction

/-- A number has bytes in a width iff its magnitude leaves the top bit of the width free. -/
theorem exists_fixed?_iff {width : Nat} {n : Int} :
    (∃ bytes, fixed? width n = some bytes) ↔ InRange width n := by
  rw [inRange_iff, ← length_magnitude_le_iff]
  simp [fixed?]

/-- The bytes of a number in a width denote the number and are no negative zero. -/
theorem decode_of_fixed?_eq_some {width : Nat} {n : Int} {bytes : Bytes}
    (h : fixed? width n = some bytes) : decode bytes = n ∧ ¬ IsNegativeZero bytes := by
  unfold fixed? at h
  dsimp only at h
  split at h
  · cases h
    apply decode_withSign_and_not_isNegativeZero
    · exact isSigned_append_replicate (isSigned_magnitude _) _
    · rw [ofLittleEndian_append_replicate, ofLittleEndian_magnitude]
  · contradiction

/-- **The bytes of a number in a width** are those of that length that denote the number and are no
    negative zero. -/
theorem fixed?_eq_some_iff {width : Nat} {n : Int} {bytes : Bytes} :
    fixed? width n = some bytes ↔
      bytes.length = width ∧ decode bytes = n ∧ ¬ IsNegativeZero bytes := by
  constructor
  · intro h
    exact ⟨length_of_fixed?_eq_some h, decode_of_fixed?_eq_some h⟩
  · rintro ⟨rfl, rfl, hbytes⟩
    -- the number has bytes of that length, and there are no two such
    obtain ⟨found, hfound⟩ :=
      exists_fixed?_iff.2 (inRange_iff.2 (two_mul_natAbs_decode_lt bytes))
    obtain ⟨hdecode, hnonneg⟩ := decode_of_fixed?_eq_some hfound
    rw [hfound, eq_of_decode_eq (length_of_fixed?_eq_some hfound) hnonneg hbytes hdecode]

/-- A number is encoded as the bytes of the width, where there are such. -/
theorem encodeFixed_eq_ok_iff {width : Nat} {n : Int} {bytes : Bytes} :
    encodeFixed width n = .ok bytes ↔ fixed? width n = some bytes := by
  unfold encodeFixed
  split <;> simp_all

/-- A negative zero denotes what as many zero bytes do. -/
theorem fixed?_of_isNegativeZero {bytes : Bytes} (h : IsNegativeZero bytes) :
    fixed? bytes.length (decode bytes) = some (List.replicate bytes.length 0) := by
  have hzero : decode bytes = 0 := by
    rw [← Int.natAbs_eq_zero, natAbs_decode]
    exact (isNegativeZero_iff.1 h).2
  have hfree : isSigned (List.replicate bytes.length 0) = false :=
    isSigned_append_replicate (show isSigned [] = false from rfl) bytes.length
  have hreplicate : ofLittleEndian (List.replicate bytes.length 0) = 0 :=
    ofLittleEndian_append_replicate [] bytes.length
  refine fixed?_eq_some_iff.2 ⟨List.length_replicate, ?_, fun hnegative => ?_⟩
  · rw [decode_of_isSigned_eq_false hfree, hreplicate, hzero]
    rfl
  · rw [(isNegativeZero_iff.1 hnegative).1] at hfree
    contradiction

/-- **The bytes of a width and the numbers in its range tell each other.** A number has bytes in a
    width iff it is in range; they are as many as the width says and denote the number. Bytes are
    those of the number that they denote, in the width of their length, unless they are a negative
    zero, for which zero bytes stand. A number out of range is an error that names it and the
    width. -/
theorem encodeFixed_decode :
    (∀ width n, ((∃ bytes, encodeFixed width n = .ok bytes) ↔ InRange width n)
        ∧ (¬ InRange width n → encodeFixed width n = .error (.overflow n width))
        ∧ ∀ bytes, encodeFixed width n = .ok bytes → bytes.length = width ∧ decode bytes = n)
      ∧ ∀ bytes, bytes ≠ [] →
        (¬ IsNegativeZero bytes → encodeFixed bytes.length (decode bytes) = .ok bytes)
          ∧ (IsNegativeZero bytes →
            encodeFixed bytes.length (decode bytes) = .ok (List.replicate bytes.length 0)) := by
  constructor
  · intro width n
    simp only [encodeFixed_eq_ok_iff]
    refine ⟨exists_fixed?_iff, fun hrange => ?_, fun bytes h => ?_⟩
    · have hnone : fixed? width n = none :=
        Option.eq_none_iff_forall_ne_some.2 fun bytes h => hrange (exists_fixed?_iff.1 ⟨bytes, h⟩)
      rw [encodeFixed, hnone]
    · obtain ⟨hlength, hdecode, -⟩ := fixed?_eq_some_iff.1 h
      exact ⟨hlength, hdecode⟩
  · intro bytes _
    simp only [encodeFixed_eq_ok_iff]
    exact ⟨fun h => fixed?_eq_some_iff.2 ⟨rfl, rfl, h⟩, fixed?_of_isNegativeZero⟩

end ScriptAbi.Number
