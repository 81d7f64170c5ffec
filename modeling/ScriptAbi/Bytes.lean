namespace ScriptAbi

/-!
# Byte strings and little-endian numbers

* `Bytes`: a byte string.
* `littleEndian n`: the base-256 digits of `n`, low digit first, with no high zero digit.
* `littleEndianOf width n`: exactly `width` digits of `n`, the ones above dropped.
* `ofLittleEndian`: the number that a digit string denotes.
-/

/-- A byte string, first byte first. -/
abbrev Bytes := List UInt8

/-- The base-256 digits of `n`, low digit first; zero has none. -/
def littleEndian (n : Nat) : Bytes :=
  if n = 0 then [] else UInt8.ofNat n :: littleEndian (n / 256)

/-- The `width` low base-256 digits of `n`, low digit first. -/
def littleEndianOf : (width : Nat) → Nat → Bytes
  | 0, _ => []
  | width + 1, n => UInt8.ofNat n :: littleEndianOf width (n / 256)

/-- The number whose base-256 digits, low digit first, are the given bytes. -/
def ofLittleEndian : Bytes → Nat
  | [] => 0
  | byte :: rest => byte.toNat + 256 * ofLittleEndian rest

@[simp] theorem ofLittleEndian_nil : ofLittleEndian [] = 0 := rfl

/-- The first byte is the lowest digit, to the base 256. -/
@[simp] theorem ofLittleEndian_cons (byte : UInt8) (rest : Bytes) :
    ofLittleEndian (byte :: rest) = byte.toNat + 256 * ofLittleEndian rest := rfl

/-- As many bytes are written as the width has. -/
@[simp] theorem length_littleEndianOf (width n : Nat) :
    (littleEndianOf width n).length = width := by
  induction width generalizing n with
  | zero => rfl
  | succ width ih => simp [littleEndianOf, ih]

/-- Reading undoes writing. -/
@[simp] theorem ofLittleEndian_littleEndian (n : Nat) : ofLittleEndian (littleEndian n) = n := by
  fun_induction littleEndian n with
  | case1 => rfl
  | case2 n _ ih =>
    simp [ih]
    omega

end ScriptAbi
