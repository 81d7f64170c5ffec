import ScriptAbi.Proofs.Text.Words
import ScriptAbi.Script.Binary
import Mathlib.Algebra.Group.Nat.Defs

namespace ScriptAbi

/-!
# Scripts read back from their bytes

* `Instr.Readable`: an instruction that its bytes tell: a bare opcode that starts no push, or a
  push whose length its form can write.
* `readable_ofData`: what pushes given data in the fewest bytes is readable.
* `parse_toBytes`, `ofHex_toHex`: a script of readable instructions is read back from its bytes and
  from its hexadecimal text.
-/

/-- The form can write the length, and its opcode does not stand for another form. -/
def PushForm.Fits (length : Nat) : PushForm → Prop
  | .direct => 0 < length ∧ length < Opcode.pushData1.toNat
  | form => length < 256 ^ form.lengthBytes

/-- The bytes of the instruction tell which instruction it is. -/
def Instr.Readable : Instr → Prop
  | .op code => PushForm.ofOpcode? code = none
  | .push form data => form.Fits data.length

/-! ### Opcodes and forms -/

/-- In a fixed width, reading undoes writing as far as the width reaches. -/
theorem ofLittleEndian_littleEndianOf (width n : Nat) :
    ofLittleEndian (littleEndianOf width n) = n % 256 ^ width := by
  induction width generalizing n with
  | zero => simp [littleEndianOf, Nat.mod_one]
  | succ width ih =>
    have hlow : (UInt8.ofNat n).toNat = n % 256 := by simp
    rw [littleEndianOf, ofLittleEndian_cons, ih, hlow, Nat.pow_succ, Nat.mul_comm _ 256, Nat.mod_mul]

/-- The opcode of a form that fits is taken for that form. -/
theorem ofOpcode?_opcode {form : PushForm} {length : Nat} (h : form.Fits length) :
    PushForm.ofOpcode? (form.opcode length) = some form := by
  cases form with
  -- only this form's opcode is computed from the length, so it must be shown to stay below the
  -- three length-prefixed ones
  | direct =>
    obtain ⟨hpos, hlt⟩ := h
    have hnat : (UInt8.ofNat length).toNat = length :=
      UInt8.toNat_ofNat_of_lt' (Nat.lt_trans hlt (by decide))
    have hzero : UInt8.ofNat length ≠ Opcode.zero := by
      intro heq
      rw [heq] at hnat
      exact Nat.ne_of_lt hpos hnat
    have hdirect : UInt8.ofNat length < Opcode.pushData1 := by
      rw [UInt8.lt_iff_toNat_lt, hnat]
      exact hlt
    simp only [PushForm.opcode, PushForm.ofOpcode?, hzero, hdirect, if_true, if_false]
  | oneByte | twoByte | fourByte => rfl

/-- The opcodes that start a push are those from 1 to 78. -/
theorem readable_op_iff {code : Opcode} :
    (Instr.op code).Readable ↔ ¬ (0x01 ≤ code ∧ code ≤ 0x4e) := by
  simp only [Instr.Readable, PushForm.ofOpcode?, Opcode.zero, Opcode.pushData1, Opcode.pushData2,
    Opcode.pushData4, UInt8.le_iff_toNat_le, UInt8.lt_iff_toNat_lt, ← UInt8.toNat_inj,
    UInt8.reduceToNat]
  split_ifs <;> simp <;> omega

/-- A form that fits announces the length that it was given. -/
theorem announced_opcode {form : PushForm} {length : Nat} (h : form.Fits length) :
    form.announced (form.opcode length) (littleEndianOf form.lengthBytes length) = length := by
  cases form with
  | direct =>
    exact UInt8.toNat_ofNat_of_lt' (Nat.lt_trans h.2 (by decide))
  | oneByte | twoByte | fourByte =>
    -- the length is written in a fixed width, which it fits
    show ofLittleEndian (littleEndianOf _ length) = length
    rw [ofLittleEndian_littleEndianOf]
    exact Nat.mod_eq_of_lt h

/-! ### One instruction -/

/-- A push that fits is read off the front of its bytes. -/
theorem read_push {form : PushForm} {data : Bytes} (h : form.Fits data.length) (tail : Bytes) :
    Instr.read (form.opcode data.length)
        (littleEndianOf form.lengthBytes data.length ++ (data ++ tail))
      = .ok (.push form data, tail) := by
  have htake : (littleEndianOf form.lengthBytes data.length ++ (data ++ tail)).take form.lengthBytes
      = littleEndianOf form.lengthBytes data.length :=
    List.take_left' (length_littleEndianOf _ _)
  have hdrop : (littleEndianOf form.lengthBytes data.length ++ (data ++ tail)).drop form.lengthBytes
      = data ++ tail :=
    List.drop_left' (length_littleEndianOf _ _)
  simp [Instr.read, ofOpcode?_opcode h, htake, hdrop, announced_opcode h]

/-- What is read first decides how the rest is read. -/
theorem parse_cons_of_read {code : Opcode} {bytes tail : Bytes} {instr : Instr} {rest : Script}
    (hread : Instr.read code bytes = .ok (instr, tail)) (hrest : Script.parse tail = .ok rest) :
    Script.parse (code :: bytes) = .ok (instr :: rest) := by
  rw [Script.parse]
  split
  · simp_all
  · rename_i heq
    rw [hread] at heq
    cases heq
    simp [hrest]

/-- A readable instruction is the first of a byte string that starts with its bytes. -/
theorem parse_toBytes_append {instr : Instr} (h : instr.Readable) {tail : Bytes} {rest : Script}
    (hrest : Script.parse tail = .ok rest) :
    Script.parse (instr.toBytes ++ tail) = .ok (instr :: rest) := by
  cases instr with
  | op code =>
    refine parse_cons_of_read ?_ hrest
    simp only [Instr.Readable] at h
    simp [Instr.read, h]
  | push form data =>
    rw [Instr.toBytes, List.cons_append, List.append_assoc]
    exact parse_cons_of_read (read_push h tail) hrest

/-! ### Whole scripts -/

/-- **Reading undoes writing.** A script of readable instructions is read back from its bytes. -/
theorem parse_toBytes {script : Script} (h : ∀ instr ∈ script, instr.Readable) :
    Script.parse script.toBytes = .ok script := by
  induction script with
  | nil => simp [Script.parse]
  | cons instr rest ih =>
    rw [Script.toBytes_cons]
    exact parse_toBytes_append (h instr (by simp)) (ih fun i hi => h i (by simp [hi]))

/-! ### Hexadecimal text -/

/-- No digit is a blank. -/
theorem isBlank_digitChar {n : Nat} (h : n < 16) : Text.isBlank (Nat.digitChar n) = false := by
  have : ∀ m : Fin 16, Text.isBlank (Nat.digitChar m) = false := by decide
  exact this ⟨n, h⟩

/-- The digits of bytes are not blank. -/
theorem isBlank_of_mem_digits {bytes : Bytes} {c : Char} (h : c ∈ Hex.digits bytes) :
    Text.isBlank c = false := by
  obtain ⟨byte, -, hc⟩ := List.mem_flatMap.1 h
  have hbyte : byte.toNat < 256 := byte.toNat_lt
  simp only [Hex.digitsOf, List.mem_cons, List.not_mem_nil, or_false] at hc
  rcases hc with rfl | rfl
  · exact isBlank_digitChar (by omega)
  · exact isBlank_digitChar (by omega)

/-- Bytes are printed with no blanks around them. -/
theorem trimmed_encode (bytes : Bytes) : Text.trimmed (Hex.encode bytes) = Hex.encode bytes := by
  rw [Text.trimmed, Hex.encode, String.toList_ofList, Text.trim_eq_self]
  · exact fun c hc => isBlank_of_mem_digits (List.mem_of_mem_head? hc)
  · exact fun c hc => isBlank_of_mem_digits (List.mem_of_mem_getLast? hc)

/-- **Reading undoes writing**, by way of hexadecimal text. -/
theorem ofHex_toHex {script : Script} (h : ∀ instr ∈ script, instr.Readable) :
    Script.ofHex script.toHex = .ok script := by
  rw [Script.ofHex, Script.toHex, trimmed_encode, Hex.decode_encode]
  show (Script.parse script.toBytes).mapError ScriptFault.cutOff = .ok script
  rw [parse_toBytes h]
  rfl

/-! ### The shortest push -/

/-- The shortest form of a length of at most four bytes fits, unless there is nothing to push. -/
theorem fits_shortest {length : Nat} (hpos : 0 < length) (hlt : length < 2 ^ 32) :
    (PushForm.shortest length).Fits length := by
  unfold PushForm.shortest
  split_ifs with hdirect hone htwo
  · exact ⟨hpos, hdirect⟩
  · show length < 256 ^ 1
    omega
  · show length < 256 ^ 2
    omega
  · show length < 256 ^ 4
    omega

/-- What pushes data whose length has at most four bytes is readable. -/
theorem readable_ofData {data : Bytes} (h : data.length < 2 ^ 32) : (Instr.ofData data).Readable := by
  unfold Instr.ofData
  split_ifs with hempty
  · rfl
  · refine fits_shortest (List.length_pos_iff.2 fun hnil => ?_) h
    simp [hnil] at hempty

/-- The data of the instruction that pushes data are these data, if there are any. -/
theorem readable_ofData_of_data? {data : Bytes}
    (h : ∀ pushed ∈ (Instr.ofData data).data?, pushed.length < 2 ^ 32) :
    (Instr.ofData data).Readable := by
  apply readable_ofData
  by_cases hempty : data.isEmpty
  · simp [List.isEmpty_iff.1 hempty]
  · exact h data (by simp [Instr.ofData, hempty, Instr.data?])

end ScriptAbi
