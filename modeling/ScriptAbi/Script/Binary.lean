import ScriptAbi.Text.Blank
import ScriptAbi.Script.Basic

namespace ScriptAbi

/-!
# Scripts as bytes

* `Instr.toBytes`, `Script.toBytes`: an opcode, then for a push the length in its form, then the
  data.
* `Instr.read`: the instruction that an opcode and the bytes after it start with.
* `Script.parse`: the instructions of a byte string, or how far it can be read.
* `Script.ofBytes`, `Script.ofHex`: the same with a `ScriptFault`.
-/

/-- The bytes of an instruction. -/
def Instr.toBytes : Instr → Bytes
  | .op code => [code]
  | .push form data =>
    form.opcode data.length :: (littleEndianOf form.lengthBytes data.length ++ data)

/-- The bytes of a script. -/
def Script.toBytes (script : Script) : Bytes := List.flatMap Instr.toBytes script

/-- The hexadecimal text of a script. -/
def Script.toHex (script : Script) : String := Hex.encode script.toBytes

/-- The length that a push opcode or the length bytes after it announce. -/
def PushForm.announced (form : PushForm) (code : Opcode) (lengthField : Bytes) : Nat :=
  match form with
  | .direct => code.toNat
  | _ => ofLittleEndian lengthField

/-- The instruction that starts with `code` and goes on in `bytes`, and the bytes after it. If the
    bytes end too early, the number of them before the part that is cut off. -/
def Instr.read (code : Opcode) (bytes : Bytes) : Except Nat (Instr × Bytes) :=
  match PushForm.ofOpcode? code with
  | none => .ok (.op code, bytes)
  | some form =>
    let lengthField := bytes.take form.lengthBytes
    let length := form.announced code lengthField
    let body := bytes.drop form.lengthBytes
    let data := body.take length
    if lengthField.length < form.lengthBytes then .error 0
    else if data.length < length then .error form.lengthBytes
    else .ok (.push form data, body.drop length)

/-- What an instruction leaves is no longer than what it started with. -/
theorem Instr.length_le_of_read {code : Opcode} {bytes tail : Bytes} {instr : Instr}
    (h : Instr.read code bytes = .ok (instr, tail)) : tail.length ≤ bytes.length := by
  unfold Instr.read at h
  split at h
  · cases h
    exact Nat.le_refl _
  · dsimp only at h
    split at h
    · contradiction
    · split at h
      · contradiction
      · cases h
        simp only [List.length_drop]
        omega

/-- The instructions of a byte string. If it ends inside a push, the position of the part of that
    push that is cut off. -/
def Script.parse : Bytes → Except Nat Script
  | [] => .ok []
  | code :: bytes =>
    match h : Instr.read code bytes with
    | .error read => .error (1 + read)
    | .ok (instr, tail) =>
      have := Instr.length_le_of_read h
      match Script.parse tail with
      | .ok instrs => .ok (instr :: instrs)
      | .error position => .error (1 + (bytes.length - tail.length) + position)
termination_by bytes => bytes.length

/-- The script that a byte string holds. -/
def Script.ofBytes (bytes : Bytes) : Except ScriptFault Script :=
  (Script.parse bytes).mapError .cutOff

/-- The script that a hexadecimal text holds; blanks around it do not count. -/
def Script.ofHex (text : String) : Except ScriptFault Script :=
  match Hex.decode (Text.trimmed text) with
  | .ok bytes => Script.ofBytes bytes
  | .error fault => .error (.notHex fault)

@[simp] theorem Script.toBytes_nil : Script.toBytes [] = [] := rfl

@[simp] theorem Script.toBytes_cons (instr : Instr) (rest : Script) :
    Script.toBytes (instr :: rest) = instr.toBytes ++ Script.toBytes rest := rfl

/-- Two scripts have the bytes of both. -/
theorem Script.toBytes_append (front back : Script) :
    Script.toBytes (front ++ back) = Script.toBytes front ++ Script.toBytes back :=
  List.flatMap_append

end ScriptAbi
