import ScriptAbi.Text.Hex
import ScriptAbi.Script.Opcode

namespace ScriptAbi

/-!
# Scripts

A script is a list of instructions; an instruction is a bare opcode or a push of data.

* `PushForm`: how the length of pushed data is written; `PushForm.shortest` picks the shortest way.
* `Instr`, `Instr.ofData`: the instruction, and the one that pushes given data.
* `Script.lastReturn?`: where the code of a script ends.
* `ScriptFault`: why a text or a byte string is no script.
-/

/-- How the length of pushed data is written. -/
inductive PushForm
  /-- The opcode is the length. -/
  | direct
  /-- One byte after the opcode. -/
  | oneByte
  /-- Two bytes after the opcode, low byte first. -/
  | twoByte
  /-- Four bytes after the opcode, low byte first. -/
  | fourByte
  deriving DecidableEq, Repr

namespace PushForm

/-- The shortest form that can write a length; lengths of five bytes and more are cut to four. -/
def shortest (length : Nat) : PushForm :=
  if length < Opcode.pushData1.toNat then .direct
  else if length ≤ 0xff then .oneByte
  else if length ≤ 0xffff then .twoByte
  else .fourByte

/-- The number of bytes that hold the length. -/
def lengthBytes : PushForm → Nat
  | .direct => 0
  | .oneByte => 1
  | .twoByte => 2
  | .fourByte => 4

/-- The opcode that pushes data of the given length in this form. -/
def opcode (length : Nat) : PushForm → Opcode
  | .direct => UInt8.ofNat length
  | .oneByte => Opcode.pushData1
  | .twoByte => Opcode.pushData2
  | .fourByte => Opcode.pushData4

/-- The form of the push that an opcode starts; other opcodes stand alone. -/
def ofOpcode? (code : Opcode) : Option PushForm :=
  if code = Opcode.zero then none
  else if code < Opcode.pushData1 then some .direct
  else if code = Opcode.pushData1 then some .oneByte
  else if code = Opcode.pushData2 then some .twoByte
  else if code = Opcode.pushData4 then some .fourByte
  else none

end PushForm

/-- One instruction of a script. -/
inductive Instr
  /-- A bare opcode. -/
  | op (code : Opcode)
  /-- A push of data whose length is written in the given form. -/
  | push (form : PushForm) (data : Bytes)
  deriving DecidableEq, Repr

namespace Instr

/-- The instruction that pushes `data` in the fewest bytes; the empty string has an opcode. -/
def ofData (data : Bytes) : Instr :=
  if data.isEmpty then .op Opcode.zero else .push (PushForm.shortest data.length) data

/-- The opcode that the instruction starts with. -/
def opcode : Instr → Opcode
  | .op code => code
  | .push form data => form.opcode data.length

/-- The data of a push. -/
def data? : Instr → Option Bytes
  | .op _ => none
  | .push _ data => some data

/-- The instruction is a push. -/
def isPush (instr : Instr) : Bool := instr.data?.isSome

end Instr

/-- A script is a list of instructions. -/
abbrev Script := List Instr

/-- The position of the last bare return, where the code ends and the data begins. -/
def Script.lastReturn? : Script → Option Nat
  | [] => none
  | instr :: rest =>
    match Script.lastReturn? rest with
    | some position => some (position + 1)
    | none => if instr = .op Opcode.ret then some 0 else none

/-- Why a text or a byte string is no script. -/
inductive ScriptFault
  /-- A word that is neither an opcode nor hexadecimal data. -/
  | unknownWord (word : String)
  /-- A word that starts a placeholder. -/
  | openPlaceholder (word : String)
  /-- A text that is not hexadecimal. -/
  | notHex (fault : Hex.Fault)
  /-- The bytes end inside a push; the first byte that is missing would stand after `offset`. -/
  | cutOff (offset : Nat)
  deriving DecidableEq, Repr

/-- The wording of a script error. -/
def ScriptFault.message : ScriptFault → String
  | .unknownWord word => "unknown ASM token '" ++ word ++ "'"
  | .openPlaceholder word => "unresolved template placeholder '" ++ word ++ "'"
  | .notHex fault => "invalid hex: " ++ fault.message
  | .cutOff offset => "script ends inside a push at offset " ++ toString offset

end ScriptAbi
