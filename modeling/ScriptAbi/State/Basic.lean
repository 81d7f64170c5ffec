import ScriptAbi.Number.Encoding
import ScriptAbi.Script.Binary

namespace ScriptAbi

/-!
# Contract state

The state of a contract stands after the last return of its script: one instruction for each value,
then the number of bytes that these take, in a push of a fixed width. Nothing in it tells what the
values mean.

* `encodeState`: the instructions of a list of values.
* `Script.cells`: the instructions in which a script keeps its state.
* `Cell.number`, `Cell.truth`, `Cell.bytes`: what a cell holds, if it is read as a number, a truth
  value or a byte string.
-/

/-- The width of the length push, if none is given. -/
def defaultLengthWidth : Nat := 2

/-- The instruction that holds a value. A number is pushed as data even if an opcode pushes it. -/
def Datum.toInstr : Datum → Instr
  | .bool true => .op Opcode.one
  | .bool false => .op Opcode.zero
  | .int n => .ofData (Number.minimal n)
  | .bytes data => .ofData data

/-- The state with the given values; their length has the given width. -/
def encodeState (width : Nat) (values : List Datum) : Except ContractError Script := do
  let body : Script := values.map Datum.toInstr
  let length ← Number.encodeFixed width body.toBytes.length
  return body ++ [.ofData length]

/-- An instruction of a state, with its position in the state. -/
structure Cell where
  index : Nat
  instr : Instr
  deriving DecidableEq, Repr

/-- The state cells of a script: what stands after the last return and before the last
    instruction. If that is the return itself, or there is none, they start with the script. -/
def Script.cells (script : Script) : List Cell :=
  let body := List.dropLast script
  let start :=
    match script.lastReturn? with
    | some position => if position < body.length then position + 1 else 0
    | none => 0
  (body.drop start).mapIdx fun index instr => ⟨index, instr⟩

namespace Cell

/-- The cell as a number. -/
def number (cell : Cell) : Except ContractError Int :=
  match cell.instr with
  | .push _ data => .ok (Number.decode data)
  | .op code =>
    match Opcode.pushedInt? code with
    | some n => .ok n
    | none => .error (.unreadableCell cell.index .number)

/-- The cell as a truth value: zero is false. -/
def truth (cell : Cell) : Except ContractError Bool := cell.number.map fun n => n != 0

/-- The cell as a byte string. -/
def bytes (cell : Cell) : Except ContractError Bytes :=
  match cell.instr with
  | .push _ data => .ok data
  | .op code => if code = Opcode.zero then .ok [] else .error (.unreadableCell cell.index .bytes)

end Cell

end ScriptAbi
