import ScriptAbi.Named
import ScriptAbi.State.Basic

namespace ScriptAbi

/-!
# State by name

* `StateLayout`: the names of a state's values and what each is read as, in order.
* `StateFields`: named values in order.
* `Script.readFields`: the fields that a script keeps, read by a layout.
-/

/-- What a state cell is read as. -/
inductive CellKind
  | bool
  | int
  | bytes
  deriving DecidableEq, Repr

/-- The names and kinds of a state's values, in order. -/
abbrev StateLayout := List (String × CellKind)

/-- Named values in order; a name may be used more than once. -/
abbrev StateFields := List (String × Datum)

namespace StateFields

/-- Adds a value at the end. -/
def add (fields : StateFields) (name : String) (value : Datum) : StateFields :=
  fields ++ [(name, value)]

/-- The first value of that name. -/
def get? (fields : StateFields) (name : String) : Option Datum := fields.lookup name

/-- The values in order. -/
def values (fields : StateFields) : List Datum := fields.map Prod.snd

/-- The state with these values. -/
def encode (width : Nat) (fields : StateFields) : Except ContractError Script :=
  encodeState width fields.values

end StateFields

/-- The cell as a value of the given kind. -/
def Cell.readAs (cell : Cell) : CellKind → Except ContractError Datum
  | .bool => cell.truth.map .bool
  | .int => cell.number.map .int
  | .bytes => cell.bytes.map .bytes

/-- A cell as a named value; the name is the place of the error if the cell cannot be read. -/
def Cell.readField (field : String × CellKind) (cell : Cell) :
    Except ContractError (String × Datum) := do
  let value ← (cell.readAs field.2).mapError (ContractError.placedIn field.1)
  return (field.1, value)

/-- The fields that a script keeps: those of the layout take the cells by position. Fields or cells
    that are left over do not count. -/
def Script.readFields (script : Script) (layout : StateLayout) :
    Except ContractError StateFields :=
  (layout.zip script.cells).mapM fun (field, cell) => cell.readField field

end ScriptAbi
