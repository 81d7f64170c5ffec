import ScriptAbi.Codec.Scalar
import ScriptAbi.State.Fields

namespace ScriptAbi

/-!
# State in documents

* `StateLayout.ofJson?`: the names and kinds of a state's values.
* `lengthWidthOfJson?`: the options of a state, of which there is one.
* `StateFields.toJson`: named values in order.
-/

/-- The names of what a cell is read as. -/
def CellKind.names : List (String × CellKind) :=
  [("bool", .bool), ("int", .int), ("bytes", .bytes)]

/-- A field of a layout: a pair of its name and its kind. -/
def StateLayout.fieldOfJson? (json : Json) : Option (String × CellKind) := do
  let (name, kind) ← json.pair?
  return (← name.string?, ← kind.name? CellKind.names)

/-- The layout that a document denotes. -/
def StateLayout.ofJson? (json : Json) : Option StateLayout :=
  match json.record? ["fields"] with
  | some [some fields] => fields.list? StateLayout.fieldOfJson?
  | _ => none

/-- The width of the length push that a document of options gives. -/
def lengthWidthOfJson? (json : Json) : Option Nat :=
  match json.record? ["lengthWidth"] with
  | some [width] => Json.optional? defaultLengthWidth (Json.natBelow? Text.sizeBound) width
  | _ => none

/-- The document of fields, each a pair of its name and its value. -/
def StateFields.toJson (fields : StateFields) : Json :=
  .arr (fields.map fun (name, value) => .arr [.str name, value.toJson])

end ScriptAbi
