import ScriptAbi.Error
import ScriptAbi.Schema
import ScriptAbi.Value.Basic

namespace ScriptAbi

/-!
# Values of a type

* `Value.check`: a value checked against a type, with every struct in it bound to its schema, so
  that its members stand in the schema's order.
* `Schema.arrange`: the same for the members of one struct.
* `Struct.bind`: a struct bound to a schema.
-/

/-- How one value stands the check against any type. -/
abbrev Checker := TypeExpr → Except ContractError Value

/-- Checks the value of one declared member, which is the first given under its name. -/
def Param.checkMember (struct : String) (given : List (String × Checker)) (member : Param) :
    Except ContractError (String × Value) :=
  match given.lookup member.name with
  | none => .error (.schema struct (.missing member.name))
  | some check => do
    let type ← TypeExpr.ofText member.type
    let value ← (check type).mapError (ContractError.placedIn member.name)
    return (member.name, value)

/-- The members of a struct in the schema's order. Given are the name of the schema that the struct
    is bound to already, if it is, and its members with how each stands the check. -/
def Schema.arrange (schema : Schema) (bound : Option String) (given : List (String × Checker)) :
    Except ContractError (List (String × Value)) :=
  match bound.filter (· != schema.name) with
  | some other => .error (.schema schema.name (.boundElsewhere other))
  | none =>
    match given.find? fun entry => !schema.declares entry.1 with
    | some (name, _) => .error (.schema schema.name (.undeclared name))
    | none => schema.members.mapM (Param.checkMember schema.name given)

namespace Value

variable (schemas : List Schema)

mutual

/-- The value as one of the given type, with all structs in it bound. -/
def check : Value → Checker
  | .array items, .array element size =>
    -- the number of items counts before what they are
    if items.length ≠ size then .error (.arraySize size items.length)
    else if uniform items then (checkItems items element).map .array
    else .error .mixedArray
  | .struct bound fields, .struct name =>
    match Schema.find? schemas name with
    | none => .error (.unboundStruct name)
    | some schema => (schema.arrange bound (checkers fields)).map (.struct (some schema.name))
  | value, .scalar kind =>
    if value.kind? = some kind then .ok value
    else .error (.mistyped (.scalar kind) value.typeName)
  | value, type => .error (.mistyped type value.typeName)

/-- Each item as one of the given type. -/
def checkItems : List Value → TypeExpr → Except ContractError (List Value)
  | [], _ => .ok []
  | value :: rest, type => do
    let first ← value.check type
    let others ← checkItems rest type
    return first :: others

/-- The members, each with how it stands the check. -/
def checkers : List (String × Value) → List (String × Checker)
  | [] => []
  | (name, value) :: rest => (name, value.check) :: checkers rest

end

/-- The members keep their names and their order. -/
theorem checkers_eq_map (fields : List (String × Value)) :
    checkers schemas fields = fields.map fun (name, value) => (name, check schemas value) := by
  induction fields with
  | nil => rfl
  | cons field rest ih => simp [checkers, ih]

/-- The items are checked from left to right. -/
theorem checkItems_eq_mapM (items : List Value) (type : TypeExpr) :
    checkItems schemas items type = items.mapM fun item => check schemas item type := by
  induction items with
  | nil => rfl
  | cons item rest ih => simp [checkItems, ih]

end Value

/-- A struct bound to a schema, with the structs inside it bound as well. -/
def Struct.bind (schemas : List Schema) (schema : Schema) (s : Struct) :
    Except ContractError Struct := do
  let fields ← schema.arrange s.schema (Value.checkers schemas s.fields)
  return ⟨some schema.name, fields⟩

end ScriptAbi
