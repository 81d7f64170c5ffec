import ScriptAbi.Named
import ScriptAbi.Kind

namespace ScriptAbi

/-!
# Values

* `Value`: a scalar of some kind, a struct or an array.
* `Struct`: a struct on its own, built member by member.
* `Value.kind?`, `Value.typeName`: what a value says about its type.
-/

/-- An argument of a contract. -/
inductive Value
  | bool (b : Bool)
  | int (n : Int)
  | privKey (n : Int)
  | sigHashType (flag : UInt8)
  | bytes (kind : BytesKind) (data : Bytes)
  /-- A struct: the name of its schema once it is bound to one, and its members. -/
  | struct (schema : Option String) (fields : List (String × Value))
  | array (items : List Value)

namespace Value

/-- The name of the type that a value seems to have. An array goes by its first item; its own size
    comes before the sizes that the item's name ends in. -/
def typeName : Value → String
  | .bool _ => Kind.bool.name
  | .int _ => Kind.int.name
  | .privKey _ => Kind.privKey.name
  | .sigHashType _ => Kind.sigHashType.name
  | .bytes kind _ => kind.name
  | .struct schema _ => schema.getD "struct"
  | .array items =>
    let element := (match items with | [] => "unknown" | first :: _ => first.typeName).toList
    String.ofList (element.takeWhile (· != '[')) ++ "[" ++ toString items.length ++ "]"
      ++ String.ofList (element.dropWhile (· != '['))

/-- The outermost shape of a value. -/
inductive Shape
  | scalar (kind : Kind)
  | struct
  | array
  deriving DecidableEq, Repr

/-- The shape that a value has. -/
def shape : Value → Shape
  | .bool _ => .scalar .bool
  | .int _ => .scalar .int
  | .privKey _ => .scalar .privKey
  | .sigHashType _ => .scalar .sigHashType
  | .bytes kind _ => .scalar (.bytes kind)
  | .struct _ _ => .struct
  | .array _ => .array

/-- The kind of a scalar. -/
def kind? (value : Value) : Option Kind :=
  match value.shape with
  | .scalar kind => some kind
  | _ => none

/-- Neighbours in the list have the same shape. -/
def uniform : List Value → Bool
  | first :: second :: rest => first.shape == second.shape && uniform (second :: rest)
  | _ => true

/-- A byte string of a kind that has byte strings. -/
def ofBytes? (kind : Kind) (data : Bytes) : Option Value :=
  match kind with
  | .bytes kind => some (.bytes kind data)
  | _ => none

end Value

/-- A struct: the name of its schema once it is bound to one, and its members. -/
structure Struct where
  schema : Option String
  fields : List (String × Value)

namespace Struct

/-- The struct with no members, bound to no schema. -/
def empty : Struct := ⟨none, []⟩

/-- The struct as a value. -/
def toValue (s : Struct) : Value := .struct s.schema s.fields

/-- Gives a member a value; a new member comes last. -/
def set (s : Struct) (name : String) (value : Value) : Struct :=
  { s with fields := Named.insert name value s.fields }

/-- The value of a member. -/
def get? (s : Struct) (name : String) : Option Value := s.fields.lookup name

/-- The struct is bound to a schema. -/
def isBound (s : Struct) : Bool := s.schema.isSome

end Struct

/-! ### Signature flags -/

/-- The names of the signature flags. -/
def sigHashFlags : List (String × UInt8) :=
  [("ALL", 0x01), ("NONE", 0x02), ("SINGLE", 0x03), ("FORKID", 0x40), ("ANYONECANPAY", 0x80)]

end ScriptAbi
