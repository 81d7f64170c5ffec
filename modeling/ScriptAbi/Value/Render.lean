import ScriptAbi.Literal.Basic
import ScriptAbi.Error
import ScriptAbi.Value.Basic

namespace ScriptAbi

/-!
# Values as text

* `Value.asm`: the words of a value in a script: one for each scalar in it, in order.
* `Value.literal`: the form in which a user writes the value.
* `Value.ofLiteral`: the value that a literal denotes; `Value.ofText` reads it from text.
-/

namespace Value

/-- The names of the members, as an error shows a struct with no schema. -/
def describeFields (fields : List (String × Value)) : String :=
  "\x7b" ++ ", ".intercalate (fields.map Prod.fst) ++ "\x7d"

/-- Puts one space between texts; an empty text leaves no trace. -/
def joinWords (parts : List String) : String :=
  " ".intercalate (parts.filter fun part => !part.isEmpty)

mutual

/-- The words of a value. A struct must be bound, as the schema gives the order of its members. -/
def asm : Value → Except ContractError String
  | .bool b => .ok (Word.ofBool b)
  | .int n => .ok (Word.ofInt n)
  | .privKey n => .ok (Word.ofInt n)
  | .sigHashType flag => .ok (Hex.encode [flag])
  | .bytes _ data => .ok (Word.ofBytes data)
  | .struct none fields => .error (.unboundStruct (describeFields fields))
  | .struct (some _) fields => (fieldsAsm fields).map joinWords
  | .array items => (itemsAsm items).map joinWords

/-- The words of each member. -/
def fieldsAsm : List (String × Value) → Except ContractError (List String)
  | [] => .ok []
  | (_, value) :: rest => do
    let words ← value.asm
    let others ← fieldsAsm rest
    return words :: others

/-- The words of each item. -/
def itemsAsm : List Value → Except ContractError (List String)
  | [] => .ok []
  | value :: rest => do
    let words ← value.asm
    let others ← itemsAsm rest
    return words :: others

end

/-- The bytes of a number, high byte first; zero is one zero byte. -/
def bigEndian (n : Nat) : Bytes := if n = 0 then [0] else (littleEndian n).reverse

mutual

/-- The form in which a user writes a value. Keys are hexadecimal unless they are negative. -/
def literal : Value → String
  | .bool b => if b then "true" else "false"
  | .int n => toString n
  | .privKey n =>
    if n < 0 then "PrivKey(" ++ toString n ++ ")"
    else "PrivKey(0x" ++ Hex.encode (bigEndian n.toNat) ++ ")"
  | .sigHashType flag => Kind.sigHashType.name ++ "(b'" ++ Hex.encode [flag] ++ "')"
  | .bytes .plain data => "b'" ++ Hex.encode data ++ "'"
  | .bytes kind data => kind.name ++ "(b'" ++ Hex.encode data ++ "')"
  | .struct _ fields => "\x7b" ++ ", ".intercalate (fieldsLiteral fields) ++ "\x7d"
  | .array items => "[" ++ ", ".intercalate (itemsLiteral items) ++ "]"

/-- The written form of each member. -/
def fieldsLiteral : List (String × Value) → List String
  | [] => []
  | (_, value) :: rest => value.literal :: fieldsLiteral rest

/-- The written form of each item. -/
def itemsLiteral : List Value → List String
  | [] => []
  | value :: rest => value.literal :: itemsLiteral rest

end

/-- The value that a literal denotes. The datum must be one that the kind can hold; a signature
    flag is a number of one byte. -/
def ofLiteral (literal : Literal) : Except ContractError Value :=
  let mismatch := .error (.mistyped (.scalar literal.kind) literal.value.typeName)
  match literal.kind, literal.value with
  | .bool, .bool b => .ok (.bool b)
  | .int, .int n => .ok (.int n)
  | .privKey, .int n => .ok (.privKey n)
  | .sigHashType, .int n =>
    if 0 ≤ n ∧ n < 256 then .ok (.sigHashType (UInt8.ofNat n.toNat)) else mismatch
  | kind, .bytes data =>
    match ofBytes? kind data with
    | some value => .ok value
    | none => mismatch
  | _, _ => mismatch

/-- The value that a text denotes. -/
def ofText (text : String) : Except ContractError Value :=
  match Literal.ofText text with
  | .ok literal => ofLiteral literal
  | .error diagnostic => .error (.literal diagnostic)

end Value

end ScriptAbi
