import ScriptAbi.Script.Basic
import ScriptAbi.Literal.Diagnostic
import ScriptAbi.TypeExpr

namespace ScriptAbi

/-!
# Errors

* `ContractError`: why a value cannot be encoded, a script not be built or a descriptor not be
  read.
* `ContractError.message`: the wording.
* `ContractError.placedIn`: names the parameter or member in which an error arose; the innermost
  name stays. `ContractError.place?` and `ContractError.cause` take an error apart again.
-/

/-- Why a struct does not match its schema. -/
inductive SchemaFault
  /-- The value belongs to another struct. -/
  | boundElsewhere (bound : String)
  /-- The value has a member that the schema does not declare. -/
  | undeclared (member : String)
  /-- The schema declares a member that the value lacks. -/
  | missing (member : String)
  deriving DecidableEq, Repr

/-- Why a contract descriptor is refused. -/
inductive DescriptorFault
  | emptyName
  | emptyAsm (contract : String)
  | manyConstructors (contract : String)
  | malformedType (text : String)
  deriving DecidableEq, Repr

/-- What a state cell is read as. -/
inductive CellView
  | number
  | bytes
  deriving DecidableEq, Repr

/-- The causes of failure, with the place where one is known. -/
inductive ContractError
  /-- A number that does not fit in a width. -/
  | overflow (value : Int) (width : Nat)
  /-- A text that is no literal. -/
  | literal (diagnostic : Diagnostic)
  /-- A wrong number of arguments. -/
  | arity (method : String) (expected actual : Nat)
  /-- A wrong number of items. -/
  | arraySize (expected actual : Nat)
  /-- An array with items of different shapes. -/
  | mixedArray
  /-- A struct with no schema; the name is that of the type or, where there is none, a list of the
      members. -/
  | unboundStruct (name : String)
  /-- A struct that does not match its schema. -/
  | schema (struct : String) (fault : SchemaFault)
  /-- A value of another type. -/
  | mistyped (expected : TypeExpr) (actual : String)
  /-- A slot that the template does not have. -/
  | missingSlot (slot : String)
  /-- A function that the interface does not have. -/
  | unknownFunction (name : String)
  /-- A state cell that has no such view. -/
  | unreadableCell (index : Nat) (view : CellView)
  /-- A slot style of another version. -/
  | unknownSlotStyle (version : UInt32)
  | descriptor (fault : DescriptorFault)
  /-- A document that cannot be read. -/
  | json
  | script (fault : ScriptFault)
  /-- An error that arose in the parameter or member of the given name. -/
  | within (place : String) (source : ContractError)
  deriving DecidableEq, Repr

/-- The wording of a schema fault. -/
def SchemaFault.message (struct : String) : SchemaFault → String
  | .boundElsewhere bound => "value is already bound to struct " ++ bound
  | .undeclared member => member ++ " is not a member of struct " ++ struct
  | .missing member => "missing member " ++ member

/-- The wording of a descriptor fault. -/
def DescriptorFault.message : DescriptorFault → String
  | .emptyName => "contract name is empty"
  | .emptyAsm contract => "contract " ++ contract ++ " has no asm"
  | .manyConstructors contract => "contract " ++ contract ++ " declares more than one constructor"
  | .malformedType text => "malformed type name '" ++ text ++ "'"

/-- The wording for a cell that has no such view. -/
def CellView.message : CellView → String
  | .number => "does not have a number representation"
  | .bytes => "does not have a byte representation"

namespace ContractError

/-- The wording of an error, its places first. -/
def message : ContractError → String
  | .overflow value width => toString value ++ " cannot fit in " ++ toString width ++ " byte(s)"
  | .literal diagnostic => "malformed literal: " ++ diagnostic.render
  | .arity method expected actual =>
    "wrong number of arguments for #" ++ method ++ ", expected " ++ toString expected ++ " but got "
      ++ toString actual
  | .arraySize expected actual =>
    "array argument has wrong size, expected [" ++ toString expected ++ "] but got ["
      ++ toString actual ++ "]"
  | .mixedArray => "array arguments are not of the same type"
  | .unboundStruct name => "no struct schema bound for type " ++ name
  | .schema struct fault => "struct " ++ struct ++ ": " ++ fault.message struct
  | .mistyped expected actual =>
    "wrong argument type, expected " ++ expected.render ++ " but got " ++ actual
  | .missingSlot slot => "missing $" ++ slot ++ " in ASM template"
  | .unknownFunction name => "no function named '" ++ name ++ "' found in abi"
  | .unreadableCell index view => "state cell " ++ toString index ++ " " ++ view.message
  | .unknownSlotStyle version => "unsupported slot naming version " ++ toString version.toNat
  | .descriptor fault => "invalid contract descriptor: " ++ fault.message
  | .json => "contract descriptor json: malformed document"
  | .script fault => "script error: " ++ fault.message
  | .within place source => "'" ++ place ++ "': " ++ source.message

/-- The error without the places where it arose. -/
def cause : ContractError → ContractError
  | .within _ source => source.cause
  | error => error

/-- The innermost place where the error arose. -/
def place? : ContractError → Option String
  | .within place source => source.place?.orElse fun _ => some place
  | _ => none

/-- Names the place where an error arose, unless a place inside it is named already. -/
def placedIn (place : String) (error : ContractError) : ContractError :=
  if error.place?.isSome then error else .within place error

/-- An error that names no place yet is put into the place. -/
theorem placedIn_of_place?_eq_none {error : ContractError} (h : error.place? = none)
    (place : String) : error.placedIn place = .within place error := by
  rw [placedIn, h, Option.isSome_none, if_neg Bool.false_ne_true]

/-- An error that names a place keeps it. -/
@[simp] theorem placedIn_within (outer place : String) (source : ContractError) :
    (within place source).placedIn outer = .within place source := by
  rw [placedIn, place?]
  cases source.place? <;> rfl

end ContractError

/-- The type that a text denotes. -/
def TypeExpr.ofText (text : String) : Except ContractError TypeExpr :=
  match TypeExpr.ofText? text with
  | some type => .ok type
  | none => .error (.descriptor (.malformedType text))

end ScriptAbi
