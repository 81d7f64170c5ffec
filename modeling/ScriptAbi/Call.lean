import ScriptAbi.Script.Binary
import ScriptAbi.Template
import ScriptAbi.Slot
import ScriptAbi.Abi
import ScriptAbi.Value.Render
import ScriptAbi.Value.Check

namespace ScriptAbi

/-!
# Calls

* `Call`: a method with its arguments and the text of the script that it renders to.
* `Call.ofConstructor`: the call of a constructor. Each scalar of the arguments fills its slot in
  the template; placeholders that no argument fills stay.
* `Call.ofFunction`: the call of a public function. The words of the arguments come in order and,
  where the contract has several functions, the number of the function after them.
* `Call.fill`: a call with values for placeholders that stayed.
-/

/-- What a script is for: a constructor locks a contract, a public function unlocks it. -/
inductive Role
  | locking
  | unlocking
  deriving DecidableEq, Repr

/-- The method name of a constructor's call. -/
def constructorName : String := "constructor"

/-- A method with its arguments and the text of the script that it renders to. -/
structure Call where
  method : String
  args : List Value
  role : Role
  asm : String

namespace Call

/-- The script; a placeholder that is left over makes it fail. -/
def script (call : Call) : Except ContractError Script := (Script.ofAsm call.asm).mapError .script

/-- The text of the script, if it is for the given role. -/
def asmFor? (role : Role) (call : Call) : Option String :=
  if call.role = role then some call.asm else none

/-- The script, if it is for the given role. -/
def scriptFor? (role : Role) (call : Call) : Except ContractError (Option Script) :=
  if call.role = role then call.script.map some else .ok none

/-- The script as hexadecimal text. -/
def toHex (call : Call) : Except ContractError String := call.script.map Script.toHex

/-- The script as bytes. -/
def toBytes (call : Call) : Except ContractError Bytes := call.script.map Script.toBytes

/-- The call with values for placeholders in its script. -/
def fill (values : String → Option String) (call : Call) : Call :=
  { call with asm := (Template.ofText call.asm).substitute values }

end Call

/-! ### Arguments -/

/-- There are as many arguments as parameters. -/
def checkArity (method : String) (expected actual : Nat) : Except ContractError Unit :=
  if expected = actual then .ok () else .error (.arity method expected actual)

/-- An argument as a value of its parameter's type. -/
def Param.checkArgument (schemas : List Schema) (param : Param) (arg : Value) :
    Except ContractError Value := do
  let type ← (TypeExpr.ofText param.type).mapError (ContractError.placedIn param.name)
  (arg.check schemas type).mapError (ContractError.placedIn param.name)

/-- The words of an argument. -/
def Param.argumentAsm (schemas : List Schema) (param : Param) (arg : Value) :
    Except ContractError String := do
  let value ← param.checkArgument schemas arg
  value.asm.mapError (ContractError.placedIn param.name)

/-- The arguments as values of the parameters' types, each with its parameter's name. -/
def checkArguments (schemas : List Schema) (params : List Param) (args : List Value) :
    Except ContractError (List (String × Value)) :=
  (params.zip args).mapM fun (param, arg) => do
    let value ← param.checkArgument schemas arg
    return (param.name, value)

/-! ### Constructors -/

/-- A slot that the template must have, with the words of the scalar that fills it. -/
def Template.slotWords (template : Template) (leaf : String × Value) :
    Except ContractError (String × String) := do
  let (slot, value) := leaf
  if template.hasSlot slot then
    let words ← value.asm.mapError (ContractError.placedIn slot)
    return (slot, words)
  else .error (.missingSlot slot)

/-- The call of a constructor with the given template and parameters. -/
def Call.ofConstructor (template : Template) (params : List Param) (schemas : List Schema)
    (style : SlotStyle) (args : List Value) : Except ContractError Call := do
  checkArity constructorName params.length args.length
  let values ← checkArguments schemas params args
  let leaves := values.flatMap fun (name, value) => value.leaves style name
  let words ← leaves.mapM template.slotWords
  let filled := Named.ofList words
  return ⟨constructorName, args, .locking, template.substitute fun slot => filled.lookup slot⟩

/-! ### Public functions -/

/-- The words that select a function: its number, if there is a choice. -/
def Abi.selector (abi : Abi) (position : Nat) (entry : Entry) : List String :=
  if abi.functions.length > 1 then [Word.ofInt ((entry.index.map UInt64.toNat).getD position)]
  else []

/-- The call of the public function with the given name. -/
def Call.ofFunction (abi : Abi) (schemas : List Schema) (name : String) (args : List Value) :
    Except ContractError Call :=
  match abi.function? name with
  | none => .error (.unknownFunction name)
  | some (position, entry) => do
    checkArity name entry.params.length args.length
    let words ← (entry.params.zip args).mapM fun (param, arg) => param.argumentAsm schemas arg
    return ⟨name, args, .unlocking, Value.joinWords (words ++ abi.selector position entry)⟩

end ScriptAbi
