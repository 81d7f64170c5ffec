import ScriptAbi.Descriptor
import ScriptAbi.State.Fields

namespace ScriptAbi

/-!
# Contracts

A contract is a deployed instance: the call of its constructor is its code, and data may follow the
code after a return.

* `Contract`: the instance; `Contract.deploy` makes one.
* `Contract.asm`, `Contract.script`: its script. `Contract.code` and `Contract.dataScript` are the
  two parts.
* `Contract.withData`, `Contract.withState`, `Contract.fill`: what can change.
* `Contract.slotWords`: the words that stand for the placeholders.
-/

/-- The spending transaction that a script is run against, as far as it is known. -/
structure SpendContext where
  /-- The bytes of the transaction. -/
  tx : Option Bytes
  /-- The position of the input that spends the contract. -/
  input : Option UInt64
  /-- The amount that the input spends. -/
  satoshis : Option UInt64
  deriving DecidableEq, Repr

namespace SpendContext

/-- Nothing is known. -/
def empty : SpendContext := ⟨none, none, none⟩

/-- What `newer` knows, and for the rest what `older` knows. -/
def merge (older newer : SpendContext) : SpendContext where
  tx := newer.tx.or older.tx
  input := newer.input.or older.input
  satoshis := newer.satoshis.or older.satoshis

end SpendContext

/-- A deployed instance of a contract. -/
structure Contract where
  descriptor : Descriptor
  /-- The call of the constructor, whose script is the code. -/
  creation : Call
  /-- The text of the data after the code. -/
  data : Option String
  context : SpendContext

namespace Contract

/-- The instance that a constructor call with the given arguments makes. -/
def deploy (descriptor : Descriptor) (args : List Value) : Except ContractError Contract := do
  let creation ← descriptor.constructorCall args
  return ⟨descriptor, creation, none, .empty⟩

/-- The name of the contract. -/
def name (contract : Contract) : String := contract.descriptor.name

/-! ### The script -/

/-- The text of the whole script. -/
def asm (contract : Contract) : String :=
  match contract.data with
  | some data => Text.trimmed (contract.creation.asm ++ " OP_RETURN " ++ data)
  | none => Text.trimmed contract.creation.asm

/-- The whole script. -/
def script (contract : Contract) : Except ContractError Script :=
  (Script.ofAsm contract.asm).mapError .script

/-- The text of the code, with the return that ends it. -/
def codeAsm (contract : Contract) : String := contract.creation.asm ++ " OP_RETURN"

/-- The code, with the return that ends it. -/
def code (contract : Contract) : Except ContractError Script :=
  (Script.ofAsm contract.codeAsm).mapError .script

/-- The data after the code. -/
def dataScript (contract : Contract) : Except ContractError (Option Script) :=
  match contract.data with
  | some data => ((Script.ofAsm data).map some).mapError .script
  | none => .ok none

/-- The fields that the script keeps, read by a layout. -/
def readFields (contract : Contract) (layout : StateLayout) : Except ContractError StateFields := do
  let script ← contract.script
  script.readFields layout

/-! ### What can change -/

/-- The instance with the given text as data. -/
def withDataText (contract : Contract) (asm : String) : Contract :=
  { contract with data := some (Text.trimmed asm) }

/-- The instance with the given script as data. -/
def withData (contract : Contract) (data : Script) : Contract :=
  { contract with data := some data.toAsm }

/-- The instance with the given values as its state; their length has the given width. -/
def withState (contract : Contract) (width : Nat) (values : List Datum) :
    Except ContractError Contract := do
  let state ← encodeState width values
  return contract.withData state

/-- The instance with the given transaction. -/
def withContext (contract : Contract) (context : SpendContext) : Contract :=
  { contract with context := context }

/-- The instance with values for placeholders in its code. -/
def fill (values : String → Option String) (contract : Contract) : Contract :=
  { contract with creation := contract.creation.fill values }

/-! ### Placeholders -/

/-- The slot of a word that starts with a dollar sign. -/
def placeholder? (word : String) : Option String :=
  match word.toList with
  | '$' :: name => if name.isEmpty then none else some (String.ofList name)
  | _ => none

/-- The words of the code that stand where the template has a placeholder, by slot; nothing if it
    has no placeholder. Words are matched by position, and a slot takes the last word it meets. -/
def slotWords (contract : Contract) : Option (List (String × String)) :=
  let words := Text.wordsOf contract.creation.asm
  let slots := (Text.wordsOf contract.descriptor.asm).zipIdx.filterMap fun (word, position) =>
    (placeholder? word).map fun slot => (slot, position)
  if slots.isEmpty then none
  else some (Named.ofList (slots.filterMap fun (slot, position) =>
    words[position]?.map fun word => (slot, word)))

end Contract

end ScriptAbi
