import ScriptAbi.SourceMap
import ScriptAbi.Call

namespace ScriptAbi

/-!
# Contract descriptors

A descriptor is what a compiler says about a contract: its interface, its structs and the template
of its script.

* `Descriptor.validate`: what every descriptor must satisfy.
* `Coder`: a descriptor with what the calls of the constructor need of it; `Coder.ofDescriptor`
  makes one.
* `Descriptor.constructorCall`, `Descriptor.functionCall`: the calls of the contract.
-/

/-- What a compiler says about a contract. -/
structure Descriptor where
  /-- The version of the compiler. -/
  compiler : String
  name : String
  /-- A digest of the source. -/
  digest : String
  schemas : List Schema
  abi : Abi
  /-- The text of the template of the locking script. -/
  asm : String
  /-- The words of the script with their places in the source. -/
  sourceWords : Option (List SourceWord)
  /-- The version of the slot style. -/
  slotVersion : UInt32
  deriving DecidableEq, Repr

namespace Descriptor

/-- How the template names slots. -/
def slotStyle (descriptor : Descriptor) : Except ContractError SlotStyle :=
  match SlotStyle.ofVersion? descriptor.slotVersion with
  | some style => .ok style
  | none => .error (.unknownSlotStyle descriptor.slotVersion)

/-- A descriptor has a name and a script that are not blank, at most one constructor and a known
    slot style. The first of these that fails is the error. -/
def validate (descriptor : Descriptor) : Except ContractError Unit :=
  if Text.isBlankText descriptor.name then .error (.descriptor .emptyName)
  else if Text.isBlankText descriptor.asm then .error (.descriptor (.emptyAsm descriptor.name))
  else if descriptor.abi.constructors.length > 1 then
    .error (.descriptor (.manyConstructors descriptor.name))
  else descriptor.slotStyle.map fun _ => ()

/-- The template of the locking script. -/
def template (descriptor : Descriptor) : Template := Template.ofText descriptor.asm

/-- The schema of that name. -/
def schema? (descriptor : Descriptor) (name : String) : Option Schema :=
  Schema.find? descriptor.schemas name

end Descriptor

/-- A descriptor with the template of its script and the way in which this names slots. -/
structure Coder where
  descriptor : Descriptor
  template : Template
  style : SlotStyle

namespace Coder

/-- The coder of a descriptor. There is one if the slot style is known. -/
def ofDescriptor (descriptor : Descriptor) : Except ContractError Coder := do
  let style ← descriptor.slotStyle
  return ⟨descriptor, descriptor.template, style⟩

/-- The call of the constructor. -/
def constructorCall (coder : Coder) (args : List Value) : Except ContractError Call :=
  Call.ofConstructor coder.template coder.descriptor.abi.constructorParams coder.descriptor.schemas
    coder.style args

end Coder

namespace Descriptor

/-- The call of the constructor. -/
def constructorCall (descriptor : Descriptor) (args : List Value) : Except ContractError Call := do
  let coder ← Coder.ofDescriptor descriptor
  coder.constructorCall args

/-- The call of a public function. -/
def functionCall (descriptor : Descriptor) (name : String) (args : List Value) :
    Except ContractError Call :=
  Call.ofFunction descriptor.abi descriptor.schemas name args

end Descriptor

end ScriptAbi
