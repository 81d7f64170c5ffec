import ScriptAbi.Schema

namespace ScriptAbi

/-!
# Interfaces

The interface of a contract, its abi, is a list of entries: the constructor, if there is one, and
the public functions in order.

* `Entry`: one of them.
* `Abi.functions`, `Abi.function?`: the public functions, and one by its name.
* `Abi.constructorParams`: what the constructor takes.
-/

/-- What an entry of an interface stands for. -/
inductive EntryKind
  | constructor
  | function
  deriving DecidableEq, Repr

/-- An entry of an interface. -/
structure Entry where
  kind : EntryKind
  name : String
  /-- The number by which a call selects the function, if it is not its position. -/
  index : Option UInt64
  params : List Param
  deriving DecidableEq, Repr

/-- An interface is a list of entries. -/
abbrev Abi := List Entry

namespace Abi

/-- The public functions in order. -/
def functions (abi : Abi) : List Entry := List.filter (fun entry => entry.kind == .function) abi

/-- The constructors. -/
def constructors (abi : Abi) : List Entry :=
  List.filter (fun entry => entry.kind == .constructor) abi

/-- The first public function of that name, and its position among the public functions. -/
def function? (abi : Abi) (name : String) : Option (Nat × Entry) :=
  (abi.functions.zipIdx.find? fun entry => entry.1.name == name).map fun entry => (entry.2, entry.1)

/-- The parameters of the first constructor; a contract with none takes none. -/
def constructorParams (abi : Abi) : List Param :=
  match abi.constructors with
  | [] => []
  | entry :: _ => entry.params

end Abi

end ScriptAbi
