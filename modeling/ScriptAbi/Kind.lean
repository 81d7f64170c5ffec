import ScriptAbi.Bytes

namespace ScriptAbi

/-!
# Kinds of scalars

* `BytesKind`: the kinds whose values are byte strings.
* `Kind`: all kinds, with `Kind.name` and `Kind.ofName?`.
* `Datum`: what a scalar holds when its kind is left aside.
-/

/-- The kinds whose values are byte strings. -/
inductive BytesKind
  | plain
  | pubKey
  | sig
  | ripemd160
  | sha1
  | sha256
  | sigHashPreimage
  | opCodeType
  deriving DecidableEq, Repr

/-- The kinds of scalars. -/
inductive Kind
  | bool
  | int
  | privKey
  | sigHashType
  | bytes (kind : BytesKind)
  deriving DecidableEq, Repr

/-- The name of a kind of byte strings. -/
def BytesKind.name : BytesKind → String
  | .plain => "bytes"
  | .pubKey => "PubKey"
  | .sig => "Sig"
  | .ripemd160 => "Ripemd160"
  | .sha1 => "Sha1"
  | .sha256 => "Sha256"
  | .sigHashPreimage => "SigHashPreimage"
  | .opCodeType => "OpCodeType"

/-- The kinds of byte strings. -/
def BytesKind.all : List BytesKind :=
  [.plain, .pubKey, .sig, .ripemd160, .sha1, .sha256, .sigHashPreimage, .opCodeType]

namespace Kind

/-- The name of a kind, as types and literals spell it. -/
def name : Kind → String
  | .bool => "bool"
  | .int => "int"
  | .privKey => "PrivKey"
  | .sigHashType => "SigHashType"
  | .bytes kind => kind.name

/-- The kinds of scalars. -/
def all : List Kind :=
  [.bool, .int, .privKey, .sigHashType] ++ BytesKind.all.map .bytes

/-- The kind that a name stands for. -/
def ofName? (name : String) : Option Kind := all.find? fun kind => kind.name == name

/-- There are no other kinds, so that what can be decided of a kind is decided of all of them. -/
theorem mem_all (kind : Kind) : kind ∈ all := by
  rcases kind with _ | _ | _ | _ | kind
  all_goals first | decide | (cases kind <;> decide)

end Kind

/-- A truth value, a number or a byte string. -/
inductive Datum
  | bool (b : Bool)
  | int (n : Int)
  | bytes (data : Bytes)
  deriving DecidableEq, Repr

/-- The name of the sort of a datum. -/
def Datum.typeName : Datum → String
  | .bool _ => Kind.bool.name
  | .int _ => Kind.int.name
  | .bytes _ => BytesKind.plain.name

end ScriptAbi
