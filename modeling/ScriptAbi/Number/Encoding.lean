import ScriptAbi.Number.Basic
import ScriptAbi.Error

namespace ScriptAbi.Number

/-!
# Script numbers in a given width

* `encodeFixed`: the bytes of a number in a width, or the error that it does not fit.
* `encode`: the same where the width may be left open.
* `toHex`, `ofHex`: numbers as hexadecimal text.
-/

/-- The bytes of a number in the given width. -/
def encodeFixed (width : Nat) (n : Int) : Except ContractError Bytes :=
  match fixed? width n with
  | some bytes => .ok bytes
  | none => .error (.overflow n width)

/-- The bytes of a number: as few as it needs, unless a width is given. -/
def encode (width : Option Nat) (n : Int) : Except ContractError Bytes :=
  match width with
  | some width => encodeFixed width n
  | none => .ok (minimal n)

/-- The hexadecimal text of a number in the given width. -/
def toHex (width : Nat) (n : Int) : Except ContractError String :=
  (encodeFixed width n).map Hex.encode

/-- The number that a hexadecimal text denotes. -/
def ofHex (text : String) : Except ContractError Int :=
  match Hex.decode text with
  | .ok bytes => .ok (decode bytes)
  | .error fault => .error (.script (.notHex fault))

end ScriptAbi.Number
