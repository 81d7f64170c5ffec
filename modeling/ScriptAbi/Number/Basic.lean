import ScriptAbi.Bytes

namespace ScriptAbi.Number

/-!
# Script numbers

A script number is a sign and a magnitude: the bytes of the magnitude run from low to high, and
the top bit of the last byte is the sign.

* `minimal`: the shortest form; zero takes one byte.
* `fixed?`: the form in a given number of bytes, if the number fits.
* `decode`: the number that a byte string denotes; the empty string denotes zero.
-/

/-- The top bit of a byte. -/
def signBit : UInt8 := 0x80

/-- The top bit of the last byte is set. -/
def isSigned (bytes : Bytes) : Bool := bytes.getLast?.any fun last => last &&& signBit != 0

/-- The magnitude's bytes with room for a sign: where the top bit is taken a zero byte follows. -/
def magnitude (n : Nat) : Bytes :=
  let bytes := littleEndian n
  if isSigned bytes then bytes ++ [0] else bytes

/-- Sets the top bit of the last byte. -/
def setSign : Bytes → Bytes
  | [] => []
  | [last] => [last ||| signBit]
  | byte :: rest => byte :: setSign rest

/-- Clears the top bit of the last byte. -/
def clearSign : Bytes → Bytes
  | [] => []
  | [last] => [last &&& 0x7f]
  | byte :: rest => byte :: clearSign rest

/-- Marks the bytes of a magnitude with the sign of the number. -/
def withSign (n : Int) (bytes : Bytes) : Bytes := if n < 0 then setSign bytes else bytes

/-- The shortest bytes that denote `n`; zero is one zero byte. -/
def minimal (n : Int) : Bytes :=
  match magnitude n.natAbs with
  -- zero has no digits, but its encoding is a byte
  | [] => [0]
  | bytes => withSign n bytes

/-- The bytes of the given width that denote `n`: the magnitude is padded with zero bytes and the
    sign is marked on the last byte. -/
def fixed? (width : Nat) (n : Int) : Option Bytes :=
  let bytes := magnitude n.natAbs
  if bytes.length ≤ width then
    some (withSign n (bytes ++ List.replicate (width - bytes.length) 0))
  else none

/-- The number that a byte string denotes; a signed zero is zero. -/
def decode (bytes : Bytes) : Int :=
  let n : Int := ofLittleEndian (clearSign bytes)
  if isSigned bytes then -n else n

end ScriptAbi.Number
