import ScriptAbi.Bytes

namespace ScriptAbi.Hex

/-!
# Hexadecimal text

* `encode`: two lowercase digits for each byte, high half first.
* `decode?`: the bytes that an even run of digits of either case denotes.
* `decode`: the same on strings, with the `Fault` of a text that is refused.
* `natOfDigits`: the number that a run of digits denotes.

A fault counts the bytes of the text's UTF-8 form, so its position may lie inside a character.
-/

/-- The value of a hexadecimal digit of either case. -/
def digit? (c : Char) : Option Nat :=
  if '0' ≤ c ∧ c ≤ '9' then some (c.toNat - '0'.toNat)
  else if 'a' ≤ c ∧ c ≤ 'f' then some (c.toNat - 'a'.toNat + 10)
  else if 'A' ≤ c ∧ c ≤ 'F' then some (c.toNat - 'A'.toNat + 10)
  else none

/-- The character is a hexadecimal digit. -/
def isDigit (c : Char) : Bool := (digit? c).isSome

/-- The two digits of a byte. -/
def digitsOf (byte : UInt8) : List Char :=
  [Nat.digitChar (byte.toNat / 16), Nat.digitChar (byte.toNat % 16)]

/-- The digits of a byte string. -/
def digits (bytes : Bytes) : List Char := bytes.flatMap digitsOf

/-- The text of a byte string. -/
def encode (bytes : Bytes) : String := String.ofList (digits bytes)

/-- The bytes that a run of digits denotes, if the run is even. -/
def decode? : List Char → Option Bytes
  | [] => some []
  | [_] => none
  | high :: low :: rest => do
    let h ← digit? high
    let l ← digit? low
    let bytes ← decode? rest
    return UInt8.ofNat (16 * h + l) :: bytes

/-- The number that a run of digits denotes; other characters count as zero. -/
def natOfDigits (digits : List Char) : Nat :=
  digits.foldl (fun n c => 16 * n + (digit? c).getD 0) 0

/-! ### What is wrong with a text -/

/-- Why a text is no hexadecimal text. -/
inductive Fault
  /-- The text has an odd number of bytes. -/
  | oddLength
  /-- The byte at the position is no digit. -/
  | invalidByte (byte : UInt8) (position : Nat)
  deriving DecidableEq, Repr

/-- The UTF-8 form of a text. -/
def utf8 (cs : List Char) : Bytes := cs.flatMap String.utf8EncodeChar

/-- The fault of a text that `decode?` refuses: oddness first, else the first byte that is no
    digit. -/
def faultOf (cs : List Char) : Fault :=
  let bytes := utf8 cs
  match bytes.findIdx? fun byte => !isDigit (Char.ofNat byte.toNat) with
  | some position =>
    if bytes.length % 2 = 1 then .oddLength
    else .invalidByte (bytes.getD position 0) position
  | none => .oddLength

/-- The bytes that a text denotes. -/
def decode (text : String) : Except Fault Bytes :=
  match decode? text.toList with
  | some bytes => .ok bytes
  | none => .error (faultOf text.toList)

/-- A byte as the character of that number between quotes: a quote, a backslash and the common
    controls are escaped, and what has no glyph is written by its number. -/
def quoted (byte : UInt8) : String :=
  let body :=
    if byte = 0x00 then "\\0"
    else if byte = 0x09 then "\\t"
    else if byte = 0x0a then "\\n"
    else if byte = 0x0d then "\\r"
    else if byte = 0x27 then "\\'"
    else if byte = 0x5c then "\\\\"
    else if byte < 0x20 ∨ 0x7f ≤ byte ∧ byte ≤ 0xa0 ∨ byte = 0xad then
      "\\u\x7b" ++ String.ofList (Nat.toDigits 16 byte.toNat) ++ "\x7d"
    else String.singleton (Char.ofNat byte.toNat)
  "'" ++ body ++ "'"

/-- The wording of a fault. -/
def Fault.message : Fault → String
  | .oddLength => "Odd number of digits"
  | .invalidByte byte position =>
    "Invalid character " ++ quoted byte ++ " at position " ++ toString position

/-! ### Reading what was written -/

/-- Each of the sixteen digits reads back as its value. -/
theorem digit?_digitChar {n : Nat} (h : n < 16) : digit? (Nat.digitChar n) = some n := by
  have : ∀ m : Fin 16, digit? (Nat.digitChar m) = some m.val := by decide
  exact this ⟨n, h⟩

/-- The digits of a byte string read back as that byte string. -/
@[simp] theorem decode?_digits (bytes : Bytes) : decode? (digits bytes) = some bytes := by
  induction bytes with
  | nil => rfl
  | cons byte rest ih =>
    have bound : byte.toNat < 256 := byte.toNat_lt
    have value : UInt8.ofNat (16 * (byte.toNat / 16) + byte.toNat % 16) = byte := by
      rw [Nat.div_add_mod, UInt8.ofNat_toNat]
    have step : digits (byte :: rest) = digitsOf byte ++ digits rest := rfl
    rw [step]
    simp [-UInt8.ofNat_add, -UInt8.ofNat_mul, digitsOf, decode?, ih, value,
      digit?_digitChar (show byte.toNat / 16 < 16 by omega),
      digit?_digitChar (show byte.toNat % 16 < 16 by omega)]

/-- Decoding undoes encoding. -/
@[simp] theorem decode_encode (bytes : Bytes) : decode (encode bytes) = .ok bytes := by
  simp [decode, encode]

end ScriptAbi.Hex
