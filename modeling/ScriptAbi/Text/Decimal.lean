namespace ScriptAbi.Text

/-!
# Decimal numbers in text

* `natOfDigits`: the number that a run of decimal digits denotes.
* `readInt?`: a signed number, with an underscore allowed after any digit.
* `readSize?`: an unsigned number of 64 bits.
-/

/-- The number that a run of decimal digits denotes. -/
def natOfDigits (digits : List Char) : Nat := Nat.ofDigitChars 10 digits 0

/-- Digits, among which underscores may stand anywhere but in front. -/
def readSeparated? : List Char → Option Nat
  | [] => none
  | first :: rest =>
    if first.isDigit && rest.all (fun c => c.isDigit || c == '_') then
      some (natOfDigits ((first :: rest).filter Char.isDigit))
    else none

/-- Digits with at most one sign in front; minus zero is zero. -/
def readInt? : List Char → Option Int
  | '-' :: rest => (readSeparated? rest).map fun n => -(n : Int)
  | '+' :: rest => (readSeparated? rest).map Int.ofNat
  | cs => (readSeparated? cs).map Int.ofNat

/-- The least number that does not fit in 64 bits. -/
def sizeBound : Nat := UInt64.size

/-- Digits, with an optional plus sign in front, that denote a number below `sizeBound`. -/
def readSize? (cs : List Char) : Option Nat :=
  let digits := (['+'].isPrefixOf? cs).getD cs
  let n := natOfDigits digits
  if !digits.isEmpty && digits.all Char.isDigit && decide (n < sizeBound) then some n else none

end ScriptAbi.Text
