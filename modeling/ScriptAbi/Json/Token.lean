import ScriptAbi.Text.Hex

namespace ScriptAbi.Json

/-!
# Tokens of JSON text

* `Token`: brackets, marks and scalars.
* `Token.scan`: the tokens of a byte string, if it is made of tokens and blanks.

A string is scanned whatever its escapes denote and whatever bytes it holds; if they are no Unicode
text, the token has no text.
-/

/-- A token of JSON text. -/
inductive Token
  | openBrace
  | closeBrace
  | openBracket
  | closeBracket
  | comma
  | colon
  | null
  | bool (b : Bool)
  /-- A whole number of 64 bits, signed or unsigned. -/
  | int (n : Int)
  /-- Any other number. -/
  | otherNumber
  /-- A string, and its text if it has one. -/
  | str (text : Option String)
  deriving DecidableEq, Repr

/-- A part of a string: a byte that stands for itself, or a 16-bit unit that is written by its
    number. -/
inductive StringPart
  | byte (byte : UInt8)
  | unit (unit : Nat)
  deriving DecidableEq, Repr

/-- The character of an ASCII byte; other bytes give characters that no token starts with. -/
def charOf (byte : UInt8) : Char := Char.ofNat byte.toNat

/-- The byte is a decimal digit. -/
def isDigitByte (byte : UInt8) : Bool := (charOf byte).isDigit

/-- The bytes that a list of string parts stands for. Units are UTF-16, so those of a pair stand
    together for one character, and a half alone stands for nothing. -/
def stringBytes? : List StringPart → Option Bytes
  | [] => some []
  | .byte byte :: rest => (stringBytes? rest).map (byte :: ·)
  | .unit unit :: rest =>
    if unit < 0xd800 ∨ 0xe000 ≤ unit then
      (stringBytes? rest).map (String.utf8EncodeChar (Char.ofNat unit) ++ ·)
    else
      match rest with
      | .unit low :: rest =>
        if unit < 0xdc00 ∧ 0xdc00 ≤ low ∧ low < 0xe000 then
          let code := 0x10000 + (unit - 0xd800) * 0x400 + (low - 0xdc00)
          (stringBytes? rest).map (String.utf8EncodeChar (Char.ofNat code) ++ ·)
        else none
      | _ => none

/-- The text that a list of string parts stands for. -/
def stringText? (parts : List StringPart) : Option String :=
  (stringBytes? parts).bind fun bytes => String.fromUTF8? (ByteArray.mk bytes.toArray)

/-- The number that four hexadecimal digits denote. -/
def unit? (a b c d : UInt8) : Option Nat := do
  let digits ← [a, b, c, d].mapM fun byte => Hex.digit? (charOf byte)
  return digits.foldl (fun n digit => 16 * n + digit) 0

/-- The byte that an escape letter stands for. -/
def escaped? (letter : UInt8) : Option UInt8 :=
  match charOf letter with
  | '"' => some 0x22
  | '\\' => some 0x5c
  | '/' => some 0x2f
  | 'b' => some 0x08
  | 'f' => some 0x0c
  | 'n' => some 0x0a
  | 'r' => some 0x0d
  | 't' => some 0x09
  | _ => none

/-- The parts of a string after its opening quote, and what follows its closing quote. -/
def scanString : Bytes → Option (List StringPart × Bytes)
  | [] => none
  -- the closing quote
  | 0x22 :: rest => some ([], rest)
  -- a backslash, the letter u and four digits
  | 0x5c :: 0x75 :: a :: b :: c :: d :: rest => do
    let unit ← unit? a b c d
    let (parts, tail) ← scanString rest
    return (.unit unit :: parts, tail)
  -- a backslash and another letter
  | 0x5c :: letter :: rest => do
    let byte ← escaped? letter
    let (parts, tail) ← scanString rest
    return (.byte byte :: parts, tail)
  | byte :: rest =>
    if byte < 0x20 ∨ byte = 0x5c then none
    else do
      let (parts, tail) ← scanString rest
      return (.byte byte :: parts, tail)

/-- What follows a part of a number that is one digit or more. -/
def afterDigits? (bytes : Bytes) : Option Bytes :=
  if (bytes.takeWhile isDigitByte).isEmpty then none else some (bytes.dropWhile isDigitByte)

/-- What follows the fraction of a number, if it has one. -/
def afterFraction? : Bytes → Option Bytes
  -- the point
  | 0x2e :: rest => afterDigits? rest
  | bytes => some bytes

/-- What follows the exponent of a number, if it has one. -/
def afterExponent? : Bytes → Option Bytes
  -- the letter e of either case, and a sign or none
  | 0x65 :: 0x2b :: rest => afterDigits? rest
  | 0x65 :: 0x2d :: rest => afterDigits? rest
  | 0x65 :: rest => afterDigits? rest
  | 0x45 :: 0x2b :: rest => afterDigits? rest
  | 0x45 :: 0x2d :: rest => afterDigits? rest
  | 0x45 :: rest => afterDigits? rest
  | bytes => some bytes

/-- The token of a number without fraction and exponent. Minus zero is no whole number. -/
def intToken (negative : Bool) (n : Nat) : Token :=
  if negative then if 0 < n ∧ n ≤ UInt64.size / 2 then .int (-n) else .otherNumber
  else if n < UInt64.size then .int n
  else .otherNumber

/-- The number at the front of a byte string, and what follows it. No digit may follow a leading
    zero. -/
def scanNumber (bytes : Bytes) : Option (Token × Bytes) := do
  let negative := bytes.head? = some 0x2d
  let body := if negative then bytes.drop 1 else bytes
  let digits := body.takeWhile isDigitByte
  let rest ← afterDigits? body
  guard (digits.length = 1 ∨ digits.head? ≠ some 0x30)
  let fractionEnd ← afterFraction? rest
  let tail ← afterExponent? fractionEnd
  if tail.length = rest.length then
    let n := digits.foldl (fun n digit => 10 * n + (digit.toNat - 0x30)) 0
    return (intToken negative n, tail)
  else return (.otherNumber, tail)

/-- The token at the front of a byte string that starts with no blank, and what follows it. -/
def scanToken (bytes : Bytes) : Option (Token × Bytes) :=
  match bytes with
  -- the marks
  | 0x7b :: rest => some (.openBrace, rest)
  | 0x7d :: rest => some (.closeBrace, rest)
  | 0x5b :: rest => some (.openBracket, rest)
  | 0x5d :: rest => some (.closeBracket, rest)
  | 0x2c :: rest => some (.comma, rest)
  | 0x3a :: rest => some (.colon, rest)
  -- a string
  | 0x22 :: rest => (scanString rest).map fun (parts, tail) => (.str (stringText? parts), tail)
  -- the words null, true and false
  | 0x6e :: 0x75 :: 0x6c :: 0x6c :: rest => some (.null, rest)
  | 0x74 :: 0x72 :: 0x75 :: 0x65 :: rest => some (.bool true, rest)
  | 0x66 :: 0x61 :: 0x6c :: 0x73 :: 0x65 :: rest => some (.bool false, rest)
  | bytes => scanNumber bytes

/-! ### A token takes something off the front -/

/-- A string takes at least its closing quote. -/
theorem length_lt_of_scanString {bytes tail : Bytes} {parts : List StringPart}
    (h : scanString bytes = some (parts, tail)) : tail.length < bytes.length := by
  fun_induction scanString bytes generalizing parts with
  | case1 => contradiction
  | case2 rest =>
    -- the closing quote
    cases h
    simp
  | case3 a b c d rest ih =>
    -- a unit of four digits
    simp only [Option.bind_eq_bind, Option.bind_eq_some_iff, Prod.exists] at h
    obtain ⟨_, _, _, _, eq, h⟩ := h
    cases h
    have := ih eq
    simp only [List.length_cons]
    omega
  | case4 letter rest _ ih =>
    -- an escaped letter
    simp only [Option.bind_eq_bind, Option.bind_eq_some_iff, Prod.exists] at h
    obtain ⟨_, _, _, _, eq, h⟩ := h
    cases h
    have := ih eq
    simp only [List.length_cons]
    omega
  | case5 => contradiction
  | case6 byte rest _ _ _ _ ih =>
    -- any other byte
    simp only [Option.bind_eq_bind, Option.bind_eq_some_iff, Prod.exists] at h
    obtain ⟨_, _, eq, h⟩ := h
    cases h
    have := ih eq
    simp only [List.length_cons]
    omega

/-- Digits are at least one. -/
theorem length_lt_of_afterDigits? {bytes tail : Bytes} (h : afterDigits? bytes = some tail) :
    tail.length < bytes.length := by
  unfold afterDigits? at h
  split at h
  · contradiction
  · rename_i some_digits
    cases h
    have split := congrArg List.length
      (List.takeWhile_append_dropWhile (p := isDigitByte) (l := bytes))
    rw [List.length_append] at split
    have := List.length_pos_iff.2 (fun e => some_digits (List.isEmpty_iff.2 e))
    omega

/-- A fraction, if there is one, leaves no more than there was. -/
theorem length_le_of_afterFraction? {bytes tail : Bytes} (h : afterFraction? bytes = some tail) :
    tail.length ≤ bytes.length := by
  unfold afterFraction? at h
  split at h
  · have := length_lt_of_afterDigits? h
    simp only [List.length_cons]
    omega
  · cases h
    exact Nat.le_refl _

/-- An exponent, if there is one, leaves no more than there was. -/
theorem length_le_of_afterExponent? {bytes tail : Bytes} (h : afterExponent? bytes = some tail) :
    tail.length ≤ bytes.length := by
  unfold afterExponent? at h
  split at h
  all_goals
    first
    | (have shorter := length_lt_of_afterDigits? h
       simp only [List.length_cons]
       omega)
    | (cases h
       exact Nat.le_refl _)

/-- A number takes at least one byte. -/
theorem length_lt_of_scanNumber {bytes tail : Bytes} {token : Token}
    (h : scanNumber bytes = some (token, tail)) : tail.length < bytes.length := by
  unfold scanNumber at h
  obtain ⟨rest, digits, h⟩ := Option.bind_eq_some_iff.1 h
  obtain ⟨_, _, h⟩ := Option.bind_eq_some_iff.1 h
  obtain ⟨middle, fraction, h⟩ := Option.bind_eq_some_iff.1 h
  obtain ⟨last, exponent, h⟩ := Option.bind_eq_some_iff.1 h
  -- the sign may be missing, and so may the fraction and the exponent
  have first :
      (if bytes.head? = some 0x2d then bytes.drop 1 else bytes).length ≤ bytes.length := by
    split
    · simp
    · exact Nat.le_refl _
  have := length_lt_of_afterDigits? digits
  have := length_le_of_afterFraction? fraction
  have := length_le_of_afterExponent? exponent
  have same : last = tail := by
    split at h <;> exact congrArg Prod.snd (Option.some.inj h)
  subst same
  omega

/-- A token takes at least one byte, so that a text has finitely many of them. -/
theorem length_lt_of_scanToken {bytes tail : Bytes} {token : Token}
    (h : scanToken bytes = some (token, tail)) : tail.length < bytes.length := by
  unfold scanToken at h
  split at h
  case h_7 rest =>
    simp only [Option.map_eq_some_iff, Prod.exists] at h
    obtain ⟨_, _, scanned, eq⟩ := h
    cases eq
    exact Nat.lt_succ_of_lt (length_lt_of_scanString scanned)
  case h_11 => exact length_lt_of_scanNumber h
  all_goals
    cases h
    simp only [List.length_cons]
    omega

/-! ### All tokens -/

/-- The byte is a blank between tokens. -/
def isBlankByte (byte : UInt8) : Bool :=
  byte == 0x20 || byte == 0x09 || byte == 0x0a || byte == 0x0d

/-- The tokens of a byte string. -/
def Token.scan (bytes : Bytes) : Option (List Token) :=
  let start := bytes.dropWhile isBlankByte
  if start.isEmpty then some []
  else
    match h : scanToken start with
    | none => none
    | some (token, rest) =>
      have : rest.length < bytes.length :=
        Nat.lt_of_lt_of_le (length_lt_of_scanToken h) (List.dropWhile_suffix _).length_le
      (Token.scan rest).map (token :: ·)
termination_by bytes.length

end ScriptAbi.Json
