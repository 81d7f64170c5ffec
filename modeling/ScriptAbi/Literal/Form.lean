import ScriptAbi.Text.Decimal
import ScriptAbi.Text.Hex
import ScriptAbi.Kind

namespace ScriptAbi

/-!
# Written forms of literals

* `Numeral` and `Form`: the shapes that a literal can have, with the digits that were written.
* `Form.read`: the form of a text. The first characters decide between the shapes, and no shape is
  given up for another.
* `Failure`: where a text stops being a literal, and what could have stood there.

All of a literal is ASCII, so the positions of a failure count characters and bytes alike.
-/

/-- A whole number as it is written. -/
inductive Numeral
  | decimal (negative : Bool) (digits : List Char)
  | hexadecimal (digits : List Char)
  deriving DecidableEq, Repr

/-- A literal as it is written. -/
inductive Form
  | bool (b : Bool)
  | int (numeral : Numeral)
  /-- A private key is a number in a constructor. -/
  | privKey (numeral : Numeral)
  /-- A byte string is a run of hexadecimal digits between quotes. -/
  | bytes (digits : List Char)
  /-- The other kinds are byte strings in a constructor named for the kind. -/
  | tagged (kind : Kind) (digits : List Char)
  deriving DecidableEq, Repr

namespace Numeral

/-- The number that a numeral denotes. -/
def value : Numeral → Int
  | .decimal false digits => Text.natOfDigits digits
  | .decimal true digits => -(Text.natOfDigits digits : Int)
  | .hexadecimal digits => Hex.natOfDigits digits

/-- The token of a decimal digit. -/
def digitTokens : List String := ["0..9"]

/-- The tokens of a hexadecimal digit. -/
def hexTokens : List String := ["0..9", "A..F", "a..f"]

/-- The tokens that would make a numeral longer. -/
def moreTokens : Numeral → List String
  | .decimal _ _ => digitTokens
  | .hexadecimal _ => hexTokens

end Numeral

/-- Where a text stops being a literal. The position is the start of the part that could not be
    finished or, if all parts were, the end of the literal that the text goes on after. -/
structure Failure where
  position : Nat
  /-- The tokens that would have been read on, in order. -/
  expected : List String
  deriving DecidableEq, Repr

namespace Form

/-- The tokens that a literal can start with. -/
def openingTokens : List String :=
  ["-", "0..9", "0x", "OpCodeType", "PrivKey(", "PubKey", "Ripemd160", "Sha1", "Sha256", "Sig",
    "SigHashPreimage", "SigHashType", "b'", "false", "true"]

/-- The kinds that are written as byte strings in a constructor; a name that starts with another
    one comes before it. -/
def taggedKinds : List Kind :=
  [.bytes .pubKey, .bytes .sigHashPreimage, .sigHashType, .bytes .sig, .bytes .ripemd160,
    .bytes .sha1, .bytes .sha256, .bytes .opCodeType]

/-- What follows the given word at the front of a text. -/
def after? (word : String) (cs : List Char) : Option (List Char) := word.toList.isPrefixOf? cs

/-- A form is complete only if nothing follows it. -/
def finish (form : Form) (position : Nat) (expected : List String) (rest : List Char) :
    Except Failure Form :=
  if rest.isEmpty then .ok form else .error ⟨position, expected⟩

/-- The numeral at the front of a text, and what follows it. -/
def readNumeral (start : Nat) (cs : List Char) : Except Failure (Numeral × List Char) :=
  match after? "0x" cs with
  | some body =>
    let digits := body.takeWhile Hex.isDigit
    if digits.isEmpty then .error ⟨start, Numeral.hexTokens⟩
    else .ok (.hexadecimal digits, body.dropWhile Hex.isDigit)
  | none =>
    let negative := cs.head? = some '-'
    let body := if negative then cs.drop 1 else cs
    let digits := body.takeWhile Char.isDigit
    if digits.isEmpty then
      .error ⟨start, if negative then Numeral.digitTokens else ["-", "0..9", "0x"]⟩
    else .ok (.decimal negative digits, body.dropWhile Char.isDigit)

/-- The digits between quotes at the front of a text, and what follows them. -/
def readQuoted (start : Nat) (cs : List Char) : Except Failure (List Char × List Char) :=
  match after? "b'" cs with
  | none => .error ⟨start, ["b'"]⟩
  | some body =>
    match body.dropWhile Hex.isDigit with
    | '\'' :: rest => .ok (body.takeWhile Hex.isDigit, rest)
    | _ => .error ⟨start, "'" :: Numeral.hexTokens⟩

/-- The rest of a truth value, after its word. No letter or digit may follow the word directly. -/
def readBool (b : Bool) (width : Nat) (rest : List Char) : Except Failure Form :=
  if rest.head?.any Char.isAlphanum then .error ⟨0, []⟩ else finish (.bool b) width [] rest

/-- The rest of a private key, after its opening parenthesis at the given position. -/
def readPrivKey (start : Nat) (cs : List Char) : Except Failure Form := do
  let (numeral, rest) ← readNumeral start cs
  match rest with
  | ')' :: rest => finish (.privKey numeral) (start + (cs.length - rest.length)) [] rest
  | _ => .error ⟨0, ")" :: numeral.moreTokens⟩

/-- The rest of a byte string in a constructor, after the constructor's name. -/
def readTagged (kind : Kind) (cs : List Char) : Except Failure Form :=
  let start := kind.name.length + 1
  match cs with
  | '(' :: body => do
    let (digits, rest) ← readQuoted start body
    match rest with
    | ')' :: rest => finish (.tagged kind digits) (start + (body.length - rest.length)) [] rest
    | _ => .error ⟨0, [")"]⟩
  | _ => .error ⟨0, ["("]⟩

/-- A byte string of no particular kind. -/
def readBytes (cs : List Char) : Except Failure Form := do
  let (digits, rest) ← readQuoted 0 cs
  finish (.bytes digits) (cs.length - rest.length) [] rest

/-- A number. A text with no digit after `0x` is the number zero with something after it. -/
def readInt (cs : List Char) : Except Failure Form :=
  match readNumeral 0 cs with
  | .ok (numeral, rest) =>
    finish (.int numeral) (cs.length - rest.length) numeral.moreTokens rest
  | .error failure =>
    if (after? "0x" cs).isSome then .error ⟨1, failure.expected⟩
    else if cs.head? = some '-' then .error failure
    else .error ⟨0, openingTokens⟩

/-- The kind whose name a text starts with, and what follows the name. -/
def taggedKind? (cs : List Char) : Option (Kind × List Char) :=
  taggedKinds.findSome? fun kind => (after? kind.name cs).map fun rest => (kind, rest)

/-- The form of a text. -/
def read (cs : List Char) : Except Failure Form :=
  if let some rest := after? "true" cs then readBool true 4 rest
  else if let some rest := after? "false" cs then readBool false 5 rest
  else if let some rest := after? "PrivKey(" cs then readPrivKey 8 rest
  else if let some (kind, rest) := taggedKind? cs then readTagged kind rest
  else if (after? "b'" cs).isSome then readBytes cs
  else readInt cs

end Form

end ScriptAbi
