import ScriptAbi.Text.Blank
import ScriptAbi.Script.Asm
import ScriptAbi.Literal.Form
import ScriptAbi.Literal.Diagnostic

namespace ScriptAbi

/-!
# Literals

A literal is a scalar as a user writes it: `42`, `0x2a`, `true`, `b'00ff'`, `PubKey(b'02ab')`.

* `Literal`: the kind of the scalar and what it holds; `Literal.asm` is its word in a script.
* `Literal.ofText`: the literal that a text denotes, or the `Diagnostic` of the text.
-/

/-- A literal: the kind it was written as, and what it holds. -/
structure Literal where
  kind : Kind
  value : Datum
  deriving DecidableEq, Repr

/-- The word for a literal. A signature flag is its one byte, and not the word for a number. -/
def Literal.asm (literal : Literal) : String :=
  match literal.value with
  | .bool b => Word.ofBool b
  | .bytes data => Word.ofBytes data
  | .int n =>
    if literal.kind = .sigHashType then Hex.encode [UInt8.ofNat n.toNat] else Word.ofInt n

namespace Diagnostic

/-! ### The reports -/

/-- The report on digits that cannot be paired. -/
def oddHexLength (source : String) (span : Span) : Diagnostic where
  diagnosis := .oddHexLength
  span := span
  message := "odd number of hex digits (" ++ toString (span.stop - span.start) ++ ")"
  expected := []
  labels := [⟨span, "hex bytes need two digits each"⟩]
  help := some "pad the value with a leading zero"
  source := source

/-- The report on a signature flag that is not one byte. -/
def oversizedSigHashFlag (source : String) (span : Span) : Diagnostic where
  diagnosis := .oversizedSigHashFlag
  span := span
  message := "sighash flag must be exactly one byte"
  expected := []
  labels := [⟨span, "flag bytes"⟩]
  help := some "use a single byte such as SigHashType(b'41')"
  source := source

/-- The report on a constructor that stays open. -/
def unclosedConstructor (source : String) : Diagnostic where
  diagnosis := .unclosedConstructor
  span := ⟨source.utf8ByteSize, source.utf8ByteSize⟩
  message := "unclosed literal constructor"
  expected := [")"]
  labels :=
    [⟨⟨source.utf8ByteSize, source.utf8ByteSize⟩, "expected ')' to close the constructor"⟩]
  help := some "typed literals are written Type(<value>) and must end with ')'"
  source := source

/-- The report on a byte string that stays open. -/
def unterminatedBytes (source : String) : Diagnostic where
  diagnosis := .unterminatedBytes
  span := ⟨source.utf8ByteSize, source.utf8ByteSize⟩
  message := "unterminated bytes literal"
  expected := ["'"]
  labels := [⟨⟨source.utf8ByteSize, source.utf8ByteSize⟩, "expected closing quote"⟩]
  help := some "bytes literals are written b'<hex>' and must end with a quote"
  source := source

/-- The report on any other text. The span lies within the text in any case. -/
def unclassified (source : String) (failure : Failure) : Diagnostic where
  diagnosis := .unclassified
  span := ⟨min failure.position source.utf8ByteSize, min failure.position source.utf8ByteSize⟩
  message := "cannot parse literal `" ++ source ++ "`"
  expected := failure.expected
  labels := []
  help := some
    "expected a bool, an integer, b'<hex>' or a typed constructor such as PubKey(b'..')"
  source := source

/-! ### Choosing a report -/

/-- A constructor seems to be open: fewer parentheses close than open, or a closing one was
    expected. -/
def missesParenthesis (cs : List Char) (failure : Failure) : Bool :=
  decide (cs.count ')' < cs.count '(') || (cs.contains '(' && failure.expected.contains ")")

/-- The opening of a byte string stands somewhere in the text. -/
def opensBytes : List Char → Bool
  | [] => false
  | c :: rest => (c == 'b' && rest.head? == some '\'') || opensBytes rest

/-- A byte string seems to be open: it was opened, and the quotes are odd in number or one was
    expected. -/
def missesQuote (cs : List Char) (failure : Failure) : Bool :=
  opensBytes cs && (cs.count '\'' % 2 == 1 || failure.expected.contains "'")

/-- The report on a text whose form could not be read. -/
def ofFailure (source : String) (failure : Failure) : Diagnostic :=
  if missesParenthesis source.toList failure then unclosedConstructor source
  else if missesQuote source.toList failure then unterminatedBytes source
  else unclassified source failure

end Diagnostic

/-! ### What a form denotes -/

/-- The bytes that the digits of a literal denote; they stand at the given position. -/
def Form.data (source : String) (start : Nat) (digits : List Char) : Except Diagnostic Bytes :=
  match Hex.decode? digits with
  | some data => .ok data
  | none => .error (.oddHexLength source ⟨start, start + digits.length⟩)

/-- The literal that a form denotes; `source` is the text that has the form. -/
def Form.literal (source : String) : Form → Except Diagnostic Literal
  | .bool b => .ok ⟨.bool, .bool b⟩
  | .int numeral => .ok ⟨.int, .int numeral.value⟩
  | .privKey numeral => .ok ⟨.privKey, .int numeral.value⟩
  | .bytes digits => do
    let data ← Form.data source 2 digits
    return ⟨.bytes .plain, .bytes data⟩
  | .tagged kind digits => do
    let start := kind.name.length + 1
    let data ← Form.data source (start + 2) digits
    if kind = .sigHashType then
      match data with
      | [flag] => return ⟨kind, .int flag.toNat⟩
      | _ => .error (.oversizedSigHashFlag source ⟨start, start + digits.length + 3⟩)
    else return ⟨kind, .bytes data⟩

/-- The literal that a text denotes; blanks around it do not count. -/
def Literal.ofText (text : String) : Except Diagnostic Literal :=
  let source := Text.trimmed text
  match Form.read source.toList with
  | .ok form => form.literal source
  | .error failure => .error (.ofFailure source failure)

end ScriptAbi
