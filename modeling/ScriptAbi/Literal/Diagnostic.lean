namespace ScriptAbi

/-!
# Diagnostics of literals

What is reported of a text that is no literal.

* `Diagnosis`: what is wrong, with the `code` that names it.
* `Diagnostic`: the full report; `Diagnostic.column` and `Diagnostic.render` show it.

Spans count the bytes of the text's UTF-8 form; columns count characters from 1.
-/

/-- What is wrong with a text that is no literal. -/
inductive Diagnosis
  | unterminatedBytes
  | unclosedConstructor
  | oddHexLength
  | oversizedSigHashFlag
  | unclassified
  deriving DecidableEq, Repr

namespace Diagnosis

/-- The code of a diagnosis. -/
def code : Diagnosis → String
  | .unterminatedBytes => "unterminated_bytes"
  | .unclosedConstructor => "unclosed_constructor"
  | .oddHexLength => "odd_hex_length"
  | .oversizedSigHashFlag => "oversized_sighash_flag"
  | .unclassified => "literal_error"

/-- All diagnoses. -/
def all : List Diagnosis :=
  [.unterminatedBytes, .unclosedConstructor, .oddHexLength, .oversizedSigHashFlag, .unclassified]

/-- The diagnosis that a code names. -/
def ofCode? (code : String) : Option Diagnosis := all.find? fun diagnosis => diagnosis.code == code

end Diagnosis

/-- A part of a text, from a byte position up to another. -/
structure Span where
  start : Nat
  stop : Nat
  deriving DecidableEq, Repr

/-- A remark on a part of a text. -/
structure Label where
  span : Span
  message : String
  deriving DecidableEq, Repr

/-- The report on a text that is no literal. -/
structure Diagnostic where
  diagnosis : Diagnosis
  /-- The part of the text that is at fault. -/
  span : Span
  message : String
  /-- The tokens that could stand at the fault, in order. -/
  expected : List String
  labels : List Label
  help : Option String
  /-- The text, without blanks around it. -/
  source : String
  deriving DecidableEq, Repr

/-- The number of characters before a byte position, if no character lies across it. -/
def charsBefore? : (position : Nat) → List Char → Option Nat
  | 0, _ => some 0
  | _ + 1, [] => none
  | position + 1, c :: rest =>
    if c.utf8Size ≤ position + 1 then
      (charsBefore? (position + 1 - c.utf8Size) rest).map fun n => n + 1
    else none

namespace Diagnostic

/-- The column of the fault, counted in characters from 1. A position inside a character would be
    counted in bytes. -/
def column (d : Diagnostic) : Nat :=
  let position := min d.span.start d.source.utf8ByteSize
  (charsBefore? position d.source.toList).getD position + 1

/-- The lines of the report, each ended: the text, a mark under the fault, the message and, where
    there are any, the expected tokens and the help. -/
def lines (d : Diagnostic) : List String :=
  let tokens := ", ".intercalate (d.expected.map fun token => "`" ++ token ++ "`")
  ["<" ++ d.source ++ "> at column " ++ toString d.column,
    " | " ++ d.source,
    " | " ++ String.ofList (List.replicate (d.column - 1) ' ') ++ "^---",
    " = error: " ++ d.message]
    ++ (if d.expected.isEmpty then [] else ["   note: expected one of tokens: " ++ tokens])
    ++ d.help.toList.map fun help => "   help: " ++ help

/-- The report as a text of several lines. -/
def render (d : Diagnostic) : String := String.join (d.lines.map fun line => line ++ "\n")

end Diagnostic

end ScriptAbi
