import ScriptAbi.Text.Blank
import ScriptAbi.Number.Basic
import ScriptAbi.Script.Basic

namespace ScriptAbi

/-!
# Scripts as text

The text of a script, its ASM, is one word for each instruction.

* `Word.ofBool`, `Word.ofInt`, `Word.ofBytes`: the word for a value.
* `Instr.toWord`, `Script.toAsm`: the text that is written.
* `Instr.ofWord`, `Script.ofAsm`: the texts that are read. Opcodes have aliases, data may have
  digits of either case, and any blanks may stand between words.
-/

namespace Word

/-- The word for a truth value. -/
def ofBool (b : Bool) : String := if b then "OP_TRUE" else "OP_FALSE"

/-- The word for a number: an opcode from -1 to 16, else its shortest bytes. -/
def ofInt (n : Int) : String :=
  if n = -1 then "OP_1NEGATE"
  else if 0 ≤ n ∧ n ≤ 16 then "OP_" ++ toString n
  else Hex.encode (Number.minimal n)

/-- The word for a byte string: its digits; the empty string is an opcode. -/
def ofBytes (bytes : Bytes) : String := if bytes.isEmpty then "OP_0" else Hex.encode bytes

end Word

/-- The word for an instruction; an opcode with no name is written by its number. -/
def Instr.toWord : Instr → String
  | .op code => (Opcode.name? code).getD ("OP_UNKNOWN" ++ toString code.toNat)
  | .push _ data => Hex.encode data

/-- The text of a script: the words with one space between them. -/
def Script.toAsm (script : Script) : String := " ".intercalate (List.map Instr.toWord script)

/-- The instruction that a word stands for: an opcode, else hexadecimal data. -/
def Instr.ofWord (word : String) : Except ScriptFault Instr :=
  match Opcode.ofName? word with
  | some code => .ok (.op code)
  | none =>
    if word.toList.head? = some '$' then .error (.openPlaceholder word)
    else if ['O', 'P', '_'].isPrefixOf word.toList then .error (.unknownWord word)
    else
      match Hex.decode? word.toList with
      | some data => .ok (.ofData data)
      | none => .error (.unknownWord word)

/-- The script that a text stands for. The first word that stands for no instruction is the
    error. -/
def Script.ofAsm (text : String) : Except ScriptFault Script :=
  (Text.wordsOf text).mapM Instr.ofWord

end ScriptAbi
