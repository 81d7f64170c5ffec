import ScriptAbi.Bytes
import ScriptAbi.Text.Blank
import ScriptAbi.Text.Lines

namespace ScriptAbi

/-!
# From a failing word to the source

A compiler notes for the words of a script the file and the line that they come from.

* `SourceWord`: a word of a script with what is noted of it.
* `SourceWord.locate`: the place in the source of the word at which a run stopped.
* `SourceWord.describe`: a message with that place and the line that stands there.
-/

/-- A word of a script, with the file and the line it comes from where they are known. -/
structure SourceWord where
  file : Option String
  line : Option UInt32
  opcode : String
  deriving DecidableEq, Repr

/-- A place in the source, with the word that failed there. -/
structure SourceLocation where
  file : String
  line : UInt32
  opcode : String
  deriving DecidableEq, Repr

/-- The bytes of the files that can be read. -/
abbrev SourceFiles := String → Option Bytes

namespace SourceWord

/-- The place noted for the word. An empty file name or a line zero notes nothing. -/
def place? (word : SourceWord) : Option (String × UInt32) :=
  match word.file, word.line with
  | some file, some line => if file ≠ "" ∧ 0 < line then some (file, line) else none
  | _, _ => none

/-- A place is noted for the word. -/
def isMapped (word : SourceWord) : Bool := word.place?.isSome

/-- The last word before the given position for which a place is noted. -/
def nearestBefore? (words : List SourceWord) (position : Nat) : Option SourceWord :=
  (words.take position).reverse.find? isMapped

/-- The place of the word at which a run stopped after `executed` words, the failing one counted.
    A word with no place borrows that of the nearest word before it. -/
def locate (words : List SourceWord) : (executed : Nat) → Option SourceLocation
  | 0 => none
  | position + 1 => do
    let word ← words[position]?
    let mapped ← if word.isMapped then some word else nearestBefore? words position
    let (file, line) ← mapped.place?
    return ⟨file, line, word.opcode⟩

end SourceWord

/-- The line of a file with the given number, if the file is there and is text. -/
def SourceFiles.line? (files : SourceFiles) (file : String) (number : Nat) : Option String := do
  let bytes ← files file
  let text ← String.fromUTF8? (ByteArray.mk bytes.toArray)
  Text.lineAt? text number

/-- The message of a failed run, with the place of the failure and the line that stands there. -/
def SourceLocation.describe (location : SourceLocation) (message contract : String)
    (line : Option String) : String :=
  "VerifyError: " ++ message ++ " on contract:" ++ contract ++ " line:"
    ++ toString location.line.toNat ++ ":" ++ Text.trimmed (line.getD "")
    ++ " opcode:" ++ location.opcode ++ "\n"

/-- The message of a failed run with its place in the source, if there is one. -/
def SourceWord.describe (files : SourceFiles) (contract : String) (words : List SourceWord)
    (executed : Nat) (message : String) : Option String :=
  (SourceWord.locate words executed).map fun location =>
    location.describe message contract (files.line? location.file location.line.toNat)

end ScriptAbi
