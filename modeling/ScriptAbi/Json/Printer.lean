import ScriptAbi.Json.Basic

namespace ScriptAbi.Json

/-!
# Documents as text

* `quote`: a string between quotes, with escapes for quotes, backslashes and controls.
* `render`: a document without blanks.
-/

/-- A character of a string as JSON text. -/
def quoteChar (c : Char) : List Char :=
  match c with
  | '"' => ['\\', '"']
  | '\\' => ['\\', '\\']
  | '\n' => ['\\', 'n']
  | '\r' => ['\\', 'r']
  | '\t' => ['\\', 't']
  | c =>
    if c.toNat < 0x20 then
      ['\\', 'u', '0', '0', Nat.digitChar (c.toNat / 16), Nat.digitChar (c.toNat % 16)]
    else [c]

/-- A string as JSON text. -/
def quote (text : String) : String := "\"" ++ String.ofList (text.toList.flatMap quoteChar) ++ "\""

mutual

/-- The text of a document. What cannot be used is written as null. -/
def render : Json → String
  | .null => "null"
  | .bool b => if b then "true" else "false"
  | .int n => toString n
  | .str text => quote text
  | .arr items => "[" ++ ",".intercalate (renderItems items) ++ "]"
  | .obj members => "\x7b" ++ ",".intercalate (renderMembers members) ++ "\x7d"
  | .unusable => "null"

/-- The text of each item. -/
def renderItems : List Json → List String
  | [] => []
  | item :: rest => item.render :: renderItems rest

/-- The text of each member, key first. -/
def renderMembers : List (String × Json) → List String
  | [] => []
  | (key, value) :: rest => (quote key ++ ":" ++ value.render) :: renderMembers rest

end

end ScriptAbi.Json
