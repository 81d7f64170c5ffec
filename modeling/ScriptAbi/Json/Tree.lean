import ScriptAbi.Json.Basic
import ScriptAbi.Json.Token

namespace ScriptAbi.Json

/-!
# Documents from tokens

The reader goes through the tokens once and keeps the arrays and objects that are still open.

* `Frame`: an array or object that is open; `Place`: what may come next.
* `Place.step`: the place after one token.
* `Json.ofTokens?`, `Json.ofBytes?`, `Json.ofText?`: the document that tokens or text denote.
-/

/-- An array or object that is still open, its parts so far in reverse order. -/
inductive Frame
  | array (items : List Json)
  /-- An object in which the value of `key` is being read. A key may have no text. -/
  | object (members : List (Option String × Json)) (key : Option String)

/-- A place between two tokens, in the open frames, the innermost first. -/
inductive Place
  /-- A value must come. -/
  | value (frames : List Frame)
  /-- After an opening bracket: a value or the closing bracket. -/
  | arrayStart (frames : List Frame)
  /-- After an opening brace: a key or the closing brace. -/
  | objectStart (frames : List Frame)
  /-- After a comma in an object: a key. -/
  | nextKey (members : List (Option String × Json)) (frames : List Frame)
  /-- After a key: the colon. -/
  | colon (members : List (Option String × Json)) (key : Option String) (frames : List Frame)
  /-- After a value: a comma, a closing mark, or the end. -/
  | done (json : Json) (frames : List Frame)

/-- The object with the given members, in reverse order. If a key has no text, nothing that counts
    can be read from the object. -/
def closeObject (members : List (Option String × Json)) : Json :=
  match members.reverse.mapM fun (key, value) => key.map fun key => (key, value) with
  | some members => .obj members
  | none => .unusable

/-- The place after a token at which a value starts. -/
def Place.start (frames : List Frame) : Token → Option Place
  | .openBrace => some (.objectStart frames)
  | .openBracket => some (.arrayStart frames)
  | .null => some (.done .null frames)
  | .bool b => some (.done (.bool b) frames)
  | .int n => some (.done (.int n) frames)
  | .otherNumber => some (.done .unusable frames)
  | .str (some text) => some (.done (.str text) frames)
  | .str none => some (.done .unusable frames)
  | _ => none

/-- The place after a token, if the token may come there. -/
def Place.step (place : Place) (token : Token) : Option Place :=
  match place, token with
  | .value frames, token => Place.start frames token
  | .arrayStart frames, .closeBracket => some (.done (.arr []) frames)
  | .arrayStart frames, token => Place.start (.array [] :: frames) token
  | .objectStart frames, .closeBrace => some (.done (.obj []) frames)
  | .objectStart frames, .str key => some (.colon [] key frames)
  | .nextKey members frames, .str key => some (.colon members key frames)
  | .colon members key frames, .colon => some (.value (.object members key :: frames))
  | .done json (.array items :: frames), .comma => some (.value (.array (json :: items) :: frames))
  | .done json (.array items :: frames), .closeBracket =>
    some (.done (.arr (json :: items).reverse) frames)
  | .done json (.object members key :: frames), .comma =>
    some (.nextKey ((key, json) :: members) frames)
  | .done json (.object members key :: frames), .closeBrace =>
    some (.done (closeObject ((key, json) :: members)) frames)
  | _, _ => none

end ScriptAbi.Json

namespace ScriptAbi

/-- The document that a list of tokens denotes. The depth of nesting is not bounded here. A reader
    that gives up at 128 levels reads what is nested less deep as this one does; what goes deeper
    is outside the model. -/
def Json.ofTokens? (tokens : List Json.Token) : Option Json :=
  match tokens.foldlM Json.Place.step (.value []) with
  | some (.done value []) => some value
  | _ => none

/-- The document that a byte string denotes. -/
def Json.ofBytes? (bytes : Bytes) : Option Json := (Json.Token.scan bytes).bind Json.ofTokens?

/-- The document that a text denotes. -/
def Json.ofText? (text : String) : Option Json := Json.ofBytes? text.toUTF8.toList

end ScriptAbi
