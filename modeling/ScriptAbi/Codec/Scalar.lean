import ScriptAbi.Text.Blank
import ScriptAbi.Text.Decimal
import ScriptAbi.Text.Hex
import ScriptAbi.Kind
import ScriptAbi.Json.Basic

namespace ScriptAbi

/-!
# Scalars in documents

* Numbers are written as decimal text, as they may be of any size; they are read from such text or
  from a number.
* Byte strings are hexadecimal text.
* A datum is tagged with its sort: `Datum.toJson`, `Datum.ofJson?`.
-/

/-- A number as decimal text. -/
def Json.ofInt (n : Int) : Json := .str (toString n)

/-- A number, or the number that a text denotes; blanks around it do not count. -/
def Json.decimal? : Json → Option Int
  | .int n => some n
  | .str text => Text.readInt? (Text.trim text.toList)
  | _ => none

/-- A byte string as hexadecimal text. -/
def Json.ofData (data : Bytes) : Json := .str (Hex.encode data)

/-- The byte string that a hexadecimal text denotes. -/
def Json.hex? : Json → Option Bytes
  | .str text => Hex.decode? text.toList
  | _ => none

/-- A byte. -/
def Json.byte? (json : Json) : Option UInt8 := (json.natBelow? 256).map UInt8.ofNat

/-- A number of 32 bits. -/
def Json.uint32? (json : Json) : Option UInt32 := (json.natBelow? UInt32.size).map UInt32.ofNat

/-- A number of 64 bits. -/
def Json.uint64? (json : Json) : Option UInt64 := (json.natBelow? UInt64.size).map UInt64.ofNat

/-- A natural number as a number, or null. -/
def Json.ofNat? : Option Nat → Json
  | some n => .int n
  | none => .null

/-- A text, or null. -/
def Json.ofString? : Option String → Json
  | some text => .str text
  | none => .null

/-- A document with the tag that says what it is. -/
def Json.tagged (tag : String) (value : Json) : Json := .obj [("type", .str tag), ("value", value)]

/-- What a tag of the given document stands for. If the document is a list, the tag is a string. -/
def Json.tag? {α : Type} (tags : List (String × α)) (json tag : Json) : Option α :=
  match json with
  | .arr _ => tag.string?.bind fun name => tags.lookup name
  | _ => tag.name? tags

/-- The tag of a document, by what it stands for, and the document that it tags. -/
def Json.tagged? {α : Type} (tags : List (String × α)) (json : Json) : Option (α × Json) :=
  match json.record? ["type", "value"] with
  | some [some tag, some value] => (Json.tag? tags json tag).map fun sort => (sort, value)
  | _ => none

/-- The tag of a kind. -/
def Kind.tag : Kind → String
  | .bool => "Bool"
  | .int => "Int"
  | .bytes .plain => "Bytes"
  | kind => kind.name

namespace Datum

/-- A datum with its tag. -/
def toJson : Datum → Json
  | .bool b => .tagged Kind.bool.tag (.bool b)
  | .int n => .tagged Kind.int.tag (.ofInt n)
  | .bytes data => .tagged (Kind.bytes .plain).tag (.ofData data)

/-- The readings of a datum, by its tag. -/
def readers : List (String × (Json → Option Datum)) :=
  [(Kind.bool.tag, fun json => json.bool?.map .bool),
    (Kind.int.tag, fun json => json.decimal?.map .int),
    ((Kind.bytes .plain).tag, fun json => json.hex?.map .bytes)]

/-- The datum that a document denotes. -/
def ofJson? (json : Json) : Option Datum := do
  let (read, value) ← json.tagged? readers
  read value

end Datum

end ScriptAbi
