import ScriptAbi.Codec.Scalar
import ScriptAbi.Proofs.Json.RoundTrip
import ScriptAbi.Proofs.Literal.RoundTrip

namespace ScriptAbi

/-!
# Scalars read back from their documents

* `NumberDocument`: a number stands in a document as decimal text or, if it has 64 bits, as
  itself.
* `byte?_int`, `uint32?_int`, `uint64?_int`, `hex?_ofData`: numbers of a given size, byte strings.
* `tagged?_tagged`: what was tagged.
* `Datum.Document`: the documents of a datum; `Datum.ofJson?_of_document` reads them.

Each comes with the fact that what is written is `Json.Printable`, so that its text is read back.
-/

/-! ### Numbers -/

/-- A number stands in a document as its decimal text or, if it has 64 bits, as itself. -/
inductive NumberDocument : Int → Json → Prop
  | text (n : Int) : NumberDocument n (.ofInt n)
  | number {n : Int} (hlow : -2 ^ 63 ≤ n) (hhigh : n < 2 ^ 64) : NumberDocument n (.int n)

/-- A number is read from either document of it. -/
theorem decimal?_of_numberDocument {n : Int} {json : Json} (h : NumberDocument n json) :
    json.decimal? = some n := by
  cases h with
  | number => rfl
  | text =>
    show Text.readInt? (Text.trim (toString n).toList) = some n
    rw [Text.trim_of_isWord (writtenInt_toString n).isWord, Text.readInt?_toString]

/-- Both documents of a number are printable: the one is text, the other has 64 bits. -/
theorem printable_of_numberDocument {n : Int} {json : Json} (h : NumberDocument n json) :
    json.Printable := by
  cases h with
  | text => exact .str _
  | number hlow hhigh => exact .int hlow hhigh

/-- A number below a bound is read. -/
theorem natBelow?_int {bound n : Nat} (h : n < bound) : Json.natBelow? bound (.int n) = some n := by
  rw [Json.natBelow?, if_pos (by omega)]
  rfl

theorem byte?_int (byte : UInt8) : Json.byte? (.int byte.toNat) = some byte := by
  rw [Json.byte?, natBelow?_int byte.toNat_lt, Option.map_some, UInt8.ofNat_toNat]

theorem uint32?_int (n : UInt32) : Json.uint32? (.int n.toNat) = some n := by
  rw [Json.uint32?, natBelow?_int n.toNat_lt, Option.map_some, UInt32.ofNat_toNat]

theorem uint64?_int (n : UInt64) : Json.uint64? (.int n.toNat) = some n := by
  rw [Json.uint64?, natBelow?_int n.toNat_lt, Option.map_some, UInt64.ofNat_toNat]

/-- A number of at most 64 bits is printed without a loss. -/
theorem printable_natCast {n : Nat} (h : n < 2 ^ 64) : (Json.int n).Printable :=
  .int (by omega) (by omega)

/-! ### Byte strings -/

/-- The hexadecimal text of a byte string is read as it. -/
theorem hex?_ofData (data : Bytes) : Json.hex? (.ofData data) = some data := by
  show Hex.decode? (Hex.encode data).toList = some data
  rw [toList_encode, Hex.decode?_digits]

/-! ### Tags -/

/-- **What was tagged** has its tag and what the tag was put on. -/
theorem tagged?_tagged {α : Type} (tags : List (String × α)) (tag : String) (body : Json) :
    Json.tagged? tags (.tagged tag body) = (tags.lookup tag).map fun sort => (sort, body) :=
  rfl

/-- A tag beside a printable document is printable. -/
theorem printable_tagged {tag : String} {body : Json} (h : body.Printable) :
    (Json.tagged tag body).Printable := by
  refine .obj fun member hmember => ?_
  simp only [List.mem_cons, List.not_mem_nil, or_false] at hmember
  rcases hmember with rfl | rfl
  · exact .str tag
  · exact h

/-! ### Data -/

namespace Datum

/-- The documents of a datum: its tag, and what stands for it. -/
inductive Document : Datum → Json → Prop
  | bool (b : Bool) : Document (.bool b) (.tagged Kind.bool.tag (.bool b))
  | int {n : Int} {json : Json} (h : NumberDocument n json) :
      Document (.int n) (.tagged Kind.int.tag json)
  | bytes (data : Bytes) : Document (.bytes data) (.tagged (Kind.bytes .plain).tag (.ofData data))

/-- What is written for a datum is a document of it. -/
theorem document_toJson (datum : Datum) : Document datum datum.toJson := by
  cases datum with
  | bool b => exact .bool b
  | int n => exact .int (.text n)
  | bytes data => exact .bytes data

/-- **A document of a datum** is read as this datum. -/
theorem ofJson?_of_document {datum : Datum} {json : Json} (h : Document datum json) :
    ofJson? json = some datum := by
  cases h with
  | bool b => rfl
  | int h =>
    rw [ofJson?, tagged?_tagged]
    show (Json.decimal? _).map Datum.int = _
    rw [decimal?_of_numberDocument h]
    rfl
  | bytes data =>
    rw [ofJson?, tagged?_tagged]
    show (Json.hex? _).map Datum.bytes = _
    rw [hex?_ofData]
    rfl

/-- Every document of a datum is printable. -/
theorem printable_of_document {datum : Datum} {json : Json} (h : Document datum json) :
    json.Printable := by
  cases h with
  | bool b => exact printable_tagged (.bool b)
  | int h => exact printable_tagged (printable_of_numberDocument h)
  | bytes data => exact printable_tagged (.str _)

end Datum

end ScriptAbi
