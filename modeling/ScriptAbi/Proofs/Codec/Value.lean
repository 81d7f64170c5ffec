import ScriptAbi.Codec.Value
import ScriptAbi.Proofs.Codec.Scalar

namespace ScriptAbi

/-!
# Values read back from their documents

* `Value.Document`: the documents of a value. In each of them every number, at any depth, may stand
  as decimal text or as a number. What is written for a value is one of them.
* `Value.ofJson?_of_document`: a document of a value is read as this value, by induction along the
  document.
* `ofJson?_toJson`: values and data are read back from their documents, and the documents from their
  texts.
-/

namespace Value

/-! ### Documents -/

mutual

/-- The documents of a value: its tag, and what stands for the value of that kind. -/
inductive Document : Value → Json → Prop
  | bool (b : Bool) : Document (.bool b) (.tagged Kind.bool.tag (.bool b))
  | int {n : Int} {json : Json} (h : NumberDocument n json) :
      Document (.int n) (.tagged Kind.int.tag json)
  | privKey {n : Int} {json : Json} (h : NumberDocument n json) :
      Document (.privKey n) (.tagged Kind.privKey.tag json)
  | sigHashType (flag : UInt8) :
      Document (.sigHashType flag) (.tagged Kind.sigHashType.tag (.int flag.toNat))
  | bytes (kind : BytesKind) (data : Bytes) :
      Document (.bytes kind data) (.tagged (Kind.bytes kind).tag (.ofData data))
  | struct (schema : Option String) {fields : List (String × Value)} {jsons : List Json}
      (h : FieldDocuments fields jsons) :
      Document (.struct schema fields)
        (.tagged "Struct" (.obj [("schema", .ofString? schema), ("fields", .arr jsons)]))
  | array {items : List Value} {jsons : List Json} (h : ItemDocuments items jsons) :
      Document (.array items) (.tagged "Array" (.arr jsons))

/-- The documents of members, in order, each a pair of its name and a document of its value. -/
inductive FieldDocuments : List (String × Value) → List Json → Prop
  | nil : FieldDocuments [] []
  | cons (name : String) {value : Value} {json : Json} {fields : List (String × Value)}
      {jsons : List Json} (h : Document value json) (hrest : FieldDocuments fields jsons) :
      FieldDocuments ((name, value) :: fields) (.arr [.str name, json] :: jsons)

/-- The documents of items, in order. -/
inductive ItemDocuments : List Value → List Json → Prop
  | nil : ItemDocuments [] []
  | cons {value : Value} {json : Json} {items : List Value} {jsons : List Json}
      (h : Document value json) (hrest : ItemDocuments items jsons) :
      ItemDocuments (value :: items) (json :: jsons)

end

mutual

/-- **What is written for a value** is one of its documents. -/
theorem document_toJson : ∀ value : Value, Document value value.toJson
  | .bool b => .bool b
  | .int n => .int (.text n)
  | .privKey n => .privKey (.text n)
  | .sigHashType flag => .sigHashType flag
  | .bytes kind data => .bytes kind data
  | .struct schema fields => .struct schema (fieldDocuments_fieldsToJson fields)
  | .array items => .array (itemDocuments_itemsToJson items)

theorem fieldDocuments_fieldsToJson :
    ∀ fields : List (String × Value), FieldDocuments fields (fieldsToJson fields)
  | [] => .nil
  | (name, value) :: rest => .cons name (document_toJson value) (fieldDocuments_fieldsToJson rest)

theorem itemDocuments_itemsToJson : ∀ items : List Value, ItemDocuments items (itemsToJson items)
  | [] => .nil
  | value :: rest => .cons (document_toJson value) (itemDocuments_itemsToJson rest)

end

/-! ### Reading -/

/-- The tag of a kind stands for this kind. -/
theorem lookup_tags (kind : Kind) : tags.lookup kind.tag = some (.scalar kind) := by
  have hall : ∀ kind ∈ Kind.all, tags.lookup kind.tag = some (.scalar kind) := by decide
  exact hall kind (Kind.mem_all kind)

/-- A document with the tag of a kind is read as a scalar of this kind. -/
theorem ofJson?_scalar (kind : Kind) (body : Json) :
    ofJson? (.tagged kind.tag body) = scalarOfJson? kind body := by
  have htag := tagged?_tagged tags kind.tag body
  rw [lookup_tags] at htag
  rw [ofJson?]
  split <;> simp_all

/-- An array is read item by item. -/
theorem ofJson?_array (jsons : List Json) :
    ofJson? (.tagged "Array" (.arr jsons)) = (itemsOfJson? jsons).map .array := by
  have htag : Json.tagged? tags (.tagged "Array" (.arr jsons)) = some (.array, .arr jsons) := rfl
  rw [ofJson?]
  split <;> simp_all

/-- The name of a struct's schema, or null, and its members are read back. -/
theorem structParts?_obj (schema : Option String) (jsons : List Json) :
    structParts? (.obj [("schema", .ofString? schema), ("fields", .arr jsons)])
      = some (schema, jsons) := by
  cases schema <;> rfl

/-- A struct is read member by member, with the name of its schema if there is one. -/
theorem ofJson?_struct (schema : Option String) (jsons : List Json) :
    ofJson? (.tagged "Struct" (.obj [("schema", .ofString? schema), ("fields", .arr jsons)]))
      = (fieldsOfJson? jsons).map (.struct schema) := by
  have htag : Json.tagged? tags
      (.tagged "Struct" (.obj [("schema", .ofString? schema), ("fields", .arr jsons)]))
        = some (.struct, .obj [("schema", .ofString? schema), ("fields", .arr jsons)]) := rfl
  rw [ofJson?]
  -- the tag is that of a struct, and no other
  split
  · simp_all
  · simp_all
  · simp_all
  · simp_all
  · -- the parts of a struct are found in any object with its two members
    rename_i heq
    rw [htag] at heq
    cases heq
    split
    · rename_i hparts
      rw [structParts?_obj] at hparts
      contradiction
    · rename_i hparts
      rw [structParts?_obj] at hparts
      cases hparts
      rfl

mutual

/-- **A document of a value** is read as this value. -/
theorem ofJson?_of_document {value : Value} {json : Json} :
    Document value json → ofJson? json = some value
  | .bool b => ofJson?_scalar .bool (.bool b)
  | .int h => by
    rw [ofJson?_scalar .int, scalarOfJson?, decimal?_of_numberDocument h]
    rfl
  | .privKey h => by
    rw [ofJson?_scalar .privKey, scalarOfJson?, decimal?_of_numberDocument h]
    rfl
  | .sigHashType flag => by
    rw [ofJson?_scalar .sigHashType, scalarOfJson?, byte?_int]
    rfl
  | .bytes kind data => by
    rw [ofJson?_scalar (.bytes kind), scalarOfJson?, hex?_ofData]
    rfl
  | .struct schema h => by
    rw [ofJson?_struct, fieldsOfJson?_of_documents h]
    rfl
  | .array h => by
    rw [ofJson?_array, itemsOfJson?_of_documents h]
    rfl

theorem fieldsOfJson?_of_documents {fields : List (String × Value)} {jsons : List Json} :
    FieldDocuments fields jsons → fieldsOfJson? jsons = some fields
  | .nil => by rw [fieldsOfJson?]
  | .cons name h hrest => by
    rw [fieldsOfJson?, ofJson?_of_document h, fieldsOfJson?_of_documents hrest]
    rfl

theorem itemsOfJson?_of_documents {items : List Value} {jsons : List Json} :
    ItemDocuments items jsons → itemsOfJson? jsons = some items
  | .nil => by rw [itemsOfJson?]
  | .cons h hrest => by
    rw [itemsOfJson?, ofJson?_of_document h, itemsOfJson?_of_documents hrest]
    rfl

end

/-! ### Texts -/

/-- A text that need not be there is printable. -/
theorem printable_ofString? (text : Option String) : (Json.ofString? text).Printable := by
  cases text with
  | none => exact .null
  | some text => exact .str text

mutual

/-- A document of a value is printed without a loss. -/
theorem printable_of_document {value : Value} {json : Json} : Document value json → json.Printable
  | .bool b => printable_tagged (.bool b)
  | .int h => printable_tagged (printable_of_numberDocument h)
  | .privKey h => printable_tagged (printable_of_numberDocument h)
  | .sigHashType flag => printable_tagged (printable_natCast (by have := flag.toNat_lt; omega))
  | .bytes _ _ => printable_tagged (.str _)
  | .struct schema h => by
    refine printable_tagged (.obj fun member hmember => ?_)
    simp only [List.mem_cons, List.not_mem_nil, or_false] at hmember
    rcases hmember with rfl | rfl
    · exact printable_ofString? schema
    · exact .arr (printable_of_fieldDocuments h)
  | .array h => printable_tagged (.arr (printable_of_itemDocuments h))

theorem printable_of_fieldDocuments {fields : List (String × Value)} {jsons : List Json} :
    FieldDocuments fields jsons → ∀ json ∈ jsons, json.Printable
  | .nil => by simp
  | .cons name h hrest => by
    refine List.forall_mem_cons.2 ⟨.arr ?_, printable_of_fieldDocuments hrest⟩
    exact List.forall_mem_cons.2 ⟨.str name, by simpa using printable_of_document h⟩

theorem printable_of_itemDocuments {items : List Value} {jsons : List Json} :
    ItemDocuments items jsons → ∀ json ∈ jsons, json.Printable
  | .nil => by simp
  | .cons h hrest =>
    List.forall_mem_cons.2 ⟨printable_of_document h, printable_of_itemDocuments hrest⟩

end

end Value

/-! ### Reading back -/

/-- **Values and data are read back.** What is written for a value is read as this value, and so is
    the text that it is printed to. Any number in the document may stand as a number in place of
    its decimal text, if it is one of 64 bits. So it is with data.

    The reader takes documents of any depth, as `Json.ofTokens?` has it. A document nested deeper
    than 128 levels is outside the model: a reader that bounds the depth may give it up. -/
theorem isReadAs_toJson :
    (∀ value : Value, value.toJson.IsReadAs Value.ofJson? value)
      ∧ (∀ (value : Value) (json : Json), Value.Document value json →
        json.IsReadAs Value.ofJson? value)
      ∧ (∀ datum : Datum, datum.toJson.IsReadAs Datum.ofJson? datum)
      ∧ ∀ (datum : Datum) (json : Json), Datum.Document datum json →
        json.IsReadAs Datum.ofJson? datum := by
  have hvalue : ∀ (value : Value) (json : Json), Value.Document value json →
      json.IsReadAs Value.ofJson? value :=
    fun value json h => .intro (Value.printable_of_document h) (Value.ofJson?_of_document h)
  have hdatum : ∀ (datum : Datum) (json : Json), Datum.Document datum json →
      json.IsReadAs Datum.ofJson? datum :=
    fun datum json h => .intro (Datum.printable_of_document h) (Datum.ofJson?_of_document h)
  -- what is written is one of the documents
  exact ⟨fun value => hvalue value _ (Value.document_toJson value), hvalue,
    fun datum => hdatum datum _ (Datum.document_toJson datum), hdatum⟩

/-! A struct with two members of one name, a key that stands as a number and a number that is too
large for this. -/

/-- Its document. -/
def mixedDocument : Json :=
  .tagged "Struct" (.obj [("schema", .str "P\n"), ("fields", .arr
    [.arr [.str "a", .tagged "PrivKey" (.int (-3))],
      .arr [.str "a", .tagged "Array" (.arr
        [.tagged "Sig" (.str "ff"), .tagged "Int" (.str "18446744073709551616")])]])])

/-- The text of the document. -/
def mixedText : String :=
  "\x7b\"type\":\"Struct\",\"value\":\x7b\"schema\":\"P\\n\",\"fields\":["
    ++ "[\"a\",\x7b\"type\":\"PrivKey\",\"value\":-3\x7d],"
    ++ "[\"a\",\x7b\"type\":\"Array\",\"value\":[\x7b\"type\":\"Sig\",\"value\":\"ff\"\x7d,"
    ++ "\x7b\"type\":\"Int\",\"value\":\"18446744073709551616\"\x7d]\x7d]]\x7d\x7d"

/-- The text is read as the struct. It keeps both members, takes the key from a number and has the
    large number as text. -/
theorem isReadAs_toJson_mixed :
    (Json.ofText? mixedText).bind Value.ofJson?
      = some (.struct (some "P\n")
        [("a", .privKey (-3)), ("a", .array [.bytes .sig [0xff], .int (2 ^ 64)])]) := by
  have hdocument : Value.Document (.struct (some "P\n")
      [("a", .privKey (-3)), ("a", .array [.bytes .sig [0xff], .int (2 ^ 64)])]) mixedDocument :=
    .struct _ (.cons "a" (.privKey (.number (by decide) (by decide)))
      (.cons "a" (.array (.cons (.bytes .sig [0xff]) (.cons (.int (.text _)) .nil))) .nil))
  have htext : mixedDocument.render = mixedText := by decide +kernel
  rw [← htext]
  exact (isReadAs_toJson.2.1 _ _ hdocument).2

end ScriptAbi
