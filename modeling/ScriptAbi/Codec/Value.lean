import ScriptAbi.Codec.Scalar
import ScriptAbi.Value.Basic

namespace ScriptAbi

/-!
# Values in documents

A value is tagged with its kind, or as a struct or an array. A struct is the name of its schema,
which may be missing, and the list of its members, each a pair.

* `Value.toJson`: the document of a value.
* `Value.ofJson?`: the value that a document denotes.
-/

namespace Value

mutual

/-- The document of a value. -/
def toJson : Value → Json
  | .bool b => .tagged Kind.bool.tag (.bool b)
  | .int n => .tagged Kind.int.tag (.ofInt n)
  | .privKey n => .tagged Kind.privKey.tag (.ofInt n)
  | .sigHashType flag => .tagged Kind.sigHashType.tag (.int flag.toNat)
  | .bytes kind data => .tagged (Kind.bytes kind).tag (.ofData data)
  | .struct schema fields =>
    .tagged "Struct" (.obj [("schema", .ofString? schema), ("fields", .arr (fieldsToJson fields))])
  | .array items => .tagged "Array" (.arr (itemsToJson items))

/-- The document of each member, a pair of its name and its value. -/
def fieldsToJson : List (String × Value) → List Json
  | [] => []
  | (name, value) :: rest => .arr [.str name, value.toJson] :: fieldsToJson rest

/-- The document of each item. -/
def itemsToJson : List Value → List Json
  | [] => []
  | value :: rest => value.toJson :: itemsToJson rest

end

/-- The tags of values. -/
def tags : List (String × Shape) :=
  Kind.all.map (fun kind => (kind.tag, .scalar kind)) ++ [("Struct", .struct), ("Array", .array)]

/-- The scalar of the given kind that a document denotes. -/
def scalarOfJson? (kind : Kind) (json : Json) : Option Value :=
  match kind with
  | .bool => json.bool?.map .bool
  | .int => json.decimal?.map .int
  | .privKey => json.decimal?.map .privKey
  | .sigHashType => json.byte?.map .sigHashType
  | .bytes kind => json.hex?.map (.bytes kind)

/-- The schema's name and the list of members that the document of a struct holds. -/
def structParts? (json : Json) : Option (Option String × List Json) :=
  match json.record? ["schema", "fields"] with
  | some [schema, some (.arr fields)] => do
    let schema ← Json.optional? none (Json.nullable? Json.string?) schema
    return (schema, fields)
  | _ => none

/-! ### The parts of a document are smaller than the document -/

/-- The parts of a record are smaller than it, so that reading them ends. -/
theorem sizeOf_lt_of_record? {keys : List String} {json part : Json}
    {parts : List (Option Json)} (h : json.record? keys = some parts) (mem : some part ∈ parts) :
    sizeOf part < sizeOf json := by
  cases json with
  | obj members =>
    simp only [Json.record?] at h
    split at h
    · cases h
      -- a part stands under its key
      obtain ⟨key, _, found⟩ := List.mem_map.1 mem
      obtain ⟨front, back, rfl, _⟩ := List.lookup_eq_some_iff.1 found
      have := List.sizeOf_lt_of_mem (show (key, part) ∈ front ++ (key, part) :: back by simp)
      simp only [Prod.mk.sizeOf_spec, Json.obj.sizeOf_spec] at this ⊢
      omega
    · contradiction
  | arr items =>
    simp only [Json.record?] at h
    split at h
    · cases h
      -- a part stands at its position
      obtain ⟨position, _, found⟩ := List.mem_mapIdx.1 mem
      have := List.sizeOf_lt_of_mem (List.mem_of_getElem? found)
      simp only [Json.arr.sizeOf_spec]
      omega
    · contradiction
  | _ => simp [Json.record?] at h

/-- What stands beside a tag is smaller than the two together. -/
theorem sizeOf_lt_of_tagged? {α : Type} {tags : List (String × α)} {json value : Json}
    {sort : α} (h : json.tagged? tags = some (sort, value)) : sizeOf value < sizeOf json := by
  unfold Json.tagged? at h
  split at h
  · rename_i record
    obtain ⟨_, _, eq⟩ := Option.map_eq_some_iff.1 h
    cases eq
    exact sizeOf_lt_of_record? record (by simp)
  · contradiction

/-- The members of a struct are smaller than its document. -/
theorem sizeOf_lt_of_structParts? {json : Json} {schema : Option String} {fields : List Json}
    (h : structParts? json = some (schema, fields)) : sizeOf fields < sizeOf json := by
  unfold structParts? at h
  split at h
  · rename_i record
    simp only [Option.bind_eq_bind, Option.bind_eq_some_iff] at h
    obtain ⟨_, _, eq⟩ := h
    cases eq
    have := sizeOf_lt_of_record? record (show some (Json.arr fields) ∈ _ by simp)
    simp only [Json.arr.sizeOf_spec] at this
    omega
  · contradiction

/-! ### Reading -/

mutual

/-- The value that a document denotes. -/
def ofJson? (json : Json) : Option Value :=
  match h : json.tagged? tags with
  | none => none
  | some (.scalar kind, body) => scalarOfJson? kind body
  | some (.array, .arr items) =>
    have : sizeOf items < sizeOf json :=
      Nat.lt_trans (by simp only [Json.arr.sizeOf_spec]; omega) (sizeOf_lt_of_tagged? h)
    (itemsOfJson? items).map .array
  | some (.array, _) => none
  | some (.struct, body) =>
    have := sizeOf_lt_of_tagged? h
    match h' : structParts? body with
    | none => none
    | some (schema, fields) =>
      have := sizeOf_lt_of_structParts? h'
      (fieldsOfJson? fields).map (.struct schema)
termination_by sizeOf json

/-- The items that a list of documents denotes. -/
def itemsOfJson? : List Json → Option (List Value)
  | [] => some []
  | item :: rest => do
    let value ← ofJson? item
    let others ← itemsOfJson? rest
    return value :: others
termination_by items => sizeOf items

/-- The members that a list of pairs denotes. -/
def fieldsOfJson? : List Json → Option (List (String × Value))
  | [] => some []
  | .arr [.str name, json] :: rest => do
    let value ← ofJson? json
    let others ← fieldsOfJson? rest
    return (name, value) :: others
  | _ => none
termination_by fields => sizeOf fields

end

end Value

/-- The document of a struct. -/
def Struct.ofJson? (json : Json) : Option Struct := do
  let (schema, members) ← Value.structParts? json
  let fields ← Value.fieldsOfJson? members
  return ⟨schema, fields⟩

end ScriptAbi
