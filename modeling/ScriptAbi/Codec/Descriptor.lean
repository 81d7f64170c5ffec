import ScriptAbi.Codec.Scalar
import ScriptAbi.Json.Tree
import ScriptAbi.Descriptor

namespace ScriptAbi

/-!
# Descriptors as documents

* `Descriptor.toJson`, `Descriptor.ofJson?`: a descriptor and its document. What a document need
  not say has a default.
* `Descriptor.ofText`, `Descriptor.ofBytes`: a descriptor read from text and validated.
-/

namespace Param

/-- The document of a parameter. -/
def toJson (param : Param) : Json := .obj [("name", .str param.name), ("type", .str param.type)]

/-- The parameter that a document denotes. -/
def ofJson? (json : Json) : Option Param :=
  match json.record? ["name", "type"] with
  | some [name, type] => do
    return ⟨← Json.required? Json.string? name, ← Json.required? Json.string? type⟩
  | _ => none

end Param

namespace Schema

/-- The document of a schema. -/
def toJson (schema : Schema) : Json :=
  .obj [("name", .str schema.name), ("params", .arr (schema.members.map Param.toJson))]

/-- The schema that a document denotes. -/
def ofJson? (json : Json) : Option Schema :=
  match json.record? ["name", "params"] with
  | some [name, members] => do
    return ⟨← Json.required? Json.string? name,
      ← Json.required? (Json.list? Param.ofJson?) members⟩
  | _ => none

end Schema

/-- The name of a kind of entries. -/
def EntryKind.name : EntryKind → String
  | .constructor => "constructor"
  | .function => "function"

/-- The kinds of entries by name. -/
def EntryKind.names : List (String × EntryKind) :=
  [.constructor, .function].map fun kind => (kind.name, kind)

namespace Entry

/-- The document of an entry. A missing index is left out. -/
def toJson (entry : Entry) : Json :=
  .obj ([("type", .str entry.kind.name), ("name", .str entry.name)]
    ++ entry.index.toList.map (fun index => ("index", .int index.toNat))
    ++ [("params", .arr (entry.params.map Param.toJson))])

/-- The entry that a document denotes. -/
def ofJson? (json : Json) : Option Entry :=
  match json.record? ["type", "name", "index", "params"] with
  | some [kind, name, index, params] => do
    return ⟨← Json.required? (Json.name? EntryKind.names) kind,
      ← Json.optional? "" Json.string? name,
      ← Json.optional? none (Json.nullable? Json.uint64?) index,
      ← Json.optional? [] (Json.list? Param.ofJson?) params⟩
  | _ => none

end Entry

namespace SourceWord

/-- The document of a word. What is not known is left out. -/
def toJson (word : SourceWord) : Json :=
  .obj (word.file.toList.map (fun file => ("file", .str file))
    ++ word.line.toList.map (fun line => ("line", .int line.toNat))
    ++ [("opcode", .str word.opcode)])

/-- The word that a document denotes. -/
def ofJson? (json : Json) : Option SourceWord :=
  match json.record? ["file", "line", "opcode"] with
  | some [file, line, opcode] => do
    return ⟨← Json.optional? none (Json.nullable? Json.string?) file,
      ← Json.optional? none (Json.nullable? Json.uint32?) line,
      ← Json.required? Json.string? opcode⟩
  | _ => none

end SourceWord

namespace Descriptor

/-- The document of a descriptor. Missing words of the script are left out. -/
def toJson (descriptor : Descriptor) : Json :=
  .obj ([("compilerVersion", .str descriptor.compiler),
      ("contract", .str descriptor.name),
      ("md5", .str descriptor.digest),
      ("structs", .arr (descriptor.schemas.map Schema.toJson)),
      ("abi", .arr (descriptor.abi.map Entry.toJson)),
      ("asm", .str descriptor.asm)]
    ++ descriptor.sourceWords.toList.map (fun words =>
      ("debugAsm", .arr (words.map SourceWord.toJson)))
    ++ [("slotNaming", .int descriptor.slotVersion.toNat)])

/-- The descriptor that a document denotes. -/
def ofJson? (json : Json) : Option Descriptor :=
  match json.record? ["compilerVersion", "contract", "md5", "structs", "abi", "asm", "debugAsm",
    "slotNaming"] with
  | some [compiler, name, digest, schemas, abi, asm, sourceWords, slotVersion] => do
    return ⟨← Json.optional? "" Json.string? compiler,
      ← Json.required? Json.string? name,
      ← Json.optional? "" Json.string? digest,
      ← Json.optional? [] (Json.list? Schema.ofJson?) schemas,
      ← Json.required? (Json.list? Entry.ofJson?) abi,
      ← Json.required? Json.string? asm,
      ← Json.optional? none (Json.nullable? (Json.list? SourceWord.ofJson?)) sourceWords,
      ← Json.optional? SlotStyle.path.version Json.uint32? slotVersion⟩
  | _ => none

/-- The valid descriptor that a document denotes. -/
def ofJson (json : Json) : Except ContractError Descriptor :=
  match ofJson? json with
  | some descriptor => descriptor.validate.map fun _ => descriptor
  | none => .error .json

/-- The valid descriptor that a byte string denotes. -/
def ofBytes (bytes : Bytes) : Except ContractError Descriptor :=
  match Json.ofBytes? bytes with
  | some json => ofJson json
  | none => .error .json

/-- The valid descriptor that a text denotes. -/
def ofText (text : String) : Except ContractError Descriptor := ofBytes text.toUTF8.toList

end Descriptor

end ScriptAbi
