import ScriptAbi.Codec.Descriptor
import ScriptAbi.Proofs.Codec.Scalar
import ScriptAbi.Proofs.Outcome

namespace ScriptAbi

/-!
# Descriptors read back from their documents

* `record?_obj`: the members of an object whose keys differ, each in its place.
* `Descriptor.ofJson?_toJson`: a descriptor is read back, valid or not, whatever parts it has.
  `Param`, `Schema`, `Entry` and `SourceWord` have the same lemma.
* `Descriptor.printable_toJson`: nothing is lost when its document is printed.
* `Descriptor.Verdict`: what a descriptor is refused for, case by case;
  `Descriptor.validate_eq_iff`: validation comes to this and to nothing else.
* `Coder.ofDescriptor_of_isValid`: a valid descriptor has a coder.
* `ofText_render_toJson`: what comes of a descriptor that is written, printed and read again, and
  what holds for every descriptor that was read.
-/

/-! ### Parts of a document -/

/-- A list is read back if each item is. -/
theorem list?_map {α : Type} {read : Json → Option α} {write : α → Json} {items : List α}
    (h : ∀ item ∈ items, read (write item) = some item) :
    Json.list? read (.arr (items.map write)) = some items :=
  Json.mapM_map_eq_some h

/-- A list is printable if each item of it is written so. -/
theorem printable_map {α : Type} {write : α → Json} {items : List α}
    (h : ∀ item ∈ items, (write item).Printable) : (Json.arr (items.map write)).Printable := by
  refine .arr fun json hjson => ?_
  obtain ⟨item, hitem, rfl⟩ := List.mem_map.1 hjson
  exact h item hitem

/-- **The members of an object** whose keys all differ are found by their keys. -/
theorem record?_obj {keys : List String} {members : List (String × Json)}
    (h : (members.map Prod.fst).Nodup) :
    Json.record? keys (.obj members) = some (keys.map fun key => members.lookup key) := by
  have hcount : ∀ key ∈ keys, (members.map Prod.fst).count key ≤ 1 :=
    fun key _ => List.nodup_iff_count.1 h key
  rw [Json.record?, if_pos (by simpa using hcount)]

/-- A member that has to be there, and is, is read. -/
theorem required?_some {α : Type} (read : Json → Option α) (json : Json) :
    Json.required? read (some json) = read json := by
  rw [Json.required?, Option.bind_some]

/-- A member that need not be there is read if it is, and the default does not count. -/
theorem optional?_some {α : Type} (default : α) (read : Json → Option α) (json : Json) :
    Json.optional? default read (some json) = read json := by
  rw [Json.optional?]

/-- A member that is left out when there is nothing to write is read back. -/
theorem optional?_map {α : Type} {read : Json → Option α} {write : α → Json} {member : Option α}
    (h : ∀ thing ∈ member, Json.nullable? read (write thing) = some (some thing)) :
    Json.optional? none (Json.nullable? read) (member.map write) = some member := by
  cases member with
  | none => rfl
  | some thing => exact h thing rfl

theorem string?_str (text : String) : Json.string? (.str text) = some text := by
  rw [Json.string?]

/-- What is not null is read as if it could not be. -/
theorem nullable?_of_ne_null {α : Type} {read : Json → Option α} {json : Json} {thing : α}
    (hjson : json ≠ .null) (h : read json = some thing) :
    Json.nullable? read json = some (some thing) := by
  cases json with
  | null => contradiction
  | _ => simp [Json.nullable?, h]

theorem printable_uint32 (n : UInt32) : (Json.int n.toNat).Printable :=
  printable_natCast (by have := n.toNat_lt; omega)

theorem printable_uint64 (n : UInt64) : (Json.int n.toNat).Printable :=
  printable_natCast n.toNat_lt

/-! ### Parameters and schemas -/

/-- A parameter is read back from its document. -/
theorem Param.ofJson?_toJson (param : Param) : ofJson? param.toJson = some param :=
  rfl

theorem Param.printable_toJson (param : Param) : param.toJson.Printable :=
  .obj (by simp [Json.Printable.str])

/-- A schema is read back from its document. -/
theorem Schema.ofJson?_toJson (schema : Schema) : ofJson? schema.toJson = some schema := by
  have hmembers := list?_map fun param (_ : param ∈ schema.members) => Param.ofJson?_toJson param
  rw [ofJson?, toJson, record?_obj (by simp)]
  simp [List.lookup_cons, required?_some, string?_str, hmembers]

theorem Schema.printable_toJson (schema : Schema) : schema.toJson.Printable := by
  have hmembers := printable_map fun param (_ : param ∈ schema.members) =>
    Param.printable_toJson param
  exact .obj (by simp [Json.Printable.str, hmembers])

/-! ### Entries -/

/-- The kind of an entry is read back from its name. -/
theorem EntryKind.name?_name (kind : EntryKind) :
    Json.name? EntryKind.names (.str kind.name) = some kind := by
  cases kind <;> decide

/-- An entry is read back from its document, with its index or without. -/
theorem Entry.ofJson?_toJson (entry : Entry) : ofJson? entry.toJson = some entry := by
  have hparams := list?_map fun param (_ : param ∈ entry.params) => Param.ofJson?_toJson param
  have hindex := optional?_map fun index (_ : index ∈ entry.index) =>
    nullable?_of_ne_null (by simp) (uint64?_int index)
  have hrecord : entry.toJson.record? ["type", "name", "index", "params"]
      = some [some (.str entry.kind.name), some (.str entry.name),
        entry.index.map fun index => .int index.toNat,
        some (.arr (entry.params.map Param.toJson))] := by
    rw [toJson, record?_obj]
    · cases entry.index <;> simp [List.lookup_cons]
    · cases entry.index <;> simp
  rw [ofJson?, hrecord]
  simp [required?_some, optional?_some, string?_str, hindex, hparams, EntryKind.name?_name]

theorem Entry.printable_toJson (entry : Entry) : entry.toJson.Printable := by
  have hparams := printable_map fun param (_ : param ∈ entry.params) =>
    Param.printable_toJson param
  refine .obj ?_
  cases entry.index <;> simp [Json.Printable.str, printable_uint64, hparams]

/-! ### Words of the script -/

/-- A source word is read back, with whatever it knows of its place. -/
theorem SourceWord.ofJson?_toJson (word : SourceWord) : ofJson? word.toJson = some word := by
  have hfile := optional?_map fun file (_ : file ∈ word.file) =>
    nullable?_of_ne_null (by simp) (string?_str file)
  have hline := optional?_map fun line (_ : line ∈ word.line) =>
    nullable?_of_ne_null (by simp) (uint32?_int line)
  have hrecord : word.toJson.record? ["file", "line", "opcode"]
      = some [word.file.map .str, word.line.map fun line => .int line.toNat,
        some (.str word.opcode)] := by
    rw [toJson, record?_obj]
    · cases word.file <;> cases word.line <;> simp [List.lookup_cons]
    · cases word.file <;> cases word.line <;> simp
  rw [ofJson?, hrecord]
  simp [required?_some, string?_str, hfile, hline]

theorem SourceWord.printable_toJson (word : SourceWord) : word.toJson.Printable := by
  refine .obj ?_
  cases word.file <;> cases word.line <;> simp [Json.Printable.str, printable_uint32]

/-! ### Descriptors -/

namespace Descriptor

/-- **A descriptor is read back** from its document, valid or not. -/
theorem ofJson?_toJson (descriptor : Descriptor) :
    ofJson? descriptor.toJson = some descriptor := by
  have hschemas := list?_map fun schema (_ : schema ∈ descriptor.schemas) =>
    Schema.ofJson?_toJson schema
  have habi := list?_map fun entry (_ : entry ∈ descriptor.abi) => Entry.ofJson?_toJson entry
  have hwords := optional?_map fun words (_ : words ∈ descriptor.sourceWords) =>
    nullable?_of_ne_null (by simp) (list?_map fun word (_ : word ∈ words) =>
      SourceWord.ofJson?_toJson word)
  -- each member is found under its key; the words are missing if there are none
  have hrecord : descriptor.toJson.record? ["compilerVersion", "contract", "md5", "structs", "abi",
      "asm", "debugAsm", "slotNaming"]
      = some [some (.str descriptor.compiler), some (.str descriptor.name),
        some (.str descriptor.digest), some (.arr (descriptor.schemas.map Schema.toJson)),
        some (.arr (descriptor.abi.map Entry.toJson)), some (.str descriptor.asm),
        descriptor.sourceWords.map fun words => .arr (words.map SourceWord.toJson),
        some (.int descriptor.slotVersion.toNat)] := by
    rw [toJson, record?_obj]
    · cases descriptor.sourceWords <;> simp [List.lookup_cons]
    · cases descriptor.sourceWords <;> simp
  rw [ofJson?, hrecord]
  simp [required?_some, optional?_some, string?_str, uint32?_int, hschemas, habi, hwords]

/-- The document of a descriptor is printable. -/
theorem printable_toJson (descriptor : Descriptor) : descriptor.toJson.Printable := by
  have hschemas := printable_map fun schema (_ : schema ∈ descriptor.schemas) =>
    Schema.printable_toJson schema
  have habi := printable_map fun entry (_ : entry ∈ descriptor.abi) =>
    Entry.printable_toJson entry
  have hwords : ∀ words : List SourceWord, (Json.arr (words.map SourceWord.toJson)).Printable :=
    fun words => printable_map fun word _ => SourceWord.printable_toJson word
  refine .obj ?_
  cases descriptor.sourceWords <;>
    simp [Json.Printable.str, printable_uint32, hschemas, habi, hwords]

/-- A descriptor that is written and read comes through if it is valid. -/
theorem ofJson_toJson (descriptor : Descriptor) :
    ofJson descriptor.toJson = descriptor.validate.map fun _ => descriptor := by
  rw [ofJson, ofJson?_toJson]

/-- Printing makes no difference. -/
theorem ofText_render (descriptor : Descriptor) :
    ofText descriptor.toJson.render = ofJson descriptor.toJson := by
  have hread : Json.ofBytes? descriptor.toJson.render.toUTF8.toList = some descriptor.toJson :=
    Json.ofText?_render descriptor.printable_toJson
  rw [ofText, ofBytes, hread]

end Descriptor

/-! ### Validation -/

/-- Some character of the text is no white space. -/
def Text.IsVisible (text : String) : Prop := ∃ c ∈ text.toList, isBlank c = false

/-- A text is blank iff nothing in it is visible. -/
theorem isBlankText_iff {text : String} : Text.isBlankText text = true ↔ ¬ Text.IsVisible text := by
  simp [Text.isBlankText, Text.IsVisible]

theorem not_isBlankText_iff {text : String} :
    ¬ Text.isBlankText text = true ↔ Text.IsVisible text := by
  rw [isBlankText_iff, not_not]

namespace Descriptor

/-- The number of constructors. -/
def constructorCount (descriptor : Descriptor) : Nat :=
  descriptor.abi.countP fun entry => entry.kind == .constructor

/-- The constructors of an interface are the entries that are counted as such. -/
theorem length_constructors (descriptor : Descriptor) :
    descriptor.abi.constructors.length = descriptor.constructorCount := by
  rw [constructorCount, List.countP_eq_length_filter, Abi.constructors]

/-- Version one of the slot naming is the style of paths. -/
theorem slotStyle_of_eq_one {descriptor : Descriptor} (h : descriptor.slotVersion = 1) :
    descriptor.slotStyle = .ok .path := by
  rw [slotStyle, h]
  rfl

/-- No other version has a style. -/
theorem slotStyle_of_ne_one {descriptor : Descriptor} (h : descriptor.slotVersion ≠ 1) :
    descriptor.slotStyle = .error (.unknownSlotStyle descriptor.slotVersion) := by
  rw [slotStyle, SlotStyle.ofVersion?, if_neg h]

/-- What a valid descriptor satisfies. -/
structure IsValid (descriptor : Descriptor) : Prop where
  name : Text.IsVisible descriptor.name
  asm : Text.IsVisible descriptor.asm
  constructors : descriptor.constructorCount ≤ 1
  slotVersion : descriptor.slotVersion = 1

/-- What comes of a validation. The first condition that fails decides the error. -/
inductive Verdict (descriptor : Descriptor) : Except ContractError Unit → Prop
  | emptyName (hname : ¬ Text.IsVisible descriptor.name) :
      Verdict descriptor (.error (.descriptor .emptyName))
  | emptyAsm (hname : Text.IsVisible descriptor.name) (hasm : ¬ Text.IsVisible descriptor.asm) :
      Verdict descriptor (.error (.descriptor (.emptyAsm descriptor.name)))
  | manyConstructors (hname : Text.IsVisible descriptor.name) (hasm : Text.IsVisible descriptor.asm)
      (hconstructors : 1 < descriptor.constructorCount) :
      Verdict descriptor (.error (.descriptor (.manyConstructors descriptor.name)))
  | unknownSlotStyle (hname : Text.IsVisible descriptor.name) (hasm : Text.IsVisible descriptor.asm)
      (hconstructors : descriptor.constructorCount ≤ 1) (hversion : descriptor.slotVersion ≠ 1) :
      Verdict descriptor (.error (.unknownSlotStyle descriptor.slotVersion))
  | valid (h : descriptor.IsValid) : Verdict descriptor (.ok ())

/-- One of the cases holds, as the conditions are looked at one after the other. -/
theorem exists_verdict (descriptor : Descriptor) : ∃ result, descriptor.Verdict result := by
  by_cases hname : Text.IsVisible descriptor.name
  · by_cases hasm : Text.IsVisible descriptor.asm
    · by_cases hconstructors : descriptor.constructorCount ≤ 1
      · by_cases hversion : descriptor.slotVersion = 1
        · exact ⟨_, .valid ⟨hname, hasm, hconstructors, hversion⟩⟩
        · exact ⟨_, .unknownSlotStyle hname hasm hconstructors hversion⟩
      · exact ⟨_, .manyConstructors hname hasm (Nat.not_le.1 hconstructors)⟩
    · exact ⟨_, .emptyAsm hname hasm⟩
  · exact ⟨_, .emptyName hname⟩

/-- Validation gives the verdict. Its cases are in the order of the checks. -/
theorem validate_of_verdict {descriptor : Descriptor} {result : Except ContractError Unit}
    (h : descriptor.Verdict result) : descriptor.validate = result := by
  -- each verdict says which checks were passed before it
  cases h with
  | emptyName hname => rw [validate, if_pos (isBlankText_iff.2 hname)]
  | emptyAsm hname hasm =>
    rw [validate, if_neg (not_isBlankText_iff.2 hname), if_pos (isBlankText_iff.2 hasm)]
  | manyConstructors hname hasm hconstructors =>
    rw [validate, if_neg (not_isBlankText_iff.2 hname), if_neg (not_isBlankText_iff.2 hasm),
      length_constructors, if_pos hconstructors]
  | unknownSlotStyle hname hasm hconstructors hversion =>
    rw [validate, if_neg (not_isBlankText_iff.2 hname), if_neg (not_isBlankText_iff.2 hasm),
      length_constructors, if_neg (Nat.not_lt.2 hconstructors), slotStyle_of_ne_one hversion]
    rfl
  | valid h =>
    rw [validate, if_neg (not_isBlankText_iff.2 h.name), if_neg (not_isBlankText_iff.2 h.asm),
      length_constructors, if_neg (Nat.not_lt.2 h.constructors), slotStyle_of_eq_one h.slotVersion]
    rfl

/-- **A validation comes to its verdict** and to nothing else. -/
theorem validate_eq_iff {descriptor : Descriptor} {result : Except ContractError Unit} :
    descriptor.validate = result ↔ descriptor.Verdict result := by
  refine ⟨?_, validate_of_verdict⟩
  rintro rfl
  obtain ⟨result, h⟩ := exists_verdict descriptor
  rwa [validate_of_verdict h]

/-- Validation succeeds iff the descriptor is valid. -/
theorem validate_eq_ok_iff {descriptor : Descriptor} :
    descriptor.validate = .ok () ↔ descriptor.IsValid := by
  rw [validate_eq_iff]
  constructor
  · rintro ⟨⟩
    assumption
  · exact .valid

end Descriptor

/-! ### Coders -/

/-- **A valid descriptor has a coder**, with the template of its script and the one known style. -/
theorem Coder.ofDescriptor_of_isValid {descriptor : Descriptor} (h : descriptor.IsValid) :
    ofDescriptor descriptor = .ok ⟨descriptor, Template.ofText descriptor.asm, .path⟩ := by
  rw [ofDescriptor, Descriptor.slotStyle_of_eq_one h.slotVersion]
  rfl

/-- What was read is valid, whatever the document says. -/
theorem Descriptor.isValid_of_ofJson {json : Json} {descriptor : Descriptor}
    (h : ofJson json = .ok descriptor) : descriptor.IsValid := by
  unfold ofJson at h
  split at h
  · obtain ⟨_, hvalidate, rfl⟩ := map_eq_ok_iff.1 h
    exact validate_eq_ok_iff.1 hvalidate
  · contradiction

/-- What was read is valid, as reading ends with the validation. -/
theorem Descriptor.isValid_of_ofBytes {bytes : Bytes} {descriptor : Descriptor}
    (h : ofBytes bytes = .ok descriptor) : descriptor.IsValid := by
  unfold ofBytes at h
  split at h
  · exact isValid_of_ofJson h
  · contradiction

/-! ### Reading back -/

/-- **Descriptors are read back and validated.** A descriptor that is written, and printed or not,
    is read as itself if it is valid, and else fails with the error that its validation gives. It is
    valid iff its name and its script are visible, it has at most one constructor and its slot style
    is the first one; the first of these that fails is the error. Whatever was read is valid and has
    a coder. -/
theorem ofText_render_toJson :
    (∀ descriptor : Descriptor,
      descriptor.toJson.IsReadAs Descriptor.ofJson? descriptor
        ∧ Descriptor.ofJson descriptor.toJson = descriptor.validate.map (fun _ => descriptor)
        ∧ Descriptor.ofText descriptor.toJson.render = descriptor.validate.map (fun _ => descriptor)
        ∧ (descriptor.validate = .ok () ↔
          Text.IsVisible descriptor.name ∧ Text.IsVisible descriptor.asm
            ∧ descriptor.constructorCount ≤ 1 ∧ descriptor.slotVersion = 1)
        ∧ ∀ result, descriptor.validate = result ↔ descriptor.Verdict result)
      ∧ ∀ text descriptor, Descriptor.ofText text = .ok descriptor →
        descriptor.validate = .ok ()
          ∧ Coder.ofDescriptor descriptor
            = .ok ⟨descriptor, Template.ofText descriptor.asm, .path⟩ := by
  refine ⟨fun descriptor => ⟨?_, descriptor.ofJson_toJson, ?_, ?_, ?_⟩, ?_⟩
  · exact .intro descriptor.printable_toJson descriptor.ofJson?_toJson
  · rw [descriptor.ofText_render, descriptor.ofJson_toJson]
  · -- the conditions, one by one
    rw [Descriptor.validate_eq_ok_iff]
    exact ⟨fun h => ⟨h.name, h.asm, h.constructors, h.slotVersion⟩,
      fun ⟨hname, hasm, hconstructors, hversion⟩ => ⟨hname, hasm, hconstructors, hversion⟩⟩
  · exact fun result => Descriptor.validate_eq_iff
  · -- what was read was validated
    intro text descriptor h
    have hvalid := Descriptor.isValid_of_ofBytes h
    exact ⟨Descriptor.validate_eq_ok_iff.2 hvalid, Coder.ofDescriptor_of_isValid hvalid⟩

/-- A descriptor with a function that has an index and a constructor that has none, and with a word
    of unknown file and one of unknown line. -/
def demoDescriptor : Descriptor where
  compiler := ""
  name := "Demo"
  digest := "01"
  schemas := [⟨"P", [⟨"x", "int"⟩]⟩]
  abi := [⟨.function, "add", some 0, [⟨"z", "P"⟩]⟩, ⟨.constructor, "", none, []⟩]
  asm := "$x OP_ADD"
  sourceWords := some [⟨some "demo", none, "$x"⟩, ⟨none, some 7, "OP_ADD"⟩]
  slotVersion := 1

/-- Its text. -/
def demoText : String :=
  "\x7b\"compilerVersion\":\"\",\"contract\":\"Demo\",\"md5\":\"01\","
    ++ "\"structs\":[\x7b\"name\":\"P\",\"params\":[\x7b\"name\":\"x\",\"type\":\"int\"\x7d]\x7d],"
    ++ "\"abi\":[\x7b\"type\":\"function\",\"name\":\"add\",\"index\":0,"
    ++ "\"params\":[\x7b\"name\":\"z\",\"type\":\"P\"\x7d]\x7d,"
    ++ "\x7b\"type\":\"constructor\",\"name\":\"\",\"params\":[]\x7d],"
    ++ "\"asm\":\"$x OP_ADD\",\"debugAsm\":[\x7b\"file\":\"demo\",\"opcode\":\"$x\"\x7d,"
    ++ "\x7b\"line\":7,\"opcode\":\"OP_ADD\"\x7d],\"slotNaming\":1\x7d"

/-- The descriptor is read from its text and has a coder. With no script and an unknown slot style
    it fails for the script, which counts first. -/
theorem ofText_render_toJson_demo :
    Descriptor.ofText demoText = .ok demoDescriptor
      ∧ Coder.ofDescriptor demoDescriptor
        = .ok ⟨demoDescriptor, Template.ofText demoDescriptor.asm, .path⟩
      ∧ Descriptor.ofText { demoDescriptor with asm := " ", slotVersion := 2 }.toJson.render
        = .error (.descriptor (.emptyAsm "Demo")) := by
  have htext : demoDescriptor.toJson.render = demoText := by decide +kernel
  have hvalid : demoDescriptor.validate = .ok () := by decide +kernel
  have hread : Descriptor.ofText demoText = .ok demoDescriptor := by
    rw [← htext, (ofText_render_toJson.1 demoDescriptor).2.2.1, hvalid]
    rfl
  refine ⟨hread, (ofText_render_toJson.2 demoText demoDescriptor hread).2, ?_⟩
  rw [(ofText_render_toJson.1 _).2.2.1]
  decide +kernel

end ScriptAbi
