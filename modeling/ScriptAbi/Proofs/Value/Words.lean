import ScriptAbi.Proofs.State.RoundTrip
import ScriptAbi.Proofs.Value.Canonical
import ScriptAbi.Value.Render

namespace ScriptAbi

/-!
# The words of a value

* `Value.scalars`: the scalars in a value, items by index and members in their order.
* `Value.word`: the one word of a scalar (`ofWord_word`), which tells it among the scalars of its
  kind (`word_injective`).
* `joinWords_flatten`: joining texts that were joined themselves joins their parts.
* `asm_of_allBound`: the text of a value is the words of its scalars with spaces between them,
  however its arrays and structs are nested.
-/

/-! ### Scalars -/

mutual

/-- The scalars in a value in order. -/
def Value.scalars : Value → List Value
  | .array items => itemScalars items
  | .struct _ fields => fieldScalars fields
  | scalar => [scalar]

/-- The scalars in the items. -/
def Value.itemScalars : List Value → List Value
  | [] => []
  | item :: rest => item.scalars ++ itemScalars rest

/-- The scalars in the members. -/
def Value.fieldScalars : List (String × Value) → List Value
  | [] => []
  | (_, value) :: rest => value.scalars ++ fieldScalars rest

end

namespace Value

/-- A scalar is its only scalar. -/
theorem scalars_of_kind? {value : Value} {kind : Kind} (h : value.kind? = some kind) :
    value.scalars = [value] := by
  cases value with
  | array | struct => cases h
  | _ => rfl

/-- The scalars of an array are those of its items. -/
theorem scalars_array (items : List Value) : (array items).scalars = items.flatMap scalars := by
  show itemScalars items = _
  induction items with
  | nil => rfl
  | cons item rest ih => rw [itemScalars, ih, List.flatMap_cons]

/-- The scalars of a struct are those of its members. -/
theorem scalars_struct (bound : Option String) (fields : List (String × Value)) :
    (struct bound fields).scalars = fields.flatMap fun field => field.2.scalars := by
  show fieldScalars fields = _
  induction fields with
  | nil => rfl
  | cons field rest ih => rw [fieldScalars, ih, List.flatMap_cons]

/-- What is found in a value as a scalar is one. -/
theorem kind?_of_mem_scalars {value scalar : Value} (h : scalar ∈ value.scalars) :
    ∃ kind, scalar.kind? = some kind := by
  induction value using Value.induct with
  | scalar value kind hkind =>
    rw [scalars_of_kind? hkind, List.mem_singleton] at h
    exact ⟨kind, h ▸ hkind⟩
  | array items ih =>
    rw [scalars_array] at h
    obtain ⟨item, hitem, hmem⟩ := List.mem_flatMap.1 h
    exact ih item hitem hmem
  | struct bound fields ih =>
    rw [scalars_struct] at h
    obtain ⟨field, hfield, hmem⟩ := List.mem_flatMap.1 h
    exact ih field hfield hmem

/-! ### The word of a scalar -/

/-- The word of a scalar; other values have none. -/
def word : Value → String
  | .bool b => Word.ofBool b
  | .int n => Word.ofInt n
  | .privKey n => Word.ofInt n
  | .sigHashType flag => Hex.encode [flag]
  | .bytes _ data => Word.ofBytes data
  | .struct _ _ => ""
  | .array _ => ""

/-- A scalar is written as its word. -/
theorem asm_of_kind? {value : Value} {kind : Kind} (h : value.kind? = some kind) :
    value.asm = .ok value.word := by
  cases value with
  | array | struct => cases h
  | _ => rfl

/-- **A scalar is one word**, which stands for an instruction. -/
theorem ofWord_word {value : Value} {kind : Kind} (h : value.kind? = some kind) :
    Text.IsWord value.word.toList ∧ ∃ instr, Instr.ofWord value.word = .ok instr := by
  cases value with
  | bool b =>
    refine ⟨?_, .op (if b then Opcode.one else Opcode.zero), ?_⟩
    · cases b <;> decide
    · cases b <;> decide +kernel
  | int n => exact ⟨isWord_ofInt n, _, ofWord_ofInt n⟩
  | privKey n => exact ⟨isWord_ofInt n, _, ofWord_ofInt n⟩
  | sigHashType flag => exact ⟨isWord_encode (by simp), _, ofWord_encode (by simp)⟩
  | bytes kind data => exact ⟨isWord_ofBytes data, _, ofWord_ofBytes data⟩
  | struct | array => cases h

/-- No two byte strings have the same word. -/
theorem ofBytes_injective : Function.Injective Word.ofBytes := by
  intro a b h
  have hinstr := ofWord_ofBytes a
  rw [h, ofWord_ofBytes b] at hinstr
  exact (ofData_injective (Except.ok.inj hinstr)).symm

/-- **The word of a scalar tells it** among the scalars of its kind. -/
theorem word_injective {v w : Value} {kind : Kind} (hv : v.kind? = some kind)
    (hw : w.kind? = some kind) (h : v.word = w.word) : v = w := by
  have hsame : v.kind? = w.kind? := hv.trans hw.symm
  cases v <;> cases w <;> cases hsame <;> try cases hv
  case bool a b =>
    have : ∀ a b, Word.ofBool a = Word.ofBool b → a = b := by decide
    rw [this a b h]
  case int m n => rw [ofInt_injective h]
  case privKey m n => rw [ofInt_injective h]
  case sigHashType a b =>
    have hbytes : [a] = [b] := ofBytes_injective h
    rw [List.singleton_inj.1 hbytes]
  case bytes a b => rw [ofBytes_injective h]

/-! ### Joining words -/

/-- Texts that are not empty are joined by one space. -/
theorem joinWords_eq_intercalate {parts : List String} (h : ∀ part ∈ parts, part ≠ "") :
    joinWords parts = " ".intercalate parts := by
  have hfilter : parts.filter (fun part => !part.isEmpty) = parts := by
    rw [List.filter_eq_self]
    intro part hpart
    simpa [String.isEmpty_iff] using h part hpart
  rw [joinWords, hfilter]

/-- Words are joined by one space. -/
theorem joinWords_of_isWord {words : List String} (h : ∀ word ∈ words, Text.IsWord word.toList) :
    joinWords words = " ".intercalate words := by
  apply joinWords_eq_intercalate
  intro word hword hempty
  exact (h word hword).1 (by rw [hempty]; rfl)

private theorem intercalate_ne_empty {parts : List String} (h : ∀ part ∈ parts, part ≠ "")
    (hne : parts ≠ []) : " ".intercalate parts ≠ "" := by
  obtain ⟨first, rest, rfl⟩ := List.exists_cons_of_ne_nil hne
  have hfirst : first ≠ "" := h first (by simp)
  cases rest <;> simp [hfirst]

/-- Two texts with one space between them; an empty text leaves no trace. -/
def joinTwo (front back : String) : String :=
  if front = "" then back else if back = "" then front else front ++ " " ++ back

/-- Parts are joined in two stretches as they are joined in one. -/
theorem joinWords_append (front back : List String) :
    joinWords (front ++ back) = joinTwo (joinWords front) (joinWords back) := by
  have hwords : ∀ parts : List String, ∀ part ∈ parts.filter (fun part => !part.isEmpty),
      part ≠ "" := by
    intro parts part hpart
    simpa [String.isEmpty_iff] using (List.mem_filter.1 hpart).2
  simp only [joinWords, List.filter_append]
  -- a stretch of empty texts leaves no space on either side
  by_cases hfront : front.filter (fun part => !part.isEmpty) = []
  · simp [joinTwo, hfront]
  · by_cases hback : back.filter (fun part => !part.isEmpty) = []
    · simp [joinTwo, hback, intercalate_ne_empty (hwords front) hfront]
    · rw [String.intercalate_append_of_ne_nil hfront hback, joinTwo,
        if_neg (intercalate_ne_empty (hwords front) hfront),
        if_neg (intercalate_ne_empty (hwords back) hback)]

@[simp] theorem joinWords_singleton (part : String) : joinWords [part] = part := by
  by_cases h : part = ""
  · rw [h]
    rfl
  · rw [joinWords_eq_intercalate (by simpa using h), String.intercalate_singleton]

/-- **Joining joined texts** joins all their parts. -/
theorem joinWords_flatten (groups : List (List String)) :
    joinWords (groups.map joinWords) = joinWords groups.flatten := by
  induction groups with
  | nil => rfl
  | cons group rest ih =>
    calc joinWords (joinWords group :: rest.map joinWords)
        = joinTwo (joinWords [joinWords group]) (joinWords (rest.map joinWords)) :=
          joinWords_append [joinWords group] (rest.map joinWords)
      _ = joinTwo (joinWords group) (joinWords rest.flatten) := by rw [joinWords_singleton, ih]
      _ = joinWords (group ++ rest.flatten) := (joinWords_append group rest.flatten).symm

/-! ### The text of a value -/

/-- Every struct in the value is bound. -/
inductive AllBound : Value → Prop
  | scalar {value : Value} {kind : Kind} (hkind : value.kind? = some kind) : AllBound value
  | array {items : List Value} (hitems : ∀ item ∈ items, AllBound item) : AllBound (.array items)
  | struct {name : String} {fields : List (String × Value)}
      (hfields : ∀ field ∈ fields, AllBound field.2) : AllBound (.struct (some name) fields)

/-- In a canonical value every struct is bound. -/
theorem allBound_of_canonical {schemas : List Schema} {type : TypeExpr} {value : Value}
    (h : Canonical schemas type value) : AllBound value := by
  induction h with
  | scalar hkind => exact .scalar hkind
  | array _ _ ih => exact .array ih
  | struct _ hnames _ _ ih =>
    refine .struct fun field hfield => ?_
    obtain ⟨member, -, -, hmem⟩ := exists_mem_zip hnames hfield
    exact ih member field hmem

/-- Items that have texts have them one by one. -/
private theorem itemsAsm_eq_ok_map {items : List Value} (text : Value → String)
    (h : ∀ item ∈ items, item.asm = .ok (text item)) : itemsAsm items = .ok (items.map text) := by
  induction items with
  | nil => rfl
  | cons item rest ih =>
    rw [itemsAsm, h item (by simp), ih fun i hi => h i (by simp [hi])]
    rfl

/-- Members that have texts have them one by one. -/
private theorem fieldsAsm_eq_ok_map {fields : List (String × Value)} (text : Value → String)
    (h : ∀ field ∈ fields, field.2.asm = .ok (text field.2)) :
    fieldsAsm fields = .ok (fields.map fun field => text field.2) := by
  induction fields with
  | nil => rfl
  | cons field rest ih =>
    rw [fieldsAsm, h field (by simp), ih fun f hf => h f (by simp [hf])]
    rfl

/-- **The text of a value** is the words of its scalars with one space between them. -/
theorem asm_of_allBound {value : Value} (h : AllBound value) :
    value.asm = .ok (joinWords (value.scalars.map word)) := by
  induction h with
  | scalar hkind =>
    rw [asm_of_kind? hkind, scalars_of_kind? hkind, List.map_singleton, joinWords_singleton]
  | @array items hitems ih =>
    rw [asm, itemsAsm_eq_ok_map _ ih, scalars_array, List.map_flatMap, List.flatMap_def,
      ← joinWords_flatten, List.map_map]
    rfl
  | @struct name fields hfields ih =>
    rw [asm, fieldsAsm_eq_ok_map (fun value => joinWords (value.scalars.map word)) ih,
      scalars_struct, List.map_flatMap, List.flatMap_def, ← joinWords_flatten, List.map_map]
    rfl

/-- Every word of a value is a word. -/
theorem isWord_of_mem_words {value : Value} {word : String}
    (h : word ∈ value.scalars.map Value.word) : Text.IsWord word.toList := by
  obtain ⟨scalar, hmem, rfl⟩ := List.mem_map.1 h
  obtain ⟨kind, hkind⟩ := kind?_of_mem_scalars hmem
  exact (ofWord_word hkind).1

/-- And so is every word of named values. -/
theorem isWord_of_mem_namedWords {values : List (String × Value)} {word : String}
    (h : word ∈ values.flatMap fun value => value.2.scalars.map Value.word) :
    Text.IsWord word.toList := by
  obtain ⟨value, -, hmem⟩ := List.mem_flatMap.1 h
  exact isWord_of_mem_words hmem

end Value

end ScriptAbi
