import ScriptAbi.Proofs.Literal.RoundTrip
import ScriptAbi.Proofs.Value.Words

namespace ScriptAbi

/-!
# Scalars, their words and their literals

* `Instr.Carries`: what a state cell finds in an instruction is what the scalar holds.
* `ofAsm_asm_of_scalar`: the text of a scalar is one word, which stands for one instruction, which
  carries the scalar.
* `Form.word?`: the word of a literal, from the digits that are written.
* `asm_of_ofText`: a text that is read as a literal denotes a scalar of the literal's kind, and the
  word of the text, of the literal and of the scalar are the same.
-/

/-! ### What an instruction carries -/

/-- The instruction carries the scalar: as a state cell it is read as what the scalar holds. A truth
    value is the number one or zero, and a signature flag is the push of its one byte. -/
def Instr.Carries (instr : Instr) : Value → Prop
  | .bool b => ∀ index, Cell.number ⟨index, instr⟩ = .ok (if b then 1 else 0)
  | .int n | .privKey n => ∀ index, Cell.number ⟨index, instr⟩ = .ok n
  | .sigHashType flag => instr = .push .direct [flag]
  | .bytes _ data => ∀ index, Cell.bytes ⟨index, instr⟩ = .ok data
  | .struct _ _ | .array _ => False

/-- **The word of a scalar** stands for an instruction that carries the scalar. -/
theorem exists_carries_of_kind? {value : Value} {kind : Kind} (h : value.kind? = some kind) :
    ∃ instr, Instr.ofWord value.word = .ok instr ∧ instr.Carries value := by
  cases value with
  | bool b =>
    cases b
    · exact ⟨.op Opcode.zero, by decide +kernel, fun _ => rfl⟩
    · exact ⟨.op Opcode.one, by decide +kernel, fun _ => rfl⟩
  | int n => exact ⟨.ofInt n, ofWord_ofInt n, fun index => number_ofInt index n⟩
  | privKey n => exact ⟨.ofInt n, ofWord_ofInt n, fun index => number_ofInt index n⟩
  | sigHashType flag => exact ⟨.ofData [flag], ofWord_encode (by simp), rfl⟩
  | bytes kind data =>
    exact ⟨.ofData data, ofWord_ofBytes data, fun index => bytes_ofData index data⟩
  | struct | array => cases h

/-- **A scalar is one word in a text and one instruction in a script**, and the instruction carries
    the scalar. -/
theorem ofAsm_asm_of_scalar {value : Value} {kind : Kind} (h : value.kind? = some kind) :
    ∃ word instr, value.asm = .ok word ∧ Text.IsWord word.toList
      ∧ Script.ofAsm word = .ok [instr] ∧ instr.Carries value := by
  obtain ⟨instr, hinstr, hcarries⟩ := exists_carries_of_kind? h
  have hword : Text.IsWord value.word.toList := (Value.ofWord_word h).1
  exact ⟨value.word, instr, Value.asm_of_kind? h, hword, ofAsm_of_isWord hword hinstr, hcarries⟩

/-- A flag is pushed as it is, also where the number has an opcode. -/
theorem ofAsm_asm_of_scalar_five :
    (Value.sigHashType 0x05).kind? = some .sigHashType
      ∧ (Value.sigHashType 0x05).asm = .ok "05"
      ∧ Script.ofAsm "05" = .ok [.push .direct [0x05]]
      ∧ (Value.int 5).kind? = some .int ∧ (Value.int 5).asm = .ok "OP_5"
      ∧ ∃ instr, Script.ofAsm "OP_5" = .ok [instr] ∧ Cell.number ⟨0, instr⟩ = .ok 5 := by
  have hflag : (Value.sigHashType 0x05).kind? = some .sigHashType := rfl
  have hflagAsm : (Value.sigHashType 0x05).asm = .ok "05" := rfl
  have hint : (Value.int 5).kind? = some .int := rfl
  have hintAsm : (Value.int 5).asm = .ok "OP_5" := rfl
  -- the word of each is the one that was computed
  obtain ⟨word, instr, hword, -, hread, rfl⟩ := ofAsm_asm_of_scalar hflag
  obtain rfl : "05" = word := Except.ok.inj (hflagAsm.symm.trans hword)
  obtain ⟨word, instr, hword, -, hread', hcarries⟩ := ofAsm_asm_of_scalar hint
  obtain rfl : "OP_5" = word := Except.ok.inj (hintAsm.symm.trans hword)
  exact ⟨hflag, hflagAsm, hread, hint, hintAsm, instr, hread', hcarries 0⟩

/-! ### The word of a literal -/

/-- What a literal stands for has the literal's word. -/
theorem asm_of_ofLiteral {literal : Literal} {value : Value}
    (h : Value.ofLiteral literal = .ok value) : value.asm = .ok literal.asm := by
  cases ofLiteral_eq_ok_iff.1 h with
  | sigHashType flag => simp [Value.asm, Literal.asm]
  | _ => rfl

/-- The literal of a text stands for a scalar: its datum is one that its kind can hold. -/
theorem exists_ofLiteral_of_written {cs : List Char} {kind : Kind} {datum : Datum}
    (h : WrittenLiteral cs kind datum) : ∃ value, Value.ofLiteral ⟨kind, datum⟩ = .ok value := by
  cases h with
  | sigHashType => exact ⟨_, ofLiteral_eq_ok_iff.2 (.sigHashType _)⟩
  | _ => exact ⟨_, rfl⟩

/-- The word that a literal has in a script, straight from the digits that are written. -/
def Form.word? : Form → Option String
  | .bool b => some (Word.ofBool b)
  | .int numeral => some (Word.ofInt numeral.value)
  | .privKey numeral => some (Word.ofInt numeral.value)
  | .bytes digits => (Hex.decode? digits).map Word.ofBytes
  -- a flag is one byte, and its word is that of the byte even where the number has an opcode
  | .tagged .sigHashType digits =>
    match Hex.decode? digits with
    | some [flag] => some (Hex.encode [flag])
    | _ => none
  | .tagged _ digits => (Hex.decode? digits).map Word.ofBytes

/-- The word of what a form comes to is the one that its digits give. -/
theorem word?_of_literal {source : String} {form : Form} (hvalid : form.IsValid) {literal : Literal}
    (h : form.literal source = .ok literal) : form.word? = some literal.asm := by
  cases form with
  | bool b =>
    cases h
    rfl
  | int numeral =>
    cases h
    rfl
  | privKey numeral =>
    cases h
    rfl
  | bytes digits =>
    -- the digits are the bytes of the word
    obtain ⟨data, hdata, rfl⟩ := Form.literal_bytes_eq_ok_iff.1 h
    rw [Form.word?, writtenBytes_iff.1 hdata]
    rfl
  | tagged kind digits =>
    obtain rfl | ⟨k, -, rfl⟩ := mem_taggedKinds_iff.1 hvalid.1
    · obtain ⟨flag, hdata, rfl⟩ := Form.literal_sigHashType_eq_ok_iff.1 h
      simp [Form.word?, writtenBytes_iff.1 hdata, Literal.asm]
    · obtain ⟨data, hdata, rfl⟩ := Form.literal_tagged_eq_ok_iff.1 h
      rw [Form.word?, writtenBytes_iff.1 hdata]
      · rfl
      · simp

/-- **The word of a text, of its literal and of its value are the same.** A text that is read as a
    literal denotes a scalar of the kind that it is written as. -/
theorem asm_of_ofText {text : String} {literal : Literal} (h : Literal.ofText text = .ok literal) :
    ∃ form value, Form.read (Text.trimmed text).toList = .ok form
      ∧ form.word? = some literal.asm
      ∧ Value.ofLiteral literal = .ok value ∧ value.kind? = some literal.kind
      ∧ value.typeName = literal.kind.name ∧ value.asm = .ok literal.asm := by
  obtain ⟨value, hvalue⟩ := exists_ofLiteral_of_written (Literal.ofText_eq_ok_iff.1 h)
  have hkind := kind?_of_ofLiteral hvalue
  rw [Literal.ofText] at h
  split at h
  · rename_i form hread
    exact ⟨form, value, hread, word?_of_literal (Form.isValid_of_read hread).1 h, hvalue, hkind,
      typeName_of_kind? hkind, asm_of_ofLiteral hvalue⟩
  · contradiction

/-- A flag above the small numbers, in capital digits and with blanks around it. -/
theorem asm_of_ofText_flag :
    Literal.ofText " SigHashType(b'C1')" = .ok ⟨.sigHashType, .int 193⟩
      ∧ ∃ value : Value, value.kind? = some .sigHashType ∧ value.typeName = "SigHashType"
        ∧ value.asm = .ok "c1" := by
  have hread : Literal.ofText " SigHashType(b'C1')" = .ok ⟨.sigHashType, .int 193⟩ := rfl
  obtain ⟨form, value, -, -, -, hkind, hname, hasm⟩ := asm_of_ofText hread
  exact ⟨hread, value, hkind, hname, hasm⟩

end ScriptAbi
