import ScriptAbi.Contract.Basic
import ScriptAbi.Proofs.State.RoundTrip

namespace ScriptAbi

/-!
# The state of a contract

A contract that was given a state can be read back from the bytes of its script, state and all:
`readFields_script_withState`. On the way, `script_withData` says what the script of a contract
with data is: its code, a bare return, its data.
-/

/-! ### Code and data -/

/-- The word for a return stands for a bare return. -/
theorem ofAsm_return : Script.ofAsm "OP_RETURN" = .ok [.op Opcode.ret] :=
  ofAsm_of_isWord (by decide) (by decide +kernel)

/-- A return between two texts is a word of its own. -/
theorem append_return_eq (front back : String) :
    front ++ " OP_RETURN " ++ back = front ++ " " ++ ("OP_RETURN" ++ " " ++ back) := by
  rw [show " OP_RETURN " = " " ++ ("OP_RETURN" ++ " ") by decide]
  simp only [String.append_assoc]

/-- A text before a return stands for its script and a return, the data's script after it. -/
theorem ofAsm_append_return {front back : String} {code data : Script}
    (hcode : Script.ofAsm front = .ok code) (hdata : Script.ofAsm back = .ok data) :
    Script.ofAsm (front ++ " OP_RETURN " ++ back) = .ok (code ++ .op Opcode.ret :: data) := by
  rw [append_return_eq]
  exact ofAsm_append_space hcode (ofAsm_append_space ofAsm_return hdata)

/-- **The script of a contract with data** is its code, a return and the data. -/
theorem script_withData {contract : Contract} {code data : Script}
    (hcode : Script.ofAsm contract.creation.asm = .ok code)
    (hdata : Script.ofAsm data.toAsm = .ok data) :
    (contract.withData data).script = .ok (code ++ .op Opcode.ret :: data) := by
  rw [Contract.script, mapError_eq_ok_iff]
  show Script.ofAsm (Text.trimmed (contract.creation.asm ++ " OP_RETURN " ++ data.toAsm)) = _
  rw [ofAsm_trimmed]
  exact ofAsm_append_return hcode hdata

/-- A contract takes a state as data if the values have a state of that width. -/
theorem withState_eq_ok_iff {contract updated : Contract} {width : Nat} {values : List Datum} :
    contract.withState width values = .ok updated ↔
      ∃ state, encodeState width values = .ok state ∧ updated = contract.withData state := by
  rw [Contract.withState, bind_eq_ok_iff]
  constructor
  · rintro ⟨state, hstate, heq⟩
    cases heq
    exact ⟨state, hstate, rfl⟩
  · rintro ⟨state, hstate, rfl⟩
    exact ⟨state, hstate, rfl⟩

/-! ### The round trip -/

/-- **A state survives the script.** Where the code of a contract has no bare push opcode and no
    push is too long, the script of the contract with a state is the code, a return, an instruction
    for each value and the length; it is read back from its bytes, and then the fields by any layout
    with the kinds of the values are these values. -/
theorem readFields_script_withState {contract updated : Contract} {code : Script} {width : Nat}
    {values : List Datum} (hcode : Script.ofAsm contract.creation.asm = .ok code)
    (hop : ∀ op, .op op ∈ code → ¬ (0x01 ≤ op ∧ op ≤ 0x4e))
    (hcodeLength : ∀ instr ∈ code, ∀ data ∈ instr.data?, data.length < 2 ^ 32)
    (hvalueLength : ∀ value ∈ values, ∀ data ∈ value.toInstr.data?, data.length < 2 ^ 32)
    (hwidth : width < 2 ^ 32) (hstate : contract.withState width values = .ok updated) :
    ∃ script length, updated.script = .ok script
      ∧ Number.fixed? width (Script.toBytes (values.map Datum.toInstr)).length = some length
      ∧ script = code ++ .op Opcode.ret :: (values.map Datum.toInstr ++ [.ofData length])
      ∧ Script.ofHex script.toHex = .ok script
      ∧ ∀ layout : StateLayout, layout.map Prod.snd = values.map Datum.cellKind →
          ∃ fields, script.readFields layout = .ok fields
            ∧ fields.map Prod.fst = layout.map Prod.fst ∧ StateFields.values fields = values := by
  obtain ⟨state, hencoded, rfl⟩ := withState_eq_ok_iff.1 hstate
  obtain ⟨length, hlength, rfl⟩ := encodeState_eq_ok_iff.1 hencoded
  -- the state is read back from its text
  have hlegible : ∀ instr ∈ values.map Datum.toInstr ++ [.ofData length], instr.Legible := by
    intro instr hmem
    rcases List.mem_append.1 hmem with hmem | hmem
    · obtain ⟨value, -, rfl⟩ := List.mem_map.1 hmem
      exact legible_toInstr value
    · rw [List.mem_singleton.1 hmem]
      exact legible_ofData length
  have hscript := script_withData hcode (ofAsm_toAsm hlegible)
  -- and the whole script from its bytes
  have hreadable : ∀ instr ∈ code ++ .op Opcode.ret :: (values.map Datum.toInstr ++ [.ofData length]),
      instr.Readable := by
    intro instr hmem
    simp only [List.mem_append, List.mem_cons, List.mem_map, List.not_mem_nil, or_false] at hmem
    rcases hmem with hmem | rfl | ⟨value, hvalue, rfl⟩ | rfl
    · exact readable_of_mem_ofAsm hcode hop hcodeLength instr hmem
    · rfl
    · exact readable_toInstr (hvalueLength value hvalue)
    · exact readable_ofData (by rwa [Number.length_of_fixed?_eq_some hlength])
  -- no value is a return, so that the state starts after the one that was put there
  have hbody : .op Opcode.ret ∉ values.map Datum.toInstr := by
    intro hmem
    obtain ⟨value, -, heq⟩ := List.mem_map.1 hmem
    exact toInstr_ne_ret value heq
  have hcells := cells_append_ret code hbody (ofData_ne_ret length)
  refine ⟨_, length, hscript, hlength, rfl, ofHex_toHex hreadable, fun layout hkinds => ?_⟩
  have hsize : (layout.map Prod.fst).length = values.length := by
    simpa using congrArg List.length hkinds
  refine ⟨_, readFields_of_cells hcells hkinds, ?_, ?_⟩
  · exact List.map_fst_zip hsize.le
  · exact List.map_snd_zip hsize.ge

/-! A contract with a return in its code, and a state with that byte in it. -/

/-- A contract whose code has a return of its own. -/
def returningContract : Contract where
  descriptor := ⟨"", "Returning", "", [], [], "OP_DUP OP_RETURN 6a", none, 1⟩
  creation := ⟨constructorName, [], .locking, "OP_DUP OP_RETURN 6a"⟩
  data := none
  context := .empty

/-- Values of each kind, among them zero, the empty byte string and a byte that is a return. -/
def returningValues : List Datum :=
  [.bool true, .int 0, .int (-1000), .bytes [], .bytes [0x6a], .bool false]

/-- The instructions of these values, and their length. -/
def returningState : Script :=
  [.op 0x51, .push .direct [0x00], .push .direct [0xe8, 0x83], .op 0x00, .push .direct [0x6a],
    .op 0x00, .push .direct [0x0a, 0x00]]

/-- The state is read back, though the code has a return of its own and a value is the byte of
    one. -/
theorem readFields_script_returningContract :
    returningContract.withState 2 returningValues = .ok (returningContract.withData returningState)
      ∧ ∃ script, (returningContract.withData returningState).script = .ok script
        ∧ Script.ofHex script.toHex = .ok script
        ∧ ∃ fields, script.readFields [("a", .bool), ("b", .int), ("c", .int), ("d", .bytes),
            ("e", .bytes), ("f", .bool)] = .ok fields ∧ StateFields.values fields = returningValues := by
  have hcode : Script.ofAsm returningContract.creation.asm
      = .ok [.op 0x76, .op 0x6a, .push .direct [0x6a]] := by
    decide +kernel
  -- the bare opcodes of the code are none that push
  have hop : ∀ op, .op op ∈ [Instr.op 0x76, .op 0x6a, .push .direct [0x6a]] →
      ¬ (0x01 ≤ op ∧ op ≤ 0x4e) := by
    intro op hmem
    simp only [List.mem_cons, Instr.op.injEq, reduceCtorEq, List.not_mem_nil, or_false] at hmem
    rcases hmem with rfl | rfl <;> decide
  have hstate : returningContract.withState 2 returningValues
      = .ok (returningContract.withData returningState) :=
    withState_eq_ok_iff.2 ⟨returningState, by decide +kernel, rfl⟩
  obtain ⟨script, length, hscript, -, -, hhex, hfields⟩ :=
    readFields_script_withState hcode hop (by decide) (by decide +kernel) (by decide) hstate
  obtain ⟨fields, hread, -, hvalues⟩ := hfields
    [("a", .bool), ("b", .int), ("c", .int), ("d", .bytes), ("e", .bytes), ("f", .bool)] rfl
  exact ⟨hstate, script, hscript, hhex, fields, hread, hvalues⟩

end ScriptAbi
