import ScriptAbi.Proofs.Number.RoundTrip
import ScriptAbi.Proofs.Script.Words
import ScriptAbi.State.Fields

namespace ScriptAbi

/-!
# State values read back from their cells

* `Datum.cellKind`: what the cell of a value is to be read as.
* `readAs_toInstr`: the instruction of a value, read as the value's kind, is the value.
* `cells_append_ret`: the cells of a script that ends in a return, instructions that are no bare
  returns and one more.
* `readFields_of_cells`: the fields of such cells are the values under the layout's names.
-/

/-- What the cell of a value is to be read as. -/
def Datum.cellKind : Datum → CellKind
  | .bool _ => .bool
  | .int _ => .int
  | .bytes _ => .bytes

/-! ### One cell -/

/-- A push is read as the number that its data denote, and so is the opcode for no data. -/
theorem number_ofData (index : Nat) (data : Bytes) :
    Cell.number ⟨index, .ofData data⟩ = .ok (Number.decode data) := by
  unfold Instr.ofData
  split_ifs with h
  · rw [List.isEmpty_iff.1 h]
    rfl
  · rfl

/-- The numbers from one to sixteen have the opcodes from 0x51 on. -/
theorem pushedInt?_small {n : Nat} (hpos : 0 < n) (hle : n ≤ 16) :
    Opcode.pushedInt? (UInt8.ofNat (0x50 + n)) = some (n : Int) := by
  -- the sixteen opcodes one by one
  have hopcodes : ∀ m : Fin 17, m ≠ 0 →
      Opcode.pushedInt? (UInt8.ofNat (0x50 + m.val)) = some (m.val : Int) := by decide
  exact hopcodes ⟨n, by omega⟩ (by simp only [ne_eq, Fin.ext_iff, Fin.val_zero]; omega)

/-- The instruction for a number is read as that number. -/
theorem number_ofInt (index : Nat) (n : Int) : Cell.number ⟨index, .ofInt n⟩ = .ok n := by
  unfold Instr.ofInt
  split_ifs with hminus hzero hsmall
  · rw [hminus]
    rfl
  · rw [hzero]
    rfl
  · have hcode : Opcode.pushedInt? (UInt8.ofNat (0x50 + n.toNat)) = some (n.toNat : Int) :=
      pushedInt?_small (by omega) (by omega)
    simp only [Cell.number, hcode, Int.toNat_of_nonneg hsmall.1]
  · rw [number_ofData, Number.decode_minimal]

/-- No two numbers have the same word. -/
theorem ofInt_injective : Function.Injective Word.ofInt := by
  intro m n h
  have hinstr : Instr.ofInt m = Instr.ofInt n := by
    have := ofWord_ofInt m
    rw [h, ofWord_ofInt n] at this
    exact (Except.ok.inj this).symm
  have hnumber := number_ofInt 0 m
  rw [hinstr, number_ofInt] at hnumber
  exact (Except.ok.inj hnumber).symm

/-- A push is read as its data, and so is the opcode for no data. -/
theorem bytes_ofData (index : Nat) (data : Bytes) :
    Cell.bytes ⟨index, .ofData data⟩ = .ok data := by
  unfold Instr.ofData
  split_ifs with h
  · rw [List.isEmpty_iff.1 h]
    rfl
  · rfl

/-- **A value is read back from its cell.** -/
theorem readAs_toInstr (index : Nat) (value : Datum) :
    Cell.readAs ⟨index, value.toInstr⟩ value.cellKind = .ok value := by
  cases value with
  | bool b => cases b <;> rfl
  | int n =>
    show (Cell.number ⟨index, .ofData (Number.minimal n)⟩).map Datum.int = .ok (Datum.int n)
    rw [number_ofData, Number.decode_minimal]
    rfl
  | bytes data =>
    show (Cell.bytes ⟨index, .ofData data⟩).map Datum.bytes = .ok (Datum.bytes data)
    rw [bytes_ofData]
    rfl

/-! ### Instructions of a state -/

/-- What pushes data is not a return. -/
theorem ofData_ne_ret (data : Bytes) : Instr.ofData data ≠ .op Opcode.ret := by
  unfold Instr.ofData
  split_ifs
  · decide
  · simp

/-- No value is written as a bare return, whatever its bytes are. -/
theorem toInstr_ne_ret (value : Datum) : value.toInstr ≠ .op Opcode.ret := by
  cases value with
  | bool b => cases b <;> decide
  | int n => exact ofData_ne_ret _
  | bytes data => exact ofData_ne_ret data

/-- The instruction of a value is read from its word. -/
theorem legible_toInstr (value : Datum) : value.toInstr.Legible := by
  cases value with
  | bool b => cases b <;> exact ⟨by decide, by decide +kernel⟩
  | int n => exact legible_ofData _
  | bytes data => exact legible_ofData data

/-- The instruction of a value is told by its bytes, unless the value is too long. -/
theorem readable_toInstr {value : Datum}
    (h : ∀ data ∈ value.toInstr.data?, data.length < 2 ^ 32) : value.toInstr.Readable := by
  cases value with
  | bool b => cases b <;> rfl
  | int n => exact readable_ofData_of_data? h
  | bytes data => exact readable_ofData_of_data? h

/-! ### Where the state starts -/

/-- Where there is no return there is no last one. -/
theorem lastReturn?_eq_none {script : Script} (h : .op Opcode.ret ∉ script) :
    script.lastReturn? = none := by
  induction script with
  | nil => rfl
  | cons instr rest ih =>
    obtain ⟨hfirst, hrest⟩ := not_or.1 fun hmem => h (List.mem_cons.2 hmem)
    rw [Script.lastReturn?, ih hrest]
    exact if_neg (Ne.symm hfirst)

/-- After the last return stands no other. -/
theorem lastReturn?_append_ret (code : Script) {data : Script} (h : .op Opcode.ret ∉ data) :
    Script.lastReturn? (code ++ .op Opcode.ret :: data) = some code.length := by
  induction code with
  | nil => simp [Script.lastReturn?, lastReturn?_eq_none h]
  | cons instr rest ih => simp [Script.lastReturn?, ih]

/-- The state stands after the last return and before the last instruction. -/
theorem cells_append_ret (code : Script) {body : Script} {last : Instr}
    (hbody : .op Opcode.ret ∉ body) (hlast : last ≠ .op Opcode.ret) :
    Script.cells (code ++ .op Opcode.ret :: (body ++ [last]))
      = body.mapIdx fun index instr => ⟨index, instr⟩ := by
  -- the last instruction is left out, but the last return is looked for with it
  have hdata : .op Opcode.ret ∉ body ++ [last] := by
    simp [hbody, Ne.symm hlast]
  have hinit : (code ++ .op Opcode.ret :: (body ++ [last])).dropLast
      = code ++ .op Opcode.ret :: body := by
    rw [← List.cons_append, ← List.append_assoc, List.dropLast_concat]
  have hlength : code.length < (code ++ .op Opcode.ret :: body).length := by simp
  have hdrop : (code ++ .op Opcode.ret :: body).drop (code.length + 1) = body := by
    simp [← List.drop_drop]
  simp only [Script.cells, lastReturn?_append_ret code hdata, hinit, hlength, if_true, hdrop]

/-! ### All cells -/

/-- Cells are read by position, whatever their own positions are. -/
theorem mapM_readField {layout : StateLayout} {values : List Datum}
    (h : layout.map Prod.snd = values.map Datum.cellKind) (position : Nat → Nat) :
    (layout.zip ((values.map Datum.toInstr).mapIdx fun i instr => Cell.mk (position i) instr)).mapM
        (fun (field, cell) => cell.readField field)
      = .ok ((layout.map Prod.fst).zip values) := by
  -- along the layout; a cell's own position moves on with each field
  induction layout generalizing values position with
  | nil =>
    obtain rfl : values = [] := by simpa using h.symm
    rfl
  | cons field layout ih =>
    cases values with
    | nil => simp at h
    | cons value values =>
      obtain ⟨name, kind⟩ := field
      simp only [List.map_cons, List.cons.injEq] at h
      obtain ⟨rfl, hrest⟩ := h
      have hfirst : Cell.readField (name, value.cellKind) ⟨position 0, value.toInstr⟩
          = .ok (name, value) := by
        rw [Cell.readField, readAs_toInstr]
        rfl
      simp only [List.map_cons, List.mapIdx_cons, List.zip_cons_cons, List.mapM_cons, hfirst,
        ih hrest fun i => position (i + 1)]
      rfl

/-- The fields of a script that keeps the given values are these values, under the names of any
    layout with their kinds. -/
theorem readFields_of_cells {script : Script} {values : List Datum} {layout : StateLayout}
    (hcells : script.cells = (values.map Datum.toInstr).mapIdx fun index instr => ⟨index, instr⟩)
    (hkinds : layout.map Prod.snd = values.map Datum.cellKind) :
    script.readFields layout = .ok ((layout.map Prod.fst).zip values) := by
  rw [Script.readFields, hcells]
  exact mapM_readField hkinds id

/-! ### The encoded state -/

/-- A state is the instructions of the values and a push of their length. -/
theorem encodeState_eq_ok_iff {width : Nat} {values : List Datum} {state : Script} :
    encodeState width values = .ok state ↔
      ∃ length, Number.fixed? width (Script.toBytes (values.map Datum.toInstr)).length = some length
        ∧ state = values.map Datum.toInstr ++ [.ofData length] := by
  rw [encodeState, bind_eq_ok_iff]
  constructor
  · rintro ⟨length, hlength, heq⟩
    unfold Number.encodeFixed at hlength
    split at hlength
    · cases hlength
      cases heq
      exact ⟨_, ‹_›, rfl⟩
    · contradiction
  · rintro ⟨length, hlength, rfl⟩
    exact ⟨length, by rw [Number.encodeFixed, hlength], rfl⟩

end ScriptAbi
