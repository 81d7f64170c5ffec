import ScriptAbi.Proofs.State.RoundTrip

namespace ScriptAbi

/-!
# State read by position

A layout is read against the cells of a script, field by field. Which cells can be read and what
they hold is said about their instructions, without the reading.

* `Instr.Suits`: the instruction can be read as a kind; `Instr.Holds`: and what it holds then.
* `readAs_eq_ok_iff`, `readAs_eq_error_iff`: a cell is read if its instruction suits the kind, as
  what this holds.
* `FieldAt`: the field and the instruction that stand at a position, where there are both.
* `readFields_iff_fieldAt`: reading gives a field for each position at which there are both, or the
  error of the first one at which the instruction does not suit the kind.
-/

/-! ### What an instruction holds -/

/-- The instruction can be read as the kind: it pushes data, which every kind allows for, or is the
    opcode of the empty string or, for numbers and truth values, of a number. -/
def Instr.Suits : Instr → CellKind → Prop
  | .push _ _, _ => True
  | .op code, .bytes => code = Opcode.zero
  | .op code, _ =>
    code = Opcode.zero ∨ code = Opcode.minusOne ∨ Opcode.one ≤ code ∧ code ≤ Opcode.sixteen

/-- The instruction pushes the number: as data, or by an opcode if it is one from -1 to 16. -/
inductive Instr.HoldsNumber : Instr → Int → Prop
  | data (form : PushForm) (data : Bytes) : HoldsNumber (.push form data) (Number.decode data)
  | zero : HoldsNumber (.op Opcode.zero) 0
  | minusOne : HoldsNumber (.op Opcode.minusOne) (-1)
  | small {n : Nat} (hpos : 0 < n) (hle : n ≤ 16) : HoldsNumber (.op (UInt8.ofNat (0x50 + n))) n

/-- The instruction pushes the bytes: as data, or by the opcode of the empty string. -/
inductive Instr.HoldsBytes : Instr → Bytes → Prop
  | data (form : PushForm) (data : Bytes) : HoldsBytes (.push form data) data
  | empty : HoldsBytes (.op Opcode.zero) []

/-- What the instruction holds as a value of the kind. A truth value is false if the number is
    zero. -/
def Instr.Holds (instr : Instr) : CellKind → Datum → Prop
  | .bool, .bool b => ∃ n, instr.HoldsNumber n ∧ (n != 0) = b
  | .int, .int n => instr.HoldsNumber n
  | .bytes, .bytes data => instr.HoldsBytes data
  | _, _ => False

/-- The view that a cell lacks if it cannot be read as the kind. -/
def CellKind.view : CellKind → CellView
  | .bytes => .bytes
  | _ => .number

/-! ### One cell -/

/-- The opcodes that push a number are those of -1 and of 0 to 16. -/
theorem pushedInt?_eq_none_iff {code : Opcode} :
    Opcode.pushedInt? code = none ↔ ¬ (Instr.op code).Suits .int := by
  unfold Opcode.pushedInt? Instr.Suits
  split_ifs with hzero hminus hsmall
  · simp [hzero]
  · simp [hminus]
  · simp [hsmall]
  · simp [hzero, hminus, hsmall]

/-- The opcodes that push a number are those that hold one. -/
theorem pushedInt?_eq_some_iff {code : Opcode} {n : Int} :
    Opcode.pushedInt? code = some n ↔ (Instr.op code).HoldsNumber n := by
  constructor
  · intro h
    have hpushed := h
    unfold Opcode.pushedInt? at h
    split_ifs at h with hzero hminus hsmall
    · cases h
      exact hzero ▸ .zero
    · cases h
      exact hminus ▸ .minusOne
    · -- the opcodes of the small numbers follow each other, so the number is an offset
      have hlow : 0x51 ≤ code.toNat := UInt8.le_iff_toNat_le.1 hsmall.1
      have hhigh : code.toNat ≤ 0x60 := UInt8.le_iff_toNat_le.1 hsmall.2
      obtain ⟨m, hpos, hle, rfl⟩ : ∃ m, 0 < m ∧ m ≤ 16 ∧ code = UInt8.ofNat (0x50 + m) := by
        refine ⟨code.toNat - 0x50, by omega, by omega, ?_⟩
        rw [show 0x50 + (code.toNat - 0x50) = code.toNat by omega, UInt8.ofNat_toNat]
      rw [pushedInt?_small hpos hle, Option.some.injEq] at hpushed
      exact hpushed ▸ .small hpos hle
  · intro h
    cases h with
    | zero | minusOne => rfl
    | small hpos hle => exact pushedInt?_small hpos hle

/-- A cell is a number iff its instruction holds one. -/
theorem number_eq_ok_iff {cell : Cell} {n : Int} :
    cell.number = .ok n ↔ cell.instr.HoldsNumber n := by
  obtain ⟨index, instr⟩ := cell
  cases instr with
  | push form data =>
    constructor
    · rintro ⟨⟩
      exact .data form data
    · rintro ⟨⟩
      rfl
  -- a number without data is one the opcode stands for
  | op code =>
    rw [← pushedInt?_eq_some_iff]
    unfold Cell.number
    dsimp only
    split <;> simp_all

/-- A cell is not read as a number iff its instruction does not suit one. -/
theorem number_eq_error_iff {cell : Cell} {e : ContractError} :
    cell.number = .error e ↔ ¬ cell.instr.Suits .int ∧ e = .unreadableCell cell.index .number := by
  obtain ⟨index, instr⟩ := cell
  cases instr with
  | push form data => simp [Cell.number, Instr.Suits]
  | op code =>
    rw [← pushedInt?_eq_none_iff]
    unfold Cell.number
    cases hpushed : Opcode.pushedInt? code <;> simp [hpushed, eq_comm]

/-- A cell is a byte string iff its instruction holds one. -/
theorem bytes_eq_ok_iff {cell : Cell} {data : Bytes} :
    cell.bytes = .ok data ↔ cell.instr.HoldsBytes data := by
  obtain ⟨index, instr⟩ := cell
  cases instr with
  | push form data =>
    constructor
    · rintro ⟨⟩
      exact .data form data
    · rintro ⟨⟩
      rfl
  | op code =>
    simp only [Cell.bytes]
    split_ifs with hzero
    · subst hzero
      constructor
      · rintro ⟨⟩
        exact .empty
      · rintro ⟨⟩
        rfl
    · refine ⟨nofun, ?_⟩
      rintro ⟨⟩
      contradiction

/-- A cell is not read as bytes iff its instruction does not suit any. -/
theorem bytes_eq_error_iff {cell : Cell} {e : ContractError} :
    cell.bytes = .error e ↔ ¬ cell.instr.Suits .bytes ∧ e = .unreadableCell cell.index .bytes := by
  obtain ⟨index, instr⟩ := cell
  cases instr with
  | push form data => simp [Cell.bytes, Instr.Suits]
  | op code =>
    simp only [Cell.bytes, Instr.Suits]
    split_ifs with hzero <;> simp [hzero, eq_comm]

/-- **A cell is read** as what its instruction holds. -/
theorem readAs_eq_ok_iff {cell : Cell} {kind : CellKind} {value : Datum} :
    cell.readAs kind = .ok value ↔ cell.instr.Holds kind value := by
  cases kind <;> cases value <;>
    simp [Cell.readAs, Cell.truth, Instr.Holds, map_eq_ok_iff, number_eq_ok_iff, bytes_eq_ok_iff]

/-- **A cell is not read** iff its instruction does not suit the kind. -/
theorem readAs_eq_error_iff {cell : Cell} {kind : CellKind} {e : ContractError} :
    cell.readAs kind = .error e ↔
      ¬ cell.instr.Suits kind ∧ e = .unreadableCell cell.index kind.view := by
  cases kind with
  | bool =>
    have hsame : cell.instr.Suits .bool ↔ cell.instr.Suits .int := by
      cases cell.instr <;> exact Iff.rfl
    rw [Cell.readAs, Cell.truth, map_eq_error_iff, map_eq_error_iff, number_eq_error_iff, hsame,
      CellKind.view]
    simp
  | int =>
    rw [Cell.readAs, map_eq_error_iff, number_eq_error_iff, CellKind.view]
    simp
  | bytes => rw [Cell.readAs, map_eq_error_iff, bytes_eq_error_iff, CellKind.view]

/-- A field is read as what its cell holds, under the name in the layout. -/
theorem readField_eq_ok_iff {field : String × CellKind} {cell : Cell} {named : String × Datum} :
    cell.readField field = .ok named ↔
      ∃ value, named = (field.1, value) ∧ cell.instr.Holds field.2 value := by
  simp only [Cell.readField, bind_eq_ok_iff, mapError_eq_ok_iff, readAs_eq_ok_iff]
  constructor
  · rintro ⟨value, hvalue, heq⟩
    cases heq
    exact ⟨value, rfl, hvalue⟩
  · rintro ⟨value, rfl, hvalue⟩
    exact ⟨value, hvalue, rfl⟩

/-- The error names the field and the position of the cell. -/
theorem readField_eq_error_iff {field : String × CellKind} {cell : Cell} {e : ContractError} :
    cell.readField field = .error e ↔
      ¬ cell.instr.Suits field.2
        ∧ e = .within field.1 (.unreadableCell cell.index field.2.view) := by
  simp only [Cell.readField, bind_eq_error_iff, mapError_eq_error_iff, readAs_eq_error_iff]
  constructor
  · rintro (⟨_, ⟨hnot, rfl⟩, rfl⟩ | ⟨_, -, hpure⟩)
    · exact ⟨hnot, rfl⟩
    · cases hpure
  · rintro ⟨hnot, rfl⟩
    exact .inl ⟨_, ⟨hnot, rfl⟩, rfl⟩

/-- A field is read iff the cell's instruction suits its kind. -/
theorem exists_readField_iff {field : String × CellKind} {cell : Cell} :
    (∃ named, cell.readField field = .ok named) ↔ cell.instr.Suits field.2 := by
  cases h : cell.readField field with
  | error e => simp [(readField_eq_error_iff.1 h).1]
  | ok named =>
    have hsuits : cell.instr.Suits field.2 := by
      by_contra hnot
      rw [readField_eq_error_iff.2 ⟨hnot, rfl⟩] at h
      contradiction
    simp [hsuits]

/-! ### All positions -/

/-- At the position stand the field, in the layout, and the instruction, in the script's state. -/
def FieldAt (script : Script) (layout : StateLayout) (i : Nat) (field : String × CellKind)
    (instr : Instr) : Prop :=
  layout[i]? = some field ∧ script.cells[i]? = some ⟨i, instr⟩

variable {script : Script} {layout : StateLayout}

/-- Cells are numbered by their positions. -/
theorem index_of_getElem?_cells {i : Nat} {cell : Cell} (h : script.cells[i]? = some cell) :
    cell.index = i := by
  simp only [Script.cells, List.getElem?_mapIdx, Option.map_eq_some_iff] at h
  obtain ⟨instr, -, rfl⟩ := h
  rfl

/-- What is read at a position is the field there and the cell of the instruction there. -/
theorem getElem?_zip_cells {i : Nat} {pair : (String × CellKind) × Cell} :
    (layout.zip script.cells)[i]? = some pair ↔
      FieldAt script layout i pair.1 pair.2.instr ∧ pair.2.index = i := by
  obtain ⟨field, index, instr⟩ := pair
  rw [List.getElem?_zip_eq_some, FieldAt]
  constructor
  · rintro ⟨hfield, hcell⟩
    obtain rfl : index = i := index_of_getElem?_cells hcell
    exact ⟨⟨hfield, hcell⟩, rfl⟩
  · rintro ⟨⟨hfield, hcell⟩, rfl⟩
    exact ⟨hfield, hcell⟩

/-- **What is read** is a field for each position at which there are both, with what the instruction
    there holds. -/
theorem readFields_eq_ok_iff {fields : StateFields} :
    script.readFields layout = .ok fields ↔
      fields.length = min layout.length script.cells.length
        ∧ ∀ i field instr, FieldAt script layout i field instr →
          ∃ value, fields[i]? = some (field.1, value) ∧ instr.Holds field.2 value := by
  rw [Script.readFields, mapM_eq_ok_iff_getElem?, List.length_zip]
  simp only [getElem?_zip_cells, readField_eq_ok_iff]
  refine and_congr_right fun _ => ⟨fun h i field instr hat => ?_, fun h i pair hat => ?_⟩
  · obtain ⟨_, hfield, value, rfl, hholds⟩ := h i (field, ⟨i, instr⟩) ⟨hat, rfl⟩
    exact ⟨value, hfield, hholds⟩
  · obtain ⟨value, hfield, hholds⟩ := h i pair.1 pair.2.instr hat.1
    exact ⟨_, hfield, value, rfl, hholds⟩

/-- **The error** is that of the first position at which the instruction does not suit the kind. -/
theorem readFields_eq_error_iff {e : ContractError} :
    script.readFields layout = .error e ↔
      ∃ i field instr, FieldAt script layout i field instr ∧ ¬ instr.Suits field.2
        ∧ (∀ j < i, ∀ field instr, FieldAt script layout j field instr → instr.Suits field.2)
        ∧ e = .within field.1 (.unreadableCell i field.2.view) := by
  rw [Script.readFields, mapM_eq_error_iff_getElem?]
  simp only [getElem?_zip_cells, readField_eq_error_iff, exists_readField_iff]
  constructor
  · rintro ⟨i, ⟨field, cell⟩, ⟨hat, rfl⟩, hbefore, hnot, rfl⟩
    refine ⟨_, field, cell.instr, hat, hnot, fun j hj field instr hat => ?_, rfl⟩
    exact hbefore j hj (field, ⟨j, instr⟩) ⟨hat, rfl⟩
  · rintro ⟨i, field, instr, hat, hnot, hbefore, rfl⟩
    refine ⟨i, (field, ⟨i, instr⟩), ⟨hat, rfl⟩, fun j hj pair hat => ?_, hnot, rfl⟩
    exact hbefore j hj _ _ hat.1

/-- **Fields are read** iff the instruction at each position suits the kind there. -/
theorem exists_readFields_iff :
    (∃ fields, script.readFields layout = .ok fields) ↔
      ∀ i field instr, FieldAt script layout i field instr → instr.Suits field.2 := by
  constructor
  · rintro ⟨fields, h⟩ i field instr hat
    obtain ⟨named, -, hread⟩ :=
      (mapM_eq_ok_iff_getElem?.1 h).2 i (field, ⟨i, instr⟩) (getElem?_zip_cells.2 ⟨hat, rfl⟩)
    exact exists_readField_iff.1 ⟨named, hread⟩
  · intro hsuits
    cases h : script.readFields layout with
    | ok fields => exact ⟨fields, rfl⟩
    | error e =>
      obtain ⟨i, field, instr, hat, hnot, -⟩ := readFields_eq_error_iff.1 h
      exact absurd (hsuits i field instr hat) hnot

/-- What stands beside the front of a list stands there when the list goes on. -/
theorem zip_prefix_zip_append {α β : Type} (front more : List α) (others : List β) :
    front.zip others <+: (front ++ more).zip others := by
  induction front generalizing others with
  | nil => exact List.nil_prefix
  | cons first front ih =>
    cases others with
    | nil => exact List.prefix_rfl
    | cons other others => simpa using ih others

/-- **A layout that goes on** adds fields after those that it had. -/
theorem prefix_of_readFields_append {more : StateLayout} {fields fields' : StateFields}
    (h : script.readFields layout = .ok fields)
    (h' : script.readFields (layout ++ more) = .ok fields') : fields <+: fields' := by
  obtain ⟨rest, hrest⟩ := zip_prefix_zip_append layout more script.cells
  rw [Script.readFields, ← hrest, mapM_append_eq_ok_iff] at h'
  obtain ⟨front, back, hfront, -, rfl⟩ := h'
  obtain rfl : fields = front := Except.ok.inj (h.symm.trans hfront)
  exact List.prefix_append fields back

/-- **Fields are read by position.** There are as many as the shorter of the layout and the cells
    has, if the instruction at each position suits the kind there, and then each has the name that
    the layout has at its position and what the instruction there holds. If not, the error is that of
    the first position at which the instruction does not suit the kind, under the name there. So a
    layout that goes on, if it is read as well, adds fields after the others. -/
theorem readFields_iff_fieldAt (script : Script) (layout : StateLayout) :
    ((∃ fields, script.readFields layout = .ok fields) ↔
        ∀ i field instr, FieldAt script layout i field instr → instr.Suits field.2)
      ∧ (∀ fields, script.readFields layout = .ok fields ↔
        fields.length = min layout.length script.cells.length
          ∧ ∀ i field instr, FieldAt script layout i field instr →
            ∃ value, fields[i]? = some (field.1, value) ∧ instr.Holds field.2 value)
      ∧ (∀ e, script.readFields layout = .error e ↔
        ∃ i field instr, FieldAt script layout i field instr ∧ ¬ instr.Suits field.2
          ∧ (∀ j < i, ∀ field instr, FieldAt script layout j field instr → instr.Suits field.2)
          ∧ e = .within field.1 (.unreadableCell i field.2.view))
      ∧ ∀ more fields fields', script.readFields layout = .ok fields →
        script.readFields (layout ++ more) = .ok fields' → fields <+: fields' :=
  ⟨exists_readFields_iff, fun _ => readFields_eq_ok_iff, fun _ => readFields_eq_error_iff,
    fun _ _ _ => prefix_of_readFields_append⟩

/-! A state of an empty string, a number and an opcode that is neither. -/

/-- A return, the three cells and the length push. -/
def mixedState : Script :=
  [.op Opcode.ret, .op Opcode.zero, .push .direct [0x2a], .op 0x76, .push .direct [0x04, 0x00]]

/-- One more field leaves those before it as they were. The opcode at the third position does not
    suit the field there, which is the one that fails. -/
theorem readFields_iff_fieldAt_mixedState :
    mixedState.readFields [("owner", .bytes)] = .ok [("owner", .bytes [])]
      ∧ mixedState.readFields ([("owner", .bytes)] ++ [("count", .int)])
        = .ok [("owner", .bytes []), ("count", .int 42)]
      ∧ [("owner", Datum.bytes [])] <+: [("owner", .bytes []), ("count", .int 42)]
      ∧ ∃ i field instr, FieldAt mixedState [("owner", .bytes), ("count", .int), ("open", .bool)] i
          field instr ∧ ¬ instr.Suits field.2 ∧ field.1 = "open" ∧ i = 2 := by
  have hshort : mixedState.readFields [("owner", .bytes)] = .ok [("owner", .bytes [])] := rfl
  have hlong : mixedState.readFields ([("owner", .bytes)] ++ [("count", .int)])
      = .ok [("owner", .bytes []), ("count", .int 42)] := rfl
  have hfails : mixedState.readFields [("owner", .bytes), ("count", .int), ("open", .bool)]
      = .error (.within "open" (.unreadableCell 2 .number)) := rfl
  obtain ⟨-, -, -, hprefix⟩ := readFields_iff_fieldAt mixedState [("owner", .bytes)]
  obtain ⟨-, -, herror, -⟩ :=
    readFields_iff_fieldAt mixedState [("owner", .bytes), ("count", .int), ("open", .bool)]
  obtain ⟨i, field, instr, hat, hnot, -, heq⟩ := (herror _).1 hfails
  obtain ⟨hname, hcell⟩ := ContractError.within.inj heq
  obtain ⟨hi, -⟩ := ContractError.unreadableCell.inj hcell
  exact ⟨hshort, hlong, hprefix _ _ _ hshort hlong, i, field, instr, hat, hnot, hname.symm, hi.symm⟩

end ScriptAbi
