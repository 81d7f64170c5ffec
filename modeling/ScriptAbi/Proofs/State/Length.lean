import ScriptAbi.Proofs.Number.Fixed
import ScriptAbi.Proofs.State.RoundTrip

namespace ScriptAbi

/-!
# The length of a state

A state ends in a push of the number of bytes that its values take.

* `pushedBytes`, `Datum.stateBytes`: the bytes of a push and of a value, written out.
* `pushSize`, `Datum.stateSize`: how many they are (`length_stateBytes`).
* `toBytes_toInstr`: these are the bytes of the instruction of a value.
* `Number.ofLittleEndian_of_fixed?`: the bytes of a natural number in a width denote it also
  without a sign.
* `exists_encodeState_iff`, `exists_field_of_encodeState`: when there is a state, and what it is.
* `encodeState_eq_ok_iff_size`: values have a state in a width iff the number of their bytes leaves
  the top bit of the width free; the bytes of the state are theirs and the push of that number.
-/

/-! ### Bytes and sizes -/

/-- The bytes in front of pushed data, which tell its length. -/
def pushHeader (length : Nat) : Bytes :=
  if length ≤ 75 then [UInt8.ofNat length]
  else if length ≤ 255 then [0x4c, UInt8.ofNat length]
  else if length ≤ 65535 then 0x4d :: littleEndianOf 2 length
  else 0x4e :: littleEndianOf 4 length

/-- The bytes of a push. That of no data is one zero byte. -/
def pushedBytes (data : Bytes) : Bytes := pushHeader data.length ++ data

/-- The number of bytes of a push. -/
def pushSize (length : Nat) : Nat :=
  length + if length ≤ 75 then 1 else if length ≤ 255 then 2 else if length ≤ 65535 then 3 else 5

/-- The bytes of a value in a state. Truth values have opcodes, and all else is pushed. -/
def Datum.stateBytes : Datum → Bytes
  | .bool b => [if b then 0x51 else 0x00]
  | .int n => pushedBytes (Number.minimal n)
  | .bytes data => pushedBytes data

/-- The number of bytes of a value in a state. -/
def Datum.stateSize : Datum → Nat
  | .bool _ => 1
  | .int n => pushSize (Number.minimal n).length
  | .bytes data => pushSize data.length

/-- A push takes its opcode, the bytes for its length and the data. -/
theorem length_pushedBytes (data : Bytes) : (pushedBytes data).length = pushSize data.length := by
  unfold pushedBytes pushHeader pushSize
  rw [List.length_append, Nat.add_comm]
  split_ifs <;> rfl

/-- The bytes of a value are as many as its size says. -/
theorem length_stateBytes (value : Datum) : value.stateBytes.length = value.stateSize := by
  cases value with
  | bool b => rfl
  | int n => exact length_pushedBytes _
  | bytes data => exact length_pushedBytes data

/-- The opcode of the shortest form and the length after it are what stands in front of the data. -/
theorem pushHeader_eq (length : Nat) :
    pushHeader length
      = (PushForm.shortest length).opcode length
        :: littleEndianOf (PushForm.shortest length).lengthBytes length := by
  have hdirect : length < Opcode.pushData1.toNat ↔ length ≤ 75 := Nat.lt_succ_iff
  simp only [pushHeader, PushForm.shortest, hdirect]
  split_ifs <;> rfl

/-- What pushes data has these bytes. -/
theorem toBytes_ofData (data : Bytes) : (Instr.ofData data).toBytes = pushedBytes data := by
  by_cases hempty : data.isEmpty = true
  · rw [List.isEmpty_iff.1 hempty]
    rfl
  · rw [Instr.ofData, if_neg hempty, Instr.toBytes, pushedBytes, pushHeader_eq]
    rfl

/-- **The instruction of a value** takes the bytes of the value. -/
theorem toBytes_toInstr (value : Datum) : value.toInstr.toBytes = value.stateBytes := by
  cases value with
  | bool b => cases b <;> rfl
  | int n => exact toBytes_ofData _
  | bytes data => exact toBytes_ofData data

/-- The bytes of all values are as many as the sizes add up to. -/
theorem length_flatMap_stateBytes (values : List Datum) :
    (values.flatMap Datum.stateBytes).length = (values.map Datum.stateSize).sum := by
  rw [List.length_flatMap]
  exact congrArg List.sum (List.map_congr_left fun value _ => length_stateBytes value)

/-- The instructions of values take the bytes of the values. -/
theorem toBytes_map_toInstr (values : List Datum) :
    Script.toBytes (values.map Datum.toInstr) = values.flatMap Datum.stateBytes := by
  rw [Script.toBytes, List.flatMap_map]
  exact List.flatMap_congr fun value _ => toBytes_toInstr value

/-- The bytes of values are as many as their sizes say. -/
theorem length_toBytes_map_toInstr (values : List Datum) :
    (Script.toBytes (values.map Datum.toInstr)).length = (values.map Datum.stateSize).sum := by
  rw [toBytes_map_toInstr, length_flatMap_stateBytes]

/-! ### The length of the values -/

namespace Number

/-- **A natural number needs no sign**: its bytes in a width denote it as plain digits too. -/
theorem ofLittleEndian_of_fixed? {width n : Nat} {bytes : Bytes} (h : fixed? width n = some bytes) :
    ofLittleEndian bytes = n := by
  have hpositive : ¬ (n : Int) < 0 := by omega
  unfold fixed? at h
  dsimp only at h
  rw [Int.natAbs_natCast, withSign, if_neg hpositive] at h
  split at h
  · cases h
    rw [ofLittleEndian_append_replicate, ofLittleEndian_magnitude]
  · contradiction

/-- A number out of the range of a width is an error that names both. -/
theorem encodeFixed_of_not_inRange {width : Nat} {n : Int} (h : ¬ InRange width n) :
    encodeFixed width n = .error (.overflow n width) := by
  have hnone : fixed? width n = none :=
    Option.eq_none_iff_forall_ne_some.2 fun bytes hbytes => h (exists_fixed?_iff.1 ⟨bytes, hbytes⟩)
  rw [encodeFixed, hnone]

end Number

/-- The values have a state iff the number of their bytes is in the range of the width. -/
theorem exists_encodeState_iff {width : Nat} {values : List Datum} :
    (∃ state, encodeState width values = .ok state) ↔
      Number.InRange width (values.map Datum.stateSize).sum := by
  rw [← Number.exists_fixed?_iff]
  simp only [encodeState_eq_ok_iff, length_toBytes_map_toInstr]
  constructor
  · rintro ⟨_, field, hfield, -⟩
    exact ⟨field, hfield⟩
  · rintro ⟨field, hfield⟩
    exact ⟨_, field, hfield, rfl⟩

/-- Otherwise that number is what does not fit. -/
theorem encodeState_of_not_inRange {width : Nat} {values : List Datum}
    (h : ¬ Number.InRange width (values.map Datum.stateSize).sum) :
    encodeState width values = .error (.overflow (values.map Datum.stateSize).sum width) := by
  rw [encodeState, bind_eq_error_iff, length_toBytes_map_toInstr]
  exact .inl (Number.encodeFixed_of_not_inRange h)

/-- A state is the instructions of the values and one push, of as many bytes as the width says. They
    hold the number without a sign. -/
theorem exists_field_of_encodeState {width : Nat} {values : List Datum} {state : Script}
    (h : encodeState width values = .ok state) :
    ∃ field : Bytes, field.length = width ∧ ofLittleEndian field = (values.map Datum.stateSize).sum
      ∧ state = values.map Datum.toInstr ++ [.ofData field] := by
  obtain ⟨field, hfield, rfl⟩ := encodeState_eq_ok_iff.1 h
  rw [length_toBytes_map_toInstr] at hfield
  exact ⟨field, Number.length_of_fixed?_eq_some hfield, Number.ofLittleEndian_of_fixed? hfield, rfl⟩

/-- **The length push of a state is exact, or there is no state.** Values have a state in a width
    iff the number of bytes that they take leaves the top bit of the width free. Its bytes are those
    of the values and then the push of as many bytes as the width says, which hold the number with
    its low byte first; it is read back as an instruction for each value and this one push. For
    other values the error names the number and the width. -/
theorem encodeState_eq_ok_iff_size {width : Nat} {values : List Datum}
    (hvalues : ∀ value ∈ values, ∀ data ∈ value.toInstr.data?, data.length < 2 ^ 32)
    (hwidth : width < 2 ^ 32) :
    let size := (values.map Datum.stateSize).sum
    ((∃ state, encodeState width values = .ok state) ↔ Number.InRange width size)
      ∧ (¬ Number.InRange width size →
        encodeState width values = .error (.overflow size width))
      ∧ ∀ state, encodeState width values = .ok state →
        ∃ field : Bytes, field.length = width ∧ ofLittleEndian field = size
          ∧ (values.flatMap Datum.stateBytes).length = size
          ∧ state.toBytes = values.flatMap Datum.stateBytes ++ pushedBytes field
          ∧ (width = 0 → pushedBytes field = [0x00])
          ∧ Script.ofBytes state.toBytes = .ok (values.map Datum.toInstr ++ [.ofData field]) := by
  intro size
  refine ⟨exists_encodeState_iff, encodeState_of_not_inRange, fun state hstate => ?_⟩
  obtain ⟨field, hlength, hvalue, rfl⟩ := exists_field_of_encodeState hstate
  -- the script is written and read again instruction by instruction, the length field included
  have hreadable : ∀ instr ∈ values.map Datum.toInstr ++ [.ofData field], instr.Readable := by
    intro instr hmem
    rcases List.mem_append.1 hmem with hmem | hmem
    · obtain ⟨value, hvalue, rfl⟩ := List.mem_map.1 hmem
      exact readable_toInstr (hvalues value hvalue)
    · rw [List.mem_singleton.1 hmem]
      exact readable_ofData (by rwa [hlength])
  refine ⟨field, hlength, hvalue, length_flatMap_stateBytes values, ?_, fun hzero => ?_, ?_⟩
  · rw [Script.toBytes_append, toBytes_map_toInstr, Script.toBytes_cons, Script.toBytes_nil,
      List.append_nil, toBytes_ofData]
  · rw [List.length_eq_zero_iff.1 (hlength.trans hzero)]
    rfl
  · rw [Script.ofBytes, parse_toBytes hreadable]
    rfl

/-! The longest state whose length one byte can tell, and one byte more. -/

/-- A state of one byte string. -/
def longValues (k : Nat) : List Datum := [.bytes (List.replicate k 0xab)]

/-- Its size is that of the one push. -/
theorem size_longValues (k : Nat) : ((longValues k).map Datum.stateSize).sum = pushSize k := by
  simp [longValues, Datum.stateSize]

/-- The byte string has a length that the longest form can tell. -/
theorem length_lt_of_mem_longValues {k : Nat} (h : k < 2 ^ 32) :
    ∀ value ∈ longValues k, ∀ data ∈ value.toInstr.data?, data.length < 2 ^ 32 := by
  intro value hvalue data hdata
  rw [List.mem_singleton.1 hvalue, Datum.toInstr, Instr.ofData] at hdata
  split at hdata
  · contradiction
  · cases hdata
    rwa [List.length_replicate]

/-- A length of 127 goes into one byte, and 128 does not. -/
theorem encodeState_eq_ok_iff_size_longValues :
    (∀ value ∈ longValues 125, ∀ data ∈ value.toInstr.data?, data.length < 2 ^ 32)
      ∧ (∀ value ∈ longValues 126, ∀ data ∈ value.toInstr.data?, data.length < 2 ^ 32)
      ∧ 1 < 2 ^ 32
      ∧ (∃ state, encodeState 1 (longValues 125) = .ok state
        ∧ state.toBytes = [0x4c, 0x7d] ++ List.replicate 125 0xab ++ [0x01, 0x7f])
      ∧ encodeState 1 (longValues 126) = .error (.overflow 128 1) := by
  have hfits := length_lt_of_mem_longValues (k := 125) (by decide)
  have hlong := length_lt_of_mem_longValues (k := 126) (by decide)
  have hwidth : 1 < 2 ^ 32 := by decide
  obtain ⟨hstate, -, hbytes⟩ := encodeState_eq_ok_iff_size hfits hwidth
  rw [size_longValues] at hstate hbytes
  obtain ⟨state, hstate⟩ := hstate.2 (Number.inRange_iff.2 (by decide))
  obtain ⟨field, hlength, hvalue, -, hstateBytes, -⟩ := hbytes state hstate
  -- the one byte that denotes 127
  have hfield : field = [0x7f] := eq_of_ofLittleEndian_eq hlength hvalue
  refine ⟨hfits, hlong, hwidth, ⟨state, hstate, ?_⟩, ?_⟩
  · rw [hstateBytes, hfield, longValues, List.flatMap_singleton, Datum.stateBytes, pushedBytes,
      List.length_replicate]
    rfl
  · have herror := (encodeState_eq_ok_iff_size hlong hwidth).2.1
    rw [size_longValues] at herror
    exact herror fun hrange => absurd (Number.inRange_iff.1 hrange) (by decide)

end ScriptAbi
