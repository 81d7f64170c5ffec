import ScriptAbi.Proofs.Bytes
import ScriptAbi.Proofs.Script.Words

namespace ScriptAbi

/-!
# Scripts and byte strings

Reading a byte string loses nothing, so that readable scripts and the byte strings that can be read
tell each other.

* `readable_and_eq_of_read`: what is read off the front is a readable instruction, and its bytes are
  what stood there. The form that an opcode starts and the length bytes after it are those that the
  instruction is written with (`opcode_announced`, `littleEndianOf_announced`).
* `ofBytes_eq_ok_iff`: by induction over the instructions that are read, the same of a whole script.
* `toBytes_of_ofBytes`: no two byte strings hold the same script.
* `ofBytes_toBytes_iff_no_bare_push`: of the scripts that are built from opcodes and data, those
  with no bare push opcode are read back.
-/

/-! ### Readable instructions, decided -/

instance (length : Nat) : (form : PushForm) → Decidable (form.Fits length)
  | .direct => inferInstanceAs (Decidable (0 < length ∧ length < Opcode.pushData1.toNat))
  | .oneByte => inferInstanceAs (Decidable (length < 256 ^ 1))
  | .twoByte => inferInstanceAs (Decidable (length < 256 ^ 2))
  | .fourByte => inferInstanceAs (Decidable (length < 256 ^ 4))

instance : (instr : Instr) → Decidable instr.Readable
  | .op code => inferInstanceAs (Decidable (PushForm.ofOpcode? code = none))
  | .push form data => inferInstanceAs (Decidable (form.Fits data.length))

/-! ### The form that was read -/

/-- Opcodes that are a length are neither zero nor one of those above. -/
theorem lt_of_ofOpcode?_eq_direct {code : Opcode} (h : PushForm.ofOpcode? code = some .direct) :
    0 < code.toNat ∧ code.toNat < Opcode.pushData1.toNat := by
  unfold PushForm.ofOpcode? at h
  split_ifs at h with hzero hdirect <;> cases h
  have hne : code.toNat ≠ 0 := fun heq => hzero (UInt8.toNat_inj.1 heq)
  exact ⟨Nat.pos_of_ne_zero hne, UInt8.lt_iff_toNat_lt.1 hdirect⟩

/-- The length in front of data fits the form that it was read in. -/
theorem fits_announced {form : PushForm} {code : Opcode} {lengthField : Bytes}
    (hform : PushForm.ofOpcode? code = some form) (hlength : lengthField.length = form.lengthBytes) :
    form.Fits (form.announced code lengthField) := by
  cases form with
  | direct => exact lt_of_ofOpcode?_eq_direct hform
  | oneByte | twoByte | fourByte =>
    show ofLittleEndian lengthField < 256 ^ _
    rw [← hlength]
    exact ofLittleEndian_lt lengthField

/-- The opcode is the one that the form is written with. -/
theorem opcode_announced {form : PushForm} {code : Opcode}
    (hform : PushForm.ofOpcode? code = some form) (lengthField : Bytes) :
    form.opcode (form.announced code lengthField) = code := by
  cases form with
  | direct => exact UInt8.ofNat_toNat
  | oneByte | twoByte | fourByte =>
    -- these forms have an opcode of their own, whatever the length
    unfold PushForm.ofOpcode? at hform
    split_ifs at hform <;> cases hform
    exact Eq.symm ‹code = _›

/-- The length bytes are those that the length is written with. -/
theorem littleEndianOf_announced {form : PushForm} {lengthField : Bytes} (code : Opcode)
    (hlength : lengthField.length = form.lengthBytes) :
    littleEndianOf form.lengthBytes (form.announced code lengthField) = lengthField := by
  cases form with
  | direct => exact (List.eq_nil_of_length_eq_zero hlength).symm
  | oneByte | twoByte | fourByte =>
    show littleEndianOf _ (ofLittleEndian lengthField) = lengthField
    rw [← hlength]
    exact littleEndianOf_ofLittleEndian lengthField

/-! ### One instruction -/

/-- What is read off the front is readable, and its bytes stood there. -/
theorem readable_and_eq_of_read {code : Opcode} {bytes tail : Bytes} {instr : Instr}
    (h : Instr.read code bytes = .ok (instr, tail)) :
    instr.Readable ∧ instr.toBytes ++ tail = code :: bytes := by
  unfold Instr.read at h
  split at h
  · rename_i hform
    cases h
    exact ⟨hform, rfl⟩
  · rename_i form hform
    dsimp only at h
    split_ifs at h with hfield hdata
    cases h
    have hfield : (bytes.take form.lengthBytes).length = form.lengthBytes := by
      have := List.length_take_le form.lengthBytes bytes
      omega
    -- the data that were read are as many as were announced
    have hdata : ((bytes.drop form.lengthBytes).take
        (form.announced code (bytes.take form.lengthBytes))).length
          = form.announced code (bytes.take form.lengthBytes) := by
      have := List.length_take_le (form.announced code (bytes.take form.lengthBytes))
        (bytes.drop form.lengthBytes)
      omega
    constructor
    · show form.Fits _
      rw [hdata]
      exact fits_announced hform hfield
    · rw [Instr.toBytes, hdata, opcode_announced hform, littleEndianOf_announced code hfield,
        List.cons_append, List.append_assoc, List.take_append_drop, List.take_append_drop]

/-! ### Whole scripts -/

/-- What is read is readable, and its bytes are those that were read. -/
theorem readable_and_eq_of_parse {bytes : Bytes} {script : Script}
    (h : Script.parse bytes = .ok script) :
    (∀ instr ∈ script, instr.Readable) ∧ script.toBytes = bytes := by
  -- along the instructions that are read one after the other
  fun_induction Script.parse bytes generalizing script with
  | case1 =>
    cases h
    simp
  | case2 => contradiction
  | case3 code bytes instr tail hread _ rest hrest ih =>
    cases h
    obtain ⟨hreadable, hbytes⟩ := readable_and_eq_of_read hread
    obtain ⟨hall, htail⟩ := ih hrest
    refine ⟨List.forall_mem_cons.2 ⟨hreadable, hall⟩, ?_⟩
    rw [Script.toBytes_cons, htail, hbytes]
  | case4 => contradiction

/-- **A byte string holds a script** iff the script is readable and its bytes are the string. -/
theorem ofBytes_eq_ok_iff {bytes : Bytes} {script : Script} :
    Script.ofBytes bytes = .ok script ↔
      (∀ instr ∈ script, instr.Readable) ∧ script.toBytes = bytes := by
  rw [Script.ofBytes, mapError_eq_ok_iff]
  constructor
  · exact readable_and_eq_of_parse
  · rintro ⟨hreadable, rfl⟩
    exact parse_toBytes hreadable

/-- **Reading bytes loses nothing.** The bytes of the script that a byte string holds are the string
    itself, so that no other string holds this script. -/
theorem toBytes_of_ofBytes {bytes : Bytes} {script : Script}
    (h : Script.ofBytes bytes = .ok script) :
    script.toBytes = bytes ∧ ∀ other, Script.ofBytes other = .ok script → other = bytes := by
  have hbytes := (ofBytes_eq_ok_iff.1 h).2
  refine ⟨hbytes, fun other hother => ?_⟩
  rw [← (ofBytes_eq_ok_iff.1 hother).2, hbytes]

/-! Pushes in longer forms than they need, some of them of nothing, and an opcode with no name. -/

/-- Pushes of each form, and two bare opcodes. -/
def oddPushes : Script :=
  [.push .oneByte [], .push .twoByte [0xaa], .push .fourByte [], .push .direct [0x4c, 0x6a],
    .op 0xba, .op 0x00]

/-- The bytes of these instructions. -/
def oddPushBytes : Bytes :=
  [0x4c, 0x00, 0x4d, 0x01, 0x00, 0xaa, 0x4e, 0x00, 0x00, 0x00, 0x00, 0x02, 0x4c, 0x6a, 0xba, 0x00]

/-- Longer forms than needed, pushes of nothing and an unknown opcode come back byte by byte, and no
    other bytes hold them. -/
theorem toBytes_of_ofBytes_oddPushes :
    Script.ofBytes oddPushBytes = .ok oddPushes ∧ oddPushes.toBytes = oddPushBytes
      ∧ ∀ other, Script.ofBytes other = .ok oddPushes → other = oddPushBytes := by
  have hread : Script.ofBytes oddPushBytes = .ok oddPushes :=
    ofBytes_eq_ok_iff.2 ⟨by decide, by decide⟩
  exact ⟨hread, toBytes_of_ofBytes hread⟩

/-! ### Scripts that are built -/

/-- The instruction is one that is built: a bare opcode, or what pushes given data. -/
inductive Instr.IsBuilt : Instr → Prop
  | op (code : Opcode) : IsBuilt (.op code)
  | data (data : Bytes) : IsBuilt (.ofData data)

/-- A script is read back from its bytes iff these tell each of its instructions. -/
theorem ofBytes_toBytes_iff {script : Script} :
    Script.ofBytes script.toBytes = .ok script ↔ ∀ instr ∈ script, instr.Readable := by
  rw [ofBytes_eq_ok_iff]
  exact and_iff_left rfl

/-- A text holds instructions that are built. -/
theorem isBuilt_of_ofAsm {text : String} {script : Script} (h : Script.ofAsm text = .ok script) :
    ∀ instr ∈ script, instr.IsBuilt := by
  intro instr hmem
  obtain ⟨word, -, hword⟩ := exists_of_mem_mapM h hmem
  rcases op_or_ofData_of_ofWord hword with ⟨code, rfl⟩ | ⟨data, rfl⟩
  · exact .op code
  · exact .data data

/-- Beyond two length bytes the last form is taken, even for a length that it cannot write. -/
theorem shortest_eq_fourByte {length : Nat} (h : 0xffff < length) :
    PushForm.shortest length = .fourByte := by
  have hdirect : ¬ length < Opcode.pushData1.toNat := by
    rw [show Opcode.pushData1.toNat = 76 from rfl]
    omega
  rw [PushForm.shortest, if_neg hdirect, if_neg (by omega), if_neg (by omega)]

/-- What pushes longer data than four length bytes can tell is not readable. -/
theorem length_lt_of_readable {instr : Instr} (hbuilt : instr.IsBuilt) (hreadable : instr.Readable) :
    ∀ data ∈ instr.data?, data.length < 2 ^ 32 := by
  intro data hdata
  cases hbuilt with
  | op code => cases hdata
  | data pushed =>
    unfold Instr.ofData at hreadable hdata
    split_ifs at hreadable hdata
    · cases hdata
    · cases hdata
      -- data of such a length would take the last form, which they do not fit
      by_contra hlong
      have hform : PushForm.shortest data.length = .fourByte := shortest_eq_fourByte (by omega)
      have hfits : (PushForm.shortest data.length).Fits data.length := hreadable
      rw [hform] at hfits
      exact hlong hfits

/-- **What survives the bytes.** A script that is built from opcodes and data, as the script of any
    text is, is read back from its bytes iff none of its bare opcodes is one that starts a push, as
    long as four bytes can tell the lengths of its data. With longer data it is never read back. -/
theorem ofBytes_toBytes_iff_no_bare_push {script : Script}
    (hbuilt : (∀ instr ∈ script, instr.IsBuilt) ∨ ∃ text, Script.ofAsm text = .ok script) :
    ((∀ instr ∈ script, ∀ data ∈ instr.data?, data.length < 2 ^ 32) →
        (Script.ofBytes script.toBytes = .ok script ↔
          ∀ code, .op code ∈ script → ¬ (0x01 ≤ code ∧ code ≤ 0x4e)))
      ∧ ((∃ instr ∈ script, ∃ data ∈ instr.data?, 2 ^ 32 ≤ data.length) →
        Script.ofBytes script.toBytes ≠ .ok script) := by
  have hbuilt : ∀ instr ∈ script, instr.IsBuilt := by
    rcases hbuilt with hbuilt | ⟨text, htext⟩
    · exact hbuilt
    · exact isBuilt_of_ofAsm htext
  rw [ne_eq, ofBytes_toBytes_iff]
  constructor
  · intro hlength
    constructor
    · intro hreadable code hmem
      exact readable_op_iff.1 (hreadable _ hmem)
    · intro hop instr hmem
      -- only an opcode can stand in the way, as what pushes data is readable
      cases hbuilt instr hmem with
      | op code => exact readable_op_iff.2 (hop code hmem)
      | data data => exact readable_ofData_of_data? (hlength _ hmem)
  · rintro ⟨instr, hmem, data, hdata, hlong⟩ hreadable
    have := length_lt_of_readable (hbuilt instr hmem) (hreadable instr hmem) data hdata
    omega

/-! Data of the lengths at which the form of a push changes, and a text with a bare push opcode. -/

/-- Pushes of the shortest and the longest data of the forms. -/
def edgePushes : Script :=
  [0, 1, 75, 76, 255, 256].map fun length => .ofData (List.replicate length 0x11)

/-- Pushes on both sides of each change of form are read back. A text with the bare opcode of a push
    is not: its bytes hold something else. -/
theorem ofBytes_toBytes_edgePushes :
    Script.ofBytes edgePushes.toBytes = .ok edgePushes
      ∧ Script.ofAsm "OP_PUSHDATA1 OP_DUP" = .ok [.op 0x4c, .op 0x76]
      ∧ Script.ofBytes (Script.toBytes [.op 0x4c, .op 0x76]) ≠ .ok [.op 0x4c, .op 0x76] := by
  have hbuilt : ∀ instr ∈ edgePushes, instr.IsBuilt := by
    intro instr hmem
    obtain ⟨length, -, rfl⟩ := List.mem_map.1 hmem
    exact .data _
  have hop : ∀ code, .op code ∈ edgePushes → ¬ (0x01 ≤ code ∧ code ≤ 0x4e) := by
    intro code hmem
    -- of the data, only those of length zero are a bare opcode
    have hzero : edgePushes.filter (!·.isPush) = [.op 0x00] := by decide +kernel
    have hfiltered : .op code ∈ edgePushes.filter (!·.isPush) := List.mem_filter.2 ⟨hmem, rfl⟩
    rw [hzero, List.mem_singleton] at hfiltered
    cases hfiltered
    decide
  have htext : Script.ofAsm "OP_PUSHDATA1 OP_DUP" = .ok [.op 0x4c, .op 0x76] := by
    decide +kernel
  refine ⟨((ofBytes_toBytes_iff_no_bare_push (.inl hbuilt)).1 (by decide +kernel)).2 hop, htext, ?_⟩
  intro hread
  have hnone := ((ofBytes_toBytes_iff_no_bare_push (.inr ⟨_, htext⟩)).1 (by decide)).1 hread
  exact hnone 0x4c (by decide) (by decide)

end ScriptAbi
