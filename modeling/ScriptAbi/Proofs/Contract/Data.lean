import ScriptAbi.Proofs.Contract.History
import ScriptAbi.Proofs.Script.Lossless
import ScriptAbi.Proofs.Script.Normal
import ScriptAbi.Proofs.Value.Decidable

namespace ScriptAbi

/-!
# The data of a contract

A contract keeps its data as a text, and a text does not keep how the length of a push was written.

* `readable_of_read`: data that were read from bytes can be read back from their bytes.
* `dataScript_withData_of_worded`: the data of a contract are those that it was given, with every
  push in its shortest form.
* `dataScript_withData_longPush`: data with a push in a longer form are changed.
-/

variable {contract : Contract} {code data : Script}

/-! ### Data that were read -/

/-- A hexadecimal text holds the script of some byte string. -/
theorem exists_ofBytes_of_ofHex {text : String} (h : Script.ofHex text = .ok data) :
    ∃ bytes, Script.ofBytes bytes = .ok data := by
  unfold Script.ofHex at h
  split at h
  · exact ⟨_, h⟩
  · cases h

/-- A script that was read, from bytes or from a hexadecimal text, is readable. -/
theorem readable_of_read
    (h : (∃ bytes, Script.ofBytes bytes = .ok data) ∨ ∃ text, Script.ofHex text = .ok data) :
    ∀ instr ∈ data, instr.Readable := by
  have hbytes : ∃ bytes, Script.ofBytes bytes = .ok data := by
    rcases h with hbytes | ⟨text, htext⟩
    · exact hbytes
    · exact exists_ofBytes_of_ofHex htext
  obtain ⟨bytes, hbytes⟩ := hbytes
  exact (ofBytes_eq_ok_iff.1 hbytes).1

/-! ### Data that are kept -/

/-- **The data that a contract was given** it has with every push in its shortest form, if each
    instruction has a word of its own. Its script is its code and then these data, and can be read.
    They are the very data that were given, and the script ends in the bytes of these, iff all of
    their pushes have the shortest form. -/
theorem dataScript_withData_of_worded
    (hread : (∃ bytes, Script.ofBytes bytes = .ok data) ∨ ∃ text, Script.ofHex text = .ok data)
    (hcode : contract.code = .ok code) (hworded : ∀ instr ∈ data, instr.Worded) :
    (contract.withData data).dataScript = .ok (some (data.map Instr.shortened))
      ∧ (∃ script, (contract.withData data).script = .ok script
        ∧ script = code ++ data.map Instr.shortened
        ∧ script.toBytes = code.toBytes ++ Script.toBytes (data.map Instr.shortened)
        ∧ (script.toBytes = code.toBytes ++ data.toBytes ↔
            ∀ form pushed, .push form pushed ∈ data → form = PushForm.shortest pushed.length))
      ∧ (data.map Instr.shortened = data ↔
          ∀ form pushed, .push form pushed ∈ data → form = PushForm.shortest pushed.length) := by
  have hstored : (contract.withData data).data = some data.toAsm := rfl
  have hdata : (contract.withData data).dataScript = .ok (some (data.map Instr.shortened)) :=
    (Contract.dataScript_eq_ok_some_iff hstored).2 (ofAsm_toAsm_of_worded hworded)
  have hscript : (contract.withData data).script = .ok (code ++ data.map Instr.shortened) :=
    -- the code is the one that the contract had before
    (Contract.script_eq_ok_iff_of_data hstored).2 ⟨code, _, hcode, hdata, rfl⟩
  have hself := map_shortened_eq_self_iff hworded
  refine ⟨hdata, ⟨_, hscript, rfl, Script.toBytes_append _ _, ?_⟩, hself⟩
  rw [Script.toBytes_append, List.append_cancel_left_eq,
    toBytes_shortened_eq_iff (readable_of_read hread), hself]

/-! Data with a push that is longer than it needs to be, and one that is not. -/

/-- A number, a return, and two bytes whose length has a byte of its own. -/
def fetchedData : Script :=
  [.push .direct [0x2a], .op Opcode.ret, .push .oneByte [0x6a, 0x00]]

/-- The data are kept in the shortest form, in which the last push has no byte of its own for its
    length. The code has a return of its own, and the data start after the one that follows it. -/
theorem dataScript_withData_fetchedData :
    Script.ofHex " 012a6A4c026a00 " = .ok fetchedData
      ∧ (returningContract.withData fetchedData).dataScript
        = .ok (some [.push .direct [0x2a], .op Opcode.ret, .push .direct [0x6a, 0x00]])
      ∧ ∃ script, (returningContract.withData fetchedData).script = .ok script
        ∧ script.toBytes = [0x76, 0x6a, 0x01, 0x6a, 0x6a, 0x01, 0x2a, 0x6a, 0x02, 0x6a, 0x00] := by
  have hbytes : Script.ofBytes [0x01, 0x2a, 0x6a, 0x4c, 0x02, 0x6a, 0x00] = .ok fetchedData :=
    ofBytes_eq_ok_iff.2 ⟨by decide, by decide⟩
  have hread : Script.ofHex " 012a6A4c026a00 " = .ok fetchedData := by
    rw [Script.ofHex, show Hex.decode (Text.trimmed " 012a6A4c026a00 ")
      = .ok [0x01, 0x2a, 0x6a, 0x4c, 0x02, 0x6a, 0x00] by decide +kernel]
    exact hbytes
  -- the code ends in the return that data come after
  have hcode : returningContract.code
      = .ok [.op 0x76, .op 0x6a, .push .direct [0x6a], .op Opcode.ret] := by
    decide +kernel
  obtain ⟨hdata, ⟨script, hscript, -, hbytes, -⟩, -⟩ :=
    dataScript_withData_of_worded (.inr ⟨_, hread⟩) hcode (by decide +kernel)
  exact ⟨hread, hdata, script, hscript, hbytes⟩

/-- A push of one byte whose length has a byte of its own. -/
def longPush : Script := [.push .oneByte [0xaa]]

/-- **The form of a push is not kept.** A contract that is given a push with a longer form than it
    needs has another push as data, and its script does not end in the bytes that were read. -/
theorem dataScript_withData_longPush :
    Script.ofBytes [0x4c, 0x01, 0xaa] = .ok longPush
      ∧ Contract.deploy returningContract.descriptor [] = .ok returningContract
      ∧ returningContract.code = .ok [.op 0x76, .op 0x6a, .push .direct [0x6a], .op Opcode.ret]
      ∧ (returningContract.withData longPush).dataScript ≠ .ok (some longPush)
      ∧ ∀ script, (returningContract.withData longPush).script = .ok script →
        script.toBytes ≠ [0x76, 0x6a, 0x01, 0x6a, 0x6a] ++ [0x4c, 0x01, 0xaa] := by
  have hscript : (returningContract.withData longPush).script
      = .ok [.op 0x76, .op 0x6a, .push .direct [0x6a], .op Opcode.ret, .push .direct [0xaa]] := by
    decide +kernel
  have hcreation : returningContract.descriptor.constructorCall []
      = .ok returningContract.creation := by
    decide +kernel
  refine ⟨ofBytes_eq_ok_iff.2 ⟨by decide, by decide⟩, ?_, by decide +kernel, by decide +kernel, ?_⟩
  · rw [Contract.deploy, hcreation]
    rfl
  -- the script is the one with the shortest form
  intro script h
  cases hscript.symm.trans h
  decide

end ScriptAbi
