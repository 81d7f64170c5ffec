import ScriptAbi.Proofs.Outcome
import ScriptAbi.Proofs.Script.Lossless

namespace ScriptAbi

/-!
# Byte strings that are read in parts

A byte string can be cut where an instruction ends: what was read before the cut stays, and the rest
is read as if it stood alone. It holds no script only if its last push is cut off.

* `PushForm.CutOff`: the bytes after an opcode end before the push that it starts does.
* `parse_append`: reading goes on after a script as it does from the start.
* `parse_eq_error_iff`: reading fails iff a push after a script is cut off, and where it is.
* `exists_read_append`: more bytes make such a push whole.
* `ofBytes_append_and_cutOff`: all this of byte strings and the scripts that they hold.
-/

variable {code : Opcode} {form : PushForm} {bytes tail : Bytes} {instr : Instr} {script : Script}
  {position : Nat}

/-! ### One push -/

/-- The bytes after the opcode of a push end inside the push: in its length, or in its data. The
    number is that of the bytes before the part that is cut off. -/
inductive PushForm.CutOff (form : PushForm) (code : Opcode) (bytes : Bytes) : Nat → Prop
  | length (h : bytes.length < form.lengthBytes) : CutOff form code bytes 0
  | data (hlength : form.lengthBytes ≤ bytes.length)
      (h : bytes.length < form.lengthBytes + form.announced code (bytes.take form.lengthBytes)) :
      CutOff form code bytes form.lengthBytes

/-- **An instruction cannot be read** iff it is a push that is cut off. -/
theorem read_eq_error_iff :
    Instr.read code bytes = .error position ↔
      ∃ form, PushForm.ofOpcode? code = some form ∧ form.CutOff code bytes position := by
  cases hform : PushForm.ofOpcode? code with
  | none => simp [Instr.read, hform]
  | some form =>
    simp only [Instr.read, hform, Option.some.injEq, exists_eq_left', List.length_take,
      List.length_drop]
    constructor
    · intro h
      split_ifs at h with hlength hdata
      · cases h
        exact .length (by omega)
      · cases h
        exact .data (by omega) (by omega)
    · rintro (hlength | ⟨hlength, hdata⟩)
      · rw [if_pos (by omega)]
      · rw [if_neg (by omega), if_pos (by omega)]

/-- A push is read where its length and its data are there. -/
theorem read_of_lengths {field data : Bytes} (hform : PushForm.ofOpcode? code = some form)
    (hfield : field.length = form.lengthBytes) (hdata : data.length = form.announced code field)
    (tail : Bytes) : Instr.read code (field ++ (data ++ tail)) = .ok (.push form data, tail) := by
  simp [Instr.read, hform, List.take_left' hfield, List.drop_left' hfield, hfield, ← hdata]

/-- **A push that is cut off** is whole with more bytes. -/
theorem exists_read_append (hform : PushForm.ofOpcode? code = some form)
    (hcut : form.CutOff code bytes position) :
    ∃ more data, Instr.read code (bytes ++ more) = .ok (.push form data, []) := by
  cases hcut with
  | length h =>
    -- the length that is missing can be that of any data
    let field := bytes ++ List.replicate (form.lengthBytes - bytes.length) 0
    let data := List.replicate (form.announced code field) (0 : UInt8)
    refine ⟨List.replicate (form.lengthBytes - bytes.length) 0 ++ data, data, ?_⟩
    have hfield : field.length = form.lengthBytes := by
      simp only [field, List.length_append, List.length_replicate]
      omega
    have hread := read_of_lengths hform hfield (List.length_replicate : data.length = _) []
    rwa [List.append_nil, List.append_assoc] at hread
  | data hlength h =>
    let field := bytes.take form.lengthBytes
    have h : bytes.length < form.lengthBytes + form.announced code field := h
    let missing := form.lengthBytes + form.announced code field - bytes.length
    let more := List.replicate missing (0 : UInt8)
    refine ⟨more, bytes.drop form.lengthBytes ++ more, ?_⟩
    have hfield : field.length = form.lengthBytes := List.length_take_of_le hlength
    have hdata : (bytes.drop form.lengthBytes ++ more).length = form.announced code field := by
      simp only [more, missing, List.length_append, List.length_drop, List.length_replicate]
      omega
    have hread := read_of_lengths hform hfield hdata []
    rwa [List.append_nil, ← List.append_assoc, List.take_append_drop] at hread

/-! ### Reading on -/

/-- Where the first instruction cannot be read, nothing is. -/
theorem parse_cons_of_read_error (h : Instr.read code bytes = .error position) :
    Script.parse (code :: bytes) = .error (1 + position) := by
  rw [Script.parse]
  split
  · rename_i heq
    rw [h] at heq
    cases heq
    rfl
  · simp_all

/-- What fails after an instruction fails as far behind it as it would alone. -/
theorem parse_cons_of_parse_error (hread : Instr.read code bytes = .ok (instr, tail))
    (hrest : Script.parse tail = .error position) :
    Script.parse (code :: bytes) = .error (instr.toBytes.length + position) := by
  have hlength : (instr.toBytes ++ tail).length = (code :: bytes).length := by
    rw [(readable_and_eq_of_read hread).2]
  rw [List.length_append, List.length_cons] at hlength
  rw [Script.parse]
  split
  · simp_all
  · rename_i heq
    rw [hread] at heq
    cases heq
    -- the reported position counts back from the end of the string, so the lengths decide it
    have hle := Instr.length_le_of_read hread
    simp only [hrest]
    congr 1
    omega

/-- A readable instruction is read off the front of its bytes. -/
theorem exists_read_of_readable (h : instr.Readable) (tail : Bytes) :
    ∃ code bytes, instr.toBytes ++ tail = code :: bytes
      ∧ Instr.read code bytes = .ok (instr, tail) := by
  cases instr with
  | op code =>
    have hnone : PushForm.ofOpcode? code = none := h
    exact ⟨code, tail, rfl, by simp [Instr.read, hnone]⟩
  | push form data =>
    refine ⟨_, _, rfl, ?_⟩
    rw [List.append_eq, List.append_assoc]
    exact read_push h tail

/-- **Reading goes on after an instruction** as it does from the start. -/
theorem parse_toBytes_append_eq (h : instr.Readable) (tail : Bytes) :
    Script.parse (instr.toBytes ++ tail)
      = ((Script.parse tail).map (instr :: ·)).mapError (instr.toBytes.length + ·) := by
  obtain ⟨code, bytes, hbytes, hread⟩ := exists_read_of_readable h tail
  rw [hbytes]
  cases hrest : Script.parse tail with
  | ok rest => exact parse_cons_of_read hread hrest
  | error position => exact parse_cons_of_parse_error hread hrest

/-- **Reading goes on after a script** as it does from the start. -/
theorem parse_append {front : Bytes} (hfront : Script.parse front = .ok script) (back : Bytes) :
    Script.parse (front ++ back)
      = ((Script.parse back).map (script ++ ·)).mapError (front.length + ·) := by
  obtain ⟨hreadable, rfl⟩ := readable_and_eq_of_parse hfront
  clear hfront
  -- along the instructions in front, each of which moves the rest on by its bytes
  induction script with
  | nil => cases h : Script.parse back <;> simp [h, Except.map, Except.mapError]
  | cons instr rest ih =>
    rw [Script.toBytes_cons, List.append_assoc, parse_toBytes_append_eq (hreadable instr (by simp)),
      ih fun i hi => hreadable i (by simp [hi])]
    cases Script.parse back <;> simp [Except.map, Except.mapError, Nat.add_assoc]

/-! ### Where reading fails -/

/-- **A byte string holds no script** iff a push is cut off that stands after a script. -/
theorem parse_eq_error_iff :
    Script.parse bytes = .error position ↔
      ∃ front script code rest form read, bytes = front ++ code :: rest
        ∧ Script.parse front = .ok script ∧ PushForm.ofOpcode? code = some form
        ∧ form.CutOff code rest read ∧ position = front.length + 1 + read := by
  constructor
  · intro h
    -- by induction on the reader: each instruction it passes moves to the front
    fun_induction Script.parse bytes generalizing position with
    | case1 => contradiction
    | case2 code bytes read hread =>
      cases h
      obtain ⟨form, hform, hcut⟩ := read_eq_error_iff.1 hread
      exact ⟨[], [], code, bytes, form, read, rfl, by simp [Script.parse], hform, hcut, by simp⟩
    | case3 => contradiction
    | case4 code bytes instr tail hread _ position' hrest ih =>
      cases h
      obtain ⟨front, script, code', rest, form, read, rfl, hfront, hform, hcut, rfl⟩ := ih hrest
      obtain ⟨hreadable, hbytes⟩ := readable_and_eq_of_read hread
      refine ⟨instr.toBytes ++ front, instr :: script, code', rest, form, read, ?_,
        parse_toBytes_append hreadable hfront, hform, hcut, ?_⟩
      · rw [← hbytes, List.append_assoc]
      · have hlength := congrArg List.length hbytes
        have hle := Instr.length_le_of_read hread
        simp only [List.length_append, List.length_cons] at hlength hle ⊢
        omega
  · -- the reader gets through the front, and then fails on the instruction after it
    rintro ⟨front, script, code, rest, form, read, rfl, hfront, hform, hcut, rfl⟩
    have hread := parse_cons_of_read_error (read_eq_error_iff.2 ⟨form, hform, hcut⟩)
    rw [parse_append hfront, hread, Nat.add_assoc]
    rfl

/-- **A byte string whose last push is cut off** holds a script again with the right bytes after
    it. -/
theorem exists_parse_append {front rest : Bytes} (hfront : Script.parse front = .ok script)
    (hform : PushForm.ofOpcode? code = some form) (hcut : form.CutOff code rest position) :
    ∃ more data, Script.parse (front ++ code :: rest ++ more)
      = .ok (script ++ [.push form data]) := by
  obtain ⟨more, data, hread⟩ := exists_read_append hform hcut
  have hlast : Script.parse (code :: (rest ++ more)) = .ok [.push form data] :=
    parse_cons_of_read hread (by simp [Script.parse])
  refine ⟨more, data, ?_⟩
  rw [List.append_assoc, List.cons_append, parse_append hfront, hlast]
  rfl

/-! ### Byte strings that hold scripts -/

/-- A script is read from bytes iff it is parsed from them. -/
theorem parse_eq_ok_iff : Script.parse bytes = .ok script ↔ Script.ofBytes bytes = .ok script := by
  rw [Script.ofBytes, mapError_eq_ok_iff]

/-- Reading fails where parsing does. -/
theorem ofBytes_eq_error_iff {fault : ScriptFault} :
    Script.ofBytes bytes = .error fault ↔
      ∃ offset, Script.parse bytes = .error offset ∧ .cutOff offset = fault := by
  rw [Script.ofBytes, mapError_eq_error_iff]

/-- **Byte strings are read in parts.** After a byte string that holds a script, another one is read
    as it is alone: the instructions come after those of the script, and where a push is cut off it
    is so at the same place behind it.

    What holds no script is a script and then a push that is cut off. The error tells where: after
    the opcode if the length bytes are cut off, and after these if the data are. The string holds a
    script again, with this push as its last instruction, if the right bytes are put after it. -/
theorem ofBytes_append_and_cutOff :
    (∀ front back script, Script.ofBytes front = .ok script →
        (∀ rest, Script.ofBytes back = .ok rest →
          Script.ofBytes (front ++ back) = .ok (script ++ rest))
        ∧ ∀ offset, Script.ofBytes back = .error (.cutOff offset) →
          Script.ofBytes (front ++ back) = .error (.cutOff (front.length + offset)))
      ∧ ∀ bytes fault, Script.ofBytes bytes = .error fault →
        ∃ offset, fault = .cutOff offset ∧ offset ≤ bytes.length
          ∧ ∃ front script code rest form, bytes = front ++ code :: rest
            ∧ Script.ofBytes front = .ok script ∧ PushForm.ofOpcode? code = some form
            ∧ (rest.length < form.lengthBytes ∧ offset = front.length + 1
              ∨ form.lengthBytes ≤ rest.length
                ∧ rest.length
                  < form.lengthBytes + form.announced code (rest.take form.lengthBytes)
                ∧ offset = front.length + 1 + form.lengthBytes)
            ∧ ∃ more data, Script.ofBytes (bytes ++ more) = .ok (script ++ [.push form data]) := by
  constructor
  · intro front back script hfront
    -- reading a readable front leaves the reader at the back
    have happend := parse_append (parse_eq_ok_iff.2 hfront) back
    constructor
    · intro rest hback
      rw [← parse_eq_ok_iff] at hback ⊢
      rw [happend, hback]
      rfl
    · intro offset hback
      obtain ⟨_, hback, heq⟩ := ofBytes_eq_error_iff.1 hback
      cases heq
      refine ofBytes_eq_error_iff.2 ⟨_, ?_, rfl⟩
      rw [happend, hback]
      rfl
  · intro bytes fault hfault
    obtain ⟨offset, herror, rfl⟩ := ofBytes_eq_error_iff.1 hfault
    -- the instruction that was cut off, and then bytes that complete it
    obtain ⟨front, script, code, rest, form, read, rfl, hfront, hform, hcut, rfl⟩ :=
      parse_eq_error_iff.1 herror
    obtain ⟨more, data, hmore⟩ := exists_parse_append hfront hform hcut
    refine ⟨_, rfl, ?_, front, script, code, rest, form, rfl, parse_eq_ok_iff.1 hfront, hform, ?_,
      more, data, parse_eq_ok_iff.1 hmore⟩
    · rw [List.length_append, List.length_cons]
      cases hcut <;> omega
    · cases hcut with
      | length h => exact .inl ⟨h, rfl⟩
      | data hlength h => exact .inr ⟨hlength, h, rfl⟩

/-! A push whose length is cut off, and one whose data are, after the same script. -/

/-- A push without all of its length fails after the opcode, one without all of its data after the
    length. More bytes make the first one whole. -/
theorem ofBytes_append_and_cutOff_pushes :
    Script.ofBytes ([0x76, 0x01, 0x6a] ++ [0x4d, 0x02]) = .error (.cutOff 4)
      ∧ Script.ofBytes ([0x76, 0x01, 0x6a] ++ [0x4d, 0x02, 0x00, 0xaa]) = .error (.cutOff 6)
      ∧ ∃ more script, Script.ofBytes ([0x76, 0x01, 0x6a] ++ [0x4d, 0x02] ++ more) = .ok script := by
  have hfront : Script.ofBytes [0x76, 0x01, 0x6a] = .ok [.op 0x76, .push .direct [0x6a]] :=
    ofBytes_eq_ok_iff.2 ⟨by decide, by decide⟩
  have hlength : Script.ofBytes [0x4d, 0x02] = .error (.cutOff 1) := by decide +kernel
  have hdata : Script.ofBytes [0x4d, 0x02, 0x00, 0xaa] = .error (.cutOff 3) := by decide +kernel
  obtain ⟨happend, hcut⟩ := ofBytes_append_and_cutOff
  have hfault := (happend _ _ _ hfront).2 _ hlength
  obtain ⟨_, -, -, _, script, _, _, _, -, -, -, -, more, data, hmore⟩ := hcut _ _ hfault
  exact ⟨hfault, (happend _ _ _ hfront).2 _ hdata, more, _, hmore⟩

end ScriptAbi
