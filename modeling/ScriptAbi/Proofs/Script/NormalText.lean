import ScriptAbi.Proofs.Script.Normal

namespace ScriptAbi

/-!
# The normal form of a script's text

Many texts stand for a script: opcodes have aliases, data have digits of either case, and any blanks
stand between words. One of these texts is the one that is written.

* `IsWritten`, `IsNormalText`: the words that are written, and the texts that are made of them.
* `worded_of_ofAsm`, `shortened_of_ofAsm`: a text stands for a script that its own text tells.
* `ofAsm_toAsm_eq_self_iff`: which scripts are read back from their text.
* `isNormalText_iff_of_ofAsm`: a text is in normal form iff it is the one that is written.
* `ofAsm_toAsm_iff`: all this together, for any script and any text.
-/

variable {script : Script} {text : String}

/-- The word is one that is written: the name of an opcode, or the digits of some data. -/
def IsWritten (word : String) : Prop :=
  (∃ code, Opcode.name? code = some word) ∨ ∃ data, data ≠ [] ∧ word = Hex.encode data

/-- The text is in normal form: words that are written, with one space between them. -/
def IsNormalText (text : String) : Prop :=
  ∃ words : List String, (∀ word ∈ words, IsWritten word) ∧ text = " ".intercalate words

/-! ### Instructions that a text stands for -/

/-- An opcode in the table has a name. -/
private theorem isSome_name?_of_mem_names :
    ∀ entry ∈ Opcode.names, (Opcode.name? entry.1).isSome = true := by
  decide +kernel

/-- An opcode that goes by another name has a name of its own. -/
private theorem isSome_name?_of_mem_aliases :
    ∀ entry ∈ Opcode.aliases, (Opcode.name? entry.2).isSome = true := by
  decide +kernel

/-- What a word names has a name of its own, be the word an alias or not. -/
theorem isSome_name?_of_ofName? {word : String} {code : Opcode}
    (h : Opcode.ofName? word = some code) : (Opcode.name? code).isSome = true := by
  rcases mem_of_ofName? h with hmem | hmem
  · exact isSome_name?_of_mem_names _ hmem
  · exact isSome_name?_of_mem_aliases _ hmem

/-- What pushes data has a word, and is as short as it can be. -/
theorem worded_ofData (data : Bytes) :
    (Instr.ofData data).Worded ∧ (Instr.ofData data).shortened = Instr.ofData data := by
  unfold Instr.ofData
  split_ifs with hempty
  · exact ⟨by decide, rfl⟩
  · have hne : data ≠ [] := fun hnil => hempty (by simp [hnil])
    refine ⟨hne, ?_⟩
    rw [Instr.shortened, Instr.ofData, if_neg hempty]

/-- **A word stands for an instruction that has a word**, and for the shortest one of its kind. -/
theorem worded_of_ofWord {word : String} {instr : Instr} (h : Instr.ofWord word = .ok instr) :
    instr.Worded ∧ instr.shortened = instr := by
  unfold Instr.ofWord at h
  split at h
  · rename_i code hname
    cases h
    exact ⟨isSome_name?_of_ofName? hname, rfl⟩
  · split_ifs at h
    split at h
    · cases h
      exact worded_ofData _
    · contradiction

/-- The instructions of a text have words. -/
theorem worded_of_ofAsm (h : Script.ofAsm text = .ok script) : ∀ instr ∈ script, instr.Worded := by
  intro instr hmem
  obtain ⟨word, -, hword⟩ := exists_of_mem_mapM h hmem
  exact (worded_of_ofWord hword).1

/-- The pushes of a text have the shortest form. -/
theorem shortened_of_ofAsm (h : Script.ofAsm text = .ok script) :
    script.map Instr.shortened = script := by
  have hself : script.map Instr.shortened = script.map id := by
    refine List.map_congr_left fun instr hmem => ?_
    obtain ⟨word, -, hword⟩ := exists_of_mem_mapM h hmem
    exact (worded_of_ofWord hword).2
  rwa [List.map_id] at hself

/-! ### Scripts that are read back -/

/-- **What is read from a text** is read back from the text that is written for it. -/
theorem ofAsm_toAsm_of_ofAsm (h : Script.ofAsm text = .ok script) :
    Script.ofAsm script.toAsm = .ok script := by
  rw [ofAsm_toAsm_of_worded (worded_of_ofAsm h), shortened_of_ofAsm h]

/-- **Which scripts are read back from their text**: those with a name for each bare opcode, and with
    pushes of something in the shortest form. -/
theorem ofAsm_toAsm_eq_self_iff :
    Script.ofAsm script.toAsm = .ok script ↔
      (∀ code, .op code ∈ script → (Opcode.name? code).isSome = true)
        ∧ ∀ form data, .push form data ∈ script →
          data ≠ [] ∧ form = PushForm.shortest data.length := by
  constructor
  · intro h
    have hworded := worded_of_ofAsm h
    have hshortest := (map_shortened_eq_self_iff hworded).1 (shortened_of_ofAsm h)
    exact ⟨fun code hmem => hworded _ hmem,
      fun form data hmem => ⟨hworded _ hmem, hshortest form data hmem⟩⟩
  · rintro ⟨hop, hpush⟩
    have hworded : ∀ instr ∈ script, instr.Worded := by
      rintro (code | ⟨form, data⟩) hmem
      · exact hop code hmem
      · exact (hpush form data hmem).1
    -- read back, a worded script has its pushes in the shortest form, which they already are
    rw [ofAsm_toAsm_of_worded hworded,
      (map_shortened_eq_self_iff hworded).2 fun form data hmem => (hpush form data hmem).2]

/-! ### The text that is written -/

/-- An instruction that has a word is written as a word that is written. -/
theorem isWritten_toWord {instr : Instr} (h : instr.Worded) : IsWritten instr.toWord := by
  cases instr with
  | op code =>
    obtain ⟨name, hname⟩ := Option.isSome_iff_exists.1 h
    exact .inl ⟨code, by rw [Instr.toWord, hname, Option.getD_some]⟩
  | push form data => exact .inr ⟨data, h, rfl⟩

/-- **A word that is written** is the word of what it stands for. -/
theorem exists_toWord_eq_of_isWritten {word : String} (h : IsWritten word) :
    Text.IsWord word.toList ∧ ∃ instr, Instr.ofWord word = .ok instr ∧ instr.toWord = word := by
  rcases h with ⟨code, hname⟩ | ⟨data, hne, rfl⟩
  · have htoWord : (Instr.op code).toWord = word := by rw [Instr.toWord, hname, Option.getD_some]
    have hnamed : (Opcode.name? code).isSome = true := by rw [hname]; rfl
    obtain ⟨hword, hread⟩ := legible_op hnamed
    rw [htoWord] at hword hread
    exact ⟨hword, _, hread, htoWord⟩
  · have hempty : ¬ data.isEmpty = true := by simpa using hne
    exact ⟨isWord_encode hne, _, ofWord_encode hne,
      by rw [toWord_ofData, Word.ofBytes, if_neg hempty]⟩

/-- The text of a script that is read back is in normal form. -/
theorem isNormalText_toAsm (h : ∀ instr ∈ script, instr.Worded) : IsNormalText script.toAsm := by
  refine ⟨script.map Instr.toWord, fun word hword => ?_, rfl⟩
  obtain ⟨instr, hmem, rfl⟩ := List.mem_map.1 hword
  exact isWritten_toWord (h instr hmem)

/-- A text in normal form is the one that is written for what it stands for. -/
theorem toAsm_eq_of_isNormalText (hnormal : IsNormalText text)
    (h : Script.ofAsm text = .ok script) : script.toAsm = text := by
  obtain ⟨words, hwritten, rfl⟩ := hnormal
  have htold := fun word hword => exists_toWord_eq_of_isWritten (hwritten word hword)
  rw [ofAsm_intercalate fun word hword => (htold word hword).1] at h
  -- each word is that of the instruction that it stands for
  have hwords : script.map Instr.toWord = words.map id := by
    refine map_eq_of_mapM h fun word hword instr hinstr => ?_
    obtain ⟨-, _, hread, htoWord⟩ := htold word hword
    cases hread.symm.trans hinstr
    exact htoWord
  rw [Script.toAsm, hwords, List.map_id]

/-- **A text is in normal form** iff it is the text that is written for what it stands for. -/
theorem isNormalText_iff_of_ofAsm (h : Script.ofAsm text = .ok script) :
    IsNormalText text ↔ script.toAsm = text :=
  ⟨fun hnormal => toAsm_eq_of_isNormalText hnormal h,
    fun heq => heq ▸ isNormalText_toAsm (worded_of_ofAsm h)⟩

/-! ### Any script and any text -/

/-- **What a text keeps of a script.** A script is read back from its text iff each of its bare opcodes
    has a name, and each of its pushes pushes something in the shortest form. The script of any text
    is read back, and what is written for it is its normal form: the one text in normal form that
    stands for this script. -/
theorem ofAsm_toAsm_iff (script : Script) :
    (Script.ofAsm script.toAsm = .ok script ↔
        (∀ code, .op code ∈ script → (Opcode.name? code).isSome = true)
          ∧ ∀ form data, .push form data ∈ script →
            data ≠ [] ∧ form = PushForm.shortest data.length)
      ∧ ∀ text, Script.ofAsm text = .ok script →
        Script.ofAsm script.toAsm = .ok script
          ∧ IsNormalText script.toAsm
          ∧ (IsNormalText text ↔ script.toAsm = text)
          ∧ ∀ text' script', Script.ofAsm text' = .ok script' →
            (Script.toAsm script' = script.toAsm ↔ script' = script) := by
  refine ⟨ofAsm_toAsm_eq_self_iff, fun text h => ⟨ofAsm_toAsm_of_ofAsm h, ?_, ?_, ?_⟩⟩
  · exact isNormalText_toAsm (worded_of_ofAsm h)
  · exact isNormalText_iff_of_ofAsm h
  · intro text' script' h'
    constructor
    · intro heq
      -- the text gives back the script, so equal texts come from one script
      have hread := ofAsm_toAsm_of_ofAsm h'
      rw [heq, ofAsm_toAsm_of_ofAsm h] at hread
      exact (Except.ok.inj hread).symm
    · rintro rfl
      rfl

/-! A text with aliases, digits of both cases and blanks of several kinds, and scripts from bytes that
no text keeps: of an opcode with no name, of a push of nothing, and of a push in a longer form. -/

/-- The text is not normal. Its script is printed as one that is, which is read as the script, and
    none of the three scripts is read back from its text. -/
theorem ofAsm_toAsm_iff_mixedText :
    Script.ofAsm " OP_TRUE\t0 ABcd\n-1  OP_CHECKLOCKTIMEVERIFY "
        = .ok [.op 0x51, .op 0x00, .push .direct [0xab, 0xcd], .op 0x4f, .op 0xb1]
      ∧ Script.toAsm [.op 0x51, .op 0x00, .push .direct [0xab, 0xcd], .op 0x4f, .op 0xb1]
        = "OP_1 OP_0 abcd OP_1NEGATE OP_NOP2"
      ∧ Script.ofAsm "OP_1 OP_0 abcd OP_1NEGATE OP_NOP2"
        = .ok [.op 0x51, .op 0x00, .push .direct [0xab, 0xcd], .op 0x4f, .op 0xb1]
      ∧ ¬ IsNormalText " OP_TRUE\t0 ABcd\n-1  OP_CHECKLOCKTIMEVERIFY "
      ∧ Script.ofAsm (Script.toAsm [.op 0xba]) ≠ .ok [.op 0xba]
      ∧ Script.ofAsm (Script.toAsm [.op 0x51, .push .oneByte []]) ≠ .ok [.op 0x51, .push .oneByte []]
      ∧ Script.ofAsm (Script.toAsm [.push .oneByte [0xaa]]) ≠ .ok [.push .oneByte [0xaa]] := by
  have hread : Script.ofAsm " OP_TRUE\t0 ABcd\n-1  OP_CHECKLOCKTIMEVERIFY "
      = .ok [.op 0x51, .op 0x00, .push .direct [0xab, 0xcd], .op 0x4f, .op 0xb1] := by
    decide +kernel
  have hwritten : Script.toAsm [.op 0x51, .op 0x00, .push .direct [0xab, 0xcd], .op 0x4f, .op 0xb1]
      = "OP_1 OP_0 abcd OP_1NEGATE OP_NOP2" := by
    decide +kernel
  obtain ⟨hback, -, hnormal, -⟩ := (ofAsm_toAsm_iff _).2 _ hread
  rw [hwritten] at hback hnormal
  -- left are an opcode without a name, an empty push, and a push longer than its data needs
  refine ⟨hread, hwritten, hback, fun h => absurd (hnormal.1 h) (by decide), ?_, ?_, ?_⟩
  · intro h
    exact absurd (((ofAsm_toAsm_iff _).1.1 h).1 0xba (by simp)) (by decide)
  · intro h
    exact (((ofAsm_toAsm_iff _).1.1 h).2 .oneByte [] (by simp)).1 rfl
  · intro h
    exact absurd (((ofAsm_toAsm_iff _).1.1 h).2 .oneByte [0xaa] (by simp)).2 (by decide)

end ScriptAbi
