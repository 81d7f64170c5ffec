import ScriptAbi.Proofs.Number.RoundTrip
import ScriptAbi.Proofs.Outcome
import ScriptAbi.Proofs.Script.Bytes
import ScriptAbi.Script.Asm

namespace ScriptAbi

/-!
# Scripts read back from their text

* `ofWord_ofBytes`: the word of a byte string stands for the instruction that pushes it.
* `ofWord_ofInt`: the word of a number stands for `Instr.ofInt`, the instruction for that number.
* `Instr.Legible`: an instruction whose word stands for it.
* `ofAsm_append_space`, `ofAsm_intercalate`: the script of a text word by word.
* `ofAsm_toAsm_map`: a script is read from its text as what its words stand for; `ofAsm_toAsm`: so a
  script of legible instructions is read back.
-/

/-! ### Words of opcodes -/

/-- The name of an opcode starts with a letter that is no hexadecimal digit. -/
private theorem head?_of_mem_names : ∀ entry ∈ Opcode.names, entry.2.toList.head? = some 'O' := by
  decide +kernel

/-- So does every other name, but for those of two numbers. -/
private theorem head?_of_mem_aliases :
    ∀ entry ∈ Opcode.aliases, entry.1 = "0" ∨ entry.1 = "-1" ∨ entry.1.toList.head? = some 'O' := by
  decide +kernel

/-- Opcodes have words that start with the same letter, or that are one of two numbers. -/
theorem ofName?_eq_none {word : String} (hletter : word.toList.head? ≠ some 'O') (hzero : word ≠ "0")
    (hone : word ≠ "-1") : Opcode.ofName? word = none := by
  -- every name of the table, and every alias but the two numerals, begins with an 'O'
  have hnames : (Opcode.names.find? fun entry => entry.2 == word) = none := by
    rw [List.find?_eq_none]
    intro entry hmem heq
    rw [beq_iff_eq] at heq
    exact hletter (heq ▸ head?_of_mem_names entry hmem)
  have haliases : Opcode.aliases.lookup word = none := by
    rw [List.lookup_eq_none_iff]
    intro entry hmem
    rw [bne_iff_ne]
    rintro rfl
    rcases head?_of_mem_aliases entry hmem with h | h | h
    · exact hzero h
    · exact hone h
    · exact hletter h
  rw [Opcode.ofName?, hnames, haliases]
  rfl

/-- A word that names an opcode is one of the table. -/
theorem mem_of_ofName? {word : String} {code : Opcode} (h : Opcode.ofName? word = some code) :
    (code, word) ∈ Opcode.names ∨ (word, code) ∈ Opcode.aliases := by
  rw [Opcode.ofName?, Option.or_eq_some_iff] at h
  rcases h with h | ⟨-, h⟩
  · obtain ⟨⟨code', word'⟩, hfind, rfl⟩ := Option.map_eq_some_iff.1 h
    have hword : word' = word := by simpa using List.find?_some hfind
    exact .inl (hword ▸ List.mem_of_find?_eq_some hfind)
  · obtain ⟨front, back, heq, -⟩ := List.lookup_eq_some_iff.1 h
    exact .inr (heq ▸ by simp)

/-! ### Words of data -/

/-- The text of a byte string that is not empty starts with two digits. -/
theorem toList_encode_cons (byte : UInt8) (rest : Bytes) :
    (Hex.encode (byte :: rest)).toList
      = Nat.digitChar (byte.toNat / 16) :: Nat.digitChar (byte.toNat % 16) :: Hex.digits rest := by
  simp [Hex.encode, Hex.digits, Hex.digitsOf]

/-- Digits of data stand for the instruction that pushes the data. -/
theorem ofWord_encode {data : Bytes} (h : data ≠ []) :
    Instr.ofWord (Hex.encode data) = .ok (.ofData data) := by
  obtain ⟨byte, rest, rfl⟩ := List.exists_cons_of_ne_nil h
  have hlist := toList_encode_cons byte rest
  -- a digit is none of the characters with which words of another sort start
  have hname : Opcode.ofName? (Hex.encode (byte :: rest)) = none := by
    apply ofName?_eq_none
    · simp [hlist]
    · intro heq
      have := congrArg (fun word => word.toList.length) heq
      simp [hlist] at this
    · intro heq
      have := congrArg (fun word => word.toList.head?) heq
      simp [hlist] at this
  have hprefix : ['O', 'P', '_'].isPrefixOf (Hex.encode (byte :: rest)).toList = false := by
    simp [hlist, List.isPrefixOf]
  have hdecode : Hex.decode? (Hex.encode (byte :: rest)).toList = some (byte :: rest) := by
    rw [Hex.encode, String.toList_ofList, Hex.decode?_digits]
  have hopen : (Hex.encode (byte :: rest)).toList.head? ≠ some '$' := by
    simp [hlist]
  simp [Instr.ofWord, hname, hprefix, hdecode, hopen]

/-- Bytes are printed as one word, if there are any. -/
theorem isWord_encode {data : Bytes} (h : data ≠ []) : Text.IsWord (Hex.encode data).toList := by
  obtain ⟨byte, rest, rfl⟩ := List.exists_cons_of_ne_nil h
  refine ⟨?_, fun c hc => ?_⟩
  · rw [toList_encode_cons]
    simp
  · rw [Hex.encode, String.toList_ofList] at hc
    exact isBlank_of_mem_digits hc

/-- **The word of a byte string** stands for the instruction that pushes it. -/
theorem ofWord_ofBytes (data : Bytes) : Instr.ofWord (Word.ofBytes data) = .ok (.ofData data) := by
  unfold Word.ofBytes
  split_ifs with h
  · rw [List.isEmpty_iff.1 h]
    decide +kernel
  · exact ofWord_encode fun hnil => h (by simp [hnil])

/-- The word for a byte string is a word. -/
theorem isWord_ofBytes (data : Bytes) : Text.IsWord (Word.ofBytes data).toList := by
  unfold Word.ofBytes
  split_ifs with h
  · decide
  · exact isWord_encode fun hnil => h (by simp [hnil])

/-- Data are told by the instruction that pushes them. -/
theorem ofData_injective : Function.Injective Instr.ofData := by
  intro a b h
  by_cases ha : a.isEmpty <;> by_cases hb : b.isEmpty <;> simp_all [Instr.ofData]

/-! ### Words of numbers -/

/-- The instruction for a number: a bare opcode from -1 to 16, else a push of its shortest bytes. -/
def Instr.ofInt (n : Int) : Instr :=
  if n = -1 then .op Opcode.minusOne
  else if n = 0 then .op Opcode.zero
  else if 0 ≤ n ∧ n ≤ 16 then .op (UInt8.ofNat (0x50 + n.toNat))
  else .ofData (Number.minimal n)

/-- The seventeen small numbers have opcodes with their names. -/
private theorem ofWord_small : ∀ m : Fin 17,
    Text.IsWord ("OP_" ++ toString (m.val : Int)).toList
      ∧ Instr.ofWord ("OP_" ++ toString (m.val : Int)) = .ok (.ofInt m.val) := by
  decide +kernel

/-- A number from 0 to 16 is one of seventeen. -/
private theorem eq_cast_fin {n : Int} (h : 0 ≤ n ∧ n ≤ 16) : ∃ m : Fin 17, n = (m.val : Int) :=
  ⟨⟨n.toNat, by omega⟩, by simp only; omega⟩

/-- **The word of a number** stands for the instruction for it. -/
theorem ofWord_ofInt (n : Int) : Instr.ofWord (Word.ofInt n) = .ok (.ofInt n) := by
  unfold Word.ofInt
  split_ifs with hminus hsmall
  · rw [hminus]
    decide +kernel
  · obtain ⟨m, rfl⟩ := eq_cast_fin hsmall
    exact (ofWord_small m).2
  · have hzero : n ≠ 0 := by omega
    rw [ofWord_encode (Number.minimal_ne_nil n), Instr.ofInt, if_neg hminus, if_neg hzero,
      if_neg hsmall]

/-- The word for a number is a word. -/
theorem isWord_ofInt (n : Int) : Text.IsWord (Word.ofInt n).toList := by
  unfold Word.ofInt
  split_ifs with hminus hsmall
  · decide
  · obtain ⟨m, rfl⟩ := eq_cast_fin hsmall
    exact (ofWord_small m).1
  · exact isWord_encode (Number.minimal_ne_nil n)

/-! ### Instructions -/

/-- The instruction has a word, and the word stands for it. -/
def Instr.Legible (instr : Instr) : Prop :=
  Text.IsWord instr.toWord.toList ∧ Instr.ofWord instr.toWord = .ok instr

/-- What pushes data is written as the word of the data. -/
theorem toWord_ofData (data : Bytes) : (Instr.ofData data).toWord = Word.ofBytes data := by
  unfold Instr.ofData Word.ofBytes
  split_ifs with h
  · rfl
  · rfl

/-- What pushes data is read from its word. -/
theorem legible_ofData (data : Bytes) : (Instr.ofData data).Legible := by
  rw [Instr.Legible, toWord_ofData]
  exact ⟨isWord_ofBytes data, ofWord_ofBytes data⟩

/-- A word stands for a bare opcode or for the shortest push of its data. -/
theorem op_or_ofData_of_ofWord {word : String} {instr : Instr} (h : Instr.ofWord word = .ok instr) :
    (∃ code, instr = .op code) ∨ ∃ data, instr = .ofData data := by
  unfold Instr.ofWord at h
  split at h
  · cases h
    exact .inl ⟨_, rfl⟩
  · split_ifs at h
    split at h
    · cases h
      exact .inr ⟨_, rfl⟩
    · contradiction

/-! ### Scripts -/

/-- What a text with a space in it stands for is put together from the scripts of its parts. -/
theorem ofAsm_append_space_eq_ok_iff {front back : String} {script : Script} :
    Script.ofAsm (front ++ " " ++ back) = .ok script ↔
      ∃ s t, Script.ofAsm front = .ok s ∧ Script.ofAsm back = .ok t ∧ script = s ++ t := by
  rw [Script.ofAsm, Text.wordsOf_append_space]
  exact mapM_append_eq_ok_iff

/-- Two texts with a blank between them hold both scripts. -/
theorem ofAsm_append_space {front back : String} {s t : Script} (hs : Script.ofAsm front = .ok s)
    (ht : Script.ofAsm back = .ok t) : Script.ofAsm (front ++ " " ++ back) = .ok (s ++ t) :=
  ofAsm_append_space_eq_ok_iff.2 ⟨s, t, hs, ht, rfl⟩

/-- Blanks around a text do not count. -/
@[simp] theorem ofAsm_trimmed (text : String) :
    Script.ofAsm (Text.trimmed text) = Script.ofAsm text := by
  rw [Script.ofAsm, Text.wordsOf_trimmed, Script.ofAsm]

/-- Words with one space between them stand for the instructions of the words. -/
theorem ofAsm_intercalate {ws : List String} (h : ∀ w ∈ ws, Text.IsWord w.toList) :
    Script.ofAsm (" ".intercalate ws) = ws.mapM Instr.ofWord := by
  rw [Script.ofAsm, Text.wordsOf_intercalate h]

/-- One word stands for one instruction. -/
theorem ofAsm_of_isWord {word : String} {instr : Instr} (h : Text.IsWord word.toList)
    (hinstr : Instr.ofWord word = .ok instr) : Script.ofAsm word = .ok [instr] := by
  rw [Script.ofAsm, Text.wordsOf_of_isWord h]
  simp [hinstr, pure, Except.pure, bind, Except.bind]

/-- Scripts from text are readable as bytes where no word names a push opcode and no push is
    longer than four bytes can tell. -/
theorem readable_of_mem_ofAsm {text : String} {script : Script} (h : Script.ofAsm text = .ok script)
    (hop : ∀ code, .op code ∈ script → ¬ (0x01 ≤ code ∧ code ≤ 0x4e))
    (hlength : ∀ instr ∈ script, ∀ data ∈ instr.data?, data.length < 2 ^ 32) :
    ∀ instr ∈ script, instr.Readable := by
  intro instr hmem
  obtain ⟨word, -, hword⟩ := exists_of_mem_mapM h hmem
  rcases op_or_ofData_of_ofWord hword with ⟨code, rfl⟩ | ⟨data, rfl⟩
  · exact readable_op_iff.2 (hop code hmem)
  · exact readable_ofData_of_data? (hlength _ hmem)

/-- **A script read word by word.** Where the word of each instruction stands for what `g` makes of
    the instruction, the text of a script stands for what `g` makes of all of them. -/
theorem ofAsm_toAsm_map {script : Script} {g : Instr → Instr}
    (hword : ∀ instr ∈ script, Text.IsWord instr.toWord.toList)
    (hread : ∀ instr ∈ script, Instr.ofWord instr.toWord = .ok (g instr)) :
    Script.ofAsm script.toAsm = .ok (script.map g) := by
  have hwords : ∀ word ∈ script.map Instr.toWord, Text.IsWord word.toList := by
    intro word hmem
    obtain ⟨instr, hinstr, rfl⟩ := List.mem_map.1 hmem
    exact hword instr hinstr
  rw [Script.toAsm, ofAsm_intercalate hwords, mapM_eq_ok_iff, List.forall₂_map_left_iff,
    List.forall₂_map_right_iff, List.forall₂_same]
  exact hread

/-- **Reading undoes writing.** A script of legible instructions is read back from its text. -/
theorem ofAsm_toAsm {script : Script} (h : ∀ instr ∈ script, instr.Legible) :
    Script.ofAsm script.toAsm = .ok script := by
  have hread := ofAsm_toAsm_map (g := id) (fun instr hmem => (h instr hmem).1)
    fun instr hmem => (h instr hmem).2
  rwa [List.map_id] at hread

end ScriptAbi
