import ScriptAbi.Proofs.Script.Words

namespace ScriptAbi

/-!
# What a text keeps of a script

The text of a push is its data, which do not tell how their length was written.

* `Instr.Worded`: an instruction that has a word: a bare opcode with a name, or a push of something.
* `Instr.shortened`: what its word stands for. A push takes the shortest form.
* `ofAsm_toAsm_of_worded`: a script of such instructions is read back from its text, shortened.
* `map_shortened_eq_self_iff`: it is the same script iff its pushes have the shortest form already.
* `parse_toBytes_shortened`: a script that can be read back from its bytes still can when shortened.
  `toBytes_shortened_eq_iff` says when the bytes are the same.
-/

/-- The instruction has a word of its own: its opcode has a name, or there are data to write. -/
def Instr.Worded : Instr → Prop
  | .op code => (Opcode.name? code).isSome
  | .push _ data => data ≠ []

instance : (instr : Instr) → Decidable instr.Worded
  | .op code => inferInstanceAs (Decidable ((Opcode.name? code).isSome = true))
  | .push _ data => inferInstanceAs (Decidable (data ≠ []))

/-- The same instruction, with the length of what it pushes in the shortest form. -/
def Instr.shortened : Instr → Instr
  | .op code => .op code
  | .push _ data => .ofData data

variable {instr : Instr} {script : Script}

/-! ### One word -/

/-- The name of an opcode is a word. -/
private theorem isWord_of_mem_names : ∀ entry ∈ Opcode.names, Text.IsWord entry.2.toList := by
  decide +kernel

/-- An opcode is told by its name. -/
private theorem ofName?_of_mem_names :
    ∀ entry ∈ Opcode.names, Opcode.ofName? entry.2 = some entry.1 := by
  decide +kernel

/-- An opcode with a name is written as its name. -/
theorem legible_op {code : Opcode} (h : (Opcode.name? code).isSome) : (Instr.op code).Legible := by
  obtain ⟨name, hname⟩ := Option.isSome_iff_exists.1 h
  have hmem : (code, name) ∈ Opcode.names := by
    obtain ⟨front, back, heq, -⟩ := List.lookup_eq_some_iff.1 hname
    simp [heq]
  have hcode : Opcode.ofName? name = some code := ofName?_of_mem_names _ hmem
  have hwritten : (Instr.op code).toWord = name := by
    rw [Instr.toWord, hname, Option.getD_some]
  rw [Instr.Legible, hwritten]
  exact ⟨isWord_of_mem_names _ hmem, by rw [Instr.ofWord, hcode]⟩

/-- What stands for an instruction in a text is a word. -/
theorem isWord_toWord (h : instr.Worded) : Text.IsWord instr.toWord.toList := by
  cases instr with
  | op code => exact (legible_op h).1
  | push form data => exact isWord_encode h

/-- **The word of an instruction** stands for the instruction, shortened. -/
theorem ofWord_toWord (h : instr.Worded) : Instr.ofWord instr.toWord = .ok instr.shortened := by
  cases instr with
  | op code => exact (legible_op h).2
  | push form data => exact ofWord_encode h

/-- A push of something is shortened iff it was not in the shortest form. -/
theorem shortened_eq_self_iff (h : instr.Worded) :
    instr.shortened = instr ↔
      ∀ form data, instr = .push form data → form = PushForm.shortest data.length := by
  cases instr with
  | op code => simp [Instr.shortened]
  | push form data =>
    have hne : data ≠ [] := h
    simp only [Instr.shortened, Instr.ofData, List.isEmpty_iff, hne, if_false, Instr.push.injEq,
      and_true]
    constructor
    · rintro heq _ _ ⟨rfl, rfl⟩
      exact heq.symm
    · intro hshortest
      exact (hshortest form data ⟨rfl, rfl⟩).symm

/-- What is pushed does not get longer than its length bytes can tell. -/
theorem length_lt_of_fits {form : PushForm} {length : Nat} (h : form.Fits length) :
    length < 2 ^ 32 := by
  cases form with
  | direct => exact h.2.trans (by decide)
  | oneByte | twoByte | fourByte => exact lt_of_lt_of_le h (by decide)

/-- In the shortest form an instruction is still told by its bytes. -/
theorem readable_shortened (h : instr.Readable) : instr.shortened.Readable := by
  cases instr with
  | op code => exact h
  | push form data => exact readable_ofData (length_lt_of_fits h)

/-! ### Whole scripts -/

/-- **A text keeps a script** but for the forms of its pushes. -/
theorem ofAsm_toAsm_of_worded (h : ∀ instr ∈ script, instr.Worded) :
    Script.ofAsm script.toAsm = .ok (script.map Instr.shortened) :=
  ofAsm_toAsm_map (fun instr hmem => isWord_toWord (h instr hmem))
    fun instr hmem => ofWord_toWord (h instr hmem)

/-- It keeps them too iff they are the shortest. -/
theorem map_shortened_eq_self_iff (h : ∀ instr ∈ script, instr.Worded) :
    script.map Instr.shortened = script ↔
      ∀ form data, .push form data ∈ script → form = PushForm.shortest data.length := by
  have hself : script.map Instr.shortened = script ↔ ∀ instr ∈ script, instr.shortened = instr := by
    simpa using List.map_inj_left (l := script) (f := Instr.shortened) (g := id)
  rw [hself]
  constructor
  · intro hsame form data hmem
    exact (shortened_eq_self_iff (h _ hmem)).1 (hsame _ hmem) form data rfl
  · rintro hshortest instr hmem
    refine (shortened_eq_self_iff (h instr hmem)).2 ?_
    rintro form data rfl
    exact hshortest form data hmem

/-- What can be read back from its bytes can be so with the shortest forms. -/
theorem parse_toBytes_shortened (h : ∀ instr ∈ script, instr.Readable) :
    Script.parse (Script.toBytes (script.map Instr.shortened))
      = .ok (script.map Instr.shortened) := by
  apply parse_toBytes
  intro instr hmem
  obtain ⟨original, horiginal, rfl⟩ := List.mem_map.1 hmem
  exact readable_shortened (h original horiginal)

/-- The bytes are the same iff nothing was shortened. -/
theorem toBytes_shortened_eq_iff (h : ∀ instr ∈ script, instr.Readable) :
    Script.toBytes (script.map Instr.shortened) = script.toBytes ↔
      script.map Instr.shortened = script := by
  constructor
  · intro hbytes
    have hshort := parse_toBytes_shortened h
    rw [hbytes, parse_toBytes h] at hshort
    exact (Except.ok.inj hshort).symm
  · exact fun hself => by rw [hself]

end ScriptAbi
