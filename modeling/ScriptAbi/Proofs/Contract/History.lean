import ScriptAbi.Proofs.Contract.State
import ScriptAbi.Proofs.Template.Deferred

namespace ScriptAbi

/-!
# How a contract changes

* `Contract.Change`: data or a state is set, a transaction is set, placeholders are filled.
* `Contract.after`, `Contract.afterAll`: a contract after a change and after many. A change that
  fails leaves it what it was.
* `after_eq`, `afterAll_eq`: by induction along the changes, the code is what it was with the values
  filled in, in order, and the data are those that were set last.
* `script_eq_ok_iff_of_data`, `code_eq_ok_iff_of_data_eq_none`: the script of a contract is its code
  and its data, or its code without the return if it has no data.
* `afterAll_code_and_data`: all this of a contract with any history.
-/

namespace Contract

/-! ### Changes -/

/-- What is done to a contract. -/
inductive Change
  /-- A text is set as the data. -/
  | setText (asm : String)
  /-- A script is set as the data. -/
  | setData (data : Script)
  /-- Values are set as the state; their length has the given width, or the usual one. -/
  | setState (width : Option Nat) (values : List Datum)
  | setContext (context : SpendContext)
  /-- Placeholders in the code are filled. -/
  | fill (values : String → Option String)

namespace Change

/-- The contract with the change made. A state that is too long for its width cannot be set. -/
def apply (contract : Contract) : Change → Except ContractError Contract
  | .setText asm => .ok (contract.withDataText asm)
  | .setData data => .ok (contract.withData data)
  | .setState width values => contract.withState (width.getD defaultLengthWidth) values
  | .setContext context => .ok (contract.withContext context)
  | .fill values => .ok (contract.fill values)

/-- The text of the data that the change sets, if it sets some and does not fail. -/
def dataText? : Change → Option String
  | .setText asm => some (Text.trimmed asm)
  | .setData data => some data.toAsm
  | .setState width values =>
    (encodeState (width.getD defaultLengthWidth) values).toOption.map Script.toAsm
  | .setContext _ | .fill _ => none

/-- The transaction that the change sets. -/
def context? : Change → Option SpendContext
  | .setContext context => some context
  | _ => none

/-- The values that the change fills in. -/
def values? : Change → Option (String → Option String)
  | .fill values => some values
  | _ => none

end Change

/-- The contract after a change; it stays what it was if the change fails. -/
def after (contract : Contract) (change : Change) : Contract :=
  match change.apply contract with
  | .ok changed => changed
  | .error _ => contract

/-- The contract after the changes, one after the other. -/
def afterAll (contract : Contract) (changes : List Change) : Contract :=
  changes.foldl after contract

variable {contract : Contract}

/-- **One change** sets the data or the transaction or fills the code, and nothing else. -/
theorem after_eq (contract : Contract) (change : Change) :
    contract.after change =
      { contract with
        creation :=
          { contract.creation with
            asm := Template.fillAll contract.creation.asm change.values?.toList }
        data := change.dataText?.or contract.data
        context := change.context?.getD contract.context } := by
  cases change with
  | setText asm => rfl
  | setData data => rfl
  | setContext context => rfl
  | fill values => rfl
  | setState width values =>
    -- a state that cannot be encoded is not set
    simp only [after, Change.apply, withState, Change.dataText?]
    cases encodeState (width.getD defaultLengthWidth) values with
    | error e => rfl
    | ok state => rfl

/-- **Many changes.** The code is filled with the values of each pass, in order. The data and the
    transaction are those that were set last. -/
theorem afterAll_eq (contract : Contract) (changes : List Change) :
    contract.afterAll changes =
      { contract with
        creation :=
          { contract.creation with
            asm := Template.fillAll contract.creation.asm (changes.filterMap Change.values?) }
        data := (changes.filterMap Change.dataText?).getLast?.or contract.data
        context := (changes.filterMap Change.context?).getLast?.getD contract.context } := by
  induction changes generalizing contract with
  | nil => rfl
  | cons change rest ih =>
    have hcons {α : Type} (f : Change → Option α) :
        (change :: rest).filterMap f = (f change).toList ++ rest.filterMap f := by
      simp [List.filterMap_eq_flatMap_toList]
    have hlast {α : Type} (o : Option α) : o.toList.getLast? = o := by
      cases o <;> rfl
    show (contract.after change).afterAll rest = _
    rw [ih, after_eq]
    -- what the first change sets counts only where no later one sets it again
    simp only [hcons, Template.fillAll_append, List.getLast?_append, hlast, Option.or_assoc,
      Option.getD_or]

/-- A change that fails might as well not have been made. -/
theorem afterAll_of_error {front back : List Change} {change : Change} {e : ContractError}
    (h : change.apply (contract.afterAll front) = .error e) :
    contract.afterAll (front ++ change :: back) = contract.afterAll (front ++ back) := by
  have hsame : (contract.afterAll front).after change = contract.afterAll front := by
    rw [after, h]
  have hfold (later : List Change) :
      contract.afterAll (front ++ later) = (contract.afterAll front).afterAll later :=
    List.foldl_append
  rw [hfold, hfold]
  show ((contract.afterAll front).after change).afterAll back = _
  rw [hsame]

/-! ### Code and data -/

/-- The code of a contract is the script of its text, and a return. -/
theorem code_eq_ok_iff {code : Script} :
    contract.code = .ok code ↔
      ∃ script, Script.ofAsm contract.creation.asm = .ok script
        ∧ code = script ++ [.op Opcode.ret] := by
  have htext : contract.codeAsm = contract.creation.asm ++ " " ++ "OP_RETURN" := by
    rw [codeAsm, String.append_assoc]
    rfl
  -- the text of the code is that of the creation, a blank and a return
  rw [Contract.code, mapError_eq_ok_iff, htext, ofAsm_append_space_eq_ok_iff]
  constructor
  · rintro ⟨script, ret, hscript, hret, rfl⟩
    rw [ofAsm_return] at hret
    cases hret
    exact ⟨script, hscript, rfl⟩
  · rintro ⟨script, hscript, rfl⟩
    exact ⟨script, _, hscript, ofAsm_return, rfl⟩

/-- Data are read from their text. -/
theorem dataScript_eq_ok_some_iff {text : String} (hdata : contract.data = some text)
    {data : Script} :
    contract.dataScript = .ok (some data) ↔ Script.ofAsm text = .ok data := by
  rw [dataScript, hdata, mapError_eq_ok_iff, map_eq_ok_iff]
  simp

/-- **With data**, the script of a contract is its code and then its data. -/
theorem script_eq_ok_iff_of_data {text : String} (hdata : contract.data = some text)
    {script : Script} :
    contract.script = .ok script ↔
      ∃ code data, contract.code = .ok code ∧ contract.dataScript = .ok (some data)
        ∧ script = code ++ data := by
  have htext : contract.asm = Text.trimmed (contract.creation.asm ++ " OP_RETURN " ++ text) := by
    rw [asm, hdata]
  -- both texts are read part by part, and have the return between them
  simp only [Contract.script, mapError_eq_ok_iff, htext, ofAsm_trimmed, append_return_eq,
    ofAsm_append_space_eq_ok_iff, code_eq_ok_iff, dataScript_eq_ok_some_iff hdata]
  constructor
  · rintro ⟨front, _, hfront, ⟨ret, data, hret, hback, rfl⟩, rfl⟩
    rw [ofAsm_return] at hret
    cases hret
    exact ⟨_, data, ⟨front, hfront, rfl⟩, hback, by simp⟩
  · rintro ⟨_, data, ⟨front, hfront, rfl⟩, hback, rfl⟩
    exact ⟨front, _, hfront, ⟨_, data, ofAsm_return, hback, rfl⟩, by simp⟩

/-- **Without data**, the code of a contract is its script and then a return. -/
theorem code_eq_ok_iff_of_data_eq_none (hdata : contract.data = none) {code : Script} :
    contract.code = .ok code ↔
      ∃ script, contract.script = .ok script ∧ code = script ++ [.op Opcode.ret] := by
  have htext : contract.asm = Text.trimmed contract.creation.asm := by
    rw [asm, hdata]
  simp only [code_eq_ok_iff, Contract.script, mapError_eq_ok_iff, htext, ofAsm_trimmed]

/-! ### Code and data of a contract with a history -/

/-- **Code and data are kept apart.** Whatever is done to a contract, a change that fails changes
    nothing, its data are those that were set last, its code is the text that it had with the values
    of each pass filled in, in order. Its script is its code and then its data, and can be read iff
    both can. Where there are no data, it is its code without the return. -/
theorem afterAll_code_and_data (contract : Contract) (changes : List Change) :
    (∀ front change back e, changes = front ++ change :: back →
        change.apply (contract.afterAll front) = .error e →
        contract.afterAll changes = contract.afterAll (front ++ back))
      ∧ (contract.afterAll changes).data
        = (changes.filterMap Change.dataText?).getLast?.or contract.data
      ∧ (contract.afterAll changes).creation
        = { contract.creation with
            asm := Template.fillAll contract.creation.asm (changes.filterMap Change.values?) }
      ∧ (∀ text script, (contract.afterAll changes).data = some text →
        ((contract.afterAll changes).script = .ok script ↔
          ∃ code data, (contract.afterAll changes).code = .ok code
            ∧ (contract.afterAll changes).dataScript = .ok (some data) ∧ script = code ++ data))
      ∧ ∀ code, (contract.afterAll changes).data = none →
        ((contract.afterAll changes).code = .ok code ↔
          ∃ script, (contract.afterAll changes).script = .ok script
            ∧ code = script ++ [.op Opcode.ret]) := by
  -- data and creation are read off what the changes come to
  refine ⟨?_, by rw [afterAll_eq], by rw [afterAll_eq], ?_, ?_⟩
  · rintro front change back e rfl h
    exact afterAll_of_error h
  · exact fun text script hdata => script_eq_ok_iff_of_data hdata
  · exact fun code hdata => code_eq_ok_iff_of_data_eq_none hdata

/-! A contract with an open placeholder, whose data are set a few times, once in vain. -/

/-- A contract with a placeholder in its code. -/
def openContract : Contract where
  descriptor := ⟨"", "Open", "", [], [], "OP_DUP $salt OP_RETURN", none, 1⟩
  creation := ⟨constructorName, [], .locking, "OP_DUP $salt OP_RETURN"⟩
  data := none
  context := .empty

/-- Fills the placeholder with two words and blanks around them. -/
def fillSalt : Change := .fill fun slot => if slot = "salt" then some " 6A\tOP_NOP " else none

/-- A text, a state, then a state whose length does not fit, and the placeholder filled after it. -/
def openChanges : List Change :=
  [.setText " OP_0  0100\n", .setState none [.int 7, .bytes [0x6a]], .setState (some 0) [.int 8],
    fillSalt]

/-- The state that does not fit leaves the one before it, the placeholder is filled in the code, and
    the data follow the return. Without data there is no return at the end. -/
theorem afterAll_code_and_data_open :
    (openContract.afterAll openChanges).data = some "07 6a 0400"
      ∧ (openContract.afterAll openChanges).script
        = .ok [.op 0x76, .push .direct [0x6a], .op 0x61, .op 0x6a, .op 0x6a, .push .direct [0x07],
            .push .direct [0x6a], .push .direct [0x04, 0x00]]
      ∧ (openContract.afterAll [fillSalt]).script
        = .ok [.op 0x76, .push .direct [0x6a], .op 0x61, .op 0x6a] := by
  obtain ⟨-, hdata, -, hscript, -⟩ := afterAll_code_and_data openContract openChanges
  obtain ⟨-, hnone, -, -, hcode⟩ := afterAll_code_and_data openContract [fillSalt]
  have htext : (openContract.afterAll openChanges).data = some "07 6a 0400" :=
    hdata.trans (by decide +kernel)
  refine ⟨htext, (hscript _ _ htext).2 ?_, ?_⟩
  · -- the code and the data are read apart
    exact ⟨[.op 0x76, .push .direct [0x6a], .op 0x61, .op 0x6a, .op 0x6a], _,
      by decide +kernel, by decide +kernel, rfl⟩
  · obtain ⟨script, hread, heq⟩ := (hcode
      [.op 0x76, .push .direct [0x6a], .op 0x61, .op 0x6a, .op 0x6a] (hnone.trans rfl)).1
        (by decide +kernel)
    -- without data, the script is the code but for its return
    have hret : script ++ [.op Opcode.ret]
        = [.op 0x76, .push .direct [0x6a], .op 0x61, .op 0x6a] ++ [.op Opcode.ret] := heq.symm
    rw [hread, List.append_cancel_right hret]

end Contract

end ScriptAbi
