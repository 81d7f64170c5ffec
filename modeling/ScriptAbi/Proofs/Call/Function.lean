import ScriptAbi.Proofs.Call.Arguments
import ScriptAbi.Proofs.State.RoundTrip
import ScriptAbi.Proofs.Value.Decidable

namespace ScriptAbi

/-!
# Calls of public functions

* `function?_eq_some_iff`: the function that is found is the first of its name.
* `ofFunction_eq_ok_iff`: when a function's call is made, and its text.
* `Value.ReadAs`: the instruction that a scalar's own text stands for.
* `Abi.IsSelector`: what selects a function, where there is a choice.
* `ofAsm_ofFunction`: the script of a call is an instruction for each scalar of the arguments, in
  order, and then the selector.
-/

variable {abi : Abi} {schemas : List Schema} {args : List Value} {name : String}

/-! ### The function -/

/-- **The function that is found** is the first public function of its name. -/
theorem function?_eq_some_iff {position : Nat} {entry : Entry} :
    abi.function? name = some (position, entry) ↔
      abi.functions[position]? = some entry ∧ entry.name = name
        ∧ ∀ earlier < position, ∀ other ∈ abi.functions[earlier]?, other.name ≠ name := by
  rw [Abi.function?, Option.map_eq_some_iff]
  constructor
  · rintro ⟨⟨found, i⟩, hfind, heq⟩
    cases heq
    -- what is found first among the numbered functions has its own position as number
    obtain ⟨hname, j, hj, hget, hbefore⟩ := List.find?_eq_some_iff_getElem.1 hfind
    simp only [List.length_zipIdx] at hj
    rw [List.getElem_zipIdx, Prod.mk.injEq, Nat.zero_add] at hget
    obtain ⟨rfl, rfl⟩ := hget
    refine ⟨List.getElem?_eq_getElem hj, by simpa using hname, fun earlier hlt other hother => ?_⟩
    have hnot := hbefore earlier hlt
    obtain ⟨hearlier, rfl⟩ := List.getElem?_eq_some_iff.1 hother
    simpa using hnot
  · rintro ⟨hget, hname, hbefore⟩
    obtain ⟨hlt, rfl⟩ := List.getElem?_eq_some_iff.1 hget
    -- it is found, as no earlier one has the name
    refine ⟨(abi.functions[position], position), ?_, rfl⟩
    rw [List.find?_eq_some_iff_getElem]
    refine ⟨by simpa using hname, position, by simpa using hlt, by simp, fun earlier hj => ?_⟩
    have hearlier : earlier < abi.functions.length := Nat.lt_trans hj hlt
    simpa using hbefore earlier hj _ (List.getElem?_eq_getElem hearlier)

/-! ### The text of a call -/

/-- **When a function's call is made**, and its text. -/
theorem ofFunction_eq_ok_iff {call : Call} :
    Call.ofFunction abi schemas name args = .ok call ↔
      ∃ position entry values, abi.function? name = some (position, entry)
        ∧ entry.params.length = args.length
        ∧ checkArguments schemas entry.params args = .ok values
        ∧ call = ⟨name, args, .unlocking, Value.joinWords
            ((values.flatMap fun value => value.2.scalars.map Value.word)
              ++ abi.selector position entry)⟩ := by
  -- words joined argument by argument are the words joined at once
  have hjoin : ∀ (values : List (String × Value)) (selector : List String),
      Value.joinWords ((values.map fun value =>
          Value.joinWords (value.2.scalars.map Value.word)) ++ selector)
        = Value.joinWords ((values.flatMap fun value => value.2.scalars.map Value.word)
            ++ selector) := by
    intro values selector
    have hflatten := Value.joinWords_flatten
      (values.map fun value => value.2.scalars.map Value.word)
    rw [List.map_map, ← List.flatMap_def] at hflatten
    rw [Value.joinWords_append, Value.joinWords_append, ← hflatten]
    rfl
  unfold Call.ofFunction
  split
  · rename_i hnone
    simp [hnone]
  · rename_i position entry hfound
    rw [hfound, bind_eq_ok_iff]
    constructor
    · rintro ⟨_, harity, h⟩
      obtain ⟨texts, htexts, heq⟩ := bind_eq_ok_iff.1 h
      obtain ⟨values, hvalues, rfl⟩ := mapM_argumentAsm_eq_ok_iff.1 htexts
      cases heq
      rw [hjoin]
      exact ⟨position, entry, values, rfl, checkArity_eq_ok_iff.1 harity, hvalues, rfl⟩
    · rintro ⟨_, _, values, heq, harity, hvalues, rfl⟩
      cases heq
      refine ⟨(), checkArity_eq_ok_iff.2 harity, ?_⟩
      refine bind_eq_ok_iff.2 ⟨_, mapM_argumentAsm_eq_ok_iff.2 ⟨values, hvalues, rfl⟩, ?_⟩
      rw [hjoin]
      rfl

/-! ### The script of a call -/

/-- The text of the value stands for this one instruction. -/
def Value.ReadAs (value : Value) (instr : Instr) : Prop :=
  ∃ text, value.asm = .ok text ∧ Script.ofAsm text = .ok [instr]

/-- The script that selects the function at the position: nothing if there is no other function,
    else one instruction, whose number is the entry's own or its position. -/
def Abi.IsSelector (abi : Abi) (position : Nat) (entry : Entry) (script : Script) : Prop :=
  if 1 < abi.functions.length then
    ∃ instr, script = [instr]
      ∧ ∀ index, Cell.number ⟨index, instr⟩
          = .ok ((entry.index.map UInt64.toNat).getD position : Int)
  else script = []

/-- The words that select a function are words, and stand for its selector. -/
theorem exists_isSelector (abi : Abi) (position : Nat) (entry : Entry) :
    (∀ word ∈ abi.selector position entry, Text.IsWord word.toList)
      ∧ ∃ script, (abi.selector position entry).mapM Instr.ofWord = .ok script
        ∧ abi.IsSelector position entry script := by
  -- only where there is a choice is there a selector
  by_cases hchoice : 1 < abi.functions.length
  · rw [Abi.selector, if_pos hchoice]
    refine ⟨?_, [.ofInt ((entry.index.map UInt64.toNat).getD position)], ?_, ?_⟩
    · intro word hword
      rw [List.mem_singleton.1 hword]
      exact isWord_ofInt _
    · simp [ofWord_ofInt, pure, Except.pure, bind, Except.bind]
    · rw [Abi.IsSelector, if_pos hchoice]
      exact ⟨_, rfl, fun index => number_ofInt index _⟩
  · rw [Abi.selector, if_neg hchoice]
    refine ⟨by simp, [], rfl, ?_⟩
    rw [Abi.IsSelector, if_neg hchoice]

/-- The scalars of values stand for an instruction each. -/
theorem exists_forall₂_readAs {scalars : List Value}
    (h : ∀ scalar ∈ scalars, ∃ kind, scalar.kind? = some kind) :
    ∃ script, (scalars.map Value.word).mapM Instr.ofWord = .ok script
      ∧ List.Forall₂ Value.ReadAs scalars script := by
  induction scalars with
  | nil => exact ⟨[], rfl, .nil⟩
  | cons scalar rest ih =>
    obtain ⟨kind, hkind⟩ := h scalar (by simp)
    obtain ⟨script, hscript, hrest⟩ := ih fun s hs => h s (by simp [hs])
    -- one word for each scalar, and one instruction for each word
    obtain ⟨hword, instr, hinstr⟩ := Value.ofWord_word hkind
    have hread : scalar.ReadAs instr :=
      ⟨scalar.word, Value.asm_of_kind? hkind, ofAsm_of_isWord hword hinstr⟩
    refine ⟨instr :: script, ?_, .cons hread hrest⟩
    rw [mapM_eq_ok_iff, List.map_cons]
    exact .cons hinstr (mapM_eq_ok_iff.1 hscript)

/-- **The script of a function's call** is one instruction for each scalar of the arguments' values,
    which is the instruction of the scalar's own text, and then the selector of the function, which
    is the first one of the given name. -/
theorem ofAsm_ofFunction {call : Call} (h : Call.ofFunction abi schemas name args = .ok call) :
    ∃ position entry values script selector,
      abi.function? name = some (position, entry)
        ∧ abi.functions[position]? = some entry ∧ entry.name = name
        ∧ (∀ earlier < position, ∀ other ∈ abi.functions[earlier]?, other.name ≠ name)
        ∧ entry.params.length = args.length
        ∧ checkArguments schemas entry.params args = .ok values
        ∧ Script.ofAsm call.asm = .ok (script ++ selector)
        ∧ List.Forall₂ Value.ReadAs (values.flatMap fun value => value.2.scalars) script
        ∧ abi.IsSelector position entry selector := by
  obtain ⟨position, entry, values, hfound, harity, hvalues, rfl⟩ := ofFunction_eq_ok_iff.1 h
  obtain ⟨hget, hname, hfirst⟩ := function?_eq_some_iff.1 hfound
  obtain ⟨hselectorWords, selector, hselector, hisSelector⟩ := exists_isSelector abi position entry
  -- the values that stood the check come to scalars, and each of these is one instruction
  have hkinds : ∀ scalar ∈ values.flatMap (fun value => value.2.scalars),
      ∃ kind, scalar.kind? = some kind := by
    intro scalar hscalar
    obtain ⟨value, -, hmem⟩ := List.mem_flatMap.1 hscalar
    exact Value.kind?_of_mem_scalars hmem
  obtain ⟨script, hscript, hread⟩ := exists_forall₂_readAs hkinds
  rw [List.map_flatMap] at hscript
  -- all words of the call are words, so that its text is read word by word
  have hwords : ∀ word ∈ (values.flatMap fun value => value.2.scalars.map Value.word)
      ++ abi.selector position entry, Text.IsWord word.toList := by
    intro word hword
    rcases List.mem_append.1 hword with hword | hword
    · exact Value.isWord_of_mem_namedWords hword
    · exact hselectorWords word hword
  refine ⟨position, entry, values, script, selector, hfound, hget, hname, hfirst, harity, hvalues,
    ?_, hread, hisSelector⟩
  show Script.ofAsm (Value.joinWords _) = _
  rw [Value.joinWords_of_isWord hwords, ofAsm_intercalate hwords]
  exact mapM_append_eq_ok hscript hselector

/-- Three public functions, of which two have the same name. -/
def spendAbi : Abi :=
  [⟨.constructor, "", none, []⟩, ⟨.function, "pay", none, []⟩,
    ⟨.function, "spend", some 1000, pairParams⟩, ⟨.function, "spend", some 3, []⟩]

/-- The call of a function that is one of three ends in a push of its number. It is the first of the
    two functions of its name that is called. -/
theorem ofAsm_ofFunction_spend :
    Call.ofFunction spendAbi [pairSchema] "spend" pairArgs
        = .ok ⟨"spend", pairArgs, .unlocking, "OP_16 OP_0 11 11 OP_FALSE e803"⟩
      ∧ ∃ script instr, Script.ofAsm "OP_16 OP_0 11 11 OP_FALSE e803" = .ok (script ++ [instr])
        ∧ ∀ index, Cell.number ⟨index, instr⟩ = .ok 1000 := by
  have hcall : Call.ofFunction spendAbi [pairSchema] "spend" pairArgs
      = .ok ⟨"spend", pairArgs, .unlocking, "OP_16 OP_0 11 11 OP_FALSE e803"⟩ := by decide +kernel
  obtain ⟨position, entry, values, script, selector, hfound, -, -, -, -, -, hscript, -, hselector⟩ :=
    ofAsm_ofFunction hcall
  have hspend : spendAbi.function? "spend"
      = some (1, ⟨.function, "spend", some 1000, pairParams⟩) := by decide +kernel
  -- the first function of the name has a number of its own
  rw [hspend] at hfound
  cases hfound
  rw [Abi.IsSelector, if_pos (by decide)] at hselector
  obtain ⟨instr, rfl, hnumber⟩ := hselector
  exact ⟨hcall, script, instr, hscript, hnumber⟩

end ScriptAbi
