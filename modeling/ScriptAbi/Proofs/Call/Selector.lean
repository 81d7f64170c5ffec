import ScriptAbi.Codec.Descriptor
import ScriptAbi.Proofs.Call.Function

namespace ScriptAbi

/-!
# What selects a function

A call of one of several functions ends in a word that tells the functions apart, as far as their
numbers do.

* `Entry.number`: the number of a function, its own or its position.
* `getLast?_wordsOf_ofFunction`: the last word of a call is that of the number.
* `Abi.Selectable`, `number_ne_of_selectable`: interfaces in which no two functions have the same
  number.
* `selector_eq_iff_number_eq`: calls of two functions end in the same word iff the functions have the
  same number.
* `selector_eq_of_shared_number`: a descriptor may give functions the same number.
-/

variable {abi : Abi} {schemas : List Schema} {args args' : List Value} {name name' : String}

/-- The number that selects a function: its own, or its position among the functions. -/
def Entry.number (position : Nat) (entry : Entry) : Nat :=
  (entry.index.map UInt64.toNat).getD position

/-! ### The last word -/

/-- Functions of different names are at different positions. -/
theorem position_ne_of_name_ne {position position' : Nat} {entry entry' : Entry} (hne : name ≠ name')
    (h : abi.function? name = some (position, entry))
    (h' : abi.function? name' = some (position', entry')) : position ≠ position' := by
  obtain ⟨hget, hname, -⟩ := function?_eq_some_iff.1 h
  obtain ⟨hget', hname', -⟩ := function?_eq_some_iff.1 h'
  rintro rfl
  rw [hget] at hget'
  cases hget'
  exact hne (hname.symm.trans hname')

/-- Where there are two functions there is a choice. -/
theorem one_lt_length_of_position_ne {position position' : Nat} {entry entry' : Entry}
    (hne : position ≠ position') (hget : abi.functions[position]? = some entry)
    (hget' : abi.functions[position']? = some entry') : 1 < abi.functions.length := by
  obtain ⟨hlt, -⟩ := List.getElem?_eq_some_iff.1 hget
  obtain ⟨hlt', -⟩ := List.getElem?_eq_some_iff.1 hget'
  omega

/-- The last words of a function's call are those that select it. -/
theorem exists_wordsOf_ofFunction {call : Call}
    (h : Call.ofFunction abi schemas name args = .ok call) :
    ∃ position entry words, abi.function? name = some (position, entry)
      ∧ Text.wordsOf call.asm = words ++ abi.selector position entry := by
  obtain ⟨position, entry, values, hfound, -, -, rfl⟩ := ofFunction_eq_ok_iff.1 h
  have hwords : ∀ word ∈ (values.flatMap fun value => value.2.scalars.map Value.word)
      ++ abi.selector position entry, Text.IsWord word.toList := by
    intro word hword
    rcases List.mem_append.1 hword with hword | hword
    · exact Value.isWord_of_mem_namedWords hword
    · exact (exists_isSelector abi position entry).1 word hword
  refine ⟨position, entry, values.flatMap fun value => value.2.scalars.map Value.word, hfound, ?_⟩
  show Text.wordsOf (Value.joinWords _) = _
  rw [Value.joinWords_of_isWord hwords, Text.wordsOf_intercalate hwords]

/-- **The last word of a call** is that of the function's number, where there is a choice. -/
theorem getLast?_wordsOf_ofFunction {call : Call} {position : Nat} {entry : Entry}
    (h : Call.ofFunction abi schemas name args = .ok call)
    (hfound : abi.function? name = some (position, entry)) (hchoice : 1 < abi.functions.length) :
    (Text.wordsOf call.asm).getLast? = some (Word.ofInt (entry.number position)) := by
  obtain ⟨_, _, words, hfound', hwords⟩ := exists_wordsOf_ofFunction h
  rw [hfound] at hfound'
  cases hfound'
  rw [hwords, Abi.selector, if_pos hchoice, List.getLast?_append]
  rfl

/-! ### Numbers that tell functions apart -/

/-- No function has a number of its own, or all have and no two of them the same. -/
def Abi.Selectable (abi : Abi) : Prop :=
  (∀ entry ∈ abi.functions, entry.index = none)
    ∨ (∀ entry ∈ abi.functions, entry.index ≠ none) ∧ (abi.functions.map Entry.index).Nodup

/-- In such an interface no two functions have the same number. -/
theorem number_ne_of_selectable (hselectable : abi.Selectable) {position position' : Nat}
    {entry entry' : Entry} (hne : position ≠ position')
    (hget : abi.functions[position]? = some entry)
    (hget' : abi.functions[position']? = some entry') :
    entry.number position ≠ entry'.number position' := by
  have hmem := List.mem_of_getElem? hget
  have hmem' := List.mem_of_getElem? hget'
  rcases hselectable with hnone | ⟨hsome, hnodup⟩
  · -- their numbers are their positions
    simpa [Entry.number, hnone entry hmem, hnone entry' hmem'] using hne
  · obtain ⟨index, hindex⟩ := Option.ne_none_iff_exists'.1 (hsome entry hmem)
    obtain ⟨index', hindex'⟩ := Option.ne_none_iff_exists'.1 (hsome entry' hmem')
    intro hnumber
    simp only [Entry.number, hindex, hindex', Option.map_some, Option.getD_some] at hnumber
    -- one number would be that of two positions
    have hsame : entry.index = entry'.index := by
      rw [hindex, hindex', UInt64.toNat_inj.1 hnumber]
    have hat : (abi.functions.map Entry.index)[position]?
        = (abi.functions.map Entry.index)[position']? := by
      simp [hget, hget', hsame]
    have hlt : position < (abi.functions.map Entry.index).length := by
      rw [List.length_map]
      exact (List.getElem?_eq_some_iff.1 hget).1
    exact hne ((List.getElem?_inj hlt hnodup).1 hat)

/-- **What tells functions apart.** The calls of two functions of a contract end in the words of the
    functions' numbers, and these are the same iff the numbers are. They are not, where no function
    has a number of its own, or all have and no two of them the same. -/
theorem selector_eq_iff_number_eq {descriptor : Descriptor} {call call' : Call} (hne : name ≠ name')
    (h : descriptor.functionCall name args = .ok call)
    (h' : descriptor.functionCall name' args' = .ok call') :
    ∃ position entry position' entry', descriptor.abi.function? name = some (position, entry)
      ∧ descriptor.abi.function? name' = some (position', entry')
      ∧ (Text.wordsOf call.asm).getLast? = some (Word.ofInt (entry.number position))
      ∧ (Text.wordsOf call'.asm).getLast? = some (Word.ofInt (entry'.number position'))
      ∧ ((Text.wordsOf call.asm).getLast? = (Text.wordsOf call'.asm).getLast? ↔
          entry.number position = entry'.number position')
      ∧ (descriptor.abi.Selectable →
          (Text.wordsOf call.asm).getLast? ≠ (Text.wordsOf call'.asm).getLast?) := by
  obtain ⟨position, entry, -, hfound, -⟩ := exists_wordsOf_ofFunction h
  obtain ⟨position', entry', -, hfound', -⟩ := exists_wordsOf_ofFunction h'
  obtain ⟨hget, -, -⟩ := function?_eq_some_iff.1 hfound
  obtain ⟨hget', -, -⟩ := function?_eq_some_iff.1 hfound'
  have hposition := position_ne_of_name_ne hne hfound hfound'
  -- two positions make two functions, so that the calls end in selectors
  have hchoice := one_lt_length_of_position_ne hposition hget hget'
  have hlast := getLast?_wordsOf_ofFunction h hfound hchoice
  have hlast' := getLast?_wordsOf_ofFunction h' hfound' hchoice
  -- the words of two numbers are the same only if the numbers are
  have hiff : (Text.wordsOf call.asm).getLast? = (Text.wordsOf call'.asm).getLast? ↔
      entry.number position = entry'.number position' := by
    rw [hlast, hlast', Option.some_inj, ofInt_injective.eq_iff, Int.natCast_inj]
  refine ⟨position, entry, position', entry', hfound, hfound', hlast, hlast', hiff, ?_⟩
  intro hselectable heq
  exact number_ne_of_selectable hselectable hposition hget hget' (hiff.1 heq)

/-- A contract with the functions of `spendAbi`, of which only some have a number of their own. -/
def spendDescriptor : Descriptor :=
  ⟨"", "Spend", "", [pairSchema], spendAbi, "OP_1", none, 1⟩

/-- The calls of two functions end in different words: the one in its position, the other in its
    number. -/
theorem selector_eq_iff_number_eq_spend :
    spendDescriptor.functionCall "pay" [] = .ok ⟨"pay", [], .unlocking, "OP_0"⟩
      ∧ spendDescriptor.functionCall "spend" pairArgs
        = .ok ⟨"spend", pairArgs, .unlocking, "OP_16 OP_0 11 11 OP_FALSE e803"⟩
      ∧ (Text.wordsOf "OP_0").getLast?
        ≠ (Text.wordsOf "OP_16 OP_0 11 11 OP_FALSE e803").getLast? := by
  have hpay : spendDescriptor.functionCall "pay" [] = .ok ⟨"pay", [], .unlocking, "OP_0"⟩ := by
    decide +kernel
  have hspend : spendDescriptor.functionCall "spend" pairArgs
      = .ok ⟨"spend", pairArgs, .unlocking, "OP_16 OP_0 11 11 OP_FALSE e803"⟩ := by
    decide +kernel
  obtain ⟨position, entry, position', entry', hfound, hfound', -, -, hiff, -⟩ :=
    selector_eq_iff_number_eq (by decide) hpay hspend
  have hpayFound : spendAbi.function? "pay" = some (0, ⟨.function, "pay", none, []⟩) := by
    decide +kernel
  have hspendFound : spendAbi.function? "spend"
      = some (1, ⟨.function, "spend", some 1000, pairParams⟩) := by decide +kernel
  -- the first function of each name is the only one that counts
  cases hpayFound.symm.trans hfound
  cases hspendFound.symm.trans hfound'
  exact ⟨hpay, hspend, fun heq => absurd (hiff.1 heq) (by decide)⟩

/-! ### Numbers that do not -/

/-- The text of a descriptor with three functions. The second has no number of its own, and those of
    the others are its position. -/
def sharedText : String :=
  "\x7b\"contract\":\"Shared\",\"asm\":\"OP_1\",\"abi\":[" ++
    "\x7b\"type\":\"function\",\"name\":\"pay\",\"index\":1\x7d," ++
    "\x7b\"type\":\"function\",\"name\":\"spend\"\x7d," ++
    "\x7b\"type\":\"function\",\"name\":\"close\",\"index\":1\x7d]\x7d"

/-- The descriptor of that text. -/
def sharedDescriptor : Descriptor :=
  ⟨"", "Shared", "", [], [⟨.function, "pay", some 1, []⟩, ⟨.function, "spend", none, []⟩,
    ⟨.function, "close", some 1, []⟩], "OP_1", none, 1⟩

/-- **Functions can share a number.** A descriptor in which they do is read, and calls of three of its
    functions have the same text. -/
theorem selector_eq_of_shared_number :
    Descriptor.ofText sharedText = .ok sharedDescriptor
      ∧ sharedDescriptor.functionCall "pay" [] = .ok ⟨"pay", [], .unlocking, "OP_1"⟩
      ∧ sharedDescriptor.functionCall "spend" [] = .ok ⟨"spend", [], .unlocking, "OP_1"⟩
      ∧ sharedDescriptor.functionCall "close" [] = .ok ⟨"close", [], .unlocking, "OP_1"⟩ := by
  refine ⟨?_, ?_, ?_, ?_⟩
  all_goals decide +kernel

end ScriptAbi
