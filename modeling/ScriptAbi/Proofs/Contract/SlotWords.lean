import ScriptAbi.Proofs.Call.Deferred
import ScriptAbi.Proofs.Contract.History
import ScriptAbi.Proofs.Template.Wordwise

namespace ScriptAbi

/-!
# The words of a contract that stand for placeholders

The words of a contract's code stand in the places of its template's words, also after placeholders
were filled later. So the words that stand for the placeholders can be found by place, and give the
code when they are filled into the template.

* `placeholder?_eq_some_iff`, `mem_filterMap_placeholder?`: words that are placeholders.
* `Contract.slotWords_of_words`: what is found where each word of the code comes from the template's
  word in its place.
* `substitute_of_lookup`: what many passes make of a text, from what they make of its placeholders.
* `Contract.slotWords_afterAll`: all this of a contract with any history.
-/

namespace Contract

/-! ### Words that are placeholders -/

/-- A word is a placeholder of what follows its dollar sign, if anything does. -/
theorem placeholder?_eq_some_iff {word slot : String} :
    placeholder? word = some slot ↔ word = "$" ++ slot ∧ slot ≠ "" := by
  unfold placeholder?
  constructor
  · intro h
    split at h
    · rename_i name heq
      split at h
      · contradiction
      · rename_i hne
        cases h
        -- the name is what stands after the dollar sign
        refine ⟨String.toList_inj.1 (by simp [heq]), fun hempty => hne ?_⟩
        simpa using congrArg String.toList hempty
    · contradiction
  · rintro ⟨rfl, hne⟩
    have hchars : ("$" ++ slot).toList = '$' :: slot.toList := by simp
    have hname : slot.toList.isEmpty = false := by simpa using hne
    simp [hchars, hname]

/-- A placeholder of a text with whole words is one of a slot name. -/
theorem isSlotName_of_mem_words {cs name : List Char} (hwhole : WholeWords cs)
    (h : '$' :: name ∈ Text.words cs) : IsSlotName name := by
  obtain ⟨name', hname, heq⟩ := hwhole _ h (by simp)
  cases heq
  exact hname

/-- **The words that are placeholders** are those of the template's slots. -/
theorem mem_filterMap_placeholder? {text slot : String} (hwhole : WholeWords text.toList) :
    slot ∈ (Text.wordsOf text).filterMap placeholder? ↔ slot ∈ (Template.ofText text).slots := by
  rw [Template.mem_slots_iff, Template.ofText, mem_occurrences_iff hwhole, List.mem_filterMap]
  simp only [Text.wordsOf, List.mem_map, placeholder?_eq_some_iff]
  constructor
  · rintro ⟨_, ⟨w, hw, rfl⟩, heq, -⟩
    have hchars : w = '$' :: slot.toList := by simpa using congrArg String.toList heq
    exact hchars ▸ hw
  · intro hw
    refine ⟨_, ⟨_, hw, rfl⟩, String.toList_inj.1 (by simp), ?_⟩
    rintro rfl
    obtain ⟨base, path, hbase, -, heq⟩ := isSlotName_of_mem_words hwhole hw
    exact (isName_iff.1 hbase).1 (List.append_eq_nil_iff.1 heq.symm).1

/-! ### Words by their places -/

/-- What is chosen among the items of a list by their places is, in a list made of them, what was
    made of the items that are chosen. -/
theorem filterMap_getElem?_zipIdx {α β γ : Type} (items : List α) (choose : α → Option γ)
    (f : α → β) :
    ((items.zipIdx.filterMap
        fun (item, place) => (choose item).map fun key => (key, place)).filterMap
        fun (key, place) => (items.map f)[place]?.map fun made => (key, made))
      = items.filterMap fun item => (choose item).map fun key => (key, f item) := by
  rw [List.filterMap_filterMap]
  -- what stands at the place of an item is what the item was made into
  have hplace : ∀ entry ∈ items.zipIdx,
      (((choose entry.1).map fun key => (key, entry.2)).bind fun (key, place) =>
          (items.map f)[place]?.map fun made => (key, made))
        = (choose entry.1).map fun key => (key, f entry.1) := by
    intro entry hentry
    have hget : items[entry.2]? = some entry.1 := List.mem_zipIdx_iff_getElem?.1 hentry
    cases choose entry.1 <;> simp [hget]
  calc _ = items.zipIdx.filterMap
        fun entry => (choose entry.1).map fun key => (key, f entry.1) := List.filterMap_congr hplace
    _ = (items.zipIdx.map Prod.fst).filterMap
        fun item => (choose item).map fun key => (key, f item) := by
      rw [List.filterMap_map]
      rfl
    _ = items.filterMap fun item => (choose item).map fun key => (key, f item) := by
      rw [List.zipIdx_map_fst]

/-- None is chosen by its place iff none is chosen. -/
theorem filterMap_zipIdx_eq_nil_iff {α β : Type} (items : List α) (choose : α → Option β) :
    (items.zipIdx.filterMap
        fun (item, place) => (choose item).map fun key => (key, place)) = []
      ↔ items.filterMap choose = [] := by
  have hfst : (items.zipIdx.filterMap
      fun (item, place) => (choose item).map fun key => (key, place)).map Prod.fst
        = items.filterMap choose := by
    rw [List.map_filterMap]
    conv_rhs => rw [← List.zipIdx_map_fst 0 items, List.filterMap_map]
    simp [Function.comp_def]
  rw [← hfst, List.map_eq_nil_iff]

/-- **The words that are found** where each word of the code is made of the template's word in its
    place. -/
theorem slotWords_of_words {contract : Contract} {f : String → String}
    (hwords : Text.wordsOf contract.creation.asm
      = (Text.wordsOf contract.descriptor.asm).map f) :
    contract.slotWords
      = if (Text.wordsOf contract.descriptor.asm).filterMap placeholder? = [] then none
        else some (Named.ofList (((Text.wordsOf contract.descriptor.asm).filterMap placeholder?).map
          fun slot => (slot, f ("$" ++ slot)))) := by
  -- a placeholder is the dollar sign and its slot
  have hfound : ∀ word, ((placeholder? word).map fun slot => (slot, f word))
      = (placeholder? word).map fun slot => (slot, f ("$" ++ slot)) := by
    intro word
    cases hslot : placeholder? word with
    | none => rfl
    | some slot => simp [(placeholder?_eq_some_iff.1 hslot).1]
  rw [slotWords, hwords]
  simp only [filterMap_getElem?_zipIdx, filterMap_zipIdx_eq_nil_iff, hfound, List.isEmpty_iff,
    List.map_filterMap]

/-! ### The text from its placeholders -/

/-- **What many passes make of a text** is told by what they make of its placeholders. -/
theorem substitute_of_lookup {text : String} {passes : List (String → Option String)}
    (hwhole : WholeWords text.toList) (hpasses : ∀ values ∈ passes, Wordy values)
    {found : List (String × String)}
    (hfound : ∀ slot ∈ (Template.ofText text).slots,
      found.lookup slot = some (Template.fillAll ("$" ++ slot) passes)) :
    (Template.ofText text).substitute (fun slot => found.lookup slot)
      = Template.fillAll text passes := by
  apply String.toList_inj.1
  rw [Template.toList_fillAll hpasses]
  show filled _ text.toList = _
  rw [filled_eq_mapWords]
  refine Text.mapWords_congr fun w hw => ?_
  -- a word is the placeholder of a slot, or has no dollar sign and stays
  by_cases hmem : '$' ∈ w
  · obtain ⟨name, hname, rfl⟩ := hwhole w hw hmem
    have hslot : String.ofList name ∈ (Template.ofText text).slots := by
      rw [Template.mem_slots_iff, Template.ofText, mem_occurrences_iff hwhole]
      simpa using hw
    have hplaceholder : String.ofList ('$' :: name) = "$" ++ String.ofList name :=
      String.toList_inj.1 (by simp)
    have hisSlotName : IsSlotName (String.ofList name).toList := by simpa using hname
    rw [filled, ← Template.ofText_ofList, hplaceholder,
      Template.substitute_placeholder _ hisSlotName, hfound _ hslot, Option.getD_some]
  · have hplain : '$' ∉ (String.ofList w).toList := by simpa using hmem
    rw [filled, ← Template.ofText_ofList, Template.substitute_of_not_mem _ hplain,
      Template.fillAll_of_not_mem hplain]

/-- **The words of a contract by slot**, where its code is the descriptor's text with words filled
    in, pass after pass. -/
theorem slotWords_of_fillAll {contract : Contract} {passes : List (String → Option String)}
    (hwhole : WholeWords contract.descriptor.asm.toList) (hpasses : ∀ values ∈ passes, Wordy values)
    (hasm : contract.creation.asm = Template.fillAll contract.descriptor.asm passes) :
    (contract.slotWords = none ↔ contract.descriptor.template.slots = [])
      ∧ ∀ found, contract.slotWords = some found →
        (found.map Prod.fst).Nodup
          ∧ (∀ slot, slot ∈ found.map Prod.fst ↔ slot ∈ contract.descriptor.template.slots)
          ∧ ∀ slot ∈ contract.descriptor.template.slots,
            found.lookup slot = some (Template.fillAll ("$" ++ slot) passes) := by
  have hmem : ∀ slot, slot ∈ (Text.wordsOf contract.descriptor.asm).filterMap placeholder? ↔
      slot ∈ contract.descriptor.template.slots :=
    fun slot => mem_filterMap_placeholder? hwhole
  -- the words are filled one by one, and so the places of the placeholders are kept
  rw [slotWords_of_words (hasm ▸ Template.wordsOf_fillAll hpasses _)]
  -- of the words, only the slots matter from here on
  generalize (Text.wordsOf contract.descriptor.asm).filterMap placeholder? = slots at hmem ⊢
  have hempty : slots = [] ↔ contract.descriptor.template.slots = [] := by
    simp only [List.eq_nil_iff_forall_not_mem, hmem]
  refine ⟨by simp [hempty], fun found hfound => ?_⟩
  split at hfound
  · contradiction
  · cases hfound
    refine ⟨Named.nodup_ofList _, fun slot => ?_, fun slot hslot => ?_⟩
    · rw [Named.mem_map_fst_ofList, List.map_map]
      simpa using hmem slot
    · exact Named.lookup_ofList_map_of_mem (fun slot => Template.fillAll ("$" ++ slot) passes)
        ((hmem slot).2 hslot)

/-- The code of a contract that changed is the descriptor's text with the words of the arguments
    filled in, and then the values of each pass. -/
theorem asm_afterAll_of_deploy {descriptor : Descriptor} {args : List Value} {contract : Contract}
    (hdeploy : Contract.deploy descriptor args = .ok contract) (changes : List Change) :
    (contract.afterAll changes).descriptor = descriptor
      ∧ ∃ style values, descriptor.slotStyle = .ok style
        ∧ checkArguments descriptor.schemas descriptor.abi.constructorParams args = .ok values
        ∧ (∀ leaf ∈ slotLeaves style values, leaf.1 ∈ descriptor.template.slots)
        ∧ (contract.afterAll changes).creation.asm = Template.fillAll descriptor.asm
          ((fun slot => (Named.ofList (leafWords style values)).lookup slot)
            :: changes.filterMap Change.values?) := by
  -- the call of the constructor, the coder that makes it, and the style of its slots
  obtain ⟨call, hcall, heq⟩ := bind_eq_ok_iff.1 hdeploy
  cases heq
  obtain ⟨coder, hcoder, hcall⟩ := bind_eq_ok_iff.1 hcall
  obtain ⟨style, hstyle, hpure⟩ := bind_eq_ok_iff.1 hcoder
  cases hpure
  obtain ⟨-, values, hvalues, hslots, rfl⟩ := ofConstructor_eq_ok_iff.1 hcall
  refine ⟨by rw [afterAll_eq], style, values, hstyle, hvalues, fun leaf hleaf => ?_, ?_⟩
  · exact Template.mem_slots_iff.2 (List.contains_iff_mem.1 (hslots leaf hleaf))
  · rw [afterAll_eq]
    rfl

/-- **The words of a contract by slot.** Where each placeholder of the descriptor's text is a whole
    word and what is filled in later are words, with placeholders in them or not, words are found iff
    the template has a slot. They are found for the slots of the template, each once, and filled into
    the template they give the text of the code. A slot of the constructor's arguments has the word
    of the last scalar in it. A slot that got no value has its placeholder. -/
theorem slotWords_afterAll {descriptor : Descriptor} {args : List Value} {contract : Contract}
    {changes : List Change}
    (hwhole : ∀ w ∈ Text.words descriptor.asm.toList, WholeWord w)
    (hdeploy : Contract.deploy descriptor args = .ok contract)
    (hwords : ∀ values ∈ changes.filterMap Change.values?, ∀ slot value,
      values slot = some value → Text.IsWord value.toList) :
    ((contract.afterAll changes).slotWords = none ↔ descriptor.template.slots = [])
      ∧ ∀ found, (contract.afterAll changes).slotWords = some found →
        (found.map Prod.fst).Nodup
          ∧ (∀ slot, slot ∈ found.map Prod.fst ↔ slot ∈ descriptor.template.slots)
          ∧ descriptor.template.substitute (fun slot => found.lookup slot)
            = (contract.afterAll changes).creation.asm
          ∧ ∃ style values, descriptor.slotStyle = .ok style
            ∧ checkArguments descriptor.schemas descriptor.abi.constructorParams args = .ok values
            ∧ (∀ front slot leaf back, slotLeaves style values = front ++ (slot, leaf) :: back →
              slot ∉ back.map Prod.fst →
              ∃ word, leaf.asm = .ok word ∧ found.lookup slot = some word)
            ∧ ∀ slot ∈ descriptor.template.slots, slot ∉ (slotLeaves style values).map Prod.fst →
              (∀ later ∈ changes.filterMap Change.values?, later slot = none) →
              found.lookup slot = some ("$" ++ slot) := by
  obtain ⟨hdescriptor, style, values, hstyle, hvalues, hslots, hasm⟩ :=
    asm_afterAll_of_deploy hdeploy changes
  -- the words of the arguments are one more pass, before all others
  have hpasses : ∀ pass ∈ (fun slot => (Named.ofList (leafWords style values)).lookup slot)
      :: changes.filterMap Change.values?, Wordy pass :=
    List.forall_mem_cons.2 ⟨fun _ _ => isWord_of_lookup_leafWords, hwords⟩
  have hname : ∀ slot ∈ descriptor.template.slots, IsSlotName slot.toList := by
    intro slot hslot
    rw [Template.mem_slots_iff] at hslot
    exact isSlotName_of_mem_words hwhole ((mem_occurrences_iff hwhole).1 hslot)
  generalize contract.afterAll changes = changed at hdescriptor hasm ⊢
  subst hdescriptor
  obtain ⟨hnone, hfound⟩ := slotWords_of_fillAll hwhole hpasses hasm
  refine ⟨hnone, fun found h => ?_⟩
  obtain ⟨hdistinct, hkeys, hlookup⟩ := hfound found h
  refine ⟨hdistinct, hkeys, ?_, style, values, hstyle, hvalues, ?_, ?_⟩
  · rw [hasm]
    exact substitute_of_lookup hwhole hpasses hlookup
  · -- the word of an argument has no dollar sign, so that no later pass changes it
    intro front slot leaf back hleaves hlast
    have hmem : (slot, leaf) ∈ slotLeaves style values := by simp [hleaves]
    have hslot : slot ∈ changed.descriptor.template.slots := hslots _ hmem
    have hbound := lookup_leafWords_of_last hleaves hlast
    refine ⟨leaf.word, asm_of_mem_slotLeaves _ hmem, (hlookup slot hslot).trans ?_⟩
    rw [Template.fillAll_placeholder_of_some (hname slot hslot) hbound
      (plain_leafWords style values slot _ hbound)]
  · intro slot hslot hopen hlater
    have hunbound : (Named.ofList (leafWords style values)).lookup slot = none := by
      rwa [Named.lookup_ofList_eq_none_iff, map_fst_leafWords]
    rw [hlookup slot hslot, Template.fillAll_placeholder_of_none (hname slot hslot)]
    exact List.forall_mem_cons.2 ⟨hunbound, hlater⟩

/-! A contract with an open placeholder, into which a word with two placeholders is filled, and into
one of them another word. -/

/-- A contract of the pairs, with a slot that no argument fills. -/
def pairDescriptor : Descriptor where
  compiler := ""
  name := "Pairs"
  digest := ""
  schemas := [pairSchema]
  abi := [⟨.constructor, constructorName, none, pairParams⟩]
  asm := pairText
  sourceWords := none
  slotVersion := 1

/-- The contract with the words of its arguments. -/
def pairContract : Contract :=
  ⟨pairDescriptor, ⟨constructorName, pairArgs, .locking, pairAsm⟩, none, .empty⟩

/-- A word with placeholders of its own, data, and a word for one of these placeholders. -/
def pairChanges : List Change :=
  [.fill fun slot => if slot = "later" then some "$a$b" else none, .setText "00",
    .fill fun slot => if slot = "a" then some "6a" else none]

/-- The words of its slots after that. -/
def pairWords : List (String × String) :=
  [("pairs[0].left", "OP_16"), ("pairs[0].right", "OP_0"), ("pairs[1].left", "11"),
    ("pairs[1].right", "11"), ("flag", "OP_FALSE"), ("later", "6a$b")]

/-- The slots of the arguments keep their words. The one that was open has what the two passes made
    of it, with a placeholder left over. -/
theorem slotWords_afterAll_pairs :
    Contract.deploy pairDescriptor pairArgs = .ok pairContract
      ∧ (pairContract.afterAll pairChanges).slotWords = some pairWords
      ∧ pairDescriptor.template.substitute (fun slot => pairWords.lookup slot)
        = "OP_DUP OP_16 OP_0 OP_CAT 11 11 OP_FALSE 6a$b" := by
  have hcall : pairDescriptor.constructorCall pairArgs
      = .ok ⟨constructorName, pairArgs, .locking, pairAsm⟩ := by decide +kernel
  have hdeploy : Contract.deploy pairDescriptor pairArgs = .ok pairContract := by
    rw [Contract.deploy, hcall]
    rfl
  -- both passes fill in words
  have hwords : ∀ values ∈ pairChanges.filterMap Change.values?, ∀ slot value,
      values slot = some value → Text.IsWord value.toList := by
    intro values hmem slot value hvalue
    simp only [pairChanges, List.filterMap_cons, List.filterMap_nil, Change.values?, List.mem_cons,
      List.not_mem_nil, or_false] at hmem
    rcases hmem with rfl | rfl
    · obtain ⟨-, ⟨⟩⟩ := Option.ite_none_right_eq_some.1 hvalue
      decide
    · obtain ⟨-, ⟨⟩⟩ := Option.ite_none_right_eq_some.1 hvalue
      decide
  have hfound : (pairContract.afterAll pairChanges).slotWords = some pairWords := by decide +kernel
  obtain ⟨-, hwhole⟩ := slotWords_afterAll (by decide +kernel) hdeploy hwords
  obtain ⟨-, -, hasm, -⟩ := hwhole pairWords hfound
  exact ⟨hdeploy, hfound, hasm.trans (by decide +kernel)⟩

end Contract

end ScriptAbi
