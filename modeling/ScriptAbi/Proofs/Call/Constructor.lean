import ScriptAbi.Proofs.Call.Arguments
import ScriptAbi.Proofs.Template.Words
import ScriptAbi.Proofs.Value.Decidable

namespace ScriptAbi

/-!
# Calls of constructors

* `leafWords`: the slots of the arguments' scalars with the words that fill them.
* `ofConstructor_eq_ok_iff`: a constructor's call is made if there are as many arguments as
  parameters, each stands the check and the template has all their slots. Its text is the template
  with `leafWords` filled in.
* `exists_checkArguments_of_asm_eq`: where placeholders are whole words, the text tells the values.
-/

variable {schemas : List Schema} {style : SlotStyle} {params : List Param} {args : List Value}

/-! ### Filled slots -/

/-- The slots of the scalars in the values, each with the word that fills it. -/
def leafWords (style : SlotStyle) (values : List (String × Value)) : List (String × String) :=
  (slotLeaves style values).map fun leaf => (leaf.1, leaf.2.word)

/-- The words stand in the slots of their scalars. -/
theorem map_fst_leafWords (values : List (String × Value)) :
    (leafWords style values).map Prod.fst = (slotLeaves style values).map Prod.fst := by
  simp [leafWords, Function.comp_def]

/-- The words are those of the scalars in the values. -/
theorem map_snd_leafWords (style : SlotStyle) (values : List (String × Value)) :
    (leafWords style values).map Prod.snd
      = values.flatMap fun value => value.2.scalars.map Value.word := by
  rw [← List.map_flatMap, ← map_snd_slotLeaves style]
  simp [leafWords, Function.comp_def]

/-- What is found for a slot is a word. -/
theorem isWord_of_lookup_leafWords {values : List (String × Value)} {slot word : String}
    (h : (Named.ofList (leafWords style values)).lookup slot = some word) :
    Text.IsWord word.toList := by
  rw [Named.lookup_ofList, List.lookup_eq_some_iff] at h
  obtain ⟨front, back, heq, -⟩ := h
  have hmem : (slot, word) ∈ leafWords style values := by
    rw [← List.mem_reverse, heq]
    simp
  have hword : word ∈ values.flatMap fun value => value.2.scalars.map Value.word := by
    rw [← map_snd_leafWords style]
    exact List.mem_map_of_mem (f := Prod.snd) hmem
  exact Value.isWord_of_mem_namedWords hword

/-- Where no slot is shared, each scalar's word is found for its slot. -/
theorem lookup_leafWords {values : List (String × Value)} {slot word : String}
    (hdistinct : ((slotLeaves style values).map Prod.fst).Nodup)
    (h : (slot, word) ∈ leafWords style values) :
    (Named.ofList (leafWords style values)).lookup slot = some word := by
  rw [← map_fst_leafWords] at hdistinct
  exact Named.lookup_ofList_of_mem hdistinct h

/-- The word of the last scalar in a slot is found for it. -/
theorem lookup_leafWords_of_last {values front back : List (String × Value)} {slot : String}
    {leaf : Value} (hleaves : slotLeaves style values = front ++ (slot, leaf) :: back)
    (hlast : slot ∉ back.map Prod.fst) :
    (Named.ofList (leafWords style values)).lookup slot = some leaf.word := by
  rw [Named.lookup_ofList_eq_some_iff, leafWords, hleaves, List.map_append, List.map_cons]
  exact ⟨_, _, rfl, by simpa using hlast⟩

/-! ### Making the call -/

/-- A scalar goes into a template that has its slot, as its words. -/
theorem slotWords_eq_ok_iff {template : Template} {leaf : String × Value} {filled : String × String} :
    template.slotWords leaf = .ok filled ↔
      template.hasSlot leaf.1 = true ∧ ∃ text, leaf.2.asm = .ok text ∧ filled = (leaf.1, text) := by
  obtain ⟨slot, value⟩ := leaf
  simp only [Template.slotWords]
  -- a scalar is written only if the template has its slot
  split
  · rename_i hslot
    rw [bind_eq_ok_iff]
    constructor
    · rintro ⟨text, htext, heq⟩
      cases heq
      exact ⟨hslot, text, mapError_eq_ok_iff.1 htext, rfl⟩
    · rintro ⟨-, text, htext, rfl⟩
      exact ⟨text, mapError_eq_ok_iff.2 htext, rfl⟩
  · rename_i hslot
    simp [hslot]

/-- A scalar in the values has its word. -/
theorem asm_of_mem_slotLeaves {values : List (String × Value)} :
    ∀ leaf ∈ slotLeaves style values, leaf.2.asm = .ok leaf.2.word := by
  intro leaf hleaf
  obtain ⟨_, _, -, hat⟩ := mem_slotLeaves_iff.1 hleaf
  obtain ⟨kind, hkind⟩ := hat.exists_kind
  exact Value.asm_of_kind? hkind

/-- The scalars in the values fill their slots if the template has all of them. -/
theorem mapM_slotWords_eq_ok_iff {template : Template} {values : List (String × Value)}
    {filled : List (String × String)} :
    (slotLeaves style values).mapM template.slotWords = .ok filled ↔
      (∀ leaf ∈ slotLeaves style values, template.hasSlot leaf.1 = true)
        ∧ filled = leafWords style values := by
  have hmap : (∀ leaf ∈ slotLeaves style values, template.hasSlot leaf.1 = true) →
      (slotLeaves style values).mapM template.slotWords = .ok (leafWords style values) := by
    intro hslots
    -- a scalar has its word, so that only a missing slot makes the step fail
    refine mapM_eq_ok_map fun leaf hleaf => ?_
    exact slotWords_eq_ok_iff.2 ⟨hslots leaf hleaf, _, asm_of_mem_slotLeaves leaf hleaf, rfl⟩
  constructor
  · intro h
    have hslots : ∀ leaf ∈ slotLeaves style values, template.hasSlot leaf.1 = true := by
      intro leaf hleaf
      obtain ⟨_, -, hwords⟩ := exists_of_mem_left (mapM_eq_ok_iff.1 h) hleaf
      exact (slotWords_eq_ok_iff.1 hwords).1
    rw [hmap hslots] at h
    exact ⟨hslots, (Except.ok.inj h).symm⟩
  · rintro ⟨hslots, rfl⟩
    exact hmap hslots

/-- **When a constructor's call is made**, and what it is. -/
theorem ofConstructor_eq_ok_iff {template : Template} {call : Call} :
    Call.ofConstructor template params schemas style args = .ok call ↔
      params.length = args.length ∧ ∃ values, checkArguments schemas params args = .ok values
        ∧ (∀ leaf ∈ slotLeaves style values, template.hasSlot leaf.1 = true)
        ∧ call = ⟨constructorName, args, .locking,
            template.substitute fun slot => (Named.ofList (leafWords style values)).lookup slot⟩ := by
  rw [Call.ofConstructor, bind_eq_ok_iff]
  constructor
  · rintro ⟨_, harity, h⟩
    -- the steps of the call in order: the arguments, then their slots
    obtain ⟨values, hvalues, h⟩ := bind_eq_ok_iff.1 h
    obtain ⟨filled, hfilled, heq⟩ := bind_eq_ok_iff.1 h
    obtain ⟨hslots, rfl⟩ := mapM_slotWords_eq_ok_iff.1 hfilled
    cases heq
    exact ⟨checkArity_eq_ok_iff.1 harity, values, hvalues, hslots, rfl⟩
  · rintro ⟨harity, values, hvalues, hslots, rfl⟩
    refine ⟨(), checkArity_eq_ok_iff.2 harity, bind_eq_ok_iff.2 ⟨values, hvalues, ?_⟩⟩
    exact bind_eq_ok_iff.2 ⟨_, mapM_slotWords_eq_ok_iff.2 ⟨hslots, rfl⟩, rfl⟩

/-! ### The text tells the values -/

/-- **No argument is lost, and none is merged with another.** Where parameters and members have
    names that are all different and each placeholder is a whole word of the template, calls of a
    constructor with the same text have arguments of the same values. -/
theorem exists_checkArguments_of_asm_eq {text : String} {args₁ args₂ : List Value}
    {call₁ call₂ : Call} (hparams : Param.WellNamed params)
    (hschemas : ∀ schema ∈ schemas, Param.WellNamed schema.members)
    (hwhole : ∀ w ∈ Text.words text.toList, WholeWord w)
    (h₁ : Call.ofConstructor (Template.ofText text) params schemas style args₁ = .ok call₁)
    (h₂ : Call.ofConstructor (Template.ofText text) params schemas style args₂ = .ok call₂)
    (hasm : call₁.asm = call₂.asm) :
    ∃ values, checkArguments schemas params args₁ = .ok values
      ∧ checkArguments schemas params args₂ = .ok values := by
  obtain ⟨harity₁, values₁, hvalues₁, hslots₁, rfl⟩ := ofConstructor_eq_ok_iff.1 h₁
  obtain ⟨harity₂, values₂, hvalues₂, -, rfl⟩ := ofConstructor_eq_ok_iff.1 h₂
  have halike := alike_of_checkArguments harity₁ harity₂ hvalues₁ hvalues₂
  -- the values have the same slots
  have hslots : (leafWords style values₁).map Prod.fst = (leafWords style values₂).map Prod.fst := by
    rw [map_fst_leafWords, map_fst_leafWords]
    exact slots_eq_of_forall₂ (halike.imp fun a b hab => ⟨hab.1, sameSlots_of_alike hab.2⟩)
  -- and, as the text is the same, the same word in each slot
  have hfilled : leafWords style values₁ = leafWords style values₂ := by
    apply Named.eq_of_names_eq hslots
    intro slot a b ha hb
    have hoccurs : slot ∈ (Template.ofText text).occurrences := by
      obtain ⟨leaf, hleaf, heq⟩ := List.mem_map.1 ha
      cases heq
      exact List.contains_iff_mem.1 (hslots₁ leaf hleaf)
    have hfound₁ := lookup_leafWords (nodup_slotLeaves harity₁ hparams hschemas hvalues₁) ha
    have hfound₂ := lookup_leafWords (nodup_slotLeaves harity₂ hparams hschemas hvalues₂) hb
    exact value_eq_of_substitute_eq (fun _ _ => isWord_of_lookup_leafWords)
      (fun _ _ => isWord_of_lookup_leafWords) hwhole hasm hoccurs hfound₁ hfound₂
  -- so that the values have the same words in order
  have hwords : (values₁.flatMap fun value => value.2.scalars.map Value.word)
      = values₂.flatMap fun value => value.2.scalars.map Value.word := by
    rw [← map_snd_leafWords style, hfilled, map_snd_leafWords]
  have hvalues : values₁ = values₂ := by
    refine eq_of_flatMap_eq (halike.imp fun a b hab => ⟨?_, fun h => ?_⟩) hwords
    · rw [List.length_map, List.length_map, length_scalars_of_alike hab.2]
    · exact Prod.ext hab.1 (eq_of_alike hab.2 h)
  exact ⟨values₁, hvalues₁, hvalues ▸ hvalues₂⟩

/-! Two ways to write the same pairs, and a template that has a slot for each of their members. -/

/-- Each slot of the parameters, and one more. -/
def pairText : String :=
  "OP_DUP $pairs[0].left $pairs[0].right OP_CAT $pairs[1].left $pairs[1].right $flag $later"

/-- The same members the other way round, in a struct that is bound already. -/
def swappedArgs : List Value :=
  [.array [.struct none [("right", .bytes .plain []), ("left", .int 16)],
    .struct (some "Pair") [("right", .bytes .plain [0x11]), ("left", .int 17)]],
    .array [], .bool false]

/-- The text of both calls. -/
def pairAsm : String := "OP_DUP OP_16 OP_0 OP_CAT 11 11 OP_FALSE $later"

/-- Both ways to write the pairs give one text, and so they come to the same values. -/
theorem exists_checkArguments_pairs :
    Call.ofConstructor (Template.ofText pairText) pairParams [pairSchema] .path pairArgs
        = .ok ⟨constructorName, pairArgs, .locking, pairAsm⟩
      ∧ Call.ofConstructor (Template.ofText pairText) pairParams [pairSchema] .path swappedArgs
        = .ok ⟨constructorName, swappedArgs, .locking, pairAsm⟩
      ∧ ∃ values, checkArguments [pairSchema] pairParams pairArgs = .ok values
        ∧ checkArguments [pairSchema] pairParams swappedArgs = .ok values := by
  have hwhole : ∀ w ∈ Text.words pairText.toList, WholeWord w := by decide +kernel
  have h₁ : Call.ofConstructor (Template.ofText pairText) pairParams [pairSchema] .path pairArgs
      = .ok ⟨constructorName, pairArgs, .locking, pairAsm⟩ := by decide +kernel
  have h₂ : Call.ofConstructor (Template.ofText pairText) pairParams [pairSchema] .path swappedArgs
      = .ok ⟨constructorName, swappedArgs, .locking, pairAsm⟩ := by decide +kernel
  exact ⟨h₁, h₂,
    exists_checkArguments_of_asm_eq wellNamed_pairParams wellNamed_pairSchema hwhole h₁ h₂ rfl⟩

end ScriptAbi
