import ScriptAbi.Proofs.Call.Constructor
import ScriptAbi.Proofs.Call.Function

namespace ScriptAbi

/-!
# Constructors and functions

A constructor's call fills slots in a template, a function's call joins words. On the template that
lists the slots of the arguments, `slotText`, both give the same text:
`ofConstructor_slotText_eq_ofFunction`.
-/

variable {schemas : List Schema} {style : SlotStyle} {args : List Value}
  {values : List (String × Value)}

/-- The placeholders of the scalars in the values, in order and with one space between them. -/
def slotText (style : SlotStyle) (values : List (String × Value)) : String :=
  " ".intercalate ((slotLeaves style values).map fun leaf => "$" ++ leaf.1)

/-- The placeholders as words. -/
def slotPlaceholders (style : SlotStyle) (values : List (String × Value)) : List (List Char) :=
  (slotLeaves style values).map fun leaf => '$' :: leaf.1.toList

/-- The template is its placeholders with a blank between any two. -/
theorem toList_slotText :
    (slotText style values).toList = [' '].intercalate (slotPlaceholders style values) := by
  rw [slotText, String.toList_intercalate, List.map_map, slotPlaceholders]
  simp [Function.comp_def]

/-- A placeholder of a slot name is a word as a whole. -/
theorem wholeWord_of_mem_slotPlaceholders
    (hnames : ∀ leaf ∈ slotLeaves style values, IsSlotName leaf.1.toList) :
    ∀ w ∈ slotPlaceholders style values, WholeWord w := by
  intro w hw _
  obtain ⟨leaf, hleaf, rfl⟩ := List.mem_map.1 hw
  exact ⟨leaf.1.toList, hnames leaf hleaf, rfl⟩

/-- The words of the template are the placeholders. -/
theorem words_slotText (hnames : ∀ leaf ∈ slotLeaves style values, IsSlotName leaf.1.toList) :
    Text.words (slotText style values).toList = slotPlaceholders style values := by
  rw [toList_slotText]
  apply Text.words_intercalate
  intro w hw
  obtain ⟨leaf, hleaf, rfl⟩ := List.mem_map.1 hw
  exact isWord_placeholder (hnames leaf hleaf)

/-- The template has the slots that it lists. -/
theorem hasSlot_slotText (hnames : ∀ leaf ∈ slotLeaves style values, IsSlotName leaf.1.toList) :
    ∀ leaf ∈ slotLeaves style values,
      (Template.ofText (slotText style values)).hasSlot leaf.1 = true := by
  intro leaf hleaf
  have hwhole : ∀ w ∈ Text.words (slotText style values).toList, WholeWord w := by
    rw [words_slotText hnames]
    exact wholeWord_of_mem_slotPlaceholders hnames
  rw [Template.hasSlot, List.contains_iff_mem, Template.ofText, mem_occurrences_iff hwhole,
    words_slotText hnames]
  exact List.mem_map.2 ⟨leaf, hleaf, rfl⟩

/-- **The template that lists slots is filled with their words**, with one space between them. -/
theorem substitute_slotText (hnames : ∀ leaf ∈ slotLeaves style values, IsSlotName leaf.1.toList)
    (hdistinct : ((slotLeaves style values).map Prod.fst).Nodup) :
    ((Template.ofText (slotText style values)).substitute fun slot =>
        (Named.ofList (leafWords style values)).lookup slot)
      = " ".intercalate (values.flatMap fun value => value.2.scalars.map Value.word) := by
  -- each placeholder has the word of its scalar
  have hfill : (slotPlaceholders style values).map
      (fillWord fun slot => (Named.ofList (leafWords style values)).lookup slot)
      = ((leafWords style values).map Prod.snd).map String.toList := by
    have hword : ∀ leaf ∈ slotLeaves style values,
        fillWord (fun slot => (Named.ofList (leafWords style values)).lookup slot)
          ('$' :: leaf.1.toList) = leaf.2.word.toList := by
      intro leaf hleaf
      have hfound := lookup_leafWords hdistinct (List.mem_map.2 ⟨leaf, hleaf, rfl⟩)
      rw [fillWord_placeholder, String.ofList_toList, hfound]
      rfl
    calc (slotPlaceholders style values).map _
        = (slotLeaves style values).map fun leaf => fillWord _ ('$' :: leaf.1.toList) := by
          rw [slotPlaceholders, List.map_map]
          rfl
      _ = (slotLeaves style values).map fun leaf => leaf.2.word.toList :=
          List.map_congr_left hword
      _ = ((leafWords style values).map Prod.snd).map String.toList := by
          simp [leafWords, Function.comp_def]
  apply String.toList_inj.1
  rw [Template.ofText, toList_slotText,
    substitute_intercalate (wholeWord_of_mem_slotPlaceholders hnames), hfill, map_snd_leafWords,
    String.toList_intercalate]
  rfl

/-- The function that is the only one is found. -/
theorem function?_of_singleton {abi : Abi} {entry : Entry} (h : abi.functions = [entry]) :
    abi.function? entry.name = some (0, entry) := by
  rw [function?_eq_some_iff, h]
  exact ⟨rfl, rfl, fun earlier hearlier => absurd hearlier (Nat.not_lt_zero earlier)⟩

/-- **A template of slots is filled with the text of a function's call.** Where parameters and
    members have names that are all different and arguments stand the check, the constructor's call
    on the template that lists their slots is made, and so is the call of the only function of an
    interface with these parameters. Both have the same text. -/
theorem ofConstructor_slotText_eq_ofFunction {abi : Abi} {entry : Entry}
    (hparams : Param.WellNamed entry.params)
    (hschemas : ∀ schema ∈ schemas, Param.WellNamed schema.members)
    (habi : abi.functions = [entry]) (harity : entry.params.length = args.length)
    (hvalues : checkArguments schemas entry.params args = .ok values) :
    ∃ constructed called,
      Call.ofConstructor (Template.ofText (slotText style values)) entry.params schemas style args
          = .ok constructed
        ∧ Call.ofFunction abi schemas entry.name args = .ok called
        ∧ constructed.asm = called.asm := by
  have hnames : ∀ leaf ∈ slotLeaves style values, IsSlotName leaf.1.toList :=
    isSlotName_of_mem_slotLeaves hparams hschemas hvalues
  have hdistinct : ((slotLeaves style values).map Prod.fst).Nodup :=
    nodup_slotLeaves harity hparams hschemas hvalues
  refine ⟨_, _, ofConstructor_eq_ok_iff.2 ⟨harity, values, hvalues, hasSlot_slotText hnames, rfl⟩,
    ofFunction_eq_ok_iff.2 ⟨0, entry, values, function?_of_singleton habi, harity, hvalues, rfl⟩, ?_⟩
  -- the only function needs no selector
  have hselector : abi.selector 0 entry = [] := by
    rw [Abi.selector, habi]
    rfl
  show Template.substitute _ _ = Value.joinWords _
  rw [substitute_slotText hnames hdistinct, hselector, List.append_nil,
    Value.joinWords_of_isWord fun _ => Value.isWord_of_mem_namedWords]

/-- A constructor and one public function, which has a number that no call needs. -/
def singleAbi : Abi :=
  [⟨.constructor, "", none, []⟩, ⟨.function, "spend", some 1000, pairParams⟩]

/-- The values of `pairArgs`. -/
def pairValues : List (String × Value) :=
  [("pairs", .array [.struct (some "Pair") [("left", .int 16), ("right", .bytes .plain [])],
      .struct (some "Pair") [("left", .int 17), ("right", .bytes .plain [0x11])]]),
    ("none", .array []), ("flag", .bool false)]

/-- Pairs and a flag fill the template of their five slots with the text that the only function is
    called with. The array of no items has no slot. -/
theorem ofConstructor_slotText_pairs :
    slotText .path pairValues
        = "$pairs[0].left $pairs[0].right $pairs[1].left $pairs[1].right $flag"
      ∧ ∃ constructed called,
        Call.ofConstructor (Template.ofText (slotText .path pairValues)) pairParams [pairSchema]
            .path pairArgs = .ok constructed
          ∧ Call.ofFunction singleAbi [pairSchema] "spend" pairArgs = .ok called
          ∧ constructed.asm = called.asm := by
  have hvalues : checkArguments [pairSchema] pairParams pairArgs = .ok pairValues := by
    decide +kernel
  have hslots : slotText .path pairValues
      = "$pairs[0].left $pairs[0].right $pairs[1].left $pairs[1].right $flag" := by decide +kernel
  have habi : singleAbi.functions = [⟨.function, "spend", some 1000, pairParams⟩] := by decide
  exact ⟨hslots,
    ofConstructor_slotText_eq_ofFunction wellNamed_pairParams wellNamed_pairSchema habi rfl hvalues⟩

end ScriptAbi
