import ScriptAbi.Proofs.Template.Words
import ScriptAbi.Proofs.Value.Decidable
import ScriptAbi.Proofs.Value.Leaves

namespace ScriptAbi

/-!
# The slots of arguments as placeholders

The slot of a scalar is put together from the name of a parameter, indices and names of members. It
tells the path to the scalar, and a template takes it up as it stands.

* `ofText_placeholder`: a slot name after a dollar sign is one placeholder, up to a blank or the
  end of the text.
* `nodup_slots_and_ofText`: no two scalars of the arguments share a slot, and each slot is the name
  of one placeholder.
-/

/-- The firsts of pairs made along two lists are some of the first list, in order. -/
theorem map_fst_zip_sublist {α β : Type} (as : List α) (bs : List β) :
    ((as.zip bs).map Prod.fst).Sublist as := by
  induction as generalizing bs with
  | nil => simp
  | cons a as ih =>
    cases bs with
    | nil => simp
    | cons b bs => simpa using ih bs

/-- **A slot name after a dollar sign** is one placeholder, up to a blank or the end of the text. -/
theorem ofText_placeholder {slot rest : String} (hslot : IsSlotName slot.toList)
    (hrest : Text.StartsBlank rest.toList) :
    Template.ofText ("$" ++ slot ++ rest) = .slot slot :: Template.ofText rest := by
  have htext : ("$" ++ slot ++ rest).toList = '$' :: (slot.toList ++ rest.toList) := by simp
  rw [Template.ofText, htext, ofChars_placeholder hslot hrest, String.ofList_toList, Template.ofText]

/-- **Slots never collide and are taken up whole.** Where parameters and the members of each struct
    in the values have names that are all different, the slots of all scalars in the values are
    different. Each of them, after a dollar sign and before a blank or the end of a text, is one
    placeholder of a template. -/
theorem nodup_slots_and_ofText {params : List Param} {values : List Value} (style : SlotStyle)
    (hparams : Param.WellNamed params) (hvalues : ∀ value ∈ values, value.WellNamed) :
    ((slotLeaves style ((params.map Param.name).zip values)).map Prod.fst).Nodup
      ∧ ∀ slot ∈ (slotLeaves style ((params.map Param.name).zip values)).map Prod.fst,
        ∀ rest : String, Text.StartsBlank rest.toList →
          Template.ofText ("$" ++ slot ++ rest) = .slot slot :: Template.ofText rest := by
  have hnames : ∀ value ∈ (params.map Param.name).zip values,
      Text.isName value.1.toList = true := by
    intro value hvalue
    obtain ⟨param, hparam, hname⟩ := List.mem_map.1 (List.of_mem_zip hvalue).1
    rw [← hname]
    exact hparams.isName param hparam
  have hnamed : ∀ value ∈ (params.map Param.name).zip values, value.2.WellNamed :=
    fun value hvalue => hvalues value.2 (List.of_mem_zip hvalue).2
  have hdistinct : (((params.map Param.name).zip values).map Prod.fst).Nodup :=
    hparams.distinct.sublist (map_fst_zip_sublist _ _)
  refine ⟨nodup_slots_of_wellNamed hnames hdistinct hnamed, fun slot hslot rest hrest => ?_⟩
  obtain ⟨leaf, hleaf, rfl⟩ := List.mem_map.1 hslot
  exact ofText_placeholder (isSlotName_of_wellNamed hnames hnamed leaf hleaf) hrest

/-! Names that are numbers, names and indices that start with others, and arrays in structs. -/

/-- Parameters whose names are fronts of one another. -/
def crowdedParams : List Param := [⟨"p", "Cell[2]"⟩, ⟨"p1", "int[11]"⟩, ⟨"1", "int"⟩, ⟨"11", "bool"⟩]

/-- Values with members whose names are numbers. -/
def crowdedValues : List Value :=
  [.array [.struct none [("1", .int 0), ("11", .array [.int 1, .int 2])],
      .struct (some "Cell") [("1", .int 3), ("11", .array [])]],
    .array (List.replicate 11 (.int 4)), .int 5, .bool true]

/-- The slots of the scalars in them. -/
def crowdedSlots : List String :=
  ["p[0].1", "p[0].11[0]", "p[0].11[1]", "p[1].1", "p1[0]", "p1[1]", "p1[2]", "p1[3]", "p1[4]",
    "p1[5]", "p1[6]", "p1[7]", "p1[8]", "p1[9]", "p1[10]", "1", "11"]

/-- The members of each struct have different names. -/
theorem wellNamed_crowdedValues : ∀ value ∈ crowdedValues, value.WellNamed := by
  have hint : ∀ n, (Value.int n).WellNamed := fun n => .scalar (show _ = some Kind.int from rfl)
  have hbool : (Value.bool true).WellNamed := .scalar (show _ = some Kind.bool from rfl)
  have hcell : ∀ bound n items, (∀ item ∈ items, item.WellNamed) →
      (Value.struct bound [("1", .int n), ("11", .array items)]).WellNamed := by
    intro bound n items hitems
    refine .struct (by simp; decide) (by simp) ?_
    exact List.forall_mem_cons.2 ⟨hint n, List.forall_mem_singleton.2 (.array hitems)⟩
  have hcells : ∀ item ∈ [Value.struct none [("1", .int 0), ("11", .array [.int 1, .int 2])],
      .struct (some "Cell") [("1", .int 3), ("11", .array [])]], item.WellNamed := by
    refine List.forall_mem_cons.2 ⟨hcell _ _ _ ?_, List.forall_mem_singleton.2 (hcell _ _ _ ?_)⟩
    · exact List.forall_mem_cons.2 ⟨hint 1, List.forall_mem_singleton.2 (hint 2)⟩
    · simp
  have hints : ∀ item ∈ List.replicate 11 (Value.int 4), item.WellNamed := by
    intro item hitem
    rw [List.eq_of_mem_replicate hitem]
    exact hint 4
  exact List.forall_mem_cons.2 ⟨.array hcells, List.forall_mem_cons.2 ⟨.array hints,
    List.forall_mem_cons.2 ⟨hint 5, List.forall_mem_singleton.2 hbool⟩⟩⟩

/-- The slots are all different, and a placeholder is not taken for that of a slot whose name it
    starts with. -/
theorem nodup_slots_and_ofText_crowded :
    (slotLeaves .path ((crowdedParams.map Param.name).zip crowdedValues)).map Prod.fst
        = crowdedSlots
      ∧ crowdedSlots.Nodup
      ∧ Template.ofText "$p1[1] $p1[10]" = .slot "p1[1]" :: Template.ofText " $p1[10]"
      ∧ Template.ofText "$p[0].11[1]" = [.slot "p[0].11[1]"] := by
  have hslots : (slotLeaves .path ((crowdedParams.map Param.name).zip crowdedValues)).map Prod.fst
      = crowdedSlots := by decide +kernel
  have hparams : Param.WellNamed crowdedParams := ⟨by decide, by decide⟩
  obtain ⟨hdistinct, hread⟩ := nodup_slots_and_ofText .path hparams wellNamed_crowdedValues
  rw [hslots] at hdistinct hread
  have hblank : Text.StartsBlank " $p1[10]".toList := Text.startsBlank_cons (by decide) _
  have hend : Template.ofText "" = [] := ofChars_nil
  have hlast := hread "p[0].11[1]" (by decide) "" Text.startsBlank_nil
  rw [hend] at hlast
  exact ⟨hslots, hdistinct, hread "p1[1]" (by decide) " $p1[10]" hblank, hlast⟩

end ScriptAbi
