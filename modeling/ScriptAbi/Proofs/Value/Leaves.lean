import ScriptAbi.Proofs.Slot.Within
import ScriptAbi.Proofs.Value.Words
import Mathlib.Data.List.Nodup

namespace ScriptAbi

/-!
# The slots of the scalars in a value

* `Param.WellNamed`: parameters, or the members of a schema, with names that are names and are all
  different.
* `slotLeaves`: the scalars in a list of values that stand in slots. Arrays and structs are such
  lists (`leaves_array`, `leaves_struct`), and so are the arguments of a call.
* `map_snd_leaves`: the leaves of a value are its scalars.
* `Value.LeafAt`: which scalar stands in which slot, by the way to it. The leaves of a value are
  these (`Value.mem_leaves_iff`).
* `Value.WellNamed`: a value whose structs have members with names, all different in each struct.
  Canonical values are such (`wellNamed_of_canonical`).
* `within_of_mem_leaves`: the slot of a scalar is within the slot of the value.
* `nodup_leaves`, `nodup_slots_of_wellNamed`: no two scalars of a value share a slot, nor do those of
  values under different names.
-/

/-- The parameters have names, all of them different. -/
structure Param.WellNamed (params : List Param) : Prop where
  isName : ∀ param ∈ params, Text.isName param.name.toList = true
  distinct : (params.map Param.name).Nodup

variable {schemas : List Schema} {style : SlotStyle}

/-! ### Values in slots -/

/-- The scalars in values that stand in slots, each with its own slot. -/
def slotLeaves (style : SlotStyle) (branches : List (String × Value)) : List (String × Value) :=
  branches.flatMap fun (slot, value) => value.leaves style slot

/-- The scalars of the first value come first. -/
@[simp] theorem slotLeaves_cons (branch : String × Value) (rest : List (String × Value)) :
    slotLeaves style (branch :: rest) = branch.2.leaves style branch.1 ++ slotLeaves style rest :=
  rfl

namespace Value

/-- A scalar stands in the slot itself. -/
theorem leaves_of_kind? {value : Value} {kind : Kind} (h : value.kind? = some kind)
    (base : String) : value.leaves style base = [(base, value)] := by
  cases value with
  | array | struct => cases h
  | _ => rfl

/-- The items with their slots, from the given index on. -/
def itemBranches (style : SlotStyle) (base : String) (index : Nat) (items : List Value) :
    List (String × Value) :=
  (items.zipIdx index).map fun (item, i) => (style.itemSlot base i, item)

/-- The members with their slots. -/
def fieldBranches (style : SlotStyle) (base : String) (fields : List (String × Value)) :
    List (String × Value) :=
  fields.map fun (name, value) => (style.memberSlot base name, value)

/-- The scalars of an array are those of its items, in order, each in the slot of its item. -/
theorem leaves_array (base : String) (items : List Value) :
    (array items).leaves style base = slotLeaves style (itemBranches style base 0 items) := by
  show itemLeaves style base 0 items = _
  generalize 0 = index
  induction items generalizing index with
  | nil => rfl
  | cons item rest ih => rw [itemLeaves, ih]; rfl

/-- The scalars of a struct are those of its members, in order, each in the slot of its member. -/
theorem leaves_struct (base : String) (bound : Option String) (fields : List (String × Value)) :
    (struct bound fields).leaves style base
      = slotLeaves style (fieldBranches style base fields) := by
  show fieldLeaves style base fields = _
  induction fields with
  | nil => rfl
  | cons field rest ih => rw [fieldLeaves, ih]; rfl

theorem map_snd_itemBranches (base : String) (index : Nat) (items : List Value) :
    (itemBranches style base index items).map Prod.snd = items := by
  simp [itemBranches, Function.comp_def]

theorem map_snd_fieldBranches (base : String) (fields : List (String × Value)) :
    (fieldBranches style base fields).map Prod.snd = fields.map Prod.snd := by
  simp [fieldBranches, Function.comp_def]

end Value

/-- The scalars in the slots are those of the values, if this holds of each value. -/
theorem map_snd_slotLeaves_of {branches : List (String × Value)}
    (h : ∀ branch ∈ branches, (branch.2.leaves style branch.1).map Prod.snd = branch.2.scalars) :
    (slotLeaves style branches).map Prod.snd = (branches.map Prod.snd).flatMap Value.scalars := by
  induction branches with
  | nil => rfl
  | cons branch rest ih =>
    rw [slotLeaves_cons, List.map_append, h branch (by simp), ih fun b hb => h b (by simp [hb])]
    rfl

/-- The leaves of a value are its scalars. -/
theorem map_snd_leaves (value : Value) (base : String) :
    (value.leaves style base).map Prod.snd = value.scalars := by
  induction value using Value.induct generalizing base with
  | scalar value kind hkind =>
    rw [Value.leaves_of_kind? hkind, Value.scalars_of_kind? hkind]
    rfl
  | array items ih =>
    rw [Value.leaves_array, map_snd_slotLeaves_of, Value.map_snd_itemBranches,
      Value.scalars_array]
    intro branch hbranch
    -- an item with its slot is an item
    refine ih branch.2 ?_ branch.1
    have hmem := List.mem_map_of_mem (f := Prod.snd) hbranch
    rwa [Value.map_snd_itemBranches] at hmem
  | struct bound fields ih =>
    rw [Value.leaves_struct, map_snd_slotLeaves_of, Value.map_snd_fieldBranches,
      Value.scalars_struct, List.flatMap_map]
    intro branch hbranch
    -- a member with its slot is a member
    obtain ⟨field, hfield, rfl⟩ := List.mem_map.1 hbranch
    exact ih field hfield _

/-- The scalars in values that stand in slots are those of the values. -/
theorem map_snd_slotLeaves (style : SlotStyle) (branches : List (String × Value)) :
    (slotLeaves style branches).map Prod.snd = branches.flatMap fun branch => branch.2.scalars := by
  rw [map_snd_slotLeaves_of fun branch _ => map_snd_leaves branch.2 branch.1, List.flatMap_map]

/-! ### Which scalars there are -/

namespace Value

/-- The scalar stands in the value, in a slot that is named for the way to it from the slot `base`
    of the value: item `i` of what is in a slot `s` is in `s[i]`, its member `m` in `s.m`. -/
inductive LeafAt : String → Value → String → Value → Prop
  | scalar {base : String} {value : Value} {kind : Kind} (hkind : value.kind? = some kind) :
      LeafAt base value base value
  | item {base slot : String} {items : List Value} {i : Nat} {item leaf : Value}
      (hitem : items[i]? = some item) (h : LeafAt (base ++ "[" ++ toString i ++ "]") item slot leaf) :
      LeafAt base (.array items) slot leaf
  | member {base slot name : String} {bound : Option String} {fields : List (String × Value)}
      {value leaf : Value} (hfield : (name, value) ∈ fields)
      (h : LeafAt (base ++ "." ++ name) value slot leaf) :
      LeafAt base (.struct bound fields) slot leaf

/-- What stands at a place as a scalar is one. -/
theorem LeafAt.exists_kind {base slot : String} {value leaf : Value}
    (h : LeafAt base value slot leaf) : ∃ kind, leaf.kind? = some kind := by
  induction h with
  | scalar hkind => exact ⟨_, hkind⟩
  | item _ _ ih => exact ih
  | member _ _ ih => exact ih

/-- The slot of an item is named for its index. -/
theorem mem_itemBranches {base slot : String} {items : List Value} {item : Value} :
    (slot, item) ∈ itemBranches style base 0 items ↔
      ∃ i : Nat, items[i]? = some item ∧ slot = base ++ "[" ++ toString i ++ "]" := by
  cases style
  rw [itemBranches, List.mem_map]
  constructor
  · rintro ⟨⟨item, i⟩, hmem, heq⟩
    cases heq
    exact ⟨i, List.mem_zipIdx_iff_getElem?.1 hmem, rfl⟩
  · rintro ⟨i, hitem, rfl⟩
    exact ⟨(item, i), List.mem_zipIdx_iff_getElem?.2 hitem, rfl⟩

/-- The slot of a member is named for the member. -/
theorem mem_fieldBranches {base slot : String} {fields : List (String × Value)} {value : Value} :
    (slot, value) ∈ fieldBranches style base fields ↔
      ∃ name, (name, value) ∈ fields ∧ slot = base ++ "." ++ name := by
  cases style
  rw [fieldBranches, List.mem_map]
  constructor
  · rintro ⟨⟨name, value⟩, hmem, heq⟩
    cases heq
    exact ⟨name, hmem, rfl⟩
  · rintro ⟨name, hfield, rfl⟩
    exact ⟨(name, value), hfield, rfl⟩

/-- **The leaves of a value** are the scalars that stand in it, each in the slot named for the way
    to it. They come in the order of items and of members (`leaves_array`, `leaves_struct`). -/
theorem mem_leaves_iff {base slot : String} {value leaf : Value} :
    (slot, leaf) ∈ value.leaves style base ↔ LeafAt base value slot leaf := by
  constructor
  · intro h
    -- down the value, one step of the way for each level
    induction value using Value.induct generalizing base with
    | scalar value kind hkind =>
      rw [leaves_of_kind? hkind, List.mem_singleton] at h
      cases h
      exact .scalar hkind
    | array items ih =>
      rw [leaves_array] at h
      obtain ⟨⟨inner, item⟩, hbranch, hmem⟩ := List.mem_flatMap.1 h
      obtain ⟨i, hitem, rfl⟩ := mem_itemBranches.1 hbranch
      exact .item hitem (ih item (List.mem_of_getElem? hitem) hmem)
    | struct bound fields ih =>
      rw [leaves_struct] at h
      obtain ⟨⟨inner, value⟩, hbranch, hmem⟩ := List.mem_flatMap.1 h
      obtain ⟨name, hfield, rfl⟩ := mem_fieldBranches.1 hbranch
      exact .member hfield (ih _ hfield hmem)
  · intro h
    -- and up the way again
    induction h with
    | scalar hkind => simp [leaves_of_kind? hkind]
    | item hitem _ ih =>
      rw [leaves_array]
      exact List.mem_flatMap.2 ⟨_, mem_itemBranches.2 ⟨_, hitem, rfl⟩, ih⟩
    | member hfield _ ih =>
      rw [leaves_struct]
      exact List.mem_flatMap.2 ⟨_, mem_fieldBranches.2 ⟨_, hfield, rfl⟩, ih⟩

end Value

/-- The scalars in values that stand in slots are those that stand in one of the values. -/
theorem mem_slotLeaves_iff {branches : List (String × Value)} {slot : String} {leaf : Value} :
    (slot, leaf) ∈ slotLeaves style branches ↔
      ∃ base value, (base, value) ∈ branches ∧ Value.LeafAt base value slot leaf := by
  simp only [slotLeaves, List.mem_flatMap, Prod.exists, Value.mem_leaves_iff]

/-! ### No slot is shared -/

/-- The members of each struct in the value have names, all of them different. -/
inductive Value.WellNamed : Value → Prop
  | scalar {value : Value} {kind : Kind} (hkind : value.kind? = some kind) : WellNamed value
  | array {items : List Value} (hitems : ∀ item ∈ items, WellNamed item) : WellNamed (.array items)
  | struct {bound : Option String} {fields : List (String × Value)}
      (hnames : ∀ field ∈ fields, Text.isName field.1.toList = true)
      (hdistinct : (fields.map Prod.fst).Nodup) (hfields : ∀ field ∈ fields, WellNamed field.2) :
      WellNamed (.struct bound fields)

/-- A canonical value has the names of the schemas. -/
theorem Value.wellNamed_of_canonical {type : TypeExpr} {value : Value}
    (hschemas : ∀ schema ∈ schemas, Param.WellNamed schema.members)
    (h : Value.Canonical schemas type value) : value.WellNamed := by
  induction h with
  | scalar hkind => exact .scalar hkind
  | array _ _ ih => exact .array ih
  | @struct name schema fields typeOf hfind hnames htypes hfields ih =>
    have hnamed := hschemas schema (mem_of_find? hfind)
    refine .struct (fun field hfield => ?_) ?_ fun field hfield => ?_
    · obtain ⟨member, hmember, hname, -⟩ := exists_mem_zip hnames hfield
      rw [hname]
      exact hnamed.isName member hmember
    · rw [hnames]
      exact hnamed.distinct
    · obtain ⟨member, -, -, hzip⟩ := exists_mem_zip hnames hfield
      exact ih member field hzip

/-- The slot of a scalar in a value is within the slot of the value. -/
theorem Value.LeafAt.within {base slot : String} {value leaf : Value}
    (h : Value.LeafAt base value slot leaf) (hnamed : value.WellNamed) : Within base slot := by
  induction h with
  | scalar => exact within_self _
  | item hitem _ ih =>
    cases hnamed with
    | scalar hkind => cases hkind
    | array hitems => exact within_of_itemSlot .path (ih (hitems _ (List.mem_of_getElem? hitem)))
  | member hfield _ ih =>
    cases hnamed with
    | scalar hkind => cases hkind
    | struct hnames _ hfields =>
      exact within_of_memberSlot .path (hnames _ hfield) (ih (hfields _ hfield))

/-- The scalars of a value are in slots within the slot of the value. -/
theorem within_of_mem_leaves {value : Value} (h : value.WellNamed) (base : String) :
    ∀ leaf ∈ value.leaves style base, Within base leaf.1 :=
  fun _ hleaf => (Value.mem_leaves_iff.1 hleaf).within h

/-- Values in slots that are apart share no slot, if no two scalars of one value do. -/
theorem nodup_slotLeaves_of {branches : List (String × Value)}
    (hapart : branches.Pairwise fun a b => Apart a.1 b.1)
    (hwithin : ∀ branch ∈ branches, ∀ leaf ∈ branch.2.leaves style branch.1, Within branch.1 leaf.1)
    (hnodup : ∀ branch ∈ branches, ((branch.2.leaves style branch.1).map Prod.fst).Nodup) :
    ((slotLeaves style branches).map Prod.fst).Nodup := by
  rw [slotLeaves, List.map_flatMap, List.nodup_flatMap]
  refine ⟨hnodup, hapart.imp_of_mem fun {a b} ha hb hab => ?_⟩
  -- a slot in both would be within two slots that are apart
  intro slot hslot hslot'
  obtain ⟨leaf, hleaf, rfl⟩ := List.mem_map.1 hslot
  obtain ⟨leaf', hleaf', heq⟩ := List.mem_map.1 hslot'
  have hwithin' := hwithin b hb leaf' hleaf'
  rw [heq] at hwithin'
  exact hab leaf.1 (hwithin a ha leaf hleaf) hwithin'

/-- No two items share a slot or what is within it. -/
theorem pairwise_itemBranches (base : String) (index : Nat) (items : List Value) :
    (Value.itemBranches style base index items).Pairwise fun a b => Apart a.1 b.1 := by
  rw [Value.itemBranches, List.pairwise_map]
  have hindices : ((items.zipIdx index).map Prod.snd).Nodup := by
    rw [List.zipIdx_map_snd]
    exact List.nodup_range'
  rw [List.Nodup, List.pairwise_map] at hindices
  exact hindices.imp fun hne => apart_itemSlot style base hne

/-- No two members of different names share a slot or what is within it. -/
theorem pairwise_fieldBranches (base : String) {fields : List (String × Value)}
    (hnames : ∀ field ∈ fields, Text.isName field.1.toList = true)
    (hdistinct : (fields.map Prod.fst).Nodup) :
    (Value.fieldBranches style base fields).Pairwise fun a b => Apart a.1 b.1 := by
  rw [List.Nodup, List.pairwise_map] at hdistinct
  rw [Value.fieldBranches, List.pairwise_map]
  refine hdistinct.imp_of_mem fun hf hg hne => ?_
  exact apart_memberSlot style base (hnames _ hf) (hnames _ hg) hne

/-- **No two scalars of a value share a slot.** -/
theorem nodup_leaves {value : Value} (h : value.WellNamed) (base : String) :
    ((value.leaves style base).map Prod.fst).Nodup := by
  induction h generalizing base with
  | scalar hkind =>
    rw [Value.leaves_of_kind? hkind]
    exact List.nodup_singleton base
  | @array items hitems ih =>
    rw [Value.leaves_array]
    have hitem : ∀ branch ∈ Value.itemBranches style base 0 items, branch.2 ∈ items := by
      intro branch hbranch
      have hmem := List.mem_map_of_mem (f := Prod.snd) hbranch
      rwa [Value.map_snd_itemBranches] at hmem
    -- items are apart, and what is in an item stays within its slot
    refine nodup_slotLeaves_of (pairwise_itemBranches base 0 items) ?_ ?_
    · intro branch hbranch
      exact within_of_mem_leaves (hitems branch.2 (hitem branch hbranch)) branch.1
    · intro branch hbranch
      exact ih branch.2 (hitem branch hbranch) branch.1
  | @struct bound fields hnames hdistinct hfields ih =>
    rw [Value.leaves_struct]
    -- so it is with members, whose names are different
    refine nodup_slotLeaves_of (pairwise_fieldBranches base hnames hdistinct) ?_ ?_
    · intro branch hbranch
      obtain ⟨field, hfield, rfl⟩ := List.mem_map.1 hbranch
      exact within_of_mem_leaves (hfields field hfield) _
    · intro branch hbranch
      obtain ⟨field, hfield, rfl⟩ := List.mem_map.1 hbranch
      exact ih field hfield _

/-! ### The slots of several values -/

variable {values : List (String × Value)}

/-- **The slots of values under names** are slot names. -/
theorem isSlotName_of_wellNamed (hnames : ∀ value ∈ values, Text.isName value.1.toList = true)
    (hvalues : ∀ value ∈ values, value.2.WellNamed) :
    ∀ leaf ∈ slotLeaves style values, IsSlotName leaf.1.toList := by
  intro leaf hleaf
  obtain ⟨value, hvalue, hmem⟩ := List.mem_flatMap.1 hleaf
  exact isSlotName_of_within (hnames value hvalue)
    (within_of_mem_leaves (hvalues value hvalue) value.1 leaf hmem)

/-- **No two scalars of values under different names share a slot.** -/
theorem nodup_slots_of_wellNamed (hnames : ∀ value ∈ values, Text.isName value.1.toList = true)
    (hdistinct : (values.map Prod.fst).Nodup) (hvalues : ∀ value ∈ values, value.2.WellNamed) :
    ((slotLeaves style values).map Prod.fst).Nodup := by
  have hapart : values.Pairwise fun a b => Apart a.1 b.1 := by
    rw [List.Nodup, List.pairwise_map] at hdistinct
    exact hdistinct.imp_of_mem fun ha hb hne => apart_name (hnames _ ha) (hnames _ hb) hne
  refine nodup_slotLeaves_of hapart ?_ ?_
  · intro value hvalue
    exact within_of_mem_leaves (hvalues value hvalue) value.1
  · intro value hvalue
    exact nodup_leaves (hvalues value hvalue) value.1

end ScriptAbi
