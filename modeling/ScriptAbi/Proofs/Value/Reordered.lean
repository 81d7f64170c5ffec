import ScriptAbi.Proofs.Value.Recheck

namespace ScriptAbi

/-!
# Members in another order

The members of a struct may be given in any order: what the check makes of them is the same, and all
of them are in it.

* `Value.Reordered`: two values that differ only in the order of members, in whatever structs.
* `Value.Kept`: what the check leaves of a value. The members of a struct are those that were given,
  each checked, in some order.
* `Reordered.check_eq_ok`: by induction along the two values, what stands the check in one order
  stands it in the other, with the same result.
* `Reordered.kept_of_check`: nothing of such a value is lost in the check.
-/

variable {schemas : List Schema}

namespace Value

/-- The values differ only in the order in which members are listed. In each struct the members have
    different names. -/
inductive Reordered : Value → Value → Prop
  | scalar {value : Value} {kind : Kind} (hkind : value.kind? = some kind) : Reordered value value
  | array {items items' : List Value} (hlength : items.length = items'.length)
      (hitems : ∀ (i : Nat) (item item' : Value), items[i]? = some item → items'[i]? = some item' →
        Reordered item item') : Reordered (.array items) (.array items')
  | struct {bound : Option String} {fields fields' : List (String × Value)}
      (hdistinct : (fields.map Prod.fst).Nodup)
      (hnames : (fields.map Prod.fst).Perm (fields'.map Prod.fst))
      (hfields : ∀ name value value', (name, value) ∈ fields → (name, value') ∈ fields' →
        Reordered value value') : Reordered (.struct bound fields) (.struct bound fields')

/-- Nothing of the value is lost in the result. Scalars are as they were and items are where they
    were; a struct is bound, and its members are those that were given, in some order, each as what
    the check against its declared type made of it. -/
inductive Kept (schemas : List Schema) : Value → Value → Prop
  | scalar {value : Value} {kind : Kind} (hkind : value.kind? = some kind) :
      Kept schemas value value
  | array {items made : List Value} (hlength : items.length = made.length)
      (hitems : ∀ (i : Nat) (item item' : Value), items[i]? = some item → made[i]? = some item' →
        Kept schemas item item') : Kept schemas (.array items) (.array made)
  | struct {bound : Option String} {fields made : List (String × Value)} {schema : Schema}
      {checked : String → Value} (hfind : Schema.find? schemas schema.name = some schema)
      (hperm : made.Perm (fields.map fun field => (field.1, checked field.1)))
      (hchecked : ∀ field ∈ fields, ∃ member ∈ schema.members, member.name = field.1
        ∧ ∃ type, TypeExpr.ofText? member.type = some type
          ∧ field.2.check schemas type = .ok (checked field.1))
      (hfields : ∀ field ∈ fields, Kept schemas field.2 (checked field.1)) :
      Kept schemas (.struct bound fields) (.struct (some schema.name) made)

/-- Reordering can be undone. -/
theorem Reordered.symm {value value' : Value} (h : value.Reordered value') :
    value'.Reordered value := by
  induction h with
  | scalar hkind => exact .scalar hkind
  | array hlength _ ih =>
    exact .array hlength.symm fun i item item' hitem hitem' => ih i item' item hitem' hitem
  | struct hdistinct hnames _ ih =>
    exact .struct (hnames.nodup_iff.1 hdistinct) hnames.symm
      fun name value value' hvalue hvalue' => ih name value' value hvalue' hvalue

/-- Items in another order of members, one by one. -/
theorem Reordered.of_forall₂ {items items' : List Value} (h : List.Forall₂ Reordered items items') :
    Reordered (.array items) (.array items') := by
  refine .array h.length_eq fun i item item' hitem hitem' => ?_
  obtain ⟨_, hbeside, hreordered⟩ := (forall₂_iff_getElem?.1 h).2 i item hitem
  obtain rfl := Option.some.inj (hitem'.symm.trans hbeside)
  exact hreordered

/-! ### One order and another -/

/-- Under one name stand values that differ in the order of members only, so that what is made for a
    member of the one is made of the other. -/
theorem MadeFor.reordered {fields fields' : List (String × Value)} {member : Param}
    {field : String × Value} (hdistinct : (fields.map Prod.fst).Nodup)
    (hnames : (fields.map Prod.fst).Perm (fields'.map Prod.fst))
    (hvalues : ∀ name value value', (name, value) ∈ fields → (name, value') ∈ fields' →
      ∀ {result type}, value.check schemas type = .ok result →
        value'.check schemas type = .ok result)
    (h : MadeFor schemas fields member field) : MadeFor schemas fields' member field := by
  obtain ⟨hname, type, value, htype, hlookup, hcheck⟩ := h
  have hmem : (member.name, value) ∈ fields := mem_of_lookup hlookup
  obtain ⟨value', hmem'⟩ := Named.exists_mem_of_perm hnames hmem
  exact ⟨hname, type, value', htype,
    (Named.lookup_eq_some_iff_mem (hnames.nodup_iff.1 hdistinct)).2 hmem',
    hvalues _ value value' hmem hmem' hcheck⟩

/-- **What stands the check in one order** stands it in the other, with the same result. -/
theorem Reordered.check_eq_ok {value value' result : Value} {type : TypeExpr}
    (h : value.Reordered value') (hcheck : value.check schemas type = .ok result) :
    value'.check schemas type = .ok result := by
  induction h generalizing type result with
  | scalar => exact hcheck
  | @array items items' hlength _ ih =>
    obtain ⟨element, checked, rfl, rfl, hchecked⟩ := exists_of_check_array hcheck
    obtain ⟨hsize, hitems⟩ := forall₂_iff_getElem?.1 hchecked
    have hmapM : items'.mapM (fun item => check schemas item element) = .ok checked := by
      -- the item at each position comes to what the other one there came to
      refine mapM_eq_ok_iff_getElem?.2 ⟨hsize.trans hlength, fun i item' hitem' => ?_⟩
      obtain ⟨hi', -⟩ := List.getElem?_eq_some_iff.1 hitem'
      have hitem := List.getElem?_eq_getElem (hlength ▸ hi' : i < items.length)
      obtain ⟨made, hmade, hcheckItem⟩ := hitems i _ hitem
      exact ⟨made, hmade, ih i _ item' hitem hitem' hcheckItem⟩
    have huniform : uniform items' = true := uniform_of_hasType fun item hitem => by
      obtain ⟨_, -, hcheckItem⟩ := exists_of_mem_left (mapM_eq_ok_iff.1 hmapM) hitem
      exact hasType_of_check hcheckItem
    exact check_array_eq_ok_iff.2 ⟨items', checked, rfl, hlength.symm, huniform, hmapM, rfl⟩
  | struct hdistinct hnames _ ih =>
    obtain ⟨schema, made, rfl, hfind, hbound, hdeclared, hmade, rfl⟩ :=
      check_struct_eq_ok_iff_madeFor.1 hcheck
    -- the schema asks for members by name, and finds the same ones in either order
    refine check_struct_eq_ok_iff_madeFor.2 ⟨schema, made, rfl, hfind, hbound, fun field hfield => ?_,
      hmade.imp fun _ _ => MadeFor.reordered hdistinct hnames ih, rfl⟩
    obtain ⟨given, hgiven⟩ := Named.exists_mem_of_perm hnames.symm hfield
    exact hdeclared (field.1, given) hgiven

/-- **The order of members does not matter** for what stands the check, nor for what comes out. -/
theorem Reordered.check_eq_ok_iff {value value' result : Value} {type : TypeExpr}
    (h : value.Reordered value') :
    value.check schemas type = .ok result ↔ value'.check schemas type = .ok result :=
  ⟨h.check_eq_ok, h.symm.check_eq_ok⟩

/-! ### Nothing is lost -/

/-- Members made of all the declared ones have the names of the given ones, if these are all
    declared and no name comes twice. -/
theorem perm_names_of_madeFor {schema : Schema} {fields made : List (String × Value)}
    (hmembers : (schema.members.map Param.name).Nodup) (hdistinct : (fields.map Prod.fst).Nodup)
    (hdeclared : ∀ field ∈ fields, schema.declares field.1 = true)
    (hmade : List.Forall₂ (MadeFor schemas fields) schema.members made) :
    made.map Prod.fst = schema.members.map Param.name
      ∧ (made.map Prod.fst).Perm (fields.map Prod.fst) := by
  have hnames := names_of_madeFor hmade
  refine ⟨hnames, ?_⟩
  -- two lists of different names are the same but for the order if they have the same names
  rw [hnames, List.perm_ext_iff_of_nodup hmembers hdistinct]
  intro name
  constructor
  · intro hname
    obtain ⟨member, hmember, rfl⟩ := List.mem_map.1 hname
    -- a declared member was given, or nothing would have been made for it
    obtain ⟨_, -, -, _, value, -, hvalue, -⟩ := exists_of_mem_left hmade hmember
    exact List.mem_map_of_mem (f := Prod.fst) (mem_of_lookup hvalue)
  · intro hname
    obtain ⟨field, hfield, rfl⟩ := List.mem_map.1 hname
    -- a member that was given is declared
    obtain ⟨member, hmember, hsame⟩ := declares_iff.1 (hdeclared field hfield)
    exact hsame ▸ List.mem_map_of_mem hmember

/-- **What is made of all the declared members** is what the check makes of each given one, in some
    order. -/
theorem exists_perm_of_madeFor {schema : Schema} {fields made : List (String × Value)}
    (hmembers : (schema.members.map Param.name).Nodup) (hdistinct : (fields.map Prod.fst).Nodup)
    (hdeclared : ∀ field ∈ fields, schema.declares field.1 = true)
    (hmade : List.Forall₂ (MadeFor schemas fields) schema.members made) :
    ∃ checked : String → Value, made.Perm (fields.map fun field => (field.1, checked field.1))
      ∧ ∀ field ∈ fields, ∃ member ∈ schema.members, member.name = field.1
        ∧ ∃ type, TypeExpr.ofText? member.type = some type
          ∧ field.2.check schemas type = .ok (checked field.1) := by
  obtain ⟨hnames, hperm⟩ := perm_names_of_madeFor hmembers hdistinct hdeclared hmade
  obtain ⟨checked, hout, hpairs⟩ := Named.exists_perm_map (hnames ▸ hmembers) hperm
  rw [List.map_map] at hpairs
  refine ⟨checked, hpairs, fun field hfield => ?_⟩
  obtain ⟨member, hmember, hname⟩ := declares_iff.1 (hdeclared field hfield)
  obtain ⟨out, hmem, hsame, type, value, htype, hvalue, hcheck⟩ := exists_of_mem_left hmade hmember
  -- no other member is given under that name
  rw [hname, (Named.lookup_eq_some_iff_mem hdistinct).2 hfield] at hvalue
  cases hvalue
  refine ⟨member, hmember, hname, type, htype, ?_⟩
  rw [← hname, ← hsame, hout out hmem]
  exact hcheck

/-- **Nothing is lost in the check** of a value whose structs have members of different names, where
    the members of each schema have different names. -/
theorem Reordered.kept_of_check {value value' result : Value} {type : TypeExpr}
    (hschemas : ∀ schema ∈ schemas, (schema.members.map Param.name).Nodup)
    (h : value.Reordered value') (hcheck : value.check schemas type = .ok result) :
    Kept schemas value result := by
  induction h generalizing type result with
  | scalar hkind =>
    obtain ⟨-, rfl⟩ := exists_of_check_scalar hkind hcheck
    exact .scalar hkind
  | array hlength _ ih =>
    obtain ⟨element, checked, rfl, rfl, hchecked⟩ := exists_of_check_array hcheck
    obtain ⟨hsize, hitems⟩ := forall₂_iff_getElem?.1 hchecked
    refine .array hsize.symm fun i item made hitem hmade => ?_
    obtain ⟨_, hmade', hcheckItem⟩ := hitems i item hitem
    obtain rfl := Option.some.inj (hmade.symm.trans hmade')
    obtain ⟨hi, -⟩ := List.getElem?_eq_some_iff.1 hitem
    exact ih i item _ hitem (List.getElem?_eq_getElem (hlength ▸ hi)) hcheckItem
  | struct hdistinct hgiven _ ih =>
    obtain ⟨schema, made, rfl, hfind, -, hdeclared, hmade, rfl⟩ :=
      check_struct_eq_ok_iff_madeFor.1 hcheck
    obtain ⟨checked, hperm, hchecked⟩ :=
      exists_perm_of_madeFor (hschemas schema (mem_of_find? hfind)) hdistinct hdeclared hmade
    refine .struct hfind hperm hchecked fun field hfield => ?_
    obtain ⟨_, -, -, type, -, hcheckField⟩ := hchecked field hfield
    -- the other value has a member of that name
    obtain ⟨value', hfield'⟩ := Named.exists_mem_of_perm hgiven hfield
    exact ih _ field.2 value' hfield hfield' hcheckField

end Value

end ScriptAbi
