import ScriptAbi.Proofs.Value.Canonical

namespace ScriptAbi

/-!
# The values of a type

What it is for a value to be of a type, said without the check, and what the check makes of it.

* `Value.HasType`: a value is of a type. Structs may be bound or not, and their members may stand in
  any order.
* `Value.Arranged`: a value and the same value with each struct in it bound to its schema and with
  its members as the schema lists them. A value is arranged in one way (`Arranged.unique`).
* `check_eq_ok_iff_hasType`: exactly the values of a type stand the check, and the check arranges
  them.
-/

variable {schemas : List Schema}

instance : Nonempty Value := ⟨.bool false⟩

namespace Value

/-- The value is of the type. A struct is of the type that names its schema, the first one of the
    name, if it is not bound to another schema, has no member that the schema lacks, and has for
    each member of the schema a value of this member's type. The first value given for a member is
    the one that counts. -/
inductive HasType (schemas : List Schema) : TypeExpr → Value → Prop
  | scalar {kind : Kind} {value : Value} (hkind : value.kind? = some kind) :
      HasType schemas (.scalar kind) value
  | array {element : TypeExpr} {size : Nat} {items : List Value} (hsize : items.length = size)
      (hitems : ∀ item ∈ items, HasType schemas element item) :
      HasType schemas (.array element size) (.array items)
  | struct {name : String} {schema : Schema} {bound : Option String}
      {fields : List (String × Value)} {typeOf : Param → TypeExpr} {given : Param → Value}
      (hfind : Schema.find? schemas name = some schema) (hbound : bound = none ∨ bound = some name)
      (hdeclared : ∀ field ∈ fields, ∃ member ∈ schema.members, member.name = field.1)
      (htypes : ∀ member ∈ schema.members, TypeExpr.ofText? member.type = some (typeOf member))
      (hgiven : ∀ member ∈ schema.members, fields.lookup member.name = some (given member))
      (hmembers : ∀ member ∈ schema.members, HasType schemas (typeOf member) (given member)) :
      HasType schemas (.struct name) (.struct bound fields)

/-- The second value is the first one with every struct in it bound to its schema and with the
    members that this schema lists, in its order. A member holds what was given for it first,
    arranged in turn; scalars stay as they are, and items where they are. -/
inductive Arranged (schemas : List Schema) : TypeExpr → Value → Value → Prop
  | scalar {kind : Kind} {value : Value} (hkind : value.kind? = some kind) :
      Arranged schemas (.scalar kind) value value
  | array {element : TypeExpr} {size : Nat} {items : List Value} {result : Value → Value}
      (hitems : ∀ item ∈ items, Arranged schemas element item (result item)) :
      Arranged schemas (.array element size) (.array items) (.array (items.map result))
  | struct {name : String} {schema : Schema} {bound : Option String}
      {fields : List (String × Value)} {typeOf : Param → TypeExpr} {given result : Param → Value}
      (hfind : Schema.find? schemas name = some schema)
      (htypes : ∀ member ∈ schema.members, TypeExpr.ofText? member.type = some (typeOf member))
      (hgiven : ∀ member ∈ schema.members, fields.lookup member.name = some (given member))
      (hmembers : ∀ member ∈ schema.members,
        Arranged schemas (typeOf member) (given member) (result member)) :
      Arranged schemas (.struct name) (.struct bound fields)
        (.struct (some name) (schema.members.map fun member => (member.name, result member)))

/-- **A value is arranged in one way.** -/
theorem Arranged.unique {type : TypeExpr} {value result result' : Value}
    (h : Arranged schemas type value result) (h' : Arranged schemas type value result') :
    result = result' := by
  induction h generalizing result' with
  | scalar =>
    cases h' with
    | scalar => rfl
  | array _ ih =>
    cases h' with
    | array hitems' => exact congrArg Value.array (List.map_congr_left fun item hitem =>
        ih item hitem (hitems' item hitem))
  | @struct name schema bound fields typeOf given result hfind htypes hgiven _ ih =>
    cases h' with
    | @struct _ schema' _ _ typeOf' given' result' hfind' htypes' hgiven' hmembers' =>
      -- the schema, the types of its members and the values given for them are found, and so the
      -- same
      have hschema : schema' = schema := Option.some.inj (hfind'.symm.trans hfind)
      subst hschema
      have hresult : ∀ member ∈ schema'.members, result member = result' member := by
        intro member hmember
        have htype : typeOf' member = typeOf member :=
          Option.some.inj ((htypes' member hmember).symm.trans (htypes member hmember))
        have hsame : given' member = given member :=
          Option.some.inj ((hgiven' member hmember).symm.trans (hgiven member hmember))
        have harranged := hmembers' member hmember
        rw [htype, hsame] at harranged
        exact ih member hmember harranged
      refine congrArg _ (List.map_congr_left fun member hmember => ?_)
      rw [hresult member hmember]

/-! ### Values of one type have one shape -/

/-- The shape of the values of a type. -/
def shapeOf : TypeExpr → Shape
  | .scalar kind => .scalar kind
  | .array _ _ => .array
  | .struct _ => .struct

/-- A value of a type has the shape of the type. -/
theorem HasType.shape_eq {type : TypeExpr} {value : Value} (h : HasType schemas type value) :
    value.shape = shapeOf type := by
  cases h with
  | scalar hkind =>
    unfold kind? at hkind
    split at hkind
    · rename_i hshape
      rw [hshape, Option.some.inj hkind, shapeOf]
    · contradiction
  | array | struct => rfl

/-- Items of one shape are uniform. -/
theorem uniform_of_shape_eq {items : List Value} {shape : Shape}
    (h : ∀ item ∈ items, item.shape = shape) : uniform items = true := by
  induction items with
  | nil => rfl
  | cons first rest ih =>
    cases rest with
    | nil => rfl
    | cons second rest =>
      have hshapes : first.shape = second.shape := by
        rw [h first (by simp), h second (by simp)]
      rw [uniform, hshapes, beq_self_eq_true, Bool.true_and]
      exact ih fun item hitem => h item (by simp [hitem])

/-- Items of one type have the same shape. -/
theorem uniform_of_hasType {element : TypeExpr} {items : List Value}
    (h : ∀ item ∈ items, HasType schemas element item) : uniform items = true :=
  uniform_of_shape_eq fun item hitem => (h item hitem).shape_eq

/-! ### What stands the check is of the type -/

/-- **What stands the check is of the type.** -/
theorem hasType_of_check {type : TypeExpr} {value result : Value}
    (h : value.check schemas type = .ok result) : HasType schemas type value := by
  induction h using check_induct with
  | scalar value kind hkind => exact .scalar hkind
  | array element items checked hchecked _ ih =>
    refine .array rfl fun item hitem => ?_
    obtain ⟨_, -, hcheck⟩ := exists_of_mem_left hchecked hitem
    exact ih item hitem hcheck
  | struct schema bound fields made hfind hbound hdeclared hmade _ ih =>
    have hgiven : ∀ member ∈ schema.members, ∃ type value result,
        TypeExpr.ofText? member.type = some type ∧ fields.lookup member.name = some value
          ∧ value.check schemas type = .ok result := by
      intro member hmember
      obtain ⟨field, -, -, type, value, htype, hvalue, hcheck⟩ := exists_of_mem_left hmade hmember
      exact ⟨type, value, field.2, htype, hvalue, hcheck⟩
    choose! typeOf given result htypes hgiven hresult using hgiven
    refine .struct hfind (forall_mem_bound_iff.1 hbound)
      (fun field hfield => declares_iff.1 (hdeclared field hfield)) htypes hgiven
      fun member hmember => ?_
    -- what is found under the member's name is one of the given values
    exact ih (member.name, given member) (mem_of_lookup (hgiven member hmember))
      (hresult member hmember)

/-! ### What is of the type stands the check -/

/-- **What is of the type stands the check**, and comes out arranged. -/
theorem exists_check_of_hasType {type : TypeExpr} {value : Value}
    (h : HasType schemas type value) :
    ∃ result, value.check schemas type = .ok result ∧ Arranged schemas type value result := by
  induction h with
  | scalar hkind => exact ⟨_, check_scalar_eq_ok_iff.2 ⟨hkind, rfl⟩, .scalar hkind⟩
  | @array element size items hsize hitems ih =>
    choose! result hcheck harranged using ih
    refine ⟨.array (items.map result), check_array_eq_ok_iff.2 ?_, .array harranged⟩
    exact ⟨items, _, rfl, hsize, uniform_of_hasType hitems, mapM_eq_ok_map hcheck, rfl⟩
  | @struct name schema bound fields typeOf given hfind hbound hdeclared htypes hgiven _ ih =>
    choose! result hcheck harranged using ih
    obtain rfl := name_of_find? hfind
    refine ⟨_, check_struct_eq_ok_iff_madeFor.2 ?_, .struct hfind htypes hgiven harranged⟩
    refine ⟨schema, _, rfl, hfind, forall_mem_bound_iff.2 hbound,
      fun field hfield => declares_iff.2 (hdeclared field hfield), ?_, rfl⟩
    -- for each declared member the value given first is checked
    rw [List.forall₂_map_right_iff, List.forall₂_same]
    exact fun member hmember => ⟨rfl, typeOf member, given member, htypes member hmember,
      hgiven member hmember, hcheck member hmember⟩

end Value

/-- **Exactly the values of a type stand the check**, and the check arranges them: what comes out is
    the value with every struct in it bound to its schema and in this schema's order. -/
theorem check_eq_ok_iff_hasType (schemas : List Schema) (type : TypeExpr) (value : Value) :
    ((∃ result, value.check schemas type = .ok result) ↔ Value.HasType schemas type value)
      ∧ ∀ result, value.check schemas type = .ok result ↔
        Value.HasType schemas type value ∧ Value.Arranged schemas type value result := by
  constructor
  · constructor
    · rintro ⟨result, hcheck⟩
      exact Value.hasType_of_check hcheck
    · intro htype
      obtain ⟨result, hcheck, -⟩ := Value.exists_check_of_hasType htype
      exact ⟨result, hcheck⟩
  · intro result
    constructor
    · intro hcheck
      have htype := Value.hasType_of_check hcheck
      obtain ⟨arranged, hchecked, harranged⟩ := Value.exists_check_of_hasType htype
      -- the check has one outcome
      rw [hcheck] at hchecked
      cases hchecked
      exact ⟨htype, harranged⟩
    · rintro ⟨htype, harranged⟩
      obtain ⟨arranged, hcheck, harranged'⟩ := Value.exists_check_of_hasType htype
      rw [hcheck, harranged.unique harranged']

end ScriptAbi
