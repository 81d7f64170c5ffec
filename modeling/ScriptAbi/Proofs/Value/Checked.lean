import ScriptAbi.Proofs.Outcome
import ScriptAbi.Value.Check

namespace ScriptAbi

/-!
# Values that stand the check

* `Value.induct`: induction over a value: scalars, arrays by their items, structs by their members.
* `check_scalar_eq_ok_iff`, `check_array_eq_ok_iff`, `check_struct_eq_ok_iff`: what a value must be
  to stand the check against a type of each form.
* `Value.MadeFor`: a field of the struct that comes out, made for a declared member.
* `Value.exists_of_check_scalar`, `Value.exists_of_check_array`,
  `Value.check_struct_eq_ok_iff_madeFor`: the types that a value of each form stands the check
  against, and what the check makes of it.
* `Value.check_induct`: induction over an accepted check. What comes of every check that is accepted
  is proved along its three cases.
-/

/-- **Induction over a value.** -/
@[elab_as_elim]
theorem Value.induct {motive : Value → Prop}
    (scalar : ∀ value kind, value.kind? = some kind → motive value)
    (array : ∀ items, (∀ item ∈ items, motive item) → motive (.array items))
    (struct : ∀ bound fields, (∀ field ∈ fields, motive field.2) →
      motive (.struct bound fields)) :
    ∀ value, motive value
  | .bool b => scalar (.bool b) _ rfl
  | .int n => scalar (.int n) _ rfl
  | .privKey n => scalar (.privKey n) _ rfl
  | .sigHashType flag => scalar (.sigHashType flag) _ rfl
  | .bytes kind data => scalar (.bytes kind data) _ rfl
  | .array items => array items fun item hitem =>
      have := List.sizeOf_lt_of_mem hitem
      Value.induct scalar array struct item
  | .struct bound fields => struct bound fields fun field hfield =>
      have := List.sizeOf_lt_of_mem hfield
      Value.induct scalar array struct field.2
termination_by value => sizeOf value
decreasing_by
  · simp only [Value.array.sizeOf_spec]
    omega
  · obtain ⟨name, value⟩ := field
    simp only [Value.struct.sizeOf_spec, Prod.mk.sizeOf_spec] at *
    omega

/-- A scalar is named like its kind. -/
theorem typeName_of_kind? {value : Value} {kind : Kind} (h : value.kind? = some kind) :
    value.typeName = kind.name := by
  cases value with
  | struct | array => cases h
  | _ => cases h; rfl

variable {schemas : List Schema}

/-! ### What stands the check -/

/-- A type's text is read or is malformed. -/
theorem ofText_eq_ok_iff {text : String} {type : TypeExpr} :
    TypeExpr.ofText text = .ok type ↔ TypeExpr.ofText? text = some type := by
  unfold TypeExpr.ofText
  split <;> simp_all

/-- The error of a text that denotes no type tells the text. -/
theorem ofText_eq_error_iff {text : String} {error : ContractError} :
    TypeExpr.ofText text = .error error ↔
      TypeExpr.ofText? text = none ∧ error = .descriptor (.malformedType text) := by
  unfold TypeExpr.ofText
  split
  · rename_i htype
    simp [htype]
  · rename_i htype
    simp [htype, eq_comm]

/-- A value stands the check against a scalar type iff it is of that kind, and is left as it is. -/
theorem check_scalar_eq_ok_iff {value result : Value} {kind : Kind} :
    value.check schemas (.scalar kind) = .ok result ↔ value.kind? = some kind ∧ result = value := by
  cases value <;> simp only [Value.check] <;> split <;> simp_all [eq_comm]

/-- A value stands the check against an array type iff it is an array of that size, its items have
    one shape, and each of them stands the check. -/
theorem check_array_eq_ok_iff {value result : Value} {element : TypeExpr} {size : Nat} :
    value.check schemas (.array element size) = .ok result ↔
      ∃ items checked, value = .array items ∧ items.length = size ∧ Value.uniform items
        ∧ items.mapM (fun item => item.check schemas element) = .ok checked
        ∧ result = .array checked := by
  cases value with
  | array items =>
    simp only [Value.check, Value.checkItems_eq_mapM]
    -- the size counts first, then the shapes of the items
    split_ifs with hsize huniform
    · simp [hsize]
    · have hsize : items.length = size := not_not.1 hsize
      rw [map_eq_ok_iff]
      constructor
      · rintro ⟨checked, hchecked, rfl⟩
        exact ⟨items, checked, rfl, hsize, huniform, hchecked, rfl⟩
      · rintro ⟨_, checked, heq, -, -, hchecked, rfl⟩
        cases heq
        exact ⟨checked, hchecked, rfl⟩
    · simp [huniform]
  | _ => simp [Value.check]

/-- A value stands the check against a struct type iff it is a struct, there is a schema of that
    name, and the schema arranges its members. -/
theorem check_struct_eq_ok_iff {value result : Value} {name : String} :
    value.check schemas (.struct name) = .ok result ↔
      ∃ bound fields schema arranged, value = .struct bound fields
        ∧ Schema.find? schemas name = some schema
        ∧ schema.arrange bound (Value.checkers schemas fields) = .ok arranged
        ∧ result = .struct (some schema.name) arranged := by
  cases value with
  | struct bound fields =>
    simp only [Value.check]
    split
    · -- there is no schema of this name
      simp_all
    · rename_i schema hfind
      rw [map_eq_ok_iff]
      constructor
      · rintro ⟨arranged, harranged, rfl⟩
        exact ⟨bound, fields, schema, arranged, rfl, hfind, harranged, rfl⟩
      · rintro ⟨_, _, _, arranged, heq, hfind', harranged, rfl⟩
        cases heq
        rw [hfind] at hfind'
        cases hfind'
        exact ⟨arranged, harranged, rfl⟩
  | _ => simp [Value.check]

/-- A member stands the check if a value is given under its name that stands it. -/
theorem checkMember_eq_ok_iff {struct : String} {given : List (String × Checker)} {member : Param}
    {field : String × Value} :
    member.checkMember struct given = .ok field ↔
      ∃ check type value, given.lookup member.name = some check
        ∧ TypeExpr.ofText? member.type = some type ∧ check type = .ok value
        ∧ field = (member.name, value) := by
  unfold Param.checkMember
  split
  · -- nothing is given for the member
    rename_i hgiven
    simp [hgiven]
  · rename_i check hgiven
    simp only [bind_eq_ok_iff, mapError_eq_ok_iff, ofText_eq_ok_iff, hgiven]
    constructor
    · rintro ⟨type, htype, value, hvalue, heq⟩
      cases heq
      exact ⟨check, type, value, rfl, htype, hvalue, rfl⟩
    · rintro ⟨_, type, value, hcheck, htype, hvalue, rfl⟩
      cases hcheck
      exact ⟨type, htype, value, hvalue, rfl⟩

/-- Members are arranged if the struct is not bound elsewhere, the schema declares all of them and
    each declared member stands the check. -/
theorem arrange_eq_ok_iff {schema : Schema} {bound : Option String}
    {given : List (String × Checker)} {fields : List (String × Value)} :
    schema.arrange bound given = .ok fields ↔
      (∀ name ∈ bound, name = schema.name) ∧ (∀ entry ∈ given, schema.declares entry.1)
        ∧ schema.members.mapM (Param.checkMember schema.name given) = .ok fields := by
  unfold Schema.arrange
  split
  · -- the struct is bound to another schema
    rename_i other hother
    obtain ⟨hbound, hne⟩ := Option.filter_eq_some_iff.1 hother
    simp_all
  · rename_i hbound
    have hname : ∀ name ∈ bound, name = schema.name := by
      intro name hmem
      by_contra hne
      have := Option.filter_eq_none_iff.1 hbound name hmem
      simp [hne] at this
    split
    · -- some member given is not declared
      rename_i hfind
      have hmem := List.mem_of_find?_eq_some hfind
      have hnot := List.find?_some hfind
      simp only [reduceCtorEq, false_iff, not_and]
      intro _ hall
      simp [hall _ hmem] at hnot
    · rename_i hfind
      have hall : ∀ entry ∈ given, schema.declares entry.1 = true := by
        simpa using hfind
      exact ⟨fun h => ⟨hname, hall, h⟩, fun h => h.2.2⟩

/-- What is given for a name is the check of the member of that name. -/
theorem lookup_checkers (fields : List (String × Value)) (name : String) :
    (Value.checkers schemas fields).lookup name
      = (fields.lookup name).map fun value => value.check schemas := by
  induction fields with
  | nil => rfl
  | cons field rest ih =>
    obtain ⟨first, value⟩ := field
    simp only [Value.checkers, List.lookup_cons, ih]
    split <;> rfl

/-- The schema that is found for a name is one of the given ones. -/
theorem mem_of_find? {name : String} {schema : Schema}
    (h : Schema.find? schemas name = some schema) : schema ∈ schemas :=
  List.mem_of_find?_eq_some h

namespace Value

/-- The schema that is found for a name has this name. -/
theorem name_of_find? {name : String} {schema : Schema}
    (h : Schema.find? schemas name = some schema) : schema.name = name := by
  simpa using List.find?_some h

/-- What a schema declares are the names of its members. -/
theorem declares_iff {schema : Schema} {name : String} :
    schema.declares name = true ↔ ∃ member ∈ schema.members, member.name = name := by
  simp [Schema.declares]

/-- A struct may be of the schema iff it is bound to it or to none. -/
theorem forall_mem_bound_iff {bound : Option String} {name : String} :
    (∀ other ∈ bound, other = name) ↔ bound = none ∨ bound = some name := by
  cases bound <;> simp

/-- The checks of members are declared iff the members are. -/
theorem forall_declares_checkers_iff {schema : Schema} {fields : List (String × Value)} :
    (∀ entry ∈ checkers schemas fields, schema.declares entry.1 = true) ↔
      ∀ field ∈ fields, schema.declares field.1 = true := by
  rw [checkers_eq_map, List.forall_mem_map]

/-- What is found under a name is a member of that name. -/
theorem mem_of_lookup {fields : List (String × Value)} {name : String} {value : Value}
    (h : fields.lookup name = some value) : (name, value) ∈ fields := by
  obtain ⟨front, back, rfl, -⟩ := List.lookup_eq_some_iff.1 h
  simp

/-! ### What is made for a member -/

/-- The field is what the check makes of the value given for the member. -/
def MadeFor (schemas : List Schema) (given : List (String × Value)) (member : Param)
    (field : String × Value) : Prop :=
  field.1 = member.name ∧ ∃ type value, TypeExpr.ofText? member.type = some type
    ∧ given.lookup member.name = some value ∧ value.check schemas type = .ok field.2

/-- A member is checked iff the field that comes of it is made for it. -/
theorem checkMember_eq_ok_iff_madeFor {name : String} {given : List (String × Value)}
    {member : Param} {field : String × Value} :
    member.checkMember name (checkers schemas given) = .ok field ↔
      MadeFor schemas given member field := by
  rw [checkMember_eq_ok_iff, MadeFor]
  simp only [lookup_checkers, Option.map_eq_some_iff]
  constructor
  · rintro ⟨_, type, result, ⟨value, hvalue, rfl⟩, htype, hcheck, rfl⟩
    exact ⟨rfl, type, value, htype, hvalue, hcheck⟩
  · rintro ⟨hname, type, value, htype, hvalue, hcheck⟩
    exact ⟨_, type, field.2, ⟨value, hvalue, rfl⟩, htype, hcheck, Prod.ext hname rfl⟩

/-- **The members of a struct are arranged** if it is not bound elsewhere, the schema declares all
    of them and something is made for each declared one. -/
theorem arrange_eq_ok_iff_madeFor {schema : Schema} {bound : Option String}
    {fields made : List (String × Value)} :
    schema.arrange bound (checkers schemas fields) = .ok made ↔
      (∀ name ∈ bound, name = schema.name) ∧ (∀ field ∈ fields, schema.declares field.1 = true)
        ∧ List.Forall₂ (MadeFor schemas fields) schema.members made := by
  rw [arrange_eq_ok_iff, forall_declares_checkers_iff]
  simp only [mapM_eq_ok_iff, checkMember_eq_ok_iff_madeFor]

/-- What is made for members has the members' names. -/
theorem names_of_madeFor {members : List Param} {given made : List (String × Value)}
    (h : List.Forall₂ (MadeFor schemas given) members made) :
    made.map Prod.fst = members.map Param.name := by
  rw [← List.forall₂_eq_eq_eq, List.forall₂_map_left_iff, List.forall₂_map_right_iff]
  exact (h.imp fun _ _ hmade => hmade.1).flip

/-! ### What a value of each form comes to -/

/-- A scalar stands the check of its own kind only, and is left as it is. -/
theorem exists_of_check_scalar {value result : Value} {kind : Kind} {type : TypeExpr}
    (hkind : value.kind? = some kind) (h : value.check schemas type = .ok result) :
    type = .scalar kind ∧ result = value := by
  cases type with
  | scalar =>
    obtain ⟨hkind', rfl⟩ := check_scalar_eq_ok_iff.1 h
    cases hkind.symm.trans hkind'
    exact ⟨rfl, rfl⟩
  | array =>
    obtain ⟨_, _, rfl, -⟩ := check_array_eq_ok_iff.1 h
    cases hkind
  | struct =>
    obtain ⟨_, _, _, _, rfl, -⟩ := check_struct_eq_ok_iff.1 h
    cases hkind

/-- Of an array the items are checked. -/
theorem exists_of_check_array {items : List Value} {result : Value} {type : TypeExpr}
    (h : (array items).check schemas type = .ok result) :
    ∃ element checked, type = .array element items.length ∧ result = .array checked
      ∧ List.Forall₂ (fun item item' => item.check schemas element = .ok item') items checked := by
  cases type with
  | scalar => cases (check_scalar_eq_ok_iff.1 h).1
  | array element size =>
    obtain ⟨_, checked, heq, rfl, -, hchecked, rfl⟩ := check_array_eq_ok_iff.1 h
    cases heq
    exact ⟨element, checked, rfl, rfl, mapM_eq_ok_iff.1 hchecked⟩
  | struct =>
    obtain ⟨_, _, _, _, heq, -⟩ := check_struct_eq_ok_iff.1 h
    cases heq

/-- A struct stands the check of the type that names its schema, if its members are arranged. -/
theorem check_struct_eq_ok_iff_madeFor {bound : Option String} {fields : List (String × Value)}
    {result : Value} {type : TypeExpr} :
    (struct bound fields).check schemas type = .ok result ↔
      ∃ schema made, type = .struct schema.name ∧ Schema.find? schemas schema.name = some schema
        ∧ (∀ name ∈ bound, name = schema.name) ∧ (∀ field ∈ fields, schema.declares field.1 = true)
        ∧ List.Forall₂ (MadeFor schemas fields) schema.members made
        ∧ result = .struct (some schema.name) made := by
  constructor
  · intro h
    cases type with
    -- a struct is neither a scalar nor an array
    | scalar => cases (check_scalar_eq_ok_iff.1 h).1
    | array =>
      obtain ⟨_, _, heq, -⟩ := check_array_eq_ok_iff.1 h
      cases heq
    | struct name =>
      obtain ⟨_, _, schema, made, heq, hfind, harrange, rfl⟩ := check_struct_eq_ok_iff.1 h
      cases heq
      obtain rfl := name_of_find? hfind
      obtain ⟨hbound, hdeclared, hmade⟩ := arrange_eq_ok_iff_madeFor.1 harrange
      exact ⟨schema, made, rfl, hfind, hbound, hdeclared, hmade, rfl⟩
  · rintro ⟨schema, made, rfl, hfind, hbound, hdeclared, hmade, rfl⟩
    exact check_struct_eq_ok_iff.2 ⟨bound, fields, schema, made, rfl, hfind,
      arrange_eq_ok_iff_madeFor.2 ⟨hbound, hdeclared, hmade⟩, rfl⟩

/-! ### Induction over a check -/

/-- **Induction over an accepted check**: a scalar of the kind, an array by the checks of its items,
    a struct by the checks of the values given in it. -/
@[elab_as_elim]
theorem check_induct
    {motive : (type : TypeExpr) → (value result : Value) →
      value.check schemas type = .ok result → Prop}
    (scalar : ∀ value kind (_ : value.kind? = some kind)
      (h : value.check schemas (.scalar kind) = .ok value), motive (.scalar kind) value value h)
    (array : ∀ element items checked
      (_ : List.Forall₂ (fun item item' => item.check schemas element = .ok item') items checked)
      (h : (Value.array items).check schemas (.array element items.length) = .ok (.array checked)),
      (∀ item ∈ items, ∀ {type result} (h : item.check schemas type = .ok result),
        motive type item result h) →
      motive (.array element items.length) (.array items) (.array checked) h)
    (struct : ∀ schema bound fields made (_ : Schema.find? schemas schema.name = some schema)
      (_ : ∀ name ∈ bound, name = schema.name)
      (_ : ∀ field ∈ fields, schema.declares field.1 = true)
      (_ : List.Forall₂ (MadeFor schemas fields) schema.members made)
      (h : (Value.struct bound fields).check schemas (.struct schema.name)
        = .ok (.struct (some schema.name) made)),
      (∀ field ∈ fields, ∀ {type result} (h : field.2.check schemas type = .ok result),
        motive type field.2 result h) →
      motive (.struct schema.name) (.struct bound fields) (.struct (some schema.name) made) h)
    {type : TypeExpr} {value result : Value} (h : value.check schemas type = .ok result) :
    motive type value result h := by
  -- on the value; its form decides which type it stands the check against
  induction value using Value.induct generalizing type result with
  | scalar value kind hkind =>
    obtain ⟨rfl, rfl⟩ := exists_of_check_scalar hkind h
    exact scalar _ kind hkind h
  | array items ih =>
    obtain ⟨element, checked, rfl, rfl, hchecked⟩ := exists_of_check_array h
    exact array element items checked hchecked h ih
  | struct bound fields ih =>
    obtain ⟨schema, made, rfl, hfind, hbound, hdeclared, hmade, rfl⟩ :=
      check_struct_eq_ok_iff_madeFor.1 h
    exact struct schema bound fields made hfind hbound hdeclared hmade h ih

end Value

end ScriptAbi

