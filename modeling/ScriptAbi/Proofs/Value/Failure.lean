import ScriptAbi.Proofs.Value.Matching

namespace ScriptAbi

/-!
# Where a value fails the check

* `Value.FailsAt`: a value that is not of a type, with the members that are being checked when this
  comes out, and what is wrong there. It is said without the check.
* `check_array_eq_error_iff`, `check_struct_eq_error_iff`, `arrange_eq_error_iff`,
  `checkMember_eq_error_iff`: how one step of the check fails.
* `check_struct_eq_error_iff_comesTo`: how the check of a struct fails, in the order of its steps.
* `check_of_failsAt`, `exists_failsAt_of_check`: the check fails where `Value.FailsAt` says and
  nowhere else, and each member that it is in then has named its place.
* `foldr_placedIn_eq`: of these places the innermost one stays.
-/

variable {schemas : List Schema}

/-! ### Failures -/

/-- The check of a struct comes to a member of its schema: nothing is wrong with the struct as a
    whole, and the members before this one have values of their types. -/
structure Schema.ComesTo (schemas : List Schema) (schema : Schema) (name : String)
    (bound : Option String) (fields : List (String × Value)) (member : Param) : Prop where
  find : Schema.find? schemas name = some schema
  free : bound = none ∨ bound = some name
  declared : ∀ field ∈ fields, ∃ member ∈ schema.members, member.name = field.1
  before : ∃ front back, schema.members = front ++ member :: back
    ∧ ∀ earlier ∈ front, ∃ value, fields.lookup earlier.name = some value
      ∧ earlier.Holds schemas value

/-- **Where a value is found not to be of a type.** The list has the members that are being checked
    when the failure arises, the outermost first; it is empty if no member of the value encloses the
    failure. What comes first is found first: items in order, and members in the schema's order. -/
inductive Value.FailsAt (schemas : List Schema) :
    TypeExpr → Value → List String → ContractError → Prop
  /-- The value is of another form, or a scalar of another kind. -/
  | mistyped {type : TypeExpr} {value : Value} (hshape : value.shape ≠ shapeOf type) :
      FailsAt schemas type value [] (.mistyped type value.typeName)
  | arraySize {element : TypeExpr} {size : Nat} {items : List Value} (hsize : items.length ≠ size) :
      FailsAt schemas (.array element size) (.array items) [] (.arraySize size items.length)
  | mixedArray {element : TypeExpr} {size : Nat} {items : List Value} (hsize : items.length = size)
      (hmixed : uniform items = false) :
      FailsAt schemas (.array element size) (.array items) [] .mixedArray
  | item {element : TypeExpr} {size : Nat} {front back : List Value} {item : Value}
      {path : List String} {cause : ContractError} (hsize : (front ++ item :: back).length = size)
      (huniform : uniform (front ++ item :: back) = true)
      (hfront : ∀ earlier ∈ front, HasType schemas element earlier)
      (hitem : FailsAt schemas element item path cause) :
      FailsAt schemas (.array element size) (.array (front ++ item :: back)) path cause
  | unknownStruct {name : String} {bound : Option String} {fields : List (String × Value)}
      (hfind : Schema.find? schemas name = none) :
      FailsAt schemas (.struct name) (.struct bound fields) [] (.unboundStruct name)
  | boundElsewhere {schema : Schema} {name other : String} {fields : List (String × Value)}
      (hfind : Schema.find? schemas name = some schema) (hother : other ≠ name) :
      FailsAt schemas (.struct name) (.struct (some other) fields) []
        (.schema name (.boundElsewhere other))
  | undeclared {schema : Schema} {name : String} {bound : Option String}
      {front back : List (String × Value)} {extra : String} {value : Value}
      (hfind : Schema.find? schemas name = some schema) (hbound : bound = none ∨ bound = some name)
      (hfront : ∀ field ∈ front, ∃ member ∈ schema.members, member.name = field.1)
      (hextra : ∀ member ∈ schema.members, member.name ≠ extra) :
      FailsAt schemas (.struct name) (.struct bound (front ++ (extra, value) :: back)) []
        (.schema name (.undeclared extra))
  | missing {schema : Schema} {name : String} {bound : Option String}
      {fields : List (String × Value)} {member : Param}
      (hmember : schema.ComesTo schemas name bound fields member)
      (hgiven : fields.lookup member.name = none) :
      FailsAt schemas (.struct name) (.struct bound fields) [] (.schema name (.missing member.name))
  /-- The text of a member's type denotes no type. -/
  | malformed {schema : Schema} {name : String} {bound : Option String}
      {fields : List (String × Value)} {member : Param} {value : Value}
      (hmember : schema.ComesTo schemas name bound fields member)
      (hgiven : fields.lookup member.name = some value)
      (htype : TypeExpr.ofText? member.type = none) :
      FailsAt schemas (.struct name) (.struct bound fields) [member.name]
        (.descriptor (.malformedType member.type))
  /-- The value of a member is not of the member's type. -/
  | member {schema : Schema} {name : String} {bound : Option String}
      {fields : List (String × Value)} {member : Param} {value : Value} {type : TypeExpr}
      {path : List String} {cause : ContractError}
      (hmember : schema.ComesTo schemas name bound fields member)
      (hgiven : fields.lookup member.name = some value)
      (htype : TypeExpr.ofText? member.type = some type)
      (hvalue : FailsAt schemas type value path cause) :
      FailsAt schemas (.struct name) (.struct bound fields) (member.name :: path) cause

/-! ### Places -/

/-- The members that name their place in an error. The text of a member's type is read before the
    member has its say, so that a malformed one is reported of the struct that the member is in. -/
def ContractError.placesOf (path : List String) : ContractError → List String
  | .descriptor (.malformedType _) => path.dropLast
  | _ => path

/-- The error that a failure is reported as: each of these members has named its place, the
    innermost one first. -/
def ContractError.reportedAt (path : List String) (cause : ContractError) : ContractError :=
  (cause.placesOf path).foldr placedIn cause

namespace ContractError

/-- All members on the path are told, unless the text of a type is at fault. -/
theorem placesOf_eq_self {cause : ContractError}
    (h : ∀ text, cause ≠ .descriptor (.malformedType text)) (path : List String) :
    cause.placesOf path = path := by
  unfold placesOf
  split
  · exact absurd rfl (h _)
  · rfl

/-- An error that names no place is its own cause. -/
theorem cause_eq_self {error : ContractError} (h : error.place? = none) : error.cause = error := by
  cases error with
  | within place source => simp [place?] at h
  | _ => rfl

/-- **Of all places the innermost one stays.** -/
theorem foldr_placedIn_eq {cause : ContractError} (h : cause.place? = none) (path : List String) :
    path.foldr placedIn cause
      = match path.getLast? with
        | none => cause
        | some place => .within place cause := by
  induction path with
  | nil => rfl
  | cons place path ih =>
    rw [List.foldr_cons, ih, List.getLast?_cons]
    cases path.getLast? with
    | none => exact placedIn_of_place?_eq_none h place
    | some inner => exact placedIn_within place inner cause

end ContractError

namespace Value

/-- What fails inside a value has no place yet. -/
theorem FailsAt.place?_eq_none {type : TypeExpr} {value : Value} {path : List String}
    {cause : ContractError} (h : FailsAt schemas type value path cause) : cause.place? = none := by
  induction h with
  | item _ _ _ _ ih => exact ih
  | member _ _ _ _ ih => exact ih
  | _ => rfl

/-- A malformed type is one of a member. -/
theorem FailsAt.path_ne_nil {type : TypeExpr} {value : Value} {path : List String} {text : String}
    (h : FailsAt schemas type value path (.descriptor (.malformedType text))) : path ≠ [] := by
  generalize hcause : ContractError.descriptor (.malformedType text) = cause at h
  induction h with
  | item _ _ _ _ ih => exact ih hcause
  | malformed => simp
  | member => simp
  | _ => cases hcause

/-- A member that encloses a failure names its place. -/
theorem FailsAt.placesOf_cons {type : TypeExpr} {value : Value} {path : List String}
    {cause : ContractError} (h : FailsAt schemas type value path cause) (place : String) :
    cause.placesOf (place :: path) = place :: cause.placesOf path := by
  unfold ContractError.placesOf
  split
  · exact List.dropLast_cons_of_ne_nil h.path_ne_nil
  · rfl

/-! ### How a step of the check fails -/

/-- A value of another form, or a scalar of another kind, is not taken for one of the type. -/
theorem check_of_shape_ne {type : TypeExpr} {value : Value} (h : value.shape ≠ shapeOf type) :
    value.check schemas type = .error (.mistyped type value.typeName) := by
  cases type with
  | scalar kind =>
    have hkind : value.kind? ≠ some kind := by
      intro hkind
      have htyped : HasType schemas (.scalar kind) value := .scalar hkind
      exact h htyped.shape_eq
    -- the check of a scalar asks for its kind and for nothing else
    have hcheck : value.check schemas (.scalar kind)
        = if value.kind? = some kind then .ok value
          else .error (.mistyped (.scalar kind) value.typeName) := by
      cases value <;> rfl
    rw [hcheck, if_neg hkind]
  | array element size =>
    cases value with
    | array items => exact absurd rfl h
    | _ => rfl
  | struct name =>
    cases value with
    | struct bound fields => exact absurd rfl h
    | _ => rfl

/-- An array fails for its size, then for the shapes of its items, then for the first item that
    fails. -/
theorem check_array_eq_error_iff {items : List Value} {element : TypeExpr} {size : Nat}
    {error : ContractError} :
    (Value.array items).check schemas (.array element size) = .error error ↔
      (items.length ≠ size ∧ error = .arraySize size items.length)
        ∨ items.length = size
          ∧ ((uniform items = false ∧ error = .mixedArray)
            ∨ uniform items = true
              ∧ items.mapM (fun item => item.check schemas element) = .error error) := by
  simp only [check, checkItems_eq_mapM]
  split_ifs with hsize huniform
  · simp [hsize, @eq_comm _ error]
  · simp [not_not.1 hsize, huniform, map_eq_error_iff]
  · simp [not_not.1 hsize, huniform, @eq_comm _ error]

/-- A struct fails if there is no schema of the name, or if the schema does not arrange its
    members. -/
theorem check_struct_eq_error_iff {bound : Option String} {fields : List (String × Value)}
    {name : String} {error : ContractError} :
    (Value.struct bound fields).check schemas (.struct name) = .error error ↔
      (Schema.find? schemas name = none ∧ error = .unboundStruct name)
        ∨ ∃ schema, Schema.find? schemas name = some schema
          ∧ schema.arrange bound (checkers schemas fields) = .error error := by
  simp only [check]
  split
  · rename_i hfind
    simp [hfind, @eq_comm _ error]
  · rename_i schema hfind
    simp [hfind, map_eq_error_iff]

end Value

/-- Members are not arranged if the struct is bound elsewhere, has a member that the schema lacks,
    or a declared member fails. -/
theorem arrange_eq_error_iff {schema : Schema} {bound : Option String}
    {given : List (String × Checker)} {error : ContractError} :
    schema.arrange bound given = .error error ↔
      (∃ other, bound = some other ∧ other ≠ schema.name
          ∧ error = .schema schema.name (.boundElsewhere other))
        ∨ (∀ name ∈ bound, name = schema.name)
          ∧ ((∃ entry, given.find? (fun entry => !schema.declares entry.1) = some entry
                ∧ error = .schema schema.name (.undeclared entry.1))
            ∨ (∀ entry ∈ given, schema.declares entry.1 = true)
              ∧ schema.members.mapM (Param.checkMember schema.name given) = .error error) := by
  unfold Schema.arrange
  split
  · -- the struct is bound to another schema
    rename_i other hother
    obtain ⟨rfl, hne⟩ := Option.filter_eq_some_iff.1 hother
    simp_all [@eq_comm _ error]
  · rename_i hbound
    have hfree : ∀ name ∈ bound, name = schema.name := by
      simpa using Option.filter_eq_none_iff.1 hbound
    have hnot : ¬ ∃ other, bound = some other ∧ other ≠ schema.name
        ∧ error = .schema schema.name (.boundElsewhere other) := by
      rintro ⟨other, rfl, hne, -⟩
      exact hne (hfree other rfl)
    -- it is not, so that only the other two failures are left
    rw [or_iff_right hnot, and_iff_right hfree]
    split
    · -- a member is given that the schema lacks
      rename_i name check hfind
      have hmem := List.mem_of_find?_eq_some hfind
      have hextra : ¬ ∀ entry ∈ given, schema.declares entry.1 = true := by
        intro hall
        simpa [hall _ hmem] using List.find?_some hfind
      rw [or_iff_left fun h => hextra h.1, hfind]
      simp [@eq_comm _ error]
    · -- all members given are declared
      rename_i hfind
      have hall : ∀ entry ∈ given, schema.declares entry.1 = true := by
        simpa using hfind
      rw [and_iff_right hall, hfind]
      simp

/-- A declared member fails if nothing is given under its name, its type's text is malformed, or
    what is given first fails the check. -/
theorem checkMember_eq_error_iff {struct : String} {fields : List (String × Value)} {member : Param}
    {error : ContractError} :
    member.checkMember struct (Value.checkers schemas fields) = .error error ↔
      (fields.lookup member.name = none ∧ error = .schema struct (.missing member.name))
        ∨ ∃ value, fields.lookup member.name = some value
          ∧ ((TypeExpr.ofText? member.type = none
              ∧ error = .descriptor (.malformedType member.type))
            ∨ ∃ type cause, TypeExpr.ofText? member.type = some type
              ∧ value.check schemas type = .error cause ∧ error = cause.placedIn member.name) := by
  unfold Param.checkMember
  rw [lookup_checkers]
  cases hgiven : fields.lookup member.name with
  | none => simp [@eq_comm _ error]
  | some value =>
    simp only [Option.map_some, bind_eq_error_iff, mapError_eq_error_iff, mapError_eq_ok_iff,
      ofText_eq_ok_iff, ofText_eq_error_iff, Option.some.injEq, exists_eq_left', reduceCtorEq,
      false_and, false_or]
    constructor
    · -- the text of the type is read first, and then the value is checked
      rintro (hmalformed | ⟨type, htype, ⟨cause, hcause, rfl⟩ | ⟨_, -, hpure⟩⟩)
      · exact .inl hmalformed
      · exact .inr ⟨type, cause, htype, hcause, rfl⟩
      · cases hpure
    · rintro (hmalformed | ⟨type, cause, htype, hcause, rfl⟩)
      · exact .inl hmalformed
      · exact .inr ⟨type, htype, .inl ⟨cause, hcause, rfl⟩⟩

/-- A member goes through iff a value of its type is given under its name. -/
theorem exists_checkMember_iff {struct : String} {fields : List (String × Value)} {member : Param} :
    (∃ field, member.checkMember struct (Value.checkers schemas fields) = .ok field) ↔
      ∃ value, fields.lookup member.name = some value ∧ member.Holds schemas value := by
  simp only [checkMember_eq_ok_iff, lookup_checkers, Option.map_eq_some_iff]
  constructor
  · rintro ⟨_, _, type, result, ⟨value, hgiven, rfl⟩, htype, hresult, -⟩
    exact ⟨value, hgiven, type, htype, Value.hasType_of_check hresult⟩
  · rintro ⟨value, hgiven, type, htype, hvalue⟩
    obtain ⟨result, hresult, -⟩ := Value.exists_check_of_hasType hvalue
    exact ⟨_, _, type, result, ⟨value, hgiven, rfl⟩, htype, hresult, rfl⟩

namespace Value

/-! ### How the check of a struct fails -/

/-- The first member given that the schema lacks. -/
theorem find?_checkers_eq_some_iff {schema : Schema} {fields : List (String × Value)}
    {entry : String × Checker} :
    (checkers schemas fields).find? (fun entry => !schema.declares entry.1) = some entry ↔
      ∃ front extra value back, fields = front ++ (extra, value) :: back
        ∧ (∀ field ∈ front, ∃ member ∈ schema.members, member.name = field.1)
        ∧ (∀ member ∈ schema.members, member.name ≠ extra)
        ∧ entry = (extra, value.check schemas) := by
  -- checks carry the names of the members, so that the search is one among these
  rw [checkers_eq_map, List.find?_map, Option.map_eq_some_iff]
  constructor
  · rintro ⟨⟨extra, value⟩, hfield, rfl⟩
    obtain ⟨hextra, front, back, rfl, hfront⟩ := List.find?_eq_some_iff_append.1 hfield
    refine ⟨front, extra, value, back, rfl, fun field hfield => ?_,
      fun member hmember hname => ?_, rfl⟩
    · exact declares_iff.1 (by simpa using hfront field hfield)
    · have := declares_iff.2 ⟨member, hmember, hname⟩
      simp [this] at hextra
  · rintro ⟨front, extra, value, back, rfl, hfront, hextra, rfl⟩
    refine ⟨(extra, value), List.find?_eq_some_iff_append.2 ⟨?_, front, back, rfl, ?_⟩, rfl⟩
    · have hnot : schema.declares extra ≠ true := fun hdeclared => by
        obtain ⟨member, hmember, hname⟩ := declares_iff.1 hdeclared
        exact hextra member hmember hname
      simp [hnot]
    · intro field hfield
      simp [declares_iff.2 (hfront field hfield)]

/-- **The check of a struct fails** if there is no schema of the name, then if the struct is bound
    elsewhere, then at the first member given that the schema lacks, and then at the first member
    that the check comes to and that fails. -/
theorem check_struct_eq_error_iff_comesTo {bound : Option String} {fields : List (String × Value)}
    {name : String} {error : ContractError} :
    (Value.struct bound fields).check schemas (.struct name) = .error error ↔
      (Schema.find? schemas name = none ∧ error = .unboundStruct name)
        ∨ ∃ schema, Schema.find? schemas name = some schema
          ∧ ((∃ other, bound = some other ∧ other ≠ name
                ∧ error = .schema name (.boundElsewhere other))
            ∨ ((bound = none ∨ bound = some name)
              ∧ ∃ front extra value back, fields = front ++ (extra, value) :: back
                ∧ (∀ field ∈ front, ∃ member ∈ schema.members, member.name = field.1)
                ∧ (∀ member ∈ schema.members, member.name ≠ extra)
                ∧ error = .schema name (.undeclared extra))
            ∨ ∃ member, schema.ComesTo schemas name bound fields member
              ∧ member.checkMember name (checkers schemas fields) = .error error) := by
  rw [check_struct_eq_error_iff]
  -- below, the schema is the one that is found, and it has the name of the type
  refine or_congr_right (exists_congr fun schema => and_congr_right fun hfind => ?_)
  obtain rfl := name_of_find? hfind
  rw [arrange_eq_error_iff, forall_mem_bound_iff, forall_declares_checkers_iff]
  -- and the struct is not bound elsewhere
  refine or_congr_right ⟨?_, ?_⟩
  · rintro ⟨hfree, ⟨entry, hentry, rfl⟩ | ⟨hdeclared, hmembers⟩⟩
    · obtain ⟨front, extra, value, back, hfields, hfront, hextra, rfl⟩ :=
        find?_checkers_eq_some_iff.1 hentry
      exact .inl ⟨hfree, front, extra, value, back, hfields, hfront, hextra, rfl⟩
    · obtain ⟨front, member, back, hsplit, hfront, hmember⟩ := mapM_eq_error_iff.1 hmembers
      have hcomes : schema.ComesTo schemas schema.name bound fields member :=
        ⟨hfind, hfree, fun field hfield => declares_iff.1 (hdeclared field hfield), front, back,
          hsplit, fun earlier h => exists_checkMember_iff.1 (hfront earlier h)⟩
      exact .inr ⟨member, hcomes, hmember⟩
  · rintro (⟨hfree, front, extra, value, back, hfields, hfront, hextra, rfl⟩
      | ⟨member, hcomes, hmember⟩)
    · exact ⟨hfree, .inl ⟨_, find?_checkers_eq_some_iff.2
        ⟨front, extra, value, back, hfields, hfront, hextra, rfl⟩, rfl⟩⟩
    · obtain ⟨-, hfree, hdeclared, front, back, hsplit, hfront⟩ := hcomes
      exact ⟨hfree, .inr ⟨fun field hfield => declares_iff.2 (hdeclared field hfield),
        mapM_eq_error_iff.2 ⟨front, member, back, hsplit,
          fun earlier h => exists_checkMember_iff.2 (hfront earlier h), hmember⟩⟩⟩

/-! ### The check fails where the value does -/

/-- The check of a struct fails at a member that it comes to, if this member fails. -/
theorem check_of_comesTo {schema : Schema} {name : String} {bound : Option String}
    {fields : List (String × Value)} {member : Param} {error : ContractError}
    (hmember : schema.ComesTo schemas name bound fields member)
    (herror : member.checkMember name (checkers schemas fields) = .error error) :
    (Value.struct bound fields).check schemas (.struct name) = .error error :=
  check_struct_eq_error_iff_comesTo.2
    (.inr ⟨schema, hmember.find, .inr (.inr ⟨member, hmember, herror⟩)⟩)

/-- **Where a value fails, the check fails**, and reports it. -/
theorem check_of_failsAt {type : TypeExpr} {value : Value} {path : List String}
    {cause : ContractError} (h : FailsAt schemas type value path cause) :
    value.check schemas type = .error (cause.reportedAt path) := by
  induction h with
  | mistyped hshape => exact check_of_shape_ne hshape
  | arraySize hsize => exact check_array_eq_error_iff.2 (.inl ⟨hsize, rfl⟩)
  | mixedArray hsize hmixed => exact check_array_eq_error_iff.2 (.inr ⟨hsize, .inl ⟨hmixed, rfl⟩⟩)
  | @item element size front back item path cause hsize huniform hfront _ ih =>
    refine check_array_eq_error_iff.2 (.inr ⟨hsize, .inr ⟨huniform, ?_⟩⟩)
    -- the items before this one have the type, and stand the check
    refine mapM_eq_error_iff.2 ⟨front, item, back, rfl, fun earlier hearlier => ?_, ih⟩
    obtain ⟨result, hresult, -⟩ := exists_check_of_hasType (hfront earlier hearlier)
    exact ⟨result, hresult⟩
  | unknownStruct hfind => exact check_struct_eq_error_iff.2 (.inl ⟨hfind, rfl⟩)
  | boundElsewhere hfind hother =>
    exact check_struct_eq_error_iff_comesTo.2 (.inr ⟨_, hfind, .inl ⟨_, rfl, hother, rfl⟩⟩)
  | undeclared hfind hbound hfront hextra =>
    exact check_struct_eq_error_iff_comesTo.2
      (.inr ⟨_, hfind, .inr (.inl ⟨hbound, _, _, _, _, rfl, hfront, hextra, rfl⟩)⟩)
  | missing hmember hgiven =>
    exact check_of_comesTo hmember (checkMember_eq_error_iff.2 (.inl ⟨hgiven, rfl⟩))
  | malformed hmember hgiven htype =>
    exact check_of_comesTo hmember
      (checkMember_eq_error_iff.2 (.inr ⟨_, hgiven, .inl ⟨htype, rfl⟩⟩))
  | @member schema name bound fields member value type path cause hmember hgiven htype hvalue ih =>
    -- the member names its place once the value in it has failed
    refine check_of_comesTo hmember ?_
    refine checkMember_eq_error_iff.2 (.inr ⟨_, hgiven, .inr ⟨type, _, htype, ih, ?_⟩⟩)
    rw [ContractError.reportedAt, hvalue.placesOf_cons, List.foldr_cons]
    rfl

/-- A struct fails where its check does, if its members fail where their checks do. -/
theorem exists_failsAt_of_check_struct {name : String} {bound : Option String}
    {fields : List (String × Value)} {error : ContractError}
    (h : (Value.struct bound fields).check schemas (.struct name) = .error error)
    (hfields : ∀ field ∈ fields, ∀ {type error}, field.2.check schemas type = .error error →
      ∃ path cause, FailsAt schemas type field.2 path cause ∧ error = cause.reportedAt path) :
    ∃ path cause, FailsAt schemas (.struct name) (.struct bound fields) path cause
      ∧ error = cause.reportedAt path := by
  rcases check_struct_eq_error_iff_comesTo.1 h with ⟨hfind, rfl⟩ | ⟨schema, hfind, hschema⟩
  · exact ⟨[], _, .unknownStruct hfind, rfl⟩
  rcases hschema with ⟨other, rfl, hother, rfl⟩
    | ⟨hfree, front, extra, value, back, rfl, hfront, hextra, rfl⟩ | ⟨member, hcomes, hmember⟩
  · exact ⟨[], _, .boundElsewhere hfind hother, rfl⟩
  · exact ⟨[], _, .undeclared hfind hfree hfront hextra, rfl⟩
  rcases checkMember_eq_error_iff.1 hmember with ⟨hgiven, rfl⟩ | ⟨value, hgiven, hvalue⟩
  · exact ⟨[], _, .missing hcomes hgiven, rfl⟩
  rcases hvalue with ⟨htype, rfl⟩ | ⟨type, error, htype, herror, rfl⟩
  · exact ⟨[member.name], _, .malformed hcomes hgiven htype, rfl⟩
  · -- the failure of the member's value, told under the member
    obtain ⟨path, cause, hfails, rfl⟩ := hfields _ (mem_of_lookup hgiven) herror
    refine ⟨member.name :: path, cause, .member hcomes hgiven htype hfails, ?_⟩
    rw [ContractError.reportedAt, ContractError.reportedAt, hfails.placesOf_cons, List.foldr_cons]

/-- A value of another shape than the type fails, and the error says where. -/
theorem exists_failsAt_of_shape_ne {type : TypeExpr} {value : Value} {error : ContractError}
    (hshape : value.shape ≠ shapeOf type) (h : value.check schemas type = .error error) :
    ∃ path cause, FailsAt schemas type value path cause ∧ error = cause.reportedAt path := by
  rw [check_of_shape_ne hshape, Except.error.injEq] at h
  exact ⟨[], _, .mistyped hshape, h.symm⟩

/-- **Where the check fails, the value does.** -/
theorem exists_failsAt_of_check {type : TypeExpr} {value : Value} {error : ContractError}
    (h : value.check schemas type = .error error) :
    ∃ path cause, FailsAt schemas type value path cause ∧ error = cause.reportedAt path := by
  induction value using Value.induct generalizing type error with
  | scalar value kind hkind =>
    refine exists_failsAt_of_shape_ne (fun hshape => ?_) h
    have htyped : HasType schemas (.scalar kind) value := .scalar hkind
    have hkind' : shapeOf type = .scalar kind := hshape.symm.trans htyped.shape_eq
    cases type with
    | scalar other =>
      cases hkind'
      rw [check_scalar_eq_ok_iff.2 ⟨hkind, rfl⟩] at h
      cases h
    | _ => cases hkind'
  | array items ih =>
    cases type with
    | array element size =>
      rcases check_array_eq_error_iff.1 h with ⟨hsize, rfl⟩ | ⟨hsize, hitems⟩
      · exact ⟨[], _, .arraySize hsize, rfl⟩
      rcases hitems with ⟨hmixed, rfl⟩ | ⟨huniform, hitems⟩
      · exact ⟨[], _, .mixedArray hsize hmixed, rfl⟩
      -- the first item that fails
      obtain ⟨front, item, back, rfl, hfront, hitem⟩ := mapM_eq_error_iff.1 hitems
      obtain ⟨path, cause, hfails, herror⟩ := ih item (by simp) hitem
      refine ⟨path, cause, .item hsize huniform (fun earlier hearlier => ?_) hfails, herror⟩
      obtain ⟨result, hresult⟩ := hfront earlier hearlier
      exact hasType_of_check hresult
    | _ => exact exists_failsAt_of_shape_ne (by simp [shape, shapeOf]) h
  | struct bound fields ih =>
    cases type with
    | struct name => exact exists_failsAt_of_check_struct h fun field hfield => ih field hfield
    | _ => exact exists_failsAt_of_shape_ne (by simp [shape, shapeOf]) h

end Value

end ScriptAbi
