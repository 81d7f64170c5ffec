import ScriptAbi.Proofs.Value.Checked

namespace ScriptAbi

/-!
# Canonical values

* `Value.Canonical`: a value of a type in which all structs are bound and have the members of their
  schema in the schema's order.
* `canonical_of_check`: the check makes canonical values.
-/

instance : Nonempty TypeExpr := ⟨.scalar .bool⟩

variable {schemas : List Schema}

/-- A value of a type, in which each struct is bound to the first schema of its type's name and has
    this schema's members, in order and each of its type. -/
inductive Value.Canonical (schemas : List Schema) : TypeExpr → Value → Prop
  | scalar {kind : Kind} {value : Value} (hkind : value.kind? = some kind) :
      Canonical schemas (.scalar kind) value
  | array {element : TypeExpr} {size : Nat} {items : List Value} (hsize : items.length = size)
      (hitems : ∀ item ∈ items, Canonical schemas element item) :
      Canonical schemas (.array element size) (.array items)
  | struct {name : String} {schema : Schema} {fields : List (String × Value)}
      {typeOf : Param → TypeExpr} (hfind : Schema.find? schemas name = some schema)
      (hnames : fields.map Prod.fst = schema.members.map Param.name)
      (htypes : ∀ member ∈ schema.members, TypeExpr.ofText? member.type = some (typeOf member))
      (hfields : ∀ member field, (member, field) ∈ schema.members.zip fields →
        Canonical schemas (typeOf member) field.2) :
      Canonical schemas (.struct name) (.struct (some schema.name) fields)

/-- Each member of a canonical struct was declared. -/
theorem exists_mem_zip {members : List Param} {fields : List (String × Value)}
    (hnames : fields.map Prod.fst = members.map Param.name) {field : String × Value}
    (h : field ∈ fields) :
    ∃ member ∈ members, field.1 = member.name ∧ (member, field) ∈ members.zip fields := by
  obtain ⟨i, hi, rfl⟩ := List.getElem_of_mem h
  have hlength := congrArg List.length hnames
  simp only [List.length_map] at hlength
  have hi' : i < members.length := by omega
  have hname : (fields.map Prod.fst)[i]? = (members.map Param.name)[i]? := by rw [hnames]
  refine ⟨members[i], List.getElem_mem hi', ?_, ?_⟩
  · simpa [hi, hi'] using hname
  · exact List.mem_iff_getElem.2 ⟨i, by simp; omega, List.getElem_zip⟩

/-- **The check makes canonical values.** -/
theorem canonical_of_check {value result : Value} {type : TypeExpr}
    (h : value.check schemas type = .ok result) : Value.Canonical schemas type result := by
  induction h using Value.check_induct with
  | scalar value kind hkind => exact .scalar hkind
  | array element items checked hchecked _ ih =>
    refine .array hchecked.length_eq.symm fun item hitem => ?_
    obtain ⟨given, hgiven, hcheck⟩ := exists_of_mem_right hchecked hitem
    exact ih given hgiven hcheck
  | struct schema bound fields made hfind _ _ hmade _ ih =>
    have htypes : ∀ member ∈ schema.members, ∃ type, TypeExpr.ofText? member.type = some type := by
      intro member hmember
      obtain ⟨_, -, -, type, _, htype, -⟩ := exists_of_mem_left hmade hmember
      exact ⟨type, htype⟩
    choose! typeOf htypes using htypes
    refine .struct hfind (Value.names_of_madeFor hmade) htypes fun member field hmem => ?_
    -- what was made for a member was made of a given value, so that the assumption is about it
    obtain ⟨-, type, value, htype, hvalue, hcheck⟩ := List.forall₂_zip hmade hmem
    rw [htypes member (List.of_mem_zip hmem).1] at htype
    cases htype
    exact ih (member.name, value) (Value.mem_of_lookup hvalue) hcheck

end ScriptAbi
