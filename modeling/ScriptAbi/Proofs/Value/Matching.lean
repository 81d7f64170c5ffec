import ScriptAbi.Proofs.Named
import ScriptAbi.Proofs.Value.Typing

namespace ScriptAbi

/-!
# Structs that match a schema

* `Struct.Matches`: a struct has exactly the members of a schema, in the schema's order and each of
  its type.
* `forall₂_members_iff`: where the names of the members are all different, this is one condition on
  the names of the fields and one on the value of each member.
* `hasType_of_canonical`: with such schemas, canonical values are of their type.
* `matches_of_bind`: a struct that was bound matches the schema that it was bound to.
* `matches_setAll_iff`: edited after that, it goes on to match iff each edit leaves a declared member
  with a value of its type.
-/

/-- Schemas of different names, each with members of different names. -/
structure Schema.Distinct (schemas : List Schema) : Prop where
  names : (schemas.map Schema.name).Nodup
  members : ∀ schema ∈ schemas, (schema.members.map Param.name).Nodup

/-- The value is one of the type that the member declares. -/
def Param.Holds (schemas : List Schema) (member : Param) (value : Value) : Prop :=
  ∃ type, TypeExpr.ofText? member.type = some type ∧ Value.HasType schemas type value

/-- The field is the declared member: it has its name and a value of its type. -/
def Param.Admits (schemas : List Schema) (member : Param) (field : String × Value) : Prop :=
  field.1 = member.name ∧ member.Holds schemas field.2

namespace Struct

/-- The fields are the members of the schema, in order and each of its type. -/
def Matches (schemas : List Schema) (schema : Schema) (s : Struct) : Prop :=
  List.Forall₂ (Param.Admits schemas) schema.members s.fields

/-- The struct with the members set one after the other. -/
def setAll (s : Struct) (edits : List (String × Value)) : Struct :=
  { s with fields := Named.insertAll edits s.fields }

@[simp] theorem fields_setAll (s : Struct) (edits : List (String × Value)) :
    (s.setAll edits).fields = Named.insertAll edits s.fields := rfl

/-- The last edit is made after the others. -/
theorem setAll_append_singleton (s : Struct) (edits : List (String × Value)) (name : String)
    (value : Value) : s.setAll (edits ++ [(name, value)]) = (s.setAll edits).set name value := by
  rw [setAll, Named.insertAll_append_singleton]
  rfl

end Struct

variable {schemas : List Schema} {schema : Schema}

/-! ### Members by their names -/

/-- The schema of a name is the one with that name. -/
theorem find?_name_eq_some (hdistinct : Schema.Distinct schemas) (hschema : schema ∈ schemas) :
    Schema.find? schemas schema.name = some schema := by
  obtain ⟨found, hfound⟩ : ∃ found, Schema.find? schemas schema.name = some found := by
    rw [← Option.isSome_iff_exists, Schema.find?, List.find?_isSome]
    exact ⟨schema, hschema, by simp⟩
  rw [hfound, List.inj_on_of_nodup_map hdistinct.names (mem_of_find? hfound) hschema
    (Value.name_of_find? hfound)]

/-- **Fields stand beside their members** iff they have the same names in order, and the value under
    each member's name is as it should be. -/
theorem forall₂_members_iff {R : Param → Value → Prop} {members : List Param}
    (hdistinct : (members.map Param.name).Nodup) {fields : List (String × Value)} :
    List.Forall₂ (fun member field => field.1 = member.name ∧ R member field.2) members fields ↔
      fields.map Prod.fst = members.map Param.name
        ∧ ∀ member ∈ members, ∃ value, fields.lookup member.name = some value ∧ R member value := by
  induction members generalizing fields with
  | nil => cases fields <;> simp
  | cons member members ih =>
    cases fields with
    | nil => simp
    | cons field fields =>
      obtain ⟨name, value⟩ := field
      rw [List.map_cons, List.nodup_cons] at hdistinct
      rw [List.forall₂_cons, ih hdistinct.2, List.map_cons, List.map_cons, List.cons.injEq,
        List.forall_mem_cons, and_assoc, and_assoc]
      refine and_congr_right fun hname => ?_
      have hname : name = member.name := hname
      -- the first field is the one of the first member, and of no other
      have hfirst : List.lookup member.name ((name, value) :: fields) = some value := by
        simp [hname]
      have hrest : ∀ other ∈ members,
          List.lookup other.name ((name, value) :: fields) = fields.lookup other.name := by
        intro other hother
        have hne : other.name ≠ name := by
          rintro rfl
          exact hdistinct.1 (hname ▸ List.mem_map_of_mem hother)
        rw [List.lookup_cons, beq_eq_false_iff_ne.2 hne]
      have hvalues : (∀ other ∈ members, ∃ value',
            List.lookup other.name ((name, value) :: fields) = some value' ∧ R other value') ↔
          ∀ other ∈ members, ∃ value', fields.lookup other.name = some value' ∧ R other value' :=
        forall₂_congr fun other hother => by rw [hrest other hother]
      rw [hfirst, hvalues]
      simp only [Option.some.injEq, exists_eq_left']
      exact and_left_comm

/-- A struct matches a schema iff its fields have the names of the members in order, and the value
    under each is of the member's type. -/
theorem matches_iff (hdistinct : (schema.members.map Param.name).Nodup) {s : Struct} :
    s.Matches schemas schema ↔
      s.fields.map Prod.fst = schema.members.map Param.name
        ∧ ∀ member ∈ schema.members,
          ∃ value, s.fields.lookup member.name = some value ∧ member.Holds schemas value :=
  forall₂_members_iff hdistinct

/-! ### What binding makes -/

/-- Fields with the names of the members stand beside them if the values do. -/
theorem forall₂_of_names_eq {R : Param → Value → Prop} {members : List Param}
    {fields : List (String × Value)} (hnames : fields.map Prod.fst = members.map Param.name)
    (h : ∀ member field, (member, field) ∈ members.zip fields → R member field.2) :
    List.Forall₂ (fun member field => field.1 = member.name ∧ R member field.2) members fields := by
  have hpairs : List.Forall₂ (· = ·) (members.map Param.name) (fields.map Prod.fst) := by
    rw [List.forall₂_eq_eq_eq, hnames]
  rw [List.forall₂_map_left_iff, List.forall₂_map_right_iff] at hpairs
  exact List.forall₂_iff_zip.2
    ⟨hpairs.length_eq, fun hmem => ⟨(List.forall₂_zip hpairs hmem).symm, h _ _ hmem⟩⟩

/-- **Canonical values are of their type**, where the members of each schema have different
    names. -/
theorem hasType_of_canonical (hdistinct : Schema.Distinct schemas) {type : TypeExpr} {value : Value}
    (h : Value.Canonical schemas type value) : Value.HasType schemas type value := by
  induction h with
  | scalar hkind => exact .scalar hkind
  | array hsize _ ih => exact .array hsize ih
  | @struct name schema fields typeOf hfind hnames htypes _ ih =>
    -- what stands beside a member is what is found under its name
    have hbeside := (forall₂_members_iff (hdistinct.members schema (mem_of_find? hfind))).1
      (forall₂_of_names_eq (R := fun member => Value.HasType schemas (typeOf member)) hnames ih)
    choose! given hgiven hmembers using hbeside.2
    refine .struct hfind (.inr ?_) (fun field hfield => ?_) htypes hgiven hmembers
    · rw [Value.name_of_find? hfind]
    · obtain ⟨member, hmember, hname, -⟩ := exists_mem_zip hnames hfield
      exact ⟨member, hmember, hname.symm⟩

/-- **A struct that was bound matches its schema.** -/
theorem matches_of_bind (hdistinct : Schema.Distinct schemas) {s bound : Struct}
    (h : Struct.bind schemas schema s = .ok bound) :
    bound.schema = some schema.name ∧ bound.Matches schemas schema := by
  obtain ⟨fields, harrange, heq⟩ := bind_eq_ok_iff.1 h
  cases heq
  obtain ⟨-, -, hmade⟩ := Value.arrange_eq_ok_iff_madeFor.1 harrange
  refine ⟨rfl, hmade.imp fun member field hfield => ?_⟩
  -- the field is what the check made of the value that was given for the member
  obtain ⟨hname, type, value, htype, -, hcheck⟩ := hfield
  exact ⟨hname, type, htype, hasType_of_canonical hdistinct (canonical_of_check hcheck)⟩

/-! ### What editing makes of it -/

/-- **A struct that matched goes on to match** iff the last value set for each name is one of a
    member's type, under the name of this member. -/
theorem matches_setAll_iff (hdistinct : (schema.members.map Param.name).Nodup) {bound : Struct}
    (hbound : bound.Matches schemas schema) (edits : List (String × Value)) :
    (bound.setAll edits).Matches schemas schema ↔
      ∀ edit ∈ Named.ofList edits, ∃ member ∈ schema.members, member.Admits schemas edit := by
  obtain ⟨hnames, hvalues⟩ := (matches_iff hdistinct).1 hbound
  have hlast : ∀ name value, (Named.ofList edits).lookup name = some value ↔
      (name, value) ∈ Named.ofList edits := fun _ _ =>
    Named.lookup_eq_some_iff_mem (Named.nodup_ofList edits)
  rw [matches_iff hdistinct, Struct.fields_setAll, Named.map_fst_insertAll, hnames,
    List.append_right_eq_self, List.filter_eq_nil_iff]
  simp only [Named.lookup_insertAll]
  constructor
  · rintro ⟨hdeclared, hafter⟩ ⟨name, value⟩ hedit
    obtain ⟨member, hmember, hname⟩ : ∃ member ∈ schema.members, member.name = name := by
      simpa using hdeclared name (List.mem_map_of_mem hedit)
    obtain ⟨found, hfound, hholds⟩ := hafter member hmember
    rw [hname, (hlast name value).2 hedit, Option.some_or, Option.some.injEq] at hfound
    exact ⟨member, hmember, hname.symm, hfound ▸ hholds⟩
  · intro hadmits
    constructor
    · intro name hname
      obtain ⟨edit, hedit, rfl⟩ := List.mem_map.1 hname
      obtain ⟨member, hmember, hsame, -⟩ := hadmits edit hedit
      simpa [hsame] using ⟨member, hmember, rfl⟩
    · intro member hmember
      cases hset : (Named.ofList edits).lookup member.name with
      | none => simpa using hvalues member hmember
      | some value =>
        -- the member that admits the edit is this one, as it has its name
        obtain ⟨other, hother, hsame, hholds⟩ := hadmits _ ((hlast _ _).1 hset)
        have hmembers : other = member :=
          List.inj_on_of_nodup_map hdistinct hother hmember hsame.symm
        exact ⟨value, rfl, hmembers ▸ hholds⟩

end ScriptAbi
