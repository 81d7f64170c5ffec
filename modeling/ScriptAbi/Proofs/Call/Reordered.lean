import ScriptAbi.Proofs.Call.Constructor
import ScriptAbi.Proofs.Call.Function
import ScriptAbi.Proofs.Value.History
import ScriptAbi.Proofs.Value.Reordered

namespace ScriptAbi

/-!
# Calls with members in another order

The order in which the members of structs are given does not matter to a call: what the check makes
of the arguments is the same, and only this is rendered.

* `checkArguments_reordered`: arguments in one order and in another stand the check alike.
* `asm_ofConstructor_reordered`, `asm_ofFunction_reordered`: so they have calls of the same text.
* `Struct.run_map_ofEdit`: members that are set one after the other have different names, each with
  the last value set under it.
* `check_iff_of_reordered`: the order of members does not matter, and none is lost.
-/

variable {schemas : List Schema} {params : List Param} {args args' : List Value}

/-! ### Calls -/

/-- **Arguments in one order** have the values that they have in the other. -/
theorem checkArguments_reordered (h : List.Forall₂ Value.Reordered args args')
    {values : List (String × Value)} :
    checkArguments schemas params args = .ok values ↔
      checkArguments schemas params args' = .ok values := by
  simp only [checkArguments_eq_ok_iff, checkArgument_eq_ok_iff]
  induction h generalizing params values with
  | nil => rfl
  | cons harg _ ih =>
    cases params with
    | nil => rfl
    | cons param params =>
      simp only [List.zip_cons_cons, List.forall₂_cons_left_iff, ih, harg.check_eq_ok_iff]

/-- **The text of a constructor's call** is the same in either order. -/
theorem asm_ofConstructor_reordered (h : List.Forall₂ Value.Reordered args args')
    {template : Template} {style : SlotStyle} {asm : String} :
    (Call.ofConstructor template params schemas style args).map Call.asm = .ok asm ↔
      (Call.ofConstructor template params schemas style args').map Call.asm = .ok asm := by
  simp only [map_eq_ok_iff, ofConstructor_eq_ok_iff, checkArguments_reordered h, h.length_eq]
  -- only the arguments themselves differ, which the call keeps
  constructor
  · rintro ⟨_, ⟨harity, values, hvalues, hslots, rfl⟩, hasm⟩
    exact ⟨_, ⟨harity, values, hvalues, hslots, rfl⟩, hasm⟩
  · rintro ⟨_, ⟨harity, values, hvalues, hslots, rfl⟩, hasm⟩
    exact ⟨_, ⟨harity, values, hvalues, hslots, rfl⟩, hasm⟩

/-- **The text of a function's call** is the same in either order. -/
theorem asm_ofFunction_reordered (h : List.Forall₂ Value.Reordered args args')
    {abi : Abi} {name : String} {asm : String} :
    (Call.ofFunction abi schemas name args).map Call.asm = .ok asm ↔
      (Call.ofFunction abi schemas name args').map Call.asm = .ok asm := by
  simp only [map_eq_ok_iff, ofFunction_eq_ok_iff, checkArguments_reordered h, h.length_eq]
  constructor
  · rintro ⟨_, ⟨position, entry, values, hfound, harity, hvalues, rfl⟩, hasm⟩
    exact ⟨_, ⟨position, entry, values, hfound, harity, hvalues, rfl⟩, hasm⟩
  · rintro ⟨_, ⟨position, entry, values, hfound, harity, hvalues, rfl⟩, hasm⟩
    exact ⟨_, ⟨position, entry, values, hfound, harity, hvalues, rfl⟩, hasm⟩

/-! ### Members set one after the other -/

/-- **Setting members** never fails, and gives an unbound struct with the last value of each name. -/
theorem Struct.run_map_ofEdit (edits : List (String × Value)) :
    Struct.run schemas (edits.map Struct.Step.ofEdit) = .ok ⟨none, Named.ofList edits⟩ := by
  induction edits using List.reverseRecOn with
  | nil => rfl
  | append_singleton edits edit ih =>
    rw [List.map_append, List.map_singleton, Struct.run_append_singleton, ih,
      Named.ofList_append_singleton]
    rfl

/-- Members that are set have different names, and each has the last value set under its name. -/
theorem Struct.mem_fields_of_run {edits : List (String × Value)} {s : Struct}
    (h : Struct.run schemas (edits.map Struct.Step.ofEdit) = .ok s) :
    (s.fields.map Prod.fst).Nodup
      ∧ ∀ name value, (name, value) ∈ s.fields ↔
        ∃ front back, edits = front ++ (name, value) :: back ∧ name ∉ back.map Prod.fst := by
  rw [Struct.run_map_ofEdit] at h
  cases h
  refine ⟨Named.nodup_ofList edits, fun name value => ?_⟩
  rw [← Named.lookup_eq_some_iff_mem (Named.nodup_ofList edits), Named.lookup_ofList_eq_some_iff]

/-- **The order of members does not matter, and no member is lost.** Values that differ only in the
    order of members, with different names in each struct, stand the same checks with the same
    results, if no schema has two members of one name. In what comes out, the members of each struct
    are those that were given, each as the check made it, in some order. So calls with such arguments
    have the same text. A struct whose members are set one after the other has members of different
    names, each with the last value set under it. -/
theorem check_iff_of_reordered
    (hschemas : ∀ schema ∈ schemas, (schema.members.map Param.name).Nodup) :
    (∀ value value', Value.Reordered value value' → ∀ type result,
        (value.check schemas type = .ok result ↔ value'.check schemas type = .ok result)
          ∧ (value.check schemas type = .ok result →
            Value.Kept schemas value result ∧ Value.Kept schemas value' result))
      ∧ (∀ args args', List.Forall₂ Value.Reordered args args' →
        (∀ template params style asm,
          (Call.ofConstructor template params schemas style args).map Call.asm = .ok asm ↔
            (Call.ofConstructor template params schemas style args').map Call.asm = .ok asm)
          ∧ ∀ abi name asm,
            (Call.ofFunction abi schemas name args).map Call.asm = .ok asm ↔
              (Call.ofFunction abi schemas name args').map Call.asm = .ok asm)
      ∧ ∀ edits, ∃ s, Struct.run schemas (edits.map Struct.Step.ofEdit) = .ok s
        ∧ (s.fields.map Prod.fst).Nodup
        ∧ ∀ name value, (name, value) ∈ s.fields ↔
          ∃ front back, edits = front ++ (name, value) :: back ∧ name ∉ back.map Prod.fst := by
  refine ⟨fun value value' h type result => ?_, fun args args' h => ?_, fun edits => ?_⟩
  · -- the members are kept from either value, as reordering is symmetric
    refine ⟨h.check_eq_ok_iff, fun hcheck => ?_⟩
    exact ⟨h.kept_of_check hschemas hcheck, h.symm.kept_of_check hschemas (h.check_eq_ok hcheck)⟩
  · exact ⟨fun _ _ _ _ => asm_ofConstructor_reordered h, fun _ _ _ => asm_ofFunction_reordered h⟩
  · have hrun : Struct.run schemas (edits.map Struct.Step.ofEdit) = .ok ⟨none, Named.ofList edits⟩ :=
      Struct.run_map_ofEdit edits
    exact ⟨_, hrun, Struct.mem_fields_of_run hrun⟩

/-! A family with its members in another order, inside and outside. -/

/-- The family that is bound in part, with the members of all structs turned round. -/
def turnedFamily : Value :=
  .struct none
    [("name", .bytes .plain [0xab]),
      ("members", .array
        [.struct none [("age", .int 40), ("adult", .bool true)],
          .struct (some "Member") [("adult", .bool false), ("age", .int 12)]])]

/-- One member of the family with its two members in either order. -/
theorem reordered_member (bound : Option String) (age : Int) (adult : Bool) :
    Value.Reordered (.struct bound [("adult", .bool adult), ("age", .int age)])
      (.struct bound [("age", .int age), ("adult", .bool adult)]) := by
  refine .struct (by simp) (List.Perm.swap _ _ _) fun name value value' h h' => ?_
  simp only [List.mem_cons, Prod.mk.injEq, List.not_mem_nil, or_false] at h h'
  rcases h with ⟨rfl, rfl⟩ | ⟨rfl, rfl⟩
  · obtain rfl : value' = .bool adult := by simpa using h'
    exact .scalar rfl
  · obtain rfl : value' = .int age := by simpa using h'
    exact .scalar rfl

/-- The two families have the same members in different orders, on both levels. -/
theorem reordered_looseFamily : Value.Reordered looseFamily turnedFamily := by
  refine .struct (by decide) (by decide) fun name value value' h h' => ?_
  simp only [List.mem_cons, Prod.mk.injEq, List.not_mem_nil, or_false] at h h'
  rcases h with ⟨rfl, rfl⟩ | ⟨rfl, rfl⟩
  · obtain rfl := (by simpa using h' : value' = _)
    have hturned := (reordered_member (some "Member") 12 false).symm
    exact .of_forall₂ (.cons (reordered_member none 40 true) (.cons hturned .nil))
  · obtain rfl : value' = .bytes .plain [0xab] := by simpa using h'
    exact .scalar rfl

/-- The one function takes a family. -/
def familyAbi : Abi := [⟨.function, "enroll", none, [⟨"family", "Family"⟩]⟩]

/-- Turned round or not, the family comes to the same value, and the calls with it have the same
    text. -/
theorem check_iff_of_reordered_family :
    looseFamily.check familySchemas (.struct "Family") = .ok boundFamily
      ∧ turnedFamily.check familySchemas (.struct "Family") = .ok boundFamily
      ∧ Value.Kept familySchemas turnedFamily boundFamily
      ∧ (Call.ofFunction familyAbi familySchemas "enroll" [looseFamily]).map Call.asm
        = .ok "ab 28 OP_TRUE OP_12 OP_FALSE"
      ∧ (Call.ofFunction familyAbi familySchemas "enroll" [turnedFamily]).map Call.asm
        = .ok "ab 28 OP_TRUE OP_12 OP_FALSE" := by
  have hschemas : ∀ schema ∈ familySchemas, (schema.members.map Param.name).Nodup := by decide
  have hcheck : looseFamily.check familySchemas (.struct "Family") = .ok boundFamily := by
    decide +kernel
  have hcall : Call.ofFunction familyAbi familySchemas "enroll" [looseFamily]
      = .ok ⟨"enroll", [looseFamily], .unlocking, "ab 28 OP_TRUE OP_12 OP_FALSE"⟩ := by
    decide +kernel
  have hasm : (Call.ofFunction familyAbi familySchemas "enroll" [looseFamily]).map Call.asm
      = .ok "ab 28 OP_TRUE OP_12 OP_FALSE" := by
    rw [hcall]
    rfl
  -- one check and one call are computed, and the others come from the reordering
  obtain ⟨hchecks, hcalls, -⟩ := check_iff_of_reordered hschemas
  obtain ⟨hiff, hkept⟩ :=
    hchecks looseFamily turnedFamily reordered_looseFamily (.struct "Family") boundFamily
  obtain ⟨-, hfunction⟩ :=
    hcalls [looseFamily] [turnedFamily] (.cons reordered_looseFamily .nil)
  exact ⟨hcheck, hiff.1 hcheck, (hkept hcheck).2, hasm,
    (hfunction familyAbi "enroll" "ab 28 OP_TRUE OP_12 OP_FALSE").1 hasm⟩

end ScriptAbi
