import ScriptAbi.Call
import ScriptAbi.Proofs.Named
import ScriptAbi.Proofs.Value.Alike

namespace ScriptAbi

/-!
# Arguments that stood the check

What each step of a call does when it gives a result.

* `checkArguments_eq_ok_iff`: each argument stands the check against its parameter's type.
* `argumentAsm_eq_ok_iff`: the words of an argument are those of its scalars.
* `alike_of_checkArguments`: two lists of arguments that stood the same check are alike.
* `isSlotName_of_mem_slotLeaves`, `nodup_slotLeaves`: the slots of arguments are slot names, and no
  two scalars share one.
-/

variable {schemas : List Schema} {style : SlotStyle} {params : List Param} {args : List Value}

/-! ### One argument -/

/-- The number of arguments is right iff it is that of the parameters. -/
theorem checkArity_eq_ok_iff {method : String} {expected actual : Nat} {u : Unit} :
    checkArity method expected actual = .ok u ↔ expected = actual := by
  unfold checkArity
  split
  · simp_all
  · simp_all

/-- An argument stands the check against the type that its parameter's text denotes. -/
theorem checkArgument_eq_ok_iff {param : Param} {arg value : Value} :
    param.checkArgument schemas arg = .ok value ↔
      ∃ type, TypeExpr.ofText? param.type = some type ∧ arg.check schemas type = .ok value := by
  simp only [Param.checkArgument, bind_eq_ok_iff, mapError_eq_ok_iff, ofText_eq_ok_iff]

/-- The check makes a canonical value of the parameter's type. -/
theorem canonical_of_checkArgument {param : Param} {arg value : Value}
    (h : param.checkArgument schemas arg = .ok value) :
    ∃ type, TypeExpr.ofText? param.type = some type ∧ Value.Canonical schemas type value := by
  obtain ⟨type, htype, hcheck⟩ := checkArgument_eq_ok_iff.1 h
  exact ⟨type, htype, canonical_of_check hcheck⟩

/-- **The words of an argument** are those of the scalars in its value. -/
theorem argumentAsm_eq_ok_iff {param : Param} {arg : Value} {text : String} :
    param.argumentAsm schemas arg = .ok text ↔
      ∃ value, param.checkArgument schemas arg = .ok value
        ∧ text = Value.joinWords (value.scalars.map Value.word) := by
  rw [Param.argumentAsm, bind_eq_ok_iff]
  -- a value that stood the check has words, so that only the check can fail
  have hwords : ∀ value, param.checkArgument schemas arg = .ok value →
      value.asm = .ok (Value.joinWords (value.scalars.map Value.word)) := by
    intro value hvalue
    obtain ⟨type, -, hcanonical⟩ := canonical_of_checkArgument hvalue
    exact Value.asm_of_allBound (Value.allBound_of_canonical hcanonical)
  constructor
  · rintro ⟨value, hvalue, htext⟩
    rw [mapError_eq_ok_iff, hwords value hvalue] at htext
    exact ⟨value, hvalue, (Except.ok.inj htext).symm⟩
  · rintro ⟨value, hvalue, rfl⟩
    exact ⟨value, hvalue, mapError_eq_ok_iff.2 (hwords value hvalue)⟩

/-! ### All arguments -/

/-- **Arguments stand the check** one by one, and keep the names of their parameters. -/
theorem checkArguments_eq_ok_iff {values : List (String × Value)} :
    checkArguments schemas params args = .ok values ↔
      List.Forall₂ (fun (pair : Param × Value) (value : String × Value) =>
        pair.1.name = value.1 ∧ pair.1.checkArgument schemas pair.2 = .ok value.2)
        (params.zip args) values := by
  rw [checkArguments, mapM_eq_ok_iff]
  constructor
  · intro h
    refine h.imp fun pair value hpair => ?_
    obtain ⟨checked, hchecked, heq⟩ := bind_eq_ok_iff.1 hpair
    cases heq
    exact ⟨rfl, hchecked⟩
  · intro h
    refine h.imp fun pair value hpair => ?_
    obtain ⟨hname, hchecked⟩ := hpair
    exact bind_eq_ok_iff.2 ⟨value.2, hchecked, by rw [hname]; rfl⟩

/-- The words of all arguments are those of their values. -/
theorem mapM_argumentAsm_eq_ok_iff {texts : List String} :
    ((params.zip args).mapM fun (param, arg) => param.argumentAsm schemas arg) = .ok texts ↔
      ∃ values, checkArguments schemas params args = .ok values
        ∧ texts = values.map fun value => Value.joinWords (value.2.scalars.map Value.word) := by
  rw [mapM_eq_ok_iff]
  simp only [checkArguments_eq_ok_iff, argumentAsm_eq_ok_iff]
  generalize params.zip args = pairs
  constructor
  · intro h
    induction h with
    | nil => exact ⟨[], .nil, rfl⟩
    | @cons pair text pairs texts hpair _ ih =>
      obtain ⟨value, hvalue, rfl⟩ := hpair
      obtain ⟨values, hvalues, rfl⟩ := ih
      exact ⟨(pair.1.name, value) :: values, .cons ⟨rfl, hvalue⟩ hvalues, rfl⟩
  · rintro ⟨values, hvalues, rfl⟩
    rw [List.forall₂_map_right_iff]
    exact hvalues.imp fun pair value hpair => ⟨value.2, hpair.2, rfl⟩

/-- The value of an argument is a canonical value of a parameter's type, under its name. -/
theorem exists_param_of_checkArguments {values : List (String × Value)}
    (h : checkArguments schemas params args = .ok values) {value : String × Value}
    (hvalue : value ∈ values) :
    ∃ param ∈ params, param.name = value.1
      ∧ ∃ type, TypeExpr.ofText? param.type = some type
        ∧ Value.Canonical schemas type value.2 := by
  obtain ⟨pair, hpair, hname, hcheck⟩ :=
    exists_of_mem_right (checkArguments_eq_ok_iff.1 h) hvalue
  exact ⟨pair.1, (List.of_mem_zip hpair).1, hname, canonical_of_checkArgument hcheck⟩

/-- Arguments that stood the check go under the names of their parameters, in order. -/
theorem map_fst_of_checkArguments {values : List (String × Value)}
    (harity : params.length = args.length) (h : checkArguments schemas params args = .ok values) :
    values.map Prod.fst = params.map Param.name := by
  have hnames : ((params.zip args).map Prod.fst).map Param.name = values.map Prod.fst := by
    rw [checkArguments_eq_ok_iff] at h
    generalize params.zip args = pairs at h
    induction h with
    | nil => rfl
    | cons hpair _ ih => simp only [List.map_cons, hpair.1, ih]
  rw [← hnames, List.map_fst_zip harity.le]

/-- **Two lists of arguments that stood the same check are alike.** -/
theorem alike_of_checkArguments {args' : List Value} {values values' : List (String × Value)}
    (harity : params.length = args.length) (harity' : params.length = args'.length)
    (h : checkArguments schemas params args = .ok values)
    (h' : checkArguments schemas params args' = .ok values') :
    List.Forall₂ (fun a b : String × Value => a.1 = b.1 ∧ Value.Alike a.2 b.2) values values' := by
  rw [checkArguments_eq_ok_iff] at h h'
  induction params generalizing args args' values values' with
  | nil =>
    cases h
    cases h'
    exact .nil
  | cons param params ih =>
    obtain ⟨arg, args, rfl⟩ := List.exists_cons_of_length_eq_add_one harity.symm
    obtain ⟨arg', args', rfl⟩ := List.exists_cons_of_length_eq_add_one harity'.symm
    simp only [List.length_cons, Nat.add_right_cancel_iff] at harity harity'
    obtain ⟨value, values, hvalue, hvalues, rfl⟩ := List.forall₂_cons_left_iff.1 h
    obtain ⟨value', values', hvalue', hvalues', rfl⟩ := List.forall₂_cons_left_iff.1 h'
    obtain ⟨type, htype, hcanonical⟩ := canonical_of_checkArgument hvalue.2
    obtain ⟨type', htype', hcanonical'⟩ := canonical_of_checkArgument hvalue'.2
    -- both were checked against what the parameter's text denotes
    have hsame : type' = type := Option.some.inj (htype'.symm.trans htype)
    rw [hsame] at hcanonical'
    exact .cons ⟨hvalue.1.symm.trans hvalue'.1, alike_of_canonical hcanonical hcanonical'⟩
      (ih harity harity' hvalues hvalues')

/-- Arguments that stood the check are under the names of parameters. -/
theorem isName_of_checkArguments {values : List (String × Value)}
    (hparams : Param.WellNamed params) (h : checkArguments schemas params args = .ok values) :
    ∀ value ∈ values, Text.isName value.1.toList = true := by
  intro value hvalue
  obtain ⟨param, hparam, hname, -⟩ := exists_param_of_checkArguments h hvalue
  rw [← hname]
  exact hparams.isName param hparam

/-- Their structs have the names of schemas. -/
theorem wellNamed_of_checkArguments {values : List (String × Value)}
    (hschemas : ∀ schema ∈ schemas, Param.WellNamed schema.members)
    (h : checkArguments schemas params args = .ok values) :
    ∀ value ∈ values, value.2.WellNamed := by
  intro value hvalue
  obtain ⟨_, -, -, type, -, hcanonical⟩ := exists_param_of_checkArguments h hvalue
  exact Value.wellNamed_of_canonical hschemas hcanonical

/-- The slots of arguments that stood the check are slot names. -/
theorem isSlotName_of_mem_slotLeaves {values : List (String × Value)}
    (hparams : Param.WellNamed params) (hschemas : ∀ schema ∈ schemas, Param.WellNamed schema.members)
    (h : checkArguments schemas params args = .ok values) :
    ∀ leaf ∈ slotLeaves style values, IsSlotName leaf.1.toList :=
  isSlotName_of_wellNamed (isName_of_checkArguments hparams h) (wellNamed_of_checkArguments hschemas h)

/-- **No two scalars of the arguments share a slot.** -/
theorem nodup_slotLeaves {values : List (String × Value)} (harity : params.length = args.length)
    (hparams : Param.WellNamed params) (hschemas : ∀ schema ∈ schemas, Param.WellNamed schema.members)
    (h : checkArguments schemas params args = .ok values) :
    ((slotLeaves style values).map Prod.fst).Nodup := by
  have hdistinct : (values.map Prod.fst).Nodup := by
    rw [map_fst_of_checkArguments harity h]
    exact hparams.distinct
  exact nodup_slots_of_wellNamed (isName_of_checkArguments hparams h) hdistinct
    (wellNamed_of_checkArguments hschemas h)

/-! ### Arrays and structs to try calls on -/

/-- A struct of a number and a byte string. -/
def pairSchema : Schema := ⟨"Pair", [⟨"left", "int"⟩, ⟨"right", "bytes"⟩]⟩

/-- Two pairs, an array of no items and a truth value. -/
def pairParams : List Param := [⟨"pairs", "Pair[2]"⟩, ⟨"none", "int[0]"⟩, ⟨"flag", "bool"⟩]

/-- Arguments with members in the schema's order. -/
def pairArgs : List Value :=
  [.array [.struct none [("left", .int 16), ("right", .bytes .plain [])],
    .struct none [("left", .int 17), ("right", .bytes .plain [0x11])]], .array [], .bool false]

/-- The parameters have different names. -/
theorem wellNamed_pairParams : Param.WellNamed pairParams := ⟨by decide, by decide⟩

/-- So do the members of a pair. -/
theorem wellNamed_pairSchema : ∀ schema ∈ [pairSchema], Param.WellNamed schema.members := by
  intro schema hmem
  rw [List.mem_singleton.1 hmem]
  exact ⟨by decide, by decide⟩

end ScriptAbi
