import ScriptAbi.Proofs.Call.Constructor
import ScriptAbi.Proofs.Template.Parts

namespace ScriptAbi

/-!
# What comes of a constructor's call

* `Param.Accepts`, `Param.Refuses`: what comes of one argument under its parameter.
* `Part.FilledWith`: what a part of the template becomes when scalars fill their slots.
* `ConstructorOutcome`: what comes of a call, said case by case: which errors there are, in which
  order they count, and the text of the call that is made.
* `ofConstructor_eq_iff_outcome`: a constructor's call comes to this and to nothing else.
-/

variable {schemas : List Schema} {style : SlotStyle} {params : List Param} {args : List Value}

/-! ### Arguments -/

/-- The parameter's text denotes a type, and the argument is `value` as one of this type. -/
def Param.Accepts (schemas : List Schema) (param : Param) (arg value : Value) : Prop :=
  ∃ type, TypeExpr.ofText? param.type = some type ∧ arg.check schemas type = .ok value

/-- The error of an argument that a parameter does not accept. -/
inductive Param.Refuses (schemas : List Schema) (param : Param) (arg : Value) :
    ContractError → Prop
  /-- The parameter's text denotes no type. -/
  | malformed (htype : TypeExpr.ofText? param.type = none) :
      Refuses schemas param arg (.within param.name (.descriptor (.malformedType param.type)))
  /-- The argument is not of the type; what is wrong inside a member is told under the member. -/
  | unfit {type : TypeExpr} {error : ContractError}
      (htype : TypeExpr.ofText? param.type = some type)
      (hcheck : arg.check schemas type = .error error) :
      Refuses schemas param arg (error.placedIn param.name)

/-- All arguments are accepted, and come to these values under their parameters' names. -/
def AcceptsAll (schemas : List Schema) (params : List Param) (args : List Value)
    (values : List (String × Value)) : Prop :=
  List.Forall₂ (fun (pair : Param × Value) (value : String × Value) =>
    pair.1.name = value.1 ∧ pair.1.Accepts schemas pair.2 value.2) (params.zip args) values

/-- Arguments stand the check iff each of them is accepted. -/
theorem checkArguments_eq_ok_iff_acceptsAll {values : List (String × Value)} :
    checkArguments schemas params args = .ok values ↔ AcceptsAll schemas params args values := by
  simp only [checkArguments_eq_ok_iff, checkArgument_eq_ok_iff, AcceptsAll, Param.Accepts]

/-- **An argument that fails the check** is refused. -/
theorem checkArgument_eq_error_iff {param : Param} {arg : Value} {error : ContractError} :
    param.checkArgument schemas arg = .error error ↔ param.Refuses schemas arg error := by
  simp only [Param.checkArgument, bind_eq_error_iff, mapError_eq_error_iff, mapError_eq_ok_iff,
    ofText_eq_ok_iff, ofText_eq_error_iff]
  constructor
  · rintro (⟨_, ⟨htype, rfl⟩, rfl⟩ | ⟨type, htype, cause, hcheck, rfl⟩)
    · exact .malformed htype
    · exact .unfit htype hcheck
  · rintro (htype | ⟨htype, hcheck⟩)
    · exact .inl ⟨_, ⟨htype, rfl⟩, rfl⟩
    · exact .inr ⟨_, htype, _, hcheck, rfl⟩

/-- **Arguments fail the check** with the error of the first one that is refused. -/
theorem checkArguments_eq_error_iff {error : ContractError} :
    checkArguments schemas params args = .error error ↔
      ∃ front param arg back, params.zip args = front ++ (param, arg) :: back
        ∧ (∀ pair ∈ front, ∃ value, pair.1.Accepts schemas pair.2 value)
        ∧ param.Refuses schemas arg error := by
  -- the first failure among the pairs of parameter and argument
  rw [checkArguments, mapM_eq_error_iff]
  constructor
  · rintro ⟨front, ⟨param, arg⟩, back, heq, hfront, herror⟩
    refine ⟨front, param, arg, back, heq, fun pair hpair => ?_, ?_⟩
    · obtain ⟨named, hnamed⟩ := hfront pair hpair
      obtain ⟨value, hvalue, -⟩ := bind_eq_ok_iff.1 hnamed
      exact ⟨value, checkArgument_eq_ok_iff.1 hvalue⟩
    · -- naming the value does not fail
      rcases bind_eq_error_iff.1 herror with herror | ⟨_, -, hpure⟩
      · exact checkArgument_eq_error_iff.1 herror
      · cases hpure
  · rintro ⟨front, param, arg, back, heq, hfront, hrefused⟩
    refine ⟨front, (param, arg), back, heq, fun pair hpair => ?_, ?_⟩
    · obtain ⟨value, hvalue⟩ := hfront pair hpair
      exact ⟨_, bind_eq_ok_iff.2 ⟨value, checkArgument_eq_ok_iff.2 hvalue, rfl⟩⟩
    · exact bind_eq_error_iff.2 (.inl (checkArgument_eq_error_iff.2 hrefused))

/-! ### Slots -/

/-- A scalar that has a word fails to go into a template iff the template lacks its slot. -/
theorem slotWords_eq_error_iff {template : Template} {leaf : String × Value}
    {error : ContractError} (hword : leaf.2.asm = .ok leaf.2.word) :
    template.slotWords leaf = .error error ↔
      template.hasSlot leaf.1 = false ∧ error = .missingSlot leaf.1 := by
  obtain ⟨slot, value⟩ := leaf
  simp only at hword
  simp only [Template.slotWords, hword]
  split
  · rename_i hslot
    rw [hslot]
    constructor
    · intro h
      cases h
    · rintro ⟨h, -⟩
      contradiction
  · rename_i hslot
    simp [hslot, eq_comm]

/-- **Filling slots fails** with the first slot that the template does not have, and in no other
    way: a scalar has a word. -/
theorem mapM_slotWords_eq_error_iff {template : Template} {values : List (String × Value)}
    {error : ContractError} :
    (slotLeaves style values).mapM template.slotWords = .error error ↔
      ∃ front slot back, (slotLeaves style values).map Prod.fst = front ++ slot :: back
        ∧ (∀ earlier ∈ front, template.hasSlot earlier = true)
        ∧ template.hasSlot slot = false ∧ error = .missingSlot slot := by
  -- the first failure among the scalars is the first slot that is missing
  rw [mapM_eq_error_iff]
  constructor
  · rintro ⟨front, leaf, back, heq, hfront, herror⟩
    have hmem : leaf ∈ slotLeaves style values := by simp [heq]
    obtain ⟨hslot, rfl⟩ := (slotWords_eq_error_iff (asm_of_mem_slotLeaves leaf hmem)).1 herror
    refine ⟨front.map Prod.fst, leaf.1, back.map Prod.fst, by simp [heq], ?_, hslot, rfl⟩
    intro earlier hearlier
    obtain ⟨before, hbefore, rfl⟩ := List.mem_map.1 hearlier
    obtain ⟨_, hwords⟩ := hfront before hbefore
    exact (slotWords_eq_ok_iff.1 hwords).1
  · rintro ⟨slots, slot, slots', heq, hfront, hslot, rfl⟩
    -- the slots are split where the scalars are
    obtain ⟨front, rest, hleaves, rfl, hrest⟩ := List.map_eq_append_iff.1 heq
    obtain ⟨leaf, back, rfl, rfl, -⟩ := List.map_eq_cons_iff.1 hrest
    refine ⟨front, leaf, back, hleaves, fun before hbefore => ?_, ?_⟩
    · have hmem : before ∈ slotLeaves style values := by simp [hleaves, hbefore]
      have hearlier := hfront before.1 (List.mem_map_of_mem hbefore)
      exact ⟨_, slotWords_eq_ok_iff.2 ⟨hearlier, _, asm_of_mem_slotLeaves before hmem, rfl⟩⟩
    · have hmem : leaf ∈ slotLeaves style values := by simp [hleaves]
      exact (slotWords_eq_error_iff (asm_of_mem_slotLeaves leaf hmem)).2 ⟨hslot, rfl⟩

/-! ### The text of the call -/

/-- What becomes of a part of the template when the scalars fill their slots. A placeholder of a
    slot becomes the words of the last scalar in this slot; all else stays as it is. -/
inductive Part.FilledWith (leaves : List (String × Value)) : Part → String → Prop
  | char (c : Char) : FilledWith leaves (.char c) (String.singleton c)
  | filled {front back : List (String × Value)} {slot words : String} {leaf : Value}
      (hleaves : leaves = front ++ (slot, leaf) :: back) (hlast : slot ∉ back.map Prod.fst)
      (hwords : leaf.asm = .ok words) : FilledWith leaves (.placeholder slot) words
  | kept {slot : String} (hslot : slot ∉ leaves.map Prod.fst) :
      FilledWith leaves (.placeholder slot) ("$" ++ slot)

/-- A part is filled with what is found for its slot. -/
theorem filledWith_iff {values : List (String × Value)} {part : Part} {text : String} :
    part.FilledWith (slotLeaves style values) text ↔
      part.fill (fun slot => (Named.ofList (leafWords style values)).lookup slot) = text := by
  constructor
  · intro h
    cases h with
    | char c => rfl
    | @filled front back slot words leaf hleaves hlast hwords =>
      -- what the last scalar of the slot is written as is what is looked up
      have hmem : (slot, leaf) ∈ slotLeaves style values := by simp [hleaves]
      have hasm := asm_of_mem_slotLeaves (slot, leaf) hmem
      rw [hwords] at hasm
      cases hasm
      simp [Part.fill, lookup_leafWords_of_last hleaves hlast]
    | kept hslot =>
      rw [← map_fst_leafWords, ← Named.lookup_ofList_eq_none_iff] at hslot
      simp [Part.fill, hslot]
  · rintro rfl
    cases part with
    | char c => exact .char c
    | placeholder slot =>
      cases hfound : (Named.ofList (leafWords style values)).lookup slot with
      -- no scalar has the slot
      | none =>
        simp only [Part.fill, hfound, Option.getD_none]
        rw [Named.lookup_ofList_eq_none_iff, map_fst_leafWords] at hfound
        exact .kept hfound
      -- the pair that is found is the last one of its slot, and its words are those of a scalar
      | some words =>
        obtain ⟨front, back, hpairs, hlast⟩ := Named.lookup_ofList_eq_some_iff.1 hfound
        obtain ⟨before, rest, hleaves, rfl, hrest⟩ := List.map_eq_append_iff.1 hpairs
        obtain ⟨leaf, after, rfl, hleaf, rfl⟩ := List.map_eq_cons_iff.1 hrest
        cases hleaf
        have hmem : leaf ∈ slotLeaves style values := by simp [hleaves]
        simp only [Part.fill, hfound, Option.getD_some]
        exact .filled hleaves (by simpa using hlast) (asm_of_mem_slotLeaves leaf hmem)

/-- The parts of a template are filled one by one. -/
theorem forall₂_filledWith_iff {values : List (String × Value)} {parts : List Part}
    {texts : List String} :
    List.Forall₂ (Part.FilledWith (slotLeaves style values)) parts texts ↔
      parts.map (Part.fill fun slot => (Named.ofList (leafWords style values)).lookup slot)
        = texts := by
  constructor
  · intro h
    induction h with
    | nil => rfl
    | cons hpart _ ih => rw [List.map_cons, filledWith_iff.1 hpart, ih]
  · rintro rfl
    rw [List.forall₂_map_right_iff, List.forall₂_same]
    exact fun part _ => filledWith_iff.2 rfl

/-! ### The outcome -/

/-- **What comes of a constructor's call** on a template with the given parts.

    The number of arguments counts before anything about them, then each argument in order, then
    the slots of their scalars in order. Which scalar stands in which slot is said by
    `mem_slotLeaves_iff`: the value itself, item `i` of an array under `base[i]`, member `m` of a
    struct under `base.m`. -/
inductive ConstructorOutcome (parts : List Part) (params : List Param) (schemas : List Schema)
    (style : SlotStyle) (args : List Value) : Except ContractError Call → Prop
  /-- There are more or fewer arguments than parameters. -/
  | arity (harity : params.length ≠ args.length) :
      ConstructorOutcome parts params schemas style args
        (.error (.arity constructorName params.length args.length))
  /-- Arguments are accepted up to one that is refused. -/
  | refused {front back : List (Param × Value)} {param : Param} {arg : Value}
      {error : ContractError} (harity : params.length = args.length)
      (hpairs : params.zip args = front ++ (param, arg) :: back)
      (hfront : ∀ pair ∈ front, ∃ value, pair.1.Accepts schemas pair.2 value)
      (hrefused : param.Refuses schemas arg error) :
      ConstructorOutcome parts params schemas style args (.error error)
  /-- All arguments are accepted, and the template has the slots of their scalars up to one. -/
  | missingSlot {values : List (String × Value)} {front back : List String} {slot : String}
      (harity : params.length = args.length) (hvalues : AcceptsAll schemas params args values)
      (hslots : (slotLeaves style values).map Prod.fst = front ++ slot :: back)
      (hfront : ∀ earlier ∈ front, .placeholder earlier ∈ parts)
      (hmissing : .placeholder slot ∉ parts) :
      ConstructorOutcome parts params schemas style args (.error (.missingSlot slot))
  /-- All arguments are accepted, and the template has the slots of all their scalars. -/
  | made {values : List (String × Value)} {texts : List String}
      (harity : params.length = args.length) (hvalues : AcceptsAll schemas params args values)
      (hslots : ∀ leaf ∈ slotLeaves style values, .placeholder leaf.1 ∈ parts)
      (htexts : List.Forall₂ (Part.FilledWith (slotLeaves style values)) parts texts) :
      ConstructorOutcome parts params schemas style args
        (.ok ⟨constructorName, args, .locking, String.join texts⟩)

/-- A wrong number of arguments is reported with the number that there should be. -/
theorem checkArity_eq_error_iff {method : String} {expected actual : Nat} {error : ContractError} :
    checkArity method expected actual = .error error ↔
      expected ≠ actual ∧ error = .arity method expected actual := by
  unfold checkArity
  split
  · simp_all
  · rename_i harity
    simp [harity, eq_comm]

/-- **When a constructor's call fails**, and with which error. -/
theorem ofConstructor_eq_error_iff {template : Template} {error : ContractError} :
    Call.ofConstructor template params schemas style args = .error error ↔
      (params.length ≠ args.length
          ∧ error = .arity constructorName params.length args.length)
        ∨ params.length = args.length ∧
          (checkArguments schemas params args = .error error
            ∨ ∃ values, checkArguments schemas params args = .ok values
              ∧ (slotLeaves style values).mapM template.slotWords = .error error) := by
  rw [Call.ofConstructor, bind_eq_error_iff, checkArity_eq_error_iff]
  refine or_congr_right ⟨?_, ?_⟩
  · rintro ⟨_, harity, h⟩
    refine ⟨checkArity_eq_ok_iff.1 harity, ?_⟩
    rcases bind_eq_error_iff.1 h with hfail | ⟨values, hvalues, h⟩
    · exact .inl hfail
    · -- once the slots are filled nothing is left to fail
      rcases bind_eq_error_iff.1 h with hfail | ⟨_, -, hpure⟩
      · exact .inr ⟨values, hvalues, hfail⟩
      · cases hpure
  · rintro ⟨harity, hfail⟩
    refine ⟨(), checkArity_eq_ok_iff.2 harity, bind_eq_error_iff.2 ?_⟩
    rcases hfail with hfail | ⟨values, hvalues, hfail⟩
    · exact .inl hfail
    · exact .inr ⟨values, hvalues, bind_eq_error_iff.2 (.inl hfail)⟩

/-- **A constructor's call comes to its outcome** on the parts of its template. -/
theorem ofConstructor_eq_iff {template : Template} {result : Except ContractError Call} :
    Call.ofConstructor template params schemas style args = result ↔
      ConstructorOutcome template.parts params schemas style args result := by
  -- the template has a slot iff a placeholder of it is among the parts
  have hslot : ∀ slot, template.hasSlot slot = true ↔ .placeholder slot ∈ template.parts :=
    fun slot => Template.hasSlot_iff_mem_parts
  cases result with
  | error error =>
    rw [ofConstructor_eq_error_iff]
    constructor
    · rintro (⟨harity, rfl⟩ | ⟨harity, hfail | ⟨values, hvalues, hfail⟩⟩)
      · exact .arity harity
      · obtain ⟨front, param, arg, back, hpairs, hfront, hrefused⟩ :=
          checkArguments_eq_error_iff.1 hfail
        exact .refused harity hpairs hfront hrefused
      · obtain ⟨front, slot, back, hslots, hfront, hmissing, rfl⟩ :=
          mapM_slotWords_eq_error_iff.1 hfail
        rw [← Bool.not_eq_true, hslot] at hmissing
        exact .missingSlot harity (checkArguments_eq_ok_iff_acceptsAll.1 hvalues) hslots
          (fun earlier hearlier => (hslot earlier).1 (hfront earlier hearlier)) hmissing
    · intro h
      cases h with
      | arity harity => exact .inl ⟨harity, rfl⟩
      | refused harity hpairs hfront hrefused =>
        refine .inr ⟨harity, .inl (checkArguments_eq_error_iff.2 ?_)⟩
        exact ⟨_, _, _, _, hpairs, hfront, hrefused⟩
      | missingSlot harity hvalues hslots hfront hmissing =>
        rw [← hslot, Bool.not_eq_true] at hmissing
        refine .inr ⟨harity, .inr ⟨_, checkArguments_eq_ok_iff_acceptsAll.2 hvalues, ?_⟩⟩
        exact mapM_slotWords_eq_error_iff.2 ⟨_, _, _, hslots,
          fun earlier hearlier => (hslot earlier).2 (hfront earlier hearlier), hmissing, rfl⟩
  | ok call =>
    rw [ofConstructor_eq_ok_iff]
    constructor
    · rintro ⟨harity, values, hvalues, hslots, rfl⟩
      rw [Template.substitute_eq_join]
      exact .made harity (checkArguments_eq_ok_iff_acceptsAll.1 hvalues)
        (fun leaf hleaf => (hslot leaf.1).1 (hslots leaf hleaf)) (forall₂_filledWith_iff.2 rfl)
    · intro h
      cases h with
      | made harity hvalues hslots htexts =>
        refine ⟨harity, _, checkArguments_eq_ok_iff_acceptsAll.2 hvalues,
          fun leaf hleaf => (hslot leaf.1).2 (hslots leaf hleaf), ?_⟩
        rw [Template.substitute_eq_join, forall₂_filledWith_iff.1 htexts]

/-- A call is made iff the arguments are as many as the parameters, all are accepted and the template
    has the slots of all their scalars. -/
theorem exists_ofConstructor_iff {template : Template} :
    (∃ call, Call.ofConstructor template params schemas style args = .ok call) ↔
      params.length = args.length ∧ ∃ values, AcceptsAll schemas params args values
        ∧ ∀ leaf ∈ slotLeaves style values, .placeholder leaf.1 ∈ template.parts := by
  simp only [ofConstructor_eq_ok_iff, checkArguments_eq_ok_iff_acceptsAll,
    Template.hasSlot_iff_mem_parts]
  constructor
  · rintro ⟨_, harity, values, hvalues, hslots, -⟩
    exact ⟨harity, values, hvalues, hslots⟩
  · rintro ⟨harity, values, hvalues, hslots⟩
    exact ⟨_, harity, values, hvalues, hslots, rfl⟩

/-- **What comes of a constructor's call**, whatever the template's text, the parameters, the schemas
    and the arguments are. The text is cut into its parts; the call is made iff all arguments are
    accepted and all their slots are among the parts, and every result is as `ConstructorOutcome`
    says. -/
theorem ofConstructor_eq_iff_outcome (text : String) (params : List Param) (schemas : List Schema)
    (style : SlotStyle) (args : List Value) :
    ∃ parts, IsReading text.toList parts
      ∧ ((∃ call, Call.ofConstructor (Template.ofText text) params schemas style args = .ok call) ↔
        params.length = args.length ∧ ∃ values, AcceptsAll schemas params args values
          ∧ ∀ leaf ∈ slotLeaves style values, .placeholder leaf.1 ∈ parts)
      ∧ ∀ result,
        Call.ofConstructor (Template.ofText text) params schemas style args = result ↔
          ConstructorOutcome parts params schemas style args result :=
  ⟨(Template.ofText text).parts, Template.isReading_parts text.toList, exists_ofConstructor_iff,
    fun _ => ofConstructor_eq_iff⟩

end ScriptAbi
