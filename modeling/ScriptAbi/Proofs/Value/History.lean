import ScriptAbi.Proofs.Value.Decidable
import ScriptAbi.Proofs.Value.Matching
import ScriptAbi.Value.Render

namespace ScriptAbi

/-!
# How a struct came about

* `Struct.Step`, `Struct.run`: a struct is made from the empty one, step after step: a member is set,
  or the struct is bound to a schema.
* `Struct.BoundThenSet`: the last time that the struct was bound, and what was set since.
* `boundThenSet_of_run`: by induction along the steps, a struct that is bound is what binding it made
  at some step, edited by the steps after that one.
* `matches_iff_of_run`: such a struct has the members of its schema, in order, and it matches the
  schema iff each edit since leaves a declared member with a value of its type.
* `not_matches_of_edits`: an edit need not do so. A bound struct stays bound whatever is set in it,
  and its words are given.
-/

namespace Struct

/-- What is done to a struct. -/
inductive Step
  | set (name : String) (value : Value)
  | bind (schema : Schema)

/-- A member is set to the value beside its name. -/
def Step.ofEdit (edit : String × Value) : Step := .set edit.1 edit.2

/-- The struct after a step. -/
def step (schemas : List Schema) (s : Struct) : Step → Except ContractError Struct
  | .set name value => .ok (s.set name value)
  | .bind schema => s.bind schemas schema

/-- What the steps make of the empty struct. -/
def run (schemas : List Schema) (steps : List Step) : Except ContractError Struct :=
  steps.foldlM (step schemas) empty

variable {schemas : List Schema} {steps : List Step} {s : Struct}

/-- The last step is done after the others. -/
theorem run_append_singleton (last : Step) :
    run schemas (steps ++ [last]) = run schemas steps >>= fun before =>
      before.step schemas last := by
  simp [run]

/-- The struct was bound to the schema at some step, and the steps after this one are the edits that
    made it what it is. -/
def BoundThenSet (schemas : List Schema) (steps : List Step) (schema : Schema)
    (edits : List (String × Value)) (s : Struct) : Prop :=
  ∃ front before bound, steps = front ++ .bind schema :: edits.map .ofEdit
    ∧ run schemas front = .ok before ∧ before.bind schemas schema = .ok bound
    ∧ s = bound.setAll edits

/-- What was bound and then set is so with one more member set. -/
theorem BoundThenSet.set {schema : Schema} {edits : List (String × Value)}
    (h : BoundThenSet schemas steps schema edits s) (name : String) (value : Value) :
    BoundThenSet schemas (steps ++ [.set name value]) schema (edits ++ [(name, value)])
      (s.set name value) := by
  obtain ⟨front, before, bound, rfl, hrun, hbind, rfl⟩ := h
  refine ⟨front, before, bound, ?_, hrun, hbind, (setAll_append_singleton bound edits _ _).symm⟩
  simp [Step.ofEdit]

/-- **One step.** If the struct before is bound only by a step before, the same is true after. -/
theorem boundThenSet_of_step {before : Struct} {last : Step}
    (hrun : run schemas steps = .ok before) (hstep : before.step schemas last = .ok s)
    (hbefore : before.schema = none ∨
      ∃ schema edits, BoundThenSet schemas steps schema edits before) :
    s.schema = none ∨ ∃ schema edits, BoundThenSet schemas (steps ++ [last]) schema edits s := by
  cases last with
  | set name value =>
    cases hstep
    rcases hbefore with hnone | ⟨schema, edits, hset⟩
    · exact .inl hnone
    · exact .inr ⟨schema, _, hset.set name value⟩
  | bind schema => exact .inr ⟨schema, [], steps, before, s, rfl, hrun, hstep, rfl⟩

/-- **A struct is bound only by a step**, and what it is then is edited by the steps after the last
    such one. -/
theorem boundThenSet_of_run (hrun : run schemas steps = .ok s) :
    s.schema = none ∨ ∃ schema edits, BoundThenSet schemas steps schema edits s := by
  induction steps using List.reverseRecOn generalizing s with
  | nil =>
    cases hrun
    exact .inl rfl
  | append_singleton steps last ih =>
    rw [run_append_singleton] at hrun
    obtain ⟨before, hbefore, hstep⟩ := bind_eq_ok_iff.1 hrun
    exact boundThenSet_of_step hbefore hstep (ih hbefore)

/-- Only a bound struct has words. -/
theorem isBound_of_asm {words : String} (h : s.toValue.asm = .ok words) : s.isBound = true := by
  obtain ⟨bound, fields⟩ := s
  cases bound with
  | none => cases h
  | some name => rfl

/-- **What is bound has the members of its schema**, in order and in front of all others, and it
    matches the schema iff the last value set for each name, since it was bound, is one of a member's
    type under the name of this member. Only what is bound has words. -/
theorem matches_iff_of_run (hdistinct : Schema.Distinct schemas)
    (hbinds : ∀ schema, .bind schema ∈ steps → schema ∈ schemas)
    (hrun : run schemas steps = .ok s) :
    (∀ words, s.toValue.asm = .ok words → s.isBound = true)
      ∧ (s.isBound = true → ∃ schema edits, BoundThenSet schemas steps schema edits s
        ∧ s.schema = some schema.name ∧ Schema.find? schemas schema.name = some schema
        ∧ s.fields.map Prod.fst = schema.members.map Param.name
          ++ ((Named.ofList edits).map Prod.fst).filter (· ∉ schema.members.map Param.name)
        ∧ (s.Matches schemas schema ↔
          ∀ edit ∈ Named.ofList edits, ∃ member ∈ schema.members, member.Admits schemas edit)) := by
  refine ⟨fun words => isBound_of_asm, fun hbound => ?_⟩
  rcases boundThenSet_of_run hrun with hnone | ⟨schema, edits, hset⟩
  · rw [isBound, hnone] at hbound
    contradiction
  · refine ⟨schema, edits, hset, ?_⟩
    -- what was edited after the last binding is all that can spoil the match
    obtain ⟨front, before, bound, rfl, -, hbind, rfl⟩ := hset
    have hschema : schema ∈ schemas := hbinds schema (by simp)
    have hmembers := hdistinct.members schema hschema
    obtain ⟨hname, hmatches⟩ := matches_of_bind hdistinct hbind
    refine ⟨hname, find?_name_eq_some hdistinct hschema, ?_,
      matches_setAll_iff hmembers hmatches edits⟩
    rw [fields_setAll, Named.map_fst_insertAll, ((matches_iff hmembers).1 hmatches).1]

/-! A struct with one member, bound and then edited. -/

/-- The schema with the one member. -/
def person : Schema := ⟨"Person", [⟨"age", "int"⟩]⟩

/-- The one schema has the one member. -/
theorem distinct_person : Schema.Distinct [person] where
  names := by decide
  members := by decide

/-- A person of a given age, edited once it is bound. -/
def personSteps (edits : List (String × Value)) : List Step :=
  [.set "age" (.int 30), .bind person] ++ edits.map .ofEdit

/-- Persons are bound to their schema alone. -/
theorem mem_of_bind_mem_personSteps (edits : List (String × Value)) :
    ∀ schema, .bind schema ∈ personSteps edits → schema ∈ [person] := by
  intro schema hmem
  simpa [personSteps, Step.ofEdit] using hmem

/-- Two edits of one member, of which the later one counts: whether the person matches its schema is
    whether the member admits it. -/
theorem matches_iff_of_run_person :
    run [person] (personSteps [("age", .bool true), ("age", .int 31)])
        = .ok ⟨some "Person", [("age", .int 31)]⟩
      ∧ ∃ schema edits, BoundThenSet [person] (personSteps [("age", .bool true), ("age", .int 31)])
          schema edits ⟨some "Person", [("age", .int 31)]⟩
        ∧ (Matches [person] schema ⟨some "Person", [("age", .int 31)]⟩ ↔
          ∀ edit ∈ Named.ofList edits, ∃ member ∈ schema.members, member.Admits [person] edit) := by
  have hrun : run [person] (personSteps [("age", .bool true), ("age", .int 31)])
      = .ok ⟨some "Person", [("age", .int 31)]⟩ := by decide +kernel
  obtain ⟨schema, edits, hset, -, -, -, hmatches⟩ :=
    (matches_iff_of_run distinct_person (mem_of_bind_mem_personSteps _) hrun).2 rfl
  exact ⟨hrun, schema, edits, hset, hmatches⟩

/-- **A bound struct need not match its schema**: a member set to a value of another type stays in
    it, and so does a member that the schema does not have. The words of both are given. -/
theorem not_matches_of_edits :
    Schema.Distinct [person]
      ∧ (run [person] (personSteps [("age", .bool true)])
          = .ok ⟨some "Person", [("age", .bool true)]⟩
        ∧ ¬ Matches [person] person ⟨some "Person", [("age", .bool true)]⟩
        ∧ (toValue ⟨some "Person", [("age", .bool true)]⟩).asm = .ok "OP_TRUE")
      ∧ (run [person] (personSteps [("extra", .int 1)])
          = .ok ⟨some "Person", [("age", .int 30), ("extra", .int 1)]⟩
        ∧ ¬ Matches [person] person ⟨some "Person", [("age", .int 30), ("extra", .int 1)]⟩
        ∧ (toValue ⟨some "Person", [("age", .int 30), ("extra", .int 1)]⟩).asm = .ok "1e OP_1") := by
  refine ⟨distinct_person, ⟨by decide +kernel, ?_, by decide +kernel⟩, by decide +kernel, ?_,
    by decide +kernel⟩
  · -- a truth value is not a number
    intro hmatches
    obtain ⟨-, type, htype, hhas⟩ := (List.forall₂_cons.1 hmatches).1
    rw [show TypeExpr.ofText? "int" = some (.scalar .int) by decide +kernel] at htype
    cases htype
    cases hhas with
    | scalar hkind => contradiction
  · -- two members are more than the schema has
    intro hmatches
    exact absurd hmatches.length_eq (by decide)

end Struct

end ScriptAbi
