import ScriptAbi.Proofs.Call.Outcome
import ScriptAbi.Proofs.Call.Function
import ScriptAbi.Proofs.Value.Failure

namespace ScriptAbi

/-!
# The place that the error of a call names

* `Param.FailsAt`: where an argument is found not to be one for its parameter, said without the
  check.
* `checkArgument_of_failsAt`, `exists_failsAt_of_refused`: an argument that is refused fails
  somewhere, and the check reports where.
* `ofConstructor_of_refused`, `ofFunction_of_refused`: a call fails with the error of the first
  argument that is refused.
* `place_of_refused`: the error names one place, which is the innermost member that encloses the
  failure, or the parameter. The text of a member's type is the exception: if it is malformed, the
  member around it is named.
-/

variable {schemas : List Schema} {style : SlotStyle} {params : List Param} {args : List Value}

/-! ### Where an argument fails -/

/-- Where an argument is found not to be one for its parameter: what is wrong, and the members that
    are being checked then, the outermost first. -/
inductive Param.FailsAt (schemas : List Schema) (param : Param) (arg : Value) :
    List String → ContractError → Prop
  /-- The text of the parameter's own type denotes no type. -/
  | malformed (htype : TypeExpr.ofText? param.type = none) :
      FailsAt schemas param arg [] (.descriptor (.malformedType param.type))
  | unfit {type : TypeExpr} {path : List String} {cause : ContractError}
      (htype : TypeExpr.ofText? param.type = some type)
      (harg : Value.FailsAt schemas type arg path cause) : FailsAt schemas param arg path cause

/-- The innermost one of these members of the parameter, or the parameter if there is none. -/
def Param.innermost (param : Param) (path : List String) : String := path.getLast?.getD param.name

/-- Once all have named their place, the error has one place: the innermost one. -/
theorem placedIn_reportedAt {cause : ContractError} (hcause : cause.place? = none) (param : Param)
    (path : List String) :
    (cause.reportedAt path).placedIn param.name
      = .within (param.innermost (cause.placesOf path)) cause := by
  rw [ContractError.reportedAt, ContractError.foldr_placedIn_eq hcause, Param.innermost]
  cases (cause.placesOf path).getLast? with
  | none => exact ContractError.placedIn_of_place?_eq_none hcause param.name
  | some place => exact ContractError.placedIn_within param.name place cause

/-- What fails inside an argument has no place yet. It gets one on the way out. -/
theorem Param.FailsAt.place?_eq_none {param : Param} {arg : Value} {path : List String}
    {cause : ContractError} (h : param.FailsAt schemas arg path cause) : cause.place? = none := by
  cases h with
  | malformed => rfl
  | unfit _ harg => exact harg.place?_eq_none

/-- **Where an argument fails, its check fails**, and names one place. -/
theorem checkArgument_of_failsAt {param : Param} {arg : Value} {path : List String}
    {cause : ContractError} (h : param.FailsAt schemas arg path cause) :
    param.checkArgument schemas arg
      = .error (.within (param.innermost (cause.placesOf path)) cause) := by
  rw [checkArgument_eq_error_iff, ← placedIn_reportedAt h.place?_eq_none]
  cases h with
  | malformed htype => exact .malformed htype
  | unfit htype harg => exact .unfit htype (Value.check_of_failsAt harg)

/-- **An argument that is not accepted fails somewhere.** -/
theorem exists_failsAt_of_refused {param : Param} {arg : Value}
    (h : ∀ value, ¬ param.Accepts schemas arg value) :
    ∃ path cause, param.FailsAt schemas arg path cause := by
  cases htype : TypeExpr.ofText? param.type with
  | none => exact ⟨[], _, .malformed htype⟩
  | some type =>
    cases hcheck : arg.check schemas type with
    | ok value => exact absurd ⟨type, htype, hcheck⟩ (h value)
    | error error =>
      obtain ⟨path, cause, hfails, -⟩ := Value.exists_failsAt_of_check hcheck
      exact ⟨path, cause, .unfit htype hfails⟩

/-! ### Calls with a refused argument -/

/-- The words of arguments fail as their check does. -/
theorem mapM_argumentAsm_of_checkArguments {error : ContractError}
    (h : checkArguments schemas params args = .error error) :
    (params.zip args).mapM (fun (param, arg) => param.argumentAsm schemas arg) = .error error := by
  obtain ⟨front, param, arg, back, hpairs, hfront, hrefused⟩ := checkArguments_eq_error_iff.1 h
  refine mapM_eq_error_iff.2 ⟨front, (param, arg), back, hpairs, fun pair hpair => ?_, ?_⟩
  · obtain ⟨value, hvalue⟩ := hfront pair hpair
    exact ⟨_, argumentAsm_eq_ok_iff.2 ⟨value, checkArgument_eq_ok_iff.2 hvalue, rfl⟩⟩
  · exact bind_eq_error_iff.2 (.inl (checkArgument_eq_error_iff.2 hrefused))

/-- **A constructor's call fails** as the check of its arguments does. -/
theorem ofConstructor_of_refused {template : Template} {error : ContractError}
    (harity : params.length = args.length)
    (h : checkArguments schemas params args = .error error) :
    Call.ofConstructor template params schemas style args = .error error :=
  ofConstructor_eq_error_iff.2 (.inr ⟨harity, .inl h⟩)

/-- **A function's call fails** as the check of its arguments does. -/
theorem ofFunction_of_refused {abi : Abi} {name : String} {position : Nat} {entry : Entry}
    {error : ContractError} (hfound : abi.function? name = some (position, entry))
    (harity : entry.params.length = args.length)
    (h : checkArguments schemas entry.params args = .error error) :
    Call.ofFunction abi schemas name args = .error error := by
  rw [Call.ofFunction, hfound]
  refine bind_eq_error_iff.2 (.inr ⟨(), checkArity_eq_ok_iff.2 harity, ?_⟩)
  exact bind_eq_error_iff.2 (.inl (mapM_argumentAsm_of_checkArguments h))

/-- **The error of a refused argument** names one place. Let an argument be the first one that its
    parameter does not accept. Then it fails somewhere, and wherever it does, each call with these
    arguments has an error with one layer around this failure. The layer has the name of the
    innermost member that is being checked then, or of the parameter if there is none; but where the
    text of a member's type is malformed, this member has no say. -/
theorem place_of_refused {front back : List (Param × Value)} {param : Param} {arg : Value}
    (harity : params.length = args.length)
    (hpairs : params.zip args = front ++ (param, arg) :: back)
    (hfront : ∀ pair ∈ front, ∃ value, pair.1.Accepts schemas pair.2 value)
    (hrefused : ∀ value, ¬ param.Accepts schemas arg value) :
    (∃ path cause, param.FailsAt schemas arg path cause)
      ∧ ∀ path cause, param.FailsAt schemas arg path cause →
        ∃ place error, error = .within place cause
          ∧ error.place? = some place ∧ error.cause = cause
          ∧ ((∀ text, cause ≠ .descriptor (.malformedType text)) → place = param.innermost path)
          ∧ ((∃ text, cause = .descriptor (.malformedType text)) →
            place = param.innermost path.dropLast)
          ∧ (∀ template style, Call.ofConstructor template params schemas style args = .error error)
          ∧ ∀ abi name position entry, abi.function? name = some (position, entry) →
            entry.params = params → Call.ofFunction abi schemas name args = .error error := by
  refine ⟨exists_failsAt_of_refused hrefused, fun path cause hfails => ?_⟩
  -- the arguments before it are accepted, so that its error is the one of them all
  have hcheck : checkArguments schemas params args
      = .error (.within (param.innermost (cause.placesOf path)) cause) :=
    checkArguments_eq_error_iff.2 ⟨front, param, arg, back, hpairs, hfront,
      checkArgument_eq_error_iff.1 (checkArgument_of_failsAt hfails)⟩
  refine ⟨param.innermost (cause.placesOf path), _, rfl, ?_, ?_, fun hother => ?_, ?_,
    fun template style => ?_, ?_⟩
  · simp [ContractError.place?, hfails.place?_eq_none]
  · exact ContractError.cause_eq_self hfails.place?_eq_none
  · -- all members on the path have been told
    rw [ContractError.placesOf_eq_self hother]
  · -- the text of a type is not told under the last one
    rintro ⟨text, rfl⟩
    rfl
  · exact ofConstructor_of_refused harity hcheck
  · rintro abi name position entry hfound rfl
    exact ofFunction_of_refused hfound harity hcheck

/-! A family of one, in which the type of an age can be any text. -/

/-- Families and their members, who have an age of the given type. -/
def agedSchemas (age : String) : List Schema :=
  [⟨"Family", [⟨"members", "Member[1]"⟩]⟩, ⟨"Member", [⟨"age", age⟩]⟩]

/-- A function takes the size of a family and the family. -/
def agedParams : List Param := [⟨"size", "int"⟩, ⟨"family", "Family"⟩]

/-- The one function that takes these. -/
def agedAbi : Abi := [⟨.function, "enroll", none, agedParams⟩]

/-- A family of one. -/
def agedFamily : Value := .struct none [("members", .array [.struct none [("age", .int 12)]])]

/-- The check comes to the age of the one member. -/
theorem failsAt_agedFamily {age : String} {cause : ContractError}
    (h : Value.FailsAt (agedSchemas age) (.struct "Member") (.struct none [("age", .int 12)])
      ["age"] cause) :
    Param.FailsAt (agedSchemas age) ⟨"family", "Family"⟩ agedFamily ["members", "age"] cause := by
  have hitem : Value.FailsAt (agedSchemas age) (.array (.struct "Member") 1)
      (.array ([] ++ [.struct none [("age", .int 12)]])) ["age"] cause :=
    .item rfl rfl (by simp) h
  have htype : TypeExpr.ofText? "Family" = some (.struct "Family") := by decide +kernel
  refine .unfit htype ?_
  have hcomes : Schema.ComesTo (agedSchemas age) ⟨"Family", [⟨"members", "Member[1]"⟩]⟩ "Family"
      none [("members", .array [.struct none [("age", .int 12)]])] ⟨"members", "Member[1]"⟩ :=
    ⟨rfl, .inl rfl, by simp, [], [], rfl, by simp⟩
  exact .member hcomes rfl (by decide +kernel) hitem

/-- The check of a member comes to its age. -/
theorem comesTo_age (age : String) :
    Schema.ComesTo (agedSchemas age) ⟨"Member", [⟨"age", age⟩]⟩ "Member" none [("age", .int 12)]
      ⟨"age", age⟩ :=
  ⟨rfl, .inl rfl, by simp, [], [], rfl, by simp⟩

/-- An age of the wrong kind is told under `age`, and neither under the member around it nor under
    the argument. The constructor and the function tell it alike. -/
theorem place_of_refused_agedFamily :
    Call.ofConstructor (Template.ofText "$size") agedParams (agedSchemas "bool") .path
        [.int 1, agedFamily]
        = .error (.within "age" (.mistyped (.scalar .bool) "int"))
      ∧ Call.ofFunction agedAbi (agedSchemas "bool") "enroll" [.int 1, agedFamily]
        = .error (.within "age" (.mistyped (.scalar .bool) "int")) := by
  have hfails : Param.FailsAt (agedSchemas "bool") ⟨"family", "Family"⟩ agedFamily
      ["members", "age"] (.mistyped (.scalar .bool) "int") := by
    have hage : Value.FailsAt (agedSchemas "bool") (.scalar .bool) (.int 12) []
        (.mistyped (.scalar .bool) "int") := .mistyped (by decide)
    exact failsAt_agedFamily (.member (comesTo_age "bool") rfl (by decide +kernel) hage)
  have hsize : Param.Accepts (agedSchemas "bool") ⟨"size", "int"⟩ (.int 1) (.int 1) :=
    ⟨.scalar .int, by decide +kernel, rfl⟩
  -- what fails is not accepted, as the check has one result
  have hrefused : ∀ value,
      ¬ Param.Accepts (agedSchemas "bool") ⟨"family", "Family"⟩ agedFamily value := by
    intro value hvalue
    have hchecked := checkArgument_eq_ok_iff.2 hvalue
    rw [checkArgument_of_failsAt hfails] at hchecked
    cases hchecked
  have harity : agedParams.length = [.int 1, agedFamily].length := rfl
  have hpairs : agedParams.zip [.int 1, agedFamily]
      = [(⟨"size", "int"⟩, .int 1)] ++ (⟨"family", "Family"⟩, agedFamily) :: [] := rfl
  obtain ⟨place, error, rfl, -, -, hplace, -, hconstructor, hfunction⟩ :=
    (place_of_refused harity hpairs (by simpa using ⟨_, hsize⟩) hrefused).2 _ _ hfails
  obtain rfl : place = "age" := hplace (by simp)
  exact ⟨hconstructor _ _, hfunction agedAbi "enroll" 0 ⟨.function, "enroll", none, agedParams⟩
    (by decide +kernel) rfl⟩

/-- **The text of a type is not told under the member that has it.** The age has a type that cannot
    be read, and fails there, but the error names the member around it. -/
theorem place_of_malformedAge :
    Param.FailsAt (agedSchemas "int[") ⟨"family", "Family"⟩ agedFamily ["members", "age"]
        (.descriptor (.malformedType "int["))
      ∧ Param.innermost ⟨"family", "Family"⟩ ["members", "age"] = "age"
      ∧ Call.ofConstructor (Template.ofText "$size") agedParams (agedSchemas "int[") .path
          [.int 1, agedFamily]
        = .error (.within "members" (.descriptor (.malformedType "int[")))
      ∧ Call.ofFunction agedAbi (agedSchemas "int[") "enroll" [.int 1, agedFamily]
        = .error (.within "members" (.descriptor (.malformedType "int["))) := by
  refine ⟨failsAt_agedFamily ?_, rfl, by decide +kernel, by decide +kernel⟩
  exact .malformed (comesTo_age "int[") rfl (by decide +kernel)

end ScriptAbi
