import ScriptAbi.Contract.Run
import ScriptAbi.Proofs.Call.Constructor
import ScriptAbi.Proofs.Call.Function
import ScriptAbi.Proofs.Contract.History

namespace ScriptAbi

/-!
# What is run, and what is reported

Of the runner of a contract nothing is known, so what is said here is what it is asked to run, and
what is made of its answer.

* `Runner.recorded`: a runner that notes what it is asked. `Contract.run_recorded_of_error` and
  `Contract.run_recorded_of_ok`: a run asks nothing, or asks once.
* `runContext`, `Contract.contextFor_afterAll`: the transaction of a run, field by field.
* `RunFailure.LocatedAt`: the place in the source that is known of a failure.
  `Contract.explain_of_locatedAt` and `Contract.explain_eq_message_iff`: the text of a failed run.
* `Contract.Step`, `Contract.session`: a contract is changed and run in turns. By induction along
  the steps, runs leave it what it is (`Contract.session_eq`).
* `Contract.run_of_deploy`: all this of a contract with any history.
-/

variable {m : Type → Type} [Monad m] {runner : Runner m} {files : SourceFiles}

/-! ### What a runner is asked -/

/-- What a runner is asked to run. -/
structure RunRequest where
  unlocking : Script
  locking : Script
  context : SpendContext
  deriving DecidableEq, Repr

/-- The runner that also notes, at the end of a list, what it was asked to run. -/
def Runner.recorded (runner : Runner m) : Runner (StateT (List RunRequest) m) :=
    fun unlocking locking context requests => do
  let outcome ← runner unlocking locking context
  return (outcome, requests ++ [⟨unlocking, locking, context⟩])

/-- A recorded run is the run itself, with what it was asked noted after what was asked before. -/
@[simp] theorem Runner.run_recorded (runner : Runner m) (unlocking locking : Script)
    (context : SpendContext) (requests : List RunRequest) :
    (runner.recorded unlocking locking context).run requests = do
      let outcome ← runner unlocking locking context
      return (outcome, requests ++ [⟨unlocking, locking, context⟩]) := rfl

/-- The transaction that was set last. -/
def lastContext (changes : List Contract.Change) : SpendContext :=
  (changes.filterMap Contract.Change.context?).getLast?.getD .empty

/-- The transaction of a run: what was told for the run, and for the rest what was set last. -/
def runContext (changes : List Contract.Change) (newer : Option SpendContext) : SpendContext where
  tx := (newer.bind (·.tx)).or (lastContext changes).tx
  input := (newer.bind (·.input)).or (lastContext changes).input
  satoshis := (newer.bind (·.satoshis)).or (lastContext changes).satoshis

/-- The place in the source at which a run of the descriptor's script failed, if the descriptor has
    the words of the script and the failure tells how many of them ran. -/
def RunFailure.LocatedAt (failure : RunFailure) (descriptor : Descriptor)
    (location : SourceLocation) : Prop :=
  ∃ words executed, descriptor.sourceWords = some words ∧ failure.executed = some executed
    ∧ SourceWord.locate words executed = some location

namespace Contract

variable {contract : Contract} {unlockingAsm : String} {newer : Option SpendContext}
  {requests : List RunRequest}

/-! ### One run -/

/-- Both scripts are there iff both texts can be read. -/
theorem scriptsFor_eq_ok_iff {unlocking locking : Script} :
    contract.scriptsFor unlockingAsm = .ok (unlocking, locking) ↔
      Script.ofAsm unlockingAsm = .ok unlocking ∧ contract.script = .ok locking := by
  simp only [scriptsFor, bind_eq_ok_iff, mapError_eq_ok_iff]
  constructor
  · rintro ⟨_, hunlocking, _, hlocking, heq⟩
    cases heq
    exact ⟨hunlocking, hlocking⟩
  · rintro ⟨hunlocking, hlocking⟩
    exact ⟨_, hunlocking, _, hlocking, rfl⟩

/-- A malformed unlocking script counts before a malformed script of the contract. -/
theorem scriptsFor_eq_error_iff {e : ContractError} :
    contract.scriptsFor unlockingAsm = .error e ↔
      (∃ fault, Script.ofAsm unlockingAsm = .error fault ∧ .script fault = e)
        ∨ (∃ unlocking, Script.ofAsm unlockingAsm = .ok unlocking)
          ∧ contract.script = .error e := by
  simp only [scriptsFor, bind_eq_error_iff, mapError_eq_error_iff, mapError_eq_ok_iff]
  refine or_congr_right ?_
  constructor
  · rintro ⟨unlocking, hunlocking, hlocking | ⟨_, -, hpure⟩⟩
    · exact ⟨⟨unlocking, hunlocking⟩, hlocking⟩
    · cases hpure
  · rintro ⟨⟨unlocking, hunlocking⟩, hlocking⟩
    exact ⟨unlocking, hunlocking, .inl hlocking⟩

/-- **Where a script is malformed** nothing is run. -/
theorem run_recorded_of_error {e : ContractError}
    (h : contract.scriptsFor unlockingAsm = .error e) :
    (contract.run runner.recorded files unlockingAsm newer).run requests
      = pure (.error e, requests) := by
  rw [Contract.run, h]
  rfl

/-- **Where both scripts are well formed** they are run once, and the outcome is reported. -/
theorem run_recorded_of_ok [LawfulMonad m] {unlocking locking : Script}
    (h : contract.scriptsFor unlockingAsm = .ok (unlocking, locking)) :
    (contract.run runner.recorded files unlockingAsm newer).run requests = do
      let outcome ← runner unlocking locking (contract.contextFor newer)
      return (.ok (contract.report files outcome),
        requests ++ [⟨unlocking, locking, contract.contextFor newer⟩]) := by
  rw [Contract.run, h]
  simp

/-- A run knows what was told for it, and for the rest what the contract knows. -/
theorem contextFor_eq (contract : Contract) (newer : Option SpendContext) :
    contract.contextFor newer =
      { tx := (newer.bind (·.tx)).or contract.context.tx
        input := (newer.bind (·.input)).or contract.context.input
        satoshis := (newer.bind (·.satoshis)).or contract.context.satoshis } := by
  cases newer with
  | none => rfl
  | some newer => rfl

/-! ### The text of a failed run -/

/-- A message with its place is longer than the message. -/
theorem describe_ne_message (location : SourceLocation) (message name : String)
    (line : Option String) : location.describe message name line ≠ message := by
  -- the labels are variables here, as comparing long texts takes long
  have hassoc : ∀ label a b c d e f g i j : String, ∃ rest,
      label ++ message ++ a ++ b ++ c ++ d ++ e ++ f ++ g ++ i ++ j
        = label ++ (message ++ rest) := by
    intro label a b c d e f g i j
    simp only [String.append_assoc]
    exact ⟨_, rfl⟩
  have hdescribe : ∃ rest,
      location.describe message name line = "VerifyError: " ++ (message ++ rest) := hassoc ..
  obtain ⟨rest, hrest⟩ := hdescribe
  intro h
  have hlength := congrArg String.length (hrest.symm.trans h)
  rw [String.length_append, String.length_append] at hlength
  have hlabel : "VerifyError: ".length = 13 := by decide
  omega

/-- **A failure whose place is known** is reported with it. -/
theorem explain_of_locatedAt {failure : RunFailure} {location : SourceLocation}
    (h : failure.LocatedAt contract.descriptor location) :
    contract.explain files failure
      = location.describe failure.message contract.name
          (files.line? location.file location.line.toNat) := by
  obtain ⟨words, executed, hwords, hexecuted, hlocate⟩ := h
  simp [explain, hwords, hexecuted, SourceWord.describe, hlocate]

/-- **A failure is reported with its own message** iff its place is not known. -/
theorem explain_eq_message_iff {failure : RunFailure} :
    contract.explain files failure = failure.message ↔
      ∀ location, ¬ failure.LocatedAt contract.descriptor location := by
  constructor
  · intro h location hlocated
    rw [explain_of_locatedAt hlocated] at h
    exact describe_ne_message _ _ _ _ h
  · intro h
    -- the message stays bare if the words, the executed one or its place is missing
    cases hwords : contract.descriptor.sourceWords with
    | none => simp [explain, hwords]
    | some words =>
      cases hexecuted : failure.executed with
      | none => simp [explain, hwords, hexecuted]
      | some executed =>
        cases hlocate : SourceWord.locate words executed with
        | none => simp [explain, hwords, hexecuted, SourceWord.describe, hlocate]
        | some location => exact absurd ⟨words, executed, hwords, hexecuted, hlocate⟩ (h location)

/-! ### Many runs -/

/-- What is done with a contract: it is changed, or a script or its own constructor's call is run
    against it. -/
inductive Step
  | edit (change : Change)
  | run (unlockingAsm : String) (newer : Option SpendContext)
  | runCreation (newer : Option SpendContext)

/-- The change that a step makes. -/
def Step.change? : Step → Option Change
  | .edit change => some change
  | .run .. | .runCreation .. => none

/-- The contract after a step, with the report if something was run. -/
def perform (runner : Runner m) (files : SourceFiles) (contract : Contract) :
    Step → m (Contract × List (Except ContractError RunReport))
  | .edit change => pure (contract.after change, [])
  | .run unlockingAsm newer => do
    let report ← contract.run runner files unlockingAsm newer
    return (contract, [report])
  | .runCreation newer => do
    let report ← contract.runCall runner files contract.creation newer
    return (contract, [report])

/-- The contract after the steps, with the reports on what was run. -/
def session (runner : Runner m) (files : SourceFiles) :
    Contract → List Step → m (Contract × List (Except ContractError RunReport))
  | contract, [] => pure (contract, [])
  | contract, step :: rest => do
    let (next, reports) ← contract.perform runner files step
    let (last, more) ← session runner files next rest
    return (last, reports ++ more)

/-- **One step** leaves the contract with the change that it makes, whatever is run. -/
theorem perform_eq [LawfulMonad m] (contract : Contract) (step : Step) :
    contract.perform runner files step
      = (fun result => (contract.afterAll step.change?.toList, result.2))
          <$> contract.perform runner files step := by
  cases step with
  | edit change => simp [perform, Step.change?, afterAll]
  | run unlockingAsm newer => simp [perform, Step.change?, afterAll]
  | runCreation newer => simp [perform, Step.change?, afterAll]

/-- **Many steps** leave the contract with the changes that they make, as if nothing was run. -/
theorem session_eq [LawfulMonad m] (contract : Contract) (steps : List Step) :
    session runner files contract steps
      = (fun result => (contract.afterAll (steps.filterMap Step.change?), result.2))
          <$> session runner files contract steps := by
  -- on the steps; a run asks the runner and leaves the contract as it is
  induction steps generalizing contract with
  | nil => simp [session, afterAll]
  | cons step rest ih =>
    have hsplit : (step :: rest).filterMap Step.change?
        = step.change?.toList ++ rest.filterMap Step.change? := by
      simp [List.filterMap_eq_flatMap_toList]
    rw [session, perform_eq, hsplit]
    simp only [bind_map_left, map_bind]
    congr 1
    funext result
    rw [ih]
    simp [afterAll]

/-! ### A deployed contract with any history -/

/-- A deployed contract has the descriptor that it was made of, its creation locks it, and nothing
    is known of a transaction. -/
theorem fields_of_deploy {descriptor : Descriptor} {args : List Value}
    (h : deploy descriptor args = .ok contract) :
    contract.descriptor = descriptor ∧ contract.creation.role = .locking
      ∧ contract.context = .empty := by
  obtain ⟨creation, hcreation, heq⟩ := bind_eq_ok_iff.1 h
  obtain ⟨coder, -, hcall⟩ := bind_eq_ok_iff.1 hcreation
  obtain ⟨-, values, -, -, rfl⟩ := ofConstructor_eq_ok_iff.1 hcall
  cases heq
  exact ⟨rfl, rfl, rfl⟩

/-- After any changes, a run of a deployed contract knows what was told for it, and for the rest
    what was set last. -/
theorem contextFor_afterAll (hcontext : contract.context = .empty) (changes : List Change)
    (newer : Option SpendContext) :
    (contract.afterAll changes).contextFor newer = runContext changes newer := by
  rw [contextFor_eq, afterAll_eq, hcontext]
  rfl

/-- A constructor's call has nothing to run. -/
theorem runCall_recorded_of_locking {call : Call} (hrole : call.role = .locking) :
    (contract.runCall runner.recorded files call newer).run requests
      = pure (.ok (.failure nothingToRun), requests) := by
  rw [runCall, Call.asmFor?, hrole]
  rfl

/-- The call of a function runs its text. -/
theorem runCall_of_functionCall {descriptor : Descriptor} {name : String} {args : List Value}
    {call : Call} (hcall : descriptor.functionCall name args = .ok call) :
    contract.runCall runner files call newer = contract.run runner files call.asm newer := by
  obtain ⟨_, _, _, -, -, -, rfl⟩ := ofFunction_eq_ok_iff.1 hcall
  rfl

/-- **The runner gets the right scripts, and its answer is reported faithfully.** A deployed
    contract is changed and run in any way; runs leave it what it is. Where the unlocking script or
    the contract's own is malformed, that is the error of a run, and the runner is not asked.
    Otherwise it is asked once, with the two scripts and a transaction that has each field from what
    was told for the run or else from what was set last. Success is reported iff the runner
    succeeds, a failure with its place in the source iff that is known, and else with its own
    message. The call of a function runs its text; that of the constructor has nothing to run. -/
theorem run_of_deploy [LawfulMonad m] {descriptor : Descriptor} {args : List Value}
    (hdeploy : deploy descriptor args = .ok contract) (runner : Runner m) (files : SourceFiles)
    (steps : List Step) (newer : Option SpendContext) (requests : List RunRequest) :
    let changes := steps.filterMap Step.change?
    let current := contract.afterAll changes
    session runner files contract steps
        = (fun result => (current, result.2)) <$> session runner files contract steps
      ∧ (∀ unlockingAsm fault, Script.ofAsm unlockingAsm = .error fault →
        (current.run runner.recorded files unlockingAsm newer).run requests
          = pure (.error (.script fault), requests))
      ∧ (∀ unlockingAsm unlocking fault, Script.ofAsm unlockingAsm = .ok unlocking →
        current.script = .error fault →
        (current.run runner.recorded files unlockingAsm newer).run requests
          = pure (.error fault, requests))
      ∧ (∀ unlockingAsm unlocking locking, Script.ofAsm unlockingAsm = .ok unlocking →
        current.script = .ok locking →
        (current.run runner.recorded files unlockingAsm newer).run requests = do
          let outcome ← runner unlocking locking (runContext changes newer)
          return (.ok (current.report files outcome),
            requests ++ [⟨unlocking, locking, runContext changes newer⟩]))
      ∧ (∀ outcome, current.report files outcome = .success ↔ outcome = .ok ())
      ∧ (∀ failure location, failure.LocatedAt descriptor location →
        current.report files (.error failure) = .failure (location.describe failure.message
          descriptor.name (files.line? location.file location.line.toNat)))
      ∧ (∀ failure, current.report files (.error failure) = .failure failure.message ↔
        ∀ location, ¬ failure.LocatedAt descriptor location)
      ∧ (∀ name args call, descriptor.functionCall name args = .ok call →
        current.runCall runner files call newer = current.run runner files call.asm newer)
      ∧ (current.runCall runner.recorded files current.creation newer).run requests
        = pure (.ok (.failure nothingToRun), requests) := by
  intro changes current
  obtain ⟨hdescriptor, hrole, hcontext⟩ := fields_of_deploy hdeploy
  -- no change touches the descriptor or the role of the creation
  have hcurrent : current.descriptor = descriptor ∧ current.creation.role = .locking := by
    simp only [current, afterAll_eq]
    exact ⟨hdescriptor, hrole⟩
  have hknown : current.contextFor newer = runContext changes newer :=
    contextFor_afterAll hcontext changes newer
  -- the session, three ways for a run to go, three for its report, and the two kinds of call
  refine ⟨session_eq contract steps, ?_, ?_, ?_, ?_, ?_, ?_, ?_, ?_⟩
  · intro unlockingAsm fault hfault
    exact run_recorded_of_error (scriptsFor_eq_error_iff.2 (.inl ⟨fault, hfault, rfl⟩))
  · intro unlockingAsm unlocking fault hunlocking hlocking
    exact run_recorded_of_error (scriptsFor_eq_error_iff.2 (.inr ⟨⟨_, hunlocking⟩, hlocking⟩))
  · intro unlockingAsm unlocking locking hunlocking hlocking
    rw [run_recorded_of_ok (scriptsFor_eq_ok_iff.2 ⟨hunlocking, hlocking⟩), hknown]
  · intro outcome
    cases outcome with
    | ok => simp [report]
    | error failure => simp [report]
  · intro failure location hlocated
    rw [report, explain_of_locatedAt (hcurrent.1 ▸ hlocated), name, hcurrent.1]
  · intro failure
    rw [report, RunReport.failure.injEq, explain_eq_message_iff, hcurrent.1]
  · intro name args call hcall
    exact runCall_of_functionCall hcall
  · exact runCall_recorded_of_locking hcurrent.2

/-! A contract with a placeholder, run before it is filled and after, by a runner that fails. -/

/-- A contract whose third word failed; only the first one has a place in the source. -/
def saltedDescriptor : Descriptor where
  compiler := ""
  name := "Salted"
  digest := ""
  schemas := []
  abi := []
  asm := "OP_1 $salt OP_EQUAL"
  sourceWords := some
    [⟨some "salted", some 2, "OP_1"⟩, ⟨none, none, "6a"⟩, ⟨none, none, "OP_EQUAL"⟩]
  slotVersion := 1

/-- The contract as it is deployed. -/
def salted : Contract where
  descriptor := saltedDescriptor
  creation := ⟨constructorName, [], .locking, "OP_1 $salt OP_EQUAL"⟩
  data := none
  context := .empty

/-- A run that comes too early, a transaction, and the placeholder filled. -/
def saltedSteps : List Step :=
  [.run "6a" none, .edit (.setContext ⟨some [0x01], some 0, some 5000⟩),
    .edit (.fill fun slot => if slot = "salt" then some "6a" else none)]

/-- Fails at the third word. -/
def failingRunner : Runner Id := fun _ _ _ => .error ⟨"EVAL_FALSE", some 3⟩

/-- One file, which has `x` with a tab before it on its second line. -/
def saltedFiles : SourceFiles := fun file =>
  if file = "salted" then some [0x7b, 0x0a, 0x09, 0x78, 0x0a] else none

/-- The early run stops at the placeholder and asks the runner nothing. The later one is reported
    with the source line of the first word, and the runner is asked once, with the transaction of
    the contract and the input of the run. -/
theorem run_of_deploy_salted :
    deploy saltedDescriptor [] = .ok salted
      ∧ (salted.run failingRunner.recorded saltedFiles "6a" none).run []
        = pure (.error (.script (.openPlaceholder "$salt")), [])
      ∧ ((salted.afterAll (saltedSteps.filterMap Step.change?)).run failingRunner.recorded
          saltedFiles "6a" (some ⟨none, some 1, none⟩)).run []
        = pure (.ok (.failure
              "VerifyError: EVAL_FALSE on contract:Salted line:2:x opcode:OP_EQUAL\n"),
            [⟨[.push .direct [0x6a]], [.op 0x51, .push .direct [0x6a], .op 0x87],
              ⟨some [0x01], some 1, some 5000⟩⟩]) := by
  have hcreation : saltedDescriptor.constructorCall [] = .ok salted.creation := by decide +kernel
  have hdeploy : deploy saltedDescriptor [] = .ok salted :=
    bind_eq_ok_iff.2 ⟨_, hcreation, rfl⟩
  obtain ⟨-, -, hearly, -⟩ := run_of_deploy hdeploy failingRunner saltedFiles [] none []
  obtain ⟨-, -, -, hrun, -, hplace, -⟩ := run_of_deploy hdeploy failingRunner saltedFiles
    saltedSteps (some ⟨none, some 1, none⟩) []
  -- the third word borrows the place of the first one
  have hlocated : RunFailure.LocatedAt ⟨"EVAL_FALSE", some 3⟩ saltedDescriptor
      ⟨"salted", 2, "OP_EQUAL"⟩ := ⟨_, 3, rfl, rfl, by decide +kernel⟩
  have htext : SourceLocation.describe ⟨"salted", 2, "OP_EQUAL"⟩ "EVAL_FALSE" "Salted"
        (saltedFiles.line? "salted" 2)
      = "VerifyError: EVAL_FALSE on contract:Salted line:2:x opcode:OP_EQUAL\n" := by
    decide +kernel
  have hreport := (hplace _ _ hlocated).trans (congrArg RunReport.failure htext)
  have hcontext : runContext (saltedSteps.filterMap Step.change?) (some ⟨none, some 1, none⟩)
      = ⟨some [0x01], some 1, some 5000⟩ := by
    decide +kernel
  refine ⟨hdeploy, hearly "6a" [.push .direct [0x6a]] _ (by decide +kernel) (by decide +kernel), ?_⟩
  rw [hrun "6a" [.push .direct [0x6a]] [.op 0x51, .push .direct [0x6a], .op 0x87]
    (by decide +kernel) (by decide +kernel), hcontext, ← hreport]
  rfl

end Contract

end ScriptAbi
