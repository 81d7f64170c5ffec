import ScriptAbi.Contract.Basic

namespace ScriptAbi

/-!
# Running contracts

Running scripts is left to a runner, which can be anything that takes two scripts and a
transaction; what else it does is up to its monad.

* `Runner`: it succeeds, or fails with a message and maybe with the number of words that it ran.
* `Contract.run`: an unlocking script against the script of a contract.
* `Contract.runCall`: the same for a call.
-/

/-- Why a run failed. -/
structure RunFailure where
  message : String
  /-- The number of words that ran, the failing one counted. -/
  executed : Option Nat
  deriving DecidableEq, Repr

/-- Runs an unlocking script and a locking script against a transaction. -/
abbrev Runner (m : Type → Type) :=
  (unlocking locking : Script) → SpendContext → m (Except RunFailure Unit)

/-- What is reported of a run. -/
inductive RunReport
  | success
  | failure (error : String)
  deriving DecidableEq, Repr

/-- What is reported if a call has no unlocking script. -/
def nothingToRun : String := "verification failed, missing unlockingScript"

namespace Contract

/-- What is reported of a failed run: its message, with the place in the source if the descriptor
    and the failure tell it. -/
def explain (contract : Contract) (files : SourceFiles) (failure : RunFailure) : String :=
  let described := do
    let words ← contract.descriptor.sourceWords
    let executed ← failure.executed
    SourceWord.describe files contract.name words executed failure.message
  described.getD failure.message

/-- The report on a run. -/
def report (contract : Contract) (files : SourceFiles) : Except RunFailure Unit → RunReport
  | .ok _ => .success
  | .error failure => .failure (contract.explain files failure)

/-- The transaction of a run that may know more about it than the contract does. -/
def contextFor (contract : Contract) (newer : Option SpendContext) : SpendContext :=
  match newer with
  | some newer => contract.context.merge newer
  | none => contract.context

/-- The two scripts of a run. -/
def scriptsFor (contract : Contract) (unlockingAsm : String) :
    Except ContractError (Script × Script) := do
  let unlocking ← (Script.ofAsm unlockingAsm).mapError .script
  let locking ← contract.script
  return (unlocking, locking)

variable {m : Type → Type} [Monad m]

/-- Runs an unlocking script against the contract. If a script is malformed, nothing is run. -/
def run (contract : Contract) (runner : Runner m) (files : SourceFiles) (unlockingAsm : String)
    (newer : Option SpendContext) : m (Except ContractError RunReport) :=
  match contract.scriptsFor unlockingAsm with
  | .error error => pure (.error error)
  | .ok (unlocking, locking) => do
    let outcome ← runner unlocking locking (contract.contextFor newer)
    return .ok (contract.report files outcome)

/-- Runs a call against the contract. A constructor's call has nothing to run. -/
def runCall (contract : Contract) (runner : Runner m) (files : SourceFiles) (call : Call)
    (newer : Option SpendContext) : m (Except ContractError RunReport) :=
  match call.asmFor? .unlocking with
  | some asm => contract.run runner files asm newer
  | none => pure (.ok (.failure nothingToRun))

end Contract

end ScriptAbi
