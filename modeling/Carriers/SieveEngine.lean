import Carriers.ProofKit.Sieve
import Carriers.Store

/-! Running a Sieve script against a message: the answers to its events, and the action it took. -/

namespace Carriers

open ProofKit
open ProofKit.Sieve (Event Instance Script)

/-- The external lists of `:list` tests. -/
abbrev ExternalLists := Text → Text → Bool

/-- Answers the `duplicate` test: whether an identifier has been seen, from now on counting it as
seen. -/
abbrev DuplicateStore (σ : Type) := Text → Nat → Proc σ Error Bool

/-- Records nothing and reports no duplicate. -/
def noDuplicates {σ : Type} : DuplicateStore σ := fun _ _ => pure false

inductive SieveOutcome where
  | keep
  | discard
  | reject (reason : Text)
  deriving DecidableEq

/-- The result of a script: its terminal action, the message if the script edited it, and the
folders it filed into, in order. -/
structure SieveRun where
  outcome : SieveOutcome
  message : Option Bytes
  filedInto : List Text
  deriving DecidableEq

/-- What a script has done so far. -/
structure SieveProgress where
  outcome : Option SieveOutcome := none
  message : Option Bytes := none
  filedInto : List Text := []

def SieveProgress.finish (progress : SieveProgress) : SieveRun :=
  { outcome := progress.outcome.getD .keep
    message := progress.message
    filedInto := progress.filedInto }

/-- The first terminal action stands. -/
def SieveProgress.decide (progress : SieveProgress) (outcome : SieveOutcome) : SieveProgress :=
  { progress with outcome := some (progress.outcome.getD outcome) }

section
variable {σ : Type} (name : Text) (lists : ExternalLists) (duplicates : DuplicateStore σ)

def runtimeError (error : Text) : Error :=
  .auth ("Sieve script `".toList ++ name ++ "` runtime error: ".toList ++ error)

def includeError : Error :=
  .config ("Sieve script `".toList ++ name ++ "` uses unsupported script includes".toList)

/-- The answer to one event, and the progress after it. -/
def answerEvent (progress : SieveProgress) : Event → Proc σ Error (Bool × SieveProgress)
  | .listContains names values =>
    pure (names.any fun list => values.any fun value => lists list value, progress)
  | .duplicateId id expiry => do
    let seen ← duplicates id expiry
    return (seen, progress)
  | .mailboxExists => pure (false, progress)
  | .includeScript isOptional =>
    if isOptional then pure (false, progress) else .throw (includeError name)
  | .createdMessage message => pure (true, { progress with message := some message })
  | .discard => pure (true, progress.decide .discard)
  | .reject reason => pure (true, progress.decide (.reject reason))
  | .fileInto folder =>
    pure (true, { progress with filedInto := progress.filedInto ++ [folder] })
  | .other => pure (true, progress)

def runInstance (progress : SieveProgress) : Instance → Proc σ Error SieveRun
  | .finish => pure progress.finish
  | .fail error => .throw (runtimeError name error)
  | .emit event next => do
    let (answer, progress) ← answerEvent name lists duplicates progress event
    runInstance progress (next answer)

/-- Runs `script` against the message `raw`. -/
def runSieve (script : Script) (raw : Bytes) (mailFrom : Text) (env : List (Text × Text)) :
    Proc σ Error SieveRun :=
  runInstance name lists duplicates {}
    (script { message := raw, mailFrom := if mailFrom = [] then none else some mailFrom, env, lists })

variable {name lists duplicates}

/-- A script changes the state only by asking for duplicates. -/
theorem runInstance_within {R : σ → σ → Prop}
    (h : ∀ id expiry, (duplicates id expiry).Within R) (progress : SieveProgress)
    (script : Instance) : (runInstance name lists duplicates progress script).Within R := by
  induction script generalizing progress with
  | finish => trivial
  | fail error => trivial
  | emit event next ih =>
    refine Proc.Within.bind ?_ fun answer => ih answer.1 answer.2
    cases event with
    | duplicateId id expiry => exact (h id expiry).bind fun _ => Proc.within_pure _
    | includeScript isOptional => cases isOptional <;> trivial
    | _ => trivial

end

end Carriers
