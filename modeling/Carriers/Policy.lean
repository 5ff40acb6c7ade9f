import Carriers.BuiltinPolicies
import Carriers.Lists
import Carriers.SieveEngine

/-! Policies: the decision that a Sieve script reaches for a post, the chain of scripts before and
after a list's own policy, and the checks and header edits of the built-in scripts. -/

namespace Carriers

open ProofKit
open ProofKit.Sieve (MailView Script)

inductive PolicyDecision where
  | approve
  | moderate
  | discard
  | reject (reason : Text)
  deriving DecidableEq

/-- What the policy tiers decided, and the side effects that any of them requested. -/
structure PolicyOutcome where
  decision : PolicyDecision
  archive : Bool
  noOwnDkim : Bool
  mungeFrom : Bool
  deriving DecidableEq

/-- The members of a list by role, in the spelling of the database. -/
structure MembershipSets where
  subscribers : Finset Text
  posters : Finset Text
  moderators : Finset Text

def MembershipSets.contains (sets : MembershipSets) : ExternalLists := fun list value =>
  if list = "subscribers".toList then asciiLower value ∈ sets.subscribers
  else if list = "posters".toList then asciiLower value ∈ sets.posters
  else if list = "moderators".toList then asciiLower value ∈ sets.moderators
  else false

def noLists : ExternalLists := fun _ _ => false

/-- The drop-in scripts of one domain. -/
structure DomainScripts (S : Type) where
  before : List S := []
  after : List S := []

/-- The compiled scripts: those built in, the named policies and the drop-ins around them. -/
structure PolicyEngine (S : Type) where
  loopCheck : S
  duplicateCheck : S
  listHeaders : S
  dmarcBeforeGate : S
  dmarcAfterGate : S
  mungeFromScript : S
  subjectPrefixScript : S
  policies : AList fun _ : Text => S
  globalBefore : List S := []
  globalAfter : List S := []
  domains : AList fun _ : Text => DomainScripts S := ∅

/-! ### Outcomes -/

def eqIgnoreAsciiCase (a b : Text) : Bool := asciiLower a = asciiLower b

def isModerateFolder (folder : Text) : Bool :=
  ["moderate".toList, "moderation".toList, "hold".toList].any (eqIgnoreAsciiCase folder)

def isArchiveFolder (folder : Text) : Bool := eqIgnoreAsciiCase folder "archive".toList

def isNoDkimFolder (folder : Text) : Bool := eqIgnoreAsciiCase folder "no-dkim".toList

def isMungeFromFolder (folder : Text) : Bool := eqIgnoreAsciiCase folder "munge-from".toList

def outcomeFromRun (run : SieveRun) : PolicyOutcome :=
  { decision :=
      match run.outcome with
      | .discard => .discard
      | .reject reason => .reject reason
      | .keep => if run.filedInto.any isModerateFolder then .moderate else .approve
    archive := run.filedInto.any isArchiveFolder
    noOwnDkim := run.filedInto.any isNoDkimFolder
    mungeFrom := run.filedInto.any isMungeFromFolder }

def isTerminal : PolicyDecision → Bool
  | .discard | .reject _ => true
  | .approve | .moderate => false

/-- A tier that approves carries the decision so far through. -/
def merge (soFar tier : PolicyDecision) : PolicyDecision :=
  match tier with
  | .approve => soFar
  | other => other

/-- The decision reached so far, and the side effects requested so far. -/
structure Accumulator where
  decision : PolicyDecision := .approve
  archive : Bool := false
  noOwnDkim : Bool := false
  mungeFrom : Bool := false
  deriving DecidableEq

def Accumulator.merge (acc : Accumulator) (out : PolicyOutcome) : Accumulator :=
  { archive := acc.archive || out.archive
    noOwnDkim := acc.noOwnDkim || out.noOwnDkim
    mungeFrom := acc.mungeFrom || out.mungeFrom
    decision := Carriers.merge acc.decision out.decision }

def Accumulator.intoOutcome (acc : Accumulator) : PolicyOutcome :=
  { decision := acc.decision
    archive := acc.archive
    noOwnDkim := acc.noOwnDkim
    mungeFrom := acc.mungeFrom }

/-! ### The chain -/

namespace PolicyEngine

section Chain

variable {S σ : Type} (tier : Text → S → Proc σ Error PolicyOutcome)

/-- Runs the scripts in order until one of them is terminal. -/
def runScripts (tierName : Text) : List S → Accumulator → Proc σ Error Accumulator
  | [], acc => pure acc
  | script :: scripts, acc =>
    if isTerminal acc.decision then pure acc
    else do
      let out ← tier tierName script
      runScripts tierName scripts (acc.merge out)

/-- The named policy. -/
def evaluate (engine : PolicyEngine S) (name : Text) : Proc σ Error PolicyOutcome :=
  match engine.policies.lookup name with
  | none => .throw (.config ("unknown policy `".toList ++ name ++ "`".toList))
  | some script => tier name script

def domainScripts (engine : PolicyEngine S) (domain : Text) : DomainScripts S :=
  (engine.domains.lookup domain).getD {}

/-- The chain before moderation: the gate, the drop-ins, and the list's own policy while the
decision is still to approve. -/
def evaluateBefore (engine : PolicyEngine S) (policyName domain : Text) :
    Proc σ Error PolicyOutcome := do
  let acc ← runScripts tier "dmarc-before".toList [engine.dmarcBeforeGate] {}
  let acc ← runScripts tier "global-before".toList engine.globalBefore acc
  let acc ← runScripts tier "domain-before".toList (engine.domainScripts domain).before acc
  if acc.decision = .approve then do
    let out ← engine.evaluate tier policyName
    return (acc.merge out).intoOutcome
  else return acc.intoOutcome

/-- The chain after moderation. -/
def evaluateAfter (engine : PolicyEngine S) (domain : Text) : Proc σ Error PolicyOutcome := do
  let acc ← runScripts tier "dmarc-after".toList [engine.dmarcAfterGate] {}
  let acc ← runScripts tier "domain-after".toList (engine.domainScripts domain).after acc
  let acc ← runScripts tier "global-after".toList engine.globalAfter acc
  return acc.intoOutcome

end Chain

/-! ### Scripts on a post -/

/-- A post to a list, as scripts see it. -/
structure Post where
  listName : Text
  listId : Text
  mailFrom : Text
  raw : Bytes

section Post

variable {σ : Type}

def runScript (post : Post) (name : Text) (script : Script) (lists : ExternalLists)
    (duplicates : DuplicateStore σ) (extraEnv : List (Text × Text)) : Proc σ Error SieveRun :=
  runSieve name lists duplicates script post.raw post.mailFrom
    ((envList, post.listName) :: (envListId, post.listId) :: extraEnv)

/-- One tier of the chain.  A stray `duplicate` test of a policy script matches nothing. -/
def runTier (post : Post) (sets : MembershipSets) (extraEnv : List (Text × Text)) (name : Text)
    (script : Script) : Proc σ Error PolicyOutcome := do
  let run ← runScript post name script sets.contains noDuplicates extraEnv
  return outcomeFromRun run

variable (engine : PolicyEngine Script)

/-- Whether the post comes back to the list that distributed it. -/
def checkLoop (post : Post) : Proc σ Error Bool := do
  let run ← runScript post "loop".toList engine.loopCheck noLists noDuplicates []
  return run.outcome = .discard

/-- Whether the list has seen the Message-ID of the post. -/
def checkDuplicate (post : Post) (duplicates : DuplicateStore σ) : Proc σ Error Bool := do
  let run ← runScript post "duplicate".toList engine.duplicateCheck noLists duplicates []
  return run.outcome = .discard

/-- The message as a script has edited it, or unchanged. -/
def applyScript (name : Text) (script : Script) (listName listId : Text)
    (env : List (Text × Text)) (raw : Bytes) : Proc σ Error Bytes := do
  let run ← runScript { listName, listId, mailFrom := [], raw } name script noLists noDuplicates env
  return run.message.getD raw

def applyListHeaders : Text → Text → List (Text × Text) → Bytes → Proc σ Error Bytes :=
  applyScript "list-headers".toList engine.listHeaders

def applyMungeFrom : Text → Text → List (Text × Text) → Bytes → Proc σ Error Bytes :=
  applyScript "munge-from".toList engine.mungeFromScript

def applySubjectPrefix : Text → Text → List (Text × Text) → Bytes → Proc σ Error Bytes :=
  applyScript "subject-prefix".toList engine.subjectPrefixScript

end Post

end PolicyEngine

/-- A post to a list, as the scripts see it. -/
def MailingList.post (list : MailingList) (mailFrom : Text) (raw : Bytes) : PolicyEngine.Post :=
  { listName := list.name, listId := list.listId, mailFrom, raw }

end Carriers
