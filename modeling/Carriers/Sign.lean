import Carriers.BuiltinPolicies
import Carriers.MailingList

/-! Inbound authentication, and the signing and sealing of outgoing messages. -/

namespace Carriers

open ProofKit

/-- What inbound authentication found, as the scripts are told. -/
structure AuthVerdict where
  dmarcPass : Bool
  dmarcPolicy : Text
  dkimResult : Text
  spfResult : Text
  dkim1Result : Text
  dkim2Result : Text
  deriving DecidableEq

def AuthVerdict.envPairs (verdict : AuthVerdict) : List (Text × Text) :=
  [(envDmarcPass, if verdict.dmarcPass then "yes".toList else "no".toList),
    (envDmarcPolicy, verdict.dmarcPolicy),
    (envDkimResult, verdict.dkimResult),
    (envSpfResult, verdict.spfResult),
    (envDkim1Result, verdict.dkim1Result),
    (envDkim2Result, verdict.dkim2Result)]

def dmarcResultStr : DmarcResult → Text
  | .pass => "pass".toList
  | .fail => "fail".toList
  | .tempError => "temperror".toList
  | .permError => "permerror".toList
  | .none => "none".toList

/-- The best of the results of all signatures. -/
def dkim1ResultStr (results : List DkimResult) : Text :=
  if .pass ∈ results then "pass".toList
  else if .fail ∈ results then "fail".toList
  else if .tempError ∈ results then "temperror".toList
  else if .permError ∈ results then "permerror".toList
  else if .neutral ∈ results then "neutral".toList
  else "none".toList

def dkim2ResultStr : Dkim2Result → Text
  | .pass => "pass".toList
  | .fail => "fail".toList
  | .tempError => "temperror".toList
  | .permError => "permerror".toList
  | .none => "none".toList

def policyStr : Policy → Text
  | .none | .unspecified => "none".toList
  | .quarantine => "quarantine".toList
  | .reject => "reject".toList

/-- The part of an address after its last `@`, or all of it. -/
def domainOf (address : Text) : Text := (rsplitOnce '@' address).elim address Prod.snd

section
variable (parse : Bytes → Option AuthenticatedMessage) (authenticator : MessageAuthenticator)
  (hostname : Text) (list : MailingList) (ingress : Ingress)

/-- The verdict on an inbound message. -/
def evaluateDmarc (raw : Bytes) : Except Error AuthVerdict :=
  match parse raw with
  | none => .error (.auth "failed to parse inbound message".toList)
  | some message =>
    let dkim := authenticator.verifyDkim message
    let spf := authenticator.verifySpf hostname ingress
    let dkim2 := authenticator.verifyDkim2 message ingress.mailFrom list.cfg.postingAddress
    let dmarc := authenticator.verifyDmarc message dkim (domainOf ingress.mailFrom) spf dkim2
    let dkimResult := dmarcResultStr dmarc.dkimResult
    let spfResult := dmarcResultStr dmarc.spfResult
    .ok {
      dmarcPass := dkimResult = "pass".toList || spfResult = "pass".toList
      dmarcPolicy := policyStr dmarc.policy
      dkimResult
      spfResult
      dkim1Result := dkim1ResultStr dkim
      dkim2Result := dkim2ResultStr dkim2 }

/-- The ARC set over `augmented`, with what was observed of `original`. -/
def sealHeader (original augmented : Bytes) : Except Error Bytes :=
  match parse augmented with
  | none => .error (.auth "failed to parse outbound message".toList)
  | some message =>
    match parse original with
    | none => .error (.auth "failed to parse inbound message".toList)
    | some ingressMessage =>
      let results : AuthenticationResults :=
        { hostname
          dkim := authenticator.verifyDkim ingressMessage
          sender := ingressMessage.sender
          spf := authenticator.verifySpf hostname ingress
          arc := authenticator.verifyArc ingressMessage
          ingress }
      (list.signers.sealMessage message results).mapError fun e =>
        .auth ("ARC seal failed: ".toList ++ e)

/-- The list's own signature, unless it is withheld. -/
def ownSignature (augmented : Bytes) (skipOwnDkim : Bool) : Except Error Bytes :=
  if skipOwnDkim then .ok []
  else (list.signers.sign augmented).mapError fun e =>
    .auth ("DKIM signing failed: ".toList ++ e)

def signAndSeal (original augmented : Bytes) (skipOwnDkim : Bool) : Except Error Bytes := do
  let arcSet ← sealHeader parse authenticator hostname list ingress original augmented
  let signature ← ownSignature list augmented skipOwnDkim
  return arcSet ++ signature ++ augmented

end

/-- Whether deliveries extend the DKIM2 chain that the message came with. -/
def shouldSignDkim2 (verdict : AuthVerdict) (noOwnDkim : Bool) : Bool :=
  !noOwnDkim && verdict.dkim2Result ≠ "none".toList

/-- A message with the link of the DKIM2 chain for one delivery. -/
def signDkim2ForDelivery (list : MailingList) (moment : Nat) (original message : Bytes)
    (mailFrom rcptTo : Text) : Except Error Bytes :=
  match list.signers.signRevised moment original message mailFrom rcptTo with
  | .error e => .error (.auth ("DKIM2 signing failed: ".toList ++ e))
  | .ok signed => .ok (signed ++ message)

end Carriers
