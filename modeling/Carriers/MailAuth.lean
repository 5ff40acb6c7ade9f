import Carriers.Store

/-! What the program uses of the mail authentication library: the results of verification, the
resolver behind them, and the signers of a list.  The library's own computations are parameters. -/

namespace Carriers

inductive IpAddr where
  | v4 (address : BitVec 32)
  | v6 (address : BitVec 128)
  deriving DecidableEq

/-- The envelope and the connection of an inbound message. -/
structure Ingress where
  remoteIp : IpAddr
  helo : Text
  mailFrom : Text
  deriving DecidableEq

inductive DkimResult where
  | pass
  | neutral
  | fail
  | permError
  | tempError
  | none
  deriving DecidableEq

inductive DmarcResult where
  | pass
  | fail
  | tempError
  | permError
  | none
  deriving DecidableEq

inductive Dkim2Result where
  | pass
  | fail
  | permError
  | tempError
  | none
  deriving DecidableEq

inductive SpfResult where
  | pass
  | fail
  | softFail
  | neutral
  | tempError
  | permError
  | none
  deriving DecidableEq

/-- The policy that a DMARC record publishes. -/
inductive Policy where
  | none
  | quarantine
  | reject
  | unspecified
  deriving DecidableEq

/-- The alignment of the two identities and the policy of the author's domain. -/
structure DmarcOutput where
  dkimResult : DmarcResult
  spfResult : DmarcResult
  policy : Policy
  deriving DecidableEq

/-- A message that the library could parse. -/
structure AuthenticatedMessage where
  raw : Bytes
  sender : Text
  deriving DecidableEq

/-- The verifications of a resolver, at one moment. -/
structure MessageAuthenticator where
  verifyDkim : AuthenticatedMessage → List DkimResult
  verifyArc : AuthenticatedMessage → DkimResult
  verifySpf : Text → Ingress → SpfResult
  verifyDkim2 : AuthenticatedMessage → Text → Text → Dkim2Result
  verifyDmarc : AuthenticatedMessage → List DkimResult → Text → SpfResult → Dkim2Result → DmarcOutput

/-- The results that an ARC seal records. -/
structure AuthenticationResults where
  hostname : Text
  dkim : List DkimResult
  sender : Text
  spf : SpfResult
  arc : DkimResult
  ingress : Ingress
  deriving DecidableEq

/-- The signers of a list, made from its key files.  Each returns the header fields to prepend.
The signature of a delivery depends on the moment at which it is made. -/
structure Signers where
  sign : Bytes → Except Text Bytes
  sealMessage : AuthenticatedMessage → AuthenticationResults → Except Text Bytes
  signRevised : Nat → Bytes → Bytes → Text → Text → Except Text Bytes

/-- Signers that add no header field. -/
instance : Inhabited Signers := ⟨⟨fun _ => .ok [], fun _ _ => .ok [], fun _ _ _ _ _ => .ok []⟩⟩

end Carriers
