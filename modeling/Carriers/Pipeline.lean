import Carriers.PolicyLoad
import Carriers.Sign
import Carriers.Transform
import Carriers.Config
import Carriers.ProofKit.Utf8

/-! The processing of a post: checks, moderation, transformation and signing. -/

namespace Carriers

open ProofKit
open ProofKit.Sieve (MailView Script)

/-- The libraries that the program calls for pure results. -/
structure Libraries where
  parse : MessageParser
  parseAuthenticated : Bytes → Option AuthenticatedMessage
  ipText : IpAddr → Text

/-- What the world outside the program does during one run: whether the database, the archive and
the smarthost fail, and what the resolver answers.  The smarthost may accept a connection in plain
text and refuse one that is encrypted, and it answers for each copy by its place in the order. -/
structure Outside where
  db : Stage → Statement → Option Text
  authenticator : Stage → MessageAuthenticator
  sealAuthenticator : MessageAuthenticator
  archiveWorks : Stage → Bool
  hostnameFault : Option Text
  connects : Bool → Bool
  accepts : Nat → Bool

/-- A message that is ready for distribution. -/
structure Prepared where
  message : Bytes
  recipients : List Text
  returnPathLocal : Text
  listDomain : Text
  dkim2Original : Option Bytes
  deriving DecidableEq

/-- What becomes of a post. -/
inductive Disposition where
  | distribute (prepared : Prepared)
  | held (id : Nat)
  | discarded (reason : Text)
  | rejected (reason : Text)
  deriving DecidableEq

/-- The address of the first author, in lower case. -/
def fromAddress (message : Message) : Option Text :=
  (message.fromMailboxes.head?.bind Mailbox.address).map asciiLower

/-- The roles of members, each from its own flag. -/
def setsOf (members : List Member) : MembershipSets :=
  let role (has : Member → Bool) := ((members.filter has).map Member.address).toFinset
  { subscribers := role fun member => member.subscribed
    posters := role fun member => member.poster
    moderators := role fun member => member.moderator }

/-- What every run of the pipeline is given. -/
structure Pipeline where
  libs : Libraries
  outside : Outside
  policy : PolicyEngine Script
  hostname : Text
  archiveDir : Option Text

namespace Pipeline

variable (p : Pipeline) (list : MailingList) (ingress : Ingress) (raw : Bytes)

def membershipSets (stage : Stage) : Proc World Error MembershipSets := do
  let members ←
    sql (p.outside.db stage .allMembers) fun store => (store.allMembers list.name, store)
  return setsOf members

variable {p list} in
theorem run_membershipSets_ok {stage : Stage} {world after : World} {sets : MembershipSets}
    (run : (p.membershipSets list stage).run world = (.ok sets, after)) :
    sets = setsOf (world.store.allMembers list.name) := by
  unfold membershipSets at run
  obtain ⟨members, mid, query, run⟩ := Proc.run_bind_ok.mp run
  cases run
  rw [(run_sql_ok query).1]

/-- The verdict on the post at a stage. -/
def verdict (stage : Stage) : Except Error AuthVerdict :=
  evaluateDmarc p.libs.parseAuthenticated (p.outside.authenticator stage) p.hostname list ingress raw

/-- Files the message into the archive.  A failure is logged and goes no further. -/
def archiveMessage (stage : Stage) : Proc World Error Unit :=
  if p.archiveDir.isSome && p.outside.archiveWorks stage then
    Proc.transact fun world =>
      ((), { world with archive := world.archive ++ [{ list := list.name, raw }] })
  else pure ()

/-- Archives the message if a tier has asked for it. -/
def archiveIf (requested : Bool) (stage : Stage) : Proc World Error Unit :=
  if requested then p.archiveMessage list raw stage else pure ()

/-- Puts the post into the moderation queue. -/
def hold (stage : Stage) (sender subject : Option Text) : Proc World Error Disposition := do
  let id ← sql (p.outside.db stage .enqueueHeld)
    (Store.enqueueHeld list.name ingress.mailFrom ingress.helo (p.libs.ipText ingress.remoteIp)
      sender subject raw)
  return .held id

/-- The message that goes out, before it is signed. -/
def transform (mungeRequested : Bool) : Proc World Error Bytes := do
  let munged ←
    if mungeRequested then
      p.policy.applyMungeFrom list.name list.listId (mungeFromEnv p.libs.parse list raw) raw
    else pure raw
  let prefixed ←
    match subjectPrefixEnv list with
    | some env => p.policy.applySubjectPrefix list.name list.listId env munged
    | none => pure munged
  p.policy.applyListHeaders list.name list.listId (listHeaderEnv list) prefixed

/-- The message and the recipients of a post that the chain approved. -/
def prepare (verdict : AuthVerdict) (outcome : PolicyOutcome) : Proc World Error Prepared := do
  let recipients ← sql (p.outside.db .finalize .subscribers) fun store =>
    (store.subscribers list.name, store)
  let augmented ← p.transform list raw outcome.mungeFrom
  let message ← Proc.ofExcept (signAndSeal p.libs.parseAuthenticated p.outside.sealAuthenticator
    p.hostname list ingress raw augmented outcome.noOwnDkim)
  return {
    message
    recipients
    returnPathLocal := list.returnPathLocal
    listDomain := list.domain
    dkim2Original := if shouldSignDkim2 verdict outcome.noOwnDkim then some raw else none }

/-- The chain after moderation and what follows from it: the last stop before delivery. -/
def finalize : Proc World Error Disposition := do
  let sets ← p.membershipSets list .finalize
  let verdict ← Proc.ofExcept (p.verdict list ingress raw .finalize)
  let outcome ← p.policy.evaluateAfter
    (PolicyEngine.runTier (list.post ingress.mailFrom raw) sets verdict.envPairs) list.domain
  p.archiveIf list raw outcome.archive .finalize
  match outcome.decision with
  | .approve => do
    let prepared ← p.prepare list ingress raw verdict outcome
    return .distribute prepared
  | .moderate =>
    let parsed := p.libs.parse raw
    p.hold list ingress raw .finalize (parsed.bind fromAddress) (parsed.bind Message.subject)
  | .discard => return .discarded "discarded by after-policy".toList
  | .reject reason => return .rejected reason

/-- Answers the duplicate check from the Message-IDs that the list has seen. -/
def storeDuplicates : DuplicateStore World := fun id _ => do
  let new ← sql (p.outside.db .intake .recordMessage) (Store.recordMessage list.name id)
  return !new

/-- The chain before moderation and what follows from it, for a post that is no loop and no
duplicate. -/
def moderate (parsed : Message) : Proc World Error Disposition := do
  let sets ← p.membershipSets list .intake
  let verdict ← Proc.ofExcept (p.verdict list ingress raw .intake)
  let outcome ← p.policy.evaluateBefore
    (PolicyEngine.runTier (list.post ingress.mailFrom raw) sets verdict.envPairs) list.cfg.policy
    list.domain
  p.archiveIf list raw outcome.archive .intake
  match outcome.decision with
  | .approve => p.finalize list ingress raw
  | .moderate => p.hold list ingress raw .intake (fromAddress parsed) parsed.subject
  | .discard => return .discarded "discarded by policy".toList
  | .reject reason => return .rejected reason

/-- The way of an inbound post: loops and duplicates are discarded, the rest is moderated. -/
def intake : Proc World Error Disposition :=
  match p.libs.parse raw with
  | none => .throw (.unparseable "failed to parse RFC 5322 message".toList)
  | some parsed => do
    let isLoop ← p.policy.checkLoop (list.post ingress.mailFrom raw)
    if isLoop then
      return .discarded "message already carries this List-Id (loop)".toList
    else
      let isDuplicate ←
        p.policy.checkDuplicate (list.post ingress.mailFrom raw) (p.storeDuplicates list)
      if isDuplicate then
        return .discarded "duplicate message (Message-ID already seen)".toList
      else p.moderate list ingress raw parsed

end Pipeline

/-! ### A small deployment -/

def alicesPost : Bytes :=
  encodeUtf8 "From: alice@example.com\r\nMessage-ID: <1@example.com>\r\n\r\nHello\r\n".toList

/-- How scripts read the post of Alice. -/
def aliceView : MailView :=
  { header := fun name _ => if name = "From".toList then ["alice@example.com".toList] else []
    addresses := fun _ _ => ["alice@example.com".toList]
    messageId := fun _ => some "1@example.com".toList
    addHeader := fun name value raw =>
      encodeUtf8 (name ++ ": ".toList ++ value ++ "\r\n".toList) ++ raw
    deleteHeader := fun _ raw => raw }

def aliceLibraries : Libraries :=
  { parse := fun _ => some
      { fromMailboxes := [⟨none, some "alice@example.com".toList⟩]
        subject := none
        messageId := some "1@example.com".toList }
    parseAuthenticated := fun raw => some ⟨raw, "alice@example.com".toList⟩
    ipText := fun _ => "192.0.2.1".toList }

def aliceIngress : Ingress :=
  { remoteIp := .v4 0xC0000201, helo := "mx.example.com".toList
    mailFrom := "alice@example.com".toList }

/-- A resolver that finds no signature, and of the sender's domain what `dmarc` says. -/
def resolver (dmarc : DmarcOutput) : MessageAuthenticator :=
  { verifyDkim := fun _ => []
    verifyArc := fun _ => .none
    verifySpf := fun _ _ => .none
    verifyDkim2 := fun _ _ _ => .none
    verifyDmarc := fun _ _ _ _ _ => dmarc }

/-- Nothing fails, and the sender's domain aligns. -/
def calmOutside : Outside :=
  { db := fun _ _ => none
    authenticator := fun _ => resolver ⟨.none, .pass, .none⟩
    sealAuthenticator := resolver ⟨.none, .pass, .none⟩
    archiveWorks := fun _ => true
    hostnameFault := none
    connects := fun _ => true
    accepts := fun _ => true }

/-- A deployment with the built-in scripts only. -/
def alicePipeline (outside : Outside) : Pipeline :=
  { libs := aliceLibraries
    outside
    policy := .new aliceView
    hostname := "lists.example.org".toList
    archiveDir := none }

end Carriers
