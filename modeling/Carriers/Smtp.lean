import Carriers.BounceRouting
import Carriers.Deliver

/-! The handling of the recipients of one message, and the replies that report it. -/

namespace Carriers

open ProofKit
open ProofKit.Sieve (Script)

/-- The state of the daemon, which does not change once it is loaded. -/
structure AppState where
  config : Config
  libs : Libraries
  policy : PolicyEngine Script
  lists : Lists

def AppState.pipeline (state : AppState) (outside : Outside) : Pipeline :=
  { libs := state.libs
    outside
    policy := state.policy
    hostname := state.config.hostname
    archiveDir := state.config.archiveDir }

/-- What became of a post. -/
inductive Outcome where
  | distributed (count : Nat)
  | held (id : Nat)
  | discarded (reason : Text)
  | rejected (reason : Text)
  deriving DecidableEq

/-- What became of one recipient's part of a message. -/
inductive RecipientResult where
  | post (result : Except Error Outcome)
  | bounce (result : Except Error Unit)

section
variable (state : AppState) (outside : Outside) (list : MailingList)

/-- Delivers what the pipeline distributes. -/
def conclude : Disposition → Proc World Error Outcome
  | .distribute prepared => do
    let count ← deliver outside list prepared state.config.smarthost
    return .distributed count
  | .held id => pure (.held id)
  | .discarded reason => pure (.discarded reason)
  | .rejected reason => pure (.rejected reason)

/-- Takes in a post.  One that cannot be parsed is accepted and dropped. -/
def handleOne (ingress : Ingress) (raw : Bytes) : Proc World Error Outcome := do
  let result ← ((state.pipeline outside).intake list ingress raw).attempt
  match result with
  | .ok disposition => conclude state outside list disposition
  | .error (.unparseable reason) => return .discarded reason
  | .error other => .throw other

/-- Finalizes a post that a moderator has approved. -/
def distributeApproved (ingress : Ingress) (raw : Bytes) : Proc World Error Outcome := do
  let disposition ← (state.pipeline outside).finalize list ingress raw
  conclude state outside list disposition

end

/-! ### Replies -/

/-- A text as part of a reply line: no line ends in it, at most 200 characters, and not blank. -/
def sanitizeSmtpReplyText (text : Text) : Text :=
  let cleaned := (text.map fun c => if c = '\r' ∨ c = '\n' then ' ' else c).take 200
  if trim cleaned = [] then "Message rejected".toList else cleaned

/-- The reply to a recipient. -/
def RecipientResult.reply : RecipientResult → Text
  | .post (.ok (.distributed _)) => "250 2.6.0 Message accepted\r\n".toList
  | .post (.ok (.held _)) => "250 2.6.0 Message accepted (held for moderation)\r\n".toList
  | .post (.ok (.discarded _)) => "250 2.6.0 Message accepted (not distributed)\r\n".toList
  | .post (.ok (.rejected reason)) =>
    "550 5.7.1 ".toList ++ sanitizeSmtpReplyText reason ++ "\r\n".toList
  | .post (.error _) => "451 4.3.0 Temporary processing failure\r\n".toList
  | .bounce (.ok _) => "250 2.1.5 Bounce recorded\r\n".toList
  | .bounce (.error _) => "451 4.3.0 Could not record bounce\r\n".toList

def postReply (state : AppState) (outside : Outside) (list : MailingList) (ingress : Ingress)
    (raw : Bytes) : Proc World Error Text := do
  let result ← (handleOne state outside list ingress raw).attempt
  return RecipientResult.reply (.post result)

def bounceReply (state : AppState) (outside : Outside) (list : MailingList) (address : Text)
    (raw : Bytes) : Proc World Error Text := do
  let result ← (handleBounce state.config.bounce (outside.db .intake .recordBounce) list address
    raw).attempt
  return RecipientResult.reply (.bounce result)

def recipientReply (state : AppState) (outside : Outside) (ingress : Ingress) (raw : Bytes) :
    Recipient → Proc World Error Text
  | .post list => postReply state outside list ingress raw
  | .bounce list address => bounceReply state outside list address raw

/-- Handles each recipient in turn and returns one reply for each. -/
def process (state : AppState) (ingress : Ingress) (raw : Bytes) :
    (Nat → Outside) → List Recipient → Proc World Error (List Text)
  | _, [] => pure []
  | outside, recipient :: recipients => do
    let reply ← recipientReply state (outside 0) ingress raw recipient
    let replies ← process state ingress raw (fun index => outside (index + 1)) recipients
    return reply :: replies

/-- The replies that end the data phase: one for each recipient in LMTP, and one for all of them
in SMTP, which succeeds unless every recipient failed. -/
def dataReplies (protocol : Protocol) (replies : List Text) : List Text :=
  match protocol with
  | .lmtp => replies
  | .smtp =>
    if replies.any fun reply => reply.head? = some '2' then
      ["250 2.6.0 Message accepted\r\n".toList]
    else ["451 4.3.0 Message could not be processed\r\n".toList]

/-- A deployment of the list `dev` and the built-in scripts. -/
def aliceState : AppState :=
  { config := { hostname := "lists.example.org".toList, smarthost := localRelay }
    libs := aliceLibraries
    policy := .new aliceView
    lists := devLists }

/-- The database in which Alice and Bob subscribe to `dev`. -/
def devSubscribed : Store :=
  (Store.empty.addMember "dev".toList "alice@example.com".toList true false false).addMember
    "dev".toList "bob@example.com".toList true false false

end Carriers
