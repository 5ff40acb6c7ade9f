import Carriers.BuiltinPolicies
import Carriers.MailingList

/-! The values that the header edits of a list take from its configuration. -/

namespace Carriers

open ProofKit

/-- A mailbox of an address field. -/
structure Mailbox where
  name : Option Text
  address : Option Text
  deriving DecidableEq

/-- What the program reads in a parsed message. -/
structure Message where
  fromMailboxes : List Mailbox
  subject : Option Text
  messageId : Option Text
  deriving DecidableEq

/-- The parser of messages, which is a library's. -/
abbrev MessageParser := Bytes → Option Message

/-- The display name of the list, or its short name. -/
def MailingList.description (list : MailingList) : Text := list.cfg.displayName.getD list.name

/-- A target in angle brackets, or nothing. -/
def angled (scheme : Text) (target : Option Text) : Text :=
  target.elim [] fun target => '<' :: scheme ++ target ++ ['>']

/-- The value of the `List-Id` field that the list adds. -/
def listIdField (list : MailingList) : Text :=
  list.description ++ " <".toList ++ list.listId ++ ['>']

/-- The values of the `List-*` fields, empty where the list has none. -/
def listHeaderEnv (list : MailingList) : List (Text × Text) :=
  let cfg := list.cfg
  let (unsubscribe, unsubscribePost) :=
    match cfg.unsubscribeOneclick, cfg.unsubscribeUrl with
    | some target, _ => (angled [] (some target), "List-Unsubscribe=One-Click".toList)
    | none, some url => (angled [] (some url), [])
    | none, none => ([], [])
  [(hdrListId, listIdField list),
    (hdrListPost, angled "mailto:".toList (some cfg.postingAddress)),
    (hdrListHelp, angled [] cfg.helpUrl),
    (hdrListSubscribe, angled [] cfg.subscribeUrl),
    (hdrListUnsubscribe, unsubscribe),
    (hdrListUnsubscribePost, unsubscribePost),
    (hdrListArchive, angled [] cfg.archiveUrl),
    (hdrListOwner, angled "mailto:".toList cfg.owner)]

/-- The `From` value that names the author under the list's address, and the author's own address
for `Reply-To`. -/
def mungeFromEnv (parser : MessageParser) (list : MailingList) (raw : Bytes) :
    List (Text × Text) :=
  let postingAddress := list.cfg.postingAddress
  let author := (parser raw).bind fun message => message.fromMailboxes.head?
  let originalName := author.bind Mailbox.name
  let originalAddress := author.bind Mailbox.address
  let attribution :=
    ((originalName.filter (· ≠ [])).or originalAddress).getD postingAddress
  [(mungeFrom, '"' :: attribution ++ " via ".toList ++ list.description ++ "\" <".toList ++
      postingAddress ++ ['>']),
    (replyTo, originalAddress.getD postingAddress)]

/-- The tag of the `Subject` prefix, if the list has one that is not blank. -/
def subjectPrefixEnv (list : MailingList) : Option (List (Text × Text)) :=
  ((list.cfg.subjectPrefix.map trim).filter (· ≠ [])).map fun tag => [(subjectPrefix, tag)]

theorem valueOf_listId (list : MailingList) :
    Sieve.valueOf (listHeaderEnv list) hdrListId = listIdField list := by
  unfold listHeaderEnv
  rfl

end Carriers
