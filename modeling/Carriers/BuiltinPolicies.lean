import Carriers.ProofKit.Sieve

/-! The Sieve scripts that are embedded in the program, and the names of the environment variables
that they read. -/

namespace Carriers

open ProofKit
open ProofKit.Sieve

/-! ### Environment variables -/

def envList : Text := "vnd.carriers.list".toList
def envListId : Text := "vnd.carriers.list_id".toList
def envDmarcPass : Text := "vnd.carriers.dmarc_pass".toList
def envDmarcPolicy : Text := "vnd.carriers.dmarc_policy".toList
def envDkimResult : Text := "vnd.carriers.dkim_result".toList
def envSpfResult : Text := "vnd.carriers.spf_result".toList
def envDkim1Result : Text := "vnd.carriers.dkim1_result".toList
def envDkim2Result : Text := "vnd.carriers.dkim2_result".toList
def hdrListId : Text := "vnd.carriers.hdr_list_id".toList
def hdrListPost : Text := "vnd.carriers.hdr_list_post".toList
def hdrListHelp : Text := "vnd.carriers.hdr_list_help".toList
def hdrListSubscribe : Text := "vnd.carriers.hdr_list_subscribe".toList
def hdrListUnsubscribe : Text := "vnd.carriers.hdr_list_unsubscribe".toList
def hdrListUnsubscribePost : Text := "vnd.carriers.hdr_list_unsubscribe_post".toList
def hdrListArchive : Text := "vnd.carriers.hdr_list_archive".toList
def hdrListOwner : Text := "vnd.carriers.hdr_list_owner".toList
def mungeFrom : Text := "vnd.carriers.munge_from".toList
def replyTo : Text := "vnd.carriers.reply_to".toList
def subjectPrefix : Text := "vnd.carriers.subject_prefix".toList

namespace Builtin

/-! ### Scripts -/

/-- A command that runs only if a test holds. -/
def when (test : Test) (commands : List Command) : Command := .ifElse test (block commands) .nothing

/-- `string :is` of an environment variable. -/
def envIs (name value : Text) : Test := .string .is [.env name] [.text value]

def loopCheck : Command :=
  when (.header .contains "List-Id".toList [.env envListId]) [.discard]

def duplicateCheck : Command := when .duplicate [.discard]

def openPolicy : Command := .nothing

def subscribers : Command :=
  when (.not (.addressList "from".toList "subscribers".toList)) [.fileInto "moderate".toList]

def posters : Command :=
  when (.not (.addressList "from".toList "posters".toList)) [.fileInto "moderate".toList]

def moderated : Command := .fileInto "moderate".toList

/-- What the two gates tell the sender. -/
def dmarcReason : Text :=
  "This message failed DMARC and its domain requests enforcement on failure.".toList

def dmarcBefore : Command :=
  when (envIs envDmarcPass "no".toList)
    [when (.not (envIs envDmarcPolicy "none".toList)) [.reject dmarcReason]]

def dmarcAfter : Command :=
  when (envIs envDmarcPass "no".toList)
    [.ifElse (.not (envIs envDmarcPolicy "none".toList)) (.reject dmarcReason)
      (.fileInto "no-dkim".toList)]

/-- Prepends a header field, unless the variable with its value is empty. -/
def addListHeader (name env : Text) : Command :=
  when (.not (envIs env [])) [.addHeader name [.env env]]

def listHeaders : Command :=
  block [
    addListHeader "List-Owner".toList hdrListOwner,
    addListHeader "List-Archive".toList hdrListArchive,
    addListHeader "List-Unsubscribe-Post".toList hdrListUnsubscribePost,
    addListHeader "List-Unsubscribe".toList hdrListUnsubscribe,
    addListHeader "List-Subscribe".toList hdrListSubscribe,
    addListHeader "List-Help".toList hdrListHelp,
    .addHeader "List-Post".toList [.env hdrListPost],
    .addHeader "List-Id".toList [.env hdrListId]]

def mungeFrom : Command :=
  block [
    .deleteHeader "From".toList,
    .addHeader "From".toList [.env Carriers.mungeFrom],
    .deleteHeader "Reply-To".toList,
    .addHeader "Reply-To".toList [.env replyTo]]

/-- The configured tag in brackets. -/
def bracketedTag : Str := [.text ['['], .env Carriers.subjectPrefix, .text [']']]

def subjectPrefix : Command :=
  block [
    when (.or (.header .wildcard "Subject".toList (bracketedTag ++ [.text ['*']]))
        (.header .wildcard "Subject".toList (.text "*: ".toList :: bracketedTag ++ [.text ['*']])))
      [.stop],
    .ifElse (.header .wildcard "Subject".toList [.text ['*']])
      (block [
        .set "subject".toList [.capture 1],
        .deleteHeader "Subject".toList,
        .addHeader "Subject".toList (bracketedTag ++ [.text [' '], .var "subject".toList])])
      (.addHeader "Subject".toList bracketedTag)]

end Builtin

end Carriers
