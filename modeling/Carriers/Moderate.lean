import Carriers.Smtp

/-! The `moderate` command: approving and rejecting the posts in the moderation queue. -/

namespace Carriers

open ProofKit

/-- The errors of a command: one of the program, or a text of the command's own. -/
inductive CommandError where
  | core (error : Error)
  | text (message : Text)
  deriving DecidableEq

/-- The failures of the database that a command can meet outside the pipeline. -/
structure CommandFaults where
  getHeld : Option Text := none
  deleteHeld : Option Text := none

def localhost : IpAddr := .v4 0x7F000001

/-- The envelope and the connection of a held post, whose address `parseIp` reads back. -/
def ingressOf (parseIp : Text → Option IpAddr) (held : HeldRow) : Ingress :=
  { remoteIp := (parseIp held.remoteIp).getD localhost
    helo := held.helo
    mailFrom := held.mailFrom }

def noHeldMessage (id : Nat) : Text := "no held message with id ".toList ++ (toString id).toList

namespace Moderate

/-- Distributes a held post, unless the chain after moderation decides otherwise, and removes it
from the queue.  `loaded` is the state of the command, or why it could not be loaded. -/
def approve (parseIp : Text → Option IpAddr) (loaded : Except CommandError AppState)
    (faults : CommandFaults) (outside : Outside) (id : Nat) : Proc World CommandError Outcome := do
  let state ← Proc.ofExcept loaded
  let found ← (sql faults.getHeld fun store => (store.getHeld id, store)).mapError .core
  match found with
  | none => .throw (.text (noHeldMessage id))
  | some held =>
    match listByName state.lists held.list with
    | none => .throw (.text ("list `".toList ++ held.list ++ "` for held message ".toList ++
        (toString id).toList ++ " is not loaded".toList))
    | some list => do
      let outcome ←
        (distributeApproved state outside list (ingressOf parseIp held) held.raw).mapError .core
      -- Whether there was still an entry to delete is not looked at.
      let _ ← (sql faults.deleteHeld (Store.deleteHeld id)).mapError .core
      return outcome

/-- Removes a held post from the queue.  `opened` is the error of opening the database, if any. -/
def reject (opened : Except CommandError Unit) (faults : CommandFaults) (id : Nat) :
    Proc World CommandError Unit := do
  let _ ← Proc.ofExcept opened
  let deleted ← (sql faults.deleteHeld (Store.deleteHeld id)).mapError .core
  if deleted then return () else .throw (.text (noHeldMessage id))

end Moderate

end Carriers
