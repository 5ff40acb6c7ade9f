import Carriers.Moderate
import Carriers.Seeding
import Carriers.Setup

/-! The commands on the members of the lists and on the moderation queue: `sync`, `member`, and the
two forms of `moderate` that only look. -/

namespace Carriers

open ProofKit

/-! ### Output -/

/-- The integer nearest to `q`, and of two the even one. -/
def roundEven (q : ℚ) : ℤ :=
  let below := ⌊q⌋
  if q - below < 1 / 2 ∨ q - below = 1 / 2 ∧ below % 2 = 0 then below else below + 1

/-- A score with one decimal. -/
def scoreText (score : ℚ) : Text :=
  let tenths := (roundEven (10 * |score|)).toNat
  (if score < 0 then "-".toList else []) ++ (toString (tenths / 10)).toList ++
    '.' :: (toString (tenths % 10)).toList

def rolesText (subscribed poster moderator : Bool) : Text :=
  let roles := (if subscribed then ["subscriber".toList] else []) ++
    (if poster then ["poster".toList] else []) ++
    (if moderator then ["moderator".toList] else [])
  if roles = [] then "no roles".toList else ", ".toList.intercalate roles

def memberLine (member : Member) : Text :=
  let status :=
    if member.bounceDisabled then
      " [bounce-disabled score=".toList ++ scoreText member.bounceScore ++ "]".toList
    else if 0 < member.bounceScore then
      " [bounces score=".toList ++ scoreText member.bounceScore ++ "]".toList
    else []
  member.address ++ '\t' :: rolesText member.subscribed member.poster member.moderator ++ status

/-! ### Members -/

/-- The configuration of the lists as a command finds it: the directory, and the configuration file
at each path of a file. -/
structure ListsDir where
  dir : Text
  file : Text → Option (Except Error (ListConfig × Except Error Signers))

/-- Fails unless there is a list of the name. -/
def resolveListName (lists : ListsDir) (name : Text) : Except CommandError Unit :=
  let path := joinPath lists.dir (name ++ ".toml".toList)
  match lists.file path with
  | none => .error (.text ("no such list `".toList ++ name ++ "` (expected ".toList ++ path ++
      ")".toList))
  | some (.error error) => .error (.core error)
  | some (.ok (cfg, keys)) =>
    ((MailingList.fromConfig name cfg keys).mapError .core).map fun _ => ()

inductive MemberCommand where
  | add (list address : Text) (noSubscribe poster moderator : Bool)
  | remove (list address : Text)
  | list (list : Text)
  | enable (list address : Text)

/-- Runs the command and returns what it prints.  `opened` is the error of loading the configuration
or opening the database, if any. -/
def member (opened : Except CommandError Unit) (lists : ListsDir) (fault : Option Text) :
    MemberCommand → Proc World CommandError (List Text)
  | .add list address noSubscribe poster moderator => do
    let _ ← Proc.ofExcept opened
    let _ ← Proc.ofExcept (resolveListName lists list)
    let _ ← (sql fault fun store =>
      ((), store.addMember list address (!noSubscribe) poster moderator)).mapError .core
    return ["added ".toList ++ address ++ " to ".toList ++ list ++ " (".toList ++
      rolesText (!noSubscribe) poster moderator ++ ")".toList]
  | .remove list address => do
    let _ ← Proc.ofExcept opened
    let _ ← (sql fault fun store => ((), store.removeMember list address)).mapError .core
    return ["removed ".toList ++ address ++ " from ".toList ++ list]
  | .list list => do
    let _ ← Proc.ofExcept opened
    let members ← (sql fault fun store => (store.allMembers list, store)).mapError .core
    return members.map memberLine
  | .enable list address => do
    let _ ← Proc.ofExcept opened
    let enabled ← (sql fault (Store.enableMember list address)).mapError .core
    if enabled then return ["re-enabled ".toList ++ address ++ " on ".toList ++ list]
    else .throw (.text ("no member ".toList ++ address ++ " on ".toList ++ list))

/-! ### Members files -/

/-- The file with the first members of a list: its path, and what reading it yields. -/
structure MembersFile where
  path : Text
  contents : Except Text Text

/-- Imports the members files of the lists, in order.  `faults` are the failures of the database
during each import. -/
def syncLists (membersFile : MailingList → Option MembersFile) :
    (Nat → Nat → Option Text) → List MailingList → Proc World CommandError (List Text)
  | _, [] => pure []
  | faults, list :: lists =>
    match membersFile list with
    | none => syncLists membersFile (fun n => faults (n + 1)) lists
    | some file => do
      let n ← seedSubscribersFromFile (faults 0) list.name file.path file.contents
      let report ← syncLists membersFile (fun n => faults (n + 1)) lists
      return (list.name ++ ": imported ".toList ++ (toString n).toList ++ " members from ".toList ++
        file.path) :: report

/-- Imports all members files and returns what it prints.  `loaded` are the lists in the order in
which they are enumerated, or why they could not be loaded. -/
def sync (membersFile : MailingList → Option MembersFile) (faults : Nat → Nat → Option Text)
    (loaded : Except CommandError (List MailingList)) : Proc World CommandError (List Text) := do
  let lists ← Proc.ofExcept loaded
  syncLists membersFile faults lists

/-! ### The moderation queue -/

/-- The held messages, or those of one list. -/
def Store.heldMessages (list : Option Text) (store : Store) : List HeldRow :=
  store.queue.rows.filter fun row => list.all fun name => row.list = name

def heldLine (held : HeldRow) : Text :=
  (toString held.id).toList ++ '\t' :: held.list ++ '\t' :: held.sender.getD "-".toList ++
    '\t' :: held.subject.getD "(no subject)".toList

namespace Moderate

/-- Lists the moderation queue. -/
def list (opened : Except CommandError Unit) (fault : Option Text) (list : Option Text) :
    Proc World CommandError (List Text) := do
  let _ ← Proc.ofExcept opened
  let held ← (sql fault fun store => (store.heldMessages list, store)).mapError .core
  return held.map heldLine

/-- Writes out a held message. -/
def showHeld (opened : Except CommandError Unit) (fault : Option Text) (id : Nat) :
    Proc World CommandError Bytes := do
  let _ ← Proc.ofExcept opened
  let found ← (sql fault fun store => (store.getHeld id, store)).mapError .core
  match found with
  | none => .throw (.text (noHeldMessage id))
  | some held => return held.raw

end Moderate

end Carriers
