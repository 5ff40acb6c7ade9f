import Carriers.ProofKit.Proc
import Carriers.ProofKit.Text

/-! The database: the members of the lists, the Message-IDs each list has seen and the moderation
queue, with the statements that the daemon and the command line run on them, and the world of a
run around it. -/

namespace Carriers

open ProofKit

/-- The errors of the program, with their texts. -/
inductive Error where
  | io (message : Text)
  | config (message : Text)
  | db (message : Text)
  | key (message : Text)
  | auth (message : Text)
  | delivery (message : Text)
  | unparseable (message : Text)
  deriving DecidableEq

/-- The text of an error, as messages that wrap it quote it. -/
def Error.display : Error → Text
  | .io message => "I/O error: ".toList ++ message
  | .config message => "configuration error: ".toList ++ message
  | .db message => "database error: ".toList ++ message
  | .key message => "key error: ".toList ++ message
  | .auth message => "mail authentication/signing error: ".toList ++ message
  | .delivery message => "delivery error: ".toList ++ message
  | .unparseable message => "unparseable message: ".toList ++ message

/-- The spelling under which an address is stored: without white space around it and with ASCII
letters in lower case. -/
def normalise (address : Text) : Text := asciiLower (trim address)

theorem normalise_normalise (address : Text) :
    normalise (normalise address) = normalise address := by
  rw [normalise, normalise, ← asciiLower_trim, asciiLower_asciiLower, trim_trim]

/-- A row of the table `members`, without its key. -/
structure MemberRow where
  subscribed : Bool
  poster : Bool
  moderator : Bool
  bounceScore : ℚ
  bounceDisabled : Bool
  deriving DecidableEq

/-- The table `members`, with the primary key `(list, address)`. -/
abbrev MemberTable := AList fun _ : Text × Text => MemberRow

/-- A member of a list. -/
structure Member extends MemberRow where
  address : Text

/-- A row of the table `moderation_queue`. -/
structure HeldRow where
  id : Nat
  list : Text
  mailFrom : Text
  helo : Text
  remoteIp : Text
  sender : Option Text
  subject : Option Text
  raw : Bytes
  deriving DecidableEq

/-- The table `moderation_queue`, whose key is never used twice. -/
structure ModerationQueue where
  lastId : Nat
  rows : List HeldRow
  increasing : rows.Pairwise fun earlier later => earlier.id < later.id
  bounded : ∀ row ∈ rows, row.id ≤ lastId

structure Store where
  members : MemberTable
  seenMessages : Finset (Text × Text)
  queue : ModerationQueue

namespace Store

/-- A new database. -/
def empty : Store :=
  { members := ∅
    seenMessages := ∅
    queue := { lastId := 0, rows := [], increasing := .nil, bounded := by simp } }

/-! ### Membership -/

/-- Adds a member, or replaces the roles of an address that the list already has. -/
def addMember (list address : Text) (subscribed poster moderator : Bool) (store : Store) : Store :=
  let key := (list, normalise address)
  let row : MemberRow :=
    match store.members.lookup key with
    | some row => { row with subscribed, poster, moderator }
    | none => { subscribed, poster, moderator, bounceScore := 0, bounceDisabled := false }
  { store with members := store.members.insert key row }

def removeMember (list address : Text) (store : Store) : Store :=
  { store with members := store.members.erase (list, normalise address) }

/-- Whether an address receives the list. -/
def isSubscriber (list address : Text) (store : Store) : Bool :=
  (store.members.lookup (list, normalise address)).any fun row => row.subscribed

/-- Whether an address may post to the list directly, subscribed or not. -/
def isPoster (list address : Text) (store : Store) : Bool :=
  (store.members.lookup (list, normalise address)).any fun row => row.poster

/-- The rows of a list, in the order of their addresses. -/
def listRows (list : Text) (store : Store) : List (Text × MemberRow) :=
  (store.members.entries.filterMap fun entry =>
    if entry.1.1 = list then some (entry.1.2, entry.2) else none).insertionSort fun a b => a.1 ≤ b.1

/-- The addresses that copies go to: subscribed and not disabled. -/
def subscribers (list : Text) (store : Store) : List Text :=
  ((store.listRows list).filter fun row => row.2.subscribed && !row.2.bounceDisabled).map Prod.fst

def allMembers (list : Text) (store : Store) : List Member :=
  (store.listRows list).map fun row => { row.2 with address := row.1 }

/-- `row` after a bounce: the score grows by `weight`, and delivery is disabled once the score
reaches `threshold`. -/
def MemberRow.bounce (weight threshold : ℚ) (row : MemberRow) : MemberRow :=
  { row with
    bounceScore := row.bounceScore + weight
    bounceDisabled := if threshold ≤ row.bounceScore + weight then true else row.bounceDisabled }

/-- Records a bounce of a member and says whether delivery is now disabled. -/
def recordBounce (list address : Text) (weight threshold : ℚ) (store : Store) :
    Option Bool × Store :=
  let key := (list, normalise address)
  match store.members.lookup key with
  | none => (none, store)
  | some row =>
    let row := MemberRow.bounce weight threshold row
    (some row.bounceDisabled, { store with members := store.members.insert key row })

/-- Clears the bounces of a member and says whether there is one. -/
def enableMember (list address : Text) (store : Store) : Bool × Store :=
  let key := (list, normalise address)
  match store.members.lookup key with
  | none => (false, store)
  | some row =>
    let row := { row with bounceScore := 0, bounceDisabled := false }
    (true, { store with members := store.members.insert key row })

/-! ### Deduplication -/

/-- Records a Message-ID of a list and says whether it is new. -/
def recordMessage (list messageId : Text) (store : Store) : Bool × Store :=
  if (list, messageId) ∈ store.seenMessages then (false, store)
  else (true, { store with seenMessages := insert (list, messageId) store.seenMessages })

/-! ### Moderation queue -/

/-- Appends a held message under a new id and returns that id. -/
def enqueueHeld (list mailFrom helo remoteIp : Text) (sender subject : Option Text) (raw : Bytes)
    (store : Store) : Nat × Store :=
  let id := store.queue.lastId + 1
  let row : HeldRow := { id, list, mailFrom, helo, remoteIp, sender, subject, raw }
  (id, { store with
    queue :=
      { lastId := id
        rows := store.queue.rows ++ [row]
        increasing := by
          refine List.pairwise_append.mpr
            ⟨store.queue.increasing, List.pairwise_singleton _ _, fun earlier h later h' => ?_⟩
          obtain rfl := List.mem_singleton.mp h'
          exact Nat.lt_succ_of_le (store.queue.bounded earlier h)
        bounded := by
          intro held h
          rcases List.mem_append.mp h with h | h
          · exact (store.queue.bounded held h).trans (Nat.le_succ _)
          · rw [List.mem_singleton.mp h] } })

/-- A held message with what its distribution needs. -/
def getHeld (id : Nat) (store : Store) : Option HeldRow :=
  store.queue.rows.find? fun row => row.id = id

/-- Deletes a held message and says whether there was one. -/
def deleteHeld (id : Nat) (store : Store) : Bool × Store :=
  (store.queue.rows.any fun row => row.id = id,
    { store with
      queue :=
        { store.queue with
          rows := store.queue.rows.filter fun row => row.id ≠ id
          increasing := store.queue.increasing.filter _
          bounded := fun row h => store.queue.bounded row (List.mem_filter.mp h).1 } })

end Store

theorem mem_recordMessage_iff {key : Text × Text} {store : Store} {other : Text × Text} :
    other ∈ (store.recordMessage key.1 key.2).2.seenMessages ↔
      other ∈ store.seenMessages ∨ other = key := by
  unfold Store.recordMessage
  split
  · rename_i seen
    constructor
    · exact .inl
    · rintro (mem | rfl)
      · exact mem
      · exact seen
  · simp only [Finset.mem_insert, Prod.mk.eta]
    exact Or.comm

theorem recordMessage_fst (key : Text × Text) (store : Store) :
    (store.recordMessage key.1 key.2).1 = decide (key ∉ store.seenMessages) := by
  unfold Store.recordMessage
  split
  · rename_i seen
    simpa using seen
  · rename_i new
    simpa using new

theorem recordMessage_queue (list messageId : Text) (store : Store) :
    (store.recordMessage list messageId).2.queue = store.queue := by
  unfold Store.recordMessage
  split <;> rfl

theorem recordMessage_members (list messageId : Text) (store : Store) :
    (store.recordMessage list messageId).2.members = store.members := by
  unfold Store.recordMessage
  split <;> rfl

theorem ids_nodup (store : Store) : (store.queue.rows.map HeldRow.id).Nodup :=
  List.pairwise_map.mpr (store.queue.increasing.imp fun h => h.ne)

theorem getHeld_iff {id : Nat} {row : HeldRow} {store : Store} :
    store.getHeld id = some row ↔ row ∈ store.queue.rows ∧ row.id = id := by
  constructor
  · intro found
    exact ⟨List.mem_of_find?_eq_some found, by simpa using List.find?_some found⟩
  · rintro ⟨mem, rfl⟩
    cases found : store.getHeld row.id with
    | none => simpa using List.find?_eq_none.mp found row mem
    | some other =>
      have same : other.id = row.id := by simpa using List.find?_some found
      rw [List.inj_on_of_nodup_map (ids_nodup store) (List.mem_of_find?_eq_some found) mem same]

theorem deleteHeld_fst (id : Nat) (store : Store) :
    (store.deleteHeld id).1 = (store.getHeld id).isSome := by
  rw [Store.deleteHeld, Store.getHeld, Bool.eq_iff_iff, List.any_eq_true, List.find?_isSome]

/-- Deleting an entry that is not there changes nothing. -/
theorem deleteHeld_absent {id : Nat} {store : Store} (absent : store.getHeld id = none) :
    (store.deleteHeld id).2 = store := by
  have all : ∀ row ∈ store.queue.rows, decide (row.id ≠ id) = true := by
    simpa [Store.getHeld] using absent
  obtain ⟨members, seenMessages, ⟨lastId, rows, increasing, bounded⟩⟩ := store
  simp only [Store.deleteHeld, List.filter_eq_self.mpr all]

theorem deleteHeld_gone (id : Nat) (store : Store) : (store.deleteHeld id).2.getHeld id = none := by
  simp [Store.deleteHeld, Store.getHeld]

/-! ### The world of a run -/

/-- A message file under the archive directory of a list. -/
structure ArchivedMessage where
  list : Text
  raw : Bytes
  deriving DecidableEq

/-- A copy of a message that the smarthost accepted. -/
structure Copy where
  returnPath : Text
  recipient : Text
  body : Bytes
  deriving DecidableEq

/-- What the program changes: the database, the archive directory and the mail that the smarthost
has accepted. -/
structure World where
  store : Store
  archive : List ArchivedMessage
  relayed : List Copy

/-- The world of a new deployment around a database. -/
def World.initial (store : Store) : World := { store, archive := [], relayed := [] }

/-- The two points of a message's life at which the program consults the database and the
resolver. -/
inductive Stage where
  | intake
  | finalize
  deriving DecidableEq

/-- The statements that a run sends to the database. -/
inductive Statement where
  | recordMessage
  | allMembers
  | subscribers
  | enqueueHeld
  | recordBounce
  deriving DecidableEq

/-- One statement on the database, as one atomic step, unless the database fails with `fault`. -/
def sql {α : Type} (fault : Option Text) (statement : Store → α × Store) : Proc World Error α :=
  match fault with
  | some e => .throw (.db e)
  | none => Proc.transact fun world =>
      ((statement world.store).1, { world with store := (statement world.store).2 })

theorem run_sql_none {α : Type} (statement : Store → α × Store) (world : World) :
    (sql none statement).run world =
      (.ok (statement world.store).1, { world with store := (statement world.store).2 }) := rfl

theorem run_sql_some {α : Type} (e : Text) (statement : Store → α × Store) (world : World) :
    (sql (some e) statement).run world = (.error (.db e), world) := rfl

theorem run_sql_ok {α : Type} {fault : Option Text} {statement : Store → α × Store}
    {world after : World} {value : α} (run : (sql fault statement).run world = (.ok value, after)) :
    value = (statement world.store).1 ∧
      after = { world with store := (statement world.store).2 } := by
  cases fault with
  | some e => cases run
  | none =>
    cases run
    exact ⟨rfl, rfl⟩

theorem sql_within {α : Type} {R : World → World → Prop} {fault : Option Text}
    {statement : Store → α × Store}
    (h : ∀ world, R world { world with store := (statement world.store).2 }) :
    (sql fault statement).Within R := by
  cases fault with
  | none => exact Proc.within_transact h
  | some e => trivial

end Carriers
