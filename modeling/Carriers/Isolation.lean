import Carriers.Membership
import Carriers.ProofKit.Unwinding

/-! Lists that share a database: what the operations on one list make of its part of the database,
whatever the operations on other lists in between. -/

namespace Carriers

open ProofKit

/-! ### Operations -/

/-- An operation on the database.  Each is on one list; a deletion names the entry of the moderation
queue by its place among all entries that the list ever had. -/
inductive StoreOp where
  | member (threshold : ℚ) (change : MemberChange)
  | record (list messageId : Text)
  | enqueue (list mailFrom helo remoteIp : Text) (sender subject : Option Text) (raw : Bytes)
  | delete (list : Text) (place : Nat)

def StoreOp.list : StoreOp → Text
  | .member _ change => change.key.1
  | .record list _ | .enqueue list .. | .delete list _ => list

/-- What an operation returns. -/
inductive Answer where
  | done
  | flag (value : Bool)
  | disabled (value : Option Bool)
  | queued (id : Nat)
  deriving DecidableEq

def MemberChange.answer (threshold : ℚ) (store : Store) : MemberChange → Answer
  | .add .. | .remove .. => .done
  | .bounce list address weight =>
    .disabled (store.recordBounce list address weight threshold).1
  | .enable list address => .flag (store.enableMember list address).1

/-- The database, and the ids of the entries that each list ever had in the moderation queue. -/
structure Ledger where
  store : Store
  entries : Text → List Nat

/-- The part of the moderation queue that is a list's own. -/
def Store.held (list : Text) (store : Store) : List HeldRow :=
  store.queue.rows.filter fun row => row.list = list

def Ledger.start (store : Store) : Ledger :=
  { store, entries := fun list => (store.held list).map HeldRow.id }

/-- The answer to an operation, and the database after it. -/
def StoreOp.perform (ledger : Ledger) : StoreOp → Answer × Ledger
  | .member threshold change =>
    (change.answer threshold ledger.store,
      { ledger with store := change.apply threshold ledger.store })
  | .record list messageId =>
    (.flag (ledger.store.recordMessage list messageId).1,
      { ledger with store := (ledger.store.recordMessage list messageId).2 })
  | .enqueue list mailFrom helo remoteIp sender subject raw =>
    let queued := ledger.store.enqueueHeld list mailFrom helo remoteIp sender subject raw
    (.queued queued.1,
      { store := queued.2
        entries := Function.update ledger.entries list (ledger.entries list ++ [queued.1]) })
  | .delete list place =>
    match (ledger.entries list)[place]? with
    | none => (.flag false, ledger)
    | some id =>
      (.flag (ledger.store.deleteHeld id).1,
        { ledger with store := (ledger.store.deleteHeld id).2 })

/-! ### Entries -/

/-- The entries of the lists are numbered in order, under ids of their own. -/
structure Ledger.Numbered (ledger : Ledger) : Prop where
  increasing : ∀ list, (ledger.entries list).Pairwise (· < ·)
  bounded : ∀ list, ∀ id ∈ ledger.entries list, id ≤ ledger.store.queue.lastId
  apart : ∀ list other id, id ∈ ledger.entries list → id ∈ ledger.entries other → list = other
  owned : ∀ row ∈ ledger.store.queue.rows, row.id ∈ ledger.entries row.list

theorem numbered_start (store : Store) : (Ledger.start store).Numbered := by
  have mem {list : Text} {id : Nat} (h : id ∈ (Ledger.start store).entries list) :
      ∃ row ∈ store.queue.rows, row.list = list ∧ row.id = id := by
    obtain ⟨row, mem, rfl⟩ := List.mem_map.mp h
    obtain ⟨mem, same⟩ := List.mem_filter.mp mem
    exact ⟨row, mem, by simpa using same, rfl⟩
  constructor
  · intro list
    exact List.pairwise_map.mpr (store.queue.increasing.filter _)
  · intro list id h
    obtain ⟨row, mem, -, rfl⟩ := mem h
    exact store.queue.bounded row mem
  · intro list other id h h'
    obtain ⟨row, isRow, rfl, rfl⟩ := mem h
    obtain ⟨row', isRow', rfl, same⟩ := mem h'
    rw [List.inj_on_of_nodup_map (ids_nodup store) isRow' isRow same]
  · intro row mem
    exact List.mem_map.mpr ⟨row, List.mem_filter.mpr ⟨mem, by simp⟩, rfl⟩

/-- A change of the members leaves the rest of the database as it is. -/
theorem apply_frame (threshold : ℚ) (store : Store) (change : MemberChange) :
    (change.apply threshold store).queue = store.queue ∧
      (change.apply threshold store).seenMessages = store.seenMessages := by
  cases change with
  | add | remove => exact ⟨rfl, rfl⟩
  | bounce list address weight =>
    rw [MemberChange.apply, Store.recordBounce]
    split <;> exact ⟨rfl, rfl⟩
  | enable list address =>
    rw [MemberChange.apply, Store.enableMember]
    split <;> exact ⟨rfl, rfl⟩

theorem Ledger.Numbered.shrink {ledger : Ledger} (h : ledger.Numbered) {store : Store}
    (lastId : store.queue.lastId = ledger.store.queue.lastId)
    (rows : ∀ row ∈ store.queue.rows, row ∈ ledger.store.queue.rows) :
    ({ ledger with store } : Ledger).Numbered where
  increasing := h.increasing
  bounded list id mem := lastId.symm ▸ h.bounded list id mem
  apart := h.apart
  owned row mem := h.owned row (rows row mem)

theorem Ledger.Numbered.keep {ledger : Ledger} (h : ledger.Numbered) {store : Store}
    (queue : store.queue = ledger.store.queue) : ({ ledger with store } : Ledger).Numbered :=
  h.shrink (by rw [queue]) fun row mem => queue ▸ mem

/-- An entry of a list after an insertion is an old one, or the new one. -/
theorem mem_inserted {ledger : Ledger} {list other : Text} {new id : Nat} :
    id ∈ Function.update ledger.entries list (ledger.entries list ++ [new]) other ↔
      id ∈ ledger.entries other ∨ other = list ∧ id = new := by
  by_cases same : other = list
  · subst same
    rw [Function.update_self, List.mem_append, List.mem_singleton]
    exact or_congr_right (by simp)
  · rw [Function.update_of_ne same]
    simp [same]

theorem numbered_enqueue {ledger : Ledger} (h : ledger.Numbered)
    (list mailFrom helo remoteIp : Text) (sender subject : Option Text) (raw : Bytes) :
    ((StoreOp.enqueue list mailFrom helo remoteIp sender subject raw).perform ledger).2.Numbered := by
  have fresh {other : Text} {id : Nat} (mem : id ∈ ledger.entries other) :
      id < ledger.store.queue.lastId + 1 := Nat.lt_succ_of_le (h.bounded other id mem)
  constructor
  · intro other
    dsimp only [StoreOp.perform, Store.enqueueHeld]
    by_cases same : other = list
    · subst same
      rw [Function.update_self]
      refine List.pairwise_append.mpr ⟨h.increasing other, List.pairwise_singleton _ _, ?_⟩
      intro id mem new isNew
      rw [List.mem_singleton.mp isNew]
      exact fresh mem
    · rw [Function.update_of_ne same]
      exact h.increasing other
  · intro other id mem
    dsimp only [StoreOp.perform, Store.enqueueHeld] at mem ⊢
    rcases mem_inserted.mp mem with old | ⟨-, rfl⟩
    · exact (fresh old).le
    · exact le_rfl
  · intro first second id mem mem'
    dsimp only [StoreOp.perform, Store.enqueueHeld] at mem mem'
    rcases mem_inserted.mp mem with old | ⟨rfl, rfl⟩ <;>
      rcases mem_inserted.mp mem' with old' | ⟨rfl, new⟩
    · exact h.apart first second id old old'
    · exact absurd (fresh old) (by omega)
    · exact absurd (fresh old') (lt_irrefl _)
    · rfl
  · intro row mem
    dsimp only [StoreOp.perform, Store.enqueueHeld] at mem ⊢
    rw [mem_inserted]
    rcases List.mem_append.mp mem with old | new
    · exact .inl (h.owned row old)
    · rw [List.mem_singleton.mp new]
      exact .inr ⟨rfl, rfl⟩

theorem numbered_perform {ledger : Ledger} (h : ledger.Numbered) (op : StoreOp) :
    (op.perform ledger).2.Numbered := by
  cases op with
  | member threshold change => exact h.keep (apply_frame threshold ledger.store change).1
  | record list messageId => exact h.keep (recordMessage_queue list messageId ledger.store)
  | enqueue list mailFrom helo remoteIp sender subject raw =>
    exact numbered_enqueue h list mailFrom helo remoteIp sender subject raw
  | delete list place =>
    dsimp only [StoreOp.perform]
    cases (ledger.entries list)[place]? with
    | none => exact h
    | some id =>
      refine h.shrink rfl fun row mem => ?_
      exact (List.mem_filter.mp mem).1

/-! ### What an operation does to each part -/

/-- The Message-ID that an operation records for a list. -/
def StoreOp.recorded : StoreOp → Option (Text × Text)
  | .record list messageId => some (list, messageId)
  | .member .. | .enqueue .. | .delete .. => none

/-- A deletion is no business of the parts outside the moderation queue. -/
theorem delete_frame (ledger : Ledger) (list : Text) (place : Nat) :
    ((StoreOp.delete list place).perform ledger).2.store.members = ledger.store.members ∧
      ((StoreOp.delete list place).perform ledger).2.store.seenMessages =
        ledger.store.seenMessages ∧
      ((StoreOp.delete list place).perform ledger).2.entries = ledger.entries := by
  rw [StoreOp.perform]
  cases (ledger.entries list)[place]? <;> exact ⟨rfl, rfl, rfl⟩

theorem members_perform (ledger : Ledger) (op : StoreOp) :
    (op.perform ledger).2.store.members =
      match op with
      | .member threshold change => (change.apply threshold ledger.store).members
      | _ => ledger.store.members := by
  cases op with
  | member | enqueue => rfl
  | record list messageId => exact recordMessage_members list messageId ledger.store
  | delete list place => exact (delete_frame ledger list place).1

theorem mem_seen_perform (ledger : Ledger) (op : StoreOp) (key : Text × Text) :
    key ∈ (op.perform ledger).2.store.seenMessages ↔
      key ∈ ledger.store.seenMessages ∨ op.recorded = some key := by
  cases op with
  | member threshold change =>
    have seen := (apply_frame threshold ledger.store change).2
    simp [StoreOp.perform, StoreOp.recorded, seen]
  | record list messageId =>
    have seen := @mem_recordMessage_iff (list, messageId) ledger.store key
    simpa [StoreOp.perform, StoreOp.recorded, eq_comm] using seen
  | enqueue => exact (or_iff_left nofun).symm
  | delete list place =>
    rw [(delete_frame ledger list place).2.1]
    exact (or_iff_left nofun).symm

/-! ### Operations on other lists -/

section
variable {ledger : Ledger} {list : Text} {op : StoreOp}

theorem entries_other (foreign : op.list ≠ list) :
    (op.perform ledger).2.entries list = ledger.entries list := by
  cases op with
  | member | record => rfl
  | enqueue => exact Function.update_of_ne foreign.symm _ _
  | delete other place => rw [(delete_frame ledger other place).2.2]

theorem members_other (foreign : op.list ≠ list) (address : Text) :
    (op.perform ledger).2.store.members.lookup (list, address) =
      ledger.store.members.lookup (list, address) := by
  rw [members_perform]
  cases op with
  | member threshold change =>
    have key : change.key ≠ (list, address) := by
      intro same
      exact foreign (congrArg Prod.fst same)
    exact (lookup_apply threshold ledger.store change _).trans (if_neg key)
  | record | enqueue | delete => rfl

theorem seen_other (foreign : op.list ≠ list) (messageId : Text) :
    (list, messageId) ∈ (op.perform ledger).2.store.seenMessages ↔
      (list, messageId) ∈ ledger.store.seenMessages := by
  rw [mem_seen_perform]
  refine or_iff_left fun recorded => foreign ?_
  cases op with
  | record => exact congrArg Prod.fst (Option.some.inj recorded)
  | member | enqueue | delete => cases recorded

theorem held_enqueue (other mailFrom helo remoteIp : Text) (sender subject : Option Text)
    (raw : Bytes) (store : Store) :
    (store.enqueueHeld other mailFrom helo remoteIp sender subject raw).2.held list =
      store.held list ++
        if other = list then
          [{ id := store.queue.lastId + 1
             list := other, mailFrom, helo, remoteIp, sender, subject, raw }]
        else [] := by
  rw [Store.held, Store.enqueueHeld, List.filter_append]
  congr 1
  rw [List.filter_singleton]
  by_cases same : other = list <;> simp [same]

theorem held_delete (id : Nat) (store : Store) :
    (store.deleteHeld id).2.held list = (store.held list).filter fun row => row.id ≠ id := by
  rw [Store.held, Store.deleteHeld, Store.held, List.filter_filter, List.filter_filter]
  simp only [Bool.and_comm]

theorem held_congr {store other : Store} (queue : store.queue = other.queue) :
    store.held list = other.held list := by
  rw [Store.held, Store.held, queue]

theorem held_other (h : ledger.Numbered) (foreign : op.list ≠ list) :
    (op.perform ledger).2.store.held list = ledger.store.held list := by
  cases op with
  | member threshold change =>
    exact held_congr (apply_frame threshold ledger.store change).1
  | record other messageId =>
    exact held_congr (recordMessage_queue other messageId ledger.store)
  | enqueue other mailFrom helo remoteIp sender subject raw =>
    dsimp only [StoreOp.perform]
    rw [held_enqueue, if_neg (show other ≠ list from foreign), List.append_nil]
  | delete other place =>
    dsimp only [StoreOp.perform]
    cases entry : (ledger.entries other)[place]? with
    | none => rfl
    | some id =>
      dsimp only
      rw [held_delete, List.filter_eq_self]
      intro row mem
      obtain ⟨isRow, isOwn⟩ := List.mem_filter.mp mem
      obtain rfl : row.list = list := by simpa using isOwn
      -- The entries of two lists have no id in common.
      have apart : row.id ≠ id := by
        rintro rfl
        exact foreign (h.apart other row.list row.id (List.mem_of_getElem? entry)
          (h.owned row isRow))
      simpa using apart

end

/-- Whether a deletion finds an entry is for the list of the entry alone to say. -/
theorem Ledger.Numbered.deleteHeld_fst {ledger : Ledger} (h : ledger.Numbered) {list : Text}
    {id : Nat} (entry : id ∈ ledger.entries list) :
    (ledger.store.deleteHeld id).1 = (ledger.store.held list).any fun row => row.id = id := by
  rw [Store.deleteHeld, Bool.eq_iff_iff, List.any_eq_true, List.any_eq_true]
  constructor
  · rintro ⟨row, mem, same⟩
    have same : row.id = id := by simpa using same
    have own : row.list = list := h.apart row.list list id (same ▸ h.owned row mem) entry
    exact ⟨row, List.mem_filter.mpr ⟨mem, by simpa using own⟩, by simpa using same⟩
  · rintro ⟨row, mem, same⟩
    exact ⟨row, (List.mem_filter.mp mem).1, same⟩

/-! ### A list in two databases -/

/-- Two ids are at one place of two lists of entries. -/
def SameEntry (entries entries' : List Nat) (id id' : Nat) : Prop :=
  ∃ place : Nat, entries[place]? = some id ∧ entries'[place]? = some id'

/-- Two rows differ at most in the id of their entry. -/
structure SameRow (entries entries' : List Nat) (row row' : HeldRow) : Prop where
  entry : SameEntry entries entries' row.id row'.id
  rest : row' = { row with id := row'.id }

def SameAnswer (entries entries' : List Nat) : Answer → Answer → Prop
  | .queued id, .queued id' => SameEntry entries entries' id id'
  | answer, answer' => answer = answer'

/-- A list has the same members, Message-IDs and held messages, apart from the numbering of the
moderation queue. -/
structure SameFor (list : Text) (full solo : Ledger) : Prop where
  numbered : full.Numbered
  numberedSolo : solo.Numbered
  entries : (full.entries list).length = (solo.entries list).length
  members : ∀ address, full.store.members.lookup (list, address) =
    solo.store.members.lookup (list, address)
  seen : ∀ messageId, (list, messageId) ∈ full.store.seenMessages ↔
    (list, messageId) ∈ solo.store.seenMessages
  held : List.Forall₂ (SameRow (full.entries list) (solo.entries list))
    (full.store.held list) (solo.store.held list)

section
variable {entries entries' more more' : List Nat}

theorem SameEntry.append {id id' : Nat} (h : SameEntry entries entries' id id') :
    SameEntry (entries ++ more) (entries' ++ more') id id' := by
  obtain ⟨place, entry, entry'⟩ := h
  refine ⟨place, ?_, ?_⟩
  · rw [List.getElem?_append_left (List.getElem?_eq_some_iff.mp entry).1]
    exact entry
  · rw [List.getElem?_append_left (List.getElem?_eq_some_iff.mp entry').1]
    exact entry'

theorem sameEntry_last (same : entries.length = entries'.length) (id id' : Nat) :
    SameEntry (entries ++ [id]) (entries' ++ [id']) id id' := by
  refine ⟨entries.length, ?_, ?_⟩
  · exact List.getElem?_concat_length
  · rw [same]
    exact List.getElem?_concat_length

theorem SameRow.append {row row' : HeldRow} (h : SameRow entries entries' row row') :
    SameRow (entries ++ more) (entries' ++ more') row row' :=
  ⟨h.entry.append, h.rest⟩

theorem SameAnswer.append {answer answer' : Answer}
    (h : SameAnswer entries entries' answer answer') :
    SameAnswer (entries ++ more) (entries' ++ more') answer answer' := by
  unfold SameAnswer at *
  split at h
  · exact h.append
  · exact h

theorem sameAnswer_refl {answer : Answer} (h : ∀ id, answer ≠ .queued id) :
    SameAnswer entries entries' answer answer := by
  cases answer with
  | queued id => exact absurd rfl (h id)
  | done | flag | disabled => rfl

theorem SameEntry.eq_iff {a a' b b' : Nat} (nodup : entries.Nodup) (nodup' : entries'.Nodup)
    (ha : SameEntry entries entries' a a') (hb : SameEntry entries entries' b b') :
    a = b ↔ a' = b' := by
  obtain ⟨place, entry, entry'⟩ := ha
  obtain ⟨place', other, other'⟩ := hb
  constructor
  · rintro rfl
    have same : place = place' := (List.getElem?_inj (List.getElem?_eq_some_iff.mp entry).1
      nodup).mp (entry.trans other.symm)
    exact Option.some.inj (entry'.symm.trans (same ▸ other'))
  · rintro rfl
    have same : place = place' := (List.getElem?_inj (List.getElem?_eq_some_iff.mp entry').1
      nodup').mp (entry'.trans other'.symm)
    exact Option.some.inj (entry.symm.trans (same ▸ other))

end

theorem Ledger.Numbered.nodup {ledger : Ledger} (h : ledger.Numbered) (list : Text) :
    (ledger.entries list).Nodup := (h.increasing list).imp fun less => less.ne

/-! ### Operations on the list itself -/

/-- The entry that an operation adds. -/
def StoreOp.added (ledger : Ledger) : StoreOp → List Nat
  | .enqueue .. => [ledger.store.queue.lastId + 1]
  | .member .. | .record .. | .delete .. => []

theorem entries_own (ledger : Ledger) (op : StoreOp) :
    (op.perform ledger).2.entries op.list = ledger.entries op.list ++ op.added ledger := by
  cases op with
  | member | record => exact (List.append_nil _).symm
  | enqueue list => exact Function.update_self _ _ _
  | delete list place =>
    rw [(delete_frame ledger list place).2.2]
    exact (List.append_nil _).symm

section
variable {list : Text} {full solo : Ledger} {op : StoreOp}

theorem added_length (full solo : Ledger) (op : StoreOp) :
    (op.added full).length = (op.added solo).length := by
  cases op <;> rfl

/-- At one place there are entries of both databases, or of none. -/
theorem SameFor.at_place (h : SameFor list full solo) (place : Nat) :
    (full.entries list)[place]? = none ∧ (solo.entries list)[place]? = none ∨
      ∃ id id', (full.entries list)[place]? = some id ∧ (solo.entries list)[place]? = some id' := by
  by_cases bound : place < (full.entries list).length
  · exact .inr ⟨_, _, List.getElem?_eq_getElem bound,
      List.getElem?_eq_getElem (h.entries ▸ bound)⟩
  · have bound' : (solo.entries list).length ≤ place := h.entries ▸ not_lt.mp bound
    exact .inl ⟨List.getElem?_eq_none (not_lt.mp bound), List.getElem?_eq_none bound'⟩

theorem members_congr (h : SameFor list full solo) (op : StoreOp) (address : Text) :
    (op.perform full).2.store.members.lookup (list, address) =
      (op.perform solo).2.store.members.lookup (list, address) := by
  rw [members_perform, members_perform]
  cases op with
  | member threshold change =>
    dsimp only
    rw [lookup_apply, lookup_apply, h.members]
  | record | enqueue | delete => exact h.members address

theorem seen_congr (h : SameFor list full solo) (op : StoreOp) (messageId : Text) :
    (list, messageId) ∈ (op.perform full).2.store.seenMessages ↔
      (list, messageId) ∈ (op.perform solo).2.store.seenMessages := by
  rw [mem_seen_perform, mem_seen_perform, h.seen]

theorem any_congr {R : HeldRow → HeldRow → Prop} {rows rows' : List HeldRow} {id id' : Nat}
    (h : List.Forall₂ R rows rows')
    (same : ∀ row row', R row row' → (row.id = id ↔ row'.id = id')) :
    (rows.any fun row => row.id = id) = rows'.any fun row => row.id = id' := by
  induction h with
  | nil => rfl
  | cons related _ ih =>
    rw [List.any_cons, List.any_cons, ih, decide_eq_decide.mpr (same _ _ related)]

theorem SameRow.id_iff {id id' : Nat} {row row' : HeldRow} (h : SameFor list full solo)
    (same : SameRow (full.entries list) (solo.entries list) row row')
    (entry : SameEntry (full.entries list) (solo.entries list) id id') :
    row.id = id ↔ row'.id = id' :=
  same.entry.eq_iff (h.numbered.nodup list) (h.numberedSolo.nodup list) entry

theorem held_own (h : SameFor list full solo) (own : op.list = list) :
    List.Forall₂ (SameRow (full.entries list ++ op.added full) (solo.entries list ++ op.added solo))
      ((op.perform full).2.store.held list) ((op.perform solo).2.store.held list) := by
  have kept : List.Forall₂
      (SameRow (full.entries list ++ op.added full) (solo.entries list ++ op.added solo))
      (full.store.held list) (solo.store.held list) :=
    h.held.imp fun row row' same => same.append
  have unmoved (queue : ∀ ledger, (op.perform ledger).2.store.queue = ledger.store.queue) :
      List.Forall₂
        (SameRow (full.entries list ++ op.added full) (solo.entries list ++ op.added solo))
        ((op.perform full).2.store.held list) ((op.perform solo).2.store.held list) := by
    rw [held_congr (queue full), held_congr (queue solo)]
    exact kept
  cases op with
  | member threshold change =>
    exact unmoved fun ledger => (apply_frame threshold ledger.store change).1
  | record other messageId =>
    exact unmoved fun ledger => recordMessage_queue other messageId ledger.store
  | enqueue other mailFrom helo remoteIp sender subject raw =>
    have isOwn : other = list := own
    dsimp only [StoreOp.perform]
    rw [held_enqueue, held_enqueue, if_pos isOwn, if_pos isOwn]
    refine List.rel_append kept (.cons ⟨?_, rfl⟩ .nil)
    exact sameEntry_last h.entries _ _
  | delete other place =>
    obtain rfl : other = list := own
    dsimp only [StoreOp.perform]
    rcases h.at_place place with ⟨none, none'⟩ | ⟨id, id', entry, entry'⟩
    · rw [none, none']
      exact kept
    · rw [entry, entry']
      dsimp only
      rw [held_delete, held_delete]
      have kept := List.rel_filter (p := fun row => decide (row.id ≠ id))
        (q := fun row => decide (row.id ≠ id')) (fun row row' same => ?_) h.held
      · exact kept.imp fun row row' same => same.append
      · simpa using not_congr (same.id_iff h ⟨place, entry, entry'⟩)

/-- What a change answers depends on the row that it changes. -/
theorem answer_congr (threshold : ℚ) (change : MemberChange) {store other : Store}
    (row : store.members.lookup change.key = other.members.lookup change.key) :
    change.answer threshold store = change.answer threshold other := by
  cases change with
  | add | remove => rfl
  | bounce list address weight =>
    simp only [MemberChange.answer, Store.recordBounce]
    simp only [MemberChange.key] at row
    rw [row]
    cases other.members.lookup (list, normalise address) <;> rfl
  | enable list address =>
    simp only [MemberChange.answer, Store.enableMember]
    simp only [MemberChange.key] at row
    rw [row]
    cases other.members.lookup (list, normalise address) <;> rfl

theorem answer_own (h : SameFor list full solo) (own : op.list = list) :
    SameAnswer (full.entries list ++ op.added full) (solo.entries list ++ op.added solo)
      (op.perform full).1 (op.perform solo).1 := by
  cases op with
  | member threshold change =>
    obtain rfl : change.key.1 = list := own
    have same : change.answer threshold full.store = change.answer threshold solo.store :=
      answer_congr threshold change (h.members change.key.2)
    show SameAnswer _ _ (change.answer threshold full.store) (change.answer threshold solo.store)
    rw [same]
    refine sameAnswer_refl fun id isEntry => ?_
    cases change <;> cases isEntry
  | record other messageId =>
    obtain rfl : other = list := own
    refine congrArg Answer.flag ?_
    rw [recordMessage_fst (other, messageId), recordMessage_fst (other, messageId)]
    simp only [h.seen]
  | enqueue other mailFrom helo remoteIp sender subject raw =>
    exact sameEntry_last h.entries _ _
  | delete other place =>
    obtain rfl : other = list := own
    dsimp only [StoreOp.perform]
    rcases h.at_place place with ⟨none, none'⟩ | ⟨id, id', entry, entry'⟩
    · rw [none, none']
      exact rfl
    · rw [entry, entry']
      refine congrArg Answer.flag ?_
      rw [h.numbered.deleteHeld_fst (List.mem_of_getElem? entry),
        h.numberedSolo.deleteHeld_fst (List.mem_of_getElem? entry')]
      exact any_congr h.held fun row row' same => same.id_iff h ⟨place, entry, entry'⟩

theorem sameFor_other (h : SameFor list full solo) (foreign : op.list ≠ list) :
    SameFor list (op.perform full).2 solo where
  numbered := numbered_perform h.numbered op
  numberedSolo := h.numberedSolo
  entries := by rw [entries_other foreign, h.entries]
  members address := by rw [members_other foreign, h.members]
  seen messageId := by rw [seen_other foreign, h.seen]
  held := by
    rw [held_other h.numbered foreign, entries_other foreign]
    exact h.held

theorem sameFor_own (h : SameFor list full solo) (own : op.list = list) :
    SameFor list (op.perform full).2 (op.perform solo).2 where
  numbered := numbered_perform h.numbered op
  numberedSolo := numbered_perform h.numberedSolo op
  entries := by
    subst own
    rw [entries_own, entries_own, List.length_append, List.length_append, h.entries,
      added_length full solo op]
  members := members_congr h op
  seen := seen_congr h op
  held := by
    have held := held_own h own
    subst own
    rw [entries_own, entries_own]
    exact held

theorem sameFor_start (list : Text) (store : Store) :
    SameFor list (.start store) (.start store) where
  numbered := numbered_start store
  numberedSolo := numbered_start store
  entries := rfl
  members _ := rfl
  seen _ := Iff.rfl
  held := by
    refine List.forall₂_same.mpr fun row mem => ⟨?_, rfl⟩
    have entry : row.id ∈ (Ledger.start store).entries list := List.mem_map.mpr ⟨row, mem, rfl⟩
    obtain ⟨place, found⟩ := List.mem_iff_getElem?.mp entry
    exact ⟨place, found, found⟩

end

/-- What other lists do makes no difference to a list. -/
theorem unwinding (list : Text) :
    Unwinding StoreOp.perform (fun op => op.list = list) (SameFor list)
      fun full solo => SameAnswer (full.entries list) (solo.entries list) where
  other {full solo op} h foreign := sameFor_other h (by simpa using foreign)
  own {full solo op} h own := sameFor_own h (by simpa using own)
  answer {full solo op} h own := by
    obtain rfl : op.list = list := by simpa using own
    have same := answer_own h rfl
    rw [← entries_own, ← entries_own] at same
    exact same
  otherAgree {full solo op a b} h foreign agree := by
    rw [entries_other (by simpa using foreign)]
    exact agree
  ownAgree {full solo op a b} h own agree := by
    obtain rfl : op.list = list := by simpa using own
    rw [entries_own, entries_own]
    exact agree.append

/-! ### Renumbering -/

/-- The id that an entry has in the other numbering. -/
def renumber (entries entries' : List Nat) (id : Nat) : Nat :=
  entries'[entries.idxOf id]?.getD id

def Answer.renumber (rename : Nat → Nat) : Answer → Answer
  | .queued id => .queued (rename id)
  | answer => answer

def HeldRow.renumber (rename : Nat → Nat) (row : HeldRow) : HeldRow :=
  { row with id := rename row.id }

section
variable {entries entries' : List Nat}

theorem renumber_eq (nodup : entries.Nodup) {id id' : Nat} (h : SameEntry entries entries' id id') :
    renumber entries entries' id = id' := by
  obtain ⟨place, entry, entry'⟩ := h
  obtain ⟨bound, rfl⟩ := List.getElem?_eq_some_iff.mp entry
  rw [renumber, nodup.idxOf_getElem, entry', Option.getD_some]

theorem map_renumber (nodup : entries.Nodup) (same : entries.length = entries'.length) :
    entries.map (renumber entries entries') = entries' := by
  refine List.ext_getElem (by rw [List.length_map, same]) fun place bound bound' => ?_
  rw [List.getElem_map]
  exact renumber_eq nodup ⟨place, List.getElem?_eq_getElem (same ▸ bound'),
    List.getElem?_eq_getElem bound'⟩

theorem renumber_strictMono (increasing : entries.Pairwise (· < ·))
    (increasing' : entries'.Pairwise (· < ·)) (same : entries.length = entries'.length) :
    StrictMonoOn (renumber entries entries') {id | id ∈ entries} := by
  have nodup : entries.Nodup := increasing.imp fun less => less.ne
  intro id mem other mem' less
  obtain ⟨place, bound, rfl⟩ := List.mem_iff_getElem.mp mem
  obtain ⟨place', bound', rfl⟩ := List.mem_iff_getElem.mp mem'
  rw [renumber_eq nodup ⟨place, List.getElem?_eq_getElem bound,
      List.getElem?_eq_getElem (same ▸ bound)⟩,
    renumber_eq nodup ⟨place', List.getElem?_eq_getElem bound',
      List.getElem?_eq_getElem (same ▸ bound')⟩]
  have earlier : place < place' := by
    by_contra later
    rcases (not_lt.mp later).eq_or_lt with rfl | later
    · exact lt_irrefl _ less
    · exact less.asymm (List.pairwise_iff_getElem.mp increasing place' place bound' bound later)
  exact List.pairwise_iff_getElem.mp increasing' place place' (same ▸ bound) (same ▸ bound') earlier

theorem answer_renumber (nodup : entries.Nodup) {answer answer' : Answer}
    (h : SameAnswer entries entries' answer answer') :
    answer.renumber (renumber entries entries') = answer' := by
  unfold SameAnswer at h
  split at h
  · exact congrArg Answer.queued (renumber_eq nodup h)
  · subst h
    cases answer with
    | queued id => rename_i different; exact (different id id rfl rfl).elim
    | done | flag | disabled => rfl

theorem row_renumber (nodup : entries.Nodup) {row row' : HeldRow}
    (h : SameRow entries entries' row row') :
    row.renumber (renumber entries entries') = row' := by
  rw [HeldRow.renumber, renumber_eq nodup h.entry, ← h.rest]

end

/-- A list's answers and its part of the database are, up to an order-preserving renumbering of its
entries in the moderation queue, those of the run without the operations on other lists. -/
theorem lists_isolated (store : Store) (ops : List StoreOp) (list : Text) :
    let own := ops.filter fun op => op.list = list
    let full := runOps StoreOp.perform ops (.start store)
    let solo := runOps StoreOp.perform own (.start store)
    ∃ rename : Nat → Nat,
      StrictMonoOn rename {id | id ∈ full.entries list} ∧
      (full.entries list).map rename = solo.entries list ∧
      (answersTo StoreOp.perform (fun op => op.list = list) ops (.start store)).map
          (Answer.renumber rename) =
        answersTo StoreOp.perform (fun op => op.list = list) own (.start store) ∧
      full.store.listRows list = solo.store.listRows list ∧
      (∀ messageId, (list, messageId) ∈ full.store.seenMessages ↔
        (list, messageId) ∈ solo.store.seenMessages) ∧
      (full.store.held list).map (HeldRow.renumber rename) = solo.store.held list := by
  intro own full solo
  obtain ⟨same, -, answers⟩ := (unwinding list).run ops (sameFor_start list store)
  have nodup : (full.entries list).Nodup := same.numbered.nodup list
  refine ⟨renumber (full.entries list) (solo.entries list), ?_, ?_, ?_, ?_, ?_, ?_⟩
  · exact renumber_strictMono (same.numbered.increasing list) (same.numberedSolo.increasing list)
      same.entries
  · exact map_renumber nodup same.entries
  · rw [← List.forall₂_eq_eq_eq, List.forall₂_map_left_iff]
    exact answers.imp fun _ _ related => answer_renumber nodup related
  · exact Store.listRows_congr same.members
  · exact same.seen
  · rw [← List.forall₂_eq_eq_eq, List.forall₂_map_left_iff]
    exact same.held.imp fun _ _ related => row_renumber nodup related

end Carriers
