import Carriers.Distribution
import Carriers.Moderation
import Carriers.Transactions
import Carriers.ProofKit.Rely

/-! What mail and moderation cannot do.  Connections, with whatever they carry, and the commands of
moderators, in whatever order they all take their steps, enrol nobody, give nobody a role and do not
take up a delivery that was disabled. -/

namespace Carriers

open ProofKit

/-! ### Members -/

/-- What a bounce can do to a row: the roles stay, and a disabled delivery stays disabled. -/
structure MemberRow.Declines (row later : MemberRow) : Prop where
  subscribed : later.subscribed = row.subscribed
  poster : later.poster = row.poster
  moderator : later.moderator = row.moderator
  disabled : row.bounceDisabled = true → later.bounceDisabled = true

theorem MemberRow.Declines.refl (row : MemberRow) : row.Declines row := ⟨rfl, rfl, rfl, id⟩

theorem MemberRow.Declines.trans {row later last : MemberRow} (h : row.Declines later)
    (h' : later.Declines last) : row.Declines last :=
  ⟨h'.subscribed.trans h.subscribed, h'.poster.trans h.poster, h'.moderator.trans h.moderator,
    h'.disabled ∘ h.disabled⟩

theorem MemberRow.declines_bounce (weight threshold : ℚ) (row : MemberRow) :
    row.Declines (Store.MemberRow.bounce weight threshold row) := by
  refine ⟨rfl, rfl, rfl, fun disabled => ?_⟩
  show (if threshold ≤ row.bounceScore + weight then true else row.bounceDisabled) = true
  rw [disabled, ite_self]

/-- No row comes or goes, and every row only declines. -/
def MembersDecline (before after : Store) : Prop :=
  ∀ key, Option.Rel MemberRow.Declines (before.members.lookup key) (after.members.lookup key)

theorem membersDecline_of_same {before after : Store} (same : after.members = before.members) :
    MembersDecline before after := by
  intro key
  rw [same]
  cases before.members.lookup key with
  | none => exact .none
  | some row => exact .some (.refl row)

theorem MembersDecline.trans {before mid after : Store} (h : MembersDecline before mid)
    (h' : MembersDecline mid after) : MembersDecline before after := by
  intro key
  have first := h key
  have second := h' key
  revert first second
  cases before.members.lookup key <;> cases mid.members.lookup key <;>
    cases after.members.lookup key <;> rintro ⟨first⟩ ⟨second⟩
  · exact .none
  · exact .some (first.trans second)

theorem membersDecline_bounce (list address : Text) (weight threshold : ℚ) (store : Store) :
    MembersDecline store (store.recordBounce list address weight threshold).2 := by
  intro key
  by_cases same : key = (list, normalise address)
  · subst same
    cases stored : store.members.lookup (list, normalise address) with
    | none =>
      simp only [Store.recordBounce, stored]
      exact .none
    | some row =>
      simp only [Store.recordBounce, stored, AList.lookup_insert]
      exact .some (row.declines_bounce _ _)
  · rw [recordBounce_lookup same]
    cases store.members.lookup key with
    | none => exact .none
    | some row => exact .some (.refl row)

/-- Whom a list delivers to, it delivered to before. -/
theorem MembersDecline.subscribers {before after : Store} (h : MembersDecline before after)
    (list : Text) : after.subscribers list ⊆ before.subscribers list := by
  intro address mem
  obtain ⟨row, found, subscribed, enabled⟩ := Store.mem_subscribers.mp mem
  have declines := h (list, address)
  rw [found] at declines
  cases first : before.members.lookup (list, address) with
  | none =>
    rw [first] at declines
    cases declines
  | some earlier =>
    rw [first] at declines
    obtain ⟨declines⟩ := declines
    refine Store.mem_subscribers.mpr ⟨earlier, first, declines.subscribed ▸ subscribed, ?_⟩
    by_contra disabled
    rw [Bool.not_eq_false] at disabled
    rw [declines.disabled disabled] at enabled
    cases enabled

/-! ### What a step can do -/

/-- The deployment has loaded the list. -/
def IsLoaded (lists : Lists) (list : MailingList) : Prop := ∃ key, lists.lookup key = some list

/-- The copy is for a subscriber that a list of the deployment had at the start, and bounces to that
list. -/
def Copy.Enrolled (lists : Lists) (start : Store) (copy : Copy) : Prop :=
  ∃ list, IsLoaded lists list ∧ copy.recipient ∈ start.subscribers list.name ∧
    copy.returnPath = verp list.returnPathLocal list.domain copy.recipient

/-- A step that grants nothing: the members decline, what has been recorded, archived and relayed
stays, no entry of the queue is altered or takes the id of an earlier one, and copies only go to
those enrolled at the start. -/
structure GrantsNothing (lists : Lists) (start : Store) (before after : World) : Prop where
  members : MembersDecline before.store after.store
  seen : before.store.seenMessages ⊆ after.store.seenMessages
  ids : before.store.queue.lastId ≤ after.store.queue.lastId
  entries : ∀ row ∈ after.store.queue.rows,
    row ∈ before.store.queue.rows ∨ before.store.queue.lastId < row.id
  archive : before.archive <+: after.archive
  relayed : ∃ copies, after.relayed = before.relayed ++ copies ∧
    ∀ copy ∈ copies, copy.Enrolled lists start

section
variable {lists : Lists} {start : Store}

theorem grantsNothing_refl (world : World) : GrantsNothing lists start world world :=
  ⟨membersDecline_of_same rfl, subset_rfl, le_rfl, fun _ => .inl, List.prefix_rfl,
    [], (List.append_nil _).symm, nofun⟩

theorem GrantsNothing.trans {first second third : World}
    (h : GrantsNothing lists start first second) (h' : GrantsNothing lists start second third) :
    GrantsNothing lists start first third := by
  refine ⟨h.members.trans h'.members, h.seen.trans h'.seen, h.ids.trans h'.ids, fun row mem => ?_,
    h.archive.trans h'.archive, ?_⟩
  · rcases h'.entries row mem with mem | later
    · exact h.entries row mem
    · exact .inr (h.ids.trans_lt later)
  · obtain ⟨copies, relayed, enrolled⟩ := h.relayed
    obtain ⟨copies', relayed', enrolled'⟩ := h'.relayed
    refine ⟨copies ++ copies', by rw [relayed', relayed, List.append_assoc], fun copy mem => ?_⟩
    exact (List.mem_append.mp mem).elim (enrolled copy) (enrolled' copy)

/-- A statement that touches neither the Message-IDs nor the queue. -/
theorem grantsNothing_members {world : World} {store : Store}
    (members : MembersDecline world.store store)
    (seen : store.seenMessages = world.store.seenMessages)
    (queue : store.queue = world.store.queue) :
    GrantsNothing lists start world { world with store } :=
  ⟨members, seen.symm.subset, queue ▸ le_rfl, fun _ mem => .inl (queue ▸ mem), List.prefix_rfl,
    [], (List.append_nil _).symm, nofun⟩

/-! ### Each kind of step -/

theorem archive_grantsNothing : AllowsArchive (GrantsNothing lists start) := fun _ message =>
  ⟨membersDecline_of_same rfl, subset_rfl, le_rfl, fun _ => .inl, ⟨[message], rfl⟩,
    [], (List.append_nil _).symm, nofun⟩

theorem record_grantsNothing : AllowsRecord (GrantsNothing lists start) := fun world list id =>
  { members := membersDecline_of_same (recordMessage_members list id world.store)
    seen := fun _ mem => (@mem_recordMessage_iff (list, id) _ _).mpr (.inl mem)
    ids := (recordMessage_queue list id world.store).symm ▸ le_rfl
    entries := fun _ mem => .inl (recordMessage_queue list id world.store ▸ mem)
    archive := List.prefix_rfl
    relayed := ⟨[], (List.append_nil _).symm, nofun⟩ }

theorem hold_grantsNothing : AllowsHold (GrantsNothing lists start) := by
  intro world list mailFrom helo remoteIp sender subject raw
  refine ⟨membersDecline_of_same rfl, subset_rfl, Nat.le_succ _, fun row mem => ?_,
    List.prefix_rfl, [], (List.append_nil _).symm, nofun⟩
  rcases List.mem_append.mp mem with old | new
  · exact .inl old
  · obtain rfl := List.mem_singleton.mp new
    exact .inr (Nat.lt_succ_self _)

theorem recordBounce_grantsNothing (list address : Text) (weight threshold : ℚ) (world : World) :
    GrantsNothing lists start world
      { world with store := (world.store.recordBounce list address weight threshold).2 } := by
  refine grantsNothing_members (membersDecline_bounce list address weight threshold _) ?_ ?_
  · rw [Store.recordBounce]
    split <;> rfl
  · rw [Store.recordBounce]
    split <;> rfl

theorem deleteHeld_grantsNothing (id : Nat) (world : World) :
    GrantsNothing lists start world { world with store := (world.store.deleteHeld id).2 } :=
  ⟨membersDecline_of_same rfl, subset_rfl, le_rfl, fun _ mem => .inl (List.mem_filter.mp mem).1,
    List.prefix_rfl, [], (List.append_nil _).symm, nofun⟩

theorem relay_grantsNothing {copy : Copy} (enrolled : copy.Enrolled lists start) (world : World) :
    GrantsNothing lists start world { world with relayed := world.relayed ++ [copy] } :=
  ⟨membersDecline_of_same rfl, subset_rfl, le_rfl, fun _ => .inl, List.prefix_rfl,
    [copy], rfl, fun _ mem => List.mem_singleton.mp mem ▸ enrolled⟩

/-! ### Posts -/

/-- No list delivers to anybody to whom it did not deliver at the start. -/
def NobodyNew (start : Store) (world : World) : Prop :=
  ∀ list, world.store.subscribers list ⊆ start.subscribers list

theorem nobodyNew_keep {before after : World} (h : NobodyNew start before)
    (step : GrantsNothing lists start before after) : NobodyNew start after :=
  fun list => List.Subset.trans (step.members.subscribers list) (h list)

/-- In a deployment that enrols nobody new, every step of the program grants nothing. -/
def Harmless (lists : Lists) (start : Store) {ε α : Type} (program : Proc World ε α) : Prop :=
  program.Guarantees (NobodyNew start) (GrantsNothing lists start) fun _ => True

section
variable {state : AppState} {outside : Outside} {p : Pipeline} {list : MailingList}
  {ingress : Ingress} {raw : Bytes}

theorem finalize_grantsNothing :
    (p.finalize list ingress raw).Within (GrantsNothing lists start) :=
  finalize_within grantsNothing_refl archive_grantsNothing hold_grantsNothing

theorem intake_grantsNothing : (p.intake list ingress raw).Within (GrantsNothing lists start) :=
  intake_within grantsNothing_refl archive_grantsNothing hold_grantsNothing record_grantsNothing

theorem sendAll_grantsNothing {prepared : Prepared} {recipients : List Text}
    (enrolled : ∀ recipient ∈ recipients, ∀ body, Copy.Enrolled lists start
      ⟨verp prepared.returnPathLocal prepared.listDomain recipient, recipient, body⟩)
    (index count : Nat) :
    (sendAll outside list prepared index count recipients).Within (GrantsNothing lists start) := by
  induction recipients generalizing index count with
  | nil => trivial
  | cons recipient recipients ih =>
    obtain ⟨first, rest⟩ := List.forall_mem_cons.mp enrolled
    refine (Proc.within_ofExcept _).bind fun body => ?_
    split
    · exact Proc.Within.bind (Proc.within_transact (relay_grantsNothing (first body)))
        fun _ => ih rest _ _
    · exact ih rest _ _

/-- What a post that is for the subscribers of the list comes to. -/
theorem conclude_grantsNothing (loaded : IsLoaded lists list) {disposition : Disposition}
    (addressed : disposition.Kept ∨ ∃ world _after : World, NobodyNew start world ∧
      AddressedIn list world disposition) :
    (conclude state outside list disposition).Within (GrantsNothing lists start) := by
  refine conclude_within_of fun prepared distributed => ?_
  rcases addressed with kept | ⟨world, -, nobodyNew, addressed⟩
  · exact absurd distributed (kept prepared)
  · obtain ⟨recipients, returnPathLocal, listDomain⟩ := addressed prepared distributed
    refine sendAll_grantsNothing (fun recipient mem body => ?_) 0 0
    rw [recipients] at mem
    exact ⟨list, loaded, nobodyNew list.name mem, by rw [returnPathLocal, listDomain]⟩

theorem distributeApproved_harmless (loaded : IsLoaded lists list) :
    Harmless lists start (distributeApproved state outside list ingress raw) :=
  (finalize_founded.guarantees finalize_grantsNothing).bind fun _ addressed =>
    (conclude_grantsNothing loaded addressed).guarantees

theorem handleOne_harmless (loaded : IsLoaded lists list) :
    Harmless lists start (handleOne state outside list ingress raw) := by
  refine ((intake_founded.guarantees intake_grantsNothing).attempt
    (P := fun result => ∀ disposition, result = .ok disposition →
      (conclude state outside list disposition).Within (GrantsNothing lists start))
    (fun disposition addressed => ?_) fun _ => nofun).bind fun result concludes => ?_
  · rintro _ ⟨⟩
    exact conclude_grantsNothing loaded addressed
  · split
    · exact (concludes _ rfl).guarantees
    · trivial
    · trivial

/-! ### Connections -/

/-- The recipient is one of a loaded list. -/
def Recipient.IsLoaded (lists : Lists) : Recipient → Prop
  | .post list | .bounce list _ => Carriers.IsLoaded lists list

theorem classifyRecipient_isLoaded {address : Text} {recipient : Recipient}
    (classified : classifyRecipient lists address = some recipient) : recipient.IsLoaded lists := by
  have post (found : (listForAddress lists address).map Recipient.post = some recipient) :
      recipient.IsLoaded lists := by
    obtain ⟨list, lookup, rfl⟩ := Option.map_eq_some_iff.mp found
    exact ⟨_, lookup⟩
  rw [classifyRecipient] at classified
  split at classified
  · split at classified
    · rename_i lookup
      cases classified
      exact ⟨_, lookup⟩
    · exact post classified
  · exact post classified

theorem respond_isLoaded {session : Session}
    (loaded : ∀ recipient ∈ session.recipients, recipient.IsLoaded state.lists)
    (request : Option Request) :
    ∀ recipient ∈ (respond state session request).1.recipients,
      recipient.IsLoaded state.lists := by
  cases request with
  | none => exact loaded
  | some request =>
    cases request with
    | ehlo | lhlo | helo | mail | rset => exact List.forall_mem_nil _
    | data | noop | quit | other => exact loaded
    | rcpt address =>
      rw [respond, receiveRecipient]
      split
      · exact loaded
      · split
        · rename_i classified
          intro recipient mem
          rcases List.mem_append.mp mem with mem | mem
          · exact loaded recipient mem
          · exact List.mem_singleton.mp mem ▸ classifyRecipient_isLoaded classified
        · exact loaded

theorem recipientReply_harmless {recipient : Recipient} (loaded : recipient.IsLoaded lists) :
    Harmless lists start (recipientReply state outside ingress raw recipient) := by
  cases recipient with
  | post list =>
    have handles : (handleOne state outside list ingress raw).Guarantees (NobodyNew start)
        (GrantsNothing lists start) fun _ => True := handleOne_harmless loaded
    have replies : ((handleOne state outside list ingress raw).attempt :
        Proc World Error _).Guarantees (NobodyNew start) (GrantsNothing lists start)
        fun _ => True :=
      handles.attempt (fun _ _ => trivial) fun _ => trivial
    exact replies.bind fun _ _ => trivial
  | bounce list address =>
    have records : (handleBounce state.config.bounce (outside.db .intake .recordBounce) list address
        raw).Within (GrantsNothing lists start) := by
      rw [handleBounce]
      split
      · trivial
      · exact (sql_within fun world => recordBounce_grantsNothing _ _ _ _ world).bind
          fun _ => Proc.within_pure _
    exact (records.attempt.guarantees (I := NobodyNew start)).bind fun _ _ => trivial

/-- What is guaranteed for every recipient is guaranteed for all of them. -/
theorem process_guarantees {I : World → Prop} {R : World → World → Prop}
    {outside : Nat → Outside} {recipients : List Recipient}
    (each : ∀ recipient ∈ recipients, ∀ outside : Outside,
      (recipientReply state outside ingress raw recipient).Guarantees I R fun _ => True) :
    (process state ingress raw outside recipients).Guarantees I R fun _ => True := by
  induction recipients generalizing outside with
  | nil => trivial
  | cons recipient recipients ih =>
    obtain ⟨first, rest⟩ := List.forall_mem_cons.mp each
    exact (first _).bind fun _ _ => (ih rest).bind fun _ _ => trivial

end

variable {state : AppState} {parse : Bytes → Option Request} {remoteIp : IpAddr}

section
variable {I : World → Prop} {R : World → World → Prop}
  (each : ∀ recipient : Recipient, recipient.IsLoaded state.lists →
    ∀ (outside : Outside) (ingress : Ingress) (raw : Bytes),
      (recipientReply state outside ingress raw recipient).Guarantees I R fun _ => True)
include each

/-- What is guaranteed for every recipient of a loaded list is guaranteed for a connection, whatever
bytes it carries. -/
theorem commandLoop_guarantees {session : Session}
    (loaded : ∀ recipient ∈ session.recipients, recipient.IsLoaded state.lists) (reader : Reader)
    (outside : Nat → Nat → Outside) :
    (commandLoop state parse remoteIp session reader outside).Guarantees I R fun _ => True := by
  induction hlength : reader.bytes.length using Nat.strong_induction_on
    generalizing session reader outside with
  | _ length ih =>
  subst hlength
  cases read : reader.readUntil lf with
  | error error =>
    rw [commandLoop_lost read]
    trivial
  | ok received =>
    obtain ⟨line, next⟩ := received
    by_cases empty : line = []
    · subst empty
      rw [commandLoop_empty read]
      trivial
    have shorter : next.bytes.length < reader.bytes.length := by
      have := List.length_pos_of_ne_nil empty
      have := Reader.readUntil_length read
      omega
    rw [commandLoop_line read empty]
    split
    · trivial
    · split
      · cases message : readData next with
        | error error => trivial
        | ok received =>
          obtain ⟨raw, rest⟩ := received
          have := readDataFrom_le message
          refine (process_guarantees fun recipient mem outside =>
            each recipient (loaded recipient mem) outside (session.ingress remoteIp) raw).bind ?_
          exact fun _ _ => (ih _ (by omega) (List.forall_mem_nil _) rest _ rfl).bind fun _ _ =>
            trivial
      · exact (ih _ shorter (respond_isLoaded loaded _) next outside rfl).bind fun _ _ => trivial

theorem handleConnection_guarantees (reader : Reader) (outside : Nat → Nat → Outside) :
    (handleConnection state parse remoteIp reader outside).Guarantees I R fun _ => True :=
  (commandLoop_guarantees each (List.forall_mem_nil _) reader outside).bind fun _ _ => trivial

end

theorem handleConnection_harmless (reader : Reader) (outside : Nat → Nat → Outside) :
    Harmless state.lists start (handleConnection state parse remoteIp reader outside) :=
  handleConnection_guarantees (fun _ loaded _ _ _ => recipientReply_harmless loaded) reader outside

/-! ### Commands of moderators -/

theorem listByName_isLoaded {name : Text} {list : MailingList}
    (found : listByName lists name = some list) : IsLoaded lists list := by
  obtain ⟨⟨key, _⟩, entry, rfl⟩ := List.mem_map.mp (List.mem_of_find?_eq_some found)
  exact ⟨key, AList.mem_lookup_iff.mpr entry⟩

theorem approve_harmless (parseIp : Text → Option IpAddr) (loaded : Except CommandError Unit)
    (faults : CommandFaults) (outside : Outside) (id : Nat) :
    Harmless state.lists start
      (Moderate.approve parseIp (loaded.map fun _ => state) faults outside id) := by
  cases loaded with
  | error error => trivial
  | ok =>
    have queries : ((sql faults.getHeld fun store => (store.getHeld id, store)).mapError
        CommandError.core).Within (GrantsNothing state.lists start) :=
      (sql_within fun world => grantsNothing_refl world).mapError
    refine queries.guarantees.bind fun found _ => ?_
    cases found with
    | none => trivial
    | some held =>
      dsimp only
      cases lookup : listByName state.lists held.list with
      | none => trivial
      | some list =>
        have distributes : Harmless state.lists start
            (distributeApproved state outside list (ingressOf parseIp held) held.raw) :=
          distributeApproved_harmless (listByName_isLoaded lookup)
        have deletes : ((sql faults.deleteHeld (Store.deleteHeld id)).mapError
            CommandError.core).Within (GrantsNothing state.lists start) :=
          (sql_within fun world => deleteHeld_grantsNothing id world).mapError
        exact (Proc.Guarantees.mapError distributes).bind fun _ _ =>
          deletes.guarantees.bind fun _ _ => trivial

theorem reject_harmless (opened : Except CommandError Unit) (faults : CommandFaults) (id : Nat) :
    Harmless lists start (Moderate.reject opened faults id) := by
  cases opened with
  | error error => trivial
  | ok =>
    have deletes : ((sql faults.deleteHeld (Store.deleteHeld id)).mapError
        CommandError.core).Within (GrantsNothing lists start) :=
      (sql_within fun world => deleteHeld_grantsNothing id world).mapError
    refine deletes.guarantees.bind fun deleted _ => ?_
    split
    · trivial
    · trivial

end

/-! ### Every interleaving -/

/-- A task of a deployment that does not belong to the administration of its members. -/
inductive Task where
  | connection (parse : Bytes → Option Request) (remoteIp : IpAddr) (reader : Reader)
    (outside : Nat → Nat → Outside)
  | approve (parseIp : Text → Option IpAddr) (loaded : Except CommandError Unit)
    (faults : CommandFaults) (outside : Outside) (id : Nat)
  | reject (opened : Except CommandError Unit) (faults : CommandFaults) (id : Nat)

def Task.program (state : AppState) : Task → Proc World CommandError Unit
  | .connection parse remoteIp reader outside => do
    let _ ← (handleConnection state parse remoteIp reader outside).mapError .core
    return ()
  | .approve parseIp loaded faults outside id => do
    let _ ← Moderate.approve parseIp (loaded.map fun _ => state) faults outside id
    return ()
  | .reject opened faults id => Moderate.reject opened faults id

theorem Task.harmless (state : AppState) (start : Store) (task : Task) :
    Harmless state.lists start (task.program state) := by
  cases task with
  | connection parse remoteIp reader outside =>
    exact (Proc.Guarantees.mapError (handleConnection_harmless reader outside)).bind
      fun _ _ => trivial
  | approve parseIp loaded faults outside id =>
    exact Proc.Guarantees.bind (approve_harmless parseIp loaded faults outside id)
      fun _ _ => trivial
  | reject opened faults id => exact reject_harmless opened faults id

/-- The tasks of a deployment, each on its own. -/
def taskPool {ι : Type} (state : AppState) (tasks : ι → Task) (start : World) :
    Pool ι World CommandError Unit :=
  { state := start, thread := fun i => (tasks i).program state }

end Carriers
