import Carriers.Deduplication
import Carriers.Membership
import Carriers.ProofKit.Trace

/-! Who gets copies of a post, whatever else the daemon and the command line do in the meantime. -/

namespace Carriers

open ProofKit
open ProofKit.Sieve (MailView)

/-! ### Copies of one step -/

/-- The copies that the smarthost accepts in a step. -/
def newCopies (before after : World) : List Copy := after.relayed.drop before.relayed.length

theorem newCopies_self (world : World) : newCopies world world = [] := by
  rw [newCopies, List.drop_length]

theorem newCopies_of_same {before after : World} (same : after.relayed = before.relayed) :
    newCopies before after = [] := by
  rw [newCopies, same, List.drop_length]

theorem newCopies_append (world : World) (copies : List Copy) :
    newCopies world { world with relayed := world.relayed ++ copies } = copies :=
  List.drop_left

/-! ### What one run sends -/

/-- The copies of one post are due to the subscribers of the list in `world`, to each at most one,
and what becomes of a copy is reported to the list under the name of its recipient. -/
structure DueIn (list : MailingList) (world : World) (copies : List Copy) : Prop where
  recipients : (copies.map Copy.recipient).Sublist (world.store.subscribers list.name)
  returnPaths : ∀ copy ∈ copies,
    copy.returnPath = verp list.returnPathLocal list.domain copy.recipient

theorem dueIn_nil (list : MailingList) (world : World) : DueIn list world [] :=
  ⟨List.nil_sublist _, nofun⟩

/-- The post is for the subscribers of the list in `world`. -/
def AddressedIn (list : MailingList) (world : World) (disposition : Disposition) : Prop :=
  ∀ prepared, disposition = .distribute prepared →
    prepared.recipients = world.store.subscribers list.name ∧
      prepared.returnPathLocal = list.returnPathLocal ∧ prepared.listDomain = list.domain

def Disposition.Kept (disposition : Disposition) : Prop :=
  ∀ prepared, disposition ≠ .distribute prepared

namespace Disposition

theorem kept_held (id : Nat) : (held id).Kept := fun _ same => Disposition.noConfusion same

theorem kept_discarded (reason : Text) : (discarded reason).Kept :=
  fun _ same => Disposition.noConfusion same

theorem kept_rejected (reason : Text) : (rejected reason).Kept :=
  fun _ same => Disposition.noConfusion same

end Disposition

section
variable {state : AppState} {outside : Outside} {p : Pipeline} {list : MailingList}
  {ingress : Ingress} {raw : Bytes}

theorem prepare_founded (verdict : AuthVerdict) (outcome : PolicyOutcome) :
    (p.prepare list ingress raw verdict outcome >>= fun prepared =>
      (pure (.distribute prepared) : Proc World Error Disposition)).Founded Disposition.Kept
        fun world _ => AddressedIn list world := by
  rw [Pipeline.prepare]
  cases p.outside.db .finalize .subscribers with
  | some e => trivial
  | none =>
    simp only [sql, bind_assoc, pure_bind]
    refine Proc.founded_transact fun world => ?_
    refine Proc.returns_bind fun augmented => Proc.returns_bind fun message => ?_
    refine .inr fun prepared same => ?_
    obtain rfl := Disposition.distribute.inj same
    exact ⟨rfl, rfl, rfl⟩

theorem hold_founded (stage : Stage) (sender subject : Option Text) :
    (p.hold list ingress raw stage sender subject).Founded Disposition.Kept
      fun world _ => AddressedIn list world :=
  Proc.founded_bind _ fun _ => Disposition.kept_held _

theorem finalize_founded :
    (p.finalize list ingress raw).Founded Disposition.Kept
      fun world _ => AddressedIn list world := by
  rw [Pipeline.finalize]
  refine Proc.founded_bind _ fun sets => Proc.founded_bind _ fun verdict => ?_
  refine Proc.founded_bind _ fun outcome => Proc.founded_bind _ fun _ => ?_
  cases outcome.decision with
  | approve => exact prepare_founded _ _
  | moderate => exact hold_founded _ _ _
  | discard => exact Disposition.kept_discarded _
  | reject => exact Disposition.kept_rejected _

theorem moderate_founded (parsed : Message) :
    (p.moderate list ingress raw parsed).Founded Disposition.Kept
      fun world _ => AddressedIn list world := by
  rw [Pipeline.moderate]
  refine Proc.founded_bind _ fun sets => Proc.founded_bind _ fun verdict => ?_
  refine Proc.founded_bind _ fun outcome => Proc.founded_bind _ fun _ => ?_
  cases outcome.decision with
  | approve => exact finalize_founded
  | moderate => exact hold_founded _ _ _
  | discard => exact Disposition.kept_discarded _
  | reject => exact Disposition.kept_rejected _

theorem intake_founded :
    (p.intake list ingress raw).Founded Disposition.Kept
      fun world _ => AddressedIn list world := by
  rw [Pipeline.intake]
  cases p.libs.parse raw with
  | none => trivial
  | some parsed =>
    refine Proc.founded_bind _ fun isLoop => ?_
    cases isLoop with
    | true => exact Disposition.kept_discarded _
    | false =>
      refine Proc.founded_bind _ fun isDuplicate => ?_
      cases isDuplicate with
      | true => exact Disposition.kept_discarded _
      | false => exact moderate_founded parsed

def KeepsRelayed (before after : World) : Prop := after.relayed = before.relayed

theorem silent_of_keepsRelayed {α : Type} {program : Proc World Error α}
    (keeps : program.Within KeepsRelayed) : program.Silent newCopies := by
  induction program with
  | pure | throw => trivial
  | act update next ih => exact fun s => ⟨newCopies_of_same (keeps s).1, ih s (keeps s).2⟩

theorem finalize_silent : (p.finalize list ingress raw).Silent newCopies :=
  silent_of_keepsRelayed (finalize_within (R := KeepsRelayed) (fun _ => rfl) (fun _ _ => rfl)
    fun _ _ _ _ _ _ _ _ => rfl)

theorem intake_silent : (p.intake list ingress raw).Silent newCopies :=
  silent_of_keepsRelayed (intake_within (R := KeepsRelayed) (fun _ => rfl) (fun _ _ => rfl)
    (fun _ _ _ _ _ _ _ _ => rfl) fun _ _ _ => rfl)

/-- The copies of a run of the loop are for its recipients, in order. -/
theorem sendAll_emits (prepared : Prepared) (index count : Nat) (recipients : List Text) :
    (sendAll outside list prepared index count recipients).Emits newCopies fun copies =>
      (copies.map Copy.recipient).Sublist recipients ∧ ∀ copy ∈ copies,
        copy.returnPath = verp prepared.returnPathLocal prepared.listDomain copy.recipient := by
  induction recipients generalizing index count with
  | nil => exact fun _ => ⟨List.nil_sublist _, nofun⟩
  | cons recipient recipients ih =>
    refine Proc.Emits.bind (Proc.within_ofExcept _) ⟨List.nil_sublist _, nofun⟩
      (Proc.returns_trivial _) fun body _ met => ?_
    split
    · cases met with
      | nil => exact ⟨List.nil_sublist _, nofun⟩
      | cons world met =>
        obtain ⟨sublist, paths⟩ := ih (index + 1) (count + 1) met
        show (List.map Copy.recipient (newCopies world _ ++ _)).Sublist _ ∧
          ∀ copy ∈ newCopies world _ ++ _, _
        rw [newCopies_append]
        exact ⟨sublist.cons_cons _, List.forall_mem_cons.mpr ⟨rfl, paths⟩⟩
    · obtain ⟨sublist, paths⟩ := ih (index + 1) count met
      exact ⟨sublist.cons _, paths⟩

theorem conclude_silent {disposition : Disposition} (kept : disposition.Kept) :
    (conclude state outside list disposition).Silent newCopies := by
  cases disposition with
  | distribute prepared => exact absurd rfl (kept prepared)
  | held | discarded | rejected => trivial

theorem conclude_emits {world : World} {disposition : Disposition}
    (addressed : AddressedIn list world disposition) :
    (conclude state outside list disposition).Emits newCopies (DueIn list world) := by
  cases disposition with
  | held | discarded | rejected => exact fun _ => dueIn_nil _ _
  | distribute prepared =>
    obtain ⟨recipients, returnPathLocal, listDomain⟩ := addressed prepared rfl
    intro met
    rw [conclude, Proc.emitted_bind_silent fun _ => Proc.within_pure _, deliver]
    split
    · exact dueIn_nil _ _
    · split
      · exact dueIn_nil _ _
      · split
        · have sends : (sendAll outside list prepared 0 0 prepared.recipients).Emits newCopies _ :=
            sendAll_emits prepared 0 0 prepared.recipients
          obtain ⟨sublist, paths⟩ := sends met
          exact ⟨recipients ▸ sublist, returnPathLocal ▸ listDomain ▸ paths⟩
        · exact dueIn_nil _ _

theorem distributeApproved_owes :
    (distributeApproved state outside list ingress raw).Owes newCopies fun world _ =>
      DueIn list world :=
  Proc.Owes.bind finalize_silent (fun world _ => dueIn_nil list world) finalize_founded
    (fun _ kept => conclude_silent kept) fun _ _ _ addressed => conclude_emits addressed

theorem handleOne_owes :
    (handleOne state outside list ingress raw).Owes newCopies fun world _ => DueIn list world := by
  refine Proc.Owes.bind (N := fun result => ∀ disposition, result = .ok disposition →
      disposition.Kept) (Q := fun world _ result => ∀ disposition, result = .ok disposition →
      AddressedIn list world disposition)
    intake_silent.attempt (fun world _ => dueIn_nil list world)
    (intake_founded.attempt ?_ (fun _ => nofun) ?_) ?_ ?_
  · rintro disposition kept _ ⟨⟩
    exact kept
  · rintro world _ disposition addressed _ ⟨⟩
    exact addressed
  · intro result kept
    split
    · exact conclude_silent (kept _ rfl)
    · trivial
    · trivial
  · intro world _ result addressed
    split
    · exact conclude_emits (addressed _ rfl)
    · exact fun _ => dueIn_nil _ _
    · exact fun _ => dueIn_nil _ _

/-- Tasks that send out a post: one that takes in a message, and one for a message that a moderator
has approved. -/
inductive SendsOut (list : MailingList) : Proc World Error Outcome → Prop
  | arrival (state : AppState) (outside : Outside) (ingress : Ingress) (raw : Bytes) :
    SendsOut list (handleOne state outside list ingress raw)
  | approval (state : AppState) (outside : Outside) (ingress : Ingress) (raw : Bytes) :
    SendsOut list (distributeApproved state outside list ingress raw)

theorem SendsOut.owes {program : Proc World Error Outcome} (sends : SendsOut list program) :
    program.Owes newCopies fun world _ => DueIn list world := by
  cases sends with
  | arrival => exact handleOne_owes
  | approval => exact distributeApproved_owes

end

/-! ### Every interleaving -/

section
variable {ι : Type} [DecidableEq ι]

/-- What a task has sent along a schedule: nothing yet, or copies for those whom the list delivered
to in one of the states that the task itself met, before it sent the first of them. -/
structure SentToSubscribers (list : MailingList) (pool : Pool ι World Error Outcome)
    (schedule : List ι) (i : ι) : Prop where
  due : pool.emittedBy newCopies i schedule = [] ∨
    ∃ before rest, schedule = before ++ i :: rest ∧ pool.emittedBy newCopies i before = [] ∧
      DueIn list (pool.after before).state (pool.emittedBy newCopies i schedule)
  subscribed : ∀ copy ∈ pool.emittedBy newCopies i schedule, ∃ before rest row,
    schedule = before ++ i :: rest ∧
      (pool.after before).state.store.members.lookup (list.name, copy.recipient) = some row ∧
      row.subscribed = true ∧ row.bounceDisabled = false
  once : ((pool.emittedBy newCopies i schedule).map Copy.recipient).Nodup

/-- Copies only go to subscribers: whatever the other tasks are, and in whatever order all of them
take their steps, a task that sends out a post sends each copy to an address that was subscribed and
not disabled when the task asked for the subscribers, and no two to one address. -/
theorem copies_onlyToSubscribers {list : MailingList} (pool : Pool ι World Error Outcome) {i : ι}
    (sends : SendsOut list (pool.thread i)) (schedule : List ι) :
    SentToSubscribers list pool schedule i := by
  have due := Pool.emittedBy_owes newCopies_self sends.owes schedule
  refine ⟨due, fun copy mem => ?_, ?_⟩
  · rcases due with none | ⟨before, rest, split, -, due⟩
    · rw [none] at mem
      cases mem
    · have isSubscriber := due.recipients.subset (List.mem_map_of_mem mem)
      obtain ⟨row, found, delivers⟩ := Store.mem_subscribers.mp isSubscriber
      exact ⟨before, rest, row, split, found, delivers⟩
  · rcases due with none | ⟨before, rest, -, -, due⟩
    · rw [none]
      exact .nil
    · have increasing := Store.subscribers_increasing list.name (pool.after before).state.store
      exact (increasing.imp fun lt => lt.ne).sublist due.recipients

end

/-- The post of Alice arrives while Bob is removed from the list. -/
def removalPool : Pool Bool World Error Outcome :=
  { state := .initial devSubscribed
    thread := fun i =>
      if i then handleOne aliceState calmOutside devList aliceIngress alicesPost
      else do
        sql none fun store => ((), store.removeMember "dev".toList "bob@example.com".toList)
        return .discarded [] }

/-- Bob still gets a copy if the post was past the query when he left, and none before it. -/
theorem copies_onlyToSubscribers_removal :
    SentToSubscribers devList removalPool [true, true, true, false, true, true, true] true ∧
      (removalPool.emittedBy newCopies true [true, true, true, false, true, true, true]).map
        Copy.recipient = ["alice@example.com".toList] ∧
      (removalPool.emittedBy newCopies true [true, true, true, true, false, true, true]).map
        Copy.recipient = ["alice@example.com".toList, "bob@example.com".toList] :=
  ⟨copies_onlyToSubscribers removalPool (.arrival aliceState calmOutside aliceIngress alicesPost) _,
    by decide +kernel, by decide +kernel⟩

/-! ### Messages that arrive many times -/

/-- A message arrives at a list. -/
structure Arrival where
  state : AppState
  outside : Outside
  list : MailingList
  ingress : Ingress
  raw : Bytes

namespace Arrival

def program (arrival : Arrival) : Proc World Error Outcome :=
  handleOne arrival.state arrival.outside arrival.list arrival.ingress arrival.raw

/-- The list and the Message-ID of the message are those of the key. -/
def Keyed (view : MailView) (key : Text × Text) (arrival : Arrival) : Prop :=
  arrival.list.name = key.1 ∧ view.messageId arrival.raw = some key.2

instance (view : MailView) (key : Text × Text) (arrival : Arrival) :
    Decidable (arrival.Keyed view key) := inferInstanceAs (Decidable (_ ∧ _))

end Arrival

/-- A step records a key that was not known. -/
def Records (key : Text × Text) (before after : World) : Prop :=
  key ∉ before.store.seenMessages ∧ key ∈ after.store.seenMessages

def SeenGrows (before after : World) : Prop :=
  before.store.seenMessages ⊆ after.store.seenMessages

theorem seenGrows_refl (world : World) : SeenGrows world world := subset_rfl

section
variable {view : MailView} {arrival : Arrival} {key : Text × Text}

theorem program_seenGrows (arrival : Arrival) : arrival.program.Within SeenGrows := by
  have relays : AllowsRelay SeenGrows := fun world _ => seenGrows_refl world
  have intake : ((arrival.state.pipeline arrival.outside).intake arrival.list arrival.ingress
      arrival.raw).Within SeenGrows :=
    intake_within seenGrows_refl (fun world _ => seenGrows_refl world)
      (fun world _ _ _ _ _ _ _ => seenGrows_refl world)
      fun world list messageId _ mem =>
        (@mem_recordMessage_iff (list, messageId) _ _).mpr (.inl mem)
  refine intake.attempt.bind fun result => ?_
  split
  · exact conclude_within relays _
  · trivial
  · trivial

/-- Before an arrival sends anything, it has recorded its Message-ID as a new one. -/
theorem handleOne_owesRecord {state : AppState} {outside : Outside} {list : MailingList}
    {ingress : Ingress} {raw : Bytes} {id : Text} (builtins : state.policy.BuiltinsOf view)
    (messageId : view.messageId raw = some id) :
    (handleOne state outside list ingress raw).Owes newCopies fun before after copies =>
      copies = [] ∨ Records (list.name, id) before after := by
  rw [handleOne]
  cases parses : state.libs.parse raw with
  | none =>
    rw [Pipeline.intake, show (state.pipeline outside).libs.parse raw = none from parses]
    trivial
  | some parsed =>
    rw [intake_eq (p := state.pipeline outside) builtins parses messageId]
    split
    · trivial
    · cases works : outside.db .intake .recordMessage with
      | some e =>
        rw [show (state.pipeline outside).outside.db .intake .recordMessage = some e from works]
        trivial
      | none =>
        rw [show (state.pipeline outside).outside.db .intake .recordMessage = none from works]
        intro world
        refine ⟨newCopies_of_same rfl, .inr ?_⟩
        have first := recordMessage_fst (list.name, id) world.store
        show Proc.Emits newCopies _ (Proc.bind (Proc.attempt
          (if (world.store.recordMessage list.name id).1 then _ else _)) _)
        rw [first]
        by_cases seen : (list.name, id) ∈ world.store.seenMessages
        · rw [decide_eq_false (not_not_intro seen)]
          exact fun _ => .inl rfl
        · exact fun _ => .inr ⟨seen, (@mem_recordMessage_iff (list.name, id) _ _).mpr (.inr rfl)⟩

theorem program_owes (builtins : arrival.state.policy.BuiltinsOf view)
    (keyed : arrival.Keyed view key) : arrival.program.Owes newCopies fun before after copies =>
      copies = [] ∨ Records key before after := by
  rw [← show (arrival.list.name, key.2) = key from Prod.ext keyed.1 rfl]
  exact handleOne_owesRecord builtins keyed.2

/-- The smarthost takes nothing back. -/
def RelayedGrows (before after : World) : Prop :=
  after.relayed = before.relayed ++ newCopies before after

theorem relayedGrows_of_same {before after : World} (same : after.relayed = before.relayed) :
    RelayedGrows before after := by
  rw [RelayedGrows, newCopies_of_same same, same, List.append_nil]

theorem program_relays (arrival : Arrival) : arrival.program.Within RelayedGrows := by
  have relays : AllowsRelay RelayedGrows := fun world copy =>
    congrArg (world.relayed ++ ·) (newCopies_append world [copy]).symm
  have intake : ((arrival.state.pipeline arrival.outside).intake arrival.list arrival.ingress
      arrival.raw).Within RelayedGrows :=
    intake_within (fun _ => relayedGrows_of_same rfl) (fun _ _ => relayedGrows_of_same rfl)
      (fun _ _ _ _ _ _ _ _ => relayedGrows_of_same rfl) fun _ _ _ => relayedGrows_of_same rfl
  refine intake.attempt.bind fun result => ?_
  split
  · exact conclude_within relays _
  · trivial
  · trivial

end

section
variable {ι : Type} [DecidableEq ι] {view : MailView}

/-- Arrivals of any number of messages, each in a task of its own. -/
def arrivalPool (arrivals : ι → Arrival) (start : World) : Pool ι World Error Outcome :=
  { state := start, thread := fun i => (arrivals i).program }

variable {arrivals : ι → Arrival} {start : World} {schedule : List ι} {key : Text × Text}

/-- Of two arrivals with one key only one records it. -/
theorem records_once {i j : ι} (hi : (arrivalPool arrivals start).Takes (Records key) schedule i)
    (hj : (arrivalPool arrivals start).Takes (Records key) schedule j) : i = j := by
  by_contra distinct
  obtain ⟨before, k, l, rest, -, -, second, earlier, between, rfl, first⟩ :=
    Pool.takes_order distinct hi hj
  have within (i : ι) : (((arrivalPool arrivals start).after (earlier ++ [k])).thread i).Within
      SeenGrows :=
    Pool.after_within (fun i => program_seenGrows (arrivals i)) seenGrows_refl _ i
  have grows := Pool.after_related within seenGrows_refl (fun _ _ _ => Finset.Subset.trans) between
  rw [← Pool.after_append, List.append_assoc, List.singleton_append] at grows
  refine second.1 (grows ?_)
  rw [Pool.after_concat]
  exact first.2

theorem takes_of_sent (builtins : ∀ i, (arrivals i).state.policy.BuiltinsOf view) {i : ι}
    (keyed : (arrivals i).Keyed view key)
    (sent : (arrivalPool arrivals start).emittedBy newCopies i schedule ≠ []) :
    (arrivalPool arrivals start).Takes (Records key) schedule i := by
  have owes : ((arrivalPool arrivals start).thread i).Owes newCopies _ :=
    program_owes (builtins i) keyed
  rcases Pool.emittedBy_owes newCopies_self owes schedule with none | ⟨before, rest, split, -, due⟩
  · exact absurd none sent
  · exact ⟨before, rest, split, due.resolve_left sent⟩

/-- What the arrivals have sent along a schedule: together all that was relayed; no two copies of
messages with one Message-ID from one list to one address, and none of a message whose Message-ID
the list had recorded. -/
structure SentOnce (view : MailView) (arrivals : ι → Arrival) (start : World) (schedule : List ι) :
    Prop where
  total : ((arrivalPool arrivals start).after schedule).state.relayed =
    start.relayed ++ ((arrivalPool arrivals start).log newCopies schedule).map Prod.snd
  once : ∀ key, ((((arrivalPool arrivals start).log newCopies schedule).filter fun entry =>
    (arrivals entry.1).Keyed view key).map fun entry => entry.2.recipient).Nodup
  recorded : ∀ key ∈ start.store.seenMessages,
    ∀ entry ∈ (arrivalPool arrivals start).log newCopies schedule,
      ¬(arrivals entry.1).Keyed view key

/-- A subscriber gets a message at most once: however often it arrives at a list, one after the
other or at the same time, through whatever deployments and whatever fails. -/
theorem arrivals_sentOnce (builtins : ∀ i, (arrivals i).state.policy.BuiltinsOf view)
    (start : World) (schedule : List ι) : SentOnce view arrivals start schedule := by
  have sends {key : Text × Text} {entry : ι × Copy}
      (mem : entry ∈ (arrivalPool arrivals start).log newCopies schedule)
      (keyed : (arrivals entry.1).Keyed view key) :
      (arrivalPool arrivals start).Takes (Records key) schedule entry.1 :=
    takes_of_sent builtins keyed (List.ne_nil_of_mem (Pool.mem_emittedBy mem))
  constructor
  · exact Pool.log_total (R := RelayedGrows) World.relayed (fun _ _ grows => grows)
      (fun world => relayedGrows_of_same rfl) (fun i => program_relays (arrivals i)) schedule
  · intro key
    refine nodup_of_source (K := fun i => (arrivals i).Keyed view key) Copy.recipient
      (fun i => ?_) fun entry mem other mem' keyed keyed' =>
        records_once (sends mem keyed) (sends mem' keyed')
    have each := (copies_onlyToSubscribers (arrivalPool arrivals start) (i := i)
      (.arrival _ _ _ _) schedule).once
    rwa [Pool.emittedBy, List.map_map] at each
  · intro key seen entry mem keyed
    obtain ⟨before, rest, -, new, -⟩ := sends mem keyed
    exact new (Pool.after_related (fun i => program_seenGrows (arrivals i)) seenGrows_refl
      (fun _ _ _ => Finset.Subset.trans) before seen)

end

/-- The post of Alice comes to `dev` twice. -/
def alicesArrivals : Bool → Arrival := fun _ =>
  { state := aliceState, outside := calmOutside, list := devList, ingress := aliceIngress,
    raw := alicesPost }

theorem arrivals_sentOnce_alice :
    SentOnce aliceView alicesArrivals (.initial devSubscribed)
        [true, false, true, false, true, true, true, true, false] ∧
      (((arrivalPool alicesArrivals (.initial devSubscribed)).log newCopies
        [true, false, true, false, true, true, true, true, false]).map fun entry =>
          (entry.1, entry.2.recipient)) =
        [(true, "alice@example.com".toList), (true, "bob@example.com".toList)] :=
  ⟨arrivals_sentOnce (fun _ => ⟨rfl, rfl, rfl, rfl, rfl, rfl, rfl⟩) _ _, by decide +kernel⟩

end Carriers
