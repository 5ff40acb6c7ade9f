import Carriers.Frames
import Carriers.Loop

/-! The Message-ID that a post leaves behind when a later step fails, after which a retry of the
post is taken for a duplicate. -/

namespace Carriers

open ProofKit
open ProofKit.Sieve (MailView Script)

/-! ### The record -/

/-- The duplicate check asks for the Message-ID of the post. -/
theorem checkDuplicate_eq {σ : Type} {view : MailView} {engine : PolicyEngine Script}
    (builtins : engine.BuiltinsOf view) (post : PolicyEngine.Post) (duplicates : DuplicateStore σ)
    {id : Text} (messageId : view.messageId post.raw = some id) :
    engine.checkDuplicate post duplicates = duplicates id Sieve.defaultExpiry := by
  unfold PolicyEngine.checkDuplicate PolicyEngine.runScript runSieve
  rw [builtins.2.1]
  simp only [Sieve.Command.script, Builtin.duplicateCheck, Builtin.when, Sieve.Command.exec,
    Sieve.Test.eval, messageId, runInstance, answerEvent, bind_assoc, pure_bind]
  calc
    _ = duplicates id Sieve.defaultExpiry >>= pure := by
      refine bind_congr fun seen => ?_
      cases seen <;> rfl
    _ = _ := bind_pure _

section
variable {state : AppState} {outside : Outside} {list : MailingList} {ingress : Ingress}
  {raw : Bytes} {world : World} {p : Pipeline} {view : MailView} {id : Text} {parsed : Message}

/-- A post that carries the `List-Id` of the list goes no further. -/
theorem intake_carriesListId (builtins : p.policy.BuiltinsOf view)
    (parses : p.libs.parse raw ≠ none) (loops : carriesListId view list.listId raw = true) :
    p.intake list ingress raw =
      pure (.discarded "message already carries this List-Id (loop)".toList) := by
  obtain ⟨parsed, found⟩ := Option.ne_none_iff_exists'.mp parses
  rw [Pipeline.intake, found]
  dsimp only
  rw [checkLoop_eq builtins, pure_bind]
  exact if_pos loops

theorem intake_eq (builtins : p.policy.BuiltinsOf view) (parses : p.libs.parse raw = some parsed)
    (messageId : view.messageId raw = some id) :
    p.intake list ingress raw =
      if carriesListId view list.listId raw then
        pure (.discarded "message already carries this List-Id (loop)".toList)
      else
        sql (p.outside.db .intake .recordMessage) (Store.recordMessage list.name id) >>= fun new =>
          if new then p.moderate list ingress raw parsed
          else pure (.discarded "duplicate message (Message-ID already seen)".toList) := by
  have check : p.policy.checkDuplicate (list.post ingress.mailFrom raw) (p.storeDuplicates list) =
      p.storeDuplicates list id Sieve.defaultExpiry :=
    checkDuplicate_eq builtins _ _ messageId
  unfold Pipeline.intake
  rw [parses, checkLoop_eq builtins, check]
  show (if carriesListId view list.listId raw then _ else _) = _
  refine if_congr Iff.rfl rfl ?_
  rw [Pipeline.storeDuplicates, bind_assoc]
  refine bind_congr fun new => ?_
  cases new <;> rfl

/-- The seen Message-IDs stay as they are. -/
def KeepsSeen (before after : World) : Prop := after.store.seenMessages = before.store.seenMessages

theorem moderate_keepsSeen : (p.moderate list ingress raw parsed).Within KeepsSeen :=
  moderate_within (R := KeepsSeen) (fun _ => rfl) (fun _ _ => rfl) (fun _ _ _ _ _ _ _ _ => rfl)
    parsed

theorem conclude_keepsSeen (disposition : Disposition) :
    (conclude state outside list disposition).Within KeepsSeen :=
  conclude_within (R := KeepsSeen) (fun _ _ => rfl) disposition

/-! ### The retry -/

/-- The post gets as far as the duplicate check, which can record it. -/
def Recorded (state : AppState) (outside : Outside) (view : MailView) (list : MailingList)
    (raw : Bytes) : Prop :=
  state.libs.parse raw ≠ none ∧ carriesListId view list.listId raw = false ∧
    outside.db .intake .recordMessage = none

/-- A transaction that ends with a temporary failure leaves the Message-ID unrecorded, so that a
retry is no duplicate. -/
def FailureForgets (state : AppState) (outside : Outside) (list : MailingList) (ingress : Ingress)
    (raw : Bytes) (id : Text) (world : World) : Prop :=
  ∀ error after, (handleOne state outside list ingress raw).run world = (.error error, after) →
    (list.name, id) ∉ after.store.seenMessages

theorem FailureForgets.absurd {error : Error}
    (failed : ((handleOne state outside list ingress raw).run world).1 = .error error)
    (kept : (list.name, id) ∈
      ((handleOne state outside list ingress raw).run world).2.store.seenMessages) :
    ¬FailureForgets state outside list ingress raw id world :=
  fun forgets => forgets error _ (Prod.ext failed rfl) kept

/-- A new Message-ID is recorded, and the rest of the post's way runs on. -/
theorem handleOne_recorded (ingress : Ingress) (builtins : state.policy.BuiltinsOf view)
    (parses : state.libs.parse raw = some parsed)
    (passes : carriesListId view list.listId raw = false)
    (works : outside.db .intake .recordMessage = none)
    (messageId : view.messageId raw = some id)
    (new : (list.name, id) ∉ world.store.seenMessages) :
    (handleOne state outside list ingress raw).run world =
      ((state.pipeline outside).moderate list ingress raw parsed >>=
          conclude state outside list).run
        { world with
          store := { world.store with
            seenMessages := insert (list.name, id) world.store.seenMessages } } := by
  have recorded : world.store.recordMessage list.name id =
      (true, { world.store with
        seenMessages := insert (list.name, id) world.store.seenMessages }) := by
    rw [Store.recordMessage, if_neg new]
  rw [handleOne_run parses, intake_eq (p := state.pipeline outside) builtins parses messageId,
    if_neg (by simp [passes]), bind_assoc]
  show (sql (outside.db .intake .recordMessage) _ >>= _).run world = _
  rw [works, Proc.run_bind, run_sql_none, recorded]
  rfl

/-- A post that does not get as far as the duplicate check, or that it cannot record, leaves the
Message-IDs alone or meets no failure. -/
theorem failureForgets_unrecorded (builtins : state.policy.BuiltinsOf view)
    (messageId : view.messageId raw = some id)
    (new : (list.name, id) ∉ world.store.seenMessages)
    (unrecorded : ¬Recorded state outside view list raw) :
    FailureForgets state outside list ingress raw id world := by
  intro error after run
  cases parses : state.libs.parse raw with
  | none =>
    obtain ⟨reason, drops⟩ : ∃ reason,
        handleOne state outside list ingress raw = pure (.discarded reason) := by
      unfold handleOne Pipeline.intake
      rw [show (state.pipeline outside).libs.parse raw = none from parses]
      exact ⟨_, rfl⟩
    rw [drops] at run
    cases run
  | some parsed =>
    rw [handleOne_run parses, intake_eq (p := state.pipeline outside) builtins parses messageId]
      at run
    by_cases loops : carriesListId view list.listId raw = true
    · rw [if_pos loops] at run
      cases run
    · rw [if_neg loops, bind_assoc] at run
      cases works : outside.db .intake .recordMessage with
      | none => exact absurd ⟨by simp [parses], by simpa using loops, works⟩ unrecorded
      | some e =>
        replace run : (sql (outside.db .intake .recordMessage) _ >>= _).run world = _ := run
        rw [works, Proc.run_bind, run_sql_some] at run
        cases run
        exact new

/-- A post that meets a temporary failure is lost to a retry exactly if the failure strikes after
the duplicate check has recorded it: for every deployment, message and list, whatever fails. -/
theorem failureForgets_iff (builtins : state.policy.BuiltinsOf view)
    (messageId : view.messageId raw = some id)
    (new : (list.name, id) ∉ world.store.seenMessages) :
    FailureForgets state outside list ingress raw id world ↔
      ¬(Recorded state outside view list raw ∧
        LateFailure state outside list ingress raw world.store) := by
  by_cases recorded : Recorded state outside view list raw
  · obtain ⟨parsed, parses⟩ := Option.ne_none_iff_exists'.mp recorded.1
    have whole := handleOne_recorded ingress builtins parses recorded.2.1 recorded.2.2 messageId new
    have kept : (list.name, id) ∈
        ((handleOne state outside list ingress raw).run world).2.store.seenMessages := by
      have within : ((state.pipeline outside).moderate list ingress raw parsed >>=
          conclude state outside list).Within KeepsSeen :=
        moderate_keepsSeen.bind conclude_keepsSeen
      rw [whole, within.run (fun _ => rfl) fun _ _ _ first second => second.trans first]
      exact Finset.mem_insert_self _ _
    have fails : (handleOne state outside list ingress raw).Fails world ↔
        LateFailure state outside list ingress raw world.store := by
      rw [Proc.Fails, whole]
      exact fails_moderate parsed
    constructor
    · rintro forgets ⟨-, late⟩
      obtain ⟨error, failed⟩ := fails.mpr late
      exact FailureForgets.absurd failed kept forgets
    · intro holds error after run
      exact absurd ⟨recorded, fails.mp ⟨error, by rw [run]⟩⟩ holds
  · exact iff_of_true (failureForgets_unrecorded builtins messageId new recorded)
      fun h => recorded h.1

end

/-- The smarthost refuses the connection. -/
def refusingOutside : Outside := { calmOutside with connects := fun _ => false }

/-- The database cannot record a Message-ID. -/
def lockedOutside : Outside :=
  { calmOutside with
    db := fun _ statement => if statement = .recordMessage then some "locked".toList else none }

def aliceId : Text := "1@example.com".toList

theorem failureForgets_iff_alice :
    FailureForgets aliceState lockedOutside devList aliceIngress alicesPost aliceId
        (.initial devSubscribed) ∧
      LateFailure aliceState refusingOutside devList aliceIngress alicesPost devSubscribed := by
  have builtins : aliceState.policy.BuiltinsOf aliceView := ⟨rfl, rfl, rfl, rfl, rfl, rfl, rfl⟩
  have new : (devList.name, aliceId) ∉ (World.initial devSubscribed).store.seenMessages := by
    decide +kernel
  constructor
  · refine (failureForgets_iff builtins rfl new).mpr ?_
    exact fun h => nomatch h.1.2.2
  · have failed : ((handleOne aliceState refusingOutside devList aliceIngress alicesPost).run
        (.initial devSubscribed)).1 = .error (.delivery "connecting to smarthost localhost".toList) :=
      by decide +kernel
    by_contra works
    have forgets : FailureForgets aliceState refusingOutside devList aliceIngress alicesPost aliceId
        (.initial devSubscribed) := (failureForgets_iff builtins rfl new).mpr fun h => works h.2
    exact FailureForgets.absurd failed (by decide +kernel) forgets

/-- The smarthost is down, the front MTA is told to retry, and the retry is accepted and dropped
without a single copy sent. -/
theorem retry_lost :
    let failed := (handleOne aliceState refusingOutside devList aliceIngress alicesPost).run
      (.initial devSubscribed)
    let retried := (handleOne aliceState calmOutside devList aliceIngress alicesPost).run failed.2
    (devList.name, aliceId) ∉ devSubscribed.seenMessages ∧
    failed.1 = .error (.delivery "connecting to smarthost localhost".toList) ∧
    RecipientResult.reply (.post failed.1) = "451 4.3.0 Temporary processing failure\r\n".toList ∧
    (devList.name, aliceId) ∈ failed.2.store.seenMessages ∧
    retried.1 = .ok (.discarded "duplicate message (Message-ID already seen)".toList) ∧
    retried.2.relayed = [] := by
  decide +kernel

end Carriers
