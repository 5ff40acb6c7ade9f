import Carriers.ProofKit.Pool
import Carriers.Retry

/-! Concurrent intakes: which of the posts with one Message-ID gets past the duplicate check. -/

namespace Carriers

open ProofKit
open ProofKit.Sieve (MailView)

/-- The intake of one post. -/
structure IntakeRun where
  pipeline : Pipeline
  list : MailingList
  ingress : Ingress
  raw : Bytes

def duplicateReason : Text := "duplicate message (Message-ID already seen)".toList

def loopReason : Text := "message already carries this List-Id (loop)".toList

namespace IntakeRun

def program (run : IntakeRun) : Proc World Error Disposition :=
  run.pipeline.intake run.list run.ingress run.raw

/-- The duplicate check of the run asks for the key, and the database can answer. -/
structure Asks (run : IntakeRun) (view : MailView) (key : Text × Text) : Prop where
  parses : run.pipeline.libs.parse run.raw ≠ none
  noLoop : carriesListId view run.list.listId run.raw = false
  works : run.pipeline.outside.db .intake .recordMessage = none
  messageId : view.messageId run.raw = some key.2
  list : run.list.name = key.1

/-- What the run does with a post that is no duplicate. -/
def rest (run : IntakeRun) (parsed : Message) : Proc World Error Disposition :=
  run.pipeline.moderate run.list run.ingress run.raw parsed

end IntakeRun

/-- The post is on its way to the recipients or in the moderation queue. -/
def Disposition.Accepted (disposition : Disposition) : Prop :=
  (∃ prepared, disposition = .distribute prepared) ∨ ∃ id, disposition = .held id

section
variable {view : MailView} {run : IntakeRun} {key : Text × Text}

theorem checkDuplicate_none {σ : Type} {engine : PolicyEngine Sieve.Script}
    (builtins : engine.BuiltinsOf view) (post : PolicyEngine.Post) (duplicates : DuplicateStore σ)
    (none : view.messageId post.raw = none) :
    engine.checkDuplicate post duplicates = pure false := by
  unfold PolicyEngine.checkDuplicate PolicyEngine.runScript runSieve
  rw [builtins.2.1]
  simp only [Sieve.Command.script, Builtin.duplicateCheck, Builtin.when, Sieve.Command.exec,
    Sieve.Test.eval, none]
  rfl

/-- A post without a Message-ID is not checked. -/
theorem intake_noId (builtins : run.pipeline.policy.BuiltinsOf view) {parsed : Message}
    (parses : run.pipeline.libs.parse run.raw = some parsed)
    (none : view.messageId run.raw = none) :
    run.program =
      if carriesListId view run.list.listId run.raw then pure (.discarded loopReason)
      else run.rest parsed := by
  unfold IntakeRun.program Pipeline.intake
  rw [parses]
  dsimp only
  rw [checkLoop_eq builtins, checkDuplicate_none builtins _ _ none, pure_bind]
  rfl

/-- The first step of a run that asks. -/
theorem program_of_asks (builtins : run.pipeline.policy.BuiltinsOf view)
    (asks : run.Asks view key) :
    ∃ parsed, run.pipeline.libs.parse run.raw = some parsed ∧
      run.program = sql none (Store.recordMessage key.1 key.2) >>= fun new =>
        if new then run.rest parsed else pure (.discarded duplicateReason) := by
  obtain ⟨parsed, parses⟩ := Option.ne_none_iff_exists'.mp asks.parses
  refine ⟨parsed, parses, ?_⟩
  rw [IntakeRun.program, intake_eq builtins parses asks.messageId, if_neg (by simp [asks.noLoop]),
    asks.works, asks.list]
  rfl

theorem rest_keepsSeen (parsed : Message) : (run.rest parsed).Within KeepsSeen :=
  moderate_keepsSeen

theorem program_unparsed (parses : run.pipeline.libs.parse run.raw = none) :
    ∃ error, run.program = .throw error := by
  unfold IntakeRun.program Pipeline.intake
  rw [parses]
  exact ⟨_, rfl⟩

/-- A run that does not ask records nothing. -/
theorem program_keepsSeen (builtins : run.pipeline.policy.BuiltinsOf view)
    (silent : ∀ key, ¬run.Asks view key) : run.program.Within KeepsSeen := by
  cases parses : run.pipeline.libs.parse run.raw with
  | none =>
    obtain ⟨error, failed⟩ := program_unparsed parses
    rw [failed]
    trivial
  | some parsed =>
    cases messageId : view.messageId run.raw with
    | none =>
      rw [intake_noId builtins parses messageId]
      split
      · trivial
      · exact rest_keepsSeen parsed
    | some id =>
      rw [IntakeRun.program, intake_eq builtins parses messageId]
      split
      · trivial
      · rename_i noLoop
        cases works : run.pipeline.outside.db .intake .recordMessage with
        | some e => trivial
        | none =>
          exact absurd ⟨by simp [parses], by simpa using noLoop, works, messageId, rfl⟩
            (silent (run.list.name, id))

theorem keepsSeen_refl (world : World) : KeepsSeen world world := rfl

theorem IntakeRun.Asks.unique {run : IntakeRun} {key other : Text × Text} (h : run.Asks view key)
    (h' : run.Asks view other) : other = key := by
  have messageId : key.2 = other.2 := Option.some.inj (h.messageId.symm.trans h'.messageId)
  exact Prod.ext (h'.list.symm.trans h.list) messageId.symm

theorem advance_recordMessage {α : Type} (key : Text × Text) (next : Bool → Proc World Error α)
    (world : World) :
    (sql none (Store.recordMessage key.1 key.2) >>= next).advance world =
      (next (decide (key ∉ world.store.seenMessages)),
        { world with store := (world.store.recordMessage key.1 key.2).2 }) := by
  rw [← recordMessage_fst]
  rfl

/-- The first step of a run records the key that the run asks for, and nothing else. -/
theorem advance_program (builtins : run.pipeline.policy.BuiltinsOf view) (world : World) :
    (run.program.advance world).1.Within KeepsSeen ∧
      ∀ key, key ∈ (run.program.advance world).2.store.seenMessages ↔
        key ∈ world.store.seenMessages ∨ run.Asks view key := by
  by_cases asks : ∃ key, run.Asks view key
  · obtain ⟨key, asks⟩ := asks
    obtain ⟨parsed, -, program⟩ := program_of_asks builtins asks
    rw [program, advance_recordMessage]
    constructor
    · split
      · exact rest_keepsSeen parsed
      · trivial
    · intro other
      rw [mem_recordMessage_iff]
      refine or_congr Iff.rfl ⟨?_, fun asksOther => asks.unique asksOther⟩
      rintro rfl
      exact asks
  · have silent : ∀ key, ¬run.Asks view key := fun key h => asks ⟨key, h⟩
    obtain ⟨kept, within⟩ :=
      (program_keepsSeen builtins silent).advance keepsSeen_refl world
    refine ⟨within, fun key => ?_⟩
    rw [show _ = _ from kept]
    simp [silent]

/-- No later step takes a post for a duplicate. -/
theorem rest_returns (parsed : Message) :
    (run.rest parsed).Returns fun disposition => disposition ≠ .discarded duplicateReason := by
  unfold IntakeRun.rest Pipeline.moderate
  refine Proc.returns_bind fun sets => Proc.returns_bind fun verdict => ?_
  refine Proc.returns_bind fun outcome => Proc.returns_bind fun _ => ?_
  cases outcome.decision with
  | moderate => exact Proc.returns_bind fun id => nofun
  | discard => exact fun same => absurd (Disposition.discarded.inj same) (by decide)
  | reject reason => exact nofun
  | approve =>
    unfold Pipeline.finalize
    refine Proc.returns_bind fun sets => Proc.returns_bind fun verdict => ?_
    refine Proc.returns_bind fun outcome => Proc.returns_bind fun _ => ?_
    cases outcome.decision with
    | approve => exact Proc.returns_bind fun prepared => nofun
    | moderate => exact Proc.returns_bind fun id => nofun
    | discard => exact fun same => absurd (Disposition.discarded.inj same) (by decide)
    | reject reason => exact nofun

/-- A post without a Message-ID is not discarded as a duplicate. -/
theorem program_returns (builtins : run.pipeline.policy.BuiltinsOf view)
    (none : view.messageId run.raw = none) :
    run.program.Returns fun disposition => disposition ≠ .discarded duplicateReason := by
  cases parses : run.pipeline.libs.parse run.raw with
  | none =>
    obtain ⟨error, failed⟩ := program_unparsed parses
    rw [failed]
    trivial
  | some parsed =>
    rw [intake_noId builtins parses none]
    split
    · exact fun same => absurd (Disposition.discarded.inj same) (by decide)
    · exact rest_returns parsed

end

/-! ### Every interleaving -/

section
variable {ι : Type} [DecidableEq ι] {view : MailView} {runs : ι → IntakeRun} {start : World}

/-- Intakes of any number of posts, each in a task of its own. -/
def intakePool (runs : ι → IntakeRun) (start : World) : Pool ι World Error Disposition :=
  { state := start, thread := fun i => (runs i).program }

/-- A run that has begun and asked asks no more. -/
def SettledAfter (view : MailView) (runs : ι → IntakeRun) (start : World) (schedule : List ι) :
    Prop :=
  (∀ i ∈ schedule, (((intakePool runs start).after schedule).thread i).Within KeepsSeen) ∧
  ∀ key, key ∈ ((intakePool runs start).after schedule).state.store.seenMessages ↔
    key ∈ start.store.seenMessages ∨ ∃ i ∈ schedule, (runs i).Asks view key

variable (builtins : ∀ i, (runs i).pipeline.policy.BuiltinsOf view)
include builtins

theorem settledAfter_concat {schedule : List ι} (h : SettledAfter view runs start schedule)
    (i : ι) : SettledAfter view runs start (schedule ++ [i]) := by
  obtain ⟨within, seen⟩ := h
  unfold SettledAfter
  rw [Pool.after_concat]
  have advanced : ((((intakePool runs start).after schedule).step i).thread i).Within KeepsSeen ∧
      ∀ key, key ∈ (((intakePool runs start).after schedule).step i).state.store.seenMessages ↔
        key ∈ start.store.seenMessages ∨ ∃ j ∈ schedule ++ [i], (runs j).Asks view key := by
    rw [Pool.step_thread_self]
    by_cases begun : i ∈ schedule
    · obtain ⟨kept, still⟩ := (within i begun).advance keepsSeen_refl
        ((intakePool runs start).after schedule).state
      refine ⟨still, fun key => ?_⟩
      rw [Pool.step_state, show _ = _ from kept, seen]
      refine or_congr Iff.rfl ⟨fun ⟨j, mem, asks⟩ => ⟨j, by simp [mem], asks⟩, ?_⟩
      rintro ⟨j, mem, asks⟩
      rcases List.mem_append.mp mem with mem | mem
      · exact ⟨j, mem, asks⟩
      · exact ⟨i, begun, List.mem_singleton.mp mem ▸ asks⟩
    · have first : ((intakePool runs start).after schedule).thread i = (runs i).program :=
        (intakePool runs start).after_thread begun
      obtain ⟨still, records⟩ := advance_program (builtins i)
        ((intakePool runs start).after schedule).state
      rw [first]
      refine ⟨still, fun key => ?_⟩
      rw [Pool.step_state, first, records, seen, or_assoc]
      refine or_congr Iff.rfl ?_
      simp [or_and_right, exists_or]
  refine ⟨fun j mem => ?_, advanced.2⟩
  by_cases same : j = i
  · exact same ▸ advanced.1
  · rw [Pool.step_thread_ne _ same]
    exact within j (by simpa [same] using mem)

theorem settledAfter (start : World) (schedule : List ι) :
    SettledAfter view runs start schedule := by
  induction schedule using List.reverseRecOn with
  | nil => exact ⟨by simp, by simp [intakePool]⟩
  | append_singleton schedule i ih => exact settledAfter_concat builtins ih i

/-- A key that the list has seen, or that a run has asked for, is known. -/
def Known (view : MailView) (runs : ι → IntakeRun) (start : World) (before : List ι)
    (key : Text × Text) : Prop :=
  key ∈ start.store.seenMessages ∨ ∃ j ∈ before, (runs j).Asks view key

/-- The first step of a run that asks decides whether it goes on. -/
theorem thread_of_asks (start : World) {before : List ι} {i : ι} (first : i ∉ before)
    {key : Text × Text} (asks : (runs i).Asks view key) :
    ∃ parsed, (runs i).pipeline.libs.parse (runs i).raw = some parsed ∧
      (Known view runs start before key →
        ((intakePool runs start).after (before ++ [i])).thread i =
          pure (.discarded duplicateReason)) ∧
      (¬Known view runs start before key →
        ((intakePool runs start).after (before ++ [i])).thread i = (runs i).rest parsed) := by
  obtain ⟨parsed, parses, program⟩ := program_of_asks (builtins i) asks
  have seen := (settledAfter builtins start before).2 key
  have initial : ((intakePool runs start).after before).thread i = (runs i).program :=
    (intakePool runs start).after_thread first
  rw [Pool.after_concat, Pool.step_thread_self, initial, program, advance_recordMessage]
  refine ⟨parsed, parses, fun known => ?_, fun new => ?_⟩
  · simp [seen.mpr known]
  · simp [mt seen.mp new]

omit builtins

/-- The run has ended, and its post is distributed or held. -/
def AcceptedIn (runs : ι → IntakeRun) (start : World) (schedule : List ι) (i : ι) : Prop :=
  ∃ disposition, (((intakePool runs start).after schedule).thread i).result =
    some (.ok disposition) ∧ disposition.Accepted

/-- What the duplicate check makes of the runs in a schedule. -/
structure SuppressesDuplicates (view : MailView) (runs : ι → IntakeRun) (start : World)
    (schedule : List ι) : Prop where
  first : ∀ before i rest key, schedule = before ++ i :: rest → i ∉ before →
    (runs i).Asks view key → ¬Known view runs start before key →
    ∃ parsed, (runs i).pipeline.libs.parse (runs i).raw = some parsed ∧
      ((intakePool runs start).after (before ++ [i])).thread i = (runs i).rest parsed
  others : ∀ before i rest key, schedule = before ++ i :: rest → i ∉ before →
    (runs i).Asks view key → Known view runs start before key →
    ((intakePool runs start).after schedule).thread i = pure (.discarded duplicateReason)
  once : ∀ i j key, (runs i).Asks view key → (runs j).Asks view key →
    AcceptedIn runs start schedule i → AcceptedIn runs start schedule j → i = j
  noId : ∀ i, view.messageId (runs i).raw = none →
    (((intakePool runs start).after schedule).thread i).result ≠
      some (.ok (.discarded duplicateReason))
  loop : ∀ i, (runs i).pipeline.libs.parse (runs i).raw ≠ none →
    carriesListId view (runs i).list.listId (runs i).raw = true →
    ((intakePool runs start).after schedule).thread i = pure (.discarded loopReason)
  seen : ∀ key, key ∈ ((intakePool runs start).after schedule).state.store.seenMessages ↔
    Known view runs start schedule key

include builtins

/-- A run whose post was accepted asked first. -/
theorem unknown_of_accepted {before rest : List ι} {i : ι} (first : i ∉ before)
    {key : Text × Text} (asks : (runs i).Asks view key)
    (accepted : AcceptedIn runs start (before ++ i :: rest) i) :
    ¬Known view runs start before key := by
  intro known
  obtain ⟨parsed, -, duplicate, -⟩ := thread_of_asks builtins start first asks
  obtain ⟨disposition, ended, accepted⟩ := accepted
  have stays := Pool.after_pure _ (duplicate known) rest
  rw [← Pool.after_append, List.append_assoc, List.singleton_append] at stays
  rw [stays] at ended
  cases ended
  rcases accepted with ⟨_, h⟩ | ⟨_, h⟩ <;> cases h

theorem mem_of_accepted {schedule : List ι} {i : ι} {key : Text × Text}
    (asks : (runs i).Asks view key) (accepted : AcceptedIn runs start schedule i) :
    i ∈ schedule := by
  by_contra absent
  obtain ⟨disposition, ended, -⟩ := accepted
  obtain ⟨parsed, -, program⟩ := program_of_asks (builtins i) asks
  rw [(intakePool runs start).after_thread absent,
    show (intakePool runs start).thread i = (runs i).program from rfl, program] at ended
  cases ended

/-- Duplicate suppression is at most once under concurrency: for every interleaving of any number
of intakes over any lists, whatever scripts the deployments configure and whatever fails. -/
theorem intakes_suppressDuplicates (start : World) (schedule : List ι) :
    SuppressesDuplicates view runs start schedule := by
  constructor
  · intro before i rest key split first asks new
    obtain ⟨parsed, parses, -, goesOn⟩ := thread_of_asks builtins start first asks
    exact ⟨parsed, parses, goesOn new⟩
  · intro before i rest key split first asks known
    obtain ⟨parsed, -, duplicate, -⟩ := thread_of_asks builtins start first asks
    have stays := Pool.after_pure _ (duplicate known) rest
    rwa [← Pool.after_append, List.append_assoc, List.singleton_append, ← split] at stays
  · intro i j key asksI asksJ acceptedI acceptedJ
    by_contra distinct
    obtain ⟨first, later, rfl, firstI⟩ :=
      List.eq_append_cons_of_mem (mem_of_accepted builtins asksI acceptedI)
    obtain ⟨second, rest, same, firstJ⟩ :=
      List.eq_append_cons_of_mem (mem_of_accepted builtins asksJ acceptedJ)
    have newI := unknown_of_accepted builtins firstI asksI acceptedI
    have newJ := unknown_of_accepted builtins firstJ asksJ (same ▸ acceptedJ)
    rcases split_order distinct same with ⟨between, rfl⟩ | ⟨between, rfl⟩
    · exact newJ (.inr ⟨i, by simp, asksI⟩)
    · exact newI (.inr ⟨j, by simp, asksJ⟩)
  · intro i none ended
    have returns := (intakePool runs start).after_returns
      (Q := fun i disposition => view.messageId (runs i).raw = Option.none →
        disposition ≠ .discarded duplicateReason) (fun i => ?_) schedule i
    · exact returns.result ended none rfl
    · cases messageId : view.messageId (runs i).raw with
      | none => exact (program_returns (builtins i) messageId).imp fun _ h _ => h
      | some id => exact (Proc.returns_trivial _).imp fun _ _ h => nomatch h
  · intro i parses loops
    exact (intakePool runs start).after_pure
      (intake_carriesListId (builtins i) parses loops) schedule
  · exact (settledAfter builtins start schedule).2

end

/-- Two deliveries of Alice's post to `dev`. -/
def alicesDeliveries : Bool → IntakeRun := fun _ =>
  { pipeline := alicePipeline calmOutside, list := devList, ingress := aliceIngress,
    raw := alicesPost }

theorem intakes_suppressDuplicates_alice :
    ((intakePool alicesDeliveries (.initial devSubscribed)).after
        [false, true, false, false]).thread true = pure (.discarded duplicateReason) ∧
      ("dev".toList, aliceId) ∈ ((intakePool alicesDeliveries (.initial devSubscribed)).after
        [false, true, false, false]).state.store.seenMessages := by
  have builtins : ∀ i, (alicesDeliveries i).pipeline.policy.BuiltinsOf aliceView :=
    fun _ => ⟨rfl, rfl, rfl, rfl, rfl, rfl, rfl⟩
  have noLoop : carriesListId aliceView devList.listId alicesPost = false := by decide +kernel
  have asks (i : Bool) : (alicesDeliveries i).Asks aliceView ("dev".toList, aliceId) :=
    ⟨nofun, noLoop, rfl, rfl, rfl⟩
  have suppresses := intakes_suppressDuplicates builtins (.initial devSubscribed)
    [false, true, false, false]
  exact ⟨suppresses.others [false] true [false, false] _ rfl (by decide) (asks true)
      (.inr ⟨false, by simp, asks false⟩),
    (suppresses.seen _).mpr (.inr ⟨false, by simp, asks false⟩)⟩

end Carriers
