import Carriers.Distribution
import Carriers.Resolution

/-! Held posts while messages arrive and moderators act: what a list has taken into its queue stays
there, as it came, until a moderator acts on that very entry. -/

namespace Carriers

open ProofKit

/-! ### Entries -/

/-- The entry is of a message that a list took in. -/
structure HeldRow.IsOf (ipText : IpAddr → Text) (list : MailingList) (ingress : Ingress)
    (raw : Bytes) (row : HeldRow) : Prop where
  list : row.list = list.name
  mailFrom : row.mailFrom = ingress.mailFrom
  helo : row.helo = ingress.helo
  remoteIp : row.remoteIp = ipText ingress.remoteIp
  raw : row.raw = raw

/-- A step that uses a new id. -/
structure TakesId (id : Nat) (before after : World) : Prop where
  fresh : before.store.queue.lastId < id
  used : id ≤ after.store.queue.lastId

/-- A step that puts a message into the queue. -/
structure Enters (ipText : IpAddr → Text) (list : MailingList) (ingress : Ingress) (raw : Bytes)
    (id : Nat) (before after : World) : Prop extends TakesId id before after where
  entry : ∃ row ∈ after.store.queue.rows, row.id = id ∧ row.IsOf ipText list ingress raw

/-- The ids that have been used stay used, and the entry stays. -/
def KeepsIds (before after : World) : Prop :=
  before.store.queue.lastId ≤ after.store.queue.lastId

def KeepsRow (row : HeldRow) (before after : World) : Prop :=
  row ∈ before.store.queue.rows → row ∈ after.store.queue.rows

theorem keepsIds_refl (world : World) : KeepsIds world world := le_rfl

theorem keepsRow_refl (row : HeldRow) (world : World) : KeepsRow row world world := id

theorem keepsIds_hold : AllowsHold KeepsIds := fun _ _ _ _ _ _ _ _ => Nat.le_succ _

theorem keepsRow_hold (row : HeldRow) : AllowsHold (KeepsRow row) :=
  fun _ _ _ _ _ _ _ _ mem => List.mem_append_left _ mem

theorem record_queue {R : World → World → Prop}
    (same : ∀ before after : World, after.store.queue = before.store.queue → R before after) :
    AllowsRecord R := fun world list id =>
  same _ _ (recordMessage_queue list id world.store)

/-! ### What one task holds -/

section
variable {state : AppState} {outside : Outside} {p : Pipeline} {list : MailingList}
  {ingress : Ingress} {raw : Bytes}

/-- A post that is held rests on the step that entered it. -/
def HeldBy (ipText : IpAddr → Text) (list : MailingList) (ingress : Ingress) (raw : Bytes)
    (before after : World) (held : Option Nat) : Prop :=
  ∀ id, held = some id → Enters ipText list ingress raw id before after

theorem hold_enters (stage : Stage) (sender subject : Option Text) :
    (p.hold list ingress raw stage sender subject).Founded (fun disposition =>
      disposition.heldAs = none) fun before after disposition =>
        HeldBy p.libs.ipText list ingress raw before after disposition.heldAs := by
  rw [Pipeline.hold]
  cases p.outside.db stage .enqueueHeld with
  | some e => trivial
  | none =>
    refine Proc.founded_transact fun world => .inr fun id held => ?_
    obtain rfl := Option.some.inj held
    refine ⟨⟨Nat.lt_succ_self _, le_rfl⟩, _, List.mem_append_right _ (List.mem_singleton_self _),
      rfl, ⟨rfl, rfl, rfl, rfl, rfl⟩⟩

theorem finalize_enters :
    (p.finalize list ingress raw).Founded (fun disposition => disposition.heldAs = none)
      fun before after disposition =>
        HeldBy p.libs.ipText list ingress raw before after disposition.heldAs := by
  rw [Pipeline.finalize]
  refine Proc.founded_bind _ fun sets => Proc.founded_bind _ fun verdict => ?_
  refine Proc.founded_bind _ fun outcome => Proc.founded_bind _ fun _ => ?_
  cases outcome.decision with
  | approve => exact Proc.founded_bind _ fun prepared => rfl
  | moderate => exact hold_enters _ _ _
  | discard | reject => rfl

theorem moderate_enters (parsed : Message) :
    (p.moderate list ingress raw parsed).Founded (fun disposition => disposition.heldAs = none)
      fun before after disposition =>
        HeldBy p.libs.ipText list ingress raw before after disposition.heldAs := by
  rw [Pipeline.moderate]
  refine Proc.founded_bind _ fun sets => Proc.founded_bind _ fun verdict => ?_
  refine Proc.founded_bind _ fun outcome => Proc.founded_bind _ fun _ => ?_
  cases outcome.decision with
  | approve => exact finalize_enters
  | moderate => exact hold_enters _ _ _
  | discard | reject => rfl

theorem intake_enters :
    (p.intake list ingress raw).Founded (fun disposition => disposition.heldAs = none)
      fun before after disposition =>
        HeldBy p.libs.ipText list ingress raw before after disposition.heldAs := by
  rw [Pipeline.intake]
  cases p.libs.parse raw with
  | none => trivial
  | some parsed =>
    refine Proc.founded_bind _ fun isLoop => ?_
    cases isLoop with
    | true => rfl
    | false =>
      refine Proc.founded_bind _ fun isDuplicate => ?_
      cases isDuplicate with
      | true => rfl
      | false => exact moderate_enters parsed

theorem conclude_heldAs (disposition : Disposition) :
    (conclude state outside list disposition).Returns fun outcome =>
      outcome.heldAs = disposition.heldAs := by
  cases disposition with
  | distribute prepared => exact Proc.returns_bind fun _ => rfl
  | held | discarded | rejected => rfl

theorem distributeApproved_enters :
    (distributeApproved state outside list ingress raw).Founded (fun outcome =>
      outcome.heldAs = none) fun before after outcome =>
        HeldBy state.libs.ipText list ingress raw before after outcome.heldAs := by
  refine Proc.Founded.bind finalize_enters (fun disposition kept => ?_)
    fun before after disposition entered => ?_
  · exact (conclude_heldAs disposition).imp fun outcome same => same.trans kept
  · exact (conclude_heldAs disposition).imp fun outcome same => .inr (same ▸ entered)

theorem handleOne_enters :
    (handleOne state outside list ingress raw).Founded (fun outcome => outcome.heldAs = none)
      fun before after outcome =>
        HeldBy state.libs.ipText list ingress raw before after outcome.heldAs := by
  have attempted : (((state.pipeline outside).intake list ingress raw).attempt :
      Proc World Error _).Founded
      (fun result => ∀ disposition, result = .ok disposition → disposition.heldAs = none)
      fun before after result => ∀ disposition, result = .ok disposition →
        HeldBy state.libs.ipText list ingress raw before after disposition.heldAs := by
    refine intake_enters.attempt ?_ (fun _ => nofun) ?_
    · rintro disposition kept _ ⟨⟩
      exact kept
    · rintro before after disposition entered _ ⟨⟩
      exact entered
  refine attempted.bind ?_ ?_
  · intro result kept
    split
    · exact (conclude_heldAs _).imp fun outcome same => same.trans (kept _ rfl)
    · rfl
    · trivial
  · intro before after result entered
    split
    · exact (conclude_heldAs _).imp fun outcome same => .inr (same ▸ entered _ rfl)
    · exact .inl rfl
    · trivial

theorem distributeApproved_queue {R : World → World → Prop} (holds : AllowsHold R)
    (same : ∀ before after : World, after.store.queue = before.store.queue → R before after) :
    (distributeApproved state outside list ingress raw).Within R :=
  (finalize_within (fun _ => same _ _ rfl) (fun _ _ => same _ _ rfl) holds).bind
    (conclude_within fun _ _ => same _ _ rfl)

theorem handleOne_queue {R : World → World → Prop} (holds : AllowsHold R)
    (same : ∀ before after : World, after.store.queue = before.store.queue → R before after) :
    (handleOne state outside list ingress raw).Within R := by
  refine (intake_within (fun _ => same _ _ rfl) (fun _ _ => same _ _ rfl) holds
    (record_queue same)).attempt.bind fun result => ?_
  split
  · exact conclude_within (fun _ _ => same _ _ rfl) _
  · trivial
  · trivial

end

/-! ### Tasks around the queue -/

/-- A task that can change the queue: a message that arrives, or a command on an entry. -/
inductive QueueTask where
  | takeIn (arrival : Arrival)
  | moderate (command : ModerateCommand) (id : Nat)

namespace QueueTask

def program (parseIp : Text → Option IpAddr) : QueueTask → Proc World CommandError (Option Outcome)
  | .takeIn arrival => do
    let outcome ← arrival.program.mapError .core
    return some outcome
  | .moderate command id => command.program parseIp id

/-- The entry that the task removes from the queue. -/
def resolves : QueueTask → Option Nat
  | .takeIn _ => none
  | .moderate _ id => some id

end QueueTask

section
variable {parseIp : Text → Option IpAddr} {R : World → World → Prop}

section
variable (holds : AllowsHold R)
  (same : ∀ before after : World, after.store.queue = before.store.queue → R before after)
  {id : Nat} (deletes : ∀ world : World,
    R world { world with store := (world.store.deleteHeld id).2 })
include holds same deletes

/-- What an approval does to the queue apart from the removal of its entry. -/
theorem approve_queue (loaded : Except CommandError AppState) (faults : CommandFaults)
    (outside : Outside) : (Moderate.approve parseIp loaded faults outside id).Within R := by
  refine (Proc.within_ofExcept _).bind fun state => ?_
  refine Proc.Within.bind (sql_within (R := R) fun world => same world world rfl).mapError
    fun found => ?_
  cases found with
  | none => trivial
  | some held =>
    dsimp only
    cases listByName state.lists held.list with
    | none => trivial
    | some list =>
      have delete : ((sql faults.deleteHeld (Store.deleteHeld id)).mapError
          CommandError.core).Within R := (sql_within deletes).mapError
      exact (distributeApproved_queue holds same).mapError.bind fun outcome =>
        delete.bind fun _ => Proc.within_pure _

omit holds same in
theorem reject_queue (opened : Except CommandError Unit) (faults : CommandFaults) :
    (Moderate.reject opened faults id).Within R := by
  have delete : ((sql faults.deleteHeld (Store.deleteHeld id)).mapError
      CommandError.core).Within R := (sql_within deletes).mapError
  refine (Proc.within_ofExcept _).bind fun _ => delete.bind fun deleted => ?_
  cases deleted <;> trivial

theorem command_queue (command : ModerateCommand) : (command.program parseIp id).Within R := by
  cases command with
  | reject opened faults =>
    exact (reject_queue deletes opened faults).bind fun _ => Proc.within_pure _
  | approve loaded faults outside =>
    exact (approve_queue holds same deletes loaded faults outside).bind fun _ => Proc.within_pure _

end

theorem task_keepsIds (task : QueueTask) : (task.program parseIp).Within KeepsIds := by
  have same (before after : World) (queue : after.store.queue = before.store.queue) :
      KeepsIds before after := (congrArg ModerationQueue.lastId queue).ge
  cases task with
  | takeIn arrival =>
    exact (handleOne_queue keepsIds_hold same).mapError.bind fun _ => Proc.within_pure _
  | moderate command id => exact command_queue keepsIds_hold same (fun _ => le_rfl) command

/-- Only a command on an entry removes it. -/
theorem task_keepsRow {row : HeldRow} {task : QueueTask} (other : task.resolves ≠ some row.id) :
    (task.program parseIp).Within (KeepsRow row) := by
  have same (before after : World) (queue : after.store.queue = before.store.queue) :
      KeepsRow row before after := fun mem => queue ▸ mem
  cases task with
  | takeIn arrival =>
    exact (handleOne_queue (keepsRow_hold row) same).mapError.bind fun _ => Proc.within_pure _
  | moderate command id =>
    refine command_queue (keepsRow_hold row) same (fun world mem => ?_) command
    exact List.mem_filter.mpr ⟨mem, decide_eq_true fun sameId => other (congrArg some sameId.symm)⟩

/-- The id under which a task says that its post is held. -/
def taskHeldAs (result : Option Outcome) : Option Nat := result.bind Outcome.heldAs

theorem command_takesId (command : ModerateCommand) (own : Nat) :
    (command.program parseIp own).Founded (fun result => taskHeldAs result = none)
      fun before after result => ∀ id, taskHeldAs result = some id → TakesId id before after := by
  cases command with
  | reject opened faults => exact Proc.founded_bind _ fun _ => rfl
  | approve loaded faults outside =>
    rw [ModerateCommand.program, Moderate.approve, bind_assoc]
    refine Proc.founded_bind _ fun state => ?_
    rw [bind_assoc]
    refine Proc.founded_bind _ fun found => ?_
    cases found with
    | none => trivial
    | some held =>
      dsimp only
      cases listByName state.lists held.list with
      | none => trivial
      | some list =>
        dsimp only
        rw [bind_assoc]
        refine distributeApproved_enters.mapError.bind (fun outcome kept => ?_)
          fun before after outcome entered => ?_
        · rw [bind_assoc]
          exact Proc.returns_bind fun _ => kept
        · rw [bind_assoc]
          exact Proc.returns_bind fun _ => .inr fun id held => (entered id held).toTakesId

theorem arrival_enters (arrival : Arrival) :
    ((QueueTask.takeIn arrival).program parseIp).Founded (fun result => taskHeldAs result = none)
      fun before after result => HeldBy arrival.state.libs.ipText arrival.list arrival.ingress
        arrival.raw before after (taskHeldAs result) :=
  handleOne_enters.mapError.bind (fun _ kept => kept) fun _ _ _ entered => .inr entered

theorem task_takesId (task : QueueTask) :
    (task.program parseIp).Founded (fun result => taskHeldAs result = none)
      fun before after result => ∀ id, taskHeldAs result = some id → TakesId id before after := by
  cases task with
  | moderate command id => exact command_takesId command id
  | takeIn arrival =>
    exact handleOne_enters.mapError.bind (fun _ kept => kept) fun _ _ _ entered =>
      .inr fun id held => (entered id held).toTakesId

end

/-! ### Every interleaving -/

section
variable {ι : Type} [DecidableEq ι] (parseIp : Text → Option IpAddr) (tasks : ι → QueueTask)
  (start : World)

def queuePool : Pool ι World CommandError (Option Outcome) :=
  { state := start, thread := fun i => (tasks i).program parseIp }

/-- The task has ended and its post is held. -/
def HeldAs (schedule : List ι) (i : ι) (id : Nat) : Prop :=
  ∃ outcome, (((queuePool parseIp tasks start).after schedule).thread i).result =
    some (.ok outcome) ∧ taskHeldAs outcome = some id

/-- What a schedule keeps of the posts that were held in it: a step of its own task has put each into
the queue under a new id, with its list, its envelope and all of its bytes; the entry stays as long
as no command on it takes a step; and no two have the same entry. -/
structure KeepsHeldPosts (schedule : List ι) : Prop where
  entered : ∀ i arrival id, tasks i = .takeIn arrival →
    HeldAs parseIp tasks start schedule i id →
    ∃ before rest row, schedule = before ++ i :: rest ∧
      Enters arrival.state.libs.ipText arrival.list arrival.ingress arrival.raw id
        ((queuePool parseIp tasks start).after before).state
        ((queuePool parseIp tasks start).after (before ++ [i])).state ∧
      row.id = id ∧
      row.IsOf arrival.state.libs.ipText arrival.list arrival.ingress arrival.raw ∧
      ∀ more tail, rest = more ++ tail → (∀ j ∈ more, (tasks j).resolves ≠ some id) →
        row ∈ ((queuePool parseIp tasks start).after
          (before ++ i :: more)).state.store.queue.rows
  distinct : ∀ i j id, HeldAs parseIp tasks start schedule i id →
    HeldAs parseIp tasks start schedule j id → i = j

variable {parseIp tasks start}

/-- A new id is taken once. -/
theorem takesId_once {schedule : List ι} {i j : ι} {id : Nat}
    (hi : (queuePool parseIp tasks start).Takes (TakesId id) schedule i)
    (hj : (queuePool parseIp tasks start).Takes (TakesId id) schedule j) : i = j := by
  by_contra distinct
  obtain ⟨before, k, l, rest, -, -, second, earlier, between, rfl, first⟩ :=
    Pool.takes_order distinct hi hj
  have within (i : ι) : (((queuePool parseIp tasks start).after (earlier ++ [k])).thread i).Within
      KeepsIds :=
    Pool.after_within (fun i => task_keepsIds (tasks i)) keepsIds_refl _ i
  have grows := Pool.after_related within keepsIds_refl (fun _ _ _ => le_trans) between
  rw [← Pool.after_append, List.append_assoc, List.singleton_append] at grows
  have used := first.used
  rw [← Pool.after_concat] at used
  exact absurd second.fresh (not_lt_of_ge (used.trans grows))

theorem takes_of_heldAs {schedule : List ι} {i : ι} {id : Nat}
    (held : HeldAs parseIp tasks start schedule i id) :
    (queuePool parseIp tasks start).Takes (TakesId id) schedule i := by
  obtain ⟨outcome, ended, heldAs⟩ := held
  rcases Pool.result_founded (task_takesId (tasks i)) ended with none | ⟨before, rest, split, step⟩
  · rw [none] at heldAs
    cases heldAs
  · exact ⟨before, rest, split, step id heldAs⟩

/-- No held post is lost or altered while messages arrive and moderators act: in every interleaving
of any number of arrivals and commands, with whatever policies and failures, and whichever of them
have ended. -/
theorem heldPosts_kept (parseIp : Text → Option IpAddr) (tasks : ι → QueueTask) (start : World)
    (schedule : List ι) : KeepsHeldPosts parseIp tasks start schedule := by
  constructor
  · rintro i arrival id isArrival ⟨outcome, ended, heldAs⟩
    have founded : ((queuePool parseIp tasks start).thread i).Founded _ _ :=
      show ((tasks i).program parseIp).Founded _ _ from isArrival ▸ arrival_enters arrival
    rcases Pool.result_founded founded ended with none | ⟨before, rest, split, entered⟩
    · rw [none] at heldAs
      cases heldAs
    have enters := entered id heldAs
    obtain ⟨-, row, mem, rfl, isOf⟩ := entered id heldAs
    rw [← Pool.after_concat] at enters
    refine ⟨before, rest, row, split, enters, rfl, isOf, fun more tail _ apart => ?_⟩
    have keeps : KeepsRow row _ _ := Pool.after_related_of_mem (keepsRow_refl row)
      (fun _ _ _ first second => second ∘ first) fun j mem =>
        (queuePool parseIp tasks start).thread_within (task_keepsRow (apart j mem)) (before ++ [i])
    rw [← Pool.after_append, List.append_assoc, List.singleton_append, Pool.after_concat] at keeps
    exact keeps mem
  · exact fun i j id held held' => takesId_once (takes_of_heldAs held) (takes_of_heldAs held')

end

end Carriers
