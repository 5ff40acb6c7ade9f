import Carriers.Frames
import Carriers.Moderate

/-! Held posts over whole runs of intake and moderation: no post in the queue is lost or altered
before it is resolved. -/

namespace Carriers

open ProofKit

/-! ### Entries -/

/-- A held post, as its distribution needs it. -/
structure HeldPost where
  list : Text
  ingress : Ingress
  raw : Bytes
  deriving DecidableEq

def HeldRow.post (parseIp : Text → Option IpAddr) (row : HeldRow) : HeldPost :=
  { list := row.list, ingress := ingressOf parseIp row, raw := row.raw }

/-- The entry under which a post is held. -/
def Disposition.heldAs : Disposition → Option Nat
  | .held id => some id
  | .distribute _ | .discarded _ | .rejected _ => none

def Outcome.heldAs : Outcome → Option Nat
  | .held id => some id
  | .distributed _ | .discarded _ | .rejected _ => none

section
variable {parseIp : Text → Option IpAddr} {post : HeldPost}

/-- `rows` is one entry with the post, under the id of `held`, or none if the post is not held. -/
def EntryFor (parseIp : Text → Option IpAddr) (post : HeldPost) (held : Option Nat)
    (rows : List HeldRow) : Prop :=
  match held with
  | none => rows = []
  | some id => ∃ row, rows = [row] ∧ row.id = id ∧ row.post parseIp = post

/-- The queue gained the entry of a post that is held, under a new id, and nothing else. -/
structure Accounted (parseIp : Text → Option IpAddr) (post : HeldPost) (held : Option Nat)
    (before after : ModerationQueue) : Prop where
  rows : ∃ added, after.rows = before.rows ++ added ∧ EntryFor parseIp post held added
  fresh : ∀ id, held = some id → before.lastId < id

theorem accounted_none (queue : ModerationQueue) : Accounted parseIp post none queue queue :=
  ⟨⟨[], by simp, rfl⟩, nofun⟩

end

/-! ### The pipeline -/

section
variable {parseIp : Text → Option IpAddr} {post : HeldPost} {α : Type} {p : Pipeline}
  {list : MailingList} {ingress : Ingress} {raw : Bytes}

/-- The program holds the post at most once, and says under which id. -/
def Settles (parseIp : Text → Option IpAddr) (post : HeldPost) (heldAs : α → Option Nat)
    (program : Proc World Error α) : Prop :=
  ∀ world, Accounted parseIp post ((program.run world).1.toOption.bind heldAs) world.store.queue
    (program.run world).2.store.queue

variable {heldAs : α → Option Nat}

theorem settles_pure {value : α} (notHeld : heldAs value = none) :
    Settles parseIp post heldAs (pure value) := by
  intro world
  rw [Proc.run_pure, Except.toOption, Option.bind_some, notHeld]
  exact accounted_none _

theorem settles_throw (error : Error) : Settles parseIp post heldAs (.throw error) :=
  fun _ => accounted_none _

theorem Settles.bind {β : Type} {program : Proc World Error β} {next : β → Proc World Error α}
    (keeps : program.Within KeepsQueue)
    (settles : ∀ value, Settles parseIp post heldAs (next value)) :
    Settles parseIp post heldAs (program >>= next) := by
  intro world
  have kept := Pipeline.within_keepsQueue keeps world
  rw [Proc.run_bind]
  cases run : program.run world with
  | mk result mid =>
    rw [run] at kept
    cases result with
    | error error =>
      rw [← show mid.store.queue = world.store.queue from kept]
      exact accounted_none _
    | ok value =>
      rw [← show mid.store.queue = world.store.queue from kept]
      exact settles value mid

theorem hold_settles (reads : parseIp (p.libs.ipText ingress.remoteIp) = some ingress.remoteIp)
    (stage : Stage) (sender subject : Option Text) :
    Settles parseIp ⟨list.name, ingress, raw⟩ Disposition.heldAs
      (p.hold list ingress raw stage sender subject) := by
  intro world
  unfold Pipeline.hold
  cases p.outside.db stage .enqueueHeld with
  | some e => exact accounted_none _
  | none =>
    refine ⟨⟨_, rfl, _, rfl, rfl, ?_⟩, ?_⟩
    · simp [HeldRow.post, ingressOf, reads]
    · rintro id ⟨⟩
      exact Nat.lt_succ_self _

theorem finalize_settles
    (reads : parseIp (p.libs.ipText ingress.remoteIp) = some ingress.remoteIp) :
    Settles parseIp ⟨list.name, ingress, raw⟩ Disposition.heldAs (p.finalize list ingress raw) := by
  unfold Pipeline.finalize
  refine .bind (Pipeline.membershipSets_within (R := KeepsQueue) (fun _ => rfl) _) fun sets => ?_
  refine .bind (Proc.within_ofExcept _) fun verdict => ?_
  rw [PolicyEngine.evaluateAfter_settled (PolicyEngine.runTier_eq _ _ _)]
  refine .bind (Proc.within_ofExcept _) fun outcome => ?_
  refine .bind (archiveIf_within (R := KeepsQueue) (fun _ _ => rfl) _ _) fun _ => ?_
  cases outcome.decision with
  | approve =>
    exact .bind (prepare_within (R := KeepsQueue) (fun _ => rfl) _ _) fun _ => settles_pure rfl
  | moderate => exact hold_settles reads _ _ _
  | discard | reject => exact settles_pure rfl

theorem moderate_settles (reads : parseIp (p.libs.ipText ingress.remoteIp) = some ingress.remoteIp)
    (parsed : Message) :
    Settles parseIp ⟨list.name, ingress, raw⟩ Disposition.heldAs
      (p.moderate list ingress raw parsed) := by
  unfold Pipeline.moderate
  refine .bind (Pipeline.membershipSets_within (R := KeepsQueue) (fun _ => rfl) _) fun sets => ?_
  refine .bind (Proc.within_ofExcept _) fun verdict => ?_
  rw [PolicyEngine.evaluateBefore_settled (PolicyEngine.runTier_eq _ _ _)]
  refine .bind (Proc.within_ofExcept _) fun outcome => ?_
  refine .bind (archiveIf_within (R := KeepsQueue) (fun _ _ => rfl) _ _) fun _ => ?_
  cases outcome.decision with
  | approve => exact finalize_settles reads
  | moderate => exact hold_settles reads _ _ _
  | discard | reject => exact settles_pure rfl

theorem intake_settles (reads : parseIp (p.libs.ipText ingress.remoteIp) = some ingress.remoteIp) :
    Settles parseIp ⟨list.name, ingress, raw⟩ Disposition.heldAs (p.intake list ingress raw) := by
  unfold Pipeline.intake
  cases p.libs.parse raw with
  | none => exact settles_throw _
  | some parsed =>
    refine .bind Pipeline.checkLoop_within fun isLoop => ?_
    cases isLoop with
    | true => exact settles_pure rfl
    | false =>
      refine .bind Pipeline.checkDuplicate_keepsQueue fun isDuplicate => ?_
      cases isDuplicate with
      | true => exact settles_pure rfl
      | false => exact moderate_settles reads parsed

end

/-! ### Commands -/

/-- One step of a run: a post taken in, or a command of a moderator, each under whatever policies,
verdicts and failures it meets. -/
inductive ModerationStep where
  | intake (pipeline : Pipeline) (list : MailingList) (ingress : Ingress) (raw : Bytes)
  | approve (loaded : Except CommandError AppState) (faults : CommandFaults) (outside : Outside)
      (id : Nat)
  | reject (opened : Except CommandError Unit) (faults : CommandFaults) (id : Nat)

/-- How a step ended. -/
inductive Report where
  | intake (result : Except Error Disposition)
  | approve (result : Except CommandError Outcome)
  | reject (result : Except CommandError Unit)

namespace ModerationStep

def perform (parseIp : Text → Option IpAddr) (world : World) : ModerationStep → Report × World
  | .intake pipeline list ingress raw =>
    let run := (pipeline.intake list ingress raw).run world
    (.intake run.1, run.2)
  | .approve loaded faults outside id =>
    let run := (Moderate.approve parseIp loaded faults outside id).run world
    (.approve run.1, run.2)
  | .reject opened faults id =>
    let run := (Moderate.reject opened faults id).run world
    (.reject run.1, run.2)

/-- The IP addresses that the step can write into the queue read back from their textual form. -/
def ReadsBack (parseIp : Text → Option IpAddr) : ModerationStep → Prop
  | .intake pipeline _ ingress _ =>
    parseIp (pipeline.libs.ipText ingress.remoteIp) = some ingress.remoteIp
  | .approve (.ok state) _ _ _ => ∀ held, let ip := (ingressOf parseIp held).remoteIp
    parseIp (state.libs.ipText ip) = some ip
  | .approve (.error _) _ _ _ | .reject .. => True

/-- What a step does to the queue, by the way it ends. -/
def Accounts (parseIp : Text → Option IpAddr) (before after : Store) :
    ModerationStep → Report → Prop
  | .intake _ list ingress raw, .intake result =>
    Accounted parseIp ⟨list.name, ingress, raw⟩ (result.toOption.bind Disposition.heldAs)
      before.queue after.queue
  | .approve _ _ _ id, .approve (.ok outcome) =>
    ∃ row added, before.getHeld id = some row ∧
      after.queue.rows = (before.queue.rows.filter fun row => row.id ≠ id) ++ added ∧
      EntryFor parseIp (row.post parseIp) outcome.heldAs added
  | .approve .., .approve (.error _) => before.queue.rows <+: after.queue.rows
  | .reject _ _ id, .reject (.ok _) =>
    (∃ row, before.getHeld id = some row) ∧
      after.queue.rows = before.queue.rows.filter fun row => row.id ≠ id
  | .reject .., .reject (.error _) => after.queue = before.queue
  | _, _ => False

end ModerationStep

section
variable {parseIp : Text → Option IpAddr} {state : AppState} {faults : CommandFaults}
  {outside : Outside} {id : Nat} {row : HeldRow} {list : MailingList} {world : World}

/-- What an approval does once its entry and its list are found. -/
def approveEntry (state : AppState) (faults : CommandFaults) (outside : Outside)
    (list : MailingList) (post : HeldPost) (id : Nat) : Proc World CommandError Outcome := do
  let outcome ← (distributeApproved state outside list post.ingress post.raw).mapError .core
  let _ ← (sql faults.deleteHeld (Store.deleteHeld id)).mapError .core
  return outcome

theorem run_approve (works : faults.getHeld = none) (found : world.store.getHeld id = some row)
    (loaded : listByName state.lists row.list = some list) :
    (Moderate.approve parseIp (.ok state) faults outside id).run world =
      (approveEntry state faults outside list (row.post parseIp) id).run world := by
  have read : ((sql none fun store => (store.getHeld id, store)).mapError .core :
      Proc World CommandError (Option HeldRow)).run world = (.ok (some row), world) := by
    rw [Proc.run_mapError, run_sql_none, found]
    rfl
  unfold Moderate.approve
  rw [works, Proc.ofExcept_ok_bind, Proc.run_bind, read]
  dsimp only
  rw [loaded]
  rfl

theorem Settles.concluded {post : HeldPost} {program : Proc World Error Disposition}
    (settles : Settles parseIp post Disposition.heldAs program) :
    Settles parseIp post Outcome.heldAs (program >>= conclude state outside list) := by
  intro world
  have held := settles world
  rw [Proc.run_bind]
  cases run : program.run world with
  | mk result mid =>
    rw [run] at held
    cases result with
    | error error => exact held
    | ok disposition =>
      cases disposition with
      | held id | discarded reason | rejected reason => exact held
      | distribute prepared =>
        have within : (conclude state outside list (.distribute prepared)).Within KeepsQueue :=
          conclude_within (fun _ _ => rfl) _
        have kept := Pipeline.within_keepsQueue within mid
        have notHeld :
            ((conclude state outside list (.distribute prepared)).run mid).1.toOption.bind
              Outcome.heldAs = none := by
          rw [conclude, bind_pure_comp, Proc.run_map]
          cases ((deliver outside list prepared state.config.smarthost).run mid).1 <;> rfl
        dsimp only
        rw [notHeld, kept]
        exact held

theorem distributeApproved_settles {ingress : Ingress} {raw : Bytes}
    (reads : parseIp (state.libs.ipText ingress.remoteIp) = some ingress.remoteIp) :
    Settles parseIp ⟨list.name, ingress, raw⟩ Outcome.heldAs
      (distributeApproved state outside list ingress raw) :=
  Settles.concluded (finalize_settles (p := state.pipeline outside) reads)

/-- The entry that is approved leaves the queue, and those that came in meanwhile stay. -/
theorem filter_accounted {post : HeldPost} {held : Option Nat} {before after : ModerationQueue}
    (accounted : Accounted parseIp post held before after) (bound : id ≤ before.lastId) :
    ∃ added, after.rows = before.rows ++ added ∧ EntryFor parseIp post held added ∧
      after.rows.filter (fun row => row.id ≠ id) =
        (before.rows.filter fun row => row.id ≠ id) ++ added := by
  obtain ⟨added, rows, entry⟩ := accounted.rows
  refine ⟨added, rows, entry, ?_⟩
  rw [rows, List.filter_append]
  congr 1
  cases held with
  | none =>
    obtain rfl : added = [] := entry
    rfl
  | some new =>
    obtain ⟨row, rfl, rfl, -⟩ := entry
    have fresh := accounted.fresh row.id rfl
    have other : row.id ≠ id := by omega
    simp [other]

theorem approve_accounts (faults : CommandFaults) (outside : Outside)
    (reads : parseIp (state.libs.ipText (ingressOf parseIp row).remoteIp) =
      some (ingressOf parseIp row).remoteIp)
    (found : world.store.getHeld id = some row)
    (loaded : listByName state.lists row.list = some list) :
    let run := (approveEntry state faults outside list (row.post parseIp) id).run world
    match run.1 with
    | .error _ => world.store.queue.rows <+: run.2.store.queue.rows
    | .ok outcome => ∃ added,
        run.2.store.queue.rows = (world.store.queue.rows.filter fun row => row.id ≠ id) ++ added ∧
          EntryFor parseIp (row.post parseIp) outcome.heldAs added := by
  have named : list.name = row.list := by simpa using List.find?_some loaded
  obtain ⟨mem, rfl⟩ := getHeld_iff.mp found
  have bound := world.store.queue.bounded row mem
  have settles : Settles parseIp ⟨list.name, (row.post parseIp).ingress, (row.post parseIp).raw⟩
      Outcome.heldAs (distributeApproved state outside list (row.post parseIp).ingress
        (row.post parseIp).raw) :=
    distributeApproved_settles reads
  have held := settles world
  rw [named] at held
  obtain ⟨added, rows, entry, kept⟩ := filter_accounted held bound
  unfold approveEntry
  dsimp only
  rw [Proc.run_bind, Proc.run_mapError]
  cases run : (distributeApproved state outside list (row.post parseIp).ingress
      (row.post parseIp).raw).run world with
  | mk result mid =>
    rw [run] at rows entry kept
    cases result with
    | error error => exact ⟨added, rows.symm⟩
    | ok outcome =>
      dsimp only [Except.mapError]
      rw [Proc.run_bind, Proc.run_mapError]
      cases faults.deleteHeld with
      | some e => exact ⟨added, rows.symm⟩
      | none => exact ⟨added, kept, entry⟩

theorem approve_error (parseIp : Text → Option IpAddr) (outside : Outside)
    {loaded : Except CommandError AppState}
    (fails : (∃ error, loaded = .error error) ∨ faults.getHeld ≠ none ∨
      world.store.getHeld id = none ∨
      ∃ state row, loaded = .ok state ∧ world.store.getHeld id = some row ∧
        listByName state.lists row.list = none) :
    ∃ error, (Moderate.approve parseIp loaded faults outside id).run world =
      (.error error, world) := by
  unfold Moderate.approve
  cases loaded with
  | error error => exact ⟨error, rfl⟩
  | ok state =>
    rw [Proc.ofExcept_ok_bind, Proc.run_bind, Proc.run_mapError]
    cases works : faults.getHeld with
    | some e => exact ⟨_, rfl⟩
    | none =>
      rw [run_sql_none]
      cases found : world.store.getHeld id with
      | none => exact ⟨_, rfl⟩
      | some row =>
        obtain ⟨_, ⟨⟩⟩ | faulty | missing | ⟨_, _, ⟨⟩, same, absent⟩ := fails
        · exact absurd works faulty
        · cases found.symm.trans missing
        · cases found.symm.trans same
          dsimp only [Except.mapError]
          rw [absent]
          exact ⟨_, rfl⟩

theorem reject_accounts (opened : Except CommandError Unit) (faults : CommandFaults) (id : Nat)
    (world : World) :
    let run := (Moderate.reject opened faults id).run world
    match run.1 with
    | .error _ => run.2.store.queue = world.store.queue
    | .ok _ => (∃ row, world.store.getHeld id = some row) ∧
        run.2.store.queue.rows = world.store.queue.rows.filter fun row => row.id ≠ id := by
  unfold Moderate.reject
  cases opened with
  | error error => rfl
  | ok done =>
    rw [Proc.ofExcept_ok_bind, Proc.run_bind, Proc.run_mapError]
    cases faults.deleteHeld with
    | some e => rfl
    | none =>
      rw [run_sql_none, deleteHeld_fst]
      cases found : world.store.getHeld id with
      | none => exact congrArg Store.queue (deleteHeld_absent found)
      | some row => exact ⟨⟨row, rfl⟩, rfl⟩

theorem perform_accounts {step : ModerationStep} (reads : step.ReadsBack parseIp) (world : World) :
    step.Accounts parseIp world.store (step.perform parseIp world).2.store
      (step.perform parseIp world).1 := by
  cases step with
  | intake pipeline list ingress raw => exact intake_settles reads world
  | reject opened faults id =>
    have accounts := reject_accounts opened faults id world
    dsimp only [ModerationStep.perform]
    cases run : (Moderate.reject opened faults id).run world with
    | mk result after =>
      rw [run] at accounts
      cases result <;> exact accounts
  | approve loaded faults outside id =>
    dsimp only [ModerationStep.perform]
    by_cases fails : (∃ error, loaded = .error error) ∨ faults.getHeld ≠ none ∨
      world.store.getHeld id = none ∨ ∃ state row, loaded = .ok state ∧
        world.store.getHeld id = some row ∧ listByName state.lists row.list = none
    · obtain ⟨error, run⟩ := approve_error parseIp outside fails
      rw [run]
      exact List.prefix_rfl
    · simp only [not_or, not_exists, not_and, ne_eq, not_not] at fails
      obtain ⟨isLoaded, works, present, hasList⟩ := fails
      cases loaded with
      | error error => exact absurd rfl (isLoaded error)
      | ok state =>
        obtain ⟨row, found⟩ := Option.ne_none_iff_exists'.mp present
        obtain ⟨list, byName⟩ := Option.ne_none_iff_exists'.mp (hasList state row rfl found)
        have accounts := approve_accounts faults outside (reads row) found byName
        rw [run_approve works found byName]
        cases run : (approveEntry state faults outside list (row.post parseIp) id).run world with
        | mk result after =>
          rw [run] at accounts
          cases result with
          | error error => exact accounts
          | ok outcome =>
            obtain ⟨added, rows, entry⟩ := accounts
            exact ⟨row, added, found, rows, entry⟩

end

/-! ### Runs -/

/-- The entry that holds the post of the entry `id` once a step has ended, if the step has not
resolved the post. -/
def ModerationStep.heldAs (id : Nat) : ModerationStep → Report → Option Nat
  | .approve _ _ _ approved, .approve (.ok outcome) =>
    if approved = id then outcome.heldAs else some id
  | .reject _ _ rejected, .reject (.ok _) => if rejected = id then none else some id
  | _, _ => some id

/-- The entry that holds the post of the entry `id` after a run, and the world then. -/
def follow (parseIp : Text → Option IpAddr) : List ModerationStep → World → Nat → Option Nat × World
  | [], world, id => (some id, world)
  | step :: steps, world, id =>
    let run := step.perform parseIp world
    match step.heldAs id run.1 with
    | none => (none, (follow parseIp steps run.2 id).2)
    | some id => follow parseIp steps run.2 id

section
variable {parseIp : Text → Option IpAddr}

/-- A step that does not resolve a post keeps its entry, or replaces it by one with the same
post. -/
theorem perform_keeps {step : ModerationStep} (reads : step.ReadsBack parseIp) {world : World}
    {id next : Nat} {row : HeldRow} (found : world.store.getHeld id = some row)
    (held : step.heldAs id (step.perform parseIp world).1 = some next) :
    ∃ kept, (step.perform parseIp world).2.store.getHeld next = some kept ∧
      kept.post parseIp = row.post parseIp := by
  have accounts := perform_accounts reads world
  generalize step.perform parseIp world = run at accounts held
  obtain ⟨report, after⟩ := run
  have mem : row ∈ world.store.queue.rows := (getHeld_iff.mp found).1
  have same : row.id = id := (getHeld_iff.mp found).2
  have stays (stays : row ∈ after.store.queue.rows) (itself : some id = some next) :
      ∃ kept, after.store.getHeld next = some kept ∧ kept.post parseIp = row.post parseIp := by
    cases itself
    exact ⟨row, getHeld_iff.mpr ⟨stays, same⟩, rfl⟩
  have remains {other : Nat} (differ : other ≠ id) :
      row ∈ world.store.queue.rows.filter fun row => row.id ≠ other :=
    List.mem_filter.mpr ⟨mem, by simpa [same] using differ.symm⟩
  cases step with
  | intake pipeline list ingress raw =>
    cases report with
    | approve | reject => cases accounts
    | intake result =>
      obtain ⟨added, rows, -⟩ := Accounted.rows accounts
      exact stays (rows ▸ List.mem_append_left _ mem) held
  | reject opened faults rejected =>
    cases report with
    | intake | approve => cases accounts
    | reject result =>
      cases result with
      | error error =>
        have same : after.store.queue = world.store.queue := accounts
        exact stays (same ▸ mem) held
      | ok done =>
        obtain ⟨-, rows⟩ := accounts
        simp only [ModerationStep.heldAs] at held
        split at held
        · cases held
        · rename_i differ
          exact stays (rows ▸ remains differ) held
  | approve loaded faults outside approved =>
    cases report with
    | intake | reject => cases accounts
    | approve result =>
      cases result with
      | error error => exact stays (accounts.subset mem) held
      | ok outcome =>
        obtain ⟨resolved, added, read, rows, entry⟩ := accounts
        simp only [ModerationStep.heldAs] at held
        split at held
        · rename_i itself
          subst itself
          cases found.symm.trans read
          rw [held] at entry
          obtain ⟨successor, rfl, rfl, post⟩ := entry
          exact ⟨successor, getHeld_iff.mpr ⟨rows ▸ List.mem_append_right _ (by simp), rfl⟩,
            post⟩
        · rename_i differ
          exact stays (rows ▸ List.mem_append_left _ (remains differ)) held

/-- A post that no step of a run resolves stays in the queue as it came. -/
theorem follow_keeps {steps : List ModerationStep} (reads : ∀ step ∈ steps, step.ReadsBack parseIp)
    {world after : World} {id next : Nat} {row : HeldRow}
    (found : world.store.getHeld id = some row)
    (held : follow parseIp steps world id = (some next, after)) :
    ∃ kept, after.store.getHeld next = some kept ∧ kept.post parseIp = row.post parseIp := by
  induction steps generalizing world id row with
  | nil =>
    cases held
    exact ⟨row, found, rfl⟩
  | cons step steps ih =>
    simp only [follow] at held
    split at held
    · cases held
    · rename_i kept holds
      obtain ⟨successor, found, post⟩ := perform_keeps (reads step (by simp)) found holds
      obtain ⟨last, found, same⟩ := ih (fun step mem => reads step (by simp [mem])) found held
      exact ⟨last, found, same.trans post⟩

/-- An approval of the entry that holds a post finalizes that very post. -/
def FinalizesPost (parseIp : Text → Option IpAddr) (post : HeldPost) (id : Nat) (world : World) :
    Prop :=
  ∀ state faults outside list, faults.getHeld = none →
    listByName state.lists post.list = some list →
    (Moderate.approve parseIp (.ok state) faults outside id).run world =
      (approveEntry state faults outside list post id).run world

/-- Moderation neither loses nor alters a held post.  Every step of every run accounts for the
queue as it ends, whatever the policies, verdicts and failures; and a post that was taken in and
held, and that no later approval or rejection has resolved, is still in the queue, and approving it
finalizes exactly the envelope and the bytes that it arrived with. -/
theorem moderation_keepsPosts (parseIp : Text → Option IpAddr) :
    (∀ (step : ModerationStep) (world : World), step.ReadsBack parseIp →
      step.Accounts parseIp world.store (step.perform parseIp world).2.store
        (step.perform parseIp world).1) ∧
    ∀ (pipeline : Pipeline) (list : MailingList) (ingress : Ingress) (raw : Bytes)
      (start arrived : World) (id : Nat),
      (pipeline.intake list ingress raw).run start = (.ok (.held id), arrived) →
      parseIp (pipeline.libs.ipText ingress.remoteIp) = some ingress.remoteIp →
      ∀ steps, (∀ step ∈ steps, step.ReadsBack parseIp) → ∀ next after,
        follow parseIp steps arrived id = (some next, after) →
        (∃ row, after.store.getHeld next = some row ∧
          row.post parseIp = ⟨list.name, ingress, raw⟩) ∧
        FinalizesPost parseIp ⟨list.name, ingress, raw⟩ next after := by
  refine ⟨fun step world reads => perform_accounts reads world, ?_⟩
  intro pipeline list ingress raw start arrived id run reads steps readsAll next after held
  have settles : Settles parseIp ⟨list.name, ingress, raw⟩ Disposition.heldAs
      (pipeline.intake list ingress raw) := intake_settles reads
  have accounted := settles start
  rw [run] at accounted
  obtain ⟨added, rows, row, rfl, rfl, post⟩ := accounted.rows
  have found : arrived.store.getHeld row.id = some row :=
    getHeld_iff.mpr ⟨rows ▸ List.mem_append_right _ (by simp), rfl⟩
  obtain ⟨kept, still, same⟩ := follow_keeps readsAll found held
  refine ⟨⟨kept, still, same.trans post⟩, fun state faults outside list' works byName => ?_⟩
  rw [← post, ← same] at byName ⊢
  exact run_approve works still byName

end

/-! ### A post that is held twice -/

/-- The two addresses of the sample, with their textual forms. -/
def parseSampleIp (text : Text) : Option IpAddr :=
  if text = "127.0.0.1".toList then some localhost
  else if text = "192.0.2.1".toList then some aliceIngress.remoteIp
  else none

/-- A deployment whose chain after moderation holds every post again. -/
def reholdingState : AppState :=
  { aliceState with
    libs := { aliceLibraries with
      ipText := fun ip =>
        if ip = localhost then "127.0.0.1".toList else "192.0.2.1".toList }
    policy := { PolicyEngine.new aliceView with
      globalAfter := [Builtin.moderated.script aliceView] } }

/-- Alice, who is no subscriber, posts. -/
def alicesArrival : Except Error Disposition × World :=
  ((reholdingState.pipeline calmOutside).intake devList aliceIngress alicesPost).run
    (.initial .empty)

/-- The post is approved, and another one rejected that is not there. -/
def reholdingSteps : List ModerationStep :=
  [.approve (.ok reholdingState) {} calmOutside 1, .reject (.ok ()) {} 7]

theorem moderation_keepsPosts_alice :
    ∃ row, (follow parseSampleIp reholdingSteps alicesArrival.2 1).2.store.getHeld 2 = some row ∧
      row.post parseSampleIp = ⟨"dev".toList, aliceIngress, alicesPost⟩ := by
  have arrives : alicesArrival.1 = .ok (.held 1) := by decide +kernel
  have holds : (follow parseSampleIp reholdingSteps alicesArrival.2 1).1 = some 2 := by
    decide +kernel
  have known (ip : IpAddr) (known : ip = localhost ∨ ip = aliceIngress.remoteIp) :
      parseSampleIp (reholdingState.libs.ipText ip) = some ip := by
    rcases known with rfl | rfl <;> decide +kernel
  have reads : ∀ step ∈ reholdingSteps, step.ReadsBack parseSampleIp := by
    intro step mem
    rcases List.mem_cons.mp mem with rfl | mem
    · intro held
      apply known
      simp only [ingressOf, parseSampleIp]
      split
      · exact .inl rfl
      · split
        · exact .inr rfl
        · exact .inl rfl
    · obtain rfl := List.mem_singleton.mp mem
      trivial
  exact ((moderation_keepsPosts parseSampleIp).2 (reholdingState.pipeline calmOutside) devList
    aliceIngress alicesPost (.initial .empty) alicesArrival.2 1 (Prod.ext arrives rfl)
    (known _ (.inr rfl)) reholdingSteps reads 2 _ (Prod.ext holds rfl)).1

end Carriers
