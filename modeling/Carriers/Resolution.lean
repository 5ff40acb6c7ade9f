import Carriers.Moderation
import Carriers.ProofKit.Pool

/-! Concurrent `moderate` commands on one held post: how often it is distributed, and when. -/

namespace Carriers

open ProofKit

/-- A `moderate` command that resolves a post, with the failures that it meets. -/
inductive ModerateCommand where
  | approve (loaded : Except CommandError AppState) (faults : CommandFaults) (outside : Outside)
  | reject (opened : Except CommandError Unit) (faults : CommandFaults)

def ModerateCommand.program (parseIp : Text → Option IpAddr) (id : Nat) :
    ModerateCommand → Proc World CommandError (Option Outcome)
  | .approve loaded faults outside => do
    let outcome ← Moderate.approve parseIp loaded faults outside id
    return some outcome
  | .reject opened faults => do
    let _ ← Moderate.reject opened faults id
    return none

section
variable {ι : Type} (parseIp : Text → Option IpAddr) (id : Nat) (commands : ι → ModerateCommand)
  (world : World)

/-- Commands on the entry `id`, each in a process of its own. -/
def commandPool : Pool ι World CommandError (Option Outcome) :=
  { state := world, thread := fun i => (commands i).program parseIp id }

end

/-- The smarthost accepts a copy. -/
def Relays (before after : World) : Prop := after.relayed ≠ before.relayed

section
variable {ι : Type} [DecidableEq ι] (parseIp : Text → Option IpAddr) (id : Nat)
  (commands : ι → ModerateCommand) (world : World)

/-- A post is distributed by at most one of the commands, and not after a rejection of it has
reported success. -/
structure ResolvedOnce (schedule : List ι) : Prop where
  once : ∀ i j, (commandPool parseIp id commands world).Takes Relays schedule i →
    (commandPool parseIp id commands world).Takes Relays schedule j → i = j
  notRejected : ∀ before i rest, schedule = before ++ i :: rest →
    let pool := (commandPool parseIp id commands world).after before
    Relays pool.state (pool.step i).state →
    ∀ j opened faults, commands j = .reject opened faults → ∀ value,
      (pool.thread j).result ≠ some (.ok value)

/-- The command `i` can relay a copy without disturbing another: the entry is still queued, no
other command that has begun is under way, and none has failed once it had relayed a copy. -/
structure Undisturbed (before : List ι) (i : ι) : Prop where
  queued : ((commandPool parseIp id commands world).after before).state.store.getHeld id ≠ none
  alone : ∀ j ≠ i, j ∈ before →
    (((commandPool parseIp id commands world).after before).thread j).result ≠ none
  reliable : ∀ j ≠ i, (commandPool parseIp id commands world).Takes Relays before j → ∀ error,
    (((commandPool parseIp id commands world).after before).thread j).result ≠ some (.error error)

end

/-! ### Deleted entries -/

/-- An entry that is gone stays gone. -/
def KeepsAbsent (id : Nat) (before after : World) : Prop :=
  before.store.queue.lastId ≤ after.store.queue.lastId ∧
    (id ≤ before.store.queue.lastId → before.store.getHeld id = none →
      after.store.getHeld id = none)

theorem keepsAbsent_refl (id : Nat) (world : World) : KeepsAbsent id world world :=
  ⟨le_rfl, fun _ absent => absent⟩

theorem keepsAbsent_hold (id : Nat) : AllowsHold (KeepsAbsent id) := by
  intro world list mailFrom helo remoteIp sender subject raw
  refine ⟨Nat.le_succ _, fun old absent => ?_⟩
  have newer : world.store.queue.lastId + 1 ≠ id := by omega
  simp only [Store.getHeld, Store.enqueueHeld, List.find?_append] at absent ⊢
  rw [absent]
  simp [newer]

section
variable {parseIp : Text → Option IpAddr} {id : Nat}

theorem delete_within (fault : Option Text) :
    ((sql fault (Store.deleteHeld id)).mapError CommandError.core).Within (KeepsAbsent id) :=
  (sql_within fun world => ⟨le_rfl, fun _ _ => deleteHeld_gone id world.store⟩).mapError

theorem delete_reaches (fault : Option Text) :
    ((sql fault (Store.deleteHeld id)).mapError CommandError.core).Reaches
      fun world => world.store.getHeld id = none := by
  refine Proc.Reaches.mapError ?_
  cases fault with
  | some e => trivial
  | none => exact Proc.reaches_transact fun world => deleteHeld_gone id world.store

theorem distributeApproved_keepsAbsent {state : AppState} {outside : Outside} {list : MailingList}
    {ingress : Ingress} {raw : Bytes} :
    (distributeApproved state outside list ingress raw).Within (KeepsAbsent id) := by
  refine (finalize_within (keepsAbsent_refl id) ?_ (keepsAbsent_hold id)).bind
    (conclude_within fun world _ => ?_)
  · exact fun world _ => keepsAbsent_refl id world
  · exact keepsAbsent_refl id world

theorem program_within (command : ModerateCommand) :
    (command.program parseIp id).Within (KeepsAbsent id) := by
  cases command with
  | reject opened faults =>
    refine Proc.Within.bind ?_ fun _ => Proc.within_pure _
    refine (Proc.within_ofExcept _).bind fun _ => (delete_within _).bind fun deleted => ?_
    cases deleted <;> trivial
  | approve loaded faults outside =>
    refine Proc.Within.bind ?_ fun _ => Proc.within_pure _
    refine (Proc.within_ofExcept _).bind fun state => ?_
    refine Proc.Within.bind (sql_within (keepsAbsent_refl id)).mapError fun found => ?_
    cases found with
    | none => trivial
    | some held =>
      dsimp only
      cases listByName state.lists held.list with
      | none => trivial
      | some list =>
        refine distributeApproved_keepsAbsent.mapError.bind fun outcome => ?_
        exact (delete_within _).bind fun _ => Proc.within_pure _

/-- A command that succeeds has deleted the entry. -/
theorem program_reaches (command : ModerateCommand) :
    (command.program parseIp id).Reaches fun world => world.store.getHeld id = none := by
  cases command with
  | reject opened faults =>
    refine Proc.Reaches.bind (Proc.reaches_bind _ fun _ => ?_)
    exact (delete_reaches _).bind
  | approve loaded faults outside =>
    refine Proc.Reaches.bind (Proc.reaches_bind _ fun state => Proc.reaches_bind _ fun found => ?_)
    cases found with
    | none => trivial
    | some held =>
      dsimp only
      cases listByName state.lists held.list with
      | none => trivial
      | some list => exact Proc.reaches_bind _ fun outcome => (delete_reaches _).bind

end

/-! ### Every interleaving -/

section
variable {ι : Type} [DecidableEq ι] {parseIp : Text → Option IpAddr} {id : Nat}
  {commands : ι → ModerateCommand} {world : World}

/-- Once a command has succeeded, the entry is gone. -/
theorem gone_of_ok {row : HeldRow} (held : world.store.getHeld id = some row) (schedule : List ι)
    {i : ι} {value : Option Outcome}
    (succeeded : (((commandPool parseIp id commands world).after schedule).thread i).result =
      some (.ok value)) :
    ((commandPool parseIp id commands world).after schedule).state.store.getHeld id = none := by
  have issued : id ≤ world.store.queue.lastId := by
    obtain ⟨mem, rfl⟩ := getHeld_iff.mp held
    exact world.store.queue.bounded row mem
  have either := ((commandPool parseIp id commands world).after_reaches
    (I := fun world => id ≤ world.store.queue.lastId)
    (fun i => program_within (commands i)) (keepsAbsent_refl id) issued
    (fun s s' old related => ⟨old.trans related.1, related.2 old⟩)
    (fun i => program_reaches (commands i)) schedule).2 i
  rcases either with gone | reaches
  · exact gone
  · cases thread : ((commandPool parseIp id commands world).after schedule).thread i with
    | pure value =>
      rw [thread] at reaches
      exact reaches.elim
    | throw | act =>
      rw [thread] at succeeded
      cases succeeded

/-- A held post is resolved once in every interleaving in which copies are relayed only while no
other command is under way and the entry is still queued: for any number of commands, with whatever
policies and failures they meet. -/
theorem resolvedOnce_of_undisturbed {row : HeldRow} (held : world.store.getHeld id = some row)
    {schedule : List ι}
    (undisturbed : ∀ before i rest, schedule = before ++ i :: rest →
      Relays ((commandPool parseIp id commands world).after before).state
        (((commandPool parseIp id commands world).after before).step i).state →
      Undisturbed parseIp id commands world before i) :
    ResolvedOnce parseIp id commands world schedule := by
  constructor
  · intro i j relaysI relaysJ
    by_contra distinct
    obtain ⟨before, k, l, rest, other, split, relays, earlier⟩ :=
      Pool.takes_order distinct relaysI relaysJ
    have clear := undisturbed before l rest split relays
    cases ended : (((commandPool parseIp id commands world).after before).thread k).result with
    | none => exact clear.alone k other earlier.mem ended
    | some result =>
      cases result with
      | error error => exact clear.reliable k other earlier error ended
      | ok value => exact clear.queued (gone_of_ok held before ended)
  · intro before i rest split pool relays j opened faults _ value succeeded
    exact (undisturbed before i rest split relays).queued (gone_of_ok held before succeeded)

end

/-! ### Two moderators -/

/-- A post of Alice to `dev` that is held. -/
def heldPostWorld : World :=
  .initial (devSubscribed.enqueueHeld "dev".toList "alice@example.com".toList
    "mx.example.com".toList "192.0.2.1".toList none none alicesPost).2

def approval : ModerateCommand := .approve (.ok aliceState) {} calmOutside

def rejection : ModerateCommand := .reject (.ok ()) {}

/-- One moderator approves and the other rejects. -/
def approveAndReject (rejects : Bool) : ModerateCommand := if rejects then rejection else approval

/-- The approval takes all its steps, and then the rejection. -/
def oneAfterTheOther : List Bool := [false, false, false, false, false, false, true]

theorem resolvedOnce_of_undisturbed_sequential :
    ResolvedOnce parseSampleIp 1 approveAndReject heldPostWorld oneAfterTheOther := by
  have held : ∃ row, heldPostWorld.store.getHeld 1 = some row :=
    Option.isSome_iff_exists.mp (by decide +kernel)
  obtain ⟨row, held⟩ := held
  refine resolvedOnce_of_undisturbed held fun before i rest split relays => ?_
  have cut : oneAfterTheOther.take before.length = before := by simp [split]
  have next : oneAfterTheOther[before.length]? = some i := by simp [split]
  have short : before.length < 7 := (List.getElem?_eq_some_iff.mp next).1
  have alone (absent : ∀ j ≠ i, j ∉ before)
      (queued : ((commandPool parseSampleIp 1 approveAndReject heldPostWorld).after
        before).state.store.getHeld 1 ≠ none) :
      Undisturbed parseSampleIp 1 approveAndReject heldPostWorld before i :=
    ⟨queued, fun j other mem => absurd mem (absent j other),
      fun j other takes => absurd takes.mem (absent j other)⟩
  have queued : ∀ place < 6, ((commandPool parseSampleIp 1 approveAndReject heldPostWorld).after
      (oneAfterTheOther.take place)).state.store.getHeld 1 ≠ none := by decide +kernel
  have others : ∀ place < 6, ∀ j ≠ false, j ∉ oneAfterTheOther.take place := by decide
  rcases Nat.lt_succ_iff_lt_or_eq.mp short with early | last
  · have approves : oneAfterTheOther[before.length]? = some false :=
      (show ∀ place < 6, oneAfterTheOther[place]? = some false by decide) _ early
    obtain rfl : i = false := Option.some.inj (next.symm.trans approves)
    exact alone (cut ▸ others _ early) (cut ▸ queued _ early)
  · obtain rfl : i = true := by
      rw [last] at next
      exact (Option.some.inj next).symm
    rw [last] at cut
    rw [← cut] at relays
    have silent : ¬Relays
        ((commandPool parseSampleIp 1 approveAndReject heldPostWorld).after
          (oneAfterTheOther.take 6)).state
        (((commandPool parseSampleIp 1 approveAndReject heldPostWorld).after
          (oneAfterTheOther.take 6)).step true).state := by
      unfold Relays
      decide +kernel
    exact absurd relays silent

/-- Two approvals that both read the entry before either deletes it both distribute the post, and an
approval that has read it distributes the post after its rejection has succeeded. -/
theorem resolvedTwice :
    ¬ResolvedOnce parseSampleIp 1 (fun _ : Bool => approval) heldPostWorld
        [false, true, false, false, false, true, true, true] ∧
      ¬ResolvedOnce parseSampleIp 1 approveAndReject heldPostWorld
        [false, true, false, false, false] := by
  constructor
  · intro resolved
    have first : (commandPool parseSampleIp 1 (fun _ : Bool => approval) heldPostWorld).Takes
        Relays [false, true, false, false, false, true, true, true] false :=
      ⟨[false, true, false, false], [true, true, true], rfl, by unfold Relays; decide +kernel⟩
    have second : (commandPool parseSampleIp 1 (fun _ : Bool => approval) heldPostWorld).Takes
        Relays [false, true, false, false, false, true, true, true] true :=
      ⟨[false, true, false, false, false, true, true], [], rfl, by unfold Relays; decide +kernel⟩
    exact nomatch resolved.once false true first second
  · intro resolved
    have rejected : (((commandPool parseSampleIp 1 approveAndReject heldPostWorld).after
        [false, true, false, false]).thread true).result = some (.ok none) := by decide +kernel
    exact resolved.notRejected [false, true, false, false] false [] rfl
      (show Relays _ _ by unfold Relays; decide +kernel) true (.ok ()) {} rfl none rejected

end Carriers
