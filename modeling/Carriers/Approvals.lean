import Carriers.Copies
import Carriers.HeldPosts
import Carriers.Operations
import Carriers.Startup

/-! What a moderator was shown is what an approval sends, whatever arrives and whoever else
moderates in between. -/

namespace Carriers

open ProofKit
open ProofKit.Sieve (MailView)

/-! ### Entries -/

/-- Every entry is one that there was, or one under a new id. -/
structure EntriesFixed (before after : World) : Prop where
  ids : before.store.queue.lastId ≤ after.store.queue.lastId
  entries : ∀ row ∈ after.store.queue.rows,
    row ∈ before.store.queue.rows ∨ before.store.queue.lastId < row.id

theorem entriesFixed_of_same {before after : World}
    (same : after.store.queue = before.store.queue) : EntriesFixed before after :=
  ⟨same ▸ le_rfl, fun _ mem => .inl (same ▸ mem)⟩

theorem EntriesFixed.trans {first second third : World} (h : EntriesFixed first second)
    (h' : EntriesFixed second third) : EntriesFixed first third := by
  refine ⟨h.ids.trans h'.ids, fun row mem => ?_⟩
  rcases h'.entries row mem with mem | later
  · exact h.entries row mem
  · exact .inr (h.ids.trans_lt later)

theorem hold_entriesFixed : AllowsHold EntriesFixed := by
  intro world list mailFrom helo remoteIp sender subject raw
  refine ⟨Nat.le_succ _, fun row mem => ?_⟩
  rcases List.mem_append.mp mem with old | new
  · exact .inl old
  · obtain rfl := List.mem_singleton.mp new
    exact .inr (Nat.lt_succ_self _)

theorem deleteHeld_entriesFixed (id : Nat) (world : World) :
    EntriesFixed world { world with store := (world.store.deleteHeld id).2 } :=
  ⟨le_rfl, fun _ mem => .inl (List.mem_filter.mp mem).1⟩

/-- An id refers to one message for ever. -/
theorem EntriesFixed.getHeld {before after : World} (h : EntriesFixed before after) {id : Nat}
    {row later : HeldRow} (found : before.store.getHeld id = some row)
    (found' : after.store.getHeld id = some later) : later = row := by
  obtain ⟨mem, rfl⟩ := getHeld_iff.mp found
  obtain ⟨mem', sameId⟩ := getHeld_iff.mp found'
  rcases h.entries later mem' with old | new
  · have again : before.store.getHeld row.id = some later := getHeld_iff.mpr ⟨old, sameId⟩
    exact Option.some.inj (again.symm.trans found)
  · have := before.store.queue.bounded row mem
    omega

theorem members_entriesFixed : AllowsMembers EntriesFixed :=
  fun _ _ => entriesFixed_of_same rfl

section
variable {state : AppState}

theorem recipientReply_entriesFixed {recipient : Recipient} (outside : Outside) (ingress : Ingress)
    (raw : Bytes) :
    (recipientReply state outside ingress raw recipient).Within EntriesFixed := by
  cases recipient with
  | post list =>
    have handles : (handleOne state outside list ingress raw).Within EntriesFixed :=
      handleOne_queue hold_entriesFixed fun _ _ => entriesFixed_of_same
    exact Proc.Within.bind handles.attempt fun _ => Proc.within_pure _
  | bounce list address =>
    refine Proc.Within.bind (Proc.Within.attempt ?_) fun _ => Proc.within_pure _
    rw [handleBounce]
    split
    · trivial
    · exact (sql_allowsMembers members_entriesFixed (recordBounce_members list.name address _ _)
        _).bind fun _ => Proc.within_pure _

theorem task_entriesFixed (task : Task) : (task.program state).Within EntriesFixed := by
  cases task with
  | connection parse remoteIp reader outside =>
    have serves : (handleConnection state parse remoteIp reader outside).Guarantees
        (fun _ => True) EntriesFixed fun _ => True :=
      handleConnection_guarantees (fun _ _ outside ingress raw =>
        (recipientReply_entriesFixed outside ingress raw).guarantees) reader outside
    exact serves.within.mapError.bind fun _ => Proc.within_pure _
  | approve parseIp loaded faults outside id =>
    exact (approve_queue hold_entriesFixed (fun _ _ => entriesFixed_of_same)
      (deleteHeld_entriesFixed id) _ faults outside).bind fun _ => Proc.within_pure _
  | reject opened faults id => exact reject_queue (deleteHeld_entriesFixed id) opened faults

/-- No program of a deployment alters an entry or gives its id to another. -/
theorem operation_entriesFixed (operation : Operation) :
    (operation.program state).Within EntriesFixed := by
  have queries {α : Type} (query : Store → α) (fault : Option Text) :
      ((sql fault fun store => (query store, store)).mapError CommandError.core).Within
        EntriesFixed := by
    have asks : (sql fault fun store => (query store, store)).Within EntriesFixed :=
      sql_within fun _ => entriesFixed_of_same rfl
    exact asks.mapError
  cases operation with
  | task task => exact (task_entriesFixed task).bind fun _ => Proc.within_pure _
  | member opened lists fault command =>
    exact (member_within members_entriesFixed opened lists fault command).bind
      fun _ => Proc.within_pure _
  | sync membersFile faults loaded =>
    refine Proc.Within.bind ?_ fun _ => Proc.within_pure _
    exact (Proc.within_ofExcept _).bind fun lists =>
      syncLists_within members_entriesFixed membersFile faults lists
  | listHeld opened fault list =>
    refine Proc.Within.bind ?_ fun _ => Proc.within_pure _
    exact (Proc.within_ofExcept _).bind fun _ =>
      (queries (Store.heldMessages list) fault).bind fun _ => Proc.within_pure _
  | showHeld opened fault id =>
    refine Proc.Within.bind ?_ fun _ => Proc.within_pure _
    refine (Proc.within_ofExcept _).bind fun _ =>
      (queries (Store.getHeld id) fault).bind fun found => ?_
    cases found <;> trivial

end

/-! ### Copies -/

/-- The copy is one of the message. -/
def Copy.IsOf (format : HeaderFormat) (view : MailView) (list : MailingList) (raw : Bytes)
    (copy : Copy) : Prop :=
  ∃ munge, Preserves format view list munge raw copy.body

section
variable {view : MailView} {format : HeaderFormat} {list : MailingList} {p : Pipeline}
  {state : AppState} {outside : Outside} {ingress : Ingress} {raw : Bytes}

/-- What is distributed is the message behind new fields. -/
def Disposition.IsOf (format : HeaderFormat) (view : MailView) (list : MailingList) (raw : Bytes)
    (disposition : Disposition) : Prop :=
  ∀ prepared, disposition = .distribute prepared → ∃ munge added,
    CopyOf format list (replacedFields view list munge raw) raw prepared.message added

theorem emits_of_addsCopies {ε α : Type} {Q : Copy → Prop} {program : Proc World ε α}
    (adds : program.Within (AddsCopies Q)) :
    program.Emits newCopies fun copies => ∀ copy ∈ copies, Q copy := by
  induction program with
  | pure | throw => exact fun _ => List.forall_mem_nil _
  | act update next ih =>
    intro met
    cases met with
    | nil => exact List.forall_mem_nil _
    | cons world met =>
      obtain ⟨⟨copies, relayed, all⟩, rest⟩ := adds world
      have new : newCopies world (update world) = copies := by
        rw [newCopies, relayed, List.drop_left]
      show ∀ copy ∈ newCopies world (update world) ++ _, Q copy
      rw [new]
      exact List.forall_mem_append.mpr ⟨all, ih world rest met⟩

section
variable (governs : format.Governs view) (builtins : state.policy.BuiltinsOf view)
  (signs : list.signers.WriteFields format)
include governs builtins signs

theorem prepare_isOf (verdict : AuthVerdict) (outcome : PolicyOutcome) :
    ((state.pipeline outside).prepare list ingress raw verdict outcome).Returns fun prepared =>
      ∃ added, CopyOf format list (replacedFields view list outcome.mungeFrom raw) raw
        prepared.message added := by
  obtain ⟨augmented, more, transformed, rewrites⟩ :=
    transform_rewrites (p := state.pipeline outside) governs builtins list raw outcome.mungeFrom
  rw [Pipeline.prepare]
  refine Proc.returns_bind fun recipients => ?_
  rw [transformed, pure_bind]
  exact (returns_ofExcept fun message signed =>
    signAndSeal_copyOf signs ⟨rewrites, List.mem_cons_self⟩ signed).bind fun message copy => copy

theorem finalize_isOf :
    ((state.pipeline outside).finalize list ingress raw).Returns
      (Disposition.IsOf format view list raw) := by
  rw [Pipeline.finalize]
  refine Proc.returns_bind fun sets => Proc.returns_bind fun verdict => ?_
  refine Proc.returns_bind fun outcome => Proc.returns_bind fun _ => ?_
  cases outcome.decision with
  | approve =>
    refine (prepare_isOf governs builtins signs verdict outcome).bind fun prepared copy => ?_
    intro other same
    obtain rfl := Disposition.distribute.inj same
    exact ⟨outcome.mungeFrom, copy⟩
  | moderate => exact Proc.returns_bind fun _ _ same => Disposition.noConfusion same
  | discard => exact fun _ same => Disposition.noConfusion same
  | reject => exact fun _ same => Disposition.noConfusion same

theorem distributeApproved_copies :
    (distributeApproved state outside list ingress raw).Within
      (AddsCopies (Copy.IsOf format view list raw)) := by
  have finalizes : ((state.pipeline outside).finalize list ingress raw).Within
      (AddsCopies (Copy.IsOf format view list raw)) :=
    finalize_within addsCopies_refl (fun world _ => addsCopies_refl world)
      fun world _ _ _ _ _ _ _ => addsCopies_refl world
  have finalized : ((state.pipeline outside).finalize list ingress raw).Guarantees (fun _ => True)
      (AddsCopies (Copy.IsOf format view list raw)) (Disposition.IsOf format view list raw) :=
    finalizes.guaranteesReturns (finalize_isOf governs builtins signs)
  refine Proc.Guarantees.within (Q := fun _ => True) (finalized.bind fun disposition isOf => ?_)
  refine (conclude_addsCopies ?_).guarantees
  rintro prepared rfl index recipient body due
  obtain ⟨munge, added, copy⟩ := isOf prepared rfl
  obtain ⟨added, copy⟩ := copyBody_copyOf signs copy due
  exact ⟨munge, preserves_of_copyOf governs copy⟩

end

end

/-! ### Approvals -/

section
variable {state : AppState} {id : Nat}

/-- The entry that a command finds is the one of the world in which it asks. -/
theorem getHeld_founded (fault : Option Text) :
    ((sql fault fun store => (store.getHeld id, store)).mapError CommandError.core).Founded
      (fun _ => False) fun world _ found => found = world.store.getHeld id := by
  cases fault with
  | some e => trivial
  | none => exact fun world => .inr (.inr rfl)

/-- What is shown is the message of the entry. -/
theorem showHeld_founded (opened : Except CommandError Unit) (fault : Option Text) :
    ((Operation.showHeld opened fault id).program state).Founded (fun _ => False)
      fun world _ output =>
        ∃ row, world.store.getHeld id = some row ∧ output = .octets row.raw := by
  have shows : (Moderate.showHeld opened fault id).Founded (fun _ => False) fun world _ raw =>
      ∃ row, world.store.getHeld id = some row ∧ raw = row.raw := by
    refine Proc.founded_bind _ fun _ => ?_
    refine (getHeld_founded fault).bind (fun _ => False.elim) fun world _ found same => ?_
    cases found with
    | none => trivial
    | some row => exact .inr ⟨row, same.symm, rfl⟩
  refine shows.bind (fun _ => False.elim) ?_
  rintro world _ _ ⟨row, found, rfl⟩
  exact .inr ⟨row, found, rfl⟩

variable {view : MailView} {format : HeaderFormat} (governs : format.Governs view)
  (builtins : state.policy.BuiltinsOf view)
  (signs : ∀ list, IsLoaded state.lists list → list.signers.WriteFields format)
include governs builtins signs

/-- The copies that an approval sends are of the entry that it finds. -/
theorem approve_owes (parseIp : Text → Option IpAddr) (loaded : Except CommandError Unit)
    (faults : CommandFaults) (outside : Outside) :
    ((Operation.task (.approve parseIp loaded faults outside id)).program state).Owes newCopies
      fun world _ copies => ∀ copy ∈ copies, ∃ row list, world.store.getHeld id = some row ∧
        IsLoaded state.lists list ∧ copy.IsOf format view list row.raw := by
  refine Proc.Owes.bind_silent (Proc.Owes.bind_silent ?_ fun _ => Proc.within_pure _)
    fun _ => Proc.within_pure _
  cases loaded with
  | error error => trivial
  | ok =>
    have asks : ((sql faults.getHeld fun store => (store.getHeld id, store)).mapError
        CommandError.core).Silent newCopies := by
      have queries : (sql faults.getHeld fun store => (store.getHeld id, store)).Within
          fun before after => newCopies before after = [] := sql_within newCopies_self
      exact queries.mapError
    rw [Moderate.approve, except_map_ok, Proc.ofExcept_ok_bind]
    refine Proc.Owes.bind asks (fun _ _ => List.forall_mem_nil _) (getHeld_founded faults.getHeld)
      (fun _ => False.elim) fun world _ found same => ?_
    cases found with
    | none => exact fun _ => List.forall_mem_nil _
    | some row =>
      dsimp only
      cases lookup : listByName state.lists row.list with
      | none => exact fun _ => List.forall_mem_nil _
      | some list =>
        have loaded : IsLoaded state.lists list := listByName_isLoaded lookup
        have deletes : ((sql faults.deleteHeld (Store.deleteHeld id)).mapError
            CommandError.core).Within (AddsCopies (Copy.IsOf format view list row.raw)) := by
          have statement : (sql faults.deleteHeld (Store.deleteHeld id)).Within
              (AddsCopies (Copy.IsOf format view list row.raw)) :=
            sql_within fun world => addsCopies_refl world
          exact statement.mapError
        have distributes : (distributeApproved state outside list (ingressOf parseIp row)
            row.raw).Within (AddsCopies (Copy.IsOf format view list row.raw)) :=
          distributeApproved_copies governs builtins (signs list loaded)
        have wrapped : ((distributeApproved state outside list (ingressOf parseIp row)
            row.raw).mapError CommandError.core).Within
              (AddsCopies (Copy.IsOf format view list row.raw)) := distributes.mapError
        have sends := emits_of_addsCopies
          (wrapped.bind fun outcome => deletes.bind fun _ => Proc.within_pure outcome)
        exact fun met copy mem => ⟨row, list, same.symm, loaded, sends met copy mem⟩

end

/-! ### Every interleaving -/

section
variable {ι : Type} [DecidableEq ι] (state : AppState) (operations : ι → Operation) (start : World)

theorem entriesFixed_after (schedule more : List ι) :
    EntriesFixed ((operationPool state operations start).after schedule).state
      ((operationPool state operations start).after (schedule ++ more)).state := by
  rw [Pool.after_append]
  exact Pool.after_related (fun i => Pool.thread_within (operation_entriesFixed _) schedule)
    (fun _ => entriesFixed_of_same rfl) (fun _ _ _ => EntriesFixed.trans) more

/-- Whoever looks up an id in the run, and whenever, finds one and the same entry, or none. -/
def IdsFixed (schedule : List ι) : Prop :=
  ∀ first second, first <+: schedule → second <+: schedule → ∀ id row other,
    ((operationPool state operations start).after first).state.store.getHeld id = some row →
    ((operationPool state operations start).after second).state.store.getHeld id = some other →
    other = row

theorem idsFixed (schedule : List ι) : IdsFixed state operations start schedule := by
  intro first second isFirst isSecond id row other found found'
  rcases List.prefix_or_prefix_of_prefix isFirst isSecond with ⟨more, rfl⟩ | ⟨more, rfl⟩
  · exact (entriesFixed_after state operations start first more).getHeld found found'
  · exact ((entriesFixed_after state operations start second more).getHeld found' found).symm

end

/-- What a moderator was shown is what an approval sends: in every interleaving of any number of
connections and commands, all copies that an approval of an id sends are the very message that was
shown under this id, before or after, behind new header fields and apart from those that the list
replaces; and no id ever comes to mean another message. -/
theorem approvals_asShown {ι : Type} [DecidableEq ι] {view : MailView} {format : HeaderFormat}
    (governs : format.Governs view) {state : AppState} (builtins : state.policy.BuiltinsOf view)
    (signs : ∀ list, IsLoaded state.lists list → list.signers.WriteFields format)
    {operations : ι → Operation} {start : World} {schedule : List ι} {id : Nat} {i j : ι}
    {opened : Except CommandError Unit} {fault : Option Text}
    (shows : operations i = .showHeld opened fault id) {raw : Bytes}
    (shown : (((operationPool state operations start).after schedule).thread i).result =
      some (.ok (.octets raw)))
    {parseIp : Text → Option IpAddr} {loaded : Except CommandError Unit} {faults : CommandFaults}
    {outside : Outside}
    (approves : operations j = .task (.approve parseIp loaded faults outside id)) :
    (∀ copy ∈ (operationPool state operations start).emittedBy newCopies j schedule,
      ∃ list, IsLoaded state.lists list ∧ copy.IsOf format view list raw) ∧
    IdsFixed state operations start schedule := by
  refine ⟨fun copy mem => ?_, idsFixed state operations start schedule⟩
  have founded : ((operationPool state operations start).thread i).Founded (fun _ => False)
      fun world _ output =>
        ∃ row, world.store.getHeld id = some row ∧ output = .octets row.raw := by
    show ((operations i).program state).Founded _ _
    rw [shows]
    exact showHeld_founded opened fault
  have owes : ((operationPool state operations start).thread j).Owes newCopies
      fun world _ copies => ∀ copy ∈ copies, ∃ row list, world.store.getHeld id = some row ∧
        IsLoaded state.lists list ∧ copy.IsOf format view list row.raw := by
    show ((operations j).program state).Owes _ _
    rw [approves]
    exact approve_owes governs builtins signs parseIp loaded faults outside
  obtain ⟨before, rest, split, row, found, same⟩ :=
    (Pool.result_founded founded shown).resolve_left fun absurd => absurd
  rcases Pool.emittedBy_owes newCopies_self owes schedule with
    none | ⟨before', rest', split', -, due⟩
  · rw [none] at mem
    cases mem
  · obtain ⟨other, list, found', loaded, isOf⟩ := due copy mem
    have sameRow : other = row := idsFixed state operations start schedule _ _ ⟨_, split.symm⟩
      ⟨_, split'.symm⟩ _ _ _ found found'
    cases same
    exact ⟨list, loaded, sameRow ▸ isOf⟩

/-- The post of Alice waits for a moderator. -/
def heldWorld : World :=
  .initial (devSubscribed.enqueueHeld "dev".toList "alice@example.com".toList
    "mail.example.com".toList "192.0.2.1".toList none none alicesPost).2

/-- One moderator looks at the post and another one approves it. -/
def showAndApprove : Bool → Operation
  | false => .showHeld (.ok ()) none 1
  | true => .task (.approve (fun _ => none) (.ok ()) {} calmOutside 1)

/-- A deployment whose only list signs what it sends on. -/
def sealingState : AppState :=
  { mungingState with lists := (∅ : Lists).insert "dev@lists.example.org".toList taggedList }

theorem approvals_asShown_alice :
    ((∀ copy ∈ (operationPool sealingState showAndApprove heldWorld).emittedBy newCopies true
        [true, false, true, true, true, true, true],
      ∃ list, IsLoaded sealingState.lists list ∧
        copy.IsOf PlainHeader.format PlainHeader.view list alicesPost) ∧
      IdsFixed sealingState showAndApprove heldWorld
        [true, false, true, true, true, true, true]) ∧
    ((operationPool sealingState showAndApprove heldWorld).emittedBy newCopies true
        [true, false, true, true, true, true, true]).map Copy.recipient =
      ["alice@example.com".toList, "bob@example.com".toList] := by
  have signs : ∀ list, IsLoaded sealingState.lists list →
      list.signers.WriteFields PlainHeader.format := by
    rintro list ⟨key, found⟩
    cases List.mem_singleton.mp (AList.mem_lookup_iff.mp found)
    exact plainSigners_writeFields
  exact ⟨approvals_asShown PlainHeader.governs ⟨rfl, rfl, rfl, rfl, rfl, rfl, rfl⟩ signs
    (i := false) rfl rfl rfl, by decide +kernel⟩

end Carriers
