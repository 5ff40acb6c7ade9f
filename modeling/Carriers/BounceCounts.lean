import Carriers.BounceRouting
import Carriers.Frames
import Carriers.ProofKit.Trace

/-! Bounces that come in at the same time: none of them is lost, and their order does not matter. -/

namespace Carriers

open ProofKit

/-- The rows of the members stay as they are. -/
def MembersStay (before after : World) : Prop := after.store.members = before.store.members

theorem membersStay_refl (world : World) : MembersStay world world := rfl

/-- A task that reports one bounce, or one that does not change the members. -/
inductive BounceTask where
  | bounce (list : MailingList) (address : Text) (raw : Bytes) (fault : Option Text)
  | aside (program : Proc World Error Unit) (keeps : program.Within MembersStay)

namespace BounceTask

def program (config : BounceConfig) : BounceTask → Proc World Error Unit
  | .bounce list address raw fault => handleBounce config fault list address raw
  | .aside program _ => program

/-- The row that the task charges, and its weight. -/
def charge (config : BounceConfig) : BounceTask → Option ((Text × Text) × ℚ)
  | .bounce list address raw none =>
    (config.weight (classify raw)).map fun weight => ((list.name, normalise address), weight)
  | .bounce _ _ _ (some _) => none
  | .aside _ _ => none

end BounceTask

/-- No bounce makes a score smaller. -/
def BounceConfig.NonNegative (config : BounceConfig) : Prop :=
  0 ≤ config.hardWeight ∧ 0 ≤ config.softWeight

theorem BounceConfig.NonNegative.weight {config : BounceConfig} (h : config.NonNegative)
    {kind : BounceKind} {weight : ℚ} (known : config.weight kind = some weight) : 0 ≤ weight := by
  cases kind with
  | hard => exact Option.some.inj known ▸ h.1
  | soft => exact Option.some.inj known ▸ h.2
  | unknown => cases known

/-- `later` is `row` with bounces of the weight `total`, of which there is one if `charged`. -/
structure MemberRow.Counted (config : BounceConfig) (total : ℚ) (charged : Prop)
    (row later : MemberRow) : Prop where
  subscribed : later.subscribed = row.subscribed
  poster : later.poster = row.poster
  moderator : later.moderator = row.moderator
  score : later.bounceScore = row.bounceScore + total
  disabled : config.NonNegative → (later.bounceDisabled = true ↔
    row.bounceDisabled = true ∨ charged ∧ config.threshold ≤ later.bounceScore)

theorem MemberRow.counted_refl (config : BounceConfig) (row : MemberRow) :
    MemberRow.Counted config 0 False row row :=
  ⟨rfl, rfl, rfl, (add_zero _).symm, fun _ => by simp⟩

/-- One more bounce. -/
theorem MemberRow.Counted.bounce {config : BounceConfig} {total weight : ℚ} {charged : Prop}
    {row later : MemberRow} (h : MemberRow.Counted config total charged row later)
    (nonneg : config.NonNegative → 0 ≤ weight) :
    MemberRow.Counted config (weight + total) True row
      (Store.MemberRow.bounce weight config.threshold later) := by
  have score : (Store.MemberRow.bounce weight config.threshold later).bounceScore =
      row.bounceScore + (weight + total) := by
    show later.bounceScore + weight = _
    rw [h.score]
    ring
  refine ⟨h.subscribed, h.poster, h.moderator, score, fun nonNegative => ?_⟩
  show (if config.threshold ≤ later.bounceScore + weight then true else later.bounceDisabled) =
    true ↔ _ ∨ True ∧ config.threshold ≤ later.bounceScore + weight
  have grows := nonneg nonNegative
  split
  · rename_i reached
    simp [reached]
  · rename_i below
    rw [h.disabled nonNegative, true_and]
    refine or_congr Iff.rfl ⟨fun ⟨_, reached⟩ => ?_, fun reached => absurd reached below⟩
    exact absurd (reached.trans (by linarith)) below

section
variable {config : BounceConfig}

/-- The only step of a task that reports a bounce. -/
theorem advance_bounce (world : World) {task : BounceTask} {key : Text × Text} {weight : ℚ}
    (charges : task.charge config = some (key, weight)) :
    ∃ list address, key = (list, normalise address) ∧ (task.program config).advance world =
      (pure (), { world with
        store := (world.store.recordBounce list address weight config.threshold).2 }) ∧
      (config.NonNegative → 0 ≤ weight) := by
  cases task with
  | aside => cases charges
  | bounce list address raw fault =>
    cases fault with
    | some e => cases charges
    | none =>
      obtain ⟨other, known, same⟩ := Option.map_eq_some_iff.mp charges
      obtain ⟨rfl, rfl⟩ := Prod.mk.inj same
      refine ⟨list.name, address, rfl, ?_, fun nonNegative => nonNegative.weight known⟩
      simp only [BounceTask.program, handleBounce, known]
      rfl

/-- A task that charges nothing keeps the members. -/
theorem program_membersStay {task : BounceTask} (charges : task.charge config = none) :
    (task.program config).Within MembersStay := by
  cases task with
  | aside program keeps => exact keeps
  | bounce list address raw fault =>
    rw [BounceTask.program, handleBounce]
    cases fault with
    | some e => split <;> trivial
    | none =>
      rw [show config.weight (classify raw) = none from Option.map_eq_none_iff.mp charges]
      trivial

end

/-! ### Posts -/

section
variable {R : World → World → Prop} {state : AppState} {outside : Outside} {list : MailingList}
  {ingress : Ingress} {raw : Bytes}
  (stays : ∀ before after : World, MembersStay before after → R before after)
include stays

theorem conclude_members (disposition : Disposition) :
    (conclude state outside list disposition).Within R :=
  conclude_within (fun _ _ => stays _ _ rfl) disposition

theorem distributeApproved_members :
    (distributeApproved state outside list ingress raw).Within R :=
  (finalize_within (fun _ => stays _ _ rfl) (fun _ _ => stays _ _ rfl)
    fun _ _ _ _ _ _ _ _ => stays _ _ rfl).bind (conclude_members stays)

theorem handleOne_members : (handleOne state outside list ingress raw).Within R := by
  refine (intake_within (fun _ => stays _ _ rfl) (fun _ _ => stays _ _ rfl)
    (fun _ _ _ _ _ _ _ _ => stays _ _ rfl)
    fun world list id => stays _ _ (recordMessage_members list id world.store)).attempt.bind
    fun result => ?_
  split
  · exact conclude_members stays _
  · trivial
  · trivial

end

/-- An approved post, which charges nothing. -/
def BounceTask.distribution (state : AppState) (outside : Outside) (list : MailingList)
    (ingress : Ingress) (raw : Bytes) : BounceTask :=
  .aside (do let _ ← distributeApproved state outside list ingress raw; return ())
    ((distributeApproved_members fun _ _ stay => stay).bind fun _ => Proc.within_pure _)

/-! ### Every interleaving -/

section
variable {ι : Type} [DecidableEq ι] (config : BounceConfig) (tasks : ι → BounceTask)

def bouncePool (start : World) : Pool ι World Error Unit :=
  { state := start, thread := fun i => (tasks i).program config }

/-- The tasks in the schedule that charge the row. -/
def charging (key : Text × Text) (schedule : List ι) : Finset ι :=
  schedule.toFinset.filter fun i => ((tasks i).charge config).map Prod.fst = some key

/-- The weight of the bounce that a task reports. -/
def chargedWeight (i : ι) : ℚ := (((tasks i).charge config).map Prod.snd).getD 0

/-- All bounces that have been reported are counted, each of them once. -/
def AllCounted (start : World) (schedule : List ι) : Prop :=
  ∀ key, Option.Rel
    (MemberRow.Counted config
      (∑ i ∈ charging config tasks key schedule, chargedWeight config tasks i)
      (charging config tasks key schedule).Nonempty)
    (start.store.members.lookup key)
    (((bouncePool config tasks start).after schedule).state.store.members.lookup key)

variable {config tasks} {start : World}

theorem charging_old {key : Text × Text} {schedule : List ι} {i : ι} (begun : i ∈ schedule) :
    charging config tasks key (schedule ++ [i]) = charging config tasks key schedule := by
  rw [charging, charging]
  congr 1
  ext j
  simp only [List.mem_toFinset, List.mem_append, List.mem_singleton]
  exact ⟨fun either => either.elim id fun same => same ▸ begun, .inl⟩

theorem charging_other {key : Text × Text} {schedule : List ι} {i : ι}
    (other : ((tasks i).charge config).map Prod.fst ≠ some key) :
    charging config tasks key (schedule ++ [i]) = charging config tasks key schedule := by
  ext j
  simp only [charging, List.toFinset_append, Finset.mem_filter, Finset.mem_union, List.mem_toFinset,
    List.mem_singleton]
  constructor
  · rintro ⟨mem | rfl, charges⟩
    · exact ⟨mem, charges⟩
    · exact absurd charges other
  · exact fun ⟨mem, charges⟩ => ⟨.inl mem, charges⟩

theorem charging_new {key : Text × Text} {schedule : List ι} {i : ι}
    (charges : ((tasks i).charge config).map Prod.fst = some key) :
    charging config tasks key (schedule ++ [i]) =
      insert i (charging config tasks key schedule) := by
  ext j
  simp only [charging, List.toFinset_append, Finset.mem_filter, Finset.mem_union, List.mem_toFinset,
    List.mem_singleton, Finset.mem_insert]
  constructor
  · rintro ⟨mem | rfl, charges⟩
    · exact .inr ⟨mem, charges⟩
    · exact .inl rfl
  · rintro (rfl | ⟨mem, charges⟩)
    · exact ⟨.inr rfl, charges⟩
    · exact ⟨.inl mem, charges⟩

theorem allCounted_of_same {schedule longer : List ι} (h : AllCounted config tasks start schedule)
    (members : ((bouncePool config tasks start).after longer).state.store.members =
      ((bouncePool config tasks start).after schedule).state.store.members)
    (charges : ∀ key, charging config tasks key longer = charging config tasks key schedule) :
    AllCounted config tasks start longer := by
  intro key
  rw [members, charges]
  exact h key

/-- The first step of a task that reports a bounce charges its row and no other. -/
theorem allCounted_bounce {schedule : List ι} (h : AllCounted config tasks start schedule) {i : ι}
    (first : i ∉ schedule) {key : Text × Text} {weight : ℚ}
    (charges : (tasks i).charge config = some (key, weight)) :
    AllCounted config tasks start (schedule ++ [i]) := by
  obtain ⟨list, address, rfl, advance, nonneg⟩ :=
    advance_bounce ((bouncePool config tasks start).after schedule).state charges
  have initial : ((bouncePool config tasks start).after schedule).thread i =
      (tasks i).program config := (bouncePool config tasks start).after_thread first
  intro key
  rw [Pool.after_concat, Pool.step_state, initial, advance]
  have before := h key
  by_cases same : key = (list, normalise address)
  · subst same
    have absent : i ∉ charging config tasks (list, normalise address) schedule := fun mem =>
      first (List.mem_toFinset.mp (Finset.mem_filter.mp mem).1)
    have charged : ((tasks i).charge config).map Prod.fst = some (list, normalise address) := by
      rw [charges, Option.map_some]
    rw [charging_new charged, Finset.sum_insert absent,
      show chargedWeight config tasks i = weight by simp [chargedWeight, charges],
      eq_true (Finset.insert_nonempty i _)]
    revert before
    generalize start.store.members.lookup (list, normalise address) = row
    cases stored : ((bouncePool config tasks start).after schedule).state.store.members.lookup
        (list, normalise address) with
    | none =>
      simp only [Store.recordBounce, stored]
      rintro ⟨⟩
      exact .none
    | some later =>
      simp only [Store.recordBounce, stored, AList.lookup_insert]
      rintro ⟨counted⟩
      exact .some (counted.bounce nonneg)
  · have other : ((tasks i).charge config).map Prod.fst ≠ some key := by
      rw [charges]
      exact fun charged => same (Option.some.inj charged).symm
    rw [charging_other other, recordBounce_lookup same]
    exact before

/-- What is true after the steps of a schedule: each task that charges a row has done so. -/
structure Progress (config : BounceConfig) (tasks : ι → BounceTask) (start : World)
    (schedule : List ι) : Prop where
  ended : ∀ i ∈ schedule, (tasks i).charge config ≠ none →
    ((bouncePool config tasks start).after schedule).thread i = pure ()
  counted : AllCounted config tasks start schedule

theorem progress_concat {schedule : List ι} (h : Progress config tasks start schedule) (i : ι) :
    Progress config tasks start (schedule ++ [i]) := by
  have keeps (members : MembersStay ((bouncePool config tasks start).after schedule).state
      (((bouncePool config tasks start).after schedule).step i).state) :
      MembersStay ((bouncePool config tasks start).after schedule).state
        ((bouncePool config tasks start).after (schedule ++ [i])).state := by
    rwa [Pool.after_concat]
  constructor
  · intro j mem charges
    rw [Pool.after_concat]
    by_cases same : j = i
    · subst same
      rw [Pool.step_thread_self]
      by_cases begun : j ∈ schedule
      · rw [h.ended j begun charges, Proc.advance_pure]
      · obtain ⟨⟨key, weight⟩, charges⟩ := Option.ne_none_iff_exists'.mp charges
        obtain ⟨list, address, -, advance, -⟩ :=
          advance_bounce ((bouncePool config tasks start).after schedule).state charges
        rw [(bouncePool config tasks start).after_thread begun]
        exact congrArg Prod.fst advance
    · rw [Pool.step_thread_ne _ same]
      exact h.ended j (by simpa [same] using mem) charges
  · cases charges : (tasks i).charge config with
    | none =>
      have within := (bouncePool config tasks start).thread_within (program_membersStay charges)
        schedule
      refine allCounted_of_same h.counted (keeps (within.advance membersStay_refl _).1) ?_
      exact fun key => charging_other (by simp [charges])
    | some charge =>
      by_cases begun : i ∈ schedule
      · refine allCounted_of_same h.counted (keeps ?_) fun key => charging_old begun
        rw [MembersStay, Pool.step_state, h.ended i begun (by simp [charges]), Proc.advance_pure]
      · exact allCounted_bounce h.counted begun charges

/-- No bounce is lost when many come in at once: in every interleaving of any number of bounces, of
any members of any lists, with each other and with tasks that leave the members alone, the score of
every member has grown by the bounces that were reported for it, and in whatever order they came. -/
theorem bounces_allCounted (config : BounceConfig) (tasks : ι → BounceTask) (start : World)
    (schedule : List ι) : AllCounted config tasks start schedule := by
  have progress : Progress config tasks start schedule := by
    induction schedule using List.reverseRecOn with
    | nil =>
      refine ⟨nofun, fun key => ?_⟩
      have none : charging config tasks key [] = ∅ := rfl
      rw [none, Finset.sum_empty, eq_false Finset.not_nonempty_empty, Pool.after_nil]
      show Option.Rel _ _ (start.store.members.lookup key)
      cases start.store.members.lookup key with
      | none => exact .none
      | some row => exact .some (row.counted_refl config)
    | append_singleton schedule i ih => exact progress_concat ih i
  exact progress.counted

end

/-- Two bounces of Bob come in while a post of Alice is distributed. -/
def bobsBounces : Option Bool → BounceTask
  | some _ => .bounce devList "Bob@example.com".toList hardBounce none
  | none => .distribution aliceState calmOutside devList aliceIngress alicesPost

theorem bounces_allCounted_bob :
    let turns := [none, some true, none, some false, none, none, none]
    AllCounted {} bobsBounces (.initial devSubscribed) turns ∧
      ((bouncePool {} bobsBounces (.initial devSubscribed)).after turns).state.store.members.lookup
          ("dev".toList, "bob@example.com".toList) =
        some { subscribed := true, poster := false, moderator := false, bounceScore := 6
               bounceDisabled := true } :=
  ⟨bounces_allCounted {} bobsBounces _ _, by decide +kernel⟩

end Carriers
