import Carriers.ProofKit.History
import Carriers.Store

/-! The members of the lists over whole histories of changes, and which of them copies go to. -/

namespace Carriers

open ProofKit

/-- A change of the members of a list. -/
inductive MemberChange where
  | add (list address : Text) (subscribed poster moderator : Bool)
  | remove (list address : Text)
  | bounce (list address : Text) (weight : ℚ)
  | enable (list address : Text)
  deriving DecidableEq

namespace MemberChange

/-- The row that a change is about. -/
def key : MemberChange → Text × Text
  | .add list address _ _ _ | .remove list address | .bounce list address _
  | .enable list address => (list, normalise address)

def apply (threshold : ℚ) (store : Store) : MemberChange → Store
  | .add list address subscribed poster moderator =>
    store.addMember list address subscribed poster moderator
  | .remove list address => store.removeMember list address
  | .bounce list address weight => (store.recordBounce list address weight threshold).2
  | .enable list address => (store.enableMember list address).2

/-- What a change makes of the row that it is about. -/
def onRow (threshold : ℚ) (row : Option MemberRow) : MemberChange → Option MemberRow
  | .add _ _ subscribed poster moderator =>
    match row with
    | some row => some { row with subscribed, poster, moderator }
    | none =>
      some { subscribed, poster, moderator, bounceScore := 0, bounceDisabled := false }
  | .remove _ _ => none
  | .bounce _ _ weight => row.map (Store.MemberRow.bounce weight threshold)
  | .enable _ _ => row.map fun row => { row with bounceScore := 0, bounceDisabled := false }

def isAdd : MemberChange → Bool
  | .add .. => true
  | _ => false

def isRemove : MemberChange → Bool
  | .remove .. => true
  | _ => false

def isEnable : MemberChange → Bool
  | .enable .. => true
  | _ => false

def isBounce : MemberChange → Bool
  | .bounce .. => true
  | _ => false

/-- The weight of a bounce. -/
def weight : MemberChange → ℚ
  | .bounce _ _ weight => weight
  | _ => 0

/-- Whether an addition subscribes the member. -/
def subscribes : MemberChange → Option Bool
  | .add _ _ subscribed _ _ => some subscribed
  | _ => none

end MemberChange

/-- The database after a history of changes. -/
def Store.change (threshold : ℚ) (history : List MemberChange) (store : Store) : Store :=
  history.foldl (MemberChange.apply threshold) store

/-! ### What a history says -/

section
variable (key : Text × Text) (history : List MemberChange)

/-- The changes of a row from its insertion on, which is the first addition after its last removal;
none if it was not added since. -/
def lifetime : List MemberChange :=
  fromFirst MemberChange.isAdd
    (since MemberChange.isRemove (history.filter fun change => change.key = key))

/-- The weights of the bounces of a row since its insertion and since it was last enabled. -/
def bounceSum : ℚ :=
  ((since MemberChange.isEnable (lifetime key history)).map MemberChange.weight).sum

/-- The member was added since its last removal, its latest addition subscribes it, and its bounces
weigh less than the threshold. -/
structure Deliverable (threshold : ℚ) : Prop where
  added : lifetime key history ≠ []
  subscribed : ((lifetime key history).filterMap MemberChange.subscribes).getLast? = some true
  bounces : bounceSum key history < threshold

end

/-! ### The rows of a list -/

namespace Store

theorem mem_listRows {list address : Text} {row : MemberRow} {store : Store} :
    (address, row) ∈ store.listRows list ↔
      store.members.lookup (list, address) = some row := by
  have entry : store.members.lookup (list, address) = some row ↔
      (⟨(list, address), row⟩ : Sigma fun _ : Text × Text => MemberRow) ∈ store.members.entries :=
    AList.mem_lookup_iff
  rw [listRows, List.mem_insertionSort, List.mem_filterMap, entry]
  constructor
  · rintro ⟨⟨⟨l, a⟩, r⟩, mem, found⟩
    split at found
    · rename_i same
      cases found
      cases same
      exact mem
    · cases found
  · intro mem
    exact ⟨_, mem, by simp⟩

theorem listRows_nodup (list : Text) (store : Store) :
    ((store.listRows list).map Prod.fst).Nodup := by
  have unsorted : ((store.members.entries.filterMap fun entry =>
      if entry.1.1 = list then some (entry.1.2, entry.2) else none).map Prod.fst).Nodup := by
    have keys : store.members.entries.Pairwise fun s t => s.1 ≠ t.1 :=
      List.nodupKeys_iff_pairwise.mp store.members.nodupKeys
    rw [List.Nodup, List.pairwise_map, List.pairwise_filterMap]
    refine keys.imp ?_
    intro first second distinct a ha b hb same
    split at ha
    · rename_i firstList
      split at hb
      · rename_i secondList
        cases ha
        cases hb
        exact distinct (Prod.ext (firstList.trans secondList.symm) same)
      · cases hb
    · cases ha
  exact ((List.perm_insertionSort _ _).map Prod.fst).nodup_iff.mpr unsorted

/-- The rows of a list are in the strict order of their addresses. -/
theorem listRows_increasing (list : Text) (store : Store) :
    (store.listRows list).Pairwise fun earlier later => earlier.1 < later.1 := by
  have : Std.Total fun a b : Text × MemberRow => a.1 ≤ b.1 := ⟨fun a b => le_total a.1 b.1⟩
  have : IsTrans (Text × MemberRow) fun a b => a.1 ≤ b.1 := ⟨fun _ _ _ => le_trans⟩
  have sorted : (store.listRows list).Pairwise fun a b => a.1 ≤ b.1 :=
    List.pairwise_insertionSort _ _
  have distinct := List.pairwise_map.mp (listRows_nodup list store)
  exact sorted.imp₂ (fun _ _ le ne => lt_of_le_of_ne le ne) distinct

theorem listRows_congr {store other : Store} {list : Text}
    (h : ∀ address, store.members.lookup (list, address) = other.members.lookup (list, address)) :
    store.listRows list = other.listRows list := by
  refine List.Perm.eq_of_pairwise ?_ (listRows_increasing list store)
    (listRows_increasing list other) ?_
  · intro a b _ _ lt gt
    exact absurd gt lt.asymm
  · rw [List.perm_ext_iff_of_nodup ((listRows_nodup list store).of_map _)
      ((listRows_nodup list other).of_map _)]
    rintro ⟨address, row⟩
    rw [mem_listRows, mem_listRows, h]

theorem mem_subscribers {list address : Text} {store : Store} :
    address ∈ store.subscribers list ↔
      ∃ row, store.members.lookup (list, address) = some row ∧
        row.subscribed = true ∧ row.bounceDisabled = false := by
  rw [subscribers, List.mem_map]
  constructor
  · rintro ⟨⟨_, row⟩, mem, rfl⟩
    obtain ⟨mem, wanted⟩ := List.mem_filter.mp mem
    exact ⟨row, mem_listRows.mp mem, by simpa using wanted⟩
  · rintro ⟨row, found, wanted⟩
    exact ⟨(address, row), List.mem_filter.mpr ⟨mem_listRows.mpr found, by simpa using wanted⟩, rfl⟩

theorem subscribers_increasing (list : Text) (store : Store) :
    (store.subscribers list).Pairwise (· < ·) :=
  List.pairwise_map.mpr ((listRows_increasing list store).filter _)

end Store

/-! ### Rows -/

theorem lookup_apply (threshold : ℚ) (store : Store) (change : MemberChange) (key : Text × Text) :
    (change.apply threshold store).members.lookup key =
      if change.key = key then change.onRow threshold (store.members.lookup key)
      else store.members.lookup key := by
  by_cases same : change.key = key
  · subst same
    rw [if_pos rfl]
    cases change with
    | add list address subscribed poster moderator =>
      simp only [MemberChange.apply, Store.addMember, MemberChange.key, MemberChange.onRow,
        AList.lookup_insert]
      cases store.members.lookup (list, normalise address) <;> rfl
    | remove list address => exact AList.lookup_erase _ _
    | bounce list address weight =>
      simp only [MemberChange.apply, Store.recordBounce, MemberChange.key, MemberChange.onRow]
      cases found : store.members.lookup (list, normalise address) <;> simp [found]
    | enable list address =>
      simp only [MemberChange.apply, Store.enableMember, MemberChange.key, MemberChange.onRow]
      cases found : store.members.lookup (list, normalise address) <;> simp [found]
  · rw [if_neg same]
    have other : key ≠ change.key := fun h => same h.symm
    cases change with
    | add list address subscribed poster moderator => exact AList.lookup_insert_ne other
    | remove list address => exact AList.lookup_erase_ne other
    | bounce list address weight =>
      simp only [MemberChange.apply, Store.recordBounce]
      split
      · rfl
      · exact AList.lookup_insert_ne other
    | enable list address =>
      simp only [MemberChange.apply, Store.enableMember]
      split
      · rfl
      · exact AList.lookup_insert_ne other

theorem change_concat (threshold : ℚ) (history : List MemberChange) (change : MemberChange)
    (store : Store) :
    store.change threshold (history ++ [change]) =
      change.apply threshold (store.change threshold history) := by
  simp [Store.change]

/-! ### A row and its lifetime -/

/-- The row is what its lifetime says. -/
def RowOf (threshold : ℚ) (key : Text × Text) (history : List MemberChange) :
    Option MemberRow → Prop
  | none => lifetime key history = []
  | some row =>
    lifetime key history ≠ [] ∧
    ((lifetime key history).filterMap MemberChange.subscribes).getLast? = some row.subscribed ∧
    row.bounceScore = bounceSum key history ∧
    (row.bounceDisabled = true ↔ threshold ≤ row.bounceScore)

theorem lifetime_other {key : Text × Text} {change : MemberChange} (other : change.key ≠ key)
    (history : List MemberChange) : lifetime key (history ++ [change]) = lifetime key history := by
  simp [lifetime, other]

theorem lifetime_remove {key : Text × Text} {change : MemberChange} (same : change.key = key)
    (remove : change.isRemove = true) (history : List MemberChange) :
    lifetime key (history ++ [change]) = [] := by
  simp [lifetime, same, since_concat, remove]

theorem lifetime_of_nil {key : Text × Text} {change : MemberChange} (same : change.key = key)
    (keeps : change.isRemove = false) {history : List MemberChange}
    (none : lifetime key history = []) :
    lifetime key (history ++ [change]) = if change.isAdd then [change] else [] := by
  simp only [lifetime, List.filter_append, List.filter_singleton, same, decide_true, cond_true,
    since_concat, keeps, Bool.false_eq_true, if_false]
  exact fromFirst_concat_of_nil none change

theorem lifetime_of_ne {key : Text × Text} {change : MemberChange} (same : change.key = key)
    (keeps : change.isRemove = false) {history : List MemberChange}
    (alive : lifetime key history ≠ []) :
    lifetime key (history ++ [change]) = lifetime key history ++ [change] := by
  simp only [lifetime, List.filter_append, List.filter_singleton, same, decide_true, cond_true,
    since_concat, keeps, Bool.false_eq_true, if_false]
  exact fromFirst_concat_of_ne alive change

theorem bounceSum_of_lifetime {key : Text × Text} {history earlier : List MemberChange}
    {change : MemberChange} (lives : lifetime key history = earlier ++ [change]) :
    bounceSum key history =
      if change.isEnable then 0
      else ((since MemberChange.isEnable earlier).map MemberChange.weight).sum + change.weight := by
  rw [bounceSum, lives, since_concat]
  split <;> simp

theorem rowOf_none {threshold : ℚ} (positive : 0 < threshold) {key : Text × Text}
    {history : List MemberChange} (h : lifetime key history = []) {change : MemberChange}
    (same : change.key = key) :
    RowOf threshold key (history ++ [change]) (change.onRow threshold none) := by
  cases change with
  | add list address subscribed poster moderator =>
    have lives := lifetime_of_nil same rfl h
    refine ⟨by simp [lives, MemberChange.isAdd], ?_, ?_, ?_⟩
    · simp [lives, MemberChange.isAdd, MemberChange.subscribes]
    · simp [bounceSum_of_lifetime (lives.trans (List.nil_append _).symm), MemberChange.isEnable,
        MemberChange.weight]
    · simpa using positive
  | remove list address => exact lifetime_remove same rfl history
  | bounce list address weight => exact lifetime_of_nil same rfl h
  | enable list address => exact lifetime_of_nil same rfl h

theorem rowOf_some {threshold : ℚ} (positive : 0 < threshold) {key : Text × Text}
    {history : List MemberChange} {row : MemberRow} (h : RowOf threshold key history (some row))
    {change : MemberChange} (same : change.key = key) (weight : 0 ≤ change.weight) :
    RowOf threshold key (history ++ [change]) (change.onRow threshold (some row)) := by
  obtain ⟨alive, subscribed, score, disabled⟩ := h
  unfold bounceSum at score
  cases change with
  | add list address subscribed poster moderator =>
    have lives := lifetime_of_ne same rfl alive
    refine ⟨by simp [lives], ?_, ?_, disabled⟩
    · simp [lives, MemberChange.subscribes]
    · simpa [bounceSum_of_lifetime lives, MemberChange.isEnable, MemberChange.weight] using score
  | remove list address => exact lifetime_remove same rfl history
  | bounce list address added =>
    have lives := lifetime_of_ne same rfl alive
    refine ⟨by simp [lives], ?_, ?_, ?_⟩
    · simpa [lives, MemberChange.subscribes, Store.MemberRow.bounce] using subscribed
    · simpa [bounceSum_of_lifetime lives, MemberChange.isEnable, MemberChange.weight,
        Store.MemberRow.bounce] using score
    · simp only [Store.MemberRow.bounce]
      split
      · rename_i reached
        simpa using reached
      · rename_i below
        have before : ¬threshold ≤ row.bounceScore := fun reached =>
          below (reached.trans (le_add_of_nonneg_right weight))
        exact iff_of_false (mt disabled.mp before) below
  | enable list address =>
    have lives := lifetime_of_ne same rfl alive
    refine ⟨by simp [lives], ?_, ?_, ?_⟩
    · simpa [lives, MemberChange.subscribes] using subscribed
    · simp [bounceSum_of_lifetime lives, MemberChange.isEnable]
    · simpa using positive

/-- A change keeps every row what its lifetime says. -/
theorem rowOf_concat {threshold : ℚ} (positive : 0 < threshold) {key : Text × Text}
    {history : List MemberChange} {row : Option MemberRow} (h : RowOf threshold key history row)
    {change : MemberChange} (weight : 0 ≤ change.weight) :
    RowOf threshold key (history ++ [change])
      (if change.key = key then change.onRow threshold row else row) := by
  by_cases same : change.key = key
  · rw [if_pos same]
    cases row with
    | none => exact rowOf_none positive h same
    | some row => exact rowOf_some positive h same weight
  · rw [if_neg same]
    cases row with
    | none => exact (lifetime_other same history).trans h
    | some row => simpa only [RowOf, bounceSum, lifetime_other same history] using h

/-- After every history of changes, every row is what its lifetime says. -/
theorem rowOf_change {threshold : ℚ} (positive : 0 < threshold) {history : List MemberChange}
    (weights : ∀ change ∈ history, 0 ≤ change.weight) (key : Text × Text) :
    RowOf threshold key history
      ((Store.empty.change threshold history).members.lookup key) := by
  induction history using List.reverseRecOn with
  | nil => rfl
  | append_singleton history change ih =>
    rw [change_concat, lookup_apply]
    exact rowOf_concat positive (ih fun change mem => weights change (by simp [mem]))
      (weights change (by simp))

/-! ### The order of bounces -/

/-- Two databases with the same members. -/
def SameMembers (store other : Store) : Prop :=
  ∀ key, store.members.lookup key = other.members.lookup key

theorem SameMembers.apply {threshold : ℚ} {store other : Store} (h : SameMembers store other)
    (change : MemberChange) :
    SameMembers (change.apply threshold store) (change.apply threshold other) := by
  intro key
  rw [lookup_apply, lookup_apply, h key]

theorem SameMembers.change {threshold : ℚ} {store other : Store} (h : SameMembers store other)
    (history : List MemberChange) :
    SameMembers (store.change threshold history) (other.change threshold history) := by
  induction history generalizing store other with
  | nil => exact h
  | cons change history ih => exact ih (h.apply change)

/-- A bounce, whose weight is not negative. -/
def MemberChange.IsBounce (change : MemberChange) : Prop :=
  change.isBounce = true ∧ 0 ≤ change.weight

theorem onRow_comm {threshold : ℚ} {first second : MemberChange} (hfirst : first.IsBounce)
    (hsecond : second.IsBounce) (row : Option MemberRow) :
    second.onRow threshold (first.onRow threshold row) =
      first.onRow threshold (second.onRow threshold row) := by
  cases first with
  | bounce list address w =>
    cases second with
    | bounce list' address' w' =>
      have hw : 0 ≤ w := hfirst.2
      have hw' : 0 ≤ w' := hsecond.2
      cases row with
      | none => rfl
      | some row =>
        have swap : row.bounceScore + w + w' = row.bounceScore + w' + w := add_right_comm _ _ _
        simp only [MemberChange.onRow, Option.map_some, Store.MemberRow.bounce, swap]
        by_cases reached : threshold ≤ row.bounceScore + w' + w
        · simp [reached]
        · have first : ¬threshold ≤ row.bounceScore + w := fun h =>
            reached (swap ▸ h.trans (le_add_of_nonneg_right hw'))
          have second : ¬threshold ≤ row.bounceScore + w' := fun h =>
            reached (h.trans (le_add_of_nonneg_right hw))
          simp [reached, first, second]
    | add | remove | enable => simp [MemberChange.IsBounce, MemberChange.isBounce] at hsecond
  | add | remove | enable => simp [MemberChange.IsBounce, MemberChange.isBounce] at hfirst

theorem apply_comm {threshold : ℚ} {first second : MemberChange} (hfirst : first.IsBounce)
    (hsecond : second.IsBounce) (store : Store) :
    SameMembers (second.apply threshold (first.apply threshold store))
      (first.apply threshold (second.apply threshold store)) := by
  intro key
  simp only [lookup_apply]
  split
  · split
    · exact onRow_comm hfirst hsecond _
    · rfl
  · rfl

/-- Bounces may be recorded in any order. -/
theorem change_perm {threshold : ℚ} {bounces reordered : List MemberChange}
    (perm : bounces.Perm reordered) (all : ∀ change ∈ bounces, change.IsBounce) (store : Store) :
    SameMembers (store.change threshold bounces) (store.change threshold reordered) := by
  induction perm generalizing store with
  | nil => exact fun _ => rfl
  | cons change _ ih => exact ih (fun other mem => all other (List.mem_cons_of_mem _ mem)) _
  | swap first second rest =>
    exact (apply_comm (all second (by simp)) (all first (by simp)) store).change rest
  | trans perm _ first second =>
    intro key
    rw [first all store key, second (fun change mem => all change (perm.mem_iff.mpr mem)) store key]

/-! ### The delivery set -/

/-- What the history of a database determines. -/
structure HistoryDetermines (threshold : ℚ) (history : List MemberChange) (store : Store) :
    Prop where
  increasing : ∀ list, (store.subscribers list).Pairwise (· < ·)
  subscribers : ∀ list address, address ∈ store.subscribers list ↔
    Deliverable (list, address) history threshold
  disabled : ∀ key row, store.members.lookup key = some row →
    (row.bounceDisabled = true ↔ threshold ≤ row.bounceScore)
  bounce : ∀ list address weight, 0 ≤ weight →
    (store.recordBounce list address weight threshold).1 =
      (store.members.lookup (list, normalise address)).map
        fun row => decide (threshold ≤ row.bounceScore + weight)
  readd : ∀ list address subscribed poster moderator row,
    store.members.lookup (list, normalise address) = some row →
    (store.addMember list address subscribed poster moderator).members.lookup
        (list, normalise address) = some { row with subscribed, poster, moderator }

theorem historyDetermines {threshold : ℚ} (positive : 0 < threshold)
    {history : List MemberChange} (weights : ∀ change ∈ history, 0 ≤ change.weight) :
    HistoryDetermines threshold history (Store.empty.change threshold history) := by
  have rows := rowOf_change positive weights
  have disabled : ∀ key row, (Store.empty.change threshold history).members.lookup key = some row →
      (row.bounceDisabled = true ↔ threshold ≤ row.bounceScore) := by
    intro key row found
    have h := rows key
    rw [found] at h
    exact h.2.2.2
  refine ⟨fun list => Store.subscribers_increasing list _, fun list address => ?_, disabled,
    fun list address weight heavy => ?_, fun list address subscribed poster moderator row found => ?_⟩
  · rw [Store.mem_subscribers]
    have h := rows (list, address)
    cases found : (Store.empty.change threshold history).members.lookup (list, address) with
    | none =>
      rw [found] at h
      exact iff_of_false (by simp) fun deliverable => deliverable.added h
    | some row =>
      rw [found] at h
      obtain ⟨alive, subscribed, score, limit⟩ := h
      constructor
      · rintro ⟨_, ⟨rfl⟩, isSubscribed, enabled⟩
        refine ⟨alive, isSubscribed ▸ subscribed, ?_⟩
        rw [← score, ← not_le, ← limit, enabled]
        simp
      · intro deliverable
        refine ⟨row, rfl, ?_, ?_⟩
        · exact Option.some.inj (subscribed.symm.trans deliverable.subscribed)
        · rw [← Bool.not_eq_true, limit, score]
          exact not_le.mpr deliverable.bounces
  · rw [Store.recordBounce]
    cases found : (Store.empty.change threshold history).members.lookup (list, normalise address) with
    | none => rfl
    | some row =>
      have limit := disabled _ row found
      by_cases reached : threshold ≤ row.bounceScore + weight
      · simp [Store.MemberRow.bounce, reached]
      · have below : ¬threshold ≤ row.bounceScore := fun h =>
          reached (h.trans (le_add_of_nonneg_right heavy))
        simp [Store.MemberRow.bounce, reached, mt limit.mp below]
  · rw [Store.addMember, AList.lookup_insert, found]

/-- The delivery set is determined by history: for every threshold and every run of changes whose
bounces do not weigh less than nothing, over any lists and addresses in any spelling.  Bounces with
no other change between them may be recorded in any order. -/
theorem deliverySet_history {threshold : ℚ} (positive : 0 < threshold)
    {history : List MemberChange} (weights : ∀ change ∈ history, 0 ≤ change.weight) :
    HistoryDetermines threshold history (Store.empty.change threshold history) ∧
    ∀ before bounces reordered after, history = before ++ bounces ++ after →
      (∀ change ∈ bounces, change.isBounce = true) → bounces.Perm reordered →
      SameMembers (Store.empty.change threshold history)
        (Store.empty.change threshold (before ++ reordered ++ after)) ∧
      ∀ list, (Store.empty.change threshold history).allMembers list =
          (Store.empty.change threshold (before ++ reordered ++ after)).allMembers list ∧
        (Store.empty.change threshold history).subscribers list =
          (Store.empty.change threshold (before ++ reordered ++ after)).subscribers list := by
  refine ⟨historyDetermines positive weights, ?_⟩
  rintro before bounces reordered after rfl all perm
  have same : SameMembers (Store.empty.change threshold (before ++ bounces ++ after))
      (Store.empty.change threshold (before ++ reordered ++ after)) := by
    simp only [Store.change, List.foldl_append]
    refine (change_perm perm (fun change mem => ⟨all change mem, weights change ?_⟩) _).change after
    simp [mem]
  refine ⟨same, fun list => ?_⟩
  have rows : (Store.empty.change threshold (before ++ bounces ++ after)).listRows list =
      (Store.empty.change threshold (before ++ reordered ++ after)).listRows list :=
    Store.listRows_congr fun address => same (list, address)
  exact ⟨by rw [Store.allMembers, Store.allMembers, rows], by
    rw [Store.subscribers, Store.subscribers, rows]⟩

/-- Alice is added, bounces, is added again in another spelling and bounces until she is disabled,
and Bob is enabled after his bounce. -/
def bouncingMembers : List MemberChange :=
  [.add "dev".toList " Alice@Example.com".toList true false false,
    .add "dev".toList "bob@example.com".toList true false false,
    .bounce "dev".toList "alice@example.com".toList 3,
    .bounce "dev".toList "bob@example.com".toList 3,
    .add "dev".toList "ALICE@example.com".toList true true false,
    .bounce "dev".toList "alice@example.com".toList 3,
    .enable "dev".toList "bob@example.com".toList]

theorem deliverySet_history_bouncing :
    (Store.empty.change 5 bouncingMembers).subscribers "dev".toList =
        ["bob@example.com".toList] ∧
      Deliverable ("dev".toList, "bob@example.com".toList) bouncingMembers 5 ∧
      ¬Deliverable ("dev".toList, "alice@example.com".toList) bouncingMembers 5 := by
  have h := deliverySet_history (show (0 : ℚ) < 5 by norm_num)
    (show ∀ change ∈ bouncingMembers, 0 ≤ change.weight by decide +kernel)
  have subscribers : (Store.empty.change 5 bouncingMembers).subscribers "dev".toList =
      ["bob@example.com".toList] := by decide +kernel
  refine ⟨subscribers, ?_, ?_⟩
  · rw [← h.1.subscribers, subscribers]
    simp
  · rw [← h.1.subscribers, subscribers]
    decide

end Carriers
