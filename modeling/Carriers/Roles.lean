import Carriers.Membership
import Carriers.Smtp

/-! The roles of members, as the database has them and as scripts test them. -/

namespace Carriers

open ProofKit

/-! ### Sets of addresses -/

/-- The flag that decides a role, by the name of its list. -/
def roleFlag (name : Text) : Option (MemberRow → Bool) :=
  if name = "subscribers".toList then some MemberRow.subscribed
  else if name = "posters".toList then some MemberRow.poster
  else if name = "moderators".toList then some MemberRow.moderator
  else none

theorem mem_role {store : Store} {list address : Text} {flag : MemberRow → Bool} :
    address ∈ (((store.allMembers list).filter fun member => flag member.toMemberRow).map
        Member.address).toFinset ↔
      (store.members.lookup (list, address)).any flag = true := by
  rw [List.mem_toFinset, List.mem_map]
  constructor
  · rintro ⟨member, mem, rfl⟩
    obtain ⟨mem, holds⟩ := List.mem_filter.mp mem
    obtain ⟨⟨other, row⟩, isRow, rfl⟩ := List.mem_map.mp mem
    rw [Store.mem_listRows.mp isRow]
    exact holds
  · intro holds
    obtain ⟨row, found, holds⟩ := (Option.any_eq_true _ _).mp holds
    have isRow := Store.mem_listRows.mpr found
    exact ⟨_, List.mem_filter.mpr ⟨List.mem_map_of_mem isRow, holds⟩, rfl⟩

/-- A test of a role looks the flag up in the row of the address in lower case. -/
theorem contains_setsOf (store : Store) (list name value : Text) :
    (setsOf (store.allMembers list)).contains name value =
      match roleFlag name with
      | some flag => (store.members.lookup (list, asciiLower value)).any flag
      | none => false := by
  unfold MembershipSets.contains roleFlag
  split
  · rw [Bool.eq_iff_iff, decide_eq_true_eq]
    exact mem_role
  · split
    · rw [Bool.eq_iff_iff, decide_eq_true_eq]
      exact mem_role
    · split
      · rw [Bool.eq_iff_iff, decide_eq_true_eq]
        exact mem_role
      · rfl

/-! ### Rows that operations reach -/

theorem key_normal (change : MemberChange) : normalise change.key.2 = change.key.2 := by
  cases change with
  | add | remove | bounce | enable => exact normalise_normalise _

/-- The operations put rows under normal addresses only. -/
theorem normal_change {threshold : ℚ} {history : List MemberChange} {key : Text × Text}
    {row : MemberRow}
    (found : (Store.empty.change threshold history).members.lookup key = some row) :
    normalise key.2 = key.2 := by
  induction history using List.reverseRecOn generalizing row with
  | nil => cases found
  | append_singleton history change ih =>
    rw [change_concat, lookup_apply] at found
    split at found
    · rename_i same
      exact same ▸ key_normal change
    · exact ih found

theorem asciiLower_of_normal {address : Text} (normal : normalise address = address) :
    asciiLower address = address := by
  rw [← normal, normalise, asciiLower_asciiLower]

/-! ### Agreement -/

/-- The sets tell of every address, in whatever case it is written, the roles that it has on the
list. -/
structure RolesAgree (sets : MembershipSets) (list : Text) (store : Store) : Prop where
  roles : ∀ name flag value, roleFlag name = some flag → trim value = value →
    sets.contains name value = (store.members.lookup (list, normalise value)).any flag
  subscribers : ∀ value, trim value = value →
    sets.contains "subscribers".toList value = store.isSubscriber list value
  posters : ∀ value, trim value = value →
    sets.contains "posters".toList value = store.isPoster list value
  others : ∀ name value, roleFlag name = none → sets.contains name value = false
  recipients : ∀ address ∈ store.subscribers list,
    sets.contains "subscribers".toList address = true

theorem rolesAgree_setsOf {list : Text} {store : Store}
    (normal : ∀ address row, store.members.lookup (list, address) = some row →
      normalise address = address) :
    RolesAgree (setsOf (store.allMembers list)) list store := by
  have roles (name : Text) (flag : MemberRow → Bool) (value : Text)
      (isRole : roleFlag name = some flag) (plain : trim value = value) :
      (setsOf (store.allMembers list)).contains name value =
        (store.members.lookup (list, normalise value)).any flag := by
    rw [contains_setsOf, isRole, normalise, plain]
  constructor
  · exact roles
  · exact fun value plain => roles _ _ value rfl plain
  · exact fun value plain => roles _ _ value rfl plain
  · intro name value noRole
    rw [contains_setsOf, noRole]
  · intro address mem
    obtain ⟨row, found, subscribed, -⟩ := Store.mem_subscribers.mp mem
    have flag : roleFlag "subscribers".toList = some MemberRow.subscribed := rfl
    rw [contains_setsOf, flag, asciiLower_of_normal (normal address row found), found]
    exact subscribed

/-- What scripts find out about the roles of an address is what the database says. -/
theorem membershipSets_agree {p : Pipeline} {list : MailingList} {stage : Stage}
    {threshold : ℚ} {history : List MemberChange} {world after : World} {sets : MembershipSets}
    (reached : world.store.members = (Store.empty.change threshold history).members)
    (run : (p.membershipSets list stage).run world = (.ok sets, after)) :
    RolesAgree sets list.name world.store := by
  rw [Pipeline.run_membershipSets_ok run]
  exact rolesAgree_setsOf fun address row found => normal_change (reached ▸ found)

theorem membershipSets_agree_dev :
    RolesAgree (setsOf (devSubscribed.allMembers "dev".toList)) "dev".toList devSubscribed ∧
    (setsOf (devSubscribed.allMembers "dev".toList)).contains "subscribers".toList
      "Alice@Example.COM".toList = true := by
  have reached : (World.initial devSubscribed).store.members = (Store.empty.change 1
      [.add "dev".toList "alice@example.com".toList true false false,
        .add "dev".toList "bob@example.com".toList true false false]).members := rfl
  have run : ((alicePipeline calmOutside).membershipSets devList .intake).run
      (.initial devSubscribed) =
        (.ok (setsOf (devSubscribed.allMembers "dev".toList)), .initial devSubscribed) := rfl
  have alice : (setsOf (devSubscribed.allMembers "dev".toList)).contains "subscribers".toList
      "Alice@Example.COM".toList = true := by decide +kernel
  exact ⟨membershipSets_agree reached run, alice⟩

end Carriers
