import Carriers.Membership
import Carriers.Moderate

/-! The import of a members file into the database: what the rows of the list and of all others are
after it. -/

namespace Carriers

open ProofKit

/-! ### The import -/

/-- The lines of a members file that hold an address, without the white space around it. -/
def isAddressLine (address : Text) : Bool := address ≠ [] && address.head? ≠ some '#'

def seedLines (faults : Nat → Option Text) (list : Text) :
    Nat → List Text → Proc World CommandError Nat
  | n, [] => pure n
  | n, line :: lines =>
    if !isAddressLine (trim line) then seedLines faults list n lines
    else do
      let _ ← (sql (faults n) fun store =>
        ((), store.addMember list (trim line) true false false)).mapError .core
      seedLines faults list (n + 1) lines

/-- Imports the addresses of the file into the list and counts them.  The database fails as `faults`
says. -/
def seedSubscribersFromFile (faults : Nat → Option Text) (list path : Text)
    (contents : Except Text Text) : Proc World CommandError Nat :=
  match contents with
  | .error _ => .throw (.text ("reading members file ".toList ++ path))
  | .ok text => seedLines faults list 0 (textLines text)

/-- The addresses that a members file names. -/
def seedAddresses (text : Text) : List Text := ((textLines text).map trim).filter isAddressLine

/-! ### Rows -/

/-- The row of an address after its import. -/
def seeded : Option MemberRow → MemberRow
  | some row => { row with subscribed := true, poster := false, moderator := false }
  | none =>
    { subscribed := true, poster := false, moderator := false, bounceScore := 0,
      bounceDisabled := false }

theorem seeded_seeded (row : Option MemberRow) : seeded (some (seeded row)) = seeded row := by
  cases row <;> rfl

/-- The database after the import of addresses. -/
def seedAll (list : Text) (addresses : List Text) (store : Store) : Store :=
  addresses.foldl (fun store address => store.addMember list address true false false) store

theorem lookup_addMember (list address : Text) (store : Store) (key : Text × Text) :
    (store.addMember list address true false false).members.lookup key =
      if key = (list, normalise address) then some (seeded (store.members.lookup key))
      else store.members.lookup key := by
  have applied := lookup_apply 0 store (.add list address true false false) key
  by_cases same : key = (list, normalise address)
  · subst same
    rw [if_pos rfl]
    refine applied.trans ?_
    rw [MemberChange.key, if_pos rfl]
    cases store.members.lookup (list, normalise address) <;> rfl
  · rw [if_neg same]
    exact applied.trans (if_neg fun h => same h.symm)

/-- The import of addresses changes exactly their rows. -/
theorem lookup_seedAll (list : Text) (addresses : List Text) (store : Store) (key : Text × Text) :
    (seedAll list addresses store).members.lookup key =
      if ∃ address ∈ addresses, key = (list, normalise address) then
        some (seeded (store.members.lookup key))
      else store.members.lookup key := by
  induction addresses generalizing store with
  | nil => simp [seedAll]
  | cons address addresses ih =>
    have step : seedAll list (address :: addresses) store =
        seedAll list addresses (store.addMember list address true false false) := rfl
    rw [step, ih, lookup_addMember]
    by_cases first : key = (list, normalise address)
    · have named : ∃ other ∈ address :: addresses, key = (list, normalise other) :=
        ⟨address, List.mem_cons_self, first⟩
      rw [if_pos first, if_pos named, seeded_seeded, ite_self]
    · rw [if_neg first]
      refine if_congr ?_ rfl rfl
      simp [first]

theorem seedLines_run {faults : Nat → Option Text} {list : Text} {n m : Nat} {lines : List Text}
    {world after : World} (run : (seedLines faults list n lines).run world = (.ok m, after)) :
    after = { world with
      store := seedAll list ((lines.map trim).filter isAddressLine) world.store } := by
  induction lines generalizing n world with
  | nil =>
    cases run
    rfl
  | cons line lines ih =>
    rw [seedLines] at run
    cases named : isAddressLine (trim line) with
    | false =>
      rw [named] at run
      rw [List.map_cons, List.filter_cons_of_neg (by simp [named])]
      exact ih run
    | true =>
      rw [named, Bool.not_true, if_neg Bool.false_ne_true, Proc.run_bind, Proc.run_mapError] at run
      rw [List.map_cons, List.filter_cons_of_pos named]
      cases fault : faults n with
      | some e =>
        rw [fault, run_sql_some] at run
        cases run
      | none =>
        rw [fault, run_sql_none] at run
        exact ih run

theorem seedSubscribersFromFile_run {faults : Nat → Option Text} {list path text : Text} {n : Nat}
    {world after : World}
    (run : (seedSubscribersFromFile faults list path (.ok text)).run world = (.ok n, after)) :
    after = { world with store := seedAll list (seedAddresses text) world.store } :=
  seedLines_run run

/-! ### What an import may change -/

/-- A row has kept the roles and the bounces of another one, apart from the subscription. -/
structure KeepsStanding (row after : MemberRow) : Prop where
  poster : after.poster = row.poster
  moderator : after.moderator = row.moderator
  bounceScore : after.bounceScore = row.bounceScore
  bounceDisabled : after.bounceDisabled = row.bounceDisabled

/-- An import of addresses has only granted subscriptions. -/
structure GrantsOnly (list : Text) (addresses : List Text) (before after : Store) : Prop where
  subscribed : ∀ address ∈ addresses, after.isSubscriber list address = true
  kept : ∀ key row, before.members.lookup key = some row →
    ∃ row', after.members.lookup key = some row' ∧ KeepsStanding row row'
  others : ∀ key : Text × Text, (∀ address ∈ addresses, key ≠ (list, normalise address)) →
    after.members.lookup key = before.members.lookup key

theorem isSubscriber_seedAll {list : Text} {addresses : List Text} {address : Text}
    (mem : address ∈ addresses) (store : Store) :
    (seedAll list addresses store).isSubscriber list address = true := by
  rw [Store.isSubscriber, lookup_seedAll, if_pos ⟨address, mem, rfl⟩, Option.any_some]
  cases store.members.lookup (list, normalise address) <;> rfl

/-- An import grants only subscriptions just if it meets no poster and no moderator. -/
theorem grantsOnly_seedAll {list : Text} {addresses : List Text} {store : Store} :
    GrantsOnly list addresses store (seedAll list addresses store) ↔
      ∀ address ∈ addresses, ∀ row, store.members.lookup (list, normalise address) = some row →
        row.poster = false ∧ row.moderator = false := by
  constructor
  · intro grants address mem row found
    obtain ⟨row', found', keeps⟩ := grants.kept _ row found
    rw [lookup_seedAll, if_pos ⟨address, mem, rfl⟩, found] at found'
    cases found'
    exact ⟨keeps.poster.symm, keeps.moderator.symm⟩
  · intro plain
    refine ⟨fun address mem => isSubscriber_seedAll mem store, fun key row found => ?_,
      fun key other => ?_⟩
    · rw [lookup_seedAll, found]
      split
      · rename_i named
        obtain ⟨address, mem, rfl⟩ := named
        obtain ⟨poster, moderator⟩ := plain address mem row found
        exact ⟨_, rfl, poster.symm, moderator.symm, rfl, rfl⟩
      · exact ⟨row, rfl, rfl, rfl, rfl, rfl⟩
    · rw [lookup_seedAll, if_neg]
      rintro ⟨address, mem, same⟩
      exact other address mem same

/-- A second import of the same addresses finds every row as the first one left it. -/
theorem lookup_seedAll_again (list : Text) (addresses : List Text) (store : Store)
    (key : Text × Text) :
    (seedAll list addresses (seedAll list addresses store)).members.lookup key =
      (seedAll list addresses store).members.lookup key := by
  rw [lookup_seedAll, lookup_seedAll]
  split
  · rw [seeded_seeded]
  · rfl

/-- The import of a members file only grants subscriptions, and a second one changes nothing, just
if no address in the file is a poster or a moderator of the list. -/
theorem seeding_grantsOnly_iff {faults : Nat → Option Text} {list path text : Text} {n : Nat}
    {world after : World}
    (run : (seedSubscribersFromFile faults list path (.ok text)).run world = (.ok n, after)) :
    (GrantsOnly list (seedAddresses text) world.store after.store ∧
      ∀ again faults' n' last,
        (seedSubscribersFromFile faults' list again (.ok text)).run after = (.ok n', last) →
        ∀ key, last.store.members.lookup key = after.store.members.lookup key) ↔
      ∀ address ∈ seedAddresses text, ∀ row,
        world.store.members.lookup (list, normalise address) = some row →
          row.poster = false ∧ row.moderator = false := by
  have first := seedSubscribersFromFile_run run
  subst first
  rw [← grantsOnly_seedAll]
  refine and_iff_left ?_
  intro again faults' n' last second key
  rw [seedSubscribersFromFile_run second]
  exact lookup_seedAll_again list _ _ key

/-- A members file with Alice and Bob. -/
def membersFile : Text := "# subscribers\nalice@example.com\n bob@example.com\r\n".toList

def importMembers (store : Store) : Except CommandError Nat × World :=
  (seedSubscribersFromFile (fun _ => none) "dev".toList "members".toList (.ok membersFile)).run
    (.initial store)

theorem seeding_grantsOnly_alice :
    GrantsOnly "dev".toList (seedAddresses membersFile) devSubscribed
        (importMembers devSubscribed).2.store ∧
      (importMembers devSubscribed).1 = .ok 2 := by
  have counted : (importMembers devSubscribed).1 = .ok 2 := by decide +kernel
  have plain : ((seedAddresses membersFile).all fun address =>
      (devSubscribed.members.lookup ("dev".toList, normalise address)).all fun row =>
        !row.poster && !row.moderator) = true := by decide +kernel
  refine ⟨((seeding_grantsOnly_iff (Prod.ext counted rfl)).mpr fun address mem row found => ?_).1,
    counted⟩
  have standing := List.all_eq_true.mp plain address mem
  rw [show devSubscribed.members.lookup ("dev".toList, normalise address) = some row from found]
    at standing
  simpa using standing

/-- The database in which Alice is a poster and a moderator of `dev`. -/
def devModerated : Store :=
  Store.empty.addMember "dev".toList "alice@example.com".toList true true true

/-- The import takes the roles of Alice away. -/
theorem seeding_demotes :
    devModerated.isPoster "dev".toList "alice@example.com".toList = true ∧
    (importMembers devModerated).1 = .ok 2 ∧
    (importMembers devModerated).2.store.isPoster "dev".toList "alice@example.com".toList = false ∧
    ¬GrantsOnly "dev".toList (seedAddresses membersFile) devModerated
      (importMembers devModerated).2.store := by
  refine ⟨by decide +kernel, by decide +kernel, by decide +kernel, fun grants => ?_⟩
  obtain ⟨row', found, keeps⟩ := grants.kept ("dev".toList, "alice@example.com".toList)
    ⟨true, true, true, 0, false⟩ (by decide +kernel)
  have demoted : (importMembers devModerated).2.store.members.lookup
      ("dev".toList, "alice@example.com".toList) = some ⟨true, false, false, 0, false⟩ := by
    decide +kernel
  cases found.symm.trans demoted
  exact absurd keeps.poster (by decide)

end Carriers
