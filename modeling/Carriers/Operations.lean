import Carriers.Commands
import Carriers.Grants

/-! All that runs on the database of a deployment: connections of the daemon and commands. -/

namespace Carriers

open ProofKit

/-- What a program prints. -/
inductive Output where
  | lines (lines : List Text)
  | octets (octets : Bytes)

/-- A program that runs on the database of a deployment. -/
inductive Operation where
  | task (task : Task)
  | member (opened : Except CommandError Unit) (lists : ListsDir) (fault : Option Text)
    (command : MemberCommand)
  | sync (membersFile : MailingList → Option MembersFile) (faults : Nat → Nat → Option Text)
    (loaded : Except CommandError (List MailingList))
  | listHeld (opened : Except CommandError Unit) (fault : Option Text) (list : Option Text)
  | showHeld (opened : Except CommandError Unit) (fault : Option Text) (id : Nat)

namespace Operation

def program (state : AppState) : Operation → Proc World CommandError Output
  | .task work => do
    let _ ← work.program state
    return .lines []
  | .member opened lists fault command => do
    let report ← Carriers.member opened lists fault command
    return .lines report
  | .sync membersFile faults loaded => do
    let report ← Carriers.sync membersFile faults loaded
    return .lines report
  | .listHeld opened fault list => do
    let report ← Moderate.list opened fault list
    return .lines report
  | .showHeld opened fault id => do
    let raw ← Moderate.showHeld opened fault id
    return .octets raw

end Operation

/-- The programs of a deployment, each on its own. -/
def operationPool {ι : Type} (state : AppState) (operations : ι → Operation) (start : World) :
    Pool ι World CommandError Output :=
  { state := start, thread := fun i => (operations i).program state }

/-! ### What the commands on members can change -/

/-- A step that replaces the members is allowed. -/
def AllowsMembers (R : World → World → Prop) : Prop :=
  ∀ (world : World) members, R world { world with store := { world.store with members } }

theorem addMember_members (list address : Text) (subscribed poster moderator : Bool)
    (store : Store) :
    ∃ members, store.addMember list address subscribed poster moderator = { store with members } :=
  ⟨_, rfl⟩

theorem recordBounce_members (list address : Text) (weight threshold : ℚ) (store : Store) :
    ∃ members, (store.recordBounce list address weight threshold).2 = { store with members } := by
  rw [Store.recordBounce]
  split
  · exact ⟨store.members, rfl⟩
  · exact ⟨_, rfl⟩

theorem enableMember_members (list address : Text) (store : Store) :
    ∃ members, (store.enableMember list address).2 = { store with members } := by
  rw [Store.enableMember]
  split
  · exact ⟨store.members, rfl⟩
  · exact ⟨_, rfl⟩

section
variable {R : World → World → Prop} (changes : AllowsMembers R)
include changes

theorem sql_allowsMembers {α : Type} {statement : Store → α × Store}
    (members : ∀ store : Store, ∃ members, (statement store).2 = { store with members })
    (fault : Option Text) : (sql fault statement).Within R := by
  refine sql_within fun world => ?_
  obtain ⟨table, same⟩ := members world.store
  rw [same]
  exact changes world table

theorem seedLines_within (faults : Nat → Option Text) (list : Text) (n : Nat)
    (lines : List Text) : (seedLines faults list n lines).Within R := by
  induction lines generalizing n with
  | nil => trivial
  | cons line lines ih =>
    rw [seedLines]
    split
    · exact ih n
    · exact (sql_allowsMembers changes (addMember_members list _ true false false)
        _).mapError.bind fun _ => ih (n + 1)

theorem syncLists_within (membersFile : MailingList → Option MembersFile)
    (faults : Nat → Nat → Option Text) (lists : List MailingList) :
    (syncLists membersFile faults lists).Within R := by
  induction lists generalizing faults with
  | nil => trivial
  | cons list lists ih =>
    rw [syncLists]
    split
    · exact ih _
    · rename_i file _
      have seeds : (seedSubscribersFromFile (faults 0) list.name file.path file.contents).Within
          R := by
        rw [seedSubscribersFromFile.eq_def]
        split
        · trivial
        · exact seedLines_within changes _ _ _ _
      exact seeds.bind fun _ => (ih _).bind fun _ => Proc.within_pure _

theorem member_within (opened : Except CommandError Unit) (lists : ListsDir) (fault : Option Text)
    (command : MemberCommand) : (member opened lists fault command).Within R := by
  have same (world : World) : R world world := changes world world.store.members
  cases command with
  | add list address noSubscribe poster moderator =>
    refine (Proc.within_ofExcept _).bind fun _ => (Proc.within_ofExcept _).bind fun _ => ?_
    exact (sql_allowsMembers changes (addMember_members list address _ poster moderator)
      fault).mapError.bind fun _ => Proc.within_pure _
  | remove list address =>
    refine (Proc.within_ofExcept _).bind fun _ => ?_
    exact (sql_allowsMembers changes (fun _ => ⟨_, rfl⟩) fault).mapError.bind
      fun _ => Proc.within_pure _
  | list list =>
    refine (Proc.within_ofExcept _).bind fun _ => ?_
    exact (Proc.Within.mapError (sql_within same)).bind fun _ => Proc.within_pure _
  | enable list address =>
    refine (Proc.within_ofExcept _).bind fun _ => ?_
    refine (sql_allowsMembers changes (enableMember_members list address)
      fault).mapError.bind fun enabled => ?_
    cases enabled <;> trivial

end

end Carriers
