import Carriers.BounceCounts
import Carriers.Operations
import Carriers.ProofKit.Logs

/-! The history of the members.  In whatever order connections, commands and imports take their
steps, one history of changes leads to the members that there are, and in it every program has made
the changes that it was run for and no others. -/

namespace Carriers

open ProofKit

/-! ### Changes that are due -/

/-- The changes that a command makes. -/
def MemberCommand.due : MemberCommand → List MemberChange
  | .add name address noSubscribe poster moderator =>
    [.add name address (!noSubscribe) poster moderator]
  | .remove name address => [.remove name address]
  | .list _ => []
  | .enable name address => [.enable name address]

def importChanges (list : Text) (addresses : List Text) : List MemberChange :=
  addresses.map fun address => .add list address true false false

/-- The changes by the import of a members file, which can be read or not. -/
def MembersFile.due (list : Text) (file : MembersFile) : List MemberChange :=
  importChanges list (file.contents.toOption.elim [] seedAddresses)

def syncDue (membersFile : MailingList → Option MembersFile) (lists : List MailingList) :
    List MemberChange :=
  lists.flatMap fun list => (membersFile list).elim [] (MembersFile.due list.name)

/-! ### What a step does to the members -/

/-- The changes lead from the members of one world to those of the other. -/
def ChangesMembers (threshold : ℚ) (changes : List MemberChange) (before after : World) : Prop :=
  SameMembers (before.store.change threshold changes) after.store

section
variable {threshold : ℚ}

theorem changesMembers_nil {before after : World} (stay : MembersStay before after) :
    ChangesMembers threshold [] before after := fun key => by
  rw [stay]
  rfl

theorem changesMembers_append {earlier later : List MemberChange} {first second third : World}
    (h : ChangesMembers threshold earlier first second)
    (h' : ChangesMembers threshold later second third) :
    ChangesMembers threshold (earlier ++ later) first third := by
  intro key
  have append : first.store.change threshold (earlier ++ later) =
      (first.store.change threshold earlier).change threshold later := List.foldl_append
  rw [append]
  exact (SameMembers.change h later key).trans (h' key)

/-- A statement of a command makes its changes. -/
theorem sql_performs {α : Type} {statement : Store → α × Store} {changes log : List MemberChange}
    (makes : ∀ store : Store, SameMembers (store.change threshold changes) (statement store).2)
    (fault : Option Text) :
    ((sql fault statement).mapError CommandError.core).Logs (ChangesMembers threshold)
      (Proc.Performs (log ++ changes)) log := by
  refine Proc.Logs.performs_mapError ?_
  cases fault with
  | some e => exact Proc.performs_throw (List.prefix_append log changes) _
  | none => exact Proc.performs_transact fun world => makes world.store

/-! ### Imports -/

theorem seedLines_performs (faults : Nat → Option Text) (list : Text) (n : Nat)
    (log : List MemberChange) (lines : List Text) :
    (seedLines faults list n lines).Logs (ChangesMembers threshold)
      (Proc.Performs (log ++ importChanges list ((lines.map trim).filter isAddressLine))) log := by
  induction lines generalizing n log with
  | nil =>
    rw [importChanges, List.map_nil, List.filter_nil, List.map_nil, List.append_nil]
    exact Proc.performs_pure n
  | cons line lines ih =>
    rw [seedLines, List.map_cons]
    cases named : isAddressLine (trim line) with
    | false =>
      rw [List.filter_cons_of_neg (by simp [named])]
      exact ih n log
    | true =>
      rw [List.filter_cons_of_pos named, importChanges, List.map_cons, ← importChanges,
        List.append_cons]
      refine Proc.Logs.performs_bind (List.prefix_append _ _)
        (sql_performs (fun _ _ => rfl) (faults n)) fun _ => ?_
      exact ih (n + 1) _

theorem seedSubscribersFromFile_performs (faults : Nat → Option Text) (list : Text)
    (file : MembersFile) (log : List MemberChange) :
    (seedSubscribersFromFile faults list file.path file.contents).Logs (ChangesMembers threshold)
      (Proc.Performs (log ++ file.due list)) log := by
  rw [MembersFile.due]
  cases file.contents with
  | error error => exact Proc.performs_throw (List.prefix_append _ _) _
  | ok text => exact seedLines_performs faults list 0 log (textLines text)

theorem syncLists_performs (membersFile : MailingList → Option MembersFile)
    (faults : Nat → Nat → Option Text) (log : List MemberChange) (lists : List MailingList) :
    (syncLists membersFile faults lists).Logs (ChangesMembers threshold)
      (Proc.Performs (log ++ syncDue membersFile lists)) log := by
  induction lists generalizing faults log with
  | nil =>
    rw [syncDue, List.flatMap_nil, List.append_nil]
    exact Proc.performs_pure _
  | cons list lists ih =>
    rw [syncLists, syncDue, List.flatMap_cons, ← syncDue]
    cases membersFile list with
    | none => exact ih _ log
    | some file =>
      rw [Option.elim_some, ← List.append_assoc]
      refine Proc.Logs.performs_bind (List.prefix_append _ _)
        (seedSubscribersFromFile_performs (faults 0) list.name file log) fun n => ?_
      exact (ih _ _).performs_bind List.prefix_rfl fun report => Proc.performs_pure _

/-! ### Commands -/

/-- A command with a single statement. -/
theorem statement_performs {α β : Type} {statement : Store → α × Store}
    {changes : List MemberChange} {k : α → Proc World CommandError β}
    (makes : ∀ store : Store, SameMembers (store.change threshold changes) (statement store).2)
    (fault : Option Text)
    (next : ∀ value, (k value).Logs (ChangesMembers threshold) (Proc.Performs changes) changes) :
    ((sql fault statement).mapError CommandError.core >>= k).Logs (ChangesMembers threshold)
      (Proc.Performs changes) [] := by
  have first : ((sql fault statement).mapError CommandError.core).Logs (ChangesMembers threshold)
      (Proc.Performs ([] ++ changes)) [] := sql_performs makes fault
  exact first.performs_bind List.prefix_rfl next

theorem member_performs (opened : Except CommandError Unit) (lists : ListsDir)
    (fault : Option Text) (command : MemberCommand) :
    (member opened lists fault command).Logs (ChangesMembers threshold)
      (Proc.Performs command.due) [] := by
  cases command with
  | add list address noSubscribe poster moderator =>
    refine Proc.performs_ofExcept_bind fun _ _ => Proc.performs_ofExcept_bind fun _ _ => ?_
    exact statement_performs (fun _ _ => rfl) fault fun _ => Proc.performs_pure _
  | remove list address =>
    refine Proc.performs_ofExcept_bind fun _ _ => ?_
    exact statement_performs (fun _ _ => rfl) fault fun _ => Proc.performs_pure _
  | list list =>
    refine Proc.performs_ofExcept_bind fun _ _ => ?_
    exact statement_performs (fun _ _ => rfl) fault fun _ => Proc.performs_pure _
  | enable list address =>
    refine Proc.performs_ofExcept_bind fun _ _ => ?_
    refine statement_performs (fun _ _ => rfl) fault fun enabled => ?_
    cases enabled with
    | true => exact Proc.performs_pure _
    | false => exact Proc.performs_throw List.prefix_rfl _

end

/-! ### Moderation -/

section
variable {R : World → World → Prop} {outside : Outside}
  (stays : ∀ before after : World, MembersStay before after → R before after)
include stays

theorem statement_members {α : Type} {statement : Store → α × Store}
    (keeps : ∀ store : Store, (statement store).2.members = store.members) (fault : Option Text) :
    ((sql fault statement).mapError CommandError.core).Within R :=
  (sql_within fun world => stays _ _ (keeps world.store)).mapError

theorem approve_members (parseIp : Text → Option IpAddr) (loaded : Except CommandError AppState)
    (faults : CommandFaults) (id : Nat) :
    (Moderate.approve parseIp loaded faults outside id).Within R := by
  refine (Proc.within_ofExcept _).bind fun state => ?_
  refine (statement_members stays (fun _ => rfl) _).bind fun found => ?_
  cases found with
  | none => trivial
  | some held =>
    dsimp only
    cases listByName state.lists held.list with
    | none => trivial
    | some list =>
      refine (distributeApproved_members stays).mapError.bind fun outcome => ?_
      exact (statement_members stays (fun _ => rfl) _).bind fun _ => Proc.within_pure _

theorem reject_members (opened : Except CommandError Unit) (faults : CommandFaults) (id : Nat) :
    (Moderate.reject opened faults id).Within R := by
  refine (Proc.within_ofExcept _).bind fun _ => ?_
  refine (statement_members stays (fun _ => rfl) _).bind fun deleted => ?_
  cases deleted <;> trivial

theorem list_members (opened : Except CommandError Unit) (fault : Option Text)
    (name : Option Text) : (Moderate.list opened fault name).Within R := by
  refine (Proc.within_ofExcept _).bind fun _ => ?_
  exact (statement_members stays (fun _ => rfl) _).bind fun _ => Proc.within_pure _

theorem showHeld_members (opened : Except CommandError Unit) (fault : Option Text) (id : Nat) :
    (Moderate.showHeld opened fault id).Within R := by
  refine (Proc.within_ofExcept _).bind fun _ => ?_
  refine (statement_members stays (fun _ => rfl) _).bind fun found => ?_
  cases found <;> trivial

end

/-- The change is the report of a bounce to a list of the deployment. -/
def IsReport (state : AppState) (change : MemberChange) : Prop :=
  ∃ list address kind weight, IsLoaded state.lists list ∧
    state.config.bounce.weight kind = some weight ∧ change = .bounce list.name address weight

/-- A step that only reports bounces. -/
def OnlyReports (state : AppState) (before after : World) : Prop :=
  ∃ changes, ChangesMembers state.config.bounce.threshold changes before after ∧
    ∀ change ∈ changes, IsReport state change

theorem recipientReply_onlyReports {state : AppState} {recipient : Recipient}
    (loaded : recipient.IsLoaded state.lists) (outside : Outside) (ingress : Ingress)
    (raw : Bytes) :
    (recipientReply state outside ingress raw recipient).Within (OnlyReports state) := by
  cases recipient with
  | post list =>
    refine Proc.Within.bind (handleOne_members fun before after stay => ?_).attempt
      fun _ => Proc.within_pure _
    exact ⟨[], changesMembers_nil stay, List.forall_mem_nil _⟩
  | bounce list address =>
    refine Proc.Within.bind (Proc.Within.attempt ?_) fun _ => Proc.within_pure _
    rw [handleBounce]
    split
    · trivial
    · rename_i weight known
      refine Proc.Within.bind (sql_within fun world => ?_) fun _ => Proc.within_pure _
      refine ⟨[.bounce list.name address weight], fun _ => rfl, fun change mem => ?_⟩
      exact ⟨list, address, _, weight, loaded, known, List.mem_singleton.mp mem⟩

/-! ### Every interleaving -/

namespace Operation

/-- The changes of the members that the program is run for. -/
def due : Operation → List MemberChange
  | .member _ _ _ command => command.due
  | .sync membersFile _ loaded => syncDue membersFile (loaded.toOption.getD [])
  | .task _ | .listHeld .. | .showHeld .. => []

/-- What a program may have made of the members: a connection has reported bounces, and any other
program has made the changes it was run for, at the latest when it has ended well. -/
def Makes (state : AppState) (changes : List MemberChange)
    (result : Option (Except CommandError Output)) : Operation → Prop
  | .task (.connection ..) => ∀ change ∈ changes, IsReport state change
  | operation => Proc.Performs operation.due changes result

variable {state : AppState}

/-- A program that leaves the members alone performs what is due, which is nothing. -/
theorem logs_nothing {p : Proc World CommandError Output} (within : p.Within MembersStay) :
    p.Logs (ChangesMembers state.config.bounce.threshold) (Proc.Performs []) [] :=
  within.logs (fun _ _ => changesMembers_nil) fun _ => ⟨List.prefix_rfl, fun _ _ => rfl⟩

theorem connection_logs (parse : Bytes → Option Request) (remoteIp : IpAddr) (reader : Reader)
    (outside : Nat → Nat → Outside) :
    ((task (.connection parse remoteIp reader outside)).program state).Logs
      (ChangesMembers state.config.bounce.threshold)
      (fun changes _ => ∀ change ∈ changes, IsReport state change) [] := by
  have reports : (handleConnection state parse remoteIp reader outside).Guarantees (fun _ => True)
      (OnlyReports state) fun _ => True :=
    handleConnection_guarantees (fun _ loaded outside ingress raw =>
      (recipientReply_onlyReports loaded outside ingress raw).guarantees) reader outside
  have work : ((Task.connection parse remoteIp reader outside).program state).Guarantees
      (fun _ => True) (OnlyReports state) fun _ => True :=
    (Proc.Guarantees.mapError reports).bind fun _ _ => trivial
  have program : ((task (.connection parse remoteIp reader outside)).program state).Guarantees
      (fun _ => True) (OnlyReports state) fun _ => True := work.bind fun _ _ => trivial
  exact program.logs (List.forall_mem_nil _)

theorem logs (operation : Operation) :
    (operation.program state).Logs (ChangesMembers state.config.bounce.threshold)
      (fun changes result => operation.Makes state changes result) [] := by
  cases operation with
  | task task =>
    cases task with
    | connection parse remoteIp reader outside =>
      exact connection_logs parse remoteIp reader outside
    | approve parseIp loaded faults outside id =>
      have members : (Moderate.approve parseIp (loaded.map fun _ => state) faults outside id).Within
          MembersStay := approve_members (fun _ _ stay => stay) _ _ _ _
      exact logs_nothing ((members.bind fun _ => Proc.within_pure _).bind
        fun _ => Proc.within_pure _)
    | reject opened faults id =>
      have members := reject_members (fun _ _ stay => stay) opened faults id
      exact logs_nothing (members.bind fun _ => Proc.within_pure _)
  | member opened lists fault command =>
    have performs : (Carriers.member opened lists fault command).Logs
        (ChangesMembers state.config.bounce.threshold) (Proc.Performs command.due) [] :=
      member_performs opened lists fault command
    exact performs.performs_bind List.prefix_rfl fun _ => Proc.performs_pure _
  | sync membersFile faults loaded =>
    have performs : (Carriers.sync membersFile faults loaded).Logs
        (ChangesMembers state.config.bounce.threshold)
        (Proc.Performs (syncDue membersFile (loaded.toOption.getD []))) [] := by
      refine Proc.performs_ofExcept_bind fun lists found => ?_
      subst found
      exact syncLists_performs membersFile faults [] lists
    exact performs.performs_bind List.prefix_rfl fun _ => Proc.performs_pure _
  | listHeld opened fault list =>
    have members := list_members (fun _ _ stay => stay) opened fault list
    exact logs_nothing (members.bind fun _ => Proc.within_pure _)
  | showHeld opened fault id =>
    have members := showHeld_members (fun _ _ stay => stay) opened fault id
    exact logs_nothing (members.bind fun _ => Proc.within_pure _)

end Operation

section
variable {ι : Type} [DecidableEq ι]

/-- The history leads from the members at the start to those of the pool, and in it every program
has made its changes. -/
structure HasHistory (state : AppState) (operations : ι → Operation) (start : World)
    (pool : Pool ι World CommandError Output) (history : List (ι × MemberChange)) : Prop where
  members : ChangesMembers state.config.bounce.threshold (history.map Prod.snd) start pool.state
  made : ∀ i, (operations i).Makes state (Pool.entriesOf i history) (pool.thread i).result

variable (state : AppState) (operations : ι → Operation) (start : World)

theorem exists_history (schedule : List ι) :
    ∃ history, HasHistory state operations start
      ((operationPool state operations start).after schedule) history := by
  obtain ⟨history, members, made⟩ := Pool.after_logs (fun _ => changesMembers_nil rfl)
    (fun _ _ _ _ _ => changesMembers_append) (operationPool state operations start)
    (fun i => (operations i).logs) schedule
  exact ⟨history, members, fun i => (made i).result⟩

/-- The history goes on from any point of a run. -/
theorem exists_later (first second : List ι) :
    ∃ history later : List (ι × MemberChange),
      ChangesMembers state.config.bounce.threshold (later.map Prod.snd)
        ((operationPool state operations start).after first).state
        ((operationPool state operations start).after (first ++ second)).state ∧
      ∀ i, (operations i).Makes state (Pool.entriesOf i history ++ Pool.entriesOf i later)
        (((operationPool state operations start).after (first ++ second)).thread i).result := by
  obtain ⟨history, -, logs⟩ := Pool.after_logs (fun _ => changesMembers_nil rfl)
    (fun _ _ _ _ _ => changesMembers_append) (operationPool state operations start)
    (fun i => (operations i).logs) first
  obtain ⟨later, members, made⟩ := Pool.after_logs (fun _ => changesMembers_nil rfl)
    (fun _ _ _ _ _ => changesMembers_append) _ logs second
  rw [Pool.after_append]
  exact ⟨history, later, members, fun i => (made i).result⟩

end

theorem weight_due (operation : Operation) : ∀ change ∈ operation.due, change.weight = 0 := by
  intro change mem
  cases operation with
  | task | listHeld | showHeld => cases mem
  | member opened lists fault command =>
    cases command with
    | list => cases mem
    | add | remove | enable =>
      obtain rfl := List.mem_singleton.mp mem
      rfl
  | sync membersFile faults loaded =>
    obtain ⟨list, -, mem⟩ := List.mem_flatMap.mp mem
    cases file : membersFile list with
    | none =>
      rw [file] at mem
      cases mem
    | some file' =>
      rw [file] at mem
      obtain ⟨address, -, rfl⟩ := List.mem_map.mp mem
      rfl

/-- No change that a program makes has a negative weight. -/
theorem Operation.Makes.weight {state : AppState} (nonNegative : state.config.bounce.NonNegative)
    {operation : Operation} {changes : List MemberChange}
    {result : Option (Except CommandError Output)} (makes : operation.Makes state changes result) :
    ∀ change ∈ changes, 0 ≤ change.weight := by
  intro change mem
  have due (performs : Proc.Performs operation.due changes result) : 0 ≤ change.weight :=
    (weight_due operation change (performs.begun.subset mem)).ge
  cases operation with
  | task task =>
    cases task with
    | connection =>
      obtain ⟨list, address, kind, weight, -, known, rfl⟩ := makes change mem
      exact nonNegative.weight known
    | approve | reject => exact due makes
  | member | sync | listHeld | showHeld => exact due makes

/-- How Alice and Bob came to be members. -/
def devPast : List MemberChange :=
  [.add "dev".toList "alice@example.com".toList true false false,
    .add "dev".toList "bob@example.com".toList true false false]

/-- The post of Alice arrives while she is removed from the list. -/
def leavingOperations : Bool → Operation
  | true => .task (.connection frontMtaRequest aliceIngress.remoteIp
      ⟨frontMtaLines ++ alicesPost ++ [dot, cr, lf], none⟩ fun _ _ => calmOutside)
  | false => .member (.ok ()) ⟨"/lists".toList, fun _ => none⟩ none
      (.remove "dev".toList "Alice@example.com".toList)

end Carriers
