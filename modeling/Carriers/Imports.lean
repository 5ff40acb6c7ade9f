import Carriers.MemberHistory

/-! Imports of the members files, among mail and moderation: interrupted, repeated, or several at a
time, they come to what one of them does. -/

namespace Carriers

open ProofKit

/-- The roles of an address. -/
def Store.roles (key : Text × Text) (store : Store) : Option (Bool × Bool × Bool) :=
  (store.members.lookup key).map fun row => (row.subscribed, row.poster, row.moderator)

/-- Roles of a subscriber who is neither a poster nor a moderator. -/
def subscriberOnly : Bool × Bool × Bool := (true, false, false)

/-- A change by which an import grants a subscription. -/
def MemberChange.IsImport (change : MemberChange) : Prop :=
  ∃ list address, change = .add list address true false false

/-- The members files of the lists name the address of the key. -/
def Names (membersFile : MailingList → Option MembersFile) (lists : List MailingList)
    (key : Text × Text) : Prop :=
  ∃ list ∈ lists, ∃ file text, membersFile list = some file ∧ file.contents = .ok text ∧
    ∃ address ∈ seedAddresses text, key = (list.name, normalise address)

/-! ### Roles -/

section
variable {threshold : ℚ} {key : Text × Text}

theorem roles_bounce {change : MemberChange} (bounce : change.isBounce = true) (store : Store) :
    (change.apply threshold store).roles key = store.roles key := by
  rw [Store.roles, lookup_apply]
  cases change with
  | bounce list address weight =>
    split
    · rw [MemberChange.onRow, Option.map_map]
      rfl
    · rfl
  | add | remove | enable => cases bounce

theorem roles_import {change : MemberChange} (imports : change.IsImport) (store : Store) :
    (change.apply threshold store).roles key =
      if change.key = key then some subscriberOnly else store.roles key := by
  obtain ⟨list, address, rfl⟩ := imports
  rw [Store.roles, lookup_apply]
  split
  · cases store.members.lookup key <;> rfl
  · rfl

/-- Bounces and imports give the roles of a subscriber to those who are imported. -/
theorem roles_change {history : List MemberChange}
    (kinds : ∀ change ∈ history, change.isBounce = true ∨ change.IsImport) (store : Store) :
    (store.change threshold history).roles key =
      if ∃ change ∈ history, change.isAdd = true ∧ change.key = key then some subscriberOnly
      else store.roles key := by
  induction history using List.reverseRecOn with
  | nil => exact (if_neg (by simp)).symm
  | append_singleton history change ih =>
    have earlier := ih fun other mem => kinds other (List.mem_append_left _ mem)
    rw [change_concat]
    rcases kinds change (by simp) with bounce | imports
    · have noAdd : change.isAdd = false := by
        cases change with
        | bounce => rfl
        | add | remove | enable => cases bounce
      rw [roles_bounce bounce, earlier]
      refine if_congr ?_ rfl rfl
      simp [or_and_right, exists_or, noAdd]
    · rw [roles_import imports, earlier]
      have isAdd : change.isAdd = true := by
        obtain ⟨list, address, rfl⟩ := imports
        rfl
      by_cases same : change.key = key
      · rw [if_pos same, if_pos ⟨change, by simp, isAdd, same⟩]
      · rw [if_neg same]
        refine if_congr ?_ rfl rfl
        simp [or_and_right, exists_or, same]

end

/-! ### Imports -/

theorem mem_syncDue {membersFile : MailingList → Option MembersFile} {lists : List MailingList}
    {change : MemberChange} :
    change ∈ syncDue membersFile lists ↔ ∃ list ∈ lists, ∃ file text,
      membersFile list = some file ∧ file.contents = .ok text ∧
        ∃ address ∈ seedAddresses text, change = .add list.name address true false false := by
  rw [syncDue, List.mem_flatMap]
  refine exists_congr fun list => and_congr_right fun _ => ?_
  cases membersFile list with
  | none => simp
  | some file =>
    rw [Option.elim_some, MembersFile.due, importChanges, List.mem_map]
    cases contents : file.contents with
    | error error => simp [contents, Except.toOption]
    | ok text => simp [contents, Except.toOption, eq_comm]

theorem names_iff {membersFile : MailingList → Option MembersFile} {lists : List MailingList}
    {key : Text × Text} :
    Names membersFile lists key ↔ ∃ change ∈ syncDue membersFile lists, change.key = key := by
  constructor
  · rintro ⟨list, mem, file, text, found, contents, address, named, rfl⟩
    exact ⟨_, mem_syncDue.mpr ⟨list, mem, file, text, found, contents, address, named, rfl⟩, rfl⟩
  · rintro ⟨change, mem, rfl⟩
    obtain ⟨list, loaded, file, text, found, contents, address, named, rfl⟩ := mem_syncDue.mp mem
    exact ⟨list, loaded, file, text, found, contents, address, named, rfl⟩

namespace Operation

/-- A program that imports the members files of the lists, in whatever order it enumerates them, or
grants nothing to anybody. -/
def Imports (membersFile : MailingList → Option MembersFile) (lists : List MailingList) :
    Operation → Prop
  | .sync files _ loaded => files = membersFile ∧ ∀ order, loaded = .ok order → order.Perm lists
  | .member _ _ _ (.list _) | .task _ | .listHeld .. | .showHeld .. => True
  | .member .. => False

def isSync : Operation → Bool
  | .sync .. => true
  | _ => false

variable {state : AppState} {membersFile : MailingList → Option MembersFile}
  {lists : List MailingList} {operation : Operation} {changes : List MemberChange}
  {result : Option (Except CommandError Output)}

/-- What is due in an import is what the files name. -/
theorem Imports.mem_due (imports : operation.Imports membersFile lists) {change : MemberChange}
    (mem : change ∈ operation.due) : change ∈ syncDue membersFile lists := by
  cases operation with
  | task | listHeld | showHeld => cases mem
  | member opened dir fault command =>
    cases command with
    | list => cases mem
    | add | remove | enable => exact imports.elim
  | sync files faults loaded =>
    obtain ⟨rfl, perm⟩ := imports
    cases loaded with
    | error error => cases mem
    | ok order => exact ((perm order rfl).flatMap_right _).subset mem

/-- All that mail, moderation and imports do to the members. -/
theorem Imports.makes (imports : operation.Imports membersFile lists)
    (makes : operation.Makes state changes result) :
    ∀ change ∈ changes, change.isBounce = true ∨ change ∈ syncDue membersFile lists := by
  intro change mem
  have due (performs : Proc.Performs operation.due changes result) :
      change.isBounce = true ∨ change ∈ syncDue membersFile lists :=
    .inr (imports.mem_due (performs.begun.subset mem))
  cases operation with
  | task task =>
    cases task with
    | connection =>
      obtain ⟨list, address, kind, weight, -, -, rfl⟩ := makes change mem
      exact .inl rfl
    | approve | reject => exact due makes
  | member | sync | listHeld | showHeld => exact due makes

/-- The program is an import that could load the lists. -/
def HasLists : Operation → Prop
  | .sync _ _ loaded => ∃ order, loaded = .ok order
  | _ => False

/-- An import that ends well could load the lists. -/
theorem returns_hasLists (state : AppState) (operation : Operation) :
    (operation.program state).Returns fun _ => operation.isSync = true → operation.HasLists := by
  cases operation with
  | sync files faults loaded =>
    cases loaded with
    | error error => trivial
    | ok order => exact (Proc.returns_trivial _).imp fun _ _ _ => ⟨order, rfl⟩
  | task | member | listHeld | showHeld =>
    exact (Proc.returns_trivial _).imp fun _ _ isSync => by cases isSync

/-- An import that has ended well has made all its changes. -/
theorem Imports.complete (imports : operation.Imports membersFile lists)
    (hasLists : operation.HasLists) {output : Output}
    (makes : operation.Makes state changes (some (.ok output))) :
    ∀ change ∈ syncDue membersFile lists, change ∈ changes := by
  intro change mem
  cases operation with
  | sync files faults loaded =>
    obtain ⟨order, rfl⟩ := hasLists
    obtain ⟨rfl, perm⟩ := imports
    have all : changes = syncDue files order := makes.all _ rfl
    rw [all]
    exact ((perm order rfl).flatMap_right _).mem_iff.mpr mem
  | task | member | listHeld | showHeld => exact hasLists.elim

end Operation

/-- After bounces and imports, the roles are as before or those of an imported subscriber. -/
theorem roles_changesMembers {threshold : ℚ} {membersFile : MailingList → Option MembersFile}
    {lists : List MailingList} {changes : List MemberChange} {before after : World}
    (kinds : ∀ change ∈ changes,
      change.isBounce = true ∨ change ∈ syncDue membersFile lists)
    (members : ChangesMembers threshold changes before after) (key : Text × Text) :
    after.store.roles key =
      if ∃ change ∈ changes, change.isAdd = true ∧ change.key = key then some subscriberOnly
      else before.store.roles key := by
  have same : after.store.members.lookup key =
      (before.store.change threshold changes).members.lookup key := (members key).symm
  rw [Store.roles, same, ← Store.roles]
  refine roles_change (fun change mem => (kinds change mem).imp_right fun due => ?_) _
  obtain ⟨list, -, file, text, -, -, address, -, rfl⟩ := mem_syncDue.mp due
  exact ⟨list.name, address, rfl⟩

section
variable {ι : Type} [DecidableEq ι] (state : AppState)
  {membersFile : MailingList → Option MembersFile} {lists : List MailingList}
  {operations : ι → Operation} (imports : ∀ i, (operations i).Imports membersFile lists)
  (start : World)
include imports

/-- Nobody's roles change, except that those whom the files name come to be subscribers. -/
theorem roles_between (first second : List ι) (key : Text × Text) :
    let pool := operationPool state operations start
    (pool.after (first ++ second)).state.store.roles key =
        (pool.after first).state.store.roles key ∨
      Names membersFile lists key ∧
        (pool.after (first ++ second)).state.store.roles key = some subscriberOnly := by
  intro pool
  obtain ⟨history, later, members, made⟩ := exists_later state operations start first second
  have kinds : ∀ change ∈ later.map Prod.snd,
      change.isBounce = true ∨ change ∈ syncDue membersFile lists := by
    intro change mem
    obtain ⟨⟨i, _⟩, entry, rfl⟩ := List.mem_map.mp mem
    exact (imports i).makes (made i) _
      (List.mem_append_right _ (Pool.mem_entriesOf.mpr entry))
  rw [roles_changesMembers kinds members key]
  split
  · rename_i added
    obtain ⟨change, mem, isAdd, same⟩ := added
    refine .inr ⟨names_iff.mpr ⟨change, ?_, same⟩, rfl⟩
    refine (kinds change mem).resolve_left fun bounce => ?_
    cases change with
    | add => cases bounce
    | remove | bounce | enable => cases isAdd
  · exact .inl rfl

/-- Once an import has ended well, everybody whom the files name is a subscriber. -/
theorem roles_of_ended {schedule : List ι} {i : ι} {output : Output}
    (isSync : (operations i).isSync = true)
    (ended : (((operationPool state operations start).after schedule).thread i).result =
      some (.ok output)) {key : Text × Text} (named : Names membersFile lists key) :
    ((operationPool state operations start).after schedule).state.store.roles key =
      some subscriberOnly := by
  obtain ⟨history, members, made⟩ := exists_history state operations start schedule
  have kinds : ∀ change ∈ history.map Prod.snd,
      change.isBounce = true ∨ change ∈ syncDue membersFile lists := by
    intro change mem
    obtain ⟨⟨i, _⟩, entry, rfl⟩ := List.mem_map.mp mem
    exact (imports i).makes (made i) _ (Pool.mem_entriesOf.mpr entry)
  have returns := Pool.after_returns (operationPool state operations start)
    (fun i => (operations i).returns_hasLists state) schedule i
  have hasLists := returns.result ended isSync
  obtain ⟨change, due, same⟩ := names_iff.mp named
  have mem := (imports i).complete hasLists (ended ▸ made i) change due
  obtain ⟨list, -, file, text, -, -, address, -, rfl⟩ := mem_syncDue.mp due
  rw [roles_changesMembers kinds members key,
    if_pos ⟨_, List.mem_map.mpr ⟨_, Pool.mem_entriesOf.mp mem, rfl⟩, rfl, same⟩]

end

/-- Imports come to what one of them does: in every interleaving of imports of the same files with
connections, approvals and rejections, whatever fails, nobody's roles change between any two moments
except that those whom the files name come to be subscribers and no more, and once one of the
imports has ended well they all are, from then on. -/
theorem imports_settle {ι : Type} [DecidableEq ι] (state : AppState)
    {membersFile : MailingList → Option MembersFile} {lists : List MailingList}
    {operations : ι → Operation} (imports : ∀ i, (operations i).Imports membersFile lists)
    (start : World) (first second : List ι) (key : Text × Text) :
    let pool := operationPool state operations start
    ((pool.after (first ++ second)).state.store.roles key =
        (pool.after first).state.store.roles key ∨
      Names membersFile lists key ∧
        (pool.after (first ++ second)).state.store.roles key = some subscriberOnly) ∧
    ∀ i output, (operations i).isSync = true →
      ((pool.after first).thread i).result = some (.ok output) →
      Names membersFile lists key →
        (pool.after (first ++ second)).state.store.roles key = some subscriberOnly := by
  intro pool
  have later := roles_between state imports start first second key
  refine ⟨later, fun i output isSync ended named => ?_⟩
  have settled := roles_of_ended state imports start isSync ended named
  exact later.elim (fun same => same.trans settled) And.right

def devMembersFile (_ : MailingList) : Option MembersFile :=
  some ⟨"members".toList, .ok membersFile⟩

/-- Two imports of the same file, of which one fails after the first address. -/
def twoImports : Bool → Operation
  | false => .sync devMembersFile (fun _ n => if n = 1 then some "disk full".toList else none)
      (.ok [devList])
  | true => .sync devMembersFile (fun _ _ => none) (.ok [devList])

theorem imports_settle_twoImports :
    ((operationPool aliceState twoImports (.initial devModerated)).after
        [true, false, true, false]).state.store.roles
      ("dev".toList, "alice@example.com".toList) =
      some subscriberOnly := by
  have imports : ∀ i, (twoImports i).Imports devMembersFile [devList] := by
    rintro (_ | _)
    all_goals exact ⟨rfl, fun order same => Except.ok.inj same ▸ List.Perm.refl _⟩
  have named : Names devMembersFile [devList] ("dev".toList, "alice@example.com".toList) :=
    ⟨devList, List.mem_singleton_self _, _, membersFile, rfl, rfl, "alice@example.com".toList,
      by decide +kernel, by decide +kernel⟩
  exact (imports_settle aliceState imports (.initial devModerated) [true, false, true] [false]
    _).2 true _ rfl rfl named

end Carriers
