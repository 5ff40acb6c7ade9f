import Carriers.Commands
import Carriers.Reachability

/-! Names of lists: a command finds a list by the path of its file, and the daemon by the files of
the directory. -/

namespace Carriers

open ProofKit

/-- The directory in which a command looks for a list is the one that the daemon enumerates. -/
structure ListsDir.Shows (dir : ListsDir) (files : List ListFile) : Prop where
  plain : ∀ file ∈ files, '/' ∉ file.fileName
  distinct : (files.map ListFile.fileName).Nodup
  entry : ∀ fileName contents, '/' ∉ fileName →
    dir.file (joinPath dir.dir fileName) = some contents → ⟨fileName, contents⟩ ∈ files
  file : ∀ fileName config, ⟨fileName, .ok config⟩ ∈ files →
    dir.file (joinPath dir.dir fileName) = some (.ok config)

/-- The name of a list whose file the daemon finds in the directory. -/
def IsListName (name : Text) : Prop := name ≠ [] ∧ '/' ∉ name

/-- No two lists have one posting address. -/
def PostingAddressesApart (files : List ListFile) : Prop :=
  ∀ file ∈ files, ∀ list, file.Defines list → ∀ file' ∈ files, ∀ list', file'.Defines list' →
    postingKey list = postingKey list' → list = list'

theorem fileParts_toml {name : Text} (visible : name ≠ []) :
    fileParts (name ++ ".toml".toList) = (name, some "toml".toList) := by
  have cut : rsplitOnce '.' (name ++ ".toml".toList) = some (name, "toml".toList) :=
    rsplitOnce_append name (by decide)
  rw [fileParts, cut]
  exact if_neg visible

theorem fromConfig_name {name : Text} {cfg : ListConfig} {keys : Except Error Signers}
    {list : MailingList} (loaded : MailingList.fromConfig name cfg keys = .ok list) :
    list.name = name := by
  unfold MailingList.fromConfig at loaded
  split at loaded
  · contradiction
  · split at loaded
    · contradiction
    · cases loaded
      rfl

section
variable {dir : ListsDir} {files : List ListFile} {lists : Lists} {name : Text}

/-- A command accepts the name of a list just if there is a configuration of one at its path. -/
theorem resolveListName_iff :
    resolveListName dir name = .ok () ↔ ∃ cfg keys list,
      dir.file (joinPath dir.dir (name ++ ".toml".toList)) = some (.ok (cfg, keys)) ∧
      MailingList.fromConfig name cfg keys = .ok list := by
  rw [resolveListName]
  cases found : dir.file (joinPath dir.dir (name ++ ".toml".toList)) with
  | none => simp
  | some contents =>
    cases contents with
    | error error => simp
    | ok config =>
      obtain ⟨cfg, keys⟩ := config
      cases loaded : MailingList.fromConfig name cfg keys with
      | error error => simp [loaded, Except.mapError]
      | ok list => simp [loaded, Except.mapError]

/-- The command and the daemon know the same lists. -/
theorem resolveListName_defines (shows : dir.Shows files) (isName : IsListName name) :
    resolveListName dir name = .ok () ↔
      ∃ file ∈ files, ∃ list, file.Defines list ∧ list.name = name := by
  have parts := fileParts_toml isName.1
  rw [resolveListName_iff]
  constructor
  · rintro ⟨cfg, keys, list, found, loaded⟩
    have plain : '/' ∉ name ++ ".toml".toList := by simp [isName.2]
    refine ⟨_, shows.entry _ _ plain found, list, ⟨?_, ?_⟩, fromConfig_name loaded⟩
    · rw [parts]
    · rw [ListFile.load, parts]
      exact loaded
  · rintro ⟨file, mem, list, defines, rfl⟩
    have named : file.fileName = list.name ++ ".toml".toList := defines.name_eq
    obtain ⟨fileName, contents⟩ := file
    obtain rfl : fileName = list.name ++ ".toml".toList := named
    have loaded := defines.2
    rw [ListFile.load, parts] at loaded
    cases contents with
    | error error => contradiction
    | ok config => exact ⟨config.1, config.2, list, shows.file _ config mem, loaded⟩

/-- A list that the daemon has loaded has a name that a command can find. -/
theorem isListName_of_loaded (shows : dir.Shows files) (load : loadLists files = .ok lists)
    {key : Text} {list : MailingList} (found : lists.lookup key = some list) :
    IsListName list.name := by
  obtain ⟨⟨file, mem, defines⟩, -⟩ := loadLists_sound load found
  have named := defines.name_eq
  refine ⟨fun empty => ?_, fun slash => shows.plain file mem ?_⟩
  · have toml := defines.1
    rw [named, empty] at toml
    exact absurd toml (by decide)
  · rw [named]
    exact List.mem_append_left _ slash

/-- The daemon has loaded a list of the name. -/
def Served (lists : Lists) (name : Text) : Prop :=
  ∃ list, lists.lookup (postingKey list) = some list ∧ list.name = name

/-- The daemon serves the lists that a command accepts the names of, as far as these are names. -/
theorem served_iff (shows : dir.Shows files) (load : loadLists files = .ok lists)
    (apart : PostingAddressesApart files) :
    Served lists name ↔ IsListName name ∧ resolveListName dir name = .ok () := by
  constructor
  · rintro ⟨list, found, rfl⟩
    have isName := isListName_of_loaded shows load found
    obtain ⟨⟨file, mem, defines⟩, -⟩ := loadLists_sound load found
    exact ⟨isName, (resolveListName_defines shows isName).mpr ⟨file, mem, list, defines, rfl⟩⟩
  · rintro ⟨isName, resolved⟩
    obtain ⟨file, mem, list, defines, named⟩ := (resolveListName_defines shows isName).mp resolved
    exact ⟨list, (loadLists_lookup_iff load apart).mpr ⟨⟨file, mem, defines⟩, rfl⟩, named⟩

end

/-! ### Additions -/

/-- The command that adds a member. -/
def runAdd (dir : ListsDir) (list address : Text) (noSubscribe poster moderator : Bool) :
    World → Except CommandError (List Text) × World :=
  (member (.ok ()) dir none (.add list address noSubscribe poster moderator)).run

section
variable {dir : ListsDir} {list address : Text} {noSubscribe poster moderator : Bool}

theorem runAdd_ok (resolved : resolveListName dir list = .ok ()) (world : World) :
    ∃ report, runAdd dir list address noSubscribe poster moderator world = (.ok report,
      { world with
        store := world.store.addMember list address (!noSubscribe) poster moderator }) := by
  rw [runAdd, member, resolved]
  exact ⟨_, rfl⟩

theorem runAdd_error {error : CommandError} (resolved : resolveListName dir list = .error error)
    (world : World) :
    runAdd dir list address noSubscribe poster moderator world = (.error error, world) := by
  rw [runAdd, member, resolved]
  rfl

/-- Whom an addition makes a subscriber. -/
theorem mem_subscribers_addMember (subscribed : Bool) (store : Store) :
    normalise address ∈
        (store.addMember list address subscribed poster moderator).subscribers list ↔
      subscribed = true ∧ ∀ row, store.members.lookup (list, normalise address) = some row →
        row.bounceDisabled = false := by
  rw [Store.mem_subscribers, Store.addMember, AList.lookup_insert]
  cases store.members.lookup (list, normalise address) <;> simp

end

/-- An addition is to a list that the daemon serves: under a name that a file of the directory can
have, it is accepted if and only if the daemon serves a list of that name, and then posts go to the
new subscriber unless bounces had disabled the delivery before.  A refused one changes nothing. -/
theorem additions_served {dir : ListsDir} {files : List ListFile} {lists : Lists}
    (shows : dir.Shows files) (load : loadLists files = .ok lists)
    (apart : PostingAddressesApart files) (list address : Text)
    (noSubscribe poster moderator : Bool) (world : World) :
    let added := runAdd dir list address noSubscribe poster moderator world
    (Served lists list ↔ IsListName list ∧ ∃ report, added.1 = .ok report) ∧
    (∀ report, added.1 = .ok report →
      (normalise address ∈ added.2.store.subscribers list ↔ noSubscribe = false ∧
        ∀ row, world.store.members.lookup (list, normalise address) = some row →
          row.bounceDisabled = false)) ∧
    ∀ error, added.1 = .error error → added.2 = world := by
  intro added
  rw [served_iff shows load apart]
  cases resolved : resolveListName dir list with
  | error error =>
    have run : added = (.error error, world) := runAdd_error resolved world
    rw [run]
    simp
  | ok =>
    obtain ⟨report, run⟩ : ∃ report, added = (.ok report, { world with
        store := world.store.addMember list address (!noSubscribe) poster moderator }) :=
      runAdd_ok resolved world
    rw [run]
    refine ⟨by simp, fun _ _ => ?_, fun error failed => by cases failed⟩
    rw [mem_subscribers_addMember, Bool.not_eq_true']

theorem joinPath_slash (dir : Text) {path : Text} (plain : '/' ∉ path) :
    joinPath (dir ++ "/".toList) path = dir ++ '/' :: path := by
  have relative : path.head? ≠ some '/' := fun same => plain (List.mem_of_head? same)
  have slash : (dir ++ "/".toList).getLast? = some '/' := List.getLast?_concat
  rw [joinPath, if_neg relative, if_pos (.inr slash)]
  exact (List.append_cons dir '/' path).symm

/-- The directory with the files of `dev` and `ops`. -/
def listsDir : ListsDir :=
  { dir := "/lists/".toList
    file := fun path =>
      if path = "/lists/dev.toml".toList then some devFile.contents
      else if path = "/lists/ops.toml".toList then some opsFile.contents else none }

theorem listsDir_shows : listsDir.Shows [devFile, opsFile] := by
  have joined {fileName : Text} (plain : '/' ∉ fileName) :
      joinPath listsDir.dir fileName = "/lists/".toList ++ fileName :=
    joinPath_slash "/lists".toList plain
  refine ⟨by decide, by decide, fun fileName contents plain found => ?_, fun _ _ mem => ?_⟩
  · rw [joined plain] at found
    by_cases dev : "/lists/".toList ++ fileName = "/lists/dev.toml".toList
    · obtain rfl : contents = devFile.contents :=
        Option.some.inj (found.symm.trans (if_pos dev))
      obtain rfl : fileName = "dev.toml".toList := List.append_cancel_left dev
      exact List.mem_cons_self
    · obtain ⟨ops, rfl⟩ := Option.ite_some_none_eq_some.mp ((if_neg dev).symm.trans found)
      obtain rfl : fileName = "ops.toml".toList := List.append_cancel_left ops
      exact List.mem_cons_of_mem _ (List.mem_singleton_self opsFile)
  · simp only [List.mem_cons, List.not_mem_nil, or_false] at mem
    rcases mem with dev | ops
    · cases dev
      rfl
    · cases ops
      rfl

theorem additions_served_bob :
    Served opsLists "ops".toList ∧ ¬Served opsLists "devel".toList ∧
      normalise "Bob@example.com".toList ∈
        (runAdd listsDir "ops".toList "Bob@example.com".toList false false false
          (.initial .empty)).2.store.subscribers "ops".toList := by
  have apart : PostingAddressesApart [devFile, opsFile] := wellAddressed_opsFile.apart
  have added := additions_served listsDir_shows loadLists_opsFile apart "ops".toList
    "Bob@example.com".toList false false false (.initial .empty)
  have refused := additions_served listsDir_shows loadLists_opsFile apart "devel".toList
    "Bob@example.com".toList false false false (.initial .empty)
  refine ⟨added.1.mpr ⟨⟨by decide, by decide⟩, _, rfl⟩, fun served => ?_, ?_⟩
  · obtain ⟨-, report, accepted⟩ := refused.1.mp served
    cases accepted
  · exact (added.2.1 _ rfl).mpr ⟨rfl, fun row found => by cases found⟩

end Carriers
