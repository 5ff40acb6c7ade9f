import Carriers.BounceRouting
import Carriers.ProofKit.Index

/-! Which lists of a deployment mail can reach: a list file that loads, and then loses its place
in the index or its mail to another list, is silently dead. -/

namespace Carriers

open ProofKit

/-- `file` is the list file of `list`. -/
def ListFile.Defines (file : ListFile) (list : MailingList) : Prop :=
  (fileParts file.fileName).2 = some "toml".toList ∧ file.load = .ok list

/-- Every list of the directory is found by its name, and by its posting address in any ASCII
case, in whatever order the directory is enumerated. -/
structure EveryListReachable (files : List ListFile) : Prop where
  accepted : ∀ order, order.Perm files → ∃ lists, loadLists order = .ok lists
  sameMap : ∀ {order order' lists lists'}, order.Perm files → order'.Perm files →
    loadLists order = .ok lists → loadLists order' = .ok lists' →
      ∀ key, lists.lookup key = lists'.lookup key
  reachable : ∀ {order lists}, order.Perm files → loadLists order = .ok lists →
    ∀ file ∈ files, ∀ list, file.Defines list →
      listByName lists list.name = some list ∧
      ∀ address, asciiLower address = asciiLower list.cfg.postingAddress →
        classifyRecipient lists address = some (.post list)

/-- The posting addresses of the directory can be told apart, from each other and from the bounce
addresses, and are written as they are looked up. -/
structure WellAddressed (files : List ListFile) : Prop where
  apart : ∀ file ∈ files, ∀ list, file.Defines list → ∀ file' ∈ files, ∀ list',
    file'.Defines list' → asciiLower list.cfg.postingAddress = asciiLower list'.cfg.postingAddress →
      list = list'
  trimmed : ∀ file ∈ files, ∀ list, file.Defines list →
    trim list.cfg.postingAddress = list.cfg.postingAddress
  noBounce : ∀ file ∈ files, ∀ list, file.Defines list →
    ∀ address, asciiLower address = asciiLower list.cfg.postingAddress →
      ∀ base recipient, decodeVerp address = some (base, recipient) →
        ∀ file' ∈ files, ∀ list', file'.Defines list' →
          normalise base ≠ asciiLower list'.cfg.postingAddress

/-- The lists that the files of a directory define, one after the other. -/
def DefinesAll (files : List ListFile) (loaded : List MailingList) : Prop :=
  List.Forall₂ (fun file list => file.load = .ok list)
    (files.filter fun file => (fileParts file.fileName).2 = some "toml".toList) loaded

def postingKey (list : MailingList) : Text := asciiLower list.cfg.postingAddress

theorem definesAll_skip {file : ListFile} {files : List ListFile} {loaded : List MailingList}
    (other : (fileParts file.fileName).2 ≠ some "toml".toList) :
    DefinesAll (file :: files) loaded ↔ DefinesAll files loaded := by
  simp only [DefinesAll, List.filter_cons, other, decide_false, Bool.false_eq_true, if_false]

theorem definesAll_cons {file : ListFile} {files : List ListFile} {loaded : List MailingList}
    (toml : (fileParts file.fileName).2 = some "toml".toList) :
    DefinesAll (file :: files) loaded ↔
      ∃ list rest, file.load = .ok list ∧ DefinesAll files rest ∧ loaded = list :: rest := by
  simp only [DefinesAll, List.filter_cons, toml, decide_true, if_true, List.forall₂_cons_left_iff]

/-- Loading enters the lists of the files under their posting addresses. -/
theorem loadListsInto_iff {lists loaded : Lists} {files : List ListFile} :
    loadListsInto lists files = .ok loaded ↔
      ∃ values, DefinesAll files values ∧ loaded = enter postingKey lists values := by
  induction files generalizing lists with
  | nil =>
    simp only [loadListsInto, DefinesAll, List.filter_nil, List.forall₂_nil_left_iff]
    constructor
    · rintro ⟨⟩
      exact ⟨[], rfl, rfl⟩
    · rintro ⟨values, rfl, rfl⟩
      rfl
  | cons file files ih =>
    by_cases toml : (fileParts file.fileName).2 = some "toml".toList
    · rw [loadListsInto, if_neg (not_not.mpr toml)]
      simp only [definesAll_cons toml]
      cases load : file.load with
      | error error =>
        constructor
        · intro accepted
          contradiction
        · rintro ⟨-, ⟨list, rest, defines, -⟩, -⟩
          contradiction
      | ok list =>
        simp only [ih]
        constructor
        · rintro ⟨values, defines, rfl⟩
          exact ⟨list :: values, ⟨list, values, rfl, defines, rfl⟩, rfl⟩
        · rintro ⟨-, ⟨-, values, ⟨⟩, defines, rfl⟩, rfl⟩
          exact ⟨values, defines, rfl⟩
    · rw [loadListsInto, if_pos toml, ih]
      simp only [definesAll_skip toml]

/-- The lists that are loaded are those the files define. -/
theorem mem_of_definesAll {files : List ListFile} {loaded : List MailingList}
    (defines : DefinesAll files loaded) {list : MailingList} :
    list ∈ loaded ↔ ∃ file ∈ files, file.Defines list := by
  induction files generalizing loaded with
  | nil =>
    obtain rfl := List.forall₂_nil_left_iff.mp defines
    simp
  | cons file files ih =>
    by_cases toml : (fileParts file.fileName).2 = some "toml".toList
    · obtain ⟨first, rest, load, others, rfl⟩ := (definesAll_cons toml).mp defines
      rw [List.mem_cons, ih others, List.exists_mem_cons_iff]
      have same : list = first ↔ file.Defines list := by
        constructor
        · rintro rfl
          exact ⟨toml, load⟩
        · rintro ⟨-, again⟩
          exact Except.ok.inj (again.symm.trans load)
      rw [same]
    · rw [ih ((definesAll_skip toml).mp defines), List.exists_mem_cons_iff]
      constructor
      · exact .inr
      · rintro (⟨isToml, -⟩ | later)
        · contradiction
        · exact later

/-- Another order of the files defines the same lists, in another order. -/
theorem DefinesAll.perm {files order : List ListFile} {loaded : List MailingList}
    (defines : DefinesAll files loaded) (same : order.Perm files) :
    ∃ loaded', DefinesAll order loaded' ∧ loaded'.Perm loaded :=
  List.perm_comp_forall₂ (same.filter _) defines

/-- A list is named by its file. -/
theorem ListFile.Defines.name_eq {file : ListFile} {list : MailingList} (h : file.Defines list) :
    file.fileName = list.name ++ '.' :: "toml".toList := by
  obtain ⟨toml, load⟩ := h
  have named : list.name = (fileParts file.fileName).1 := by
    unfold ListFile.load at load
    split at load
    · contradiction
    · unfold MailingList.fromConfig at load
      split at load
      · contradiction
      · split at load
        · contradiction
        · cases load
          rfl
  rw [named]
  unfold fileParts at toml ⊢
  split at toml
  · rename_i stem extension split
    split at toml
    · contradiction
    · rename_i visible
      obtain rfl := Option.some.inj toml
      simp only [if_neg visible]
      exact (rsplitOnce_sound split).1
  · contradiction

section

variable {files : List ListFile} {lists : Lists}

theorem loadLists_accepts (load : loadLists files = .ok lists) {order : List ListFile}
    (same : order.Perm files) : ∃ lists, loadLists order = .ok lists := by
  obtain ⟨loaded, defines, -⟩ := loadListsInto_iff.mp load
  obtain ⟨values, defines, -⟩ := defines.perm same
  exact ⟨_, loadListsInto_iff.mpr ⟨values, defines, rfl⟩⟩

/-- What is under a key is a list of the directory with that posting address. -/
theorem loadLists_sound (load : loadLists files = .ok lists) {key : Text} {list : MailingList}
    (found : lists.lookup key = some list) :
    (∃ file ∈ files, file.Defines list) ∧ postingKey list = key := by
  obtain ⟨values, defines, rfl⟩ := loadListsInto_iff.mp load
  obtain ⟨member, same⟩ := (lookup_enter_sound found).resolve_right (by simp)
  exact ⟨(mem_of_definesAll defines).mp member, same⟩

/-- Every list's posting address leads to some list. -/
theorem loadLists_complete (load : loadLists files = .ok lists) {file : ListFile}
    (member : file ∈ files) {list : MailingList} (defines : file.Defines list) :
    ∃ found, lists.lookup (postingKey list) = some found := by
  obtain ⟨values, all, rfl⟩ := loadListsInto_iff.mp load
  have entered : list ∈ values := (mem_of_definesAll all).mpr ⟨file, member, defines⟩
  exact Option.isSome_iff_exists.mp (lookup_enter_complete entered)

/-- Lists with posting addresses of their own are what the index has, and all it has. -/
theorem loadLists_lookup_iff (load : loadLists files = .ok lists)
    (apart : ∀ file ∈ files, ∀ list, file.Defines list → ∀ file' ∈ files, ∀ list',
      file'.Defines list' → postingKey list = postingKey list' → list = list')
    {key : Text} {list : MailingList} :
    lists.lookup key = some list ↔ (∃ file ∈ files, file.Defines list) ∧ postingKey list = key := by
  obtain ⟨values, defines, rfl⟩ := loadListsInto_iff.mp load
  have apart : ∀ a ∈ values, ∀ b ∈ values, postingKey a = postingKey b → a = b := by
    intro a entered b entered' same
    obtain ⟨file, member, ha⟩ := (mem_of_definesAll defines).mp entered
    obtain ⟨file', member', hb⟩ := (mem_of_definesAll defines).mp entered'
    exact apart file member a ha file' member' b hb same
  rw [← mem_of_definesAll defines]
  exact lookup_enter_iff apart

theorem WellAddressed.lookup_iff (h : WellAddressed files) (load : loadLists files = .ok lists)
    {key : Text} {list : MailingList} :
    lists.lookup key = some list ↔ (∃ file ∈ files, file.Defines list) ∧ postingKey list = key :=
  loadLists_lookup_iff load h.apart

theorem WellAddressed.perm (h : WellAddressed files) {order : List ListFile}
    (same : order.Perm files) : WellAddressed order where
  apart file member list defines file' member' :=
    h.apart file (same.mem_iff.mp member) list defines file' (same.mem_iff.mp member')
  trimmed file member := h.trimmed file (same.mem_iff.mp member)
  noBounce file member list defines address spelling base recipient decoded file' member' :=
    h.noBounce file (same.mem_iff.mp member) list defines address spelling base recipient decoded
      file' (same.mem_iff.mp member')

/-- The list with a name is the one that its file defines. -/
theorem listByName_of_lookup (distinct : (files.map ListFile.fileName).Nodup)
    (load : loadLists files = .ok lists) {file : ListFile} (member : file ∈ files)
    {list : MailingList} (defines : file.Defines list) {key : Text}
    (found : lists.lookup key = some list) : listByName lists list.name = some list := by
  have entered : list ∈ lists.entries.map Sigma.snd :=
    List.mem_map.mpr ⟨⟨key, list⟩, AList.mem_lookup_iff.mp found, rfl⟩
  have isSome : (listByName lists list.name).isSome := by
    rw [listByName, List.find?_isSome]
    exact ⟨list, entered, by simp⟩
  obtain ⟨other, named⟩ := Option.isSome_iff_exists.mp isSome
  have sameName : other.name = list.name := by simpa using List.find?_some named
  obtain ⟨⟨key', value⟩, stored, rfl⟩ := List.mem_map.mp (List.mem_of_find?_eq_some named)
  obtain ⟨⟨file', member', defines'⟩, -⟩ := loadLists_sound load (AList.mem_lookup_iff.mpr stored)
  -- Files of one name are one file, which defines one list.
  have sameFile : file' = file := List.inj_on_of_nodup_map distinct member' member
    (by rw [defines'.name_eq, defines.name_eq, sameName])
  subst sameFile
  rw [named]
  exact congrArg some (Except.ok.inj (defines'.2.symm.trans defines.2))

end

/-- An address that is classified as a post belongs to the list. -/
theorem listForAddress_of_post {lists : Lists} {address : Text} {list : MailingList}
    (h : classifyRecipient lists address = some (.post list)) :
    listForAddress lists address = some list := by
  unfold classifyRecipient at h
  split at h
  · split at h
    · cases h
    · simpa using h
  · simpa using h

section

variable {files : List ListFile} {lists : Lists} {file : ListFile} {list : MailingList}

/-- Mail to a spelling of a posting address is looked up under the posting address. -/
theorem WellAddressed.normalise_spelling (h : WellAddressed files) (member : file ∈ files)
    (defines : file.Defines list) {address : Text}
    (spelling : asciiLower address = asciiLower list.cfg.postingAddress) :
    normalise address = postingKey list := by
  calc normalise address = trim (asciiLower address) := asciiLower_trim address
    _ = trim (asciiLower list.cfg.postingAddress) := by rw [spelling]
    _ = asciiLower (trim list.cfg.postingAddress) := (asciiLower_trim _).symm
    _ = postingKey list := by rw [h.trimmed file member list defines, postingKey]

theorem WellAddressed.classifyRecipient_eq (h : WellAddressed files)
    (load : loadLists files = .ok lists) (member : file ∈ files) (defines : file.Defines list)
    {address : Text} (spelling : asciiLower address = asciiLower list.cfg.postingAddress) :
    classifyRecipient lists address = some (.post list) := by
  have found : listForAddress lists address = some list := by
    rw [listForAddress, h.normalise_spelling member defines spelling]
    exact (h.lookup_iff load).mpr ⟨⟨file, member, defines⟩, rfl⟩
  unfold classifyRecipient
  split
  · rename_i base recipient decoded
    have unknown : listForAddress lists base = none := by
      apply Option.eq_none_iff_forall_ne_some.mpr
      intro other claimed
      obtain ⟨⟨file', member', defines'⟩, same⟩ := (h.lookup_iff load).mp claimed
      exact h.noBounce file member list defines address spelling base recipient decoded
        file' member' other defines' same.symm
    simp only [unknown, found, Option.map_some]
  · rw [found, Option.map_some]

theorem everyListReachable_of_wellAddressed (distinct : (files.map ListFile.fileName).Nodup)
    (load : loadLists files = .ok lists) (h : WellAddressed files) : EveryListReachable files where
  accepted order same := loadLists_accepts load same
  sameMap same same' loaded loaded' key := by
    apply Option.ext
    intro list
    simp only [(h.perm same).lookup_iff loaded, (h.perm same').lookup_iff loaded', same.mem_iff,
      same'.mem_iff]
  reachable {order _} same loaded file member list defines := by
    have inOrder : file ∈ order := same.mem_iff.mpr member
    have found := ((h.perm same).lookup_iff loaded).mpr ⟨⟨file, inOrder, defines⟩, rfl⟩
    have distinct' : (order.map ListFile.fileName).Nodup :=
      ((same.map ListFile.fileName).nodup_iff).mpr distinct
    exact ⟨listByName_of_lookup distinct' loaded inOrder defines found, fun address spelling =>
      (h.perm same).classifyRecipient_eq loaded inOrder defines spelling⟩

theorem wellAddressed_of_everyListReachable (load : loadLists files = .ok lists)
    (h : EveryListReachable files) : WellAddressed files := by
  have classified : ∀ file ∈ files, ∀ list, file.Defines list →
      ∀ address, asciiLower address = asciiLower list.cfg.postingAddress →
        classifyRecipient lists address = some (.post list) :=
    fun file member list defines => (h.reachable (.refl _) load file member list defines).2
  refine ⟨fun file member list defines file' member' list' defines' same => ?_,
    fun file member list defines => ?_,
    fun file member list defines address spelling base recipient decoded file' member' list'
      defines' claimed => ?_⟩
  · have first := classified file member list defines _ rfl
    rw [classified file' member' list' defines' _ same] at first
    cases first
    rfl
  · have found := listForAddress_of_post (classified file member list defines _ rfl)
    have spelled := congrArg List.length (loadLists_indexed load _ _ found)
    rw [normalise, length_asciiLower, length_asciiLower] at spelled
    exact trim_eq_self spelled.ge
  · obtain ⟨found, lookup⟩ := loadLists_complete load member' defines'
    have baseFound : listForAddress lists base = some found := by
      rw [listForAddress, claimed]
      exact lookup
    have bounce : classifyRecipient lists address = some (.bounce found recipient) := by
      simp only [classifyRecipient, decoded, baseFound]
    rw [classified file member list defines address spelling] at bounce
    cases bounce

/-- Every accepted list is reachable, whatever the order of the directory, exactly when the
posting addresses of the files can be told apart and are written as they are looked up. -/
theorem everyListReachable_iff (distinct : (files.map ListFile.fileName).Nodup)
    (load : loadLists files = .ok lists) : EveryListReachable files ↔ WellAddressed files :=
  ⟨wellAddressed_of_everyListReachable load, everyListReachable_of_wellAddressed distinct load⟩

end

/-- An address without the tag of the bounce addresses, in any case, is no bounce address. -/
theorem decodeVerp_of_untagged {address : Text} (untagged : ¬bounceTag <:+: asciiLower address) :
    decodeVerp address = none := by
  apply Option.eq_none_iff_forall_ne_some.mpr
  rintro ⟨base, recipient⟩ decoded
  obtain ⟨localPart, domain, front, encoded, -, -, split, tagged, -, -, -⟩ :=
    decodeVerp_eq_some.mp decoded
  apply untagged
  refine ⟨asciiLower front, asciiLower (encoded ++ '@' :: domain), ?_⟩
  rw [(rsplitOnce_sound split).1, splitOnce_sound tagged]
  simp [asciiLower_append, show asciiLower bounceTag = bounceTag from by decide]

/-- A second list, with a posting address of its own. -/
def opsList : MailingList :=
  .ofAddress "ops".toList "Ops@lists.example.org".toList "lists.example.org".toList (by decide)

def opsFile : ListFile := ⟨"ops.toml".toList, .ok (opsList.cfg, .ok default)⟩

def opsLists : Lists := devLists.insert "ops@lists.example.org".toList opsList

theorem loadLists_opsFile : loadLists [devFile, opsFile] = .ok opsLists := rfl

theorem wellAddressed_opsFile : WellAddressed [devFile, opsFile] := by
  have either : ∀ file ∈ [devFile, opsFile], ∀ list, file.Defines list →
      list = devList ∨ list = opsList := by
    rintro file member list ⟨-, load⟩
    rcases List.mem_cons.mp member with rfl | member
    · exact .inl (Except.ok.inj load).symm
    · obtain rfl := List.mem_singleton.mp member
      exact .inr (Except.ok.inj load).symm
  refine ⟨?_, ?_, ?_⟩
  · intro file member list defines file' member' list' defines' same
    rcases either file member list defines with rfl | rfl <;>
      rcases either file' member' list' defines' with rfl | rfl
    · rfl
    · exact absurd same (by decide)
    · exact absurd same (by decide)
    · rfl
  · intro file member list defines
    rcases either file member list defines with rfl | rfl <;> decide
  · intro file member list defines address spelling base recipient decoded
    have untagged : ¬bounceTag <:+: asciiLower address := by
      rw [spelling]
      rcases either file member list defines with rfl | rfl <;> decide
    rw [decodeVerp_of_untagged untagged] at decoded
    contradiction

theorem everyListReachable_opsFile : EveryListReachable [devFile, opsFile] :=
  (everyListReachable_iff (by decide) loadLists_opsFile).mpr wellAddressed_opsFile

/-- A list whose posting address differs from that of `dev` in case only. -/
def shoutingList : MailingList :=
  .ofAddress "loud".toList "DEV@lists.example.org".toList "lists.example.org".toList (by decide)

def shoutingFile : ListFile := ⟨"loud.toml".toList, .ok (shoutingList.cfg, .ok default)⟩

/-- Two lists that differ in case only: the file that is read last takes the mail of both. -/
theorem devFile_unreachable :
    (∃ lists, loadLists [devFile, shoutingFile] = .ok lists ∧
      listByName lists "dev".toList = none ∧
      classifyRecipient lists "dev@lists.example.org".toList = some (.post shoutingList)) ∧
    (∃ lists, loadLists [shoutingFile, devFile] = .ok lists ∧
      listByName lists "loud".toList = none ∧
      classifyRecipient lists "dev@lists.example.org".toList = some (.post devList)) ∧
    ¬EveryListReachable [devFile, shoutingFile] := by
  have load : loadLists [devFile, shoutingFile] =
      .ok (devLists.insert "dev@lists.example.org".toList shoutingList) := rfl
  have taken : classifyRecipient (devLists.insert "dev@lists.example.org".toList shoutingList)
      "dev@lists.example.org".toList = some (.post shoutingList) := rfl
  refine ⟨⟨_, load, rfl, taken⟩, ⟨_, rfl, rfl, rfl⟩, ?_⟩
  intro reachable
  have lost := (reachable.reachable (.refl _) load devFile List.mem_cons_self devList
    ⟨rfl, rfl⟩).2 "dev@lists.example.org".toList rfl
  rw [taken] at lost
  cases lost

end Carriers
