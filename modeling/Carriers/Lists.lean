import Carriers.MailingList

/-! The lists of a deployment: one file for each, indexed by posting address. -/

namespace Carriers

open ProofKit

/-- A directory entry: its name, and what reading, parsing and loading the keys of its
configuration yields. -/
structure ListFile where
  fileName : Text
  contents : Except Error (ListConfig × Except Error Signers)

/-- The file name without its extension, and the extension.  A leading `.` begins no extension. -/
def fileParts (fileName : Text) : Text × Option Text :=
  match rsplitOnce '.' fileName with
  | some (stem, extension) => if stem = [] then (fileName, none) else (stem, some extension)
  | none => (fileName, none)

/-- The loaded lists, by the posting address in lower case. -/
abbrev Lists := AList fun _ : Text => MailingList

def ListFile.load (file : ListFile) : Except Error MailingList :=
  match file.contents with
  | .error error => .error error
  | .ok (cfg, keys) => MailingList.fromConfig (fileParts file.fileName).1 cfg keys

/-- Loads the files of the directory in the order of its enumeration, into `lists`. -/
def loadListsInto (lists : Lists) : List ListFile → Except Error Lists
  | [] => .ok lists
  | file :: files =>
    if (fileParts file.fileName).2 ≠ some "toml".toList then loadListsInto lists files
    else
      match file.load with
      | .error error => .error error
      | .ok list => loadListsInto (lists.insert (asciiLower list.cfg.postingAddress) list) files

def loadLists (files : List ListFile) : Except Error Lists := loadListsInto ∅ files

/-- The list that an incoming address belongs to. -/
def listForAddress (lists : Lists) (address : Text) : Option MailingList :=
  lists.lookup (normalise address)

/-- A list of the given name, as `moderate` looks it up. -/
def listByName (lists : Lists) (name : Text) : Option MailingList :=
  (lists.entries.map Sigma.snd).find? fun list => list.name = name

/-- Every list is indexed by its own posting address. -/
def Indexed (lists : Lists) : Prop :=
  ∀ key list, lists.lookup key = some list → key = asciiLower list.cfg.postingAddress

theorem Indexed.insert {lists : Lists} (h : Indexed lists) (list : MailingList) :
    Indexed (lists.insert (asciiLower list.cfg.postingAddress) list) := by
  intro key other lookup
  by_cases same : key = asciiLower list.cfg.postingAddress
  · rw [same, AList.lookup_insert] at lookup
    cases lookup
    exact same
  · rw [AList.lookup_insert_ne same] at lookup
    exact h key other lookup

theorem loadListsInto_indexed {lists loaded : Lists} (h : Indexed lists) {files : List ListFile}
    (load : loadListsInto lists files = .ok loaded) : Indexed loaded := by
  induction files generalizing lists with
  | nil =>
    cases load
    exact h
  | cons file files ih =>
    simp only [loadListsInto] at load
    split at load
    · exact ih h load
    · split at load
      · contradiction
      · exact ih (h.insert _) load

theorem loadLists_indexed {files : List ListFile} {loaded : Lists}
    (load : loadLists files = .ok loaded) : Indexed loaded :=
  loadListsInto_indexed (fun _ _ h => by simp at h) load

/-- The list `dev` of a deployment with one list file. -/
def devList : MailingList :=
  .ofAddress "dev".toList "dev@lists.example.org".toList "lists.example.org".toList (by decide)

def devFile : ListFile := ⟨"dev.toml".toList, .ok (devList.cfg, .ok default)⟩

def devLists : Lists := (∅ : Lists).insert "dev@lists.example.org".toList devList

theorem loadLists_devFile : loadLists [devFile] = .ok devLists := rfl

end Carriers
