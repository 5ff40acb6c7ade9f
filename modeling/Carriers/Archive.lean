import Carriers.ListNames
import Carriers.Munging
import Carriers.ProofKit.Logs

/-! The archive: every message in a file of its own, which is named after the moment and the
Message-ID and lies in the directory of the list. -/

namespace Carriers

open ProofKit
open ProofKit.Disk

/-! ### Files -/

def sanitizedChar (c : Char) : Char := if c.isAlphanum ∨ c = '.' ∨ c = '-' then c else '_'

def noMessageId : Text := "no-message-id".toList

/-- A Message-ID as part of a file name. -/
def sanitizeMessageId (id : Text) : Text :=
  let cleaned := (id.map sanitizedChar).take 120
  let trimmed := (cleaned.dropWhile (· = '_')).rdropWhile (· = '_')
  if trimmed = [] then noMessageId else trimmed

/-- A message that goes into the archive: the list, the octets, the moment, the places at which its
directories are made if there is nothing, and the failures of the file system. -/
structure Filing where
  list : Text
  raw : Bytes
  nanos : Nat
  newDirs : List Nat := []
  createError : Option Text := none
  writeFault : Option WriteFault := none
  writeError : Text := []

section
variable (parse : MessageParser)

def Filing.id (filing : Filing) : Text :=
  ((parse filing.raw).bind Message.messageId).elim noMessageId sanitizeMessageId

def Filing.fileName (filing : Filing) : Text :=
  (toString filing.nanos).toList ++ '-' :: (filing.id parse ++ ".eml".toList)

def Filing.path (dir : Text) (filing : Filing) : Text :=
  joinPath (joinPath dir filing.list) (filing.fileName parse)

def writeArchive (dir : Text) (filing : Filing) : Proc FileSystem Error Unit := do
  Proc.transact fun disk => ((), { disk with
    entries := fun place =>
      if disk.entries place = none ∧ place ∈ filing.newDirs then some .directory
      else disk.entries place })
  let _ ← Proc.ofExcept (filing.createError.elim (.ok ()) fun e => .error (.io e))
  (writeFile filing.writeFault filing.writeError (filing.path parse dir) filing.raw).mapError .io

end

/-! ### Names -/

/-- A character of the names in the archive. -/
def isArchiveChar (c : Char) : Bool := c.isAlphanum || c = '.' || c = '-' || c = '_'

theorem isArchiveChar_sanitizedChar (c : Char) : isArchiveChar (sanitizedChar c) = true := by
  rw [sanitizedChar]
  split
  · rename_i plain
    simpa [isArchiveChar, or_assoc] using Or.inl plain
  · decide

theorem sanitizeMessageId_chars (id : Text) :
    ∀ c ∈ sanitizeMessageId id, isArchiveChar c = true := by
  intro c mem
  rw [sanitizeMessageId] at mem
  split at mem
  · exact List.all_eq_true.mp (by decide : noMessageId.all isArchiveChar = true) c mem
  · have kept := (List.rdropWhile_prefix _ _).subset mem
    have cleaned := List.mem_of_mem_take ((List.dropWhile_sublist _).subset kept)
    obtain ⟨original, -, rfl⟩ := List.mem_map.mp cleaned
    exact isArchiveChar_sanitizedChar original

theorem toString_toList_inj {m n : Nat} : (toString m).toList = (toString n).toList ↔ m = n := by
  refine ⟨fun same => ?_, fun same => same ▸ rfl⟩
  have digits : Nat.toDigits 10 m = Nat.toDigits 10 n := by
    rw [← Nat.toList_repr, ← Nat.toList_repr]
    exact same
  rw [← Nat.ofDigitChars_ten_toDigits (n := m), digits, Nat.ofDigitChars_ten_toDigits]

theorem isDigit_of_mem_toString {n : Nat} {c : Char} (mem : c ∈ (toString n).toList) :
    c.isDigit = true := by
  have digits : (toString n).toList = Nat.toDigits 10 n := Nat.toList_repr
  exact Nat.isDigit_of_mem_toDigits (by decide) (by decide) (digits ▸ mem)

theorem relative_of_plain {path : Text} (plain : '/' ∉ path) : path.head? ≠ some '/' :=
  fun head => plain (List.mem_of_mem_head? head)

theorem joinPath_inj {dir path path' : Text} (plain : '/' ∉ path) (plain' : '/' ∉ path') :
    joinPath dir path = joinPath dir path' ↔ path = path' := by
  rw [joinPath, joinPath, if_neg (relative_of_plain plain), if_neg (relative_of_plain plain')]
  split <;> simp

/-- Below a directory that has a name, a separator follows. -/
theorem joinPath_named {dir name path : Text} (isName : IsListName name) (plain : '/' ∉ path) :
    joinPath (joinPath dir name) path = joinPath dir name ++ '/' :: path := by
  obtain ⟨visible, noSlash⟩ := isName
  obtain ⟨before, joined⟩ : ∃ before, joinPath dir name = before ++ name := by
    rw [joinPath, if_neg (relative_of_plain noSlash)]
    split
    · exact ⟨dir, rfl⟩
    · exact ⟨dir ++ ['/'], by simp⟩
  have last : (joinPath dir name).getLast? ≠ some '/' := by
    rw [joined, List.getLast?_append_of_ne_nil before visible]
    exact fun slash => noSlash (List.mem_of_getLast? slash)
  have nonempty : joinPath dir name ≠ [] := by simp [joined, visible]
  rw [joinPath.eq_def _ path, if_neg (relative_of_plain plain), if_neg (by simp [last, nonempty])]

section
variable {parse : MessageParser} {filing filing' : Filing}

theorem Filing.id_chars (filing : Filing) : ∀ c ∈ filing.id parse, isArchiveChar c = true := by
  rw [Filing.id]
  cases (parse filing.raw).bind Message.messageId with
  | none => exact List.all_eq_true.mp (by decide : noMessageId.all isArchiveChar = true)
  | some id => exact sanitizeMessageId_chars id

/-- A file of the archive has a harmless name. -/
theorem Filing.fileName_chars (filing : Filing) :
    ∀ c ∈ filing.fileName parse, isArchiveChar c = true := by
  intro c mem
  rw [Filing.fileName] at mem
  simp only [List.mem_append, List.mem_cons] at mem
  rcases mem with digit | rfl | id | suffix
  · simp [isArchiveChar, Char.isAlphanum, isDigit_of_mem_toString digit]
  · decide
  · exact filing.id_chars c id
  · exact List.all_eq_true.mp (by decide : ".eml".toList.all isArchiveChar = true) c suffix

theorem Filing.fileName_plain (filing : Filing) : '/' ∉ filing.fileName parse :=
  fun slash => absurd (filing.fileName_chars '/' slash) (by decide)

theorem Filing.fileName_inj :
    filing.fileName parse = filing'.fileName parse ↔
      filing.nanos = filing'.nanos ∧ filing.id parse = filing'.id parse := by
  have cut : ∀ filing : Filing, splitOnce ['-'] (filing.fileName parse) =
      some ((toString filing.nanos).toList, filing.id parse ++ ".eml".toList) := by
    intro filing
    have digits : ¬['-'] <:+: (toString filing.nanos).toList := by
      intro infix'
      have dash : '-' ∈ (toString filing.nanos).toList := infix'.subset (by simp)
      exact absurd (isDigit_of_mem_toString dash) (by decide)
    have cut := splitOnce_append (List.not_mem_nil (a := '-'))
      (filing.id parse ++ ".eml".toList) digits
    simpa [Filing.fileName] using cut
  constructor
  · intro same
    have cuts := cut filing
    rw [same, cut filing'] at cuts
    simp only [Option.some.injEq, Prod.mk.injEq, toString_toList_inj,
      List.append_left_inj] at cuts
    exact ⟨cuts.1.symm, cuts.2.symm⟩
  · rintro ⟨nanos, id⟩
    rw [Filing.fileName, Filing.fileName, nanos, id]

/-- Two messages have the same path in the archive just if they are filed for one list, at one
moment and under one Message-ID. -/
theorem Filing.path_inj {dir : Text} (isName : IsListName filing.list)
    (isName' : IsListName filing'.list) :
    filing.path parse dir = filing'.path parse dir ↔ filing.list = filing'.list ∧
      filing.nanos = filing'.nanos ∧ filing.id parse = filing'.id parse := by
  have dirs : joinPath dir filing.list = joinPath dir filing'.list ↔ filing.list = filing'.list :=
    joinPath_inj isName.2 isName'.2
  rw [Filing.path, Filing.path, joinPath_named isName filing.fileName_plain,
    joinPath_named isName' filing'.fileName_plain, ← Filing.fileName_inj, ← dirs]
  constructor
  · intro same
    have plain : '/' ∉ filing.fileName parse := filing.fileName_plain
    have cut := rsplitOnce_append (joinPath dir filing.list) plain
    rw [same, rsplitOnce_append _ filing'.fileName_plain] at cut
    simpa only [Option.some.injEq, Prod.mk.injEq, eq_comm] using cut
  · rintro ⟨directory, name⟩
    rw [directory, name]

end

/-! ### Writes -/

/-- The steps that are taken at a place. -/
def stepsAt (disk : FileSystem) (place : Nat) (steps : List (Text × WriteStep UInt8)) :
    List (WriteStep UInt8) :=
  (steps.filter fun step => disk.leadsTo step.1 = place).map Prod.snd

/-- The steps lead from one disk to the other, but for directories where there was nothing. -/
structure Leaves (steps : List (Text × WriteStep UInt8)) (before after : FileSystem) : Prop where
  leadsTo : after.leadsTo = before.leadsTo
  untouched : ∀ place, stepsAt before place steps = [] →
    after.entries place = before.entries place ∨
      before.entries place = none ∧ after.entries place = some .directory
  touched : ∀ place, stepsAt before place steps ≠ [] →
    after.entries place =
      some (.file (rewrites (stepsAt before place steps) (held (before.entries place))))

theorem stepsAt_append (disk : FileSystem) (place : Nat)
    (first second : List (Text × WriteStep UInt8)) :
    stepsAt disk place (first ++ second) =
      stepsAt disk place first ++ stepsAt disk place second := by
  rw [stepsAt, List.filter_append, List.map_append]
  rfl

theorem mem_stepsAt {disk : FileSystem} {place : Nat} {steps : List (Text × WriteStep UInt8)}
    {step : WriteStep UInt8} :
    step ∈ stepsAt disk place steps ↔
      ∃ path, (path, step) ∈ steps ∧ disk.leadsTo path = place := by
  simp [stepsAt]

theorem leaves_nil (disk : FileSystem) : Leaves [] disk disk :=
  ⟨rfl, fun _ _ => .inl rfl, fun _ taken => absurd rfl taken⟩

theorem leaves_step (disk : FileSystem) (path : Text) (step : WriteStep UInt8) :
    Leaves [(path, step)] disk (disk.writeStep path step) := by
  have here : stepsAt disk (disk.leadsTo path) [(path, step)] = [step] := by simp [stepsAt]
  refine ⟨rfl, fun place untouched => .inl (if_neg ?_), fun place touched => ?_⟩
  · rintro rfl
    rw [here] at untouched
    cases untouched
  · obtain rfl : disk.leadsTo path = place := by
      by_contra other
      exact touched (by simp [stepsAt, other])
    rw [here, writeStep, entries_put_self]
    rfl

theorem leaves_append (xs ys : List (Text × WriteStep UInt8)) (first second third : FileSystem)
    (h : Leaves xs first second) (h' : Leaves ys second third) : Leaves (xs ++ ys) first third := by
  have there : ∀ place, stepsAt second place ys = stepsAt first place ys := by
    intro place
    rw [stepsAt, h.leadsTo]
    rfl
  refine ⟨h'.leadsTo.trans h.leadsTo, fun place => ?_, fun place => ?_⟩
  · rw [stepsAt_append, List.append_eq_nil_iff]
    rintro ⟨before, after⟩
    rcases h.untouched place before with same | ⟨nothing, made⟩
    · rw [← same]
      exact h'.untouched place ((there place).trans after)
    · refine .inr ⟨nothing, ?_⟩
      rcases h'.untouched place ((there place).trans after) with same | ⟨nothing', -⟩
      · exact same.trans made
      · cases made.symm.trans nothing'
  · rw [stepsAt_append, rewrites_append]
    intro touched
    by_cases after : stepsAt first place ys = []
    · rw [after, List.append_nil] at touched
      have same := h'.untouched place ((there place).trans after)
      rw [h.touched place touched] at same
      rw [after]
      exact same.elim id fun made => by cases made.1
    · have later := h'.touched place (by rwa [there])
      rw [there] at later
      rw [later]
      by_cases before : stepsAt first place xs = []
      · rw [before]
        rcases h.untouched place before with same | ⟨nothing, made⟩
        · rw [same]
          rfl
        · rw [made, nothing]
          rfl
      · rw [h.touched place before]
        rfl

/-- What a filing does to the disk: it opens the file at its path and writes its octets, or the
front of them.  All of them are there at the end. -/
structure Filed {ε : Type} (path : Text) (raw : Bytes) (steps : List (Text × WriteStep UInt8))
    (result : Option (Except ε Unit)) : Prop where
  begun : ∃ octets, octets <+: raw ∧ steps <+: [(path, .opened), (path, .wrote octets)]
  whole : result = some (.ok ()) → steps = [(path, .opened), (path, .wrote raw)]

section
variable {ε : Type} {path : Text} {raw : Bytes} {steps : List (Text × WriteStep UInt8)}
  {result : Option (Except ε Unit)}

theorem filed_nil (unended : result ≠ some (.ok ())) : Filed path raw [] result :=
  ⟨⟨[], List.nil_prefix, List.nil_prefix⟩, fun ended => absurd ended unended⟩

theorem filed_opened (unended : result ≠ some (.ok ())) :
    Filed path raw [(path, .opened)] result :=
  ⟨⟨[], List.nil_prefix, ⟨[(path, .wrote [])], rfl⟩⟩, fun ended => absurd ended unended⟩

theorem filed_wrote {octets : Bytes} (begun : octets <+: raw)
    (whole : result = some (.ok ()) → octets = raw) :
    Filed path raw [(path, .opened), (path, .wrote octets)] result :=
  ⟨⟨octets, begun, List.prefix_rfl⟩, fun ended => by rw [whole ended]⟩

theorem Filed.own (h : Filed path raw steps result) : ∀ step ∈ steps, step.1 = path := by
  obtain ⟨octets, -, front⟩ := h.begun
  intro step mem
  have listed := front.subset mem
  simp only [List.mem_cons, List.not_mem_nil, or_false] at listed
  rcases listed with rfl | rfl <;> rfl

theorem Filed.opened (h : Filed path raw steps result) (taken : steps ≠ []) :
    (path, .opened) ∈ steps := by
  obtain ⟨octets, -, front⟩ := h.begun
  cases steps with
  | nil => exact absurd rfl taken
  | cons step steps =>
    obtain rfl := (List.cons_prefix_cons.mp front).1
    exact List.mem_cons_self

theorem Filed.wrote (h : Filed path raw steps result) {place : Text} {octets : Bytes}
    (mem : (place, .wrote octets) ∈ steps) : octets <+: raw := by
  obtain ⟨octets', begun, front⟩ := h.begun
  have listed := front.subset mem
  simp only [List.mem_cons, Prod.mk.injEq, reduceCtorEq, and_false, List.not_mem_nil, or_false,
    false_or, WriteStep.wrote.injEq] at listed
  exact listed.2 ▸ begun

theorem Filed.front (h : Filed path raw steps result) (taken : steps ≠ []) (old : Bytes) :
    rewrites (steps.map Prod.snd) old <+: raw := by
  obtain ⟨octets, begun, front⟩ := h.begun
  rcases steps with _ | ⟨step, _ | ⟨step', rest⟩⟩
  · exact absurd rfl taken
  · obtain rfl := (List.cons_prefix_cons.mp front).1
    exact List.nil_prefix
  · obtain ⟨rfl, later⟩ := List.cons_prefix_cons.mp front
    obtain ⟨wrote, rest⟩ := List.cons_prefix_cons.mp later
    obtain rfl := List.prefix_nil.mp rest
    simpa [wrote, rewrites, WriteStep.rewrite] using begun

end

theorem writeFile_logs (fault : Option WriteFault) (context path : Text) (raw : Bytes) :
    (writeFile fault context path raw).Logs Leaves (Filed path raw) [] := by
  have fails : Filed path raw [] (some (.error context : Except Text Unit)) := filed_nil (by simp)
  refine ⟨filed_nil (by simp), fun disk => ?_⟩
  by_cases isDirectory : disk.entries (disk.leadsTo path) = some .directory
  · simp only [if_pos isDirectory]
    exact ⟨[], leaves_nil disk, fails⟩
  · simp only [if_neg isDirectory]
    cases fault with
    | none =>
      refine ⟨_, leaves_step disk path .opened, filed_opened (by simp), fun opened => ?_⟩
      exact ⟨_, leaves_step opened path _, filed_wrote List.prefix_rfl fun _ => rfl⟩
    | some fault =>
      obtain ⟨_ | count⟩ := fault
      · exact ⟨[], leaves_nil disk, fails⟩
      · refine ⟨_, leaves_step disk path .opened, filed_opened (by simp), fun opened => ?_⟩
        exact ⟨_, leaves_step opened path _, filed_wrote (List.take_prefix count raw) (by simp)⟩

section
variable {parse : MessageParser} {dir : Text}

theorem writeArchive_logs (filing : Filing) :
    (writeArchive parse dir filing).Logs Leaves (Filed (filing.path parse dir) filing.raw) [] := by
  have makes : (Proc.transact fun disk => ((), { disk with
      entries := fun place =>
        if disk.entries place = none ∧ place ∈ filing.newDirs then some .directory
        else disk.entries place }) : Proc FileSystem Error Unit).Within (Leaves []) := by
    refine Proc.within_transact fun disk => ⟨rfl, fun place _ => ?_, fun _ taken => ?_⟩
    · show (if _ then _ else _) = disk.entries place ∨ disk.entries place = none ∧ _
      split
      · rename_i made
        exact .inr ⟨made.1, if_pos made⟩
      · exact .inl rfl
    · exact absurd rfl taken
  refine (makes.logs (fun _ _ => id) (Q := fun steps _ => steps = []) fun _ => rfl).bind ?_ ?_ ?_
  · rintro _ rfl
    exact filed_nil (by simp)
  · rintro _ error rfl
    exact filed_nil (by simp)
  · rintro _ _ rfl
    cases filing.createError with
    | some e => exact filed_nil (by simp)
    | none =>
      refine (writeFile_logs _ _ _ _).mapError fun steps result filed => ⟨filed.begun, ?_⟩
      rcases result with _ | _ | _
      · exact fun ended => by cases ended
      · exact fun ended => by cases ended
      · exact fun _ => filed.whole rfl

/-! ### The archive -/

variable {ι : Type} {filings : ι → Filing} {disk : FileSystem}

/-- Messages that are filed at the same time. -/
def archivePool (parse : MessageParser) (dir : Text) (filings : ι → Filing) (disk : FileSystem) :
    Pool ι FileSystem Error Unit :=
  { state := disk, thread := fun i => writeArchive parse dir (filings i) }

/-- Each octet of a new file is one of a message that is filed at its place, in the position that it
has in that message.  Nothing else on the disk is lost or changed. -/
structure OnlyFiles (parse : MessageParser) (dir : Text) (filings : ι → Filing)
    (before after : FileSystem) : Prop where
  begun : ∀ place (content : Bytes), after.entries place = some (.file content) →
    before.entries place = some (.file content) ∨
      (∃ i, before.leadsTo ((filings i).path parse dir) = place) ∧
      ∀ (k : Nat) octet, content[k]? = some octet → ∃ i,
        before.leadsTo ((filings i).path parse dir) = place ∧ (filings i).raw[k]? = some octet
  kept : ∀ place entry, (∀ i, before.leadsTo ((filings i).path parse dir) ≠ place) →
    before.entries place = some entry → after.entries place = some entry

/-- No other message is filed at the place of this one, unless it has the same path. -/
def HasOwnPlace (parse : MessageParser) (dir : Text) (filings : ι → Filing) (disk : FileSystem)
    (i : ι) : Prop :=
  ∀ j, disk.leadsTo ((filings j).path parse dir) = disk.leadsTo ((filings i).path parse dir) →
    (filings j).path parse dir = (filings i).path parse dir

section History

variable [DecidableEq ι] {history : List (ι × Text × WriteStep UInt8)} {after : FileSystem}
  {result : ι → Option (Except Error Unit)}
  (leaves : Leaves (history.map Prod.snd) disk after)
  (filed : ∀ i, Filed ((filings i).path parse dir) (filings i).raw (Pool.entriesOf i history)
    (result i))

include filed in
/-- Each step of the history is one of a filing, at its path. -/
theorem filing_of_step {path : Text} {step : WriteStep UInt8}
    (mem : (path, step) ∈ history.map Prod.snd) :
    ∃ i, (path, step) ∈ Pool.entriesOf i history ∧ path = (filings i).path parse dir := by
  obtain ⟨⟨i, _⟩, entry, rfl⟩ := List.mem_map.mp mem
  have own := Pool.mem_entriesOf.mpr entry
  exact ⟨i, own, (filed i).own _ own⟩

include leaves filed in
theorem onlyFiles_of_leaves : OnlyFiles parse dir filings disk after := by
  refine ⟨fun place content here => ?_, fun place entry apart there => ?_⟩
  · by_cases touched : stepsAt disk place (history.map Prod.snd) = []
    · rcases leaves.untouched place touched with same | ⟨-, made⟩
      · exact .inl (same.symm.trans here)
      · cases made.symm.trans here
    · rw [leaves.touched place touched] at here
      obtain rfl := Entry.file.inj (Option.some.inj here)
      obtain ⟨step, mem⟩ := List.exists_mem_of_ne_nil _ touched
      obtain ⟨path, mem, leads⟩ := mem_stepsAt.mp mem
      obtain ⟨i, own, rfl⟩ := filing_of_step filed mem
      refine .inr ⟨⟨i, leads⟩, fun k octet octetThere => ?_⟩
      rcases octet_of_steps octetThere with ⟨octets, wrote, octetThere⟩ | ⟨-, unopened⟩
      · obtain ⟨path, mem, leads⟩ := mem_stepsAt.mp wrote
        obtain ⟨j, own, rfl⟩ := filing_of_step filed mem
        obtain ⟨rest, whole⟩ := (filed j).wrote own
        refine ⟨j, leads, ?_⟩
        rw [← whole, List.getElem?_append_left (List.getElem?_eq_some_iff.mp octetThere).1]
        exact octetThere
      · have opened := (filed i).opened (List.ne_nil_of_mem own)
        have mem := List.mem_map_of_mem (f := Prod.snd) (Pool.mem_entriesOf.mp opened)
        exact absurd (mem_stepsAt.mpr ⟨_, mem, leads⟩) unopened
  · have untouched : stepsAt disk place (history.map Prod.snd) = [] := by
      refine List.eq_nil_iff_forall_not_mem.mpr fun step mem => ?_
      obtain ⟨path, mem, leads⟩ := mem_stepsAt.mp mem
      obtain ⟨i, -, rfl⟩ := filing_of_step filed mem
      exact apart i leads
    rcases leaves.untouched place untouched with same | ⟨nothing, -⟩
    · exact same.trans there
    · cases nothing.symm.trans there

variable {i : ι} (alone : ∀ j, disk.leadsTo ((filings j).path parse dir) =
  disk.leadsTo ((filings i).path parse dir) → j = i)

include filed alone in
/-- The steps at the place of a message that shares it with no other are those of its filing. -/
theorem stepsAt_own :
    stepsAt disk (disk.leadsTo ((filings i).path parse dir)) (history.map Prod.snd) =
      (Pool.entriesOf i history).map Prod.snd := by
  rw [stepsAt, Pool.entriesOf, List.filter_map]
  congr 2
  apply List.filter_congr
  intro entry mem
  have path : entry.2.1 = (filings entry.1).path parse dir :=
    (filed entry.1).own _ (Pool.mem_entriesOf.mpr mem)
  rw [Function.comp_apply, path, decide_eq_decide]
  exact ⟨alone entry.1, fun same => by rw [same]⟩

include leaves filed alone in
theorem read_of_alone :
    (∀ content, after.read ((filings i).path parse dir) = some content →
      disk.read ((filings i).path parse dir) = some content ∨ content <+: (filings i).raw) ∧
    (result i = some (.ok ()) →
      after.read ((filings i).path parse dir) = some (filings i).raw) := by
  have untouched := leaves.untouched (disk.leadsTo ((filings i).path parse dir))
  have touched := leaves.touched (disk.leadsTo ((filings i).path parse dir))
  rw [stepsAt_own filed alone] at untouched touched
  refine ⟨fun content here => ?_, fun ended => ?_⟩
  · by_cases begun : Pool.entriesOf i history = []
    · rcases untouched (by rw [begun]; rfl) with same | ⟨-, made⟩
      · rw [Disk.read, leaves.leadsTo, same] at here
        exact .inl here
      · rw [Disk.read, leaves.leadsTo, made] at here
        cases here
    · rw [Disk.read, leaves.leadsTo, touched (by simpa using begun)] at here
      obtain rfl := Option.some.inj here
      exact .inr ((filed i).front begun _)
  · rw [(filed i).whole ended] at touched
    rw [Disk.read, leaves.leadsTo, touched (by simp)]
    simp [rewrites, WriteStep.rewrite]

end History

/-- In whatever order messages are filed, nothing but their octets gets into the archive.  What is
filed at a place of its own is a beginning of the message at every moment, and stays there with all
its octets once it has been filed: two messages only share a place if they are filed for the same
list, at the same moment and under the same Message-ID, or if their paths lead to one place. -/
theorem archive_keeps [DecidableEq ι] (names : ∀ i, IsListName (filings i).list)
    (schedule : List ι) :
    let pool := (archivePool parse dir filings disk).after schedule
    OnlyFiles parse dir filings disk pool.state ∧
    ∀ i, HasOwnPlace parse dir filings disk i →
      (∀ j, (filings j).list = (filings i).list → (filings j).nanos = (filings i).nanos →
        (filings j).id parse = (filings i).id parse → j = i) →
      (∀ content, pool.state.read ((filings i).path parse dir) = some content →
        disk.read ((filings i).path parse dir) = some content ∨ content <+: (filings i).raw) ∧
      ((pool.thread i).result = some (.ok ()) →
        pool.state.read ((filings i).path parse dir) = some (filings i).raw) := by
  intro pool
  obtain ⟨history, leaves, logs⟩ := Pool.after_logs leaves_nil leaves_append
    (archivePool parse dir filings disk) (fun i => writeArchive_logs (filings i)) schedule
  have filed := fun i => (logs i).result
  refine ⟨onlyFiles_of_leaves leaves filed, fun i ownPlace others => ?_⟩
  apply read_of_alone leaves filed
  intro j same
  obtain ⟨list, nanos, id⟩ := (Filing.path_inj (names j) (names i)).mp (ownPlace j same)
  exact others j list nanos id

end

/-- Two messages at different moments.  The file system fails after two octets of the first one. -/
def twoFilings : Bool → Filing
  | false =>
    { list := "dev".toList
      raw := alicesNote
      nanos := 7
      writeFault := some { written := some 2 }
      writeError := "disk full".toList }
  | true => { list := "dev".toList, raw := alicesNote, nanos := 8 }

theorem archive_keeps_twoFilings :
    ((archivePool (authoredBy "Alice" "alice@example.com") "/archive".toList twoFilings
        emptyDisk).after [false, false, true, true, false, true]).state.read
      ((twoFilings true).path (authoredBy "Alice" "alice@example.com") "/archive".toList) =
        some alicesNote := by
  have names : ∀ i, IsListName (twoFilings i).list := by
    rintro (_ | _) <;> exact ⟨by decide, by decide⟩
  refine ((archive_keeps names _).2 true ?_ ?_).2 rfl
  · rintro (_ | _) same
    · exact absurd same (by decide +kernel)
    · rfl
  · rintro (_ | _) - nanos -
    · cases nanos
    · rfl

end Carriers
