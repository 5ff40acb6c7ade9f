import Carriers.ProofKit.Decoding
import Carriers.ProofKit.MasterFile

/-! The records of a master file (RFC 1035, 5), read one octet at a time.  The reader is a strict
one: an entry has its owner in full, with nothing escaped in it, and a file in which something else
stands is not read at all. -/

namespace Carriers.ProofKit.ZoneFile

open MasterFile

/-! ### Names -/

def dot : UInt8 := 0x2E

/-- The letters `A` to `Z` in lower case, as names are compared. -/
def lowerOctet (b : UInt8) : UInt8 := if 0x41 ≤ b ∧ b ≤ 0x5A then b + 0x20 else b

def lowerOctets (octets : Bytes) : Bytes := octets.map lowerOctet

/-- Labels of at most 63 octets with a dot behind each.  Of the first, `run` octets have been
read. -/
def labelsFit (run : Nat) : Bytes → Bool
  | [] => run == 0
  | b :: rest =>
    if b = dot then 1 ≤ run && run ≤ 63 && labelsFit 0 rest else labelsFit (run + 1) rest

/-- A name in full that can stand at the beginning of an entry as it is.  With the root label it has
255 octets at most, and a dollar sign would begin a control entry. -/
structure IsOwner (name : Bytes) : Prop where
  nonempty : name ≠ []
  record : name.head? ≠ some 0x24
  plain : ∀ b ∈ name, isDelimiter b = false ∧ b ≠ backslash
  labels : labelsFit 0 name = true
  short : name.length ≤ 254

instance (name : Bytes) : Decidable (IsOwner name) :=
  decidable_of_iff (name ≠ [] ∧ name.head? ≠ some 0x24 ∧
      (∀ b ∈ name, isDelimiter b = false ∧ b ≠ backslash) ∧ labelsFit 0 name = true ∧
      name.length ≤ 254)
    ⟨fun ⟨nonempty, record, plain, labels, short⟩ => ⟨nonempty, record, plain, labels, short⟩,
      fun h => ⟨h.nonempty, h.record, h.plain, h.labels, h.short⟩⟩

theorem labelsFit_behind {run : Nat} {front name : Bytes}
    (h : labelsFit run (front ++ dot :: name) = true) : labelsFit 0 name = true := by
  induction front generalizing run with
  | nil =>
    rw [List.nil_append, labelsFit, if_pos rfl] at h
    exact (Bool.and_eq_true_iff.mp h).2
  | cons b front ih =>
    rw [List.cons_append, labelsFit] at h
    split at h
    · exact ih (Bool.and_eq_true_iff.mp h).2
    · exact ih h

/-- What stands behind a dot of a name is a name again, unless it begins like a control entry. -/
theorem IsOwner.behind {front name : Bytes} (h : IsOwner (front ++ dot :: name))
    (nonempty : name ≠ []) (record : name.head? ≠ some 0x24) : IsOwner name := by
  refine ⟨nonempty, record, fun b mem => h.plain b ?_, labelsFit_behind h.labels, ?_⟩
  · exact List.mem_append_right _ (List.mem_cons_of_mem _ mem)
  · have short := h.short
    rw [List.length_append, List.length_cons] at short
    omega

/-- An octet that is no letter is the lower case of itself alone. -/
theorem lowerOctet_eq_iff {b c : UInt8} (upper : ¬(0x41 ≤ c ∧ c ≤ 0x5A))
    (lower : ¬(0x61 ≤ c ∧ c ≤ 0x7A)) : lowerOctet b = c ↔ b = c := by
  unfold lowerOctet
  split
  · rename_i isUpper
    simp only [UInt8.le_iff_toNat_le, UInt8.toNat_ofNat, ← UInt8.toNat_inj,
      UInt8.toNat_add] at upper lower isUpper ⊢
    omega
  · rfl

theorem isDelimiter_lowerOctet (b : UInt8) : isDelimiter (lowerOctet b) = isDelimiter b := by
  rw [Bool.eq_iff_iff]
  simp only [isDelimiter, Bool.or_eq_true, decide_eq_true_eq]
  simp [lowerOctet_eq_iff, lineFeed, quote]

theorem labelsFit_lowerOctets (run : Nat) (name : Bytes) :
    labelsFit run (lowerOctets name) = labelsFit run name := by
  induction name generalizing run with
  | nil => rfl
  | cons b name ih =>
    have isDot : lowerOctet b = dot ↔ b = dot := lowerOctet_eq_iff (by decide) (by decide)
    rw [lowerOctets, List.map_cons, labelsFit, labelsFit]
    simp only [isDot]
    rw [← lowerOctets, ih, ih]

theorem isOwner_lowerOctets {name : Bytes} : IsOwner (lowerOctets name) ↔ IsOwner name := by
  have dollar : (lowerOctets name).head? = some 0x24 ↔ name.head? = some 0x24 := by
    cases name with
    | nil => rfl
    | cons b name =>
      have same : lowerOctet b = 0x24 ↔ b = 0x24 := lowerOctet_eq_iff (by decide) (by decide)
      simpa [lowerOctets] using same
  have plain : (∀ b ∈ lowerOctets name, isDelimiter b = false ∧ b ≠ backslash) ↔
      ∀ b ∈ name, isDelimiter b = false ∧ b ≠ backslash := by
    have escape (b : UInt8) : lowerOctet b = backslash ↔ b = backslash :=
      lowerOctet_eq_iff (by decide) (by decide)
    simp [lowerOctets, isDelimiter_lowerOctet, escape]
  have length : (lowerOctets name).length = name.length := List.length_map _
  have labels := labelsFit_lowerOctets 0 name
  constructor
  · intro h
    exact ⟨mt (congrArg lowerOctets) h.nonempty, mt dollar.mpr h.record, plain.mp h.plain,
      labels ▸ h.labels, length ▸ h.short⟩
  · intro h
    exact ⟨mt List.map_eq_nil_iff.mp h.nonempty, mt dollar.mp h.record, plain.mpr h.plain,
      labels.trans h.labels, length.trans_le h.short⟩

/-- The letters that `lowerOctet` changes. -/
def upperOctet (b : UInt8) : Nat := if 0x41 ≤ b ∧ b ≤ 0x5A then 1 else 0

theorem countsAscii_upperOctet : CountsAscii upperOctet where
  long b long := by
    refine if_neg fun upper => ?_
    have most := UInt8.le_iff_toNat_le.mp upper.2
    have small : (0x5A : UInt8).toNat = 90 := rfl
    omega
  null := by decide

theorem lowerOctets_of_noUpper {octets : Bytes} (none : total upperOctet octets = 0) :
    lowerOctets octets = octets := by
  induction octets with
  | nil => rfl
  | cons b octets ih =>
    rw [total_cons, Nat.add_eq_zero_iff] at none
    have lower : lowerOctet b = b := by
      refine if_neg fun upper => ?_
      rw [upperOctet, if_pos upper] at none
      exact absurd none.1 (by decide)
    rw [lowerOctets, List.map_cons, lower, ← lowerOctets, ih none.2]

theorem lowerOctets_encodeChar (c : Char) :
    lowerOctets (String.utf8EncodeChar c) = String.utf8EncodeChar c.toLower := by
  by_cases upper : c.isUpper
  · have range : 65 ≤ c.toNat ∧ c.toNat ≤ 90 := by
      simpa [Char.isUpper, UInt32.le_iff_toNat_le] using upper
    have lower : c.toLower.toNat = c.toNat + 32 := by
      rw [Char.toLower_eq_of_isUpper upper, Char.toNat_ofNat, if_pos (.inl (by omega))]
    have encoded (d : Char) (ascii : d.toNat < 0x80) :
        String.utf8EncodeChar d = [UInt8.ofNat d.toNat] := by
      rcases utf8EncodeChar_shape d with ⟨-, encoded⟩ | ⟨-, -, -, long, -⟩
      · exact encoded
      · omega
    rw [encoded c (by omega), encoded c.toLower (by omega), lower]
    have isUpper : 0x41 ≤ UInt8.ofNat c.toNat ∧ UInt8.ofNat c.toNat ≤ 0x5A := by
      rw [UInt8.le_iff_toNat_le, UInt8.le_iff_toNat_le,
        UInt8.toNat_ofNat_of_lt' (by show c.toNat < 256; omega)]
      exact range
    rw [lowerOctets, List.map_singleton, lowerOctet, if_pos isUpper, UInt8.ofNat_add]
    rfl
  · rw [Char.toLower_eq_of_not_isUpper upper]
    apply lowerOctets_of_noUpper
    by_cases long : 0x80 ≤ c.toNat
    · exact total_encodeChar countsAscii_upperOctet long
    · rcases utf8EncodeChar_shape c with ⟨ascii, encoded⟩ | ⟨-, -, -, other, -⟩
      · have other : ¬(0x41 ≤ UInt8.ofNat c.toNat ∧ UInt8.ofNat c.toNat ≤ 0x5A) := by
          rw [UInt8.le_iff_toNat_le, UInt8.le_iff_toNat_le,
            UInt8.toNat_ofNat_of_lt' (by show c.toNat < 256; omega)]
          simpa [Char.isUpper, UInt32.le_iff_toNat_le] using upper
        rw [encoded, total_cons, upperOctet, if_neg other]
        rfl
      · omega

/-- Names are the same up to case if their octets are. -/
theorem lowerOctets_encodeUtf8 (text : Text) :
    lowerOctets (encodeUtf8 text) = encodeUtf8 (asciiLower text) := by
  induction text with
  | nil => rfl
  | cons c text ih =>
    rw [encodeUtf8_cons, lowerOctets, List.map_append, ← lowerOctets, ← lowerOctets, ih,
      lowerOctets_encodeChar]
    rfl

theorem lowerOctets_same {first second : Text} :
    lowerOctets (encodeUtf8 first) = lowerOctets (encodeUtf8 second) ↔
      asciiLower first = asciiLower second := by
  rw [lowerOctets_encodeUtf8, lowerOctets_encodeUtf8]
  exact encodeUtf8_injective.eq_iff

/-! ### The reader -/

/-- The words of an entry behind its owner, and the strings. -/
structure Record where
  owner : Bytes
  data : List Bytes
  deriving DecidableEq

def isTtl (word : Bytes) : Bool := word ≠ [] && word.all isDigit

def isInternet (word : Bytes) : Bool := lowerOctets word = [0x69, 0x6E]

/-- What is left of the words when one of a kind is passed over, if it is there. -/
def passOver (kind : Bytes → Bool) : List Bytes → List Bytes
  | [] => []
  | word :: words => if kind word then words else word :: words

/-- The type and what belongs to it.  TTL and class can be left out or change places. -/
def Record.typed (record : Record) : List Bytes :=
  if record.data.head?.any isTtl then passOver isInternet (record.data.drop 1)
  else passOver isTtl (passOver isInternet record.data)

/-- The strings of a TXT record. -/
def Record.txt (record : Record) : Option (List Bytes) :=
  match record.typed with
  | [] => none
  | type :: strings => if lowerOctets type = [0x74, 0x78, 0x74] then some strings else none

/-- An entry that can be loaded: it has a type, a TXT record has a string, and no string is longer
than its length octet can say. -/
def Record.isComplete (record : Record) : Bool :=
  record.typed ≠ [] && record.txt ≠ some [] && record.data.all fun word => word.length ≤ 255

/-- Where the reader stands: at the beginning of a line, in a comment there, in an owner of which
`read` has been read, or behind an owner. -/
inductive ZonePlace where
  | margin
  | remark
  | naming (read : Bytes)
  | entry (owner : Bytes) (depth : Nat) (place : Place) (words : List Bytes)

/-- The word that an octet ends together with the entry. -/
def lastWord (depth : Nat) (b : UInt8) (place : Place) : Option (Option Bytes) :=
  if depth = 0 ∧ b = lineFeed then place.finish else none

def complete (record : Record) : Option Record :=
  if record.isComplete then some record else none

/-- One octet: the place after it, and the record that it ends. -/
def step (b : UInt8) : ZonePlace → Option (ZonePlace × Option Record)
  | .margin =>
    if b = lineFeed then some (.margin, none)
    else if b = 0x3B then some (.remark, none)
    else if isDelimiter b then none
    else some (.naming [b], none)
  | .remark => some (if b = lineFeed then .margin else .remark, none)
  | .naming read =>
    if isDelimiter b then
      if b ≠ lineFeed ∧ IsOwner read then
        (start 0 b).map fun next => (.entry read next.1 next.2 [], none)
      else none
    else some (.naming (read ++ [b]), none)
  | .entry owner depth place words =>
    match lastWord depth b place with
    | some word => (complete ⟨owner, words ++ word.toList⟩).map fun record => (.margin, some record)
    | none => (MasterFile.step depth b place).map fun next =>
      (.entry owner next.1 next.2.1 (words ++ next.2.2.toList), none)

/-- The record that the end of the file ends. -/
def ZonePlace.finish : ZonePlace → Option (List Record)
  | .margin | .remark => some []
  | .naming _ => none
  | .entry owner depth place words =>
    if depth = 0 then
      place.finish.bind fun word =>
        (complete ⟨owner, words ++ word.toList⟩).map fun record => [record]
    else none

def readZoneFrom (place : ZonePlace) : Bytes → Option (List Record)
  | [] => place.finish
  | b :: rest =>
    match step b place with
    | none => none
    | some (place, record) => (readZoneFrom place rest).map (record.toList ++ ·)

/-- The records of a file. -/
def readZone (octets : Bytes) : Option (List Record) := readZoneFrom .margin octets

-- a. in txt "b" c
example : readZone [0x61, 0x2E, 0x20, 0x69, 0x6E, 0x20, 0x74, 0x78, 0x74, 0x20, 0x22, 0x62, 0x22,
    0x20, 0x63, 0x0A] =
      some [⟨[0x61, 0x2E], [[0x69, 0x6E], [0x74, 0x78, 0x74], [0x62], [0x63]]⟩] := by
  decide +kernel

/-- The values of the TXT records under a name. -/
def txtUnder (records : List Record) (name : Bytes) : List Bytes :=
  ((records.filter fun record => lowerOctets record.owner = lowerOctets name).filterMap
    Record.txt).map List.flatten

theorem txtUnder_append (first second : List Record) (name : Bytes) :
    txtUnder (first ++ second) name = txtUnder first name ++ txtUnder second name := by
  simp [txtUnder]

theorem txtUnder_eq_nil {records : List Record} {name : Bytes}
    (other : ∀ record ∈ records, record.owner.length ≠ name.length) :
    txtUnder records name = [] := by
  have none : (records.filter fun record => lowerOctets record.owner = lowerOctets name) = [] := by
    refine List.filter_eq_nil_iff.mpr fun record mem same => other record mem ?_
    simpa [lowerOctets] using congrArg List.length (of_decide_eq_true same)
  rw [txtUnder, none]
  rfl

/-! ### Pieces of a file -/

/-- The octets lead from one place to another and end these records, whatever comes behind. -/
def Reads (place : ZonePlace) (octets : Bytes) (next : ZonePlace) (records : List Record) : Prop :=
  ∀ rest, readZoneFrom place (octets ++ rest) = (readZoneFrom next rest).map (records ++ ·)

theorem Reads.nil (place : ZonePlace) : Reads place [] place [] := by
  intro rest
  simp

theorem Reads.append {first second third : ZonePlace} {octets more : Bytes}
    {records others : List Record} (h : Reads first octets second records)
    (h' : Reads second more third others) :
    Reads first (octets ++ more) third (records ++ others) := by
  intro rest
  rw [List.append_assoc, h, h', Option.map_map]
  simp [Function.comp_def]

/-- One octet that ends no record. -/
theorem Reads.octet {place next : ZonePlace} {b : UInt8}
    (stepped : step b place = some (next, none)) : Reads place [b] next [] := by
  intro rest
  simp [readZoneFrom, stepped]

/-- Octets each of which is added to what has been read. -/
theorem Reads.octets {place : Bytes → ZonePlace} {plain : UInt8 → Prop}
    (stays : ∀ b read, plain b → step b (place read) = some (place (read ++ [b]), none))
    {octets : Bytes} (all : ∀ b ∈ octets, plain b) (read : Bytes) :
    Reads (place read) octets (place (read ++ octets)) [] := by
  induction octets generalizing read with
  | nil =>
    rw [List.append_nil]
    exact .nil _
  | cons b octets ih =>
    obtain ⟨first, all⟩ := List.forall_mem_cons.mp all
    have later := ih all (read ++ [b])
    rw [List.append_assoc] at later
    exact (Reads.octet (stays b read first)).append later

theorem reads_blank : Reads .margin [lineFeed] .margin [] := .octet rfl

theorem reads_remark {line : Bytes} (oneLine : lineFeed ∉ line) :
    Reads .margin (0x3B :: line ++ [lineFeed]) .margin [] := by
  have remark : Reads .remark line .remark [] := by
    induction line with
    | nil => exact .nil _
    | cons b line ih =>
      obtain ⟨other, oneLine⟩ := not_or.mp (mt List.mem_cons.mpr oneLine)
      have stays : step b .remark = some (.remark, none) := by
        rw [step, if_neg (Ne.symm other)]
      exact (Reads.octet stays).append (ih oneLine)
  have opened : Reads .margin [0x3B] .remark [] := .octet rfl
  exact (opened.append remark).append (.octet rfl)

/-- The owner of an entry, with a space behind it. -/
theorem reads_owner {name : Bytes} (isOwner : IsOwner name) :
    Reads .margin (name ++ [0x20]) (.entry name 0 .blank []) [] := by
  have stays (b : UInt8) (read : Bytes) (plain : isDelimiter b = false) :
      step b (.naming read) = some (.naming (read ++ [b]), none) := by
    rw [step, if_neg (by simp [plain])]
  have closes : Reads (.naming name) [0x20] (.entry name 0 .blank []) [] := by
    refine .octet ?_
    rw [step, if_pos (by decide), if_pos ⟨by decide, isOwner⟩]
    rfl
  obtain ⟨b, octets, rfl⟩ := List.exists_cons_of_ne_nil isOwner.nonempty
  have plain (c : UInt8) (mem : c ∈ b :: octets) := (isOwner.plain c mem).1
  have opens : step b .margin = some (.naming [b], none) := by
    have first := plain b List.mem_cons_self
    have noEnd : b ≠ lineFeed := by
      rintro rfl
      exact absurd first (by decide)
    have noRemark : b ≠ 0x3B := by
      rintro rfl
      exact absurd first (by decide)
    rw [step, if_neg noEnd, if_neg noRemark, if_neg (by simp [first])]
  have named : Reads .margin (b :: octets) (.naming (b :: octets)) [] :=
    (Reads.octet opens).append
      (.octets stays (fun c mem => plain c (List.mem_cons_of_mem _ mem)) [b])
  exact named.append closes

section
variable {owner : Bytes} {depth : Nat} {words : List Bytes}

/-- An octet of an entry that does not end it. -/
theorem step_entry {depth' : Nat} {place place' : Place} {ended : Option Bytes} {b : UInt8}
    (goesOn : lastWord depth b place = none)
    (stepped : MasterFile.step depth b place = some (depth', place', ended)) :
    step b (.entry owner depth place words) =
      some (.entry owner depth' place' (words ++ ended.toList), none) := by
  rw [step, goesOn]
  simp [stepped]

/-- An octet between words, or one that begins a word. -/
theorem step_noWord {depth' : Nat} {place place' : Place} {b : UInt8}
    (goesOn : lastWord depth b place = none)
    (stepped : MasterFile.step depth b place = some (depth', place', none)) :
    step b (.entry owner depth place words) = some (.entry owner depth' place' words, none) := by
  rw [step_entry goesOn stepped, Option.toList_none, List.append_nil]

theorem lastWord_ne {b : UInt8} (other : b ≠ lineFeed) (place : Place) :
    lastWord depth b place = none :=
  if_neg fun ends => other ends.2

theorem start_plain {b : UInt8} (string : isDelimiter b = false) (noEscape : b ≠ backslash) :
    start depth b = some (depth, .string false [b]) := by
  have other {c : UInt8} (delimits : isDelimiter c = true) : b ≠ c := by
    rintro rfl
    rw [string] at delimits
    contradiction
  rw [start, if_neg (other (by decide)), if_neg (other (by decide)), if_neg (other (by decide)),
    if_neg (other (by decide)), if_neg (by simp [string]), if_neg noEscape]

/-- A word without quotes, with a space behind it. -/
theorem reads_word {word : Bytes} (nonempty : word ≠ [])
    (plain : ∀ b ∈ word, isDelimiter b = false ∧ b ≠ backslash) :
    Reads (.entry owner depth .blank words) (word ++ [0x20])
      (.entry owner depth .blank (words ++ [word])) [] := by
  have noEnd {b : UInt8} (string : isDelimiter b = false) : b ≠ lineFeed := by
    rintro rfl
    exact absurd string (by decide)
  have stays (b : UInt8) (read : Bytes) (plain : isDelimiter b = false ∧ b ≠ backslash) :
      step b (.entry owner depth (.string false read) words) =
        some (.entry owner depth (.string false (read ++ [b])) words, none) := by
    refine step_noWord (lastWord_ne (noEnd plain.1) _) ?_
    rw [MasterFile.step, if_neg (by simp [plain.1]), if_neg plain.2]
  obtain ⟨b, octets, rfl⟩ := List.exists_cons_of_ne_nil nonempty
  obtain ⟨⟨string, noEscape⟩, plain⟩ := List.forall_mem_cons.mp plain
  have begins : MasterFile.step depth b .blank = some (depth, .string false [b], none) := by
    rw [MasterFile.step, start_plain string noEscape]
    rfl
  have ends : MasterFile.step depth 0x20 (.string false (b :: octets)) =
      some (depth, .blank, some (b :: octets)) := rfl
  have opened : Reads (.entry owner depth .blank words) [b]
      (.entry owner depth (.string false [b]) words) [] :=
    .octet (step_noWord (lastWord_ne (noEnd string) _) begins)
  have closed : Reads (.entry owner depth (.string false (b :: octets)) words) [0x20]
      (.entry owner depth .blank (words ++ [b :: octets])) [] :=
    .octet (step_entry (lastWord_ne (by decide) _) ends)
  exact (opened.append (.octets stays plain [b])).append closed

/-- A string in quotes. -/
theorem reads_quoted {string : Bytes} (literal : ∀ b ∈ string, Literal b) :
    Reads (.entry owner depth .blank words) ([quote] ++ string ++ [quote])
      (.entry owner depth .blank (words ++ [string])) [] := by
  have noEnd (b : UInt8) (read : Bytes) : lastWord depth b (.string true read) = none := by
    rw [lastWord]
    split <;> rfl
  have stays (b : UInt8) (read : Bytes) (plain : Literal b) :
      step b (.entry owner depth (.string true read) words) =
        some (.entry owner depth (.string true (read ++ [b])) words, none) := by
    refine step_noWord (noEnd b read) ?_
    rw [MasterFile.step, if_neg plain.1, if_neg plain.2]
  have begins : MasterFile.step depth quote .blank = some (depth, .string true [], none) := rfl
  have ends : MasterFile.step depth quote (.string true string) =
      some (depth, .blank, some string) := rfl
  have opened : Reads (.entry owner depth .blank words) [quote]
      (.entry owner depth (.string true []) words) [] :=
    .octet (step_noWord (lastWord_ne (by decide) _) begins)
  have closed : Reads (.entry owner depth (.string true string) words) [quote]
      (.entry owner depth .blank (words ++ [string])) [] :=
    .octet (step_entry (noEnd quote string) ends)
  exact (opened.append (.octets stays literal [])).append closed

/-- An octet between words. -/
theorem Reads.between {depth' : Nat} {b : UInt8} (goesOn : lastWord depth b .blank = none)
    (started : start depth b = some (depth', .blank)) :
    Reads (.entry owner depth .blank words) [b] (.entry owner depth' .blank words) [] := by
  have stepped : MasterFile.step depth b .blank = some (depth', .blank, none) := by
    rw [MasterFile.step, started]
    rfl
  exact .octet (step_noWord goesOn stepped)

/-- The line feed that ends an entry. -/
theorem reads_entryEnd (complete : (Record.mk owner words).isComplete = true) :
    Reads (.entry owner 0 .blank words) [lineFeed] .margin [⟨owner, words⟩] := by
  intro rest
  have ends : step lineFeed (.entry owner 0 .blank words) =
      some (.margin, some ⟨owner, words⟩) := by
    have last : lastWord 0 lineFeed .blank = some none := rfl
    simp [step, last, ZoneFile.complete, complete]
  simp [readZoneFrom, ends]

end

/-! ### Texts -/

/-- The text is so many lines of a file, with these records on them. -/
def ReadsText (text : Text) (records : List Record) : Prop :=
  Reads .margin (encodeUtf8 text) .margin records

theorem ReadsText.append {text more : Text} {records others : List Record}
    (h : ReadsText text records) (h' : ReadsText more others) :
    ReadsText (text ++ more) (records ++ others) := by
  rw [ReadsText, encodeUtf8_append]
  exact Reads.append h h'

theorem ReadsText.readZone {text : Text} {records : List Record} (h : ReadsText text records)
    (rest : Text) : ZoneFile.readZone (encodeUtf8 (text ++ rest)) =
      (ZoneFile.readZone (encodeUtf8 rest)).map (records ++ ·) := by
  rw [encodeUtf8_append]
  exact h _

theorem ReadsText.readZone_eq {text : Text} {records : List Record} (h : ReadsText text records) :
    ZoneFile.readZone (encodeUtf8 text) = some records := by
  have whole := h.readZone []
  have empty : ZoneFile.readZone (encodeUtf8 []) = some [] := rfl
  rwa [List.append_nil, empty, Option.map_some, List.append_nil] at whole

theorem readsText_blank : ReadsText ['\n'] [] := reads_blank

/-- A comment on a line of its own. -/
theorem readsText_remark {line : Text} (oneLine : '\n' ∉ line) :
    ReadsText (';' :: line ++ ['\n']) [] := by
  have octets : encodeUtf8 (';' :: line ++ ['\n']) = 0x3B :: encodeUtf8 line ++ [lineFeed] := by
    rw [List.cons_append, encodeUtf8_cons, encodeUtf8_append]
    rfl
  rw [ReadsText, octets]
  exact reads_remark fun mem => oneLine (mem_of_ascii_octet (by decide) mem)

theorem readsText_heading {text : Text} (line : Text) (written : text = ';' :: line ++ ['\n'])
    (oneLine : '\n' ∉ line) : ReadsText text [] := by
  rw [written]
  exact readsText_remark oneLine

theorem readsText_remarks {lines : List Text} (oneLine : ∀ line ∈ lines, '\n' ∉ line) :
    ReadsText (lines.flatMap fun line => ';' :: line ++ ['\n']) [] := by
  induction lines with
  | nil => exact .nil _
  | cons line lines ih =>
    obtain ⟨first, oneLine⟩ := List.forall_mem_cons.mp oneLine
    exact (readsText_remark first).append (ih oneLine)

/-! ### Owners that are read -/

/-- The owner of an entry under way is a name. -/
def ZonePlace.Named : ZonePlace → Prop
  | .entry owner _ _ _ => IsOwner owner
  | _ => True

theorem isOwner_complete {record other : Record} (h : complete record = some other)
    (isOwner : IsOwner record.owner) : IsOwner other.owner := by
  rw [complete] at h
  split at h
  · cases h
    exact isOwner
  · cases h

theorem named_step {b : UInt8} {place next : ZonePlace} {ended : Option Record}
    (named : place.Named) (h : step b place = some (next, ended)) :
    next.Named ∧ ∀ record ∈ ended, IsOwner record.owner := by
  cases place with
  | margin =>
    rw [step] at h
    split_ifs at h
    all_goals
      cases h
      exact ⟨trivial, nofun⟩
  | remark =>
    cases h
    refine ⟨?_, nofun⟩
    split <;> trivial
  | naming read =>
    rw [step] at h
    split_ifs at h with delimits isOwner
    · obtain ⟨next, -, same⟩ := Option.map_eq_some_iff.mp h
      cases same
      exact ⟨isOwner.2, nofun⟩
    · cases h
      exact ⟨trivial, nofun⟩
  | entry owner depth place words =>
    rw [step] at h
    split at h
    · obtain ⟨record, completed, same⟩ := Option.map_eq_some_iff.mp h
      cases same
      refine ⟨trivial, fun other mem => ?_⟩
      cases mem
      exact isOwner_complete completed named
    · obtain ⟨next, -, same⟩ := Option.map_eq_some_iff.mp h
      cases same
      exact ⟨named, nofun⟩

theorem named_finish {place : ZonePlace} {records : List Record} (named : place.Named)
    (h : place.finish = some records) : ∀ record ∈ records, IsOwner record.owner := by
  cases place with
  | margin | remark =>
    cases h
    exact List.forall_mem_nil _
  | naming read => cases h
  | entry owner depth place words =>
    rw [ZonePlace.finish] at h
    split at h
    · obtain ⟨word, -, completed⟩ := Option.bind_eq_some_iff.mp h
      obtain ⟨record, whole, rfl⟩ := Option.map_eq_some_iff.mp completed
      exact List.forall_mem_singleton.mpr (isOwner_complete whole named)
    · cases h

theorem named_readZoneFrom {place : ZonePlace} {octets : Bytes} {records : List Record}
    (named : place.Named) (h : readZoneFrom place octets = some records) :
    ∀ record ∈ records, IsOwner record.owner := by
  induction octets generalizing place records with
  | nil => exact named_finish named h
  | cons b octets ih =>
    rw [readZoneFrom] at h
    split at h
    · cases h
    · rename_i next ended stepped
      obtain ⟨later, read, rfl⟩ := Option.map_eq_some_iff.mp h
      obtain ⟨named, isOwner⟩ := named_step named stepped
      refine List.forall_mem_append.mpr ⟨fun record mem => ?_, ih named read⟩
      exact isOwner record (Option.mem_toList.mp mem)

/-- Every record of a file has a name in full. -/
theorem isOwner_readZone {octets : Bytes} {records : List Record}
    (h : readZone octets = some records) : ∀ record ∈ records, IsOwner record.owner :=
  named_readZoneFrom (show ZonePlace.margin.Named from trivial) h

/-- So has every record that is found. -/
theorem isOwner_of_txtUnder {octets name : Bytes} {records : List Record}
    (h : readZone octets = some records) (found : txtUnder records name ≠ []) : IsOwner name := by
  obtain ⟨value, mem⟩ := List.exists_mem_of_ne_nil _ found
  obtain ⟨strings, mem, -⟩ := List.mem_map.mp mem
  obtain ⟨record, mem, -⟩ := List.mem_filterMap.mp mem
  obtain ⟨mem, same⟩ := List.mem_filter.mp mem
  have isOwner := isOwner_readZone h record mem
  rwa [← isOwner_lowerOctets, of_decide_eq_true same, isOwner_lowerOctets] at isOwner

end Carriers.ProofKit.ZoneFile
