import Carriers.ProofKit.Text

/-! The character strings of a master file entry (RFC 1035, 5.1), read one octet at a time: strings
with and without quotes, escapes, comments, and parentheses that group the data of several lines. -/

namespace Carriers.ProofKit.MasterFile

def quote : UInt8 := 0x22
def backslash : UInt8 := 0x5C
def lineFeed : UInt8 := 0x0A

/-- Where the reader stands.  `read` is what it has read of the string it is in, and `digits` what
it has read of an octet that is written in decimal. -/
inductive Place where
  | blank
  | comment
  | string (quoted : Bool) (read : Bytes)
  | escape (quoted : Bool) (read : Bytes)
  | decimal (quoted : Bool) (read : Bytes) (digits : Bytes)

def isDigit (b : UInt8) : Bool := 0x30 ≤ b.toNat && b.toNat ≤ 0x39

/-- White space, parentheses, quotes and semicolons, which end a string without quotes. -/
def isDelimiter (b : UInt8) : Bool :=
  b = 0x20 || b = 0x09 || b = 0x0D || b = lineFeed || b = 0x28 || b = 0x29 || b = 0x3B || b = quote

/-- An octet between strings: the depth of parentheses and the place after it. -/
def start (depth : Nat) (b : UInt8) : Option (Nat × Place) :=
  if b = 0x28 then some (depth + 1, .blank)
  else if b = 0x29 then if depth = 0 then none else some (depth - 1, .blank)
  else if b = 0x3B then some (depth, .comment)
  else if b = quote then some (depth, .string true [])
  else if isDelimiter b then some (depth, .blank)
  else if b = backslash then some (depth, .escape false [])
  else some (depth, .string false [b])

/-- The octet that three digits denote. -/
def decimalOctet (d e f : UInt8) : Option UInt8 :=
  let code := 100 * (d.toNat - 0x30) + 10 * (e.toNat - 0x30) + (f.toNat - 0x30)
  if isDigit d && isDigit e && isDigit f && code < 256 then some (UInt8.ofNat code) else none

/-- One octet: the depth and the place after it, and the string that it ends. -/
def step (depth : Nat) (b : UInt8) : Place → Option (Nat × Place × Option Bytes)
  | .blank => (start depth b).map fun next => (next.1, next.2, none)
  | .comment => some (depth, if b = lineFeed then .blank else .comment, none)
  | .string true read =>
    if b = quote then some (depth, .blank, some read)
    else if b = backslash then some (depth, .escape true read, none)
    else some (depth, .string true (read ++ [b]), none)
  | .string false read =>
    if isDelimiter b then (start depth b).map fun next => (next.1, next.2, some read)
    else if b = backslash then some (depth, .escape false read, none)
    else some (depth, .string false (read ++ [b]), none)
  | .escape quoted read =>
    if isDigit b then some (depth, .decimal quoted read [b], none)
    else some (depth, .string quoted (read ++ [b]), none)
  | .decimal quoted read [d] => some (depth, .decimal quoted read [d, b], none)
  | .decimal quoted read [d, e] =>
    (decimalOctet d e b).map fun octet => (depth, .string quoted (read ++ [octet]), none)
  | .decimal _ _ _ => none

/-- The string that the end of an entry ends.  Quotes have to be closed before. -/
def Place.finish : Place → Option (Option Bytes)
  | .blank | .comment => some none
  | .string false read => some (some read)
  | _ => none

/-- The strings from a place to the end of the entry, which a line feed outside of parentheses and
quotes ends, and which has to be the end of the text. -/
def readFrom (depth : Nat) (place : Place) : Bytes → Option (List Bytes)
  | [] => if depth = 0 then place.finish.map Option.toList else none
  | b :: rest =>
    if depth = 0 ∧ b = lineFeed ∧ place.finish.isSome then
      if rest = [] then place.finish.map Option.toList else none
    else
      match step depth b place with
      | none => none
      | some (depth, place, ended) => (readFrom depth place rest).map (ended.toList ++ ·)

/-- The strings of a text that is one entry. -/
def readStrings (text : Bytes) : Option (List Bytes) := readFrom 0 .blank text

-- ( "a\"b" ; c
--   \101 )
example : readStrings [0x28, 0x22, 0x61, 0x5C, 0x22, 0x62, 0x22, 0x3B, 0x63, 0x0A,
    0x5C, 0x31, 0x30, 0x31, 0x29, 0x0A] = some [[0x61, 0x22, 0x62], [0x65]] := by decide

/-! ### Quoted strings -/

/-- An octet that stands for itself between quotes. -/
def Literal (b : UInt8) : Prop := b ≠ quote ∧ b ≠ backslash

/-- Literal octets are read up to the closing quote. -/
theorem readFrom_quoted {octets : Bytes} (literal : ∀ b ∈ octets, Literal b) (depth : Nat)
    (read rest : Bytes) :
    readFrom depth (.string true read) (octets ++ quote :: rest) =
      (readFrom depth .blank rest).map ((read ++ octets) :: ·) := by
  induction octets generalizing read with
  | nil => simp [readFrom, step, Place.finish]
  | cons b octets ih =>
    obtain ⟨noQuote, noEscape⟩ := literal b List.mem_cons_self
    have later := ih (fun b member => literal b (List.mem_cons_of_mem _ member)) (read ++ [b])
    simp only [List.cons_append, readFrom, step, Place.finish, Option.isSome_none, and_false,
      Bool.false_eq_true, if_false, noQuote, noEscape, Option.toList_none, List.nil_append,
      Option.map_id_fun', id]
    rw [later, List.append_assoc, List.singleton_append]

/-! ### Escapes -/

/-- What an octet of a string is worth: quotes and backslashes have to be escaped. -/
def worth (b : UInt8) : Nat :=
  if b = quote then 1 else if b = backslash then 3 else if b = 0x39 then 1 else 0

/-- What an octet of the text costs.  A backslash that is written in decimal takes a `9` with it. -/
def cost (b : UInt8) : Nat := if b = backslash then 2 else if b = 0x39 then 1 else 0

/-- What a place has to show for the octets read so far. -/
def Place.worth : Place → Nat
  | .blank | .comment => 0
  | .string _ read => total MasterFile.worth read
  | .escape _ read => total MasterFile.worth read + 2
  | .decimal _ read digits => total MasterFile.worth read + 2 + total cost digits

theorem worth_le_cost {b : UInt8} (literal : Literal b) : worth b ≤ cost b := by
  rw [worth, cost, if_neg literal.1, if_neg literal.2, if_neg literal.2]

theorem worth_le_escape (b : UInt8) : worth b ≤ 2 + cost b := by
  unfold worth cost
  split_ifs <;> omega

theorem literal_of_not_delimiter {b : UInt8} (string : isDelimiter b = false)
    (noEscape : b ≠ backslash) : Literal b := by
  refine ⟨fun isQuote => ?_, noEscape⟩
  rw [isQuote] at string
  exact absurd string (by decide)

theorem start_worth {depth depth' : Nat} {b : UInt8} {place : Place}
    (h : start depth b = some (depth', place)) : place.worth ≤ cost b := by
  unfold start at h
  split_ifs at h with h1 h2 h3 h4 h5 h6 h7
  all_goals
    obtain ⟨rfl, rfl⟩ := Prod.mk.inj (Option.some.inj h)
  · exact Nat.zero_le _
  · exact Nat.zero_le _
  · exact Nat.zero_le _
  · exact Nat.zero_le _
  · exact Nat.zero_le _
  · rw [h7]
    decide
  · exact worth_le_cost (literal_of_not_delimiter (by simpa using h6) h7)

/-- The only octet of the three digits `092` is a backslash, and it takes a `9`. -/
theorem decimalOctet_worth {d e f octet : UInt8} (h : decimalOctet d e f = some octet) :
    worth octet ≤ 2 + (cost d + cost e + cost f) := by
  simp only [decimalOctet] at h
  split_ifs at h with valid
  have written : UInt8.ofNat (100 * (d.toNat - 0x30) + 10 * (e.toNat - 0x30) + (f.toNat - 0x30)) =
      octet := Option.some.inj h
  simp only [Bool.and_eq_true, isDigit, decide_eq_true_eq] at valid
  by_cases isBackslash : octet = backslash
  · have code := congrArg UInt8.toNat (written.trans isBackslash)
    rw [UInt8.toNat_ofNat_of_lt' valid.2] at code
    have nine : e.toNat = 0x39 := by
      have value : backslash.toNat = 92 := rfl
      omega
    have isNine : e = 0x39 := UInt8.toNat_inj.mp nine
    have costs : cost e = 1 := by
      rw [isNine]
      rfl
    have most : worth octet = 3 := by
      rw [isBackslash]
      rfl
    omega
  · have little : worth octet ≤ 1 := by
      unfold worth
      split_ifs <;> omega
    omega

theorem total_concat (count : UInt8 → Nat) (octets : Bytes) (b : UInt8) :
    total count (octets ++ [b]) = total count octets + count b := by
  rw [total_append, total_cons]
  rfl

/-- A step that ends no string. -/
theorem worth_of_goesOn {depth depth' bound : Nat} {next place' : Place} {ended : Option Bytes}
    (h : (depth, next, none) = (depth', place', ended)) (le : next.worth ≤ bound) :
    total worth ended.toList.flatten + place'.worth ≤ bound := by
  obtain ⟨-, rfl, rfl⟩ : depth = depth' ∧ next = place' ∧ none = ended := by simpa using h
  have nothing : total worth (none : Option Bytes).toList.flatten = 0 := rfl
  omega

/-- One octet ends no more than the place has to show and the octet costs. -/
theorem step_worth {depth depth' : Nat} {b : UInt8} {place place' : Place} {ended : Option Bytes}
    (h : step depth b place = some (depth', place', ended)) :
    total worth ended.toList.flatten + place'.worth ≤ place.worth + cost b := by
  cases place with
  | blank =>
    obtain ⟨⟨depth, next⟩, started, same⟩ := Option.map_eq_some_iff.mp h
    apply worth_of_goesOn same
    exact (start_worth started).trans (Nat.le_add_left _ _)
  | comment =>
    apply worth_of_goesOn (Option.some.inj h)
    split
    · exact Nat.zero_le _
    · exact Nat.zero_le _
  | string quoted read =>
    have escapes : b = backslash → cost b = 2 := by
      rintro rfl
      rfl
    cases quoted with
    | true =>
      simp only [step] at h
      split_ifs at h with closes escape
      · obtain ⟨-, rfl, rfl⟩ : depth = depth' ∧ _ ∧ some read = ended := by simpa using h
        simp [Place.worth]
      · apply worth_of_goesOn (Option.some.inj h)
        have pays := escapes escape
        simp only [Place.worth]
        omega
      · apply worth_of_goesOn (Option.some.inj h)
        have pays := worth_le_cost ⟨closes, escape⟩
        simp only [Place.worth, total_concat]
        omega
    | false =>
      simp only [step] at h
      split_ifs at h with ends escape
      · obtain ⟨⟨depth, next⟩, started, same⟩ := Option.map_eq_some_iff.mp h
        obtain ⟨-, rfl, rfl⟩ : depth = depth' ∧ next = place' ∧ some read = ended := by
          simpa using same
        have pays := start_worth started
        show total worth [read].flatten + next.worth ≤ total worth read + cost b
        rw [List.flatten_singleton]
        omega
      · apply worth_of_goesOn (Option.some.inj h)
        have pays := escapes escape
        simp only [Place.worth]
        omega
      · apply worth_of_goesOn (Option.some.inj h)
        have pays := worth_le_cost (literal_of_not_delimiter (by simpa using ends) escape)
        simp only [Place.worth, total_concat]
        omega
  | escape quoted read =>
    simp only [step] at h
    split_ifs at h with digit
    · apply worth_of_goesOn (Option.some.inj h)
      simp [Place.worth, total]
    · apply worth_of_goesOn (Option.some.inj h)
      have pays := worth_le_escape b
      simp only [Place.worth, total_concat]
      omega
  | decimal quoted read digits =>
    rcases digits with _ | ⟨d, _ | ⟨e, _ | ⟨f, digits⟩⟩⟩
    · cases h
    · apply worth_of_goesOn (Option.some.inj h)
      simp [Place.worth, total]
      omega
    · obtain ⟨octet, written, same⟩ := Option.map_eq_some_iff.mp h
      apply worth_of_goesOn same
      have pays := decimalOctet_worth written
      simp only [Place.worth, total_concat, total_cons]
      show total worth read + _ ≤ total worth read + 2 + (cost d + (cost e + 0)) + cost b
      omega
    · cases h

theorem finish_worth {place : Place} {ended : Option Bytes} (h : place.finish = some ended) :
    total worth ended.toList.flatten ≤ place.worth := by
  cases place with
  | blank | comment =>
    cases h
    exact Nat.zero_le _
  | string quoted read =>
    cases quoted with
    | true => cases h
    | false =>
      cases h
      simp [Place.worth]
  | escape | decimal => cases h

/-- The strings that are read are worth no more than the text costs. -/
theorem readFrom_worth {depth : Nat} {place : Place} {octets : Bytes} {strings : List Bytes}
    (h : readFrom depth place octets = some strings) :
    total worth strings.flatten ≤ place.worth + total cost octets := by
  induction octets generalizing depth place strings with
  | nil =>
    simp only [readFrom] at h
    split_ifs at h
    obtain ⟨ended, finished, rfl⟩ := Option.map_eq_some_iff.mp h
    exact finish_worth finished
  | cons b octets ih =>
    rw [readFrom] at h
    split_ifs at h
    · obtain ⟨ended, finished, rfl⟩ := Option.map_eq_some_iff.mp h
      exact (finish_worth finished).trans (Nat.le_add_right _ _)
    · split at h
      · contradiction
      · rename_i depth' place' ended stepped
        obtain ⟨later, read, rfl⟩ := Option.map_eq_some_iff.mp h
        have now := step_worth stepped
        have after := ih read
        rw [List.flatten_append, total_append, total_cons]
        omega

end Carriers.ProofKit.MasterFile
