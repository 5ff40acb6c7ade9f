import Carriers.ProofKit.Decoding
import Carriers.ProofKit.MasterFile
import Carriers.ProofKit.Split

/-! The TXT records of a zone file, and what a reader of master files makes of them. -/

namespace Carriers

open ProofKit
open ProofKit.MasterFile

/-- The value in chunks of 255 octets.  A character that a chunk cuts off is replaced. -/
def splitTxt (value : Text) : List Text := (chunks 255 (encodeUtf8 value)).map decodeLossy

/-- The data of a TXT record, each chunk a quoted string on a line of its own. -/
def txtData (value : Text) : Text :=
  "(\n".toList ++
    (splitTxt value).flatMap (fun chunk => "    \"".toList ++ chunk ++ "\"\n".toList) ++
    ")\n".toList

def txtRecord (name value : Text) : Text := name ++ ". IN TXT ".toList ++ txtData value

/-- The strings of the record, read as the data of a master file entry, are short enough and make
up the value. -/
def TxtReadsBack (value : Text) : Prop :=
  ∃ strings, readStrings (encodeUtf8 (txtData value)) = some strings ∧
    (∀ string ∈ strings, string.length ≤ 255) ∧ strings.flatten = encodeUtf8 value

/-- The first `n` octets of the text are whole characters. -/
def IsBoundary (text : Text) (n : Nat) : Prop :=
  ∃ front, front <+: text ∧ (encodeUtf8 front).length = n

/-- Nothing in the value needs an escape, and no character lies across two chunks. -/
structure Quotable (value : Text) : Prop where
  literal : ∀ c ∈ value, c ≠ '"' ∧ c ≠ '\\'
  boundaries : ∀ k, 255 * k ≤ (encodeUtf8 value).length → IsBoundary value (255 * k)

/-! ### The record -/

/-- The strings that are written, in octets. -/
def txtStrings (value : Text) : List Bytes := (splitTxt value).map encodeUtf8

def stringLine (string : Bytes) : Bytes :=
  [0x20, 0x20, 0x20, 0x20, quote] ++ string ++ [quote, lineFeed]

theorem encodeUtf8_txtData (value : Text) :
    encodeUtf8 (txtData value) =
      [0x28, lineFeed] ++ (txtStrings value).flatMap stringLine ++ [0x29, lineFeed] := by
  have first : encodeUtf8 "(\n".toList = [0x28, lineFeed] := by decide
  have last : encodeUtf8 ")\n".toList = [0x29, lineFeed] := by decide
  have opening : encodeUtf8 "    \"".toList = [0x20, 0x20, 0x20, 0x20, quote] := by decide
  have closing : encodeUtf8 "\"\n".toList = [quote, lineFeed] := by decide
  have lines : ∀ texts : List Text,
      encodeUtf8 (texts.flatMap fun chunk => "    \"".toList ++ chunk ++ "\"\n".toList) =
        (texts.map encodeUtf8).flatMap stringLine := by
    intro texts
    induction texts with
    | nil => rfl
    | cons text texts ih =>
      rw [List.flatMap_cons, encodeUtf8_append, encodeUtf8_append, encodeUtf8_append, opening,
        closing, ih]
      rfl
  rw [txtData, encodeUtf8_append, encodeUtf8_append, first, last, lines, txtStrings]

/-- A line of literal octets is read as the string on it. -/
theorem readFrom_stringLine {string : Bytes} (literal : ∀ b ∈ string, Literal b) (rest : Bytes) :
    readFrom 1 .blank (stringLine string ++ rest) = (readFrom 1 .blank rest).map (string :: ·) := by
  have line : stringLine string ++ rest =
      0x20 :: 0x20 :: 0x20 :: 0x20 :: quote :: (string ++ quote :: lineFeed :: rest) := by
    simp [stringLine]
  have opened : readFrom 1 .blank (stringLine string ++ rest) =
      readFrom 1 (.string true []) (string ++ quote :: lineFeed :: rest) := by
    rw [line]
    simp [readFrom, step, start, isDelimiter, quote, lineFeed]
  have closed : readFrom 1 .blank (lineFeed :: rest) = readFrom 1 .blank rest := by
    simp [readFrom, step, start, isDelimiter, quote, lineFeed]
  rw [opened, readFrom_quoted literal, closed]
  rfl

theorem readStrings_lines {strings : List Bytes}
    (literal : ∀ string ∈ strings, ∀ b ∈ string, Literal b) :
    readStrings ([0x28, lineFeed] ++ strings.flatMap stringLine ++ [0x29, lineFeed]) =
      some strings := by
  have grouped : ∀ text, readStrings ([0x28, lineFeed] ++ text) = readFrom 1 .blank text := by
    intro text
    simp [readStrings, readFrom, step, start, isDelimiter, quote, lineFeed]
  rw [List.append_assoc, grouped]
  induction strings with
  | nil => decide
  | cons string strings ih =>
    have first := literal string List.mem_cons_self
    rw [List.flatMap_cons, List.append_assoc, readFrom_stringLine first,
      ih fun later member => literal later (List.mem_cons_of_mem _ member)]
    rfl

/-! ### Escapes -/

theorem flatten_txtStrings_le {count : UInt8 → Nat} (counts : CountsAscii count) (value : Text) :
    total count (txtStrings value).flatten ≤ total count (encodeUtf8 value) := by
  have pieces : ∀ octets : List Bytes,
      total count (octets.map (encodeUtf8 ∘ decodeLossy)).flatten ≤ total count octets.flatten := by
    intro octets
    induction octets with
    | nil => exact Nat.le_refl _
    | cons piece octets ih =>
      rw [List.map_cons, List.flatten_cons, List.flatten_cons, total_append, total_append]
      exact Nat.add_le_add (total_decodeLossy counts piece) ih
  have h := pieces (chunks 255 (encodeUtf8 value))
  rwa [flatten_chunks, ← List.map_map] at h

theorem countsAscii_cost : CountsAscii cost where
  long b long := by
    have noEscape : b ≠ backslash := ne_of_long long (by decide)
    have noNine : b ≠ 0x39 := ne_of_long long (by decide)
    rw [cost, if_neg noEscape, if_neg noNine]
  null := by decide

/-- The octets that are not literal. -/
def needsEscape (b : UInt8) : Nat := if b = quote ∨ b = backslash then 1 else 0

theorem countsAscii_needsEscape : CountsAscii needsEscape where
  long b long := by
    have noQuote : b ≠ quote := ne_of_long long (by decide)
    have noEscape : b ≠ backslash := ne_of_long long (by decide)
    rw [needsEscape, if_neg]
    exact not_or.mpr ⟨noQuote, noEscape⟩
  null := by decide

theorem total_needsEscape {octets : Bytes} :
    total needsEscape octets = 0 ↔ ∀ b ∈ octets, Literal b := by
  induction octets with
  | nil => exact iff_of_true rfl (by simp)
  | cons b octets ih =>
    rw [total_cons, Nat.add_eq_zero_iff, ih, List.forall_mem_cons]
    apply and_congr_left
    intro _
    rw [needsEscape, Literal, ← not_or]
    split <;> simp_all

/-- Octets that are worth no more than they cost are literal. -/
theorem literal_of_worth {octets : Bytes} (h : total worth octets ≤ total cost octets) :
    ∀ b ∈ octets, Literal b := by
  have margin : ∀ b, cost b + needsEscape b ≤ worth b := by
    intro b
    unfold cost needsEscape worth
    split_ifs <;> simp_all [quote, backslash]
  have all : ∀ octets : Bytes,
      total cost octets + total needsEscape octets ≤ total worth octets := by
    intro octets
    induction octets with
    | nil => exact Nat.le_refl _
    | cons b octets ih =>
      have := margin b
      rw [total_cons, total_cons, total_cons]
      omega
  have := all octets
  exact total_needsEscape.mp (by omega)

/-- A text of literal characters has literal octets, and no other text has. -/
theorem literal_encodeUtf8 {text : Text} :
    (∀ b ∈ encodeUtf8 text, Literal b) ↔ ∀ c ∈ text, c ≠ '"' ∧ c ≠ '\\' := by
  have one : ∀ c : Char, (∀ b ∈ String.utf8EncodeChar c, Literal b) ↔ c ≠ '"' ∧ c ≠ '\\' := by
    intro c
    constructor
    · intro literal
      refine ⟨?_, ?_⟩
      · rintro rfl
        exact (literal quote (by decide)).1 rfl
      · rintro rfl
        exact (literal backslash (by decide)).2 rfl
    · rintro ⟨noQuote, noEscape⟩
      by_cases long : 0x80 ≤ c.toNat
      · exact total_needsEscape.mp (total_encodeChar countsAscii_needsEscape long)
      · rcases utf8EncodeChar_shape c with ⟨ascii, encoded⟩ | ⟨-, -, -, other, -⟩
        · intro b member
          rw [encoded] at member
          obtain rfl := List.mem_singleton.mp member
          have value : (UInt8.ofNat c.toNat).toNat = c.toNat :=
            UInt8.toNat_ofNat_of_lt' (by show c.toNat < 256; omega)
          refine ⟨fun isQuote => noQuote ?_, fun isEscape => noEscape ?_⟩
          · exact Char.toNat_inj.mp (value.symm.trans (congrArg UInt8.toNat isQuote))
          · exact Char.toNat_inj.mp (value.symm.trans (congrArg UInt8.toNat isEscape))
        · omega
  simp only [encodeUtf8, List.mem_flatMap, forall_exists_index, and_imp]
  constructor
  · intro literal c member
    exact (one c).mp fun b isOctet => literal b c member isOctet
  · intro literal b c member
    exact (one c).mpr (literal c member) b

theorem literal_txtStrings {value : Text} (literal : ∀ b ∈ encodeUtf8 value, Literal b) :
    ∀ string ∈ txtStrings value, ∀ b ∈ string, Literal b := by
  have none : total needsEscape (txtStrings value).flatten = 0 := by
    have most := flatten_txtStrings_le countsAscii_needsEscape value
    rw [total_needsEscape.mpr literal] at most
    omega
  intro string member b isOctet
  exact total_needsEscape.mp none b (List.mem_flatten.mpr ⟨string, member, isOctet⟩)

/-- A value that reads back has nothing to escape: each quote or backslash of it would take an
escape, and with it a backslash that is not read. -/
theorem literal_of_readsBack {value : Text} (h : TxtReadsBack value) :
    ∀ b ∈ encodeUtf8 value, Literal b := by
  obtain ⟨strings, read, -, whole⟩ := h
  apply literal_of_worth
  have worth := readFrom_worth read
  have costs : ∀ strings : List Bytes,
      total cost (strings.flatMap stringLine) = total cost strings.flatten := by
    intro strings
    induction strings with
    | nil => rfl
    | cons string strings ih =>
      rw [List.flatMap_cons, List.flatten_cons, total_append, total_append, ih, stringLine,
        total_append, total_append]
      simp [total, cost, quote, backslash, lineFeed]
  have written := flatten_txtStrings_le countsAscii_cost value
  rw [whole, encodeUtf8_txtData, total_append, total_append, costs] at worth
  have frame : total cost [0x28, lineFeed] = 0 ∧ total cost [0x29, lineFeed] = 0 := by decide
  have empty : Place.worth .blank = 0 := rfl
  omega

/-! ### Chunks -/

/-- So many octets of a text are whole characters, or they end within one. -/
theorem cut_cases (text : Text) {n : Nat} (fits : n ≤ (encodeUtf8 text).length) :
    (∃ front back, text = front ++ back ∧ (encodeUtf8 front).length = n) ∨
      ∃ front c back, text = front ++ c :: back ∧ (encodeUtf8 front).length < n ∧
        n < (encodeUtf8 front).length + c.utf8Size := by
  induction text generalizing n with
  | nil =>
    have none : n = 0 := Nat.le_zero.mp fits
    exact .inl ⟨[], [], rfl, none.symm⟩
  | cons c text ih =>
    have size : (encodeUtf8 (c :: text)).length = c.utf8Size + (encodeUtf8 text).length := by
      rw [encodeUtf8_cons, List.length_append, String.length_utf8EncodeChar]
    rcases Nat.eq_zero_or_pos n with rfl | pos
    · exact .inl ⟨[], c :: text, rfl, rfl⟩
    · by_cases within : n < c.utf8Size
      · exact .inr ⟨[], c, text, rfl, pos, by simpa [encodeUtf8] using within⟩
      · have later : ∀ front, (encodeUtf8 (c :: front)).length =
            c.utf8Size + (encodeUtf8 front).length := fun front => by
          rw [encodeUtf8_cons, List.length_append, String.length_utf8EncodeChar]
        rcases ih (n := n - c.utf8Size) (by omega) with
          ⟨front, back, rfl, length⟩ | ⟨front, d, back, rfl, lower, upper⟩
        · exact .inl ⟨c :: front, back, rfl, by rw [later]; omega⟩
        · exact .inr ⟨c :: front, d, back, rfl, by rw [later]; omega, by rw [later]; omega⟩

theorem length_encodeUtf8_le {front text : Text} (h : front <+: text) :
    (encodeUtf8 front).length ≤ (encodeUtf8 text).length := by
  obtain ⟨back, rfl⟩ := h
  rw [encodeUtf8_append, List.length_append]
  exact Nat.le_add_right _ _

/-- There is no boundary within a character. -/
theorem not_isBoundary {front back : Text} {c : Char} {n : Nat}
    (lower : (encodeUtf8 front).length < n) (upper : n < (encodeUtf8 front).length + c.utf8Size) :
    ¬IsBoundary (front ++ c :: back) n := by
  rintro ⟨other, isPrefix, length⟩
  rcases List.prefix_or_prefix_of_prefix isPrefix (List.prefix_append front (c :: back)) with
    shorter | ⟨rest, rfl⟩
  · have := length_encodeUtf8_le shorter
    omega
  · rw [encodeUtf8_append, List.length_append] at length
    rcases rest with _ | ⟨d, rest⟩
    · rw [show encodeUtf8 [] = [] from rfl, List.length_nil] at length
      omega
    · obtain ⟨rfl, -⟩ := List.cons_prefix_cons.mp ((List.prefix_append_right_inj front).mp isPrefix)
      rw [encodeUtf8_cons, List.length_append, String.length_utf8EncodeChar] at length
      omega

/-- The boundaries behind whole characters are those of the rest. -/
theorem isBoundary_append {front back : Text} {n : Nat} :
    IsBoundary (front ++ back) ((encodeUtf8 front).length + n) ↔ IsBoundary back n := by
  constructor
  · rintro ⟨other, isPrefix, length⟩
    rcases List.prefix_or_prefix_of_prefix isPrefix (List.prefix_append front back) with
      shorter | ⟨rest, rfl⟩
    · have := length_encodeUtf8_le shorter
      exact ⟨[], List.nil_prefix, by show 0 = n; omega⟩
    · rw [encodeUtf8_append, List.length_append] at length
      exact ⟨rest, (List.prefix_append_right_inj front).mp isPrefix, by omega⟩
  · rintro ⟨rest, isPrefix, rfl⟩
    exact ⟨front ++ rest, (List.prefix_append_right_inj front).mpr isPrefix,
      by rw [encodeUtf8_append, List.length_append]⟩

theorem txtStrings_short {value : Text} (nonempty : value ≠ [])
    (short : (encodeUtf8 value).length ≤ 255) : txtStrings value = [encodeUtf8 value] := by
  have octets : encodeUtf8 value ≠ [] := by
    obtain ⟨c, rest, rfl⟩ := List.exists_cons_of_ne_nil nonempty
    rw [encodeUtf8_cons]
    exact List.append_ne_nil_of_left_ne_nil String.utf8EncodeChar_ne_nil _
  rw [txtStrings, splitTxt, chunks_short octets short, List.map_singleton, List.map_singleton,
    decodeLossy_encodeUtf8]

theorem txtStrings_full {front : Text} (full : (encodeUtf8 front).length = 255) (back : Text) :
    txtStrings (front ++ back) = encodeUtf8 front :: txtStrings back := by
  have octets : encodeUtf8 front ≠ [] := by
    intro empty
    rw [empty] at full
    contradiction
  rw [txtStrings, splitTxt, encodeUtf8_append, chunks_full octets full, List.map_cons,
    List.map_cons, decodeLossy_encodeUtf8]
  rfl

/-- The first string ends in a replacement if a character lies across its end. -/
theorem txtStrings_cut {front back : Text} {c : Char} (lower : (encodeUtf8 front).length < 255)
    (upper : 255 < (encodeUtf8 front).length + c.utf8Size) :
    ∃ later, txtStrings (front ++ c :: back) =
      (encodeUtf8 front ++ encodeUtf8 [replacement]) :: later := by
  obtain ⟨k, total⟩ : ∃ k, (encodeUtf8 front).length + k = 255 :=
    ⟨255 - (encodeUtf8 front).length, by omega⟩
  have cut : k < (String.utf8EncodeChar c).length := by
    rw [String.length_utf8EncodeChar]
    omega
  have split : encodeUtf8 (front ++ c :: back) =
      (encodeUtf8 front ++ (String.utf8EncodeChar c).take k) ++
        ((String.utf8EncodeChar c).drop k ++ encodeUtf8 back) := by
    rw [encodeUtf8_append, encodeUtf8_cons, List.append_assoc, ← List.append_assoc (List.take _ _),
      List.take_append_drop]
  have full : (encodeUtf8 front ++ (String.utf8EncodeChar c).take k).length = 255 := by
    rw [List.length_append, List.length_take]
    omega
  have octets : encodeUtf8 front ++ (String.utf8EncodeChar c).take k ≠ [] := by
    intro empty
    rw [empty] at full
    contradiction
  have decoded : decodeLossy (encodeUtf8 front ++ (String.utf8EncodeChar c).take k) =
      front ++ [replacement] := by
    rw [decodeLossy, decodeFrom_encodeUtf8, decodeFrom_take_encodeChar (by omega) (by omega)]
  refine ⟨((chunks 255 ((String.utf8EncodeChar c).drop k ++ encodeUtf8 back)).map
    decodeLossy).map encodeUtf8, ?_⟩
  rw [txtStrings, splitTxt, split, chunks_full octets full, List.map_cons, List.map_cons, decoded,
    encodeUtf8_append]

/-- No encoding of four octets begins like the replacement character. -/
theorem utf8EncodeChar_four {c : Char} (four : 3 < c.utf8Size) :
    ∃ b rest, String.utf8EncodeChar c = b :: rest ∧ b ≠ 0xEF := by
  rw [← String.length_utf8EncodeChar, String.utf8EncodeChar] at four
  rw [String.utf8EncodeChar]
  split_ifs at four ⊢
  · simp at four
  · simp at four
  · simp at four
  · refine ⟨_, _, rfl, fun same => ?_⟩
    have value := congrArg UInt8.toNat same
    rw [UInt8.toNat_ofNat_of_lt' (by show _ < 256; omega)] at value
    have ef : (0xEF : UInt8).toNat = 239 := rfl
    omega

/-- The strings are short enough and make up the value. -/
def Whole (value : Text) : Prop :=
  (∀ string ∈ txtStrings value, string.length ≤ 255) ∧
    (txtStrings value).flatten = encodeUtf8 value

/-- A character across the end of the first chunk makes the string too long or different. -/
theorem not_whole_of_cut {front back : Text} {c : Char}
    (lower : (encodeUtf8 front).length < 255)
    (upper : 255 < (encodeUtf8 front).length + c.utf8Size) : ¬Whole (front ++ c :: back) := by
  rintro ⟨short, whole⟩
  obtain ⟨later, strings⟩ := @txtStrings_cut front back c lower upper
  have size : (encodeUtf8 [replacement]).length = 3 := by decide
  rw [strings] at short whole
  have first := short _ List.mem_cons_self
  rw [List.length_append, size] at first
  obtain ⟨b, rest, encoded, other⟩ := utf8EncodeChar_four (c := c) (by omega)
  rw [List.flatten_cons, encodeUtf8_append, encodeUtf8_cons c back, encoded, List.append_assoc]
    at whole
  have same := List.append_cancel_left whole
  have head : encodeUtf8 [replacement] = [0xEF, 0xBF, 0xBD] := by decide
  rw [head] at same
  exact other (List.cons.inj same).1.symm

/-- The strings are whole exactly when no character lies across two chunks. -/
theorem whole_iff (value : Text) :
    Whole value ↔
      ∀ k, 255 * k ≤ (encodeUtf8 value).length → IsBoundary value (255 * k) := by
  by_cases short : (encodeUtf8 value).length ≤ 255
  · have whole : Whole value := by
      rcases value with _ | ⟨c, rest⟩
      · exact ⟨by simp [txtStrings, splitTxt, chunks, chunksFrom, encodeUtf8], rfl⟩
      · rw [Whole, txtStrings_short (List.cons_ne_nil c rest) short, List.flatten_singleton]
        exact ⟨by simpa using short, rfl⟩
    refine iff_of_true whole fun k fits => ?_
    rcases k with _ | _ | k
    · exact ⟨[], List.nil_prefix, rfl⟩
    · exact ⟨value, List.prefix_rfl, by omega⟩
    · omega
  · rcases cut_cases value (n := 255) (by omega) with
      ⟨front, back, rfl, full⟩ | ⟨front, c, back, rfl, lower, upper⟩
    · have smaller : back.length < (front ++ back).length := by
        have nonempty : front ≠ [] := by
          rintro rfl
          contradiction
        have := List.length_pos_of_ne_nil nonempty
        rw [List.length_append]
        omega
      have same : Whole (front ++ back) ↔ Whole back := by
        rw [Whole, Whole, txtStrings_full full, List.forall_mem_cons, List.flatten_cons,
          encodeUtf8_append, List.append_cancel_left_eq]
        simp only [full, Nat.le_refl, true_and]
      rw [same, whole_iff back]
      constructor
      · intro boundaries k fits
        rcases k with _ | k
        · exact ⟨[], List.nil_prefix, rfl⟩
        · rw [encodeUtf8_append, List.length_append] at fits
          have next : 255 * (k + 1) = (encodeUtf8 front).length + 255 * k := by omega
          rw [next, isBoundary_append]
          exact boundaries k (by omega)
      · intro boundaries k fits
        have next : 255 * (k + 1) = (encodeUtf8 front).length + 255 * k := by omega
        have boundary := boundaries (k + 1) (by
          rw [encodeUtf8_append, List.length_append]
          omega)
        rwa [next, isBoundary_append] at boundary
    · refine iff_of_false (not_whole_of_cut lower upper) fun boundaries => ?_
      exact not_isBoundary lower upper (boundaries 1 (by omega))
termination_by value.length

theorem txtReadsBack_of_quotable {value : Text} (quotable : Quotable value) :
    TxtReadsBack value := by
  have literal := literal_encodeUtf8.mpr quotable.literal
  obtain ⟨short, whole⟩ := (whole_iff value).mpr quotable.boundaries
  refine ⟨txtStrings value, ?_, short, whole⟩
  rw [encodeUtf8_txtData, readStrings_lines (literal_txtStrings literal)]

/-- In ASCII every octet is a character, so only the quotes matter. -/
theorem quotable_of_ascii {value : Text} (ascii : ∀ c ∈ value, c.toNat < 0x80)
    (literal : ∀ c ∈ value, c ≠ '"' ∧ c ≠ '\\') : Quotable value := by
  refine ⟨literal, fun k fits => ?_⟩
  rcases cut_cases value fits with ⟨front, back, rfl, length⟩ | ⟨front, c, back, rfl, lower, upper⟩
  · exact ⟨front, List.prefix_append front back, length⟩
  · have small := ascii c (List.mem_append_right _ List.mem_cons_self)
    have single := utf8Size_ascii small
    omega

/-- The TXT record of a value reads back to it exactly when nothing in the value needs an escape
and no character lies across two chunks. -/
theorem txtReadsBack_iff (value : Text) : TxtReadsBack value ↔ Quotable value := by
  constructor
  · intro readsBack
    have literal := literal_of_readsBack readsBack
    obtain ⟨strings, read, short, whole⟩ := readsBack
    rw [encodeUtf8_txtData, readStrings_lines (literal_txtStrings literal)] at read
    obtain rfl := Option.some.inj read
    exact ⟨literal_encodeUtf8.mp literal, (whole_iff value).mp ⟨short, whole⟩⟩
  · exact txtReadsBack_of_quotable

/-- A DMARC record whose report address has a quoted local part. -/
def quotedReports : Text := "v=DMARC1; p=none; rua=mailto:\"dmarc\"@example.org".toList

/-- The quotes of the address close and open strings. -/
theorem quotedReports_lost :
    readStrings (encodeUtf8 (txtData quotedReports)) =
      some [encodeUtf8 "v=DMARC1; p=none; rua=mailto:".toList, encodeUtf8 "dmarc".toList,
        encodeUtf8 "@example.org".toList] ∧
    ¬TxtReadsBack quotedReports := by
  have read : readStrings (encodeUtf8 (txtData quotedReports)) =
      some [encodeUtf8 "v=DMARC1; p=none; rua=mailto:".toList, encodeUtf8 "dmarc".toList,
        encodeUtf8 "@example.org".toList] := by decide +kernel
  refine ⟨read, ?_⟩
  rintro ⟨strings, again, -, whole⟩
  obtain rfl := Option.some.inj (read.symm.trans again)
  exact absurd whole (by decide +kernel)

end Carriers
