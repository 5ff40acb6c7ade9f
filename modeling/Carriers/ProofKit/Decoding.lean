import Carriers.ProofKit.Utf8

/-! What lossy decoding makes of encoded text, of text that is cut off within a character, of octets
around an ASCII octet, and of octets in general. -/

namespace Carriers.ProofKit

theorem encodeUtf8_cons (c : Char) (text : Text) :
    encodeUtf8 (c :: text) = String.utf8EncodeChar c ++ encodeUtf8 text := List.flatMap_cons

theorem encodeUtf8_append (first second : Text) :
    encodeUtf8 (first ++ second) = encodeUtf8 first ++ encodeUtf8 second := List.flatMap_append

theorem length_encodeUtf8_cons (c : Char) (text : Text) :
    (encodeUtf8 (c :: text)).length = c.utf8Size + (encodeUtf8 text).length := by
  rw [encodeUtf8_cons, List.length_append, String.length_utf8EncodeChar]

theorem utf8Size_ascii {c : Char} (ascii : c.toNat < 0x80) : c.utf8Size = 1 := by
  apply Char.utf8Size_eq_one_iff.mpr
  show c.val.toNat ≤ 127
  exact Nat.le_of_lt_succ ascii

theorem length_encodeUtf8_ascii {text : Text} (ascii : ∀ c ∈ text, c.toNat < 0x80) :
    (encodeUtf8 text).length = text.length := by
  induction text with
  | nil => rfl
  | cons c text ih =>
    rw [length_encodeUtf8_cons, utf8Size_ascii (ascii c List.mem_cons_self),
      ih fun other later => ascii other (List.mem_cons_of_mem c later), List.length_cons,
      Nat.add_comm]

/-! ### One character -/

/-- The octets complete the sequence `pending` to the character `c`. -/
inductive Completes (c : Char) : Pending → Bytes → Prop
  | last {pending : Pending} {b : UInt8} (fits : pending.low ≤ b ∧ b ≤ pending.high)
      (one : pending.needed = 1) (code : pending.code * 64 + (b.toNat - 0x80) = c.toNat) :
      Completes c pending [b]
  | more {pending : Pending} {b : UInt8} {rest : Bytes} (fits : pending.low ≤ b ∧ b ≤ pending.high)
      (many : pending.needed ≠ 1)
      (next : Completes c
        ⟨pending.needed - 1, 0x80, 0xBF, pending.code * 64 + (b.toNat - 0x80)⟩ rest) :
      Completes c pending (b :: rest)

theorem Completes.decodeFrom {c : Char} {pending : Pending} {octets : Bytes}
    (h : Completes c pending octets) (rest : Bytes) :
    decodeFrom (some pending) (octets ++ rest) = c :: decodeFrom none rest := by
  induction h with
  | last fits one code =>
    simp only [List.cons_append, List.nil_append, ProofKit.decodeFrom, nextOctet, fits, one, code,
      and_self, if_true, Char.ofNat_toNat]
  | more fits many next ih =>
    simp only [List.cons_append, ProofKit.decodeFrom, nextOctet, fits, many, and_self, if_true,
      if_false, List.nil_append]
    exact ih

theorem Completes.decodeFrom_take {c : Char} {pending : Pending} {octets : Bytes}
    (h : Completes c pending octets) {k : Nat} (cut : k < octets.length) :
    ProofKit.decodeFrom (some pending) (octets.take k) = [replacement] := by
  induction h generalizing k with
  | last fits one code =>
    obtain rfl : k = 0 := by simpa using cut
    rfl
  | more fits many next ih =>
    cases k with
    | zero => rfl
    | succ k =>
      simp only [List.take_succ_cons, ProofKit.decodeFrom, nextOctet, fits, many, and_self, if_true,
        if_false, List.nil_append]
      exact ih (by simpa using cut)

theorem toNat_continuation {n : Nat} (small : n < 64) : (UInt8.ofNat (n + 0x80)).toNat = n + 0x80 :=
  UInt8.toNat_ofNat_of_lt' (by show n + 0x80 < 256; omega)

theorem fits_continuation {low high : UInt8} {n : Nat} (small : n < 64)
    (lower : low.toNat ≤ n + 0x80) (upper : n + 0x80 ≤ high.toNat) :
    low ≤ UInt8.ofNat (n + 0x80) ∧ UInt8.ofNat (n + 0x80) ≤ high := by
  rw [UInt8.le_iff_toNat_le, UInt8.le_iff_toNat_le, toNat_continuation small]
  exact ⟨lower, upper⟩

/-- A continuation octet fits where any may stand. -/
theorem fits_any {n : Nat} (small : n < 64) :
    (0x80 : UInt8) ≤ UInt8.ofNat (n + 0x80) ∧ UInt8.ofNat (n + 0x80) ≤ 0xBF :=
  fits_continuation small (Nat.le_add_left _ _) (by show n + 0x80 ≤ 0xBF; omega)

theorem firstOctet_two (lead : Nat) (low : 2 ≤ lead) (high : lead < 32) :
    firstOctet (UInt8.ofNat (lead + 0xC0)) = ([], some ⟨1, 0x80, 0xBF, lead⟩) := by
  interval_cases lead <;> rfl

theorem firstOctet_three (lead second : Nat) (high : lead < 16) (small : second < 64)
    (long : lead = 0 → 32 ≤ second) (scalar : lead = 13 → second < 32) :
    ∃ pending, firstOctet (UInt8.ofNat (lead + 0xE0)) = ([], some pending) ∧
      pending.needed = 2 ∧ pending.code = lead ∧
      pending.low.toNat ≤ second + 0x80 ∧ second + 0x80 ≤ pending.high.toNat := by
  by_cases first : lead = 0
  · subst first
    exact ⟨_, rfl, rfl, rfl, by show 0xA0 ≤ _; omega, by show _ ≤ 0xBF; omega⟩
  · by_cases surrogates : lead = 13
    · subst surrogates
      exact ⟨_, rfl, rfl, rfl, by show 0x80 ≤ _; omega, by show _ ≤ 0x9F; omega⟩
    · have shape : firstOctet (UInt8.ofNat (lead + 0xE0)) = ([], some ⟨2, 0x80, 0xBF, lead⟩) := by
        interval_cases lead <;> first | rfl | contradiction
      exact ⟨_, shape, rfl, rfl, by show 0x80 ≤ _; omega, by show _ ≤ 0xBF; omega⟩

theorem firstOctet_four (lead second : Nat) (high : lead < 5) (small : second < 64)
    (long : lead = 0 → 16 ≤ second) (scalar : lead = 4 → second < 16) :
    ∃ pending, firstOctet (UInt8.ofNat (lead + 0xF0)) = ([], some pending) ∧
      pending.needed = 3 ∧ pending.code = lead ∧
      pending.low.toNat ≤ second + 0x80 ∧ second + 0x80 ≤ pending.high.toNat := by
  by_cases first : lead = 0
  · subst first
    exact ⟨_, rfl, rfl, rfl, by show 0x90 ≤ _; omega, by show _ ≤ 0xBF; omega⟩
  · by_cases final : lead = 4
    · subst final
      exact ⟨_, rfl, rfl, rfl, by show 0x80 ≤ _; omega, by show _ ≤ 0x8F; omega⟩
    · have shape : firstOctet (UInt8.ofNat (lead + 0xF0)) = ([], some ⟨3, 0x80, 0xBF, lead⟩) := by
        interval_cases lead <;> first | rfl | contradiction
      exact ⟨_, shape, rfl, rfl, by show 0x80 ≤ _; omega, by show _ ≤ 0xBF; omega⟩

/-- A character is encoded as itself in ASCII, and otherwise as a sequence that it completes. -/
theorem utf8EncodeChar_shape (c : Char) :
    (c.toNat < 0x80 ∧ String.utf8EncodeChar c = [UInt8.ofNat c.toNat]) ∨
      ∃ b pending rest, 0x80 ≤ c.toNat ∧ String.utf8EncodeChar c = b :: rest ∧
        firstOctet b = ([], some pending) ∧ Completes c pending rest := by
  have valid : c.toNat < 0xD800 ∨ 0xDFFF < c.toNat ∧ c.toNat < 0x110000 := c.valid
  have value : c.val.toNat = c.toNat := rfl
  unfold String.utf8EncodeChar
  simp only [value]
  by_cases one : c.toNat ≤ 0x7f
  · exact .inl ⟨by omega, if_pos one⟩
  · rw [if_neg one]
    right
    by_cases two : c.toNat ≤ 0x7ff
    · rw [if_pos two]
      have lead := firstOctet_two (c.toNat / 64 % 32) (by omega) (by omega)
      refine ⟨_, _, _, by omega, rfl, lead, .last (fits_any (by omega)) rfl ?_⟩
      rw [toNat_continuation (by omega)]
      show c.toNat / 64 % 32 * 64 + _ = _
      omega
    · rw [if_neg two]
      by_cases three : c.toNat ≤ 0xffff
      · rw [if_pos three]
        obtain ⟨pending, lead, needed, code, lower, upper⟩ :=
          firstOctet_three (c.toNat / 4096 % 16) (c.toNat / 64 % 64) (by omega)
            (by omega) (by omega) (by omega)
        refine ⟨_, _, _, by omega, rfl, lead, .more (fits_continuation (by omega) lower upper)
          (by omega) (.last (fits_any (by omega)) (by simp only [needed]) ?_)⟩
        simp only [code]
        rw [toNat_continuation (by omega), toNat_continuation (by omega)]
        omega
      · rw [if_neg three]
        obtain ⟨pending, lead, needed, code, lower, upper⟩ :=
          firstOctet_four (c.toNat / 262144 % 8) (c.toNat / 4096 % 64) (by omega)
            (by omega) (by omega) (by omega)
        refine ⟨_, _, _, by omega, rfl, lead, .more (fits_continuation (by omega) lower upper)
          (by omega) (.more (fits_any (by omega)) (by simp [needed])
            (.last (fits_any (by omega)) (by simp only [needed]) ?_))⟩
        simp only [code]
        rw [toNat_continuation (by omega), toNat_continuation (by omega),
          toNat_continuation (by omega)]
        omega

/-! ### Texts -/

theorem decodeFrom_encodeChar (c : Char) (rest : Bytes) :
    decodeFrom none (String.utf8EncodeChar c ++ rest) = c :: decodeFrom none rest := by
  rcases utf8EncodeChar_shape c with
    ⟨ascii, encoded⟩ | ⟨b, pending, more, -, encoded, first, completes⟩
  · rw [encoded]
    have small : UInt8.ofNat c.toNat < 0x80 := by
      rw [UInt8.lt_iff_toNat_lt, UInt8.toNat_ofNat_of_lt' (by show c.toNat < 256; omega)]
      exact ascii
    have value : (UInt8.ofNat c.toNat).toNat = c.toNat :=
      UInt8.toNat_ofNat_of_lt' (by show c.toNat < 256; omega)
    simp only [List.cons_append, List.nil_append, decodeFrom, nextOctet, firstOctet, small, if_true,
      value, Char.ofNat_toNat]
  · rw [encoded, List.cons_append, decodeFrom, nextOctet, first]
    exact completes.decodeFrom rest

theorem decodeFrom_encodeUtf8 (text : Text) (rest : Bytes) :
    decodeFrom none (encodeUtf8 text ++ rest) = text ++ decodeFrom none rest := by
  induction text with
  | nil => rfl
  | cons c text ih =>
    rw [encodeUtf8_cons, List.append_assoc, decodeFrom_encodeChar, ih, List.cons_append]

/-- Decoding undoes encoding. -/
theorem decodeLossy_encodeUtf8 (text : Text) : decodeLossy (encodeUtf8 text) = text := by
  have h := decodeFrom_encodeUtf8 text []
  rwa [List.append_nil, show decodeFrom none [] = [] from rfl, List.append_nil] at h

theorem encodeUtf8_injective : Function.Injective encodeUtf8 :=
  Function.LeftInverse.injective decodeLossy_encodeUtf8

/-- A character that is cut off is replaced. -/
theorem decodeFrom_take_encodeChar {c : Char} {k : Nat} (some : 0 < k) (cut : k < c.utf8Size) :
    decodeFrom none ((String.utf8EncodeChar c).take k) = [replacement] := by
  rw [← String.length_utf8EncodeChar] at cut
  rcases utf8EncodeChar_shape c with ⟨-, encoded⟩ | ⟨b, pending, more, -, encoded, first, completes⟩
  · rw [encoded, List.length_singleton] at cut
    omega
  · obtain ⟨k, rfl⟩ : ∃ m, k = m + 1 := ⟨k - 1, by omega⟩
    rw [encoded, List.length_cons] at cut
    rw [encoded, List.take_succ_cons, decodeFrom, nextOctet, first]
    exact completes.decodeFrom_take (by omega)

/-! ### ASCII octets -/

theorem ne_of_long {b code : UInt8} (long : 0x80 ≤ b.toNat) (ascii : code.toNat < 0x80) :
    b ≠ code := by
  rintro rfl
  omega

/-- A count of octets that leaves out all that are not ASCII, and NUL. -/
structure CountsAscii (count : UInt8 → Nat) : Prop where
  long : ∀ b : UInt8, 0x80 ≤ b.toNat → count b = 0
  null : count 0 = 0

/-- The octets of the sequence denote a character that is not ASCII. -/
structure Pending.Long (pending : Pending) : Prop where
  low : 0x80 ≤ pending.low.toNat
  code : 2 ≤ pending.code ∨ pending.needed ≠ 1 ∧ (1 ≤ pending.code ∨ 0x90 ≤ pending.low.toNat)

/-- What an octet that begins no sequence under way yields. -/
theorem firstOctet_cases (b : UInt8) :
    (b.toNat < 0x80 ∧ firstOctet b = ([Char.ofNat b.toNat], none)) ∨
      0x80 ≤ b.toNat ∧ (firstOctet b = ([replacement], none) ∨
        ∃ pending : Pending, firstOctet b = ([], some pending) ∧ pending.Long) := by
  by_cases ascii : b < 0x80
  · exact .inl ⟨UInt8.lt_iff_toNat_lt.mp ascii, if_pos ascii⟩
  · have high : ¬b.toNat < (0x80 : UInt8).toNat := mt UInt8.lt_iff_toNat_lt.mpr ascii
    refine .inr ⟨Nat.le_of_not_lt high, ?_⟩
    rw [firstOctet, if_neg ascii]
    split_ifs with two e0 ed three f0 four f4
    · have lower : 0xC2 ≤ b.toNat := UInt8.le_iff_toNat_le.mp two.1
      exact .inr ⟨_, rfl, Nat.le_refl _, .inl (by show 2 ≤ b.toNat - 0xC0; omega)⟩
    · exact .inr ⟨_, rfl, by decide, by decide⟩
    · exact .inr ⟨_, rfl, by decide, by decide⟩
    · have lower : 0xE1 ≤ b.toNat := UInt8.le_iff_toNat_le.mp three.1
      exact .inr ⟨_, rfl, Nat.le_refl _,
        .inr ⟨Nat.succ_ne_self 1, .inl (by show 1 ≤ b.toNat - 0xE0; omega)⟩⟩
    · exact .inr ⟨_, rfl, by decide, by decide⟩
    · have lower : 0xF1 ≤ b.toNat := UInt8.le_iff_toNat_le.mp four.1
      exact .inr ⟨_, rfl, Nat.le_refl _,
        .inr ⟨by simp only; omega, .inl (by show 1 ≤ b.toNat - 0xF0; omega)⟩⟩
    · exact .inr ⟨_, rfl, by decide, by decide⟩
    · exact .inl rfl

theorem long_firstOctet (b : UInt8) : ∀ p ∈ (firstOctet b).2, p.Long := by
  rcases firstOctet_cases b with ⟨-, first⟩ | ⟨-, first | ⟨pending, first, isLong⟩⟩
  · simp [first]
  · simp [first]
  · simpa [first] using isLong

/-- A sequence goes on as one of the same kind. -/
theorem long_nextOctet {pending : Option Pending} (long : ∀ p ∈ pending, p.Long) (b : UInt8) :
    ∀ p ∈ (nextOctet pending b).2, p.Long := by
  rcases pending with _ | p
  · exact long_firstOctet b
  · have isLong := long p rfl
    rw [nextOctet]
    split_ifs with fits one
    · simp
    · have code := isLong.code
      have low := isLong.low
      have above : p.low.toNat ≤ b.toNat := UInt8.le_iff_toNat_le.mp fits.1
      rintro _ ⟨⟩
      exact ⟨Nat.le_refl _, .inl (by show 2 ≤ p.code * 64 + (b.toNat - 0x80); omega)⟩
    · exact long_firstOctet b

/-- An ASCII octet ends what is under way and stands for itself. -/
theorem nextOctet_ascii {pending : Option Pending} (long : ∀ p ∈ pending, p.Long) {b : UInt8}
    (ascii : b.toNat < 0x80) :
    nextOctet pending b = (decodeFrom pending [] ++ [Char.ofNat b.toNat], none) := by
  have first : firstOctet b = ([Char.ofNat b.toNat], none) :=
    if_pos (UInt8.lt_iff_toNat_lt.mpr ascii)
  rcases pending with _ | p
  · exact first
  · have below : ¬(p.low ≤ b ∧ b ≤ p.high) := by
      rintro ⟨above, -⟩
      have low := (long p rfl).low
      have := UInt8.le_iff_toNat_le.mp above
      omega
    rw [nextOctet, if_neg below, first]
    rfl

theorem decodeFrom_append_ascii {pending : Option Pending} (long : ∀ p ∈ pending, p.Long)
    (first second : Bytes) {b : UInt8} (ascii : b.toNat < 0x80) :
    decodeFrom pending (first ++ b :: second) =
      decodeFrom pending first ++ Char.ofNat b.toNat :: decodeFrom none second := by
  induction first generalizing pending with
  | nil =>
    show (nextOctet pending b).1 ++ decodeFrom (nextOctet pending b).2 second = _
    rw [nextOctet_ascii long ascii, List.append_assoc, List.singleton_append]
  | cons octet first ih =>
    rw [List.cons_append, decodeFrom, decodeFrom, ih (long_nextOctet long octet),
      List.append_assoc]

/-- Octets on the two sides of an ASCII octet are decoded apart. -/
theorem decodeLossy_append_ascii (first second : Bytes) {b : UInt8} (ascii : b.toNat < 0x80) :
    decodeLossy (first ++ b :: second) =
      decodeLossy first ++ Char.ofNat b.toNat :: decodeLossy second :=
  decodeFrom_append_ascii (by simp) first second ascii

/-- An ASCII octet of encoded text is one of its characters. -/
theorem mem_of_ascii_octet {text : Text} {b : UInt8} (ascii : b.toNat < 0x80)
    (octet : b ∈ encodeUtf8 text) : Char.ofNat b.toNat ∈ text := by
  obtain ⟨first, second, same⟩ := List.append_of_mem octet
  have decoded := decodeLossy_append_ascii first second ascii
  rw [← same, decodeLossy_encodeUtf8] at decoded
  rw [decoded]
  exact List.mem_append_right _ List.mem_cons_self

section

variable {count : UInt8 → Nat} (counts : CountsAscii count)
include counts

theorem Completes.total_eq {c : Char} {pending : Pending} {octets : Bytes}
    (h : Completes c pending octets) (low : 0x80 ≤ pending.low.toNat) : total count octets = 0 := by
  induction h with
  | last fits one code =>
    rw [total_cons, counts.long _ (low.trans (UInt8.le_iff_toNat_le.mp fits.1))]
    rfl
  | more fits many next ih =>
    rw [total_cons, counts.long _ (low.trans (UInt8.le_iff_toNat_le.mp fits.1)), ih (Nat.le_refl _)]

theorem total_encodeChar {c : Char} (long : 0x80 ≤ c.toNat) :
    total count (String.utf8EncodeChar c) = 0 := by
  rcases utf8EncodeChar_shape c with ⟨ascii, -⟩ | ⟨b, pending, rest, -, encoded, first, completes⟩
  · omega
  · rcases firstOctet_cases b with ⟨-, other⟩ | ⟨high, other | ⟨sequence, same, isLong⟩⟩
    · simp [other] at first
    · simp [other] at first
    · obtain rfl : sequence = pending := by simpa [same] using first
      rw [encoded, total_cons, counts.long b high, completes.total_eq counts isLong.low]

theorem total_ofNat {code : Nat} (long : 0x80 ≤ code) :
    total count (String.utf8EncodeChar (Char.ofNat code)) = 0 := by
  by_cases valid : code.isValidChar
  · exact total_encodeChar counts (by rwa [Char.toNat_ofNat, if_pos valid])
  · rw [Char.ofNat, dif_neg valid]
    show count 0 + 0 = 0
    rw [counts.null]

theorem total_firstOctet (b : UInt8) : total count (encodeUtf8 (firstOctet b).1) ≤ count b := by
  rcases firstOctet_cases b with ⟨ascii, first⟩ | ⟨-, first | ⟨pending, first, -⟩⟩
  · have valid : b.toNat.isValidChar := .inl (by omega)
    have value : (Char.ofNat b.toNat).toNat = b.toNat := by rw [Char.toNat_ofNat, if_pos valid]
    rcases utf8EncodeChar_shape (Char.ofNat b.toNat) with ⟨-, encoded⟩ | ⟨-, -, -, long, -⟩
    · rw [first, encodeUtf8, List.flatMap_singleton, encoded, value, UInt8.ofNat_toNat]
      exact Nat.le_refl _
    · omega
  · rw [first, encodeUtf8, List.flatMap_singleton, total_encodeChar counts (by decide)]
    exact Nat.zero_le _
  · rw [first]
    exact Nat.zero_le _

/-- One octet yields text that counts no more. -/
theorem total_nextOctet {pending : Option Pending} (long : ∀ p ∈ pending, p.Long) (b : UInt8) :
    total count (encodeUtf8 (nextOctet pending b).1) ≤ count b := by
  rcases pending with _ | p
  · exact total_firstOctet counts b
  · rw [nextOctet]
    split_ifs with fits one
    · have code := (long p rfl).code
      rw [encodeUtf8, List.flatMap_singleton, total_ofNat counts (by omega)]
      exact Nat.zero_le _
    · exact Nat.zero_le _
    · rw [encodeUtf8_cons, total_append, total_encodeChar counts (by decide), Nat.zero_add]
      exact total_firstOctet counts b

theorem total_decodeFrom {pending : Option Pending} (long : ∀ p ∈ pending, p.Long)
    (octets : Bytes) :
    total count (encodeUtf8 (decodeFrom pending octets)) ≤ total count octets := by
  induction octets generalizing pending with
  | nil =>
    rw [decodeFrom]
    split
    · rw [encodeUtf8, List.flatMap_singleton, total_encodeChar counts (by decide)]
      exact Nat.zero_le _
    · exact Nat.zero_le _
  | cons b octets ih =>
    have emitted := total_nextOctet counts long b
    rw [decodeFrom, encodeUtf8_append, total_append, total_cons]
    exact Nat.add_le_add emitted (ih (long_nextOctet long b))

/-- Lossy decoding makes no ASCII octets that are not there. -/
theorem total_decodeLossy (octets : Bytes) :
    total count (encodeUtf8 (decodeLossy octets)) ≤ total count octets :=
  total_decodeFrom counts (by simp) octets

end

end Carriers.ProofKit
