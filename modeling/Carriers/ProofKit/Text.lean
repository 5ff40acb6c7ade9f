import Mathlib

/-! Text as lists of Unicode scalar values, byte strings, ASCII case folding and the trimming of
white space. -/

namespace Carriers

/-- A string, as its Unicode scalar values. -/
abbrev Text := List Char

/-- A byte string. -/
abbrev Bytes := List UInt8

namespace ProofKit

/-- The Unicode property `White_Space`. -/
def isWhitespace (c : Char) : Bool :=
  (9 ≤ c.toNat && c.toNat ≤ 13) || c.toNat == 0x20 || c.toNat == 0x85 || c.toNat == 0xA0 ||
    c.toNat == 0x1680 || (0x2000 ≤ c.toNat && c.toNat ≤ 0x200A) || c.toNat == 0x2028 ||
    c.toNat == 0x2029 || c.toNat == 0x202F || c.toNat == 0x205F || c.toNat == 0x3000

/-- The text without the white space at its ends. -/
def trim (t : Text) : Text := (t.dropWhile isWhitespace).rdropWhile isWhitespace

/-- The letters `A` to `Z` in lower case and every other character unchanged. -/
def asciiLower (t : Text) : Text := t.map Char.toLower

@[simp] theorem asciiLower_append (s t : Text) :
    asciiLower (s ++ t) = asciiLower s ++ asciiLower t := List.map_append

@[simp] theorem length_asciiLower (t : Text) : (asciiLower t).length = t.length := List.length_map _

/-- A character that is no letter is the lower case of itself alone. -/
theorem toLower_eq_iff {c d : Char} (h : d.isAlpha = false) : c.toLower = d ↔ c = d := by
  constructor
  · intro lower
    by_cases upper : c.isUpper
    · have letter : d.isAlpha = true := by
        rw [← lower, Char.isAlpha_toLower_eq_isAlpha]
        simp [Char.isAlpha, upper]
      simp [h] at letter
    · rwa [Char.toLower_eq_of_not_isUpper upper] at lower
  · rintro rfl
    exact Char.toLower_eq_of_not_isUpper (by simp [Char.isAlpha] at h; simp [h])

theorem asciiLower_asciiLower (t : Text) : asciiLower (asciiLower t) = asciiLower t := by
  simp [asciiLower, Function.comp_def]

theorem isWhitespace_toLower (c : Char) : isWhitespace c.toLower = isWhitespace c := by
  by_cases upper : c.isUpper
  · have range : 65 ≤ c.toNat ∧ c.toNat ≤ 90 := by
      simpa [Char.isUpper, UInt32.le_iff_toNat_le] using upper
    have lower : c.toLower.toNat = c.toNat + 32 := by
      rw [Char.toLower_eq_of_isUpper upper, Char.toNat_ofNat, if_pos (.inl (by omega))]
    simp only [isWhitespace, lower]
    rw [Bool.eq_iff_iff]
    simp
    omega
  · rw [Char.toLower_eq_of_not_isUpper upper]

theorem asciiLower_trim (t : Text) : asciiLower (trim t) = trim (asciiLower t) := by
  have same : isWhitespace ∘ Char.toLower = isWhitespace := funext isWhitespace_toLower
  simp [asciiLower, trim, List.rdropWhile, List.dropWhile_map, ← List.map_reverse, same]

/-- What is in front of a character that is no white space is trimmed by itself, and so is what is
behind it. -/
theorem dropWhile_append_cons {c : Char} (solid : isWhitespace c = false) (front back : Text) :
    (front ++ c :: back).dropWhile isWhitespace = front.dropWhile isWhitespace ++ c :: back := by
  rw [List.dropWhile_append]
  split
  · rename_i blank
    rw [List.isEmpty_iff.mp blank, List.dropWhile_cons_of_neg (by simp [solid])]
    rfl
  · rfl

theorem rdropWhile_append_cons {c : Char} (solid : isWhitespace c = false) (front back : Text) :
    (front ++ c :: back).rdropWhile isWhitespace =
      front ++ c :: back.rdropWhile isWhitespace := by
  have reversed : (front ++ c :: back).reverse = back.reverse ++ c :: front.reverse := by simp
  rw [List.rdropWhile, reversed, dropWhile_append_cons solid]
  simp [List.rdropWhile]

/-- A property of each character of a text, as a run over the text. -/
theorem forall_of_all {P : Char → Prop} [DecidablePred P] {text : Text}
    (all : (text.all fun c => decide (P c)) = true) : ∀ c ∈ text, P c :=
  fun c mem => of_decide_eq_true (List.all_eq_true.mp all c mem)

theorem trim_sublist (t : Text) : (trim t).Sublist t :=
  (List.rdropWhile_prefix _ _).sublist.trans (List.dropWhile_sublist _)

theorem trim_eq_self {t : Text} (h : t.length ≤ (trim t).length) : trim t = t :=
  (trim_sublist t).eq_of_length_le h

theorem trim_eq_nil_iff {text : Text} : trim text = [] ↔ ∀ c ∈ text, isWhitespace c = true := by
  rw [trim, List.rdropWhile_eq_nil_iff]
  constructor
  · intro blank
    by_contra shown
    have nonempty : text.dropWhile isWhitespace ≠ [] := by
      intro gone
      exact shown (List.dropWhile_eq_nil_iff.mp gone)
    have first := List.head_dropWhile_not isWhitespace nonempty
    rw [blank _ (List.head_mem nonempty)] at first
    contradiction
  · intro blank c member
    exact blank c ((List.dropWhile_sublist _).subset member)

theorem trim_trim (t : Text) : trim (trim t) = trim t := by
  have front : (trim t).dropWhile isWhitespace = trim t := by
    rw [List.dropWhile_eq_self_iff]
    intro nonempty
    have start : trim t <+: t.dropWhile isWhitespace := List.rdropWhile_prefix _ _
    have head := List.dropWhile_eq_self_iff.mp (List.dropWhile_idempotent isWhitespace t)
      (nonempty.trans_le start.length_le)
    rwa [← start.getElem nonempty] at head
  conv_lhs => rw [trim, front]
  exact List.rdropWhile_idempotent _ _

/-- The octets, each as often as it counts. -/
def total (count : UInt8 → Nat) (octets : Bytes) : Nat := (octets.map count).sum

theorem total_append (count : UInt8 → Nat) (first second : Bytes) :
    total count (first ++ second) = total count first + total count second := by
  simp [total]

theorem total_cons (count : UInt8 → Nat) (b : UInt8) (rest : Bytes) :
    total count (b :: rest) = count b + total count rest := rfl

end ProofKit
end Carriers
