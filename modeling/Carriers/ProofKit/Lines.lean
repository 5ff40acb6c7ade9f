import Carriers.ProofKit.Decoding

/-! The lines of a text that is put together from two, as far as a search over its lines is
concerned, and slices of a text by octets. -/

namespace Carriers.ProofKit

/-! ### Lines -/

theorem linesFrom_append (line first second : Text) :
    linesFrom line (first ++ '\n' :: second) =
      linesFrom line (first ++ ['\n']) ++ textLines second := by
  induction first generalizing line with
  | nil => rfl
  | cons c first ih =>
    rw [List.cons_append, List.cons_append, linesFrom, linesFrom]
    split
    · rw [ih, List.cons_append]
    · exact ih (line ++ [c])

/-- A line of a text is read as it stands. -/
theorem textLines_line {line : Text} (oneLine : '\n' ∉ line) (rest : Text) :
    textLines (line ++ '\n' :: rest) = stripCr line :: textLines rest := by
  have goesOn : ∀ start, linesFrom start (line ++ '\n' :: rest) =
      stripCr (start ++ line) :: textLines rest := by
    induction line with
    | nil =>
      intro start
      rw [List.nil_append, linesFrom, if_pos rfl, List.append_nil]
      rfl
    | cons c line ih =>
      intro start
      obtain ⟨other, oneLine⟩ := not_or.mp (mt List.mem_cons.mpr oneLine)
      rw [List.cons_append, linesFrom, if_neg (Ne.symm other), ih oneLine]
      simp
  exact goesOn []

/-- A text that ends with a line end has as many lines as line ends. -/
theorem length_textLines (text : Text) :
    (textLines (text ++ ['\n'])).length = text.count '\n' + 1 := by
  have goesOn : ∀ start, (linesFrom start (text ++ ['\n'])).length = text.count '\n' + 1 := by
    induction text with
    | nil =>
      intro start
      rfl
    | cons c text ih =>
      intro start
      rw [List.cons_append, linesFrom]
      split
      · rename_i lineEnd
        rw [List.length_cons, ih, lineEnd, List.count_cons_self]
      · rename_i other
        rw [ih, List.count_cons_of_ne other]
  exact goesOn []

theorem stripCr_of_last {line : Text} {c : Char} (other : c ≠ '\r') :
    stripCr (line ++ [c]) = line ++ [c] := by
  rw [stripCr, List.getLast?_concat, if_neg (by simpa using other)]

section

variable {β : Type} {f : Text → Option β}

/-- Texts that a search cannot tell apart at the end of a line, it cannot tell apart at all. -/
theorem findSome?_linesFrom_congr {ending ending' : Text}
    (same : ∀ line, (linesFrom line ending).findSome? f = (linesFrom line ending').findSome? f)
    (line text : Text) :
    (linesFrom line (text ++ ending)).findSome? f =
      (linesFrom line (text ++ ending')).findSome? f := by
  induction text generalizing line with
  | nil => exact same line
  | cons c text ih =>
    rw [List.cons_append, List.cons_append, linesFrom, linesFrom]
    split
    · rw [List.findSome?_cons, List.findSome?_cons, ih]
    · exact ih (line ++ [c])

variable (blank : f [] = none)
include blank

theorem findSome?_linesFrom_nil (line : Text) : (linesFrom line []).findSome? f = f line := by
  rw [linesFrom]
  split
  · rename_i empty
    rw [empty, blank]
    rfl
  · exact List.findSome?_singleton

variable (stripped : ∀ line, f (stripCr line) = f line)
include stripped

/-- A line end makes no difference to a search that finds nothing in an empty line and does not look
at a CR at the end of one. -/
theorem findSome?_textLines_lf (text : Text) :
    (textLines (text ++ ['\n'])).findSome? f = (textLines text).findSome? f := by
  have ends : ∀ line, (linesFrom line ['\n']).findSome? f = (linesFrom line []).findSome? f := by
    intro line
    rw [findSome?_linesFrom_nil blank, ← stripped line]
    exact List.findSome?_singleton
  have same := findSome?_linesFrom_congr ends [] text
  rwa [List.append_nil] at same

theorem findSome?_textLines_cr (text : Text) :
    (textLines (text ++ ['\r'])).findSome? f = (textLines text).findSome? f := by
  have ends : ∀ line, (linesFrom line ['\r']).findSome? f = (linesFrom line []).findSome? f := by
    intro line
    have opened : linesFrom line ['\r'] = linesFrom (line ++ ['\r']) [] := rfl
    have strip : stripCr (line ++ ['\r']) = line := by
      rw [stripCr, if_pos List.getLast?_concat, List.dropLast_concat]
    rw [opened, findSome?_linesFrom_nil blank, findSome?_linesFrom_nil blank, ← stripped, strip]
  have same := findSome?_linesFrom_congr ends [] text
  rwa [List.append_nil] at same

/-- What is found in the first text is found first. -/
theorem findSome?_textLines_append (first second : Text) :
    (textLines (first ++ '\n' :: second)).findSome? f =
      ((textLines first).findSome? f).or ((textLines second).findSome? f) := by
  have closed := findSome?_textLines_lf blank stripped first
  rw [textLines] at closed
  rw [textLines, linesFrom_append, List.findSome?_append, closed]

end

/-! ### Slices -/

/-- The characters after the first `n` octets, if these end between characters. -/
def dropOctets : Nat → Text → Option Text
  | 0, text => some text
  | _ + 1, [] => none
  | n + 1, c :: text => if c.utf8Size ≤ n + 1 then dropOctets (n + 1 - c.utf8Size) text else none
termination_by _ text => text.length

/-- The front of a text that has `n` octets is its slice up to there. -/
theorem takeOctets_iff {n : Nat} {text front : Text} :
    takeOctets n text = some front ↔ front <+: text ∧ (encodeUtf8 front).length = n := by
  have positive : ∀ front : Text, (encodeUtf8 front).length = 0 → front = [] := by
    intro front none
    cases front with
    | nil => rfl
    | cons c front =>
      rw [length_encodeUtf8_cons] at none
      have := c.utf8Size_pos
      omega
  induction text generalizing n front with
  | nil =>
    cases n with
    | zero =>
      rw [takeOctets, List.prefix_nil]
      constructor
      · rintro ⟨⟩
        exact ⟨rfl, rfl⟩
      · rintro ⟨rfl, -⟩
        rfl
    | succ n =>
      rw [takeOctets, List.prefix_nil]
      refine iff_of_false (by simp) ?_
      rintro ⟨rfl, length⟩
      contradiction
  | cons c text ih =>
    cases n with
    | zero =>
      rw [takeOctets]
      constructor
      · rintro ⟨⟩
        exact ⟨List.nil_prefix, rfl⟩
      · rintro ⟨-, none⟩
        rw [positive front none]
    | succ n =>
      rw [takeOctets]
      constructor
      · intro taken
        split at taken
        · obtain ⟨rest, later, rfl⟩ := Option.map_eq_some_iff.mp taken
          obtain ⟨start, length⟩ := ih.mp later
          refine ⟨List.cons_prefix_cons.mpr ⟨rfl, start⟩, ?_⟩
          rw [length_encodeUtf8_cons]
          omega
        · contradiction
      · rintro ⟨start, length⟩
        cases front with
        | nil => contradiction
        | cons d front =>
          obtain ⟨rfl, later⟩ := List.cons_prefix_cons.mp start
          rw [length_encodeUtf8_cons] at length
          have rest : (encodeUtf8 front).length = n + 1 - d.utf8Size := by omega
          rw [if_pos (by omega), ih.mpr ⟨later, rest⟩]
          rfl

/-- A slice that can be taken up to an octet can be taken from there on. -/
theorem dropOctets_append (front back : Text) :
    dropOctets (encodeUtf8 front).length (front ++ back) = some back := by
  induction front with
  | nil =>
    show dropOctets 0 back = some back
    rw [dropOctets]
  | cons c front ih =>
    have size := c.utf8Size_pos
    obtain ⟨n, length⟩ : ∃ n, c.utf8Size + (encodeUtf8 front).length = n + 1 :=
      ⟨c.utf8Size + (encodeUtf8 front).length - 1, by omega⟩
    rw [length_encodeUtf8_cons, length, List.cons_append, dropOctets, if_pos (by omega),
      show n + 1 - c.utf8Size = (encodeUtf8 front).length from by omega, ih]

end Carriers.ProofKit
