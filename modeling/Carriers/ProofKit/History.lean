import Mathlib.Data.List.Basic
import Mathlib.Data.List.DropRight

/-! Histories, read from their end: the part of a list after the last element with a property, and
the part from the first one on. -/

namespace Carriers.ProofKit

variable {α : Type}

/-- The part of `xs` after its last element that satisfies `p`, or all of it. -/
def since (p : α → Bool) (xs : List α) : List α := xs.rtakeWhile fun x => !p x

/-- The part of `xs` from its first element that satisfies `p` on. -/
def fromFirst (p : α → Bool) (xs : List α) : List α := xs.dropWhile fun x => !p x

@[simp] theorem since_nil (p : α → Bool) : since p [] = [] := rfl

theorem since_concat (p : α → Bool) (xs : List α) (x : α) :
    since p (xs ++ [x]) = if p x then [] else since p xs ++ [x] := by
  unfold since
  by_cases h : p x
  · rw [List.rtakeWhile_concat_neg, if_pos h]
    simp [h]
  · rw [List.rtakeWhile_concat_pos, if_neg h]
    simp [h]

@[simp] theorem fromFirst_nil (p : α → Bool) : fromFirst p [] = [] := rfl

theorem fromFirst_concat_of_nil {p : α → Bool} {xs : List α} (h : fromFirst p xs = []) (x : α) :
    fromFirst p (xs ++ [x]) = if p x then [x] else [] := by
  have none : ∀ y ∈ xs, (!p y) = true := List.dropWhile_eq_nil_iff.mp h
  rw [fromFirst, List.dropWhile_append_of_pos none]
  by_cases hx : p x <;> simp [hx]

theorem fromFirst_concat_of_ne {p : α → Bool} {xs : List α} (h : fromFirst p xs ≠ []) (x : α) :
    fromFirst p (xs ++ [x]) = fromFirst p xs ++ [x] := by
  rw [fromFirst, List.dropWhile_append, if_neg]
  · rfl
  · simpa [fromFirst] using h

end Carriers.ProofKit
