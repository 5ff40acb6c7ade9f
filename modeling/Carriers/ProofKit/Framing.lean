import Mathlib.Data.List.Basic

/-! Streams read line by line, and the lists that consist of whole lines. -/

namespace Carriers.ProofKit

variable {α : Type} [DecidableEq α] {c : α}

/-- The line that ends at the first `c`, with that `c`, and what follows it. -/
def cutLine (c : α) : List α → Option (List α × List α)
  | [] => none
  | x :: xs =>
    if x = c then some ([x], xs) else (cutLine c xs).map fun parts => (x :: parts.1, parts.2)

theorem cutLine_append {body : List α} (absent : c ∉ body) (rest : List α) :
    cutLine c (body ++ c :: rest) = some (body ++ [c], rest) := by
  induction body with
  | nil => simp [cutLine]
  | cons x body ih =>
    simp only [List.mem_cons, not_or] at absent
    simp [cutLine, Ne.symm absent.1, ih absent.2]

theorem cutLine_eq_none {xs : List α} : cutLine c xs = none ↔ c ∉ xs := by
  induction xs with
  | nil => simp [cutLine]
  | cons x xs ih =>
    by_cases hx : x = c
    · simp [cutLine, hx]
    · simp [cutLine, hx, ih, Ne.symm hx]

theorem cutLine_sound {xs line rest : List α} (h : cutLine c xs = some (line, rest)) :
    ∃ body, c ∉ body ∧ line = body ++ [c] ∧ xs = body ++ c :: rest := by
  have present : c ∈ xs := by
    by_contra absent
    simp [cutLine_eq_none.mpr absent] at h
  obtain ⟨body, after, rfl, absent⟩ := List.eq_append_cons_of_mem present
  obtain ⟨rfl, rfl⟩ : body ++ [c] = line ∧ after = rest := by
    simpa [cutLine_append absent] using h
  exact ⟨body, absent, rfl, rfl⟩

/-- A list of whole lines, each ended by `c`. -/
inductive WholeLines (c : α) : List α → Prop
  | nil : WholeLines c []
  | line {body rest : List α} (absent : c ∉ body) (lines : WholeLines c rest) :
      WholeLines c (body ++ c :: rest)

omit [DecidableEq α] in
theorem wholeLines_of_getLast {xs : List α} (h : xs = [] ∨ xs.getLast? = some c) :
    WholeLines c xs := by
  induction hn : xs.length using Nat.strongRecOn generalizing xs with
  | _ n ih =>
    rcases h with rfl | last
    · exact .nil
    · obtain ⟨body, rest, rfl, absent⟩ :=
        List.eq_append_cons_of_mem (List.mem_of_getLast? last)
      refine .line absent (ih rest.length ?_ ?_ rfl)
      · simp at hn
        omega
      · cases rest with
        | nil => exact .inl rfl
        | cons x rest => exact .inr (by simpa [List.getLast?_append, List.getLast?_cons] using last)

end Carriers.ProofKit
