import Mathlib.Data.List.Infix
import Mathlib.Data.List.Basic

/-! Splitting a list at the first occurrence of a separator, or at the last occurrence of an
element, with the conditions under which a split undoes a concatenation, and splitting it into
chunks of one length. -/

namespace Carriers.ProofKit

variable {α : Type} [DecidableEq α]

/-- The parts before and after the first occurrence of `sep`. -/
def splitOnce (sep : List α) : List α → Option (List α × List α)
  | [] => if sep = [] then some ([], []) else none
  | x :: xs =>
    if sep <+: x :: xs then some ([], (x :: xs).drop sep.length)
    else (splitOnce sep xs).map fun parts => (x :: parts.1, parts.2)

/-- The parts before and after the last occurrence of `c`. -/
def rsplitOnce (c : α) : List α → Option (List α × List α)
  | [] => none
  | x :: xs =>
    match rsplitOnce c xs with
    | some (before, after) => some (x :: before, after)
    | none => if x = c then some ([], xs) else none

theorem splitOnce_sound {sep xs before after : List α}
    (h : splitOnce sep xs = some (before, after)) : xs = before ++ sep ++ after := by
  induction xs generalizing before with
  | nil =>
    simp only [splitOnce] at h
    split at h
    · rename_i empty
      obtain ⟨rfl, rfl⟩ : [] = before ∧ [] = after := by simpa using h
      simp [empty]
    · contradiction
  | cons x xs ih =>
    simp only [splitOnce] at h
    split at h
    · rename_i start
      obtain ⟨rfl, rfl⟩ : [] = before ∧ (x :: xs).drop sep.length = after := by simpa using h
      simpa using (List.prefix_iff_eq_append.mp start).symm
    · obtain ⟨⟨b, a⟩, hb, hparts⟩ := Option.map_eq_some_iff.mp h
      obtain ⟨rfl, rfl⟩ : x :: b = before ∧ a = after := by simpa using hparts
      simpa using ih hb

/-- A separator whose first element does not recur in it cannot overlap itself, so text without
it is split off whole. -/
theorem splitOnce_append {c : α} {sep : List α} (unbordered : c ∉ sep) {before : List α}
    (after : List α) (absent : ¬(c :: sep) <:+: before) :
    splitOnce (c :: sep) (before ++ (c :: sep) ++ after) = some (before, after) := by
  induction before with
  | nil => simp [splitOnce]
  | cons x before ih =>
    have tail : ¬(c :: sep) <:+: before := fun h => absent (List.infix_cons h)
    have start : ¬(c :: sep) <+: x :: (before ++ (c :: sep) ++ after) := by
      intro h
      obtain ⟨rest, hrest⟩ := h
      obtain ⟨rfl, htail⟩ : c = x ∧ sep ++ rest = before ++ (c :: (sep ++ after)) := by
        simpa using hrest
      rcases List.append_eq_append_iff.mp htail with ⟨middle, hbefore, -⟩ | ⟨middle, hsep, hmid⟩
      · exact absent ⟨[], middle, by simp [hbefore]⟩
      · cases middle with
        | nil => exact absent ⟨[], [], by simpa using hsep⟩
        | cons y middle =>
          have hy : c = y := by simpa using congrArg List.head? hmid
          exact unbordered (by simp [hsep, ← hy])
    simp only [List.cons_append, splitOnce, if_neg start]
    have := ih tail
    simp only [List.append_assoc, List.cons_append] at this
    simp [this]

/-- No occurrence of the separator lies in the part before the one that was found. -/
theorem splitOnce_first {sep xs before after : List α} (nonempty : sep ≠ [])
    (h : splitOnce sep xs = some (before, after)) : ¬sep <:+: before := by
  induction xs generalizing before with
  | nil => simp [splitOnce, nonempty] at h
  | cons x xs ih =>
    simp only [splitOnce] at h
    split at h
    · obtain ⟨rfl, -⟩ : [] = before ∧ _ := by simpa using h
      simpa using nonempty
    · rename_i start
      obtain ⟨⟨b, a⟩, hb, hparts⟩ := Option.map_eq_some_iff.mp h
      obtain ⟨rfl, rfl⟩ : x :: b = before ∧ a = after := by simpa using hparts
      intro infix'
      rcases List.infix_cons_iff.mp infix' with here | later
      · have whole : x :: xs = (x :: b) ++ (sep ++ a) := by simpa using splitOnce_sound hb
        exact start (whole ▸ List.prefix_append_of_prefix here)
      · exact ih hb later

/-- A list with an occurrence of the separator has a first one. -/
theorem splitOnce_exists {sep xs : List α} (h : sep <:+: xs) :
    ∃ before after, splitOnce sep xs = some (before, after) := by
  induction xs with
  | nil => exact ⟨[], [], by simp [splitOnce, List.infix_nil.mp h]⟩
  | cons x xs ih =>
    by_cases start : sep <+: x :: xs
    · exact ⟨_, _, by rw [splitOnce, if_pos start]⟩
    · obtain ⟨before, after, hsplit⟩ := ih ((List.infix_cons_iff.mp h).resolve_left start)
      exact ⟨x :: before, after, by rw [splitOnce, if_neg start, hsplit]; rfl⟩

/-- The separator that follows `before` is the first one exactly when `before` has none. -/
theorem splitOnce_append_iff {c : α} {sep : List α} (unbordered : c ∉ sep)
    {before after : List α} :
    splitOnce (c :: sep) (before ++ (c :: sep) ++ after) = some (before, after) ↔
      ¬(c :: sep) <:+: before :=
  ⟨splitOnce_first (List.cons_ne_nil c sep), splitOnce_append unbordered after⟩

theorem rsplitOnce_eq_none {c : α} {xs : List α} : rsplitOnce c xs = none ↔ c ∉ xs := by
  induction xs with
  | nil => simp [rsplitOnce]
  | cons x xs ih =>
    simp only [rsplitOnce, List.mem_cons, not_or]
    cases h : rsplitOnce c xs with
    | none =>
      by_cases hx : x = c
      · simp [hx]
      · simp [hx, ih.mp h, Ne.symm hx]
    | some parts => simp [mt ih.mpr (by simp [h])]

theorem rsplitOnce_append {c : α} (before : List α) {after : List α} (absent : c ∉ after) :
    rsplitOnce c (before ++ c :: after) = some (before, after) := by
  induction before with
  | nil => simp [rsplitOnce, rsplitOnce_eq_none.mpr absent]
  | cons x before ih => simp [rsplitOnce, ih]

theorem rsplitOnce_sound {c : α} {xs before after : List α}
    (h : rsplitOnce c xs = some (before, after)) : xs = before ++ c :: after ∧ c ∉ after := by
  induction xs generalizing before with
  | nil => simp [rsplitOnce] at h
  | cons x xs ih =>
    simp only [rsplitOnce] at h
    split at h
    · rename_i b a hparts
      obtain ⟨rfl, rfl⟩ : x :: b = before ∧ a = after := by simpa using h
      simpa using ih hparts
    · rename_i absent
      split at h
      · rename_i hx
        obtain ⟨rfl, rfl⟩ : [] = before ∧ xs = after := by simpa using h
        exact ⟨by simp [hx], rsplitOnce_eq_none.mp absent⟩
      · contradiction

/-! ### Chunks -/

section

variable {β : Type}

/-- The chunks of `size` elements of a list that continues the unfinished chunk `chunk`. -/
def chunksFrom (size : Nat) (chunk : List β) : List β → List (List β)
  | [] => if chunk.isEmpty then [] else [chunk]
  | x :: xs =>
    if chunk.length + 1 = size then (chunk ++ [x]) :: chunksFrom size [] xs
    else chunksFrom size (chunk ++ [x]) xs

/-- The list in chunks of `size` elements, the last of which may be shorter. -/
def chunks (size : Nat) (xs : List β) : List (List β) := chunksFrom size [] xs

theorem flatten_chunksFrom (size : Nat) (chunk xs : List β) :
    (chunksFrom size chunk xs).flatten = chunk ++ xs := by
  induction xs generalizing chunk with
  | nil =>
    rw [chunksFrom]
    split
    · rename_i empty
      rw [List.isEmpty_iff.mp empty]
      rfl
    · rw [List.flatten_singleton, List.append_nil]
  | cons x xs ih =>
    rw [chunksFrom]
    split
    · rw [List.flatten_cons, ih, List.nil_append, List.append_assoc, List.singleton_append]
    · rw [ih, List.append_assoc, List.singleton_append]

theorem flatten_chunks (size : Nat) (xs : List β) : (chunks size xs).flatten = xs :=
  flatten_chunksFrom size [] xs

theorem chunksFrom_full {size : Nat} {chunk front : List β} (nonempty : front ≠ [])
    (full : chunk.length + front.length = size) (back : List β) :
    chunksFrom size chunk (front ++ back) = (chunk ++ front) :: chunks size back := by
  induction front generalizing chunk with
  | nil => contradiction
  | cons x front ih =>
    rw [List.cons_append, chunksFrom]
    cases front with
    | nil => rw [if_pos (by simpa using full), List.nil_append, chunks]
    | cons y front =>
      have unfinished : chunk.length + 1 ≠ size := by
        intro finished
        simp only [List.length_cons] at full
        omega
      rw [if_neg unfinished, ih (List.cons_ne_nil y front) (by simp at full ⊢; omega),
        List.append_assoc, List.singleton_append]

theorem chunks_full {size : Nat} {front : List β} (nonempty : front ≠ [])
    (full : front.length = size) (back : List β) :
    chunks size (front ++ back) = front :: chunks size back :=
  chunksFrom_full nonempty (by simpa using full) back

theorem chunksFrom_short {size : Nat} {chunk xs : List β} (nonempty : chunk ++ xs ≠ [])
    (short : chunk.length + xs.length < size) : chunksFrom size chunk xs = [chunk ++ xs] := by
  induction xs generalizing chunk with
  | nil =>
    rw [List.append_nil] at nonempty ⊢
    rw [chunksFrom, if_neg (mt List.isEmpty_iff.mp nonempty)]
  | cons x xs ih =>
    have unfinished : chunk.length + 1 ≠ size := by
      intro finished
      simp only [List.length_cons] at short
      omega
    rw [chunksFrom, if_neg unfinished, ih (by simp) (by simp at short ⊢; omega), List.append_assoc,
      List.singleton_append]

/-- A list that fits in one chunk is one. -/
theorem chunks_short {size : Nat} {xs : List β} (nonempty : xs ≠ []) (short : xs.length ≤ size) :
    chunks size xs = [xs] := by
  rcases Nat.lt_or_eq_of_le short with less | full
  · exact chunksFrom_short nonempty (by simpa using less)
  · have whole := chunks_full nonempty full []
    rwa [List.append_nil] at whole

end

end Carriers.ProofKit
