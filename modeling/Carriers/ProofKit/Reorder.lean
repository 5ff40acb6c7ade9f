import Carriers.ProofKit.Proc
import Mathlib.Data.List.AList
import Mathlib.Data.List.Forall2

/-! Runs over a collection that comes in no particular order: folds whose steps commute, maps that
have the same entries in some order, and what sorting by distinct keys makes of a collection. -/

namespace Carriers.ProofKit

/-! ### Folds -/

section
variable {σ α ε : Type} {step : σ → α → Except ε σ} {R : σ → σ → Prop}

/-- Steps that keep a relation keep it over a run. -/
theorem foldlM_related
    (same : ∀ s s' a t, R s s' → step s a = .ok t → ∃ t', step s' a = .ok t' ∧ R t t')
    {xs : List α} {s s' t : σ} (start : R s s') (run : xs.foldlM step s = .ok t) :
    ∃ t', xs.foldlM step s' = .ok t' ∧ R t t' := by
  induction xs generalizing s s' with
  | nil =>
    cases run
    exact ⟨s', rfl, start⟩
  | cons x xs ih =>
    obtain ⟨mid, first, rest⟩ := except_bind_ok.mp run
    obtain ⟨mid', first', related⟩ := same s s' x mid start first
    obtain ⟨t', rest', final⟩ := ih related rest
    exact ⟨t', except_bind_ok.mpr ⟨mid', first', rest'⟩, final⟩

/-- A run whose steps commute up to a relation ends the same in every order. -/
theorem foldlM_perm {P : α → α → Prop} (refl : ∀ s, R s s)
    (trans : ∀ s₁ s₂ s₃, R s₁ s₂ → R s₂ s₃ → R s₁ s₃)
    (same : ∀ s s' a t, R s s' → step s a = .ok t → ∃ t', step s' a = .ok t' ∧ R t t')
    (symm : ∀ a b, P a b → P b a)
    (swap : ∀ s a b t u, P a b → step s a = .ok t → step t b = .ok u →
      ∃ t' u', step s b = .ok t' ∧ step t' a = .ok u' ∧ R u u')
    {xs ys : List α} (perm : xs.Perm ys) (apart : xs.Pairwise P) {s s' t : σ} (start : R s s')
    (run : xs.foldlM step s = .ok t) : ∃ t', ys.foldlM step s' = .ok t' ∧ R t t' := by
  induction perm generalizing s s' t with
  | nil => exact foldlM_related same start run
  | cons x perm ih =>
    obtain ⟨mid, first, rest⟩ := except_bind_ok.mp run
    obtain ⟨mid', first', related⟩ := same s s' x mid start first
    obtain ⟨t', rest', final⟩ := ih apart.of_cons related rest
    exact ⟨t', except_bind_ok.mpr ⟨mid', first', rest'⟩, final⟩
  | swap x y xs =>
    obtain ⟨mid, first, run⟩ := except_bind_ok.mp run
    obtain ⟨two, second, rest⟩ := except_bind_ok.mp run
    have distinct : P y x := (List.pairwise_cons.mp apart).1 x List.mem_cons_self
    obtain ⟨other, two', secondFirst, firstSecond, swapped⟩ :=
      swap s y x mid two distinct first second
    obtain ⟨other', secondFirst', related⟩ := same s s' x other start secondFirst
    obtain ⟨two'', firstSecond', moved⟩ := same other other' y two' related firstSecond
    obtain ⟨t', rest', final⟩ := foldlM_related same (trans _ _ _ swapped moved) rest
    exact ⟨t', except_bind_ok.mpr ⟨other', secondFirst', except_bind_ok.mpr
      ⟨two'', firstSecond', rest'⟩⟩, final⟩
  | trans first second ih₁ ih₂ =>
    obtain ⟨mid, run₁, related₁⟩ := ih₁ apart (refl s) run
    have apart' := (first.pairwise_iff fun {a b} => symm a b).mp apart
    obtain ⟨t', run₂, related₂⟩ := ih₂ apart' start run₁
    exact ⟨t', run₂, trans _ _ _ related₁ related₂⟩

end

/-- Runs over related elements are the same if related elements make the same step. -/
theorem foldlM_congr {σ α ε : Type} {step : σ → α → Except ε σ} {R : α → α → Prop}
    (same : ∀ s a b, R a b → step s a = step s b) {xs ys : List α} (related : List.Forall₂ R xs ys)
    (s : σ) : xs.foldlM step s = ys.foldlM step s := by
  induction related generalizing s with
  | nil => rfl
  | cons first later ih =>
    rw [List.foldlM_cons, List.foldlM_cons, same s _ _ first]
    exact congrArg _ (funext ih)

theorem map_related {α κ : Type} {key : α → κ} {R : α → α → Prop}
    (keeps : ∀ a b, R a b → key a = key b) {xs ys : List α} (same : List.Forall₂ R xs ys) :
    xs.map key = ys.map key := by
  induction same with
  | nil => rfl
  | cons first later ih => rw [List.map_cons, List.map_cons, keeps _ _ first, ih]

/-! ### Maps -/

section
variable {κ β : Type} [DecidableEq κ]

/-- The maps have the same entries. -/
def SameEntries (map map' : AList fun _ : κ => β) : Prop := ∀ key, map.lookup key = map'.lookup key

theorem sameEntries_refl (map : AList fun _ : κ => β) : SameEntries map map := fun _ => rfl

theorem SameEntries.trans {map map' map'' : AList fun _ : κ => β} (first : SameEntries map map')
    (second : SameEntries map' map'') : SameEntries map map'' := fun key =>
  (first key).trans (second key)

theorem SameEntries.insert {map map' : AList fun _ : κ => β} (h : SameEntries map map') (key : κ)
    (value : β) : SameEntries (map.insert key value) (map'.insert key value) := by
  intro other
  by_cases same : other = key
  · rw [same, AList.lookup_insert, AList.lookup_insert]
  · rw [AList.lookup_insert_ne same, AList.lookup_insert_ne same, h other]

/-- Entries under different keys can be made in either order. -/
theorem sameEntries_insert_insert (map : AList fun _ : κ => β) {key key' : κ} (other : key ≠ key')
    (value value' : β) :
    SameEntries ((map.insert key value).insert key' value')
      ((map.insert key' value').insert key value) := by
  intro k
  by_cases first : k = key
  · rw [first, AList.lookup_insert_ne other, AList.lookup_insert, AList.lookup_insert]
  · rw [AList.lookup_insert_ne first]
    by_cases second : k = key'
    · rw [second, AList.lookup_insert, AList.lookup_insert]
    · rw [AList.lookup_insert_ne second, AList.lookup_insert_ne second,
        AList.lookup_insert_ne first]

theorem SameEntries.mem_keys {map map' : AList fun _ : κ => β} (h : SameEntries map map')
    (key : κ) : key ∈ map.keys ↔ key ∈ map'.keys := by
  rw [← AList.mem_keys, ← AList.mem_keys, ← AList.lookup_isSome, ← AList.lookup_isSome, h key]

theorem SameEntries.keys_perm {map map' : AList fun _ : κ => β} (h : SameEntries map map') :
    map.keys.Perm map'.keys :=
  (List.perm_ext_iff_of_nodup map.keys_nodup map'.keys_nodup).mpr h.mem_keys

end

/-! ### Sorting -/

section
variable {α κ : Type} [LinearOrder κ] (key : α → κ)

theorem pairwise_mergeSort_key (xs : List α) :
    (xs.mergeSort fun a b => key a ≤ key b).Pairwise fun a b => key a ≤ key b := by
  simpa using @List.pairwise_mergeSort α (fun a b => decide (key a ≤ key b))
    (by simpa using fun a b c => le_trans) (by simp [le_total]) xs

/-- Sorted by distinct keys, a collection is the same list in every order. -/
theorem mergeSort_perm_eq {xs ys : List α} (perm : xs.Perm ys) (distinct : (xs.map key).Nodup) :
    (xs.mergeSort fun a b => key a ≤ key b) = ys.mergeSort fun a b => key a ≤ key b := by
  have same : (xs.mergeSort fun a b => key a ≤ key b).Perm
      (ys.mergeSort fun a b => key a ≤ key b) :=
    (List.mergeSort_perm xs _).trans (perm.trans (List.mergeSort_perm ys _).symm)
  refine List.Perm.eq_of_pairwise (fun a b inFirst inSecond first second => ?_)
    (pairwise_mergeSort_key key xs) (pairwise_mergeSort_key key ys) same
  have inXs : a ∈ xs := (List.mergeSort_perm xs _).mem_iff.mp inFirst
  have inXs' : b ∈ xs := perm.mem_iff.mpr ((List.mergeSort_perm ys _).mem_iff.mp inSecond)
  exact List.inj_on_of_nodup_map distinct inXs inXs' (le_antisymm first second)

/-- Collections of related elements, with the same distinct keys, are related once they are
sorted. -/
theorem mergeSort_related {R : α → α → Prop} (keeps : ∀ a b, R a b → key a = key b)
    {xs order ys : List α} (distinct : (xs.map key).Nodup) (perm : xs.Perm order)
    (same : List.Forall₂ R order ys) :
    List.Forall₂ R (xs.mergeSort fun a b => key a ≤ key b)
      (ys.mergeSort fun a b => key a ≤ key b) := by
  obtain ⟨sorted, related, back⟩ := List.perm_comp_forall₂ (List.mergeSort_perm order _) same
  have keys := map_related keeps related
  have ascending : sorted.Pairwise fun a b => key a ≤ key b := by
    have first := List.pairwise_map.mpr (pairwise_mergeSort_key key order)
    rw [keys] at first
    exact List.pairwise_map.mp first
  have distinctYs : (sorted.map key).Nodup := by
    rw [← keys]
    exact (((List.mergeSort_perm order _).trans perm.symm).map key).nodup_iff.mpr distinct
  have settled : (sorted.mergeSort fun a b => key a ≤ key b) = sorted :=
    List.mergeSort_of_pairwise (by simpa using ascending)
  rw [mergeSort_perm_eq key perm distinct, ← mergeSort_perm_eq key back distinctYs, settled]
  exact related

end

end Carriers.ProofKit
