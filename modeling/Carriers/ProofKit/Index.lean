import Mathlib.Data.List.AList

/-! Indexes: values entered into a map one after the other, each under its key.  A later value
replaces an earlier one of the same key, so an index has all the values, whatever their order,
when no two of them share a key. -/

namespace Carriers.ProofKit

variable {κ α : Type*} [DecidableEq κ] (key : α → κ)

/-- `map` after the values are entered. -/
def enter (map : AList fun _ : κ => α) (values : List α) : AList fun _ : κ => α :=
  values.foldl (fun map value => map.insert (key value) value) map

variable {key} {map : AList fun _ : κ => α} {values : List α}

theorem enter_cons (value : α) :
    enter key map (value :: values) = enter key (map.insert (key value) value) values := rfl

/-- What an index has under a key was entered under it, or was there before. -/
theorem lookup_enter_sound {k : κ} {found : α}
    (lookup : (enter key map values).lookup k = some found) :
    (found ∈ values ∧ key found = k) ∨ map.lookup k = some found := by
  induction values generalizing map with
  | nil => exact .inr lookup
  | cons value values ih =>
    rcases ih lookup with ⟨member, same⟩ | before
    · exact .inl ⟨List.mem_cons_of_mem _ member, same⟩
    · by_cases same : k = key value
      · rw [same, AList.lookup_insert] at before
        cases before
        exact .inl ⟨List.mem_cons_self, same.symm⟩
      · rw [AList.lookup_insert_ne same] at before
        exact .inr before

/-- A key of the map stays one. -/
theorem lookup_enter_isSome {k : κ} (before : (map.lookup k).isSome) :
    ((enter key map values).lookup k).isSome := by
  induction values generalizing map with
  | nil => exact before
  | cons value values ih =>
    apply ih
    by_cases same : k = key value
    · rw [same, AList.lookup_insert]
      rfl
    · rwa [AList.lookup_insert_ne same]

/-- Every value's key leads somewhere. -/
theorem lookup_enter_complete {value : α} (member : value ∈ values) :
    ((enter key map values).lookup (key value)).isSome := by
  induction values generalizing map with
  | nil => contradiction
  | cons first values ih =>
    rcases List.mem_cons.mp member with rfl | later
    · have entered : ((map.insert (key value) value).lookup (key value)).isSome := by
        rw [AList.lookup_insert]
        rfl
      rw [enter_cons]
      exact lookup_enter_isSome entered
    · exact ih later

/-- An index of values with keys of their own has each of them, and nothing else. -/
theorem lookup_enter_iff (apart : ∀ a ∈ values, ∀ b ∈ values, key a = key b → a = b)
    {k : κ} {value : α} :
    (enter key ∅ values).lookup k = some value ↔ value ∈ values ∧ key value = k := by
  constructor
  · intro lookup
    exact (lookup_enter_sound lookup).resolve_right (by simp)
  · rintro ⟨member, rfl⟩
    have isSome : ((enter key ∅ values).lookup (key value)).isSome := lookup_enter_complete member
    obtain ⟨found, lookup⟩ := Option.isSome_iff_exists.mp isSome
    obtain ⟨other, same⟩ := (lookup_enter_sound lookup).resolve_right (by simp)
    rw [lookup, apart found other value member same]

theorem length_filter_key (values : List α) (k : κ) :
    (values.filter fun value => key value = k).length = (values.map key).count k := by
  rw [List.count, List.countP_map, List.countP_eq_length_filter]
  rfl

/-- Every value is the only one under its key exactly when no two values share a key. -/
theorem forall_filter_key_iff {β : Type*} (f : α → β) (values : List α) :
    (∀ value ∈ values, (values.filter fun other => key other = key value).map f = [f value]) ↔
      (values.map key).Nodup := by
  rw [List.nodup_iff_count_le_one]
  constructor
  · intro only k
    by_cases present : k ∈ values.map key
    · obtain ⟨value, member, rfl⟩ := List.mem_map.mp present
      have length := congrArg List.length (only value member)
      rw [List.length_map, length_filter_key] at length
      exact Nat.le_of_eq length
    · rw [List.count_eq_zero_of_not_mem present]
      exact Nat.zero_le 1
  · intro single value member
    have found : value ∈ values.filter fun other => key other = key value :=
      List.mem_filter.mpr ⟨member, decide_eq_true rfl⟩
    have length : (values.filter fun other => key other = key value).length ≤ 1 := by
      rw [length_filter_key]
      exact single (key value)
    have one := List.length_pos_of_mem found
    obtain ⟨other, alone⟩ := List.length_eq_one_iff.mp (Nat.le_antisymm length one)
    rw [alone] at found
    rw [alone, List.mem_singleton.mp found]
    rfl

end Carriers.ProofKit
