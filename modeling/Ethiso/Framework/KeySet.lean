import Mathlib.Data.Set.Insert
import Mathlib.Logic.Function.Basic

/-!
# The keys of a table

A table is a partial function, a key is in it if it has a value there. Putting a value
adds its key, removing a key takes it out, and both leave all other keys alone.
-/

namespace Ethiso

variable {κ ν : Type*}

/-- The keys that have a value. -/
def keys (m : κ → Option ν) : Set κ := { k | m k ≠ none }

variable {m : κ → Option ν} {j k : κ} {v w : ν}

theorem mem_keys : k ∈ keys m ↔ m k ≠ none := Iff.rfl

theorem mem_keys_iff_exists : k ∈ keys m ↔ ∃ v, m k = some v := Option.ne_none_iff_exists'

theorem keys_empty : keys (fun _ : κ => (none : Option ν)) = ∅ := by
  ext k
  rw [mem_keys]
  simp

variable [DecidableEq κ]

/-- What is in a table after a value was put. -/
theorem put_eq_some_iff :
    Function.update m k (some v) j = some w ↔ (j = k ∧ v = w) ∨ (j ≠ k ∧ m j = some w) := by
  by_cases h : j = k
  · rw [h, Function.update_self, Option.some_inj]
    simp
  · rw [Function.update_of_ne h]
    simp [h]

/-- What is in a table after a key was removed. -/
theorem remove_eq_some_iff : Function.update m k none j = some w ↔ j ≠ k ∧ m j = some w := by
  by_cases h : j = k
  · rw [h, Function.update_self]
    simp
  · rw [Function.update_of_ne h, and_iff_right h]

/-- Putting adds the key. -/
theorem keys_put : keys (Function.update m k (some v)) = insert k (keys m) := by
  ext j
  rw [Set.mem_insert_iff, mem_keys, mem_keys]
  by_cases h : j = k
  · rw [h, Function.update_self]
    simp
  · rw [Function.update_of_ne h, or_iff_right h]

/-- Removing takes it away. -/
theorem keys_remove : keys (Function.update m k none) = keys m \ {k} := by
  ext j
  rw [Set.mem_sdiff, Set.mem_singleton_iff, mem_keys, mem_keys]
  by_cases h : j = k
  · rw [h, Function.update_self]
    simp
  · rw [Function.update_of_ne h, and_iff_left h]

end Ethiso
