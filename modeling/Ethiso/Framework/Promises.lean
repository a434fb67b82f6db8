import Mathlib.Data.List.Nodup
import Mathlib.Logic.Function.Basic

/-!
# Promises that are kept by name

A component hands out promises, and remembers each of them under the name of the request
that it was made for. When the answer to a request arrives, the promise under its name is
taken from the table and fulfilled.

The `k`-th promise that was registered is the number `k`. As long as every name is used
once (`Sound`), no promise is fulfilled twice, however often answers arrive, and an
answer fulfils only the promise that was registered under its name.
-/

namespace Ethiso

/-- The names of the promises that were made, those that are pending, and the promises
that were fulfilled. -/
structure Promises (κ : Type*) where
  names : List κ
  pending : κ → Option ℕ
  fulfilled : List ℕ

namespace Promises

variable {κ : Type*}

/-- No promises. -/
def empty : Promises κ := ⟨[], fun _ => none, []⟩

section Operations

variable [DecidableEq κ]

/-- Makes a promise. One that is pending under the same name is forgotten. -/
def register (t : Promises κ) (name : κ) : Promises κ where
  names := t.names ++ [name]
  pending := Function.update t.pending name (some t.names.length)
  fulfilled := t.fulfilled

/-- Removes what is pending under the name, and fulfils it. -/
def fulfil (t : Promises κ) (name : κ) : Promises κ where
  names := t.names
  pending := Function.update t.pending name none
  fulfilled := t.fulfilled ++ (t.pending name).toList

end Operations

/-- No name was used twice, no promise was fulfilled twice, and none of those that are
pending was fulfilled. -/
structure Sound (t : Promises κ) : Prop where
  names : t.names.Nodup
  fulfilled : t.fulfilled.Nodup
  fulfilled_lt : ∀ k ∈ t.fulfilled, k < t.names.length
  pending : ∀ name k, t.pending name = some k → t.names[k]? = some name ∧ k ∉ t.fulfilled

theorem sound_empty : Sound (empty : Promises κ) where
  names := List.nodup_nil
  fulfilled := List.nodup_nil
  fulfilled_lt _ h := absurd h List.not_mem_nil
  pending _ _ h := absurd h (by simp [empty])

namespace Sound

variable {t : Promises κ} {name : κ} {k : ℕ}

/-- A name belongs to one promise. -/
theorem eq_of_name (h : t.Sound) {j : ℕ} (h_j : t.names[j]? = some name)
    (h_k : t.names[k]? = some name) : j = k := by
  obtain ⟨h_lt, -⟩ := List.getElem?_eq_some_iff.mp h_j
  exact (List.getElem?_inj h_lt h.names).mp (h_j.trans h_k.symm)

variable [DecidableEq κ]

/-- A fresh name may be registered. -/
theorem register (h : t.Sound) (h_fresh : name ∉ t.names) : (t.register name).Sound := by
  refine ⟨?_, h.fulfilled, ?_, ?_⟩
  · exact h.names.append (List.nodup_singleton name)
      (List.disjoint_singleton.mpr h_fresh)
  -- one more name was used
  · intro k h_k
    have h_lt := h.fulfilled_lt k h_k
    show k < (t.names ++ [name]).length
    rw [List.length_append]
    omega
  · intro n k h_k
    show (t.names ++ [name])[k]? = some n ∧ k ∉ t.fulfilled
    unfold Promises.register at h_k
    dsimp only at h_k
    by_cases h_name : n = name
    · -- the new promise
      rw [h_name, Function.update_self] at h_k
      obtain rfl := Option.some.inj h_k
      exact ⟨by rw [h_name]; simp, fun hc => Nat.lt_irrefl _ (h.fulfilled_lt _ hc)⟩
    · rw [Function.update_of_ne h_name] at h_k
      obtain ⟨h_at, h_not⟩ := h.pending n k h_k
      obtain ⟨h_lt, -⟩ := List.getElem?_eq_some_iff.mp h_at
      exact ⟨by rw [List.getElem?_append_left h_lt, h_at], h_not⟩

/-- Fulfilling keeps them sound. -/
theorem fulfil (h : t.Sound) (name : κ) : (t.fulfil name).Sound := by
  cases h_pending : t.pending name with
  | none =>
    have h_same : t.fulfil name = t := by
      unfold Promises.fulfil
      rw [h_pending, ← h_pending, Function.update_eq_self]
      simp [h_pending]
    rwa [h_same]
  | some k =>
    obtain ⟨h_at, h_not⟩ := h.pending name k h_pending
    obtain ⟨h_lt, -⟩ := List.getElem?_eq_some_iff.mp h_at
    have h_fulfilled : (t.fulfil name).fulfilled = t.fulfilled ++ [k] := by
      unfold Promises.fulfil
      rw [h_pending]
      rfl
    refine ⟨h.names, ?_, ?_, ?_⟩
    · rw [h_fulfilled]
      exact h.fulfilled.append (List.nodup_singleton k) (List.disjoint_singleton.mpr h_not)
    · rw [h_fulfilled]
      intro j h_j
      rcases List.mem_append.mp h_j with h_j | h_j
      · exact h.fulfilled_lt j h_j
      · rwa [List.mem_singleton.mp h_j]
    · intro n j h_j
      unfold Promises.fulfil at h_j
      dsimp only at h_j
      have h_name : n ≠ name := by
        rintro rfl
        rw [Function.update_self] at h_j
        exact absurd h_j (by simp)
      rw [Function.update_of_ne h_name] at h_j
      obtain ⟨h_at', h_not'⟩ := h.pending n j h_j
      refine ⟨h_at', ?_⟩
      rw [h_fulfilled, List.mem_append, List.mem_singleton, not_or]
      -- two names have two promises
      exact ⟨h_not', fun hc => h_name (Option.some.inj (h_at'.symm.trans (hc ▸ h_at)))⟩

end Sound

end Promises

end Ethiso
