import Mathlib.Algebra.BigOperators.Group.List.Basic
import Mathlib.Data.Int.Basic
import Mathlib.Tactic.Ring

/-!
# Leases of shared resources

Each lease in a list is on a resource and has been given back a number of times, not necessarily
at most once. A resource is *held* if some lease on it was never given back. The *balance* of a
resource counts its leases and takes off the times they were given back: it is what a reference
counter shows.

A new lease and one that is given back move the balance by one (`balance_concat`,
`balance_set`). As long as no lease is given back twice, the balance is the number of leases that
hold the resource (`balance_eq_countP`), so a balance of zero says that it is not held.
-/

namespace Ethiso

variable {α κ : Type*} (resource : α → κ) (returns : α → ℕ)

/-- Some lease on the resource was never given back. -/
def Held (k : κ) (leases : List α) : Prop :=
  ∃ a ∈ leases, resource a = k ∧ returns a = 0

variable [DecidableEq κ]

/-- The leases on the resource, less the times they were given back. -/
def balance (k : κ) (leases : List α) : ℤ :=
  (leases.map fun a => if resource a = k then 1 - (returns a : ℤ) else 0).sum

variable {resource returns} {k : κ} {l : List α} {a b : α} {i : ℕ}

theorem balance_cons : balance resource returns k (a :: l) =
    (if resource a = k then 1 - (returns a : ℤ) else 0) + balance resource returns k l :=
  List.sum_cons

theorem balance_concat : balance resource returns k (l ++ [a]) =
    balance resource returns k l + if resource a = k then 1 - (returns a : ℤ) else 0 := by
  unfold balance
  rw [List.map_append, List.sum_append, List.map_singleton, List.sum_singleton]

/-- A resource without leases. -/
theorem balance_eq_zero (h : ∀ a ∈ l, resource a ≠ k) : balance resource returns k l = 0 := by
  induction l with
  | nil => rfl
  | cons a l ih =>
    rw [List.forall_mem_cons] at h
    rw [balance_cons, if_neg h.1, ih h.2, add_zero]

/-- Giving a lease back takes one off the balance of its resource. -/
theorem balance_set (h_a : l[i]? = some a) (h_resource : resource b = resource a)
    (h_returns : returns b = returns a + 1) :
    balance resource returns k (l.set i b) =
      balance resource returns k l - if resource a = k then 1 else 0 := by
  induction l generalizing i with
  | nil => cases h_a
  | cons c l ih =>
    -- only the first lease counts, and only if it is one of `k`
    cases i with
    | zero =>
      obtain rfl : c = a := Option.some.inj h_a
      rw [List.set_cons_zero, balance_cons, balance_cons, h_resource, h_returns]
      split_ifs
      · push_cast
        ring
      · ring
    | succ i =>
      rw [List.set_cons_succ, balance_cons, balance_cons, ih h_a]
      ring

/-- **The balance** is the number of leases that hold the resource, if none is given back twice. -/
theorem balance_eq_countP (h : ∀ a ∈ l, returns a ≤ 1) :
    balance resource returns k l = l.countP fun a => resource a = k ∧ returns a = 0 := by
  induction l with
  | nil => rfl
  | cons a l ih =>
    rw [List.forall_mem_cons] at h
    rw [balance_cons, ih h.2, List.countP_cons]
    have h_le := h.1
    by_cases h_a : resource a = k
    -- not returned: it counts for the resource
    · rcases Nat.eq_zero_or_pos (returns a) with h_zero | h_pos
      · simp [h_a, h_zero]
        ring
      -- returned: it does not
      · have h_one : returns a = 1 := le_antisymm h_le h_pos
        simp [h_a, h_one]
    · simp [h_a]

/-- Then it is zero exactly if the resource is not held. -/
theorem balance_eq_zero_iff (h : ∀ a ∈ l, returns a ≤ 1) :
    balance resource returns k l = 0 ↔ ¬Held resource returns k l := by
  rw [balance_eq_countP h, Nat.cast_eq_zero, List.countP_eq_zero]
  unfold Held
  simp

/-! ### Lists in which one item is replaced -/

/-- The others stay when one lease changes. -/
theorem mem_set_of_mem {c : α} (h_a : l[i]? = some a) (h_c : c ∈ l) (h_ne : c ≠ a) :
    c ∈ l.set i b := by
  obtain ⟨j, h_j⟩ := List.mem_iff_getElem?.mp h_c
  refine List.mem_iff_getElem?.mpr ⟨j, ?_⟩
  rw [List.getElem?_set_ne, h_j]
  rintro rfl
  exact h_ne (Option.some.inj (h_j.symm.trans h_a))

end Ethiso
