import Mathlib.Algebra.BigOperators.Group.List.Basic
import Mathlib.Algebra.Order.BigOperators.Group.List

/-!
# Budgets

A budget is a bound on a quantity that is only added to. A charge is an amount that is not
negative, and it is turned down if it would exceed the bound (`charge`).

Since a partial sum of such amounts is at most their sum, a list of charges goes through
if and only if the sum stays within the bound (`charges_eq_some`). So the order of the
charges does not matter, nor whether they are made one by one or at once.
-/

namespace Ethiso

variable {G : Type*} [AddCommMonoid G] [LinearOrder G] {bound x y : G} {l l' : List G}

/-- The quantity after the charge, if it goes through. -/
def charge (bound x amount : G) : Option G :=
  if 0 ≤ amount ∧ x + amount ≤ bound then some (x + amount) else none

/-- One charge after the other. -/
def charges (bound x : G) (l : List G) : Option G := l.foldlM (charge bound) x

/-- What a charge says: the amount is not negative and the bound is kept. -/
theorem charge_eq_some {amount : G} :
    charge bound x amount = some y ↔ (0 ≤ amount ∧ x + amount ≤ bound) ∧ x + amount = y := by
  unfold charge
  rw [Option.ite_none_right_eq_some, Option.some_inj]

variable [IsOrderedAddMonoid G]

/-- **The sum decides.** -/
theorem charges_eq_some : charges bound x l = some y ↔
    (∀ a ∈ l, 0 ≤ a) ∧ (l ≠ [] → x + l.sum ≤ bound) ∧ x + l.sum = y := by
  unfold charges
  induction l generalizing x with
  | nil => simp
  | cons a l ih =>
    rw [List.foldlM_cons, List.forall_mem_cons, List.sum_cons, ← add_assoc]
    simp only [Option.bind_eq_bind, Option.bind_eq_some_iff, charge_eq_some]
    refine ⟨?_, ?_⟩
    · rintro ⟨_, ⟨⟨h_a, h_le⟩, rfl⟩, h_rest⟩
      obtain ⟨h_nonneg, h_sum, h_y⟩ := ih.mp h_rest
      refine ⟨⟨h_a, h_nonneg⟩, fun _ => ?_, h_y⟩
      by_cases h_nil : l = []
      · rw [h_nil, List.sum_nil, add_zero]
        exact h_le
      · exact h_sum h_nil
    · rintro ⟨⟨h_a, h_nonneg⟩, h_sum, h_y⟩
      have h_le := h_sum (List.cons_ne_nil a l)
      -- the rest is not negative, so the bound is kept on the way
      have h_first : x + a ≤ x + a + l.sum := le_add_of_nonneg_right (List.sum_nonneg h_nonneg)
      exact ⟨x + a, ⟨⟨h_a, h_first.trans h_le⟩, rfl⟩, ih.mpr ⟨h_nonneg, fun _ => h_le, h_y⟩⟩

/-- The order of the charges does not matter. -/
theorem charges_perm (h : l'.Perm l) : charges bound x l' = charges bound x l := by
  have h_nil : l' = [] ↔ l = [] := by
    rw [← List.length_eq_zero_iff, ← List.length_eq_zero_iff, h.length_eq]
  ext y
  rw [charges_eq_some, charges_eq_some, h.sum_eq, forall_congr' fun a => imp_congr_left h.mem_iff,
    ne_eq, ne_eq, h_nil]

/-- Charges that go through one by one go through at once. -/
theorem charge_sum (h_ne : l ≠ []) (h : charges bound x l = some y) :
    charge bound x l.sum = some y := by
  obtain ⟨h_nonneg, h_sum, h_y⟩ := charges_eq_some.mp h
  exact charge_eq_some.mpr ⟨⟨List.sum_nonneg h_nonneg, h_sum h_ne⟩, h_y⟩

/-- What goes through at once goes through in pieces. -/
theorem charges_of_charge_sum (h_nonneg : ∀ a ∈ l, 0 ≤ a) (h : charge bound x l.sum = some y) :
    charges bound x l = some y := by
  obtain ⟨⟨-, h_sum⟩, h_y⟩ := charge_eq_some.mp h
  exact charges_eq_some.mpr ⟨h_nonneg, fun _ => h_sum, h_y⟩

end Ethiso
