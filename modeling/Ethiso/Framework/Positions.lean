import Ethiso.Framework.CreditLedger
import Mathlib.Algebra.BigOperators.Group.Finset.Piecewise
import Mathlib.Algebra.Order.BigOperators.Group.List
import Mathlib.Data.Fintype.Basic

/-!
# Positions

What all the others owe to a party is its position. If the debts account for a list of transfers,
the position is what was paid to the party less what it paid (`Accounts.position`).
-/

namespace Ethiso.CreditLedger

open Finset

variable {α κ R G : Type*} [DecidableEq α] [DecidableEq κ] [AddCommGroup G] [AddCommGroup R]
  (l : List (Transfer α κ G)) (a : α) (k : κ)

/-- The amounts that are paid to the party. -/
def income : G := ((l.filter fun t => t.payee = a ∧ t.ccy = k).map Transfer.amount).sum

/-- The amounts that the party pays. -/
def expense : G := ((l.filter fun t => t.payer = a ∧ t.ccy = k).map Transfer.amount).sum

/-- The income from one transfer and the others. -/
theorem income_cons (t : Transfer α κ G) :
    income (t :: l) a k = (if t.payee = a ∧ t.ccy = k then t.amount else 0) + income l a k := by
  unfold income
  rw [List.filter_cons]
  split_ifs <;> simp_all

/-- The expense of one transfer and the others. -/
theorem expense_cons (t : Transfer α κ G) :
    expense (t :: l) a k = (if t.payer = a ∧ t.ccy = k then t.amount else 0) + expense l a k := by
  unfold expense
  rw [List.filter_cons]
  split_ifs <;> simp_all

theorem total_cons (t : Transfer α κ G) (b : α) :
    total (t :: l) a b k =
      (if a = t.payer ∧ b = t.payee ∧ k = t.ccy then t.amount else 0) + total l a b k := by
  simp [total]

theorem total_append (l' : List (Transfer α κ G)) (b : α) :
    total (l ++ l') a b k = total l a b k + total l' a b k := by
  simp [total]

/-- The order of the transfers is of no matter. -/
theorem total_perm {l l' : List (Transfer α κ G)} (h : l.Perm l') (a b : α) (k : κ) :
    total l a b k = total l' a b k :=
  (h.map _).sum_eq

/-- Totals of amounts that are not negative. -/
theorem total_nonneg [PartialOrder G] [AddLeftMono G] {l : List (Transfer α κ G)} {a b : α} {k : κ}
    (h : ∀ t ∈ l, a = t.payer → b = t.payee → 0 ≤ t.amount) : 0 ≤ total l a b k := by
  unfold total
  refine List.sum_nonneg fun x h_x => ?_
  obtain ⟨t, h_t, rfl⟩ := List.mem_map.mp h_x
  split_ifs with h_if
  · exact h t h_t h_if.1 h_if.2.1
  · exact le_refl 0

variable [Fintype α]

/-- Whoever paid, it was paid to the party. -/
theorem sum_total_payer : ∑ b, total l b a k = income l a k := by
  induction l with
  | nil => simp [total, income]
  | cons t l ih =>
    simp only [total_cons, sum_add_distrib, ih, income_cons]
    congr 1
    -- there is one payer
    by_cases h : t.payee = a ∧ t.ccy = k
    · rw [if_pos h]
      simp [h.1.symm, h.2.symm]
    · rw [if_neg h]
      refine sum_eq_zero fun b _ => if_neg fun hc => h ⟨hc.2.1.symm, hc.2.2.symm⟩

/-- An expense is what all payees got. -/
theorem sum_total_payee : ∑ b, total l a b k = expense l a k := by
  induction l with
  | nil => simp [total, expense]
  | cons t l ih =>
    simp only [total_cons, sum_add_distrib, ih, expense_cons]
    congr 1
    by_cases h : t.payer = a ∧ t.ccy = k
    · rw [if_pos h]
      simp [h.1.symm, h.2.symm]
    · rw [if_neg h]
      refine sum_eq_zero fun b _ => if_neg fun hc => h ⟨hc.1.symm, hc.2.2.symm⟩

/-- **The position of a party**, if the debts account for the transfers. -/
theorem Accounts.position {f : G →+ R} {l : List (Transfer α κ G)} {L : CreditLedger α κ R}
    (h : Accounts f l L) (a : α) (k : κ) :
    ∑ b, L.owed b a k = f (income l a k - expense l a k) :=
  calc ∑ b, L.owed b a k = ∑ b, f (net l b a k) := sum_congr rfl fun b _ => h b a k
    _ = f (∑ b, (total l b a k - total l a b k)) := (map_sum f _ _).symm
    _ = f (income l a k - expense l a k) := by
      rw [sum_sub_distrib, sum_total_payer, sum_total_payee]

end Ethiso.CreditLedger
