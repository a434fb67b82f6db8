import Ethiso.Domain.TrustlineValue
import Ethiso.Framework.Budget

/-!
# Payments in one direction

As long as all payments go through one handle, the figures in force stay as they are, and
the balance of the handle only grows. So the payments are charges to a budget
(`sendPayments_eq`), and it matters neither in which order they are made nor whether an
amount is split (`oneWay`).
-/

namespace Ethiso.Domain

/-- The state that a call leaves if it returns. -/
def Invocation.returned {σ : Type*} (r : Invocation σ) : Option σ :=
  r.thrown.elim (some r.state) fun _ => none

/-- A method that returns threw nothing. -/
theorem Invocation.returned_eq_some {σ : Type*} {r : Invocation σ} {s : σ} :
    r.returned = some s ↔ r = ⟨s, none⟩ := by
  obtain ⟨state, thrown⟩ := r
  cases thrown with
  | none => simp [returned]
  | some e => simp [returned]

namespace TrustlineValue

variable (tv : TrustlineValue) (o : DefaultTrustlineView)

/-- The payments through the handle, one after the other, if none of the calls throws. -/
def sendPayments (amounts : List ℤ) : Option DefaultTrustlineView :=
  amounts.foldlM (fun o amount => (tv.sendPayment o amount).returned) o

/-! ### The handle's budget -/

@[simp] theorem inForce_withBalance (balance : ℤ) (p : Party) :
    (tv.withBalance o balance).inForce p = o.inForce p := by
  cases p <;> rfl

@[simp] theorem withBalance_withBalance (balance balance' : ℤ) :
    tv.withBalance (tv.withBalance o balance) balance' = tv.withBalance o balance' := rfl

@[simp] theorem getBalance_withBalance (balance : ℤ) :
    tv.getBalance (tv.withBalance o balance) = balance := by
  rw [getBalance_eq]
  exact Party.signed_signed _ _

/-- Setting the balance that is there changes nothing. -/
theorem withBalance_getBalance : tv.withBalance o (tv.getBalance o) = o := by
  unfold withBalance
  rw [getBalance_eq, Party.signed_signed]

/-- A payment is a charge to the balance. -/
theorem returned_sendPayment (amount : ℤ) :
    (tv.sendPayment o amount).returned =
      (charge (o.inForce tv.view.owner) (tv.getBalance o) amount).map (tv.withBalance o) := by
  rcases tv.sendPayment_cases o amount with ⟨h_acc, h_eq⟩ | ⟨h_rej, e, h_eq⟩
  · have h_charge := charge_eq_some.mpr ⟨h_acc, rfl⟩
    rw [h_eq, h_charge]
    rfl
  · have h_charge : charge (o.inForce tv.view.owner) (tv.getBalance o) amount = none :=
      if_neg h_rej
    rw [h_eq, h_charge]
    rfl

/-- **Payments are charges**: each adds to the balance or all are refused. By induction on the
amounts. -/
theorem sendPayments_eq (amounts : List ℤ) :
    tv.sendPayments o amounts =
      (charges (o.inForce tv.view.owner) (tv.getBalance o) amounts).map (tv.withBalance o) := by
  unfold sendPayments charges
  induction amounts generalizing o with
  | nil => exact congrArg some (tv.withBalance_getBalance o).symm
  | cons amount amounts ih =>
    rw [List.foldlM_cons, List.foldlM_cons, returned_sendPayment]
    -- the first payment is refused, or the rest goes on with its balance
    cases charge (o.inForce tv.view.owner) (tv.getBalance o) amount with
    | none => rfl
    | some balance =>
      show List.foldlM _ (tv.withBalance o balance) amounts = _
      rw [ih, inForce_withBalance, getBalance_withBalance]
      rfl

/-! ### Order and splitting -/

/-- If the amounts are accepted one after the other, so they are in any other order, and so is
their sum; and if the sum of amounts that are not negative is accepted, so are the amounts in
any order. The objects are the same afterwards. -/
structure OneWay (amounts : List ℤ) : Prop where
  reorder : ∀ o', tv.sendPayments o amounts = some o' →
    ∀ l : List ℤ, l.Perm amounts → tv.sendPayments o l = some o'
  join : amounts ≠ [] → ∀ o', tv.sendPayments o amounts = some o' →
    tv.sendPayment o amounts.sum = ⟨o', none⟩
  split : (∀ amount ∈ amounts, 0 ≤ amount) → ∀ o', tv.sendPayment o amounts.sum = ⟨o', none⟩ →
    ∀ l : List ℤ, l.Perm amounts → tv.sendPayments o l = some o'

/-- The order of the payments does not matter. -/
theorem sendPayments_perm {l amounts : List ℤ} (h : l.Perm amounts) :
    tv.sendPayments o l = tv.sendPayments o amounts := by
  rw [sendPayments_eq, sendPayments_eq, charges_perm h]

/-- **Order and splitting do not matter.** -/
theorem oneWay (amounts : List ℤ) : tv.OneWay o amounts where
  reorder o' h l h_perm := (tv.sendPayments_perm o h_perm).trans h
  join := by
    intro h_ne o' h
    rw [sendPayments_eq, Option.map_eq_some_iff] at h
    obtain ⟨balance, h_all, rfl⟩ := h
    rw [← Invocation.returned_eq_some, returned_sendPayment, charge_sum h_ne h_all]
    rfl
  -- a single payment of the sum is made of its parts, in any order
  split := by
    intro h_nonneg o' h l h_perm
    rw [← Invocation.returned_eq_some, returned_sendPayment, Option.map_eq_some_iff] at h
    obtain ⟨balance, h_sum, rfl⟩ := h
    rw [tv.sendPayments_perm o h_perm, sendPayments_eq, charges_of_charge_sum h_nonneg h_sum]
    rfl

end TrustlineValue

end Ethiso.Domain
