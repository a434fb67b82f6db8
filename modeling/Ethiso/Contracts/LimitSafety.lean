import Ethiso.Contracts.OwnFigures

/-!
# Limit safety of payments

A payment that is reported as successful should raise the sender's debt by
exactly its amount and leave it within the payee's limit and the sender's own
allow. The contract compares words, not amounts: the debt it computes is
reduced modulo `2 ^ 256` and read as a signed word, so a sum of `2 ^ 255` or
more reads as a negative debt, which is within any limit.

`limitSafe_iff_debtFits` makes this exact: along a run of the contract, every
successful payment is safe if and only if no payment that reaches the
comparison has an exact resulting debt of `2 ^ 255` or more. One direction
needs that limits and allows are never negative, which is the invariant
`World.FiguresNonneg`; it is also what makes the comparison succeed in the
other.
-/

namespace Ethiso

open CreditLedger

/-- The debt of `us` to `them` as an exact integer: the cell holds it from the
point of view of p1. -/
def PaymentService.debt (s : PaymentService) (us them : Address) (ccy : String) : ℤ :=
  if senderIsP1Against us them then -(s.getTrustlineValue us them ccy).p2OwesP1Amount.toInt
  else (s.getTrustlineValue us them ccy).p2OwesP1Amount.toInt

/-- If the transaction is a payment that emits error type 0, the sender's debt
has grown by exactly the amount, and is within the limit `them` has set on the
sender and the allow the sender has set towards `them`. -/
def LimitSafe (s : PaymentService) : Address × TrustlineCall → Prop
  | (sender, .sendPayment them ccy amount messageId additionalProperties) =>
    let r := s.sendPayment sender them ccy amount messageId additionalProperties
    (∃ fromBank m message, Event.resultMessage fromBank m message 0 ∈ r.events) →
      r.state.debt sender them ccy = s.debt sender them ccy + amount.toInt ∧
        r.state.debt sender them ccy ≤ (r.state.getLimit them sender ccy false).toInt ∧
        r.state.debt sender them ccy ≤ (r.state.getAllow sender them ccy false).toInt
  | _ => True

/-- If the transaction is a payment that passes the checks on the payee and the
sign of the amount, its exact resulting debt is below `2 ^ 255`. -/
def DebtFits (s : PaymentService) : Address × TrustlineCall → Prop
  | (sender, .sendPayment them ccy amount _ _) =>
    them = 0 ∨ them = sender ∨ amount.toInt < 0 ∨
      s.debt sender them ccy + amount.toInt < 2 ^ 255
  | _ => True

/-! ### Words and exact debts -/

/-- A number in range is not wrapped. -/
theorem bmod_of_lt {x : ℤ} (h₁ : -2 ^ 255 ≤ x) (h₂ : x < 2 ^ 255) :
    x.bmod (2 ^ 256) = x := by
  unfold Int.bmod
  push_cast
  split <;> omega

/-- One above the range is wrapped once. -/
theorem bmod_of_le {x : ℤ} (h₁ : 2 ^ 255 ≤ x) (h₂ : x < 2 ^ 256 + 2 ^ 255) :
    x.bmod (2 ^ 256) = x - 2 ^ 256 := by
  unfold Int.bmod
  push_cast
  split <;> omega

namespace PaymentService

variable (s : PaymentService) (us them : Address) (ccy : String) (amount : Int256)

/-- The debt the contract computes is the exact one, reduced to a word. -/
theorem owed_add_toInt :
    (s.toLedger.owed us them ccy + amount).toInt =
      (s.debt us them ccy + amount.toInt).bmod (2 ^ 256) := by
  change (s.getAmountOwedTo us them ccy + amount).toInt = _
  unfold getAmountOwedTo debt
  dsimp only
  -- as p1 the sender is told the negated cell
  split
  · rw [show -1 * (s.getTrustlineValue us them ccy).p2OwesP1Amount + amount =
      amount - (s.getTrustlineValue us them ccy).p2OwesP1Amount by ring, BitVec.toInt_sub]
    congr 1
    ring
  · rw [BitVec.toInt_add]

/-- The exact debt after the write of an accepted payment. As p1 the sender's
debt is the negated cell, and it is the cell that is reduced to a word. -/
theorem book_debt :
    (s.book us them ccy amount).debt us them ccy =
      if senderIsP1Against us them then
        -(-(s.debt us them ccy + amount.toInt)).bmod (2 ^ 256)
      else (s.debt us them ccy + amount.toInt).bmod (2 ^ 256) := by
  -- the cell that is read is the one that was written
  have h_cell : (s.book us them ccy amount).getTrustlineValue us them ccy =
      { s.getTrustlineValue us them ccy with
        p2OwesP1Amount :=
          if senderIsP1Against us them then
            (s.getTrustlineValue us them ccy).p2OwesP1Amount - amount
          else (s.getTrustlineValue us them ccy).p2OwesP1Amount + amount } := by
    unfold book
    rw [getTrustlineValue_putTrustlineValue, if_pos ⟨Or.inl ⟨rfl, rfl⟩, rfl⟩]
  unfold debt
  rw [h_cell]
  -- the sign depends on which of the two parties the cell is written for
  by_cases h_role : senderIsP1Against us them = true
  · simp only [if_pos h_role, BitVec.toInt_sub]
    congr 2
    ring
  · simp only [if_neg h_role, BitVec.toInt_add]

theorem debt_bounds :
    -2 ^ 255 ≤ s.debt us them ccy ∧ s.debt us them ccy ≤ 2 ^ 255 ∧
      (senderIsP1Against us them = true → -2 ^ 255 < s.debt us them ccy) := by
  have h_lo := (s.getTrustlineValue us them ccy).p2OwesP1Amount.le_toInt
  have h_hi := (s.getTrustlineValue us them ccy).p2OwesP1Amount.toInt_lt
  unfold debt
  split
  · exact ⟨by omega, by omega, fun _ => by omega⟩
  · next h => exact ⟨by omega, by omega, fun hc => absurd hc h⟩

variable {s us them ccy amount}

/-- A debt that fits is booked exactly. -/
theorem book_debt_of_lt (h_nonneg : 0 ≤ amount.toInt)
    (h : s.debt us them ccy + amount.toInt < 2 ^ 255) :
    (s.book us them ccy amount).debt us them ccy = s.debt us them ccy + amount.toInt := by
  obtain ⟨h_lo, -, h_p1⟩ := s.debt_bounds us them ccy
  rw [book_debt]
  split
  · next h_role =>
    have h_lo' := h_p1 h_role
    rw [bmod_of_lt (by omega) (by omega), neg_neg]
  · rw [bmod_of_lt (by omega) h]

/-- A debt that does not fit is booked wrongly, or it is the one debt that no
limit can reach: `2 ^ 255`, which p1 owes when its cell is the least word. -/
theorem book_debt_of_le (h : 2 ^ 255 ≤ s.debt us them ccy + amount.toInt) :
    (s.book us them ccy amount).debt us them ccy ≠ s.debt us them ccy + amount.toInt ∨
      2 ^ 255 ≤ (s.book us them ccy amount).debt us them ccy := by
  have h_amount := amount.toInt_lt
  obtain ⟨-, h_hi, -⟩ := s.debt_bounds us them ccy
  rw [book_debt]
  split
  -- the least word is its own negation: this is the one debt that is booked exactly
  · rcases eq_or_lt_of_le h with h_eq | h_lt
    · apply Or.inr
      rw [← h_eq, bmod_of_lt (by omega) (by omega), neg_neg]
    · apply Or.inl
      have h_wrap : (-(s.debt us them ccy + amount.toInt)).bmod (2 ^ 256) =
          2 ^ 256 - (s.debt us them ccy + amount.toInt) := by
        unfold Int.bmod
        push_cast
        split <;> omega
      rw [h_wrap]
      omega
  · apply Or.inl
    rw [bmod_of_le h (by omega)]
    omega

end PaymentService

/-! ### The invariant -/

/-- No limit and no allow is ever negative. -/
structure World.FiguresNonneg (w : World) : Prop where
  limit : ∀ a b ccy, 0 ≤ (w.contract.toLedger.limit a b ccy).toInt
  allow : ∀ a b ccy, 0 ≤ (w.contract.toLedger.allow a b ccy).toInt

/-- One transaction keeps the figures from being negative. -/
theorem World.FiguresNonneg.step {w : World} (h : w.FiguresNonneg)
    (tx : Address × TrustlineCall) : (w.step tx).FiguresNonneg where
  limit a b ccy := exec_figure_nonneg (F := .limit) (h.limit a b ccy) tx.1 tx.2
  allow a b ccy := exec_figure_nonneg (F := .allow) (h.allow a b ccy) tx.1 tx.2

theorem World.after_figuresNonneg (txs : List (Address × TrustlineCall)) :
    (World.after txs).FiguresNonneg := by
  refine run_invariant ⟨fun a b ccy => ?_, fun a b ccy => ?_⟩ (fun w tx h => h.step tx) txs
  · rw [World.figuresOwned_init.limit]
    exact le_refl _
  · rw [World.figuresOwned_init.allow]
    exact le_refl _

/-! ### The result -/

section Payment

variable {s : PaymentService} {sender them : Address} {ccy : String} {amount : Int256}
  {messageId additionalProperties : String}

/-- A payment that is not taken emits no error type 0. -/
theorem limitSafe_of_not_admits (h : ¬s.Admits sender them ccy amount) :
    LimitSafe s (sender, .sendPayment them ccy amount messageId additionalProperties) := by
  obtain ⟨message, errorType, succeeded, h_err, h_eq⟩ :=
    s.sendPayment_refused ccy amount messageId additionalProperties h
  unfold LimitSafe
  dsimp only
  rw [h_eq]
  rintro ⟨fromBank, m, msg, h_mem⟩
  have h_event := List.mem_singleton.mp h_mem
  exact absurd (Event.resultMessage.inj h_event).2.2.2.symm h_err

/-- A payment that is taken is safe when the debt it books is. -/
theorem limitSafe_of_admits (h : s.Admits sender them ccy amount) :
    LimitSafe s (sender, .sendPayment them ccy amount messageId additionalProperties) ↔
      (s.book sender them ccy amount).debt sender them ccy =
          s.debt sender them ccy + amount.toInt ∧
        (s.book sender them ccy amount).debt sender them ccy ≤
          (s.toLedger.limit them sender ccy).toInt ∧
        (s.book sender them ccy amount).debt sender them ccy ≤
          (s.toLedger.allow sender them ccy).toInt := by
  have h_books : (s.book sender them ccy amount).toLedger =
      s.toLedger.pay sender them ccy amount := PaymentService.book_toLedger _ _ _ h.2.1.symm
  -- a payment changes no limit and no allowance
  have h_limit : (s.book sender them ccy amount).getLimit them sender ccy false =
      s.toLedger.limit them sender ccy :=
    congrFun₃ (congrArg CreditLedger.limit h_books) them sender ccy
  have h_allow : (s.book sender them ccy amount).getAllow sender them ccy false =
      s.toLedger.allow sender them ccy :=
    congrFun₃ (congrArg CreditLedger.allow h_books) sender them ccy
  unfold LimitSafe
  dsimp only
  rw [PaymentService.sendPayment_admitted _ _ _ _ _ h]
  dsimp only
  rw [h_limit, h_allow]
  exact forall_prop_of_true ⟨sender, messageId, "payment successful", by simp⟩

/-- A debt that does not fit reads as a negative word, which is within every
figure that is not negative. -/
theorem owed_sle_of_le {v : Int256} (h_v : 0 ≤ v.toInt)
    (h : 2 ^ 255 ≤ s.debt sender them ccy + amount.toInt) :
    (s.toLedger.owed sender them ccy + amount).sle v = true := by
  have h_amount := amount.toInt_lt
  obtain ⟨-, h_hi, -⟩ := s.debt_bounds sender them ccy
  rw [BitVec.sle_iff_toInt_le, PaymentService.owed_add_toInt, bmod_of_le h (by omega)]
  omega

end Payment

/-- **One payment** against non-negative figures is safe exactly when its debt fits. -/
theorem World.FiguresNonneg.limitSafe_iff {w : World} (h : w.FiguresNonneg)
    (tx : Address × TrustlineCall) : LimitSafe w.contract tx ↔ DebtFits w.contract tx := by
  -- a setter emits no result, so only payments matter
  obtain ⟨sender, call⟩ := tx
  cases call with
  | setLimit them ccy amount => exact Iff.rfl
  | setAllow them ccy amount => exact Iff.rfl
  | sendPayment them ccy amount messageId additionalProperties =>
    by_cases h_adm : w.contract.Admits sender them ccy amount
    · obtain ⟨h_zero, h_self, h_neg, h_limit, h_allow⟩ := id h_adm
      have h_nonneg := slt_zero_eq_false_iff.mp h_neg
      rw [BitVec.sle_iff_toInt_le, PaymentService.owed_add_toInt] at h_limit h_allow
      rw [limitSafe_of_admits h_adm]
      refine ⟨?_, ?_⟩
      · rintro ⟨h_grow, h_le, -⟩
        refine Or.inr (Or.inr (Or.inr ?_))
        by_contra h_big
        have h_limit_lt := (w.contract.toLedger.limit them sender ccy).toInt_lt
        rcases PaymentService.book_debt_of_le (not_lt.mp h_big) with h_wrong | h_huge
        · exact h_wrong h_grow
        · omega
      · rintro (hc | hc | hc | h_fits)
        · exact absurd hc h_zero
        · exact absurd hc h_self
        · exact absurd hc (not_lt.mpr h_nonneg)
        · -- the debt compared is the exact one
          have h_lo := (w.contract.debt_bounds sender them ccy).1
          rw [bmod_of_lt (by omega) h_fits] at h_limit h_allow
          rw [PaymentService.book_debt_of_lt h_nonneg h_fits]
          exact ⟨rfl, h_limit, h_allow⟩
    -- a payment that is not taken is safe, so its debt has to fit: one that does not
    -- would have been taken
    · refine ⟨fun _ => ?_, fun _ => limitSafe_of_not_admits h_adm⟩
      unfold DebtFits
      dsimp only
      by_contra hc
      push Not at hc
      obtain ⟨h_zero, h_self, h_nonneg, h_big⟩ := hc
      exact h_adm ⟨h_zero, h_self, slt_zero_eq_false_iff.mpr h_nonneg,
        owed_sle_of_le (h.limit _ _ _) h_big, owed_sle_of_le (h.allow _ _ _) h_big⟩

/-- **Limit safety.** Along a run, every payment reported as successful is safe
if and only if every payment that reaches the comparison has an exact resulting
debt below `2 ^ 255`. -/
theorem limitSafe_iff_debtFits (txs : List (Address × TrustlineCall)) :
    Along (fun pre tx => LimitSafe (World.after pre).contract tx) txs ↔
      Along (fun pre tx => DebtFits (World.after pre).contract tx) txs :=
  along_congr fun pre tx => (World.after_figuresNonneg pre).limitSafe_iff tx

/-- The run of the counterexample: with a limit and an allow of 1, the smaller
address pays 1 and then `2 ^ 255 - 1`. -/
def wrapRun : List (Address × TrustlineCall) :=
  [(2, .setLimit 1 "GBP" 1), (1, .setAllow 2 "GBP" 1),
    (1, .sendPayment 2 "GBP" 1 "m1" "{}"), (1, .sendPayment 2 "GBP" (2 ^ 255 - 1) "m2" "{}")]

/-- The second payment of `wrapRun` is reported as successful, and is not safe. -/
theorem not_limitSafe_wrapRun :
    ¬Along (fun pre tx => LimitSafe (World.after pre).contract tx) wrapRun := by
  intro h
  have h_last := h [(2, .setLimit 1 "GBP" 1), (1, .setAllow 2 "GBP" 1),
    (1, .sendPayment 2 "GBP" 1 "m1" "{}")] (1, .sendPayment 2 "GBP" (2 ^ 255 - 1) "m2" "{}") [] rfl
  obtain ⟨-, h_le, -⟩ := h_last ⟨1, "m2", "payment successful", by decide +kernel⟩
  exact absurd h_le (by decide +kernel)

end Ethiso
