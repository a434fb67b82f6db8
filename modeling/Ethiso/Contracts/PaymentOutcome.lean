import Ethiso.Contracts.Refinement

/-!
# What a payment call leaves behind, and what it says

`sendPayment` has three ways to tell its caller how it went: the state, the two
events and the return value. A payment is *settled* if all three report a
booked transfer (`Settled`), and *rejected* if all three report a failure
(`Rejected`). Callers rely on exactly one of the two being the case
(`AllOrNothing`).

Six of the seven exits of the function are consistent. The seventh is the
payment that passes the guards and exceeds a limit: it emits error type 4, and
then falls through to the `return true` at the end of the function
(`OverLimit`). `allOrNothing_iff` states that this is the only one.
-/

namespace Ethiso

/-- The `PaymentMessage` events among `events`. -/
def paymentMessages (events : List Event) : List Event :=
  events.filter fun
    | .paymentMessage .. => true
    | _ => false

/-- The `ResultMessage` events among `events`. -/
def resultMessages (events : List Event) : List Event :=
  events.filter fun
    | .resultMessage .. => true
    | _ => false

/-- The `PaymentMessage` and `ResultMessage` events among `events`, in order. -/
def paymentReports (events : List Event) : List Event :=
  events.filter fun
    | .paymentMessage .. => true
    | .resultMessage .. => true
    | _ => false

section Setters

variable (s : PaymentService) (sender them : Address) (ccy : String) (amount : Int256)

/-- A setter reports no payment, and its return value tells only the sign of the amount. -/
theorem setLimit_answer :
    (s.setLimit sender them ccy amount).succeeded = !amount.slt 0 ∧
      paymentReports (s.setLimit sender them ccy amount).events = [] := by
  unfold PaymentService.setLimit
  cases h_neg : amount.slt 0 with
  | true => exact ⟨rfl, rfl⟩
  | false =>
    dsimp only
    split_ifs <;> first | exact ⟨rfl, rfl⟩ | contradiction

/-- `setAllow` succeeds unless the amount is negative, and reports no payment. -/
theorem setAllow_answer :
    (s.setAllow sender them ccy amount).succeeded = !amount.slt 0 ∧
      paymentReports (s.setAllow sender them ccy amount).events = [] := by
  unfold PaymentService.setAllow
  cases h_neg : amount.slt 0 with
  | true => exact ⟨rfl, rfl⟩
  | false =>
    dsimp only
    split_ifs <;> first | exact ⟨rfl, rfl⟩ | contradiction

end Setters

section Outcome

variable (s : PaymentService) (sender them : Address) (ccy : String) (amount : Int256)
  (messageId additionalProperties : String)

/-- The payment went through: the balance of the pair has moved by the amount
and nothing else has changed, one `PaymentMessage` and one `ResultMessage` with
error type 0 were emitted, and the call returns true. -/
structure Settled (r : Result) : Prop where
  state : r.state = s.book sender them ccy amount
  payment : paymentMessages r.events =
    [.paymentMessage sender them messageId amount ccy additionalProperties]
  result : ∃ message, resultMessages r.events = [.resultMessage sender messageId message 0]
  succeeded : r.succeeded = true

/-- The payment did not go through: nothing has changed, no `PaymentMessage`
and one `ResultMessage` with another error type was emitted, and the call
returns false. -/
structure Rejected (r : Result) : Prop where
  state : r.state = s
  payment : paymentMessages r.events = []
  result : ∃ message errorType, errorType ≠ 0 ∧
    resultMessages r.events = [.resultMessage sender messageId message errorType]
  succeeded : r.succeeded = false

/-- The payment passes the guards on the payee and the sign of the amount, and
the debt the contract computes is above the payee's limit on the sender or
above the sender's own allow. -/
def OverLimit : Prop :=
  them ≠ 0 ∧ them ≠ sender ∧ amount.slt 0 = false ∧
    ¬((s.toLedger.owed sender them ccy + amount).sle (s.toLedger.limit them sender ccy) = true ∧
      (s.toLedger.owed sender them ccy + amount).sle (s.toLedger.allow sender them ccy) = true)

variable {s sender them ccy amount}

/-- A payment call emits its own `PaymentMessage` and `ResultMessage`s only. -/
theorem eq_of_mem_sendPayment {e : Event}
    (h : e ∈ (s.sendPayment sender them ccy amount messageId additionalProperties).events) :
    e = .paymentMessage sender them messageId amount ccy additionalProperties ∨
      ∃ message errorType, e = .resultMessage sender messageId message errorType := by
  unfold PaymentService.sendPayment at h
  dsimp only at h
  split_ifs at h
  all_goals first
    | exact Or.inr ⟨_, _, List.mem_singleton.mp h⟩
    | rcases List.mem_pair.mp h with h | h
      · exact Or.inl h
      · exact Or.inr ⟨_, _, h⟩

/-- An admitted payment is booked and reported. -/
theorem Settled.of_admits (h : s.Admits sender them ccy amount) :
    Settled s sender them ccy amount messageId additionalProperties
      (s.sendPayment sender them ccy amount messageId additionalProperties) := by
  rw [PaymentService.sendPayment_admitted _ _ _ _ _ h]
  exact ⟨rfl, rfl, ⟨"payment successful", rfl⟩, rfl⟩

/-- Each of the three guards emits its error and returns false. -/
theorem Rejected.of_guard (h : them = 0 ∨ them = sender ∨ amount.slt 0 = true) :
    Rejected s sender messageId
      (s.sendPayment sender them ccy amount messageId additionalProperties) := by
  unfold PaymentService.sendPayment
  by_cases h_zero : them = 0
  · rw [if_pos h_zero]
    exact ⟨rfl, rfl, ⟨_, 1, by decide, rfl⟩, rfl⟩
  by_cases h_self : them = sender
  · rw [if_neg h_zero, if_pos h_self]
    exact ⟨rfl, rfl, ⟨_, 2, by decide, rfl⟩, rfl⟩
  · have h_neg : amount.slt 0 = true := (h.resolve_left h_zero).resolve_left h_self
    rw [if_neg h_zero, if_neg h_self, if_pos h_neg]
    exact ⟨rfl, rfl, ⟨_, 3, by decide, rfl⟩, rfl⟩

/-- The exit that contradicts itself: the state and the events report a failure,
the return value a success. -/
theorem sendPayment_overLimit (h : OverLimit s sender them ccy amount) :
    s.sendPayment sender them ccy amount messageId additionalProperties =
      ⟨s, [.resultMessage sender messageId "payment would exceed limits" 4], true⟩ := by
  obtain ⟨h_zero, h_self, h_neg, h_over⟩ := h
  rw [PaymentService.sendPayment_eq s ccy amount _ _ h_zero h_self h_neg, if_neg]
  rwa [Bool.and_eq_true]

/-- The three kinds of payment. -/
theorem admits_or_guard_or_overLimit :
    s.Admits sender them ccy amount ∨ (them = 0 ∨ them = sender ∨ amount.slt 0 = true) ∨
      OverLimit s sender them ccy amount := by
  unfold PaymentService.Admits OverLimit
  cases h_neg : amount.slt 0 <;> tauto

end Outcome

/-- A payment is settled or rejected, and not both. -/
def AllOrNothing (s : PaymentService) : Address × TrustlineCall → Prop
  | (sender, .sendPayment them ccy amount messageId additionalProperties) =>
    let r := s.sendPayment sender them ccy amount messageId additionalProperties
    Xor (Settled s sender them ccy amount messageId additionalProperties r)
      (Rejected s sender messageId r)
  | _ => True

/-- The transaction is no payment that passes the guards and exceeds a limit. -/
def WithinLimits (s : PaymentService) : Address × TrustlineCall → Prop
  | (sender, .sendPayment them ccy amount _ _) => ¬OverLimit s sender them ccy amount
  | _ => True

/-- **One transaction** is all-or-nothing exactly when it is no payment over a limit. -/
theorem allOrNothing_step (s : PaymentService) (tx : Address × TrustlineCall) :
    AllOrNothing s tx ↔ WithinLimits s tx := by
  obtain ⟨sender, call⟩ := tx
  cases call with
  | setLimit them ccy amount => exact Iff.rfl
  | setAllow them ccy amount => exact Iff.rfl
  | sendPayment them ccy amount messageId additionalProperties =>
    unfold AllOrNothing WithinLimits
    dsimp only
    refine ⟨?_, ?_⟩
    · intro h h_over
      rw [sendPayment_overLimit _ _ h_over] at h
      rcases h with ⟨h_set, -⟩ | ⟨h_rej, -⟩
      -- no payment was reported, and no failure was returned
      · exact absurd h_set.payment (by simp [paymentMessages])
      · exact Bool.false_ne_true h_rej.succeeded.symm
    · intro h
      rcases admits_or_guard_or_overLimit with h_adm | h_guard | h_over
      · have h_set := Settled.of_admits messageId additionalProperties h_adm
        exact Or.inl ⟨h_set, fun h_rej =>
          Bool.false_ne_true (h_rej.succeeded.symm.trans h_set.succeeded)⟩
      · have h_rej : Rejected s sender messageId
            (s.sendPayment sender them ccy amount messageId additionalProperties) :=
          Rejected.of_guard messageId additionalProperties h_guard
        exact Or.inr ⟨h_rej, fun h_set =>
          Bool.false_ne_true (h_rej.succeeded.symm.trans h_set.succeeded)⟩
      · exact absurd h_over h

/-- **All or nothing.** Along a run of the contract, every payment is settled or
rejected in all its signals at once if and only if no payment that passes the
guards exceeds a limit. -/
theorem allOrNothing_iff (txs : List (Address × TrustlineCall)) :
    Along (fun pre tx => AllOrNothing (World.after pre).contract tx) txs ↔
      Along (fun pre tx => WithinLimits (World.after pre).contract tx) txs :=
  along_congr fun pre tx => allOrNothing_step (World.after pre).contract tx

/-- In the empty contract nobody has allowed anything: a payment of 1 emits error
type 4 and returns true. -/
theorem not_allOrNothing_firstPayment :
    ¬Along (fun pre tx => AllOrNothing (World.after pre).contract tx)
      [(1, .sendPayment 2 "GBP" 1 "m1" "")] := by
  intro h
  have h_pay := h [] (1, .sendPayment 2 "GBP" 1 "m1" "") [] rfl
  rcases h_pay with ⟨h_set, -⟩ | ⟨h_rej, -⟩
  · exact absurd h_set.payment (by decide +kernel)
  · exact absurd h_rej.succeeded (by decide +kernel)

end Ethiso
