import Ethiso.Contracts.PaymentOutcome
import Ethiso.Contracts.OwnFigures
import Ethiso.Contracts.EventLog

/-!
# The contract does not care how addresses compare

The contract stores a trustline under its smaller address and negates the
balance for the party that comes first, so a renaming of the addresses sends a
run of the contract through other cells, other branches and other signs. None
of it can be seen from outside: `renaming_is_invisible` compares a run with the
same run of the renamed parties, call by call.

The invariant that carries the comparison is that the two contracts, read as
credit ledgers, are renamings of each other on distinct parties
(`CreditLedger.Renamed`). A trustline of a party with itself is stored under
one role only and is no mirror image of anything, but no payment and no query
between distinct parties reads it. What wraps around in one run wraps around in
the other, since the words that are compared are the same words
(`PaymentService.sendPayment_eq`).
-/

namespace Ethiso

variable (σ : Address ≃ Address)

/-- The call with its counterparty renamed. -/
def TrustlineCall.rename : TrustlineCall → TrustlineCall
  | .setLimit them ccy amount => .setLimit (σ them) ccy amount
  | .setAllow them ccy amount => .setAllow (σ them) ccy amount
  | .sendPayment them ccy amount messageId additionalProperties =>
    .sendPayment (σ them) ccy amount messageId additionalProperties

/-- The transaction with its sender and its counterparty renamed. -/
def renameTx (tx : Address × TrustlineCall) : Address × TrustlineCall :=
  (σ tx.1, tx.2.rename σ)

/-- The event with every address in it renamed. -/
def Event.rename : Event → Event
  | .trustlineModified p1 p2 ccy trustType forwardLimit reverseLimit forwardAllow reverseAllow =>
    .trustlineModified (σ p1) (σ p2) ccy trustType forwardLimit reverseLimit forwardAllow
      reverseAllow
  | .paymentMessage fromBank toBank messageId amount ccy additionalProperties =>
    .paymentMessage (σ fromBank) (σ toBank) messageId amount ccy additionalProperties
  | .resultMessage fromBank messageId message errorType =>
    .resultMessage (σ fromBank) messageId message errorType
  | .debugMessage sender message => .debugMessage (σ sender) message
  | .amountMessage sender message amount => .amountMessage (σ sender) message amount

/-- The results of a call and of its renamed counterpart look the same from outside. -/
structure SameAnswer (r r' : Result) : Prop where
  succeeded : r'.succeeded = r.succeeded
  reports : paymentReports r'.events = (paymentReports r.events).map (Event.rename σ)

variable {σ} {s s' : PaymentService} {sender : Address}

/-! ### One call -/

section Relation

/-- The two contracts are renamings of each other, as far as two distinct parties
can tell. -/
abbrev PaymentService.Renamed (σ : Address ≃ Address) (s s' : PaymentService) : Prop :=
  CreditLedger.Renamed σ s.toLedger s'.toLedger

variable {them : Address} {ccy : String} {amount : Int256}

/-- Only the zero address is renamed to itself as zero. -/
theorem renamed_zero_iff (h_zero : σ 0 = 0) {a : Address} : σ a = 0 ↔ a = 0 := by
  rw [← h_zero, EmbeddingLike.apply_eq_iff_eq, h_zero]

/-- Both contracts compute the same debt, and compare it with the same figures. -/
theorem PaymentService.Renamed.admits_iff (h : PaymentService.Renamed σ s s') (h_zero : σ 0 = 0) :
    s'.Admits (σ sender) (σ them) ccy amount ↔ s.Admits sender them ccy amount := by
  unfold PaymentService.Admits
  by_cases h_ne : them = sender
  · simp [h_ne]
  · have h_ne' : sender ≠ them := fun hc => h_ne hc.symm
    rw [h.owed _ _ _ h_ne', h.limit _ _ _ h_ne, h.allow _ _ _ h_ne', ne_eq, ne_eq,
      renamed_zero_iff h_zero, EmbeddingLike.apply_eq_iff_eq]

/-- **One payment** answers the same in both contracts. -/
theorem PaymentService.Renamed.sendPayment_answer (h : PaymentService.Renamed σ s s')
    (h_zero : σ 0 = 0) (messageId additionalProperties : String) :
    SameAnswer σ (s.sendPayment sender them ccy amount messageId additionalProperties)
      (s'.sendPayment (σ sender) (σ them) ccy amount messageId additionalProperties) := by
  by_cases h_adm : s.Admits sender them ccy amount
  · rw [PaymentService.sendPayment_admitted _ _ _ _ _ h_adm,
      PaymentService.sendPayment_admitted _ _ _ _ _ ((h.admits_iff h_zero).mpr h_adm)]
    exact ⟨rfl, rfl⟩
  -- the guards are the same, and the comparison fails in both
  have h_adm' : ¬s'.Admits (σ sender) (σ them) ccy amount := fun hc =>
    h_adm ((h.admits_iff h_zero).mp hc)
  by_cases h_them : them = 0
  · have h_them' : σ them = 0 := (renamed_zero_iff h_zero).mpr h_them
    rw [PaymentService.sendPayment, PaymentService.sendPayment, if_pos h_them, if_pos h_them']
    exact ⟨rfl, rfl⟩
  have h_them' : σ them ≠ 0 := fun hc => h_them ((renamed_zero_iff h_zero).mp hc)
  by_cases h_self : them = sender
  · have h_self' : σ them = σ sender := congrArg σ h_self
    rw [PaymentService.sendPayment, PaymentService.sendPayment, if_neg h_them, if_neg h_them',
      if_pos h_self, if_pos h_self']
    exact ⟨rfl, rfl⟩
  have h_self' : σ them ≠ σ sender := fun hc => h_self (σ.injective hc)
  cases h_neg : amount.slt 0 with
  | true =>
    rw [PaymentService.sendPayment, PaymentService.sendPayment, if_neg h_them, if_neg h_them',
      if_neg h_self, if_neg h_self', if_pos h_neg, if_pos h_neg]
    exact ⟨rfl, rfl⟩
  | false =>
    have h_over : OverLimit s sender them ccy amount :=
      ⟨h_them, h_self, h_neg, fun hc => h_adm ⟨h_them, h_self, h_neg, hc⟩⟩
    have h_over' : OverLimit s' (σ sender) (σ them) ccy amount :=
      ⟨h_them', h_self', h_neg, fun hc => h_adm' ⟨h_them', h_self', h_neg, hc⟩⟩
    rw [sendPayment_overLimit _ _ h_over, sendPayment_overLimit _ _ h_over']
    exact ⟨rfl, rfl⟩

/-- Setters that return the same, and report no payment. -/
theorem SameAnswer.of_setter {r r' : Result} {succeeded : Bool}
    (h : r.succeeded = succeeded ∧ paymentReports r.events = [])
    (h' : r'.succeeded = succeeded ∧ paymentReports r'.events = []) : SameAnswer σ r r' where
  succeeded := h'.1.trans h.1.symm
  reports := by
    rw [h.2, h'.2]
    rfl

/-- **One call** answers the same in both contracts. -/
theorem PaymentService.Renamed.answer (h : PaymentService.Renamed σ s s') (h_zero : σ 0 = 0)
    (call : TrustlineCall) :
    SameAnswer σ (call.exec s sender) ((call.rename σ).exec s' (σ sender)) := by
  cases call with
  | setLimit them ccy amount =>
    exact SameAnswer.of_setter (setLimit_answer s sender them ccy amount)
      (setLimit_answer s' (σ sender) (σ them) ccy amount)
  | setAllow them ccy amount =>
    exact SameAnswer.of_setter (setAllow_answer s sender them ccy amount)
      (setAllow_answer s' (σ sender) (σ them) ccy amount)
  | sendPayment them ccy amount messageId additionalProperties =>
    exact h.sendPayment_answer h_zero messageId additionalProperties

/-- **One call** leaves the contracts renamings of each other. -/
theorem PaymentService.Renamed.exec (h : PaymentService.Renamed σ s s') (h_zero : σ 0 = 0)
    (call : TrustlineCall) :
    PaymentService.Renamed σ (call.exec s sender).state
      ((call.rename σ).exec s' (σ sender)).state := by
  unfold PaymentService.Renamed
  -- every call is a ledger operation, or leaves the contract untouched
  cases call with
  | setLimit them ccy amount =>
    simp only [TrustlineCall.exec, TrustlineCall.rename]
    cases h_neg : amount.slt 0 with
    | true =>
      rw [PaymentService.setLimit_negative _ _ _ _ _ h_neg,
        PaymentService.setLimit_negative _ _ _ _ _ h_neg]
      exact h
    | false =>
      rw [PaymentService.setLimit_toLedger _ _ _ _ _ h_neg,
        PaymentService.setLimit_toLedger _ _ _ _ _ h_neg]
      exact CreditLedger.Renamed.setLimit h sender them ccy amount
  | setAllow them ccy amount =>
    simp only [TrustlineCall.exec, TrustlineCall.rename]
    cases h_neg : amount.slt 0 with
    | true =>
      rw [PaymentService.setAllow_negative _ _ _ _ _ h_neg,
        PaymentService.setAllow_negative _ _ _ _ _ h_neg]
      exact h
    | false =>
      rw [PaymentService.setAllow_toLedger _ _ _ _ _ h_neg,
        PaymentService.setAllow_toLedger _ _ _ _ _ h_neg]
      exact CreditLedger.Renamed.setAllow h sender them ccy amount
  | sendPayment them ccy amount messageId additionalProperties =>
    simp only [TrustlineCall.exec, TrustlineCall.rename]
    by_cases h_adm : s.Admits sender them ccy amount
    · have h_adm' := (h.admits_iff h_zero).mpr h_adm
      rw [PaymentService.sendPayment_admitted _ _ _ _ _ h_adm,
        PaymentService.sendPayment_admitted _ _ _ _ _ h_adm',
        PaymentService.book_toLedger _ _ _ h_adm.2.1.symm,
        PaymentService.book_toLedger _ _ _ h_adm'.2.1.symm]
      exact CreditLedger.Renamed.pay h sender them ccy amount
    · obtain ⟨_, _, _, -, h_eq⟩ :=
        s.sendPayment_refused ccy amount messageId additionalProperties h_adm
      obtain ⟨_, _, _, -, h_eq'⟩ :=
        s'.sendPayment_refused ccy amount messageId additionalProperties
          fun hc => h_adm ((h.admits_iff h_zero).mp hc)
      rw [h_eq, h_eq']
      exact h

end Relation

/-! ### Runs -/

theorem renamed_init : PaymentService.Renamed σ World.init.contract World.init.contract where
  limit a b k _ := by
    rw [World.figuresOwned_init.limit, World.figuresOwned_init.limit]
    rfl
  allow a b k _ := by
    rw [World.figuresOwned_init.allow, World.figuresOwned_init.allow]
    rfl
  owed a b k _ := by
    rw [World.owed_init, World.owed_init]

/-- After a run and the renamed run the contracts are renamings of each other. -/
theorem after_renamed (h_zero : σ 0 = 0) (txs : List (Address × TrustlineCall)) :
    PaymentService.Renamed σ (World.after txs).contract
      (World.after (txs.map (renameTx σ))).contract := by
  induction txs using List.reverseRecOn with
  | nil => exact renamed_init
  | append_singleton txs tx ih =>
    rw [List.map_append, World.after, run_concat, World.after, List.map_singleton, run_concat]
    exact ih.exec h_zero tx.2

/-- **The contract does not care how addresses compare.** Rename the parties of a run
by any bijection that fixes the zero address. Call by call, the renamed run returns
the same values and reports the same payments and results up to the renaming; and
afterwards every query between two distinct parties is told what the renamed query
is told. -/
theorem renaming_is_invisible (σ : Address ≃ Address) (h_zero : σ 0 = 0)
    (txs : List (Address × TrustlineCall)) :
    Along (fun pre tx => SameAnswer σ (tx.2.exec (World.after pre).contract tx.1)
        ((renameTx σ tx).2.exec (World.after (pre.map (renameTx σ))).contract
          (renameTx σ tx).1)) txs ∧
      ∀ a b ccy, a ≠ b →
        let s := (World.after txs).contract
        let s' := (World.after (txs.map (renameTx σ))).contract
        (∀ r, s'.getLimit (σ a) (σ b) ccy r = s.getLimit a b ccy r) ∧
          (∀ r, s'.getAllow (σ a) (σ b) ccy r = s.getAllow a b ccy r) ∧
          s'.getAmountOwedTo (σ a) (σ b) ccy = s.getAmountOwedTo a b ccy := by
  refine ⟨?_, ?_⟩
  · intro pre tx post _
    exact (after_renamed h_zero pre).answer h_zero tx.2
  · intro a b ccy h_ne
    have h := after_renamed h_zero txs
    have h_ne' : σ a ≠ σ b := fun hc => h_ne (σ.injective hc)
    refine ⟨fun r => ?_, fun r => ?_, h.owed a b ccy h_ne⟩
    -- the reverse figure is that of the other party
    · cases r with
      | false => exact h.limit a b ccy h_ne
      | true =>
        rw [PaymentService.getLimit_reverse _ _ _ _ _ h_ne',
          PaymentService.getLimit_reverse _ _ _ _ _ h_ne]
        exact h.limit b a ccy h_ne.symm
    · cases r with
      | false => exact h.allow a b ccy h_ne
      | true =>
        rw [PaymentService.getAllow_reverse _ _ _ _ _ h_ne',
          PaymentService.getAllow_reverse _ _ _ _ _ h_ne]
        exact h.allow b a ccy h_ne.symm

/-- A run in which the larger address owes the smaller one. -/
def largerPays : List (Address × TrustlineCall) :=
  [(1, .setLimit 2 "GBP" 9), (2, .setAllow 1 "GBP" 9), (2, .sendPayment 1 "GBP" 4 "m1" "")]

/-- Swapping 1 and 2 makes the payer the smaller address. -/
theorem renaming_is_invisible_swap :
    (World.after (largerPays.map (renameTx (Equiv.swap 1 2)))).contract.getAmountOwedTo
        1 2 "GBP" = 4 := by
  have h := (renaming_is_invisible (Equiv.swap 1 2)
    (Equiv.swap_apply_of_ne_of_ne (by decide) (by decide)) largerPays).2 2 1 "GBP" (by decide)
  have h_owed := h.2.2
  rw [Equiv.swap_apply_right, Equiv.swap_apply_left] at h_owed
  calc (World.after (largerPays.map (renameTx (Equiv.swap 1 2)))).contract.getAmountOwedTo 1 2 "GBP"
      = (World.after largerPays).contract.getAmountOwedTo 2 1 "GBP" := h_owed
    _ = 4 := by decide +kernel

end Ethiso
