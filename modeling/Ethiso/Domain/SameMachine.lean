import Ethiso.Contracts.EventLog
import Ethiso.Contracts.LimitSafety
import Ethiso.Contracts.PaymentOutcome
import Ethiso.Domain.TrustlineValue

/-!
# The Java trustline and the contract's trustline are the same machine

Two parties operate on one trustline, once through the contract and once
through their handles on a Java trustline (`Joint`). Both halves are told the
same operations; a party may also replace its handle by one that was reversed
an even number of further times.

The two halves name things differently. The contract keys its cell by the order
of the addresses and keeps words; the Java object is keyed by who created it
and keeps integers; and a payment from x to y is sent by x to the contract and
through the handle of y in Java. `Sim` is the relation between them: the
contract read as a ledger has, for each party, the figures of the object
references that belong to it. It holds as long as no attempted payment would
lead to a debt of `2 ^ 255` or more (`DebtBelow`), and under it the two halves
accept and reject the same operations (`SameOutcome`) and tell the parties the
same figures (`Agrees`).
-/

namespace Ethiso.Domain

open CreditLedger

/-- The contract and the Java trustline, with a handle for each party. -/
structure Joint where
  contract : PaymentService
  object : DefaultTrustlineView
  handle : Party → TrustlineValue

/-- What one of two parties does, on the contract and on the object. -/
inductive Operation
  | setLimit (p : Party) (amount : Int256)
  | setAllow (p : Party) (amount : Int256)
  /-- A payment from `p` to the other party. -/
  | sendPayment (p : Party) (amount : Int256) (messageId additionalProperties : String)
  /-- `p` replaces its handle by one reversed `2 * n` times more. -/
  | reverseHandle (p : Party) (n : ℕ)

namespace Operation

/-- The operation sent to the contract. -/
def onContract (account : Party → Address) (ccy : String) (s : PaymentService) :
    Operation → Result
  | .setLimit p amount => s.setLimit (account p) (account p.other) ccy amount
  | .setAllow p amount => s.setAllow (account p) (account p.other) ccy amount
  | .sendPayment p amount messageId additionalProperties =>
    s.sendPayment (account p) (account p.other) ccy amount messageId additionalProperties
  | .reverseHandle _ _ => ⟨s, [], true⟩

/-- The operation on the Java trustline. -/
def onJava (handle : Party → TrustlineValue) (o : DefaultTrustlineView) :
    Operation → Invocation DefaultTrustlineView
  | .setLimit p amount => (handle p).setLimit o amount.toInt
  | .setAllow p amount => (handle p).setAllow o amount.toInt
  | .sendPayment p amount _ _ => (handle p.other).sendPayment o amount.toInt
  | .reverseHandle _ _ => ⟨o, none⟩

/-- The handles after the operation. -/
def handles (handle : Party → TrustlineValue) : Operation → Party → TrustlineValue
  | .reverseHandle p n => Function.update handle p (TrustlineValue.reverse^[2 * n] (handle p))
  | _ => handle

end Operation

/-- The contract rejects a call by returning false, or by a `ResultMessage` with an
error type other than 0. -/
def Rejects (r : Result) : Prop :=
  r.succeeded = false ∨
    ∃ fromBank messageId message errorType,
      Event.resultMessage fromBank messageId message errorType ∈ r.events ∧ errorType ≠ 0

section Machine

variable (account : Party → Address) (ccy : String)

/-- One operation on both. -/
def Joint.step (j : Joint) (op : Operation) : Joint where
  contract := (op.onContract account ccy j.contract).state
  object := (op.onJava j.handle j.object).state
  handle := op.handles j.handle

/-- A fresh trustline, its reverse for the second party, and the deployed contract. -/
def Joint.init : Joint where
  contract := .empty
  object := .zero
  handle
    | .first => .new
    | .second => TrustlineValue.new.reverse

/-- Both after a list of operations. -/
abbrev Joint.after (ops : List Operation) : Joint := run (Joint.step account ccy) Joint.init ops

/-- The exact debt that an attempted non-negative payment would lead to is below
`2 ^ 255`. -/
def DebtBelow (j : Joint) : Operation → Prop
  | .sendPayment p amount _ _ =>
    0 ≤ amount.toInt → (j.handle p.other).getBalance j.object + amount.toInt < 2 ^ 255
  | _ => True

instance (j : Joint) (op : Operation) : Decidable (DebtBelow j op) :=
  match op with
  | .sendPayment _ amount _ _ => inferInstanceAs (Decidable (0 ≤ amount.toInt → _ < _))
  | .setLimit .. | .setAllow .. | .reverseHandle .. => isTrue trivial

/-- The contract rejects the operation exactly when the Java call throws, and a
rejected operation leaves both states unchanged. -/
structure SameOutcome (j : Joint) (op : Operation) : Prop where
  rejects_iff : Rejects (op.onContract account ccy j.contract) ↔
    (op.onJava j.handle j.object).thrown ≠ none
  unchanged : Rejects (op.onContract account ccy j.contract) →
    (op.onContract account ccy j.contract).state = j.contract ∧
      (op.onJava j.handle j.object).state = j.object

/-- Each party is told the same figures by the contract and by its handle. -/
structure Agrees (j : Joint) : Prop where
  balance : ∀ p, (j.contract.getAmountOwedTo (account p) (account p.other) ccy).toInt =
    (j.handle p.other).getBalance j.object
  limit : ∀ p, (j.contract.getLimit (account p) (account p.other) ccy false).toInt =
    (j.handle p).getLimit j.object
  limit_reverse : ∀ p, (j.contract.getLimit (account p) (account p.other) ccy true).toInt =
    (j.handle p.other).getLimit j.object
  allow : ∀ p, (j.contract.getAllow (account p) (account p.other) ccy false).toInt =
    (j.handle p).getAllow j.object
  allow_reverse : ∀ p, (j.contract.getAllow (account p) (account p.other) ccy true).toInt =
    (j.handle p.other).getAllow j.object

/-- **The simulation relation.** Each handle is its party's, and the contract's ledger
has the figures of the Java objects. -/
structure Sim (j : Joint) : Prop where
  owner : ∀ p, (j.handle p).view.owner = p
  limit : ∀ p, (j.contract.toLedger.limit (account p) (account p.other) ccy).toInt =
    (j.object.deref p.ref).limit
  allow : ∀ p, (j.contract.toLedger.allow (account p) (account p.other) ccy).toInt =
    (j.object.deref p.other.ref).allow
  owed : ∀ p, (j.contract.toLedger.owed (account p) (account p.other) ccy).toInt =
    p.other.signed j.object.p2OwesP1

end Machine

/-! ### The Java objects -/

/-- The two parties hold different figures. -/
theorem ref_inj {p q : Party} : p.ref = q.ref ↔ p = q := by
  cases p <;> cases q <;> decide

theorem other_inj {p q : Party} : p.other = q.other ↔ p = q := by
  cases p <;> cases q <;> decide

/-- The sign that Java tests is the one that the contract tests. -/
theorem sign_eq_neg_one_iff {v : Int256} : v.toInt.sign = -1 ↔ v.slt 0 = true := by
  rw [Int.sign_eq_neg_one_iff_neg, ← not_le, ← slt_zero_eq_false_iff, Bool.not_eq_false]

/-! ### One operation -/

section Step

variable {account : Party → Address} {ccy : String} {j : Joint}

/-- Different parties have different accounts. -/
theorem account_inj (h_ne : account .first ≠ account .second) {p q : Party} :
    account p = account q ↔ p = q := by
  cases p <;> cases q <;> simp [h_ne, h_ne.symm]

/-- A party and the other one have different accounts. -/
theorem account_other_ne (h_ne : account .first ≠ account .second) (p : Party) :
    account p.other ≠ account p := by
  rw [ne_eq, account_inj h_ne]
  exact p.other_ne

/-- A figure put under the pair of one party is read by this party only. -/
theorem put_account (h_ne : account .first ≠ account .second)
    (f : Address → Address → String → Int256) (p q : Party) (v : Int256) :
    put f (account p) (account p.other) ccy v (account q) (account q.other) ccy =
      if q = p then v else f (account q) (account q.other) ccy := by
  unfold put
  by_cases h : q = p
  · simp [h]
  · rw [if_neg h, if_neg fun hc => h ((account_inj h_ne).mp hc.1)]

/-- **The simulation answers alike.** -/
theorem Sim.agrees (h : Sim account ccy j) (h_ne : account .first ≠ account .second) :
    Agrees account ccy j where
  balance p := by
    rw [TrustlineValue.getBalance, TrustlineView.getP2OwesP1_eq, h.owner]
    exact h.owed p
  limit p := by
    rw [TrustlineValue.getLimit, (TrustlineView.refs_eq _).1, h.owner]
    exact h.limit p
  limit_reverse p := by
    -- the other party's figure, as the other party is told
    rw [PaymentService.getLimit_reverse _ _ _ _ _ (account_other_ne h_ne p).symm,
      TrustlineValue.getLimit, (TrustlineView.refs_eq _).1, h.owner, ← h.limit, Party.other_other]
    rfl
  allow p := by
    rw [TrustlineValue.getAllow, (TrustlineView.refs_eq _).2, h.owner]
    exact h.allow p
  allow_reverse p := by
    rw [PaymentService.getAllow_reverse _ _ _ _ _ (account_other_ne h_ne p).symm,
      TrustlineValue.getAllow, (TrustlineView.refs_eq _).2, h.owner, ← h.allow, Party.other_other]
    rfl

theorem sim_init : Sim account ccy Joint.init where
  owner p := by cases p <;> rfl
  limit p := by
    change (World.init.contract.toLedger.limit _ _ _).toInt = _
    rw [World.figuresOwned_init.limit]
    cases p <;> rfl
  allow p := by
    change (World.init.contract.toLedger.allow _ _ _).toInt = _
    rw [World.figuresOwned_init.allow]
    cases p <;> rfl
  owed p := by
    change (World.init.contract.toLedger.owed _ _ _).toInt = _
    rw [World.owed_init]
    cases p <;> rfl

/-- A setter rejects by its return value only, and what it rejects are negative amounts. -/
theorem rejects_setter {r : Result} {amount : Int256}
    (h : r.succeeded = !amount.slt 0 ∧ paymentReports r.events = []) :
    Rejects r ↔ amount.slt 0 = true := by
  have h_result : ¬∃ fromBank messageId message errorType,
      Event.resultMessage fromBank messageId message errorType ∈ r.events ∧ errorType ≠ 0 := by
    rintro ⟨fromBank, messageId, message, errorType, h_mem, -⟩
    have h_report : Event.resultMessage fromBank messageId message errorType ∈
        paymentReports r.events := List.mem_filter.mpr ⟨h_mem, rfl⟩
    rw [h.2] at h_report
    exact absurd h_report List.not_mem_nil
  rw [Rejects, or_iff_left h_result, h.1, Bool.not_eq_false']

/-- An operation that both halves turn away without a change. -/
theorem Sim.both_reject (h : Sim account ccy j) {op : Operation}
    (h_rej : Rejects (op.onContract account ccy j.contract))
    (h_thrown : (op.onJava j.handle j.object).thrown ≠ none)
    (h_state : (op.onContract account ccy j.contract).state = j.contract)
    (h_object : (op.onJava j.handle j.object).state = j.object)
    (h_handle : op.handles j.handle = j.handle) :
    SameOutcome account ccy j op ∧ Sim account ccy (j.step account ccy op) := by
  refine ⟨⟨iff_of_true h_rej h_thrown, fun _ => ⟨h_state, h_object⟩⟩, ?_⟩
  have h_step : j.step account ccy op = j := by
    rw [Joint.step, h_state, h_object, h_handle]
  rw [h_step]
  exact h

/-- An operation that both halves accept. -/
theorem sameOutcome_accepted {op : Operation}
    (h_acc : ¬Rejects (op.onContract account ccy j.contract))
    (h_thrown : (op.onJava j.handle j.object).thrown = none) :
    SameOutcome account ccy j op :=
  ⟨iff_of_false h_acc fun hc => hc h_thrown, fun hc => absurd hc h_acc⟩

/-! ### Setters -/

/-- `setLimit` on the integer of a word. -/
theorem AllowAndLimit.setLimit_eq (x : AllowAndLimit) (amount : Int256) :
    x.setLimit amount.toInt =
      if amount.slt 0 = true then ⟨x, some ⟨"limitAmount < 0"⟩⟩
      else ⟨{ x with limit := amount.toInt }, none⟩ := by
  simp only [setLimit, sign_eq_neg_one_iff]

/-- `setAllow` on the integer of a word. -/
theorem AllowAndLimit.setAllow_eq (x : AllowAndLimit) (amount : Int256) :
    x.setAllow amount.toInt =
      if amount.slt 0 = true then ⟨x, some ⟨"allowAmount < 0"⟩⟩
      else ⟨{ x with allow := amount.toInt }, none⟩ := by
  simp only [setAllow, sign_eq_neg_one_iff]

/-- **A setter** that both halves turn away on a negative amount, and that otherwise keeps the
relation. -/
theorem Sim.setter (h : Sim account ccy j) {op : Operation} {amount : Int256}
    {r : AllowAndLimitRef} {method : AllowAndLimit → Invocation AllowAndLimit}
    {set : AllowAndLimit → AllowAndLimit} {e : IllegalArgumentException}
    (h_handle : op.handles j.handle = j.handle)
    (h_java : op.onJava j.handle j.object = j.object.invoke r method)
    (h_method : ∀ x, method x = if amount.slt 0 = true then ⟨x, some e⟩ else ⟨set x, none⟩)
    (h_answer : (op.onContract account ccy j.contract).succeeded = !amount.slt 0 ∧
      paymentReports (op.onContract account ccy j.contract).events = [])
    (h_negative : amount.slt 0 = true → (op.onContract account ccy j.contract).state = j.contract)
    (h_set : amount.slt 0 = false → (∀ x, method x = ⟨set x, none⟩) →
      Sim account ccy ⟨(op.onContract account ccy j.contract).state,
        (j.object.invoke r method).state, j.handle⟩) :
    SameOutcome account ccy j op ∧ Sim account ccy (j.step account ccy op) := by
  -- the sign of the amount decides on both sides
  cases h_neg : amount.slt 0 with
  | true =>
    have h_throws : ∀ x, method x = ⟨x, some e⟩ := fun x => (h_method x).trans (if_pos h_neg)
    refine h.both_reject ((rejects_setter h_answer).mpr h_neg) ?_ (h_negative h_neg) ?_ h_handle
    · rw [h_java, DefaultTrustlineView.invoke_thrown, h_throws]
      exact Option.some_ne_none _
    · rw [h_java, DefaultTrustlineView.invoke_of_same (by rw [h_throws])]
  | false =>
    have h_returns : ∀ x, method x = ⟨set x, none⟩ := fun x =>
      (h_method x).trans (if_neg fun hc => Bool.false_ne_true (h_neg.symm.trans hc))
    refine ⟨sameOutcome_accepted ?_ ?_, ?_⟩
    · rw [rejects_setter h_answer, h_neg]
      exact Bool.false_ne_true
    · rw [h_java, DefaultTrustlineView.invoke_thrown, h_returns]
    · rw [Joint.step, h_java, h_handle]
      exact h_set h_neg h_returns

/-- `setLimit` does the same on both sides. -/
theorem Sim.setLimit (h : Sim account ccy j) (h_ne : account .first ≠ account .second) (p : Party)
    (amount : Int256) :
    SameOutcome account ccy j (.setLimit p amount) ∧
      Sim account ccy (j.step account ccy (.setLimit p amount)) := by
  have h_java : (Operation.setLimit p amount).onJava j.handle j.object =
      j.object.invoke p.ref fun x => x.setLimit amount.toInt := by
    rw [Operation.onJava, TrustlineValue.setLimit, (TrustlineView.refs_eq _).1, h.owner]
  refine h.setter rfl h_java (fun x => x.setLimit_eq amount)
    (setLimit_answer j.contract (account p) (account p.other) ccy amount)
    (fun h_neg => congrArg Result.state (PaymentService.setLimit_negative _ _ _ _ _ h_neg))
    fun h_neg h_method => ?_
  refine ⟨h.owner, fun q => ?_, fun q => ?_, fun q => ?_⟩
  all_goals
    rw [Operation.onContract, PaymentService.setLimit_toLedger _ _ _ _ _ h_neg,
      CreditLedger.setLimit]
    dsimp only
  -- the limit of `p` is in the object that its limit reference points to
  · rw [put_account h_ne, DefaultTrustlineView.deref_invoke, h_method]
    simp only [ref_inj]
    by_cases h_q : q = p
    · rw [if_pos h_q, if_pos h_q]
    · rw [if_neg h_q, if_neg h_q, h.limit]
  · rw [h.allow, DefaultTrustlineView.deref_invoke, h_method]
    split
    · next h_q => rw [h_q]
    · rfl
  · rw [h.owed, DefaultTrustlineView.invoke_p2OwesP1]

theorem Sim.setAllow (h : Sim account ccy j) (h_ne : account .first ≠ account .second) (p : Party)
    (amount : Int256) :
    SameOutcome account ccy j (.setAllow p amount) ∧
      Sim account ccy (j.step account ccy (.setAllow p amount)) := by
  have h_java : (Operation.setAllow p amount).onJava j.handle j.object =
      j.object.invoke p.other.ref fun x => x.setAllow amount.toInt := by
    rw [Operation.onJava, TrustlineValue.setAllow, (TrustlineView.refs_eq _).2, h.owner]
  refine h.setter rfl h_java (fun x => x.setAllow_eq amount)
    (setAllow_answer j.contract (account p) (account p.other) ccy amount)
    (fun h_neg => congrArg Result.state (PaymentService.setAllow_negative _ _ _ _ _ h_neg))
    fun h_neg h_method => ?_
  refine ⟨h.owner, fun q => ?_, fun q => ?_, fun q => ?_⟩
  all_goals
    rw [Operation.onContract, PaymentService.setAllow_toLedger _ _ _ _ _ h_neg,
      CreditLedger.setAllow]
    dsimp only
  · rw [h.limit, DefaultTrustlineView.deref_invoke, h_method]
    split
    · next h_q => rw [h_q]
    · rfl
  -- the allow of `p` is in the object that the other party's limit reference points to
  · rw [put_account h_ne, DefaultTrustlineView.deref_invoke, h_method]
    simp only [ref_inj, other_inj]
    by_cases h_q : q = p
    · rw [if_pos h_q, if_pos h_q]
    · rw [if_neg h_q, if_neg h_q, h.allow]
  · rw [h.owed, DefaultTrustlineView.invoke_p2OwesP1]

/-! ### Payments -/

section Payment

variable {p : Party} {amount : Int256}

/-- The words of a debt that stays below `2 ^ 255` are the exact debts, for the payer and
for the payee. -/
theorem Sim.owed_exact (h : Sim account ccy j) (h_nonneg : 0 ≤ amount.toInt)
    (h_below : p.other.signed j.object.p2OwesP1 + amount.toInt < 2 ^ 255) :
    (j.contract.toLedger.owed (account p) (account p.other) ccy + amount).toInt =
        p.other.signed j.object.p2OwesP1 + amount.toInt ∧
      (j.contract.toLedger.owed (account p.other) (account p) ccy - amount).toInt =
        -(p.other.signed j.object.p2OwesP1 + amount.toInt) := by
  -- both sides of the trustline are owed the same, with opposite signs
  have h_payer := h.owed p
  have h_payee := h.owed p.other
  rw [Party.other_other] at h_payee
  have h_opposite : p.signed j.object.p2OwesP1 = -p.other.signed j.object.p2OwesP1 := by
    rw [Party.signed_other, neg_neg]
  have h_lo := (j.contract.toLedger.owed (account p) (account p.other) ccy).le_toInt
  -- so the bound on one side is a bound on the other
  have h_hi := (j.contract.toLedger.owed (account p.other) (account p) ccy).toInt_lt
  refine ⟨?_, ?_⟩
  -- the sum is below the bound, so the addition does not wrap
  · rw [BitVec.toInt_add, h_payer, bmod_of_lt (by omega) h_below]
  · rw [BitVec.toInt_sub, h_payee, h_opposite, bmod_of_lt (by omega) (by omega)]
    ring

/-- The contract takes the payment exactly when Java does. -/
theorem Sim.admits_iff (h : Sim account ccy j) (h_ne : account .first ≠ account .second)
    (h_zero : ∀ q, account q ≠ 0) (h_neg : amount.slt 0 = false)
    (h_below : p.other.signed j.object.p2OwesP1 + amount.toInt < 2 ^ 255) :
    j.contract.Admits (account p) (account p.other) ccy amount ↔
      p.other.signed j.object.p2OwesP1 + amount.toInt ≤ (j.object.deref p.other.ref).limit ∧
        p.other.signed j.object.p2OwesP1 + amount.toInt ≤ (j.object.deref p.other.ref).allow := by
  have h_exact := (h.owed_exact (slt_zero_eq_false_iff.mp h_neg) h_below).1
  have h_limit := h.limit p.other
  rw [Party.other_other] at h_limit
  rw [PaymentService.Admits, BitVec.sle_iff_toInt_le, BitVec.sle_iff_toInt_le, h_exact, h_limit,
    h.allow]
  refine ⟨fun hc => hc.2.2.2, fun hc => ⟨h_zero _, account_other_ne h_ne p, h_neg, hc⟩⟩

/-- An accepted payment keeps the relation: the payer reads the new debt, the payee its
negation. -/
theorem Sim.paid (h : Sim account ccy j) (h_ne : account .first ≠ account .second)
    (h_nonneg : 0 ≤ amount.toInt)
    (h_fits : p.other.signed j.object.p2OwesP1 + amount.toInt < 2 ^ 255) :
    Sim account ccy ⟨j.contract.book (account p) (account p.other) ccy amount, { j.object with
      p2OwesP1 := p.other.signed (p.other.signed j.object.p2OwesP1 + amount.toInt) },
      j.handle⟩ := by
  have h_self := account_other_ne h_ne p
  have h_ledger := PaymentService.book_toLedger j.contract ccy amount h_self.symm
  have h_exact := h.owed_exact h_nonneg h_fits
  refine ⟨h.owner, ?_, ?_, ?_⟩
  -- a payment changes no figures of the parties
  · intro q
    rw [h_ledger]
    exact (h.limit q).trans (by cases q <;> rfl)
  · intro q
    -- what the payer and the payee owe changes by the amount
    rw [h_ledger]
    exact (h.allow q).trans (by cases q <;> rfl)
  · intro q
    rw [h_ledger, CreditLedger.pay]
    dsimp only
    by_cases h_q : q = p
    · rw [h_q, if_pos ⟨rfl, rfl, rfl⟩, Party.signed_signed]
      exact h_exact.1
    · obtain rfl : q = p.other := by revert h_q; cases q <;> cases p <;> decide
      rw [Party.other_other, if_neg fun hc => h_self hc.1, if_pos ⟨rfl, rfl, rfl⟩,
        Party.signed_other, h_exact.2]
      cases p <;> simp [Party.signed, Party.other]

/-- **A payment** does the same on both sides, if the debt stays below the bound. -/
theorem Sim.sendPayment (h : Sim account ccy j) (h_ne : account .first ≠ account .second)
    (h_zero : ∀ q, account q ≠ 0) (messageId additionalProperties : String)
    (h_below : DebtBelow j (.sendPayment p amount messageId additionalProperties)) :
    SameOutcome account ccy j (.sendPayment p amount messageId additionalProperties) ∧
      Sim account ccy
        (j.step account ccy (.sendPayment p amount messageId additionalProperties)) := by
  have h_self := account_other_ne h_ne p
  cases h_neg : amount.slt 0 with
  | true =>
    -- a negative amount is rejected by both
    have h_contract : Rejected j.contract (account p) messageId
        (j.contract.sendPayment (account p) (account p.other) ccy amount messageId
          additionalProperties) :=
      Rejected.of_guard messageId additionalProperties (Or.inr (Or.inr h_neg))
    have h_java : (j.handle p.other).sendPayment j.object amount.toInt =
        ⟨j.object, some ⟨"paymentAmount < 0"⟩⟩ := if_pos (sign_eq_neg_one_iff.mpr h_neg)
    refine h.both_reject (Or.inl h_contract.succeeded) ?_ h_contract.state ?_ rfl
    · rw [Operation.onJava, h_java]
      exact Option.some_ne_none _
    · rw [Operation.onJava, h_java]
  | false =>
    have h_nonneg := slt_zero_eq_false_iff.mp h_neg
    have h_balance : (j.handle p.other).getBalance j.object = p.other.signed j.object.p2OwesP1 := by
      rw [TrustlineValue.getBalance, TrustlineView.getP2OwesP1_eq, h.owner]
    have h_fits := h_below h_nonneg
    rw [h_balance] at h_fits
    have h_java := sendPayment_java (j.handle p.other) j.object amount.toInt fun hc =>
      Bool.false_ne_true (h_neg.symm.trans (sign_eq_neg_one_iff.mp hc))
    rw [h_balance, h.owner] at h_java
    rw [← h.admits_iff h_ne h_zero h_neg h_fits] at h_java
    rcases h_java with ⟨h_adm, h_java⟩ | ⟨h_adm, e, h_java⟩
    -- both compare the new balance with the smaller figure
    · have h_contract := PaymentService.sendPayment_admitted j.contract ccy amount messageId
        additionalProperties h_adm
      have h_step : j.step account ccy (.sendPayment p amount messageId additionalProperties) =
          ⟨j.contract.book (account p) (account p.other) ccy amount, { j.object with
            p2OwesP1 := p.other.signed (p.other.signed j.object.p2OwesP1 + amount.toInt) },
            j.handle⟩ := by
        rw [Joint.step, Operation.onContract, h_contract, Operation.onJava, h_java]
        rfl
      refine ⟨sameOutcome_accepted ?_ (by rw [Operation.onJava, h_java]), ?_⟩
      · rw [Operation.onContract, h_contract]
        simp [Rejects]
      · rw [h_step]
        exact h.paid h_ne h_nonneg h_fits
    -- both reject, and the object throws
    · obtain ⟨message, errorType, succeeded, h_err, h_contract⟩ :=
        j.contract.sendPayment_refused ccy amount messageId additionalProperties h_adm
      refine h.both_reject (Or.inr ?_) ?_ ?_ ?_ rfl
      · rw [Operation.onContract, h_contract]
        exact ⟨_, _, _, errorType, List.mem_singleton_self _, h_err⟩
      · rw [Operation.onJava, h_java]
        exact Option.some_ne_none _
      · rw [Operation.onContract, h_contract]
      · rw [Operation.onJava, h_java]

end Payment

/-- **One operation** has the same outcome in both halves, and keeps the relation. -/
theorem Sim.step (h : Sim account ccy j) (h_ne : account .first ≠ account .second)
    (h_zero : ∀ q, account q ≠ 0) {op : Operation} (h_below : DebtBelow j op) :
    SameOutcome account ccy j op ∧ Sim account ccy (j.step account ccy op) := by
  cases op with
  | setLimit p amount => exact h.setLimit h_ne p amount
  | setAllow p amount => exact h.setAllow h_ne p amount
  | sendPayment p amount messageId additionalProperties =>
    exact h.sendPayment h_ne h_zero messageId additionalProperties h_below
  | reverseHandle p n =>
    -- reversing is a matter of the object only
    refine ⟨sameOutcome_accepted (by simp [Operation.onContract, Rejects]) rfl, ?_, h.limit,
      h.allow, h.owed⟩
    intro q
    change (Function.update j.handle p _ q).view.owner = q
    by_cases h_q : q = p
    · rw [h_q, Function.update_self, TrustlineValue.owner_reverse_even, h.owner]
    · rw [Function.update_of_ne h_q, h.owner]

end Step

/-! ### The result -/

/-- **The same machine.** Two parties with distinct, non-zero accounts operate on one
trustline, no attempted non-negative payment leading to a debt of `2 ^ 255` or more.
Then every operation is rejected by the contract exactly when Java throws, changes
nothing if it is, and after every step each party is told the same figures by both. -/
theorem same_machine (account : Party → Address) (ccy : String)
    (h_ne : account .first ≠ account .second) (h_zero : ∀ p, account p ≠ 0)
    (ops : List Operation)
    (h_below : Along (fun pre op => DebtBelow (Joint.after account ccy pre) op) ops) :
    Along (fun pre op => SameOutcome account ccy (Joint.after account ccy pre) op) ops ∧
      ∀ pre, pre <+: ops → Agrees account ccy (Joint.after account ccy pre) := by
  have h_sim : ∀ pre, pre <+: ops → Sim account ccy (Joint.after account ccy pre) :=
    fun pre h_pre => @run_induction _ _ (Joint.step account ccy) Joint.init _
      (fun _ j => Sim account ccy j) sim_init
      (fun _ _ h h_op => (h.step h_ne h_zero h_op).2) pre (h_below.restrict h_pre)
  refine ⟨?_, fun pre h_pre => (h_sim pre h_pre).agrees h_ne⟩
  intro pre op post h_eq
  have h_pre : pre <+: ops := ⟨op :: post, h_eq.symm⟩
  exact ((h_sim pre h_pre).step h_ne h_zero (h_below pre op post h_eq)).1

/-- The first party has the larger address. -/
def largerFirst : Party → Address
  | .first => 2
  | .second => 1

/-- The second party pays 4 of the 9 it may owe, after the first one has reversed its
handle twice. -/
def payOperations : List Operation :=
  [.setLimit .first 9, .setAllow .second 9, .reverseHandle .first 1,
    .sendPayment .second 4 "m1" ""]

/-- After these operations both machines agree on a debt of 4. -/
theorem same_machine_payOperations :
    Agrees largerFirst "GBP" (Joint.after largerFirst "GBP" payOperations) ∧
      ((Joint.after largerFirst "GBP" payOperations).handle .first).getBalance
        (Joint.after largerFirst "GBP" payOperations).object = 4 := by
  have h_below : Along (fun pre op => DebtBelow (Joint.after largerFirst "GBP" pre) op)
      payOperations := by
    have h_all : ∀ pre ∈ payOperations.inits, ∀ op ∈ payOperations,
        DebtBelow (Joint.after largerFirst "GBP" pre) op := by decide +kernel
    intro pre op post h_eq
    exact h_all pre ((List.mem_inits _ _).mpr ⟨op :: post, h_eq.symm⟩) op (by simp [h_eq])
  refine ⟨(same_machine largerFirst "GBP" (by decide) (fun p => by cases p <;> decide)
    payOperations h_below).2 _ (List.prefix_refl _), by decide +kernel⟩

end Ethiso.Domain
