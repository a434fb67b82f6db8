import Ethiso.Framework.Run
import Ethiso.Iso.CreditTransfer

/-!
# Status reports

`CreditTransferConsumer` is handed the credit transfers of a bank. It converts each of them,
calls `sendPaymentAsync`, and publishes a status when the future is completed: `ACSP` if the
payment has succeeded, `RJCT` if it has not. A `RuntimeException` on the way to the future is
caught and logged.

Documents are delivered and futures completed in any order. A delivery records what became of
it and what was published for it.

The bank hears of its payment if there is a future. `reported_iff` says that it hears nothing if
the document cannot be converted or `sendPaymentAsync` throws. The messages are acknowledged
before they are handled, so they are not delivered again.
-/

namespace Ethiso

open Abi

/-! ### Statuses -/

/-- The status of a transaction. -/
inductive Status
  | ACSP
  | RJCT
  deriving DecidableEq

/-- `CodeOrProprietary` -/
structure CodeOrProprietary where
  code : Option JavaString

/-- `StatusReasonInfo` -/
structure StatusReasonInfo where
  originator : Option Party
  reason : Option CodeOrProprietary

/-- `CreditTransferStatus` -/
structure CreditTransferStatus where
  statusId : Option JavaString
  originalInstructionId : Option JavaString
  originalEndToEndId : Option JavaString
  originalTransactionId : Option JavaString
  transactionStatus : Option Status
  statusReasonInfo : StatusReasonInfo

namespace CreditTransferConsumer

variable {α : Type}

/-- `BIC_NOT_SEPA_REACHABLE` -/
def BIC_NOT_SEPA_REACHABLE : JavaString := .ofString "XT27"

/-! ### Deliveries -/

/-- The status as it is before the payment is sent. -/
def newStatus (creditTransfer : CreditTransfer α) (paymentId : PaymentId) :
    CreditTransferStatus where
  statusId := paymentId.transactionId
  originalInstructionId := paymentId.instructionId
  originalEndToEndId := paymentId.endToEndId
  originalTransactionId := paymentId.transactionId
  transactionStatus := none
  statusReasonInfo := ⟨creditTransfer.debtor, none⟩

/-- The status as the continuation of the future publishes it. -/
def handle (creditTransferStatus : CreditTransferStatus) (failed : Bool) : CreditTransferStatus :=
  if failed then
    { creditTransferStatus with
      transactionStatus := some .RJCT
      statusReasonInfo :=
        { creditTransferStatus.statusReasonInfo with
          reason := some ⟨some BIC_NOT_SEPA_REACHABLE⟩ } }
  else { creditTransferStatus with transactionStatus := some .ACSP }

/-- What became of a delivery. -/
inductive Progress
  /-- A `RuntimeException` was caught. -/
  | caught
  | awaiting (creditTransferStatus : CreditTransferStatus)
  | handled (failed : Bool)

/-- A delivered document, and whether `sendPaymentAsync` throws. -/
structure Delivery (α : Type) where
  creditTransfer : CreditTransfer α
  throws : Bool
  sent : Option (EthisoPayment α)
  progress : Progress
  published : List CreditTransferStatus

/-- `handleDelivery`: the transfer is converted, sent and then awaited. -/
def handleDelivery (creditTransfer : CreditTransfer α) (throws : Bool) : Delivery α :=
  match CreditTransferConverter.convert creditTransfer with
  | none => ⟨creditTransfer, throws, none, .caught, []⟩
  | some payment =>
    match creditTransfer.paymentId with
    | none => ⟨creditTransfer, throws, none, .caught, []⟩
    | some paymentId =>
      -- the status is there by now, but the catch clause does not know of it
      if throws then ⟨creditTransfer, throws, some payment, .caught, []⟩
      else
        ⟨creditTransfer, throws, some payment, .awaiting (newStatus creditTransfer paymentId), []⟩

/-- The future is completed. It is completed once. -/
def Delivery.complete (d : Delivery α) (failed : Bool) : Delivery α :=
  match d.progress with
  | .awaiting creditTransferStatus =>
    { d with
      progress := .handled failed
      published := d.published ++ [handle creditTransferStatus failed] }
  | _ => d

/-! ### Runs -/

/-- What happens to the bank. -/
inductive Input (α : Type)
  | deliver (creditTransfer : CreditTransfer α) (throws : Bool)
  | complete (i : ℕ) (failed : Bool)

/-- One step of it. -/
def step (deliveries : List (Delivery α)) : Input α → List (Delivery α)
  | .deliver creditTransfer throws => deliveries ++ [handleDelivery creditTransfer throws]
  | .complete i failed => deliveries.modify i (Delivery.complete · failed)

/-- The deliveries after the inputs. -/
abbrev after (inputs : List (Input α)) : List (Delivery α) := run step [] inputs

/-! ### Answers -/

/-- A delivery that is over. -/
def Delivery.Finished (d : Delivery α) : Prop := ∀ s, d.progress ≠ .awaiting s

/-- The payment was sent and its future completed normally. -/
def Delivery.Succeeded (d : Delivery α) : Prop := d.progress = .handled false

/-- One status was published. It has the ids of the document and tells whether the payment has
succeeded. -/
def Delivery.Answered (d : Delivery α) (paymentId : PaymentId) : Prop :=
  ∃ s, d.published = [s] ∧ s.originalInstructionId = paymentId.instructionId ∧
    s.originalEndToEndId = paymentId.endToEndId ∧
    s.originalTransactionId = paymentId.transactionId ∧
    (s.transactionStatus = some .ACSP ↔ d.Succeeded) ∧
    (s.transactionStatus = some .RJCT ↔ ¬d.Succeeded)

/-- What is known of a delivery: there is a future if and only if the document was converted and
the payment taken, and the status is published with its completion. -/
def Delivery.Consistent (d : Delivery α) : Prop :=
  match d.progress with
  | .caught => d.published = [] ∧
    ∀ paymentId, d.creditTransfer.paymentId = some paymentId →
      ¬(d.creditTransfer.Convertible ∧ d.throws = false)
  | .awaiting s => d.published = [] ∧ d.creditTransfer.Convertible ∧ d.throws = false ∧
    ∃ paymentId, d.creditTransfer.paymentId = some paymentId ∧
      s = newStatus d.creditTransfer paymentId
  | .handled failed => d.creditTransfer.Convertible ∧ d.throws = false ∧
    ∃ paymentId, d.creditTransfer.paymentId = some paymentId ∧
      d.published = [handle (newStatus d.creditTransfer paymentId) failed]

/-- A new delivery is consistent. -/
theorem consistent_handleDelivery (x : CreditTransfer α) (throws : Bool) :
    (handleDelivery x throws).Consistent := by
  unfold handleDelivery
  cases h_convert : CreditTransferConverter.convert x with
  | none =>
    -- a document that can be converted is
    refine ⟨rfl, fun _ _ h => ?_⟩
    have h_some := convert_isSome.mpr h.1
    rw [h_convert] at h_some
    cases h_some
  | some payment =>
    have h_convertible : x.Convertible := convert_isSome.mp (by rw [h_convert]; rfl)
    cases h_id : x.paymentId with
    | none =>
      refine ⟨rfl, fun _ h => ?_⟩
      cases h_id.symm.trans h
    | some paymentId =>
      cases throws with
      | true => exact ⟨rfl, fun _ _ h => nomatch h.2⟩
      | false => exact ⟨rfl, h_convertible, rfl, paymentId, h_id, rfl⟩

theorem consistent_complete {d : Delivery α} (h : d.Consistent) (failed : Bool) :
    (d.complete failed).Consistent := by
  unfold Delivery.complete
  unfold Delivery.Consistent at h
  split
  · next s h_progress =>
    -- the continuation publishes the status that was prepared
    rw [h_progress] at h
    obtain ⟨h_published, h_convertible, h_throws, paymentId, h_id, rfl⟩ := h
    refine ⟨h_convertible, h_throws, paymentId, h_id, ?_⟩
    rw [h_published]
    rfl
  · exact h

/-- **After every run** each delivery is consistent. -/
theorem consistent_after (inputs : List (Input α)) : ∀ d ∈ after inputs, d.Consistent := by
  refine @run_invariant _ _ step [] (fun deliveries : List (Delivery α) =>
    ∀ d ∈ deliveries, d.Consistent) (fun d h => absurd h List.not_mem_nil) ?_ inputs
  intro deliveries i h d h_d
  cases i with
  | deliver x throws =>
    rcases List.mem_append.mp h_d with h_d | h_d
    -- one of before, or the new one
    · exact h d h_d
    · obtain rfl := List.mem_singleton.mp h_d
      exact consistent_handleDelivery x throws
  | complete i failed =>
    obtain ⟨j, h_j⟩ := List.mem_iff_getElem?.mp h_d
    unfold step at h_j
    rw [List.getElem?_modify, Option.map_eq_map, Option.map_eq_some_iff] at h_j
    obtain ⟨d', h_d', rfl⟩ := h_j
    have h_old := h d' (List.mem_of_getElem? h_d')
    split
    -- the delivery that completes, or another
    · exact consistent_complete h_old failed
    · exact h_old

/-! ### Which documents are answered -/

/-- A delivery that was handled is answered by its status. -/
theorem answered_handled {d : Delivery α} {failed : Bool}
    (h_progress : d.progress = .handled failed) {paymentId : PaymentId}
    (h_published : d.published = [handle (newStatus d.creditTransfer paymentId) failed]) :
    d.Answered paymentId := by
  refine ⟨_, h_published, ?_⟩
  unfold Delivery.Succeeded
  rw [h_progress]
  cases failed with
  | true => exact ⟨rfl, rfl, rfl, by simp [handle], by simp [handle]⟩
  | false => exact ⟨rfl, rfl, rfl, by simp [handle], by simp [handle]⟩

/-- **Which documents are answered.** A delivery that is done with was answered, once and rightly,
if and only if the document could be converted and `sendPaymentAsync` did not throw. -/
theorem reported_iff (inputs : List (Input α)) (d : Delivery α) (h : d ∈ after inputs)
    (h_finished : d.Finished) (paymentId : PaymentId)
    (h_id : d.creditTransfer.paymentId = some paymentId) :
    d.Answered paymentId ↔ d.creditTransfer.Convertible ∧ d.throws = false := by
  have h_consistent := consistent_after inputs d h
  unfold Delivery.Consistent at h_consistent
  split at h_consistent
  · next h_progress =>
    -- nothing was published
    obtain ⟨h_published, h_not⟩ := h_consistent
    refine iff_of_false ?_ (h_not paymentId h_id)
    rintro ⟨s, h_s, -⟩
    cases h_published.symm.trans h_s
  · next s h_progress => exact absurd h_progress (h_finished s)
  · next failed h_progress =>
    obtain ⟨h_convertible, h_throws, paymentId', h_id', h_published⟩ := h_consistent
    obtain rfl : paymentId' = paymentId := Option.some.inj (h_id'.symm.trans h_id)
    exact iff_of_true (answered_handled h_progress h_published) ⟨h_convertible, h_throws⟩

/-- A credit transfer of 12.50 in a currency. -/
def transferIn (currency : String) : CreditTransfer Unit where
  paymentId := some ⟨some (.ofString "I1"), some (.ofString "E1"), some (.ofString "T1")⟩
  interbankSettlementAmount := some ⟨some ⟨1250, 2⟩, some (.ofString currency)⟩
  debtor := none
  debtorAccount := some ⟨some ⟨some (.ofString "IBAN1")⟩⟩
  debtorAgent := some ⟨some ⟨some (.ofString "BIC1")⟩⟩
  creditor := none
  creditorAccount := some ⟨some ⟨some (.ofString "IBAN2")⟩⟩
  creditorAgent := some ⟨some ⟨some (.ofString "BIC2")⟩⟩
  remittanceInfo := none

/-- A transfer in euro is answered. -/
theorem answered_transferIn_eur :
    ((handleDelivery (transferIn "EUR") false).complete false).Answered
      ⟨some (.ofString "I1"), some (.ofString "E1"), some (.ofString "T1")⟩ := by
  have h_convertible : (transferIn "EUR").Convertible := by
    refine ⟨⟨_, rfl, by decide⟩, ⟨_, rfl, by decide⟩, ⟨_, rfl, by decide⟩, ⟨_, rfl, by decide⟩,
      ⟨.EUR, rfl⟩, ⟨⟨1250, 2⟩, rfl, Or.inr (by decide), 1250, ?_, ?_⟩⟩
    · norm_num [BigDecimal.value]
    · exact BigInteger.inRange_of_lt (by decide)
  refine (reported_iff [.deliver (transferIn "EUR") false, .complete 0 false] _
    (List.mem_singleton_self _) ?_ _ rfl).mpr ⟨h_convertible, rfl⟩
  intro s h_s
  cases h_s

/-- A credit transfer in Swiss francs is not answered. -/
theorem not_answered_transferIn_chf :
    ¬∀ d ∈ after [.deliver (transferIn "CHF") false], d.Finished →
      d.Answered ⟨some (.ofString "I1"), some (.ofString "E1"), some (.ofString "T1")⟩ := by
  intro h
  have h_finished : (handleDelivery (transferIn "CHF") false).Finished := by
    intro s h_s
    cases h_s
  obtain ⟨s, h_s, -⟩ := h _ (List.mem_singleton_self _) h_finished
  cases h_s

end CreditTransferConsumer

end Ethiso
