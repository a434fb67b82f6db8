import Ethiso.Iso.CreditTransfer
import Ethiso.Service.TruthfulFutures

/-!
# A credit transfer on its way through the ledger

The payment of a credit transfer is sent to the contract, and the bank of the payee makes a
credit transfer of the event: `IsoPaymentListener` fills in the accounts, the amount and the
two banks, the latter as the debtor and the creditor.

`survives_iff` says what arrives: the accounts, the banks, the currency and the number are those of
the original. The remittance information travels in the additional properties, but the
listener does not look at them, so a document survives the trip if it has none.
-/

namespace Ethiso

open Abi PaymentServiceImpl

variable {α : Type}

/-! ### The listener -/

namespace IsoPaymentListener

/-- A party with a BIC. -/
def createPartyWith (bic : StringType) : Party := ⟨some ⟨some ⟨some bic.1⟩⟩⟩

/-- The document that the listener publishes. -/
def paymentReceived (x : PaymentNotification α) : Java (CreditTransfer α) := do
  let settlementAmount ← x.currency.decimalise x.amount
  return {
    paymentId := none
    interbankSettlementAmount :=
      some ⟨some settlementAmount, some (.ofString x.currency.toString)⟩
    debtor := some (createPartyWith x.fromBic)
    debtorAccount := some ⟨some ⟨some x.fromIban.1⟩⟩
    debtorAgent := none
    creditor := some (createPartyWith x.toBic)
    creditorAccount := some ⟨some ⟨some x.toIban.1⟩⟩
    creditorAgent := none
    remittanceInfo := none }

end IsoPaymentListener

/-! ### What survives -/

/-- The BIC of a party. -/
def Party.bic (party : Party) : Option JavaString := do (← (← party.id).organisationId).bicOrBei

namespace CreditTransfer

/-- The structured part of the remittance information. -/
def structured (x : CreditTransfer α) : Option α := do (← x.remittanceInfo).structured

/-- The unstructured part. -/
def unstructured (x : CreditTransfer α) : Option JavaString := do (← x.remittanceInfo).unstructured

/-- The document that arrives says the same as the one that was sent. Its debtor and creditor are
the banks. -/
structure Survives (x y : CreditTransfer α) : Prop where
  debtorIban : y.debtorIban = x.debtorIban
  creditorIban : y.creditorIban = x.creditorIban
  currency : y.settlementCurrency = x.settlementCurrency
  amount : y.settlementAmount.map BigDecimal.value = x.settlementAmount.map BigDecimal.value
  debtorBic : y.debtor.bind Party.bic = x.debtorAgentBic
  creditorBic : y.creditor.bind Party.bic = x.creditorAgentBic
  structured : y.structured = x.structured
  unstructured : y.unstructured = x.unstructured

end CreditTransfer

/-- The arguments that `CreditTransferConsumer` calls `sendPaymentAsync` with. -/
def EthisoPayment.order (payment : EthisoPayment α) (messageId : String) : PaymentOrder α :=
  ⟨payment.fromBic, payment.toBic, payment.fromIban, payment.toIban, payment.currency,
    payment.amount, some payment.additionalProperties, messageId⟩

/-! ### The trip -/

/-- A payment is paid out with its own amount, currency and properties. -/
theorem paymentMessage_of_sendTransaction {p : Payment} {call : TrustlineCall}
    (h : p.sendTransaction = .ok call) {s : PaymentService} {sender fromBank toBank : Address}
    {messageId ccy properties : String} {amount : Int256}
    (h_mem : .paymentMessage fromBank toBank messageId amount ccy properties ∈
      (call.exec s sender).events) :
    amount.toInt = p.paymentAmount ∧ ccy = p.currency.toString ∧
      properties = String.ofList p.additionalProperties.characters := by
  obtain ⟨h_nonneg, h_lt, rfl⟩ := PaymentFutures.sendTransaction_ok h
  rcases eq_of_mem_sendPayment _ _ h_mem with h_eq | ⟨message, errorType, h_eq⟩
  · obtain ⟨-, -, -, rfl, rfl, rfl⟩ := Event.paymentMessage.inj h_eq
    refine ⟨PaymentFutures.toInt_ofInt_of_not_slt ⟨h_nonneg, h_lt⟩ ?_, rfl, rfl⟩
    -- a negative amount is refused
    by_contra h_neg
    have h_rejected : Rejected s sender p.messageId (s.sendPayment sender (.ofRpc p.toAddress)
        p.currency.toString (BitVec.ofInt 256 p.paymentAmount) p.messageId
        (String.ofList p.additionalProperties.characters)) :=
      Rejected.of_guard _ _ (Or.inr (Or.inr (Bool.eq_true_of_not_eq_false h_neg)))
    have h_payment : .paymentMessage fromBank toBank messageId (BitVec.ofInt 256 p.paymentAmount)
        p.currency.toString (String.ofList p.additionalProperties.characters) ∈ paymentMessages
          (s.sendPayment sender (.ofRpc p.toAddress) p.currency.toString
            (BitVec.ofInt 256 p.paymentAmount) p.messageId
            (String.ofList p.additionalProperties.characters)).events :=
      List.mem_filter.mpr ⟨h_mem, rfl⟩
    rw [h_rejected.payment] at h_payment
    exact absurd h_payment List.not_mem_nil
  · cases h_eq

section Trip

variable {writeValueAsString : Properties α → Option JavaString}
  {readValue : JavaString → Java (Option (Properties α))} {x y : CreditTransfer α}

/-- A credit transfer `x` is converted and its payment sent, the contract executes it and emits a
`PaymentMessage`, and the listener publishes `y` when it is told of it. -/
structure Trip (writeValueAsString : Properties α → Option JavaString)
    (readValue : JavaString → Java (Option (Properties α))) (x y : CreditTransfer α) where
  -- at the bank of the payer
  payment : EthisoPayment α
  converted : CreditTransferConverter.convert x = some payment
  messageId : String
  registrar : NameToAddressRegistrar
  sent : Payment
  sendPaymentAsync :
    (payment.order messageId).payment writeValueAsString registrar = .ok sent
  call : TrustlineCall
  sendTransaction : sent.sendTransaction = .ok call
  -- in the contract
  contract : PaymentService
  sender : Address
  event : Event
  emitted : event ∈ (call.exec contract sender).events
  -- at the bank of the payee, with the registrar as it is then
  registrarThen : NameToAddressRegistrar
  account : RpcAddress
  notification : PaymentNotification α
  delivered : event.paymentNotification readValue registrarThen account = some notification
  published : IsoPaymentListener.paymentReceived notification = .ok y

/-- The properties are read back from the text that they are written as, which travels in UTF-8. -/
def RoundTrips (writeValueAsString : Properties α → Option JavaString)
    (readValue : JavaString → Java (Option (Properties α))) (p : Properties α) : Prop :=
  ∃ text, writeValueAsString p = some text ∧
    readValue (.ofString (String.ofList text.characters)) = .ok (some p)

/-- What the listener is told is what the payment was. -/
theorem Trip.notification_eq (t : Trip writeValueAsString readValue x y)
    (h_json : RoundTrips writeValueAsString readValue (t.payment.order t.messageId).properties) :
    t.notification.fromBic = t.payment.fromBic ∧ t.notification.toBic = t.payment.toBic ∧
      t.notification.fromIban = t.payment.fromIban ∧ t.notification.toIban = t.payment.toIban ∧
      t.notification.currency = t.payment.currency ∧ t.notification.amount = t.payment.amount := by
  obtain ⟨text, h_write, h_read⟩ := h_json
  have h_sent := t.sendPaymentAsync
  unfold PaymentOrder.payment at h_sent
  obtain ⟨toAddress, -, h_sent⟩ := bind_eq_ok.mp h_sent
  rw [pure_eq_ok, h_write, Option.getD_some] at h_sent
  obtain ⟨fromBank, toBank, messageId, amount, ccy, properties, h_event, h_designates⟩ :=
    PaymentListener.paymentNotification_eq_some.mp t.delivered
  have h_emitted := t.emitted
  rw [h_event] at h_emitted
  obtain ⟨h_amount, h_ccy, h_properties⟩ :=
    paymentMessage_of_sendTransaction t.sendTransaction h_emitted
  rw [← h_sent] at h_amount h_ccy h_properties
  -- the properties are those that were written
  have h_same : t.notification.additionalProperties = (t.payment.order t.messageId).properties := by
    have h_properties' := h_designates.properties
    rw [h_properties, h_read] at h_properties'
    exact (Option.some.inj (Except.ok.inj h_properties')).symm
  -- the BICs and IBANs are read from the properties
  have h_string : ∀ {key : JavaString} {v w : StringType},
      t.notification.additionalProperties key = some (.string v.1) →
      (t.payment.order t.messageId).properties key = some (.string w.1) → v = w := by
    intro key v w h_v h_w
    rw [h_same, h_w] at h_v
    exact Subtype.ext (PropertyValue.string.inj (Option.some.inj h_v)).symm
  refine ⟨h_string h_designates.fromBic rfl, h_string h_designates.toBic rfl,
    h_string h_designates.fromIban rfl, h_string h_designates.toIban rfl, ?_,
    h_designates.amount.trans h_amount⟩
  have h_valueOf := Currency.valueOf_eq_some.mpr (h_designates.currency.trans h_ccy)
  rw [Currency.valueOf_eq_some.mpr rfl] at h_valueOf
  exact (Option.some.inj h_valueOf).symm

/-- **What survives the trip.** A credit transfer arrives as it was sent if and only if it has no
remittance information. -/
theorem survives_iff (t : Trip writeValueAsString readValue x y)
    (h_json : RoundTrips writeValueAsString readValue (t.payment.order t.messageId).properties) :
    x.Survives y ↔ x.structured = none ∧ x.unstructured = none := by
  obtain ⟨h_fromBic, h_toBic, h_fromIban, h_toIban, h_currency, h_amount⟩ :=
    t.notification_eq h_json
  have h_asks := convert_eq_some.mp t.converted
  have h_published := t.published
  unfold IsoPaymentListener.paymentReceived at h_published
  rw [Currency.decimalise_eq, bind_eq_ok] at h_published
  obtain ⟨settlementAmount, h_settlement, h_y⟩ := h_published
  obtain rfl := Except.ok.inj h_settlement
  rw [← pure_eq_ok.mp h_y]
  -- the document that is published has no remittance information
  refine ⟨fun h => ⟨h.structured.symm, h.unstructured.symm⟩, ?_⟩
  rintro ⟨h_structured, h_unstructured⟩
  obtain ⟨amount, h_x, -, h_value, -⟩ := h_asks.amount
  refine ⟨?_, ?_, ?_, ?_, ?_, ?_, h_structured.symm, h_unstructured.symm⟩
  · rw [h_asks.fromIban, ← h_fromIban]
    rfl
  · rw [h_asks.toIban, ← h_toIban]
    rfl
  · rw [h_asks.currency, ← h_currency]
    rfl
  · rw [h_x]
    show some (BigDecimal.value ⟨t.notification.amount, 2⟩) = some amount.value
    congr 1
    -- a hundredth of a hundred times the number
    unfold BigDecimal.value
    rw [h_amount, ← h_value]
    show amount.value * 100 * 10 ^ (-2 : ℤ) = amount.value
    rw [mul_assoc]
    norm_num
  · rw [h_asks.fromBic, ← h_fromBic]
    rfl
  · rw [h_asks.toBic, ← h_toBic]
    rfl

end Trip

/-! ### Two trips -/

/-- Bank 1 pays 12.50 euros to bank 2. -/
def transferWith (remittanceInfo : Option (RemittanceInfo Unit)) : CreditTransfer Unit where
  paymentId := none
  interbankSettlementAmount := some ⟨some ⟨125, 1⟩, some (.ofString "EUR")⟩
  debtor := none
  debtorAccount := some ⟨some ⟨some (.ofString "I1")⟩⟩
  debtorAgent := some ⟨some ⟨some (.ofString "A")⟩⟩
  creditor := none
  creditorAccount := some ⟨some ⟨some (.ofString "I2")⟩⟩
  creditorAgent := some ⟨some ⟨some (.ofString "B")⟩⟩
  remittanceInfo := remittanceInfo

/-- A payment with this information. -/
def paymentWith (remittanceInfo : Option (RemittanceInfo Unit)) : EthisoPayment Unit where
  fromBic := ⟨.ofString "A", by decide⟩
  toBic := ⟨.ofString "B", by decide⟩
  fromIban := ⟨.ofString "I1", by decide⟩
  toIban := ⟨.ofString "I2", by decide⟩
  currency := .EUR
  amount := 1250
  additionalProperties := (transferWith remittanceInfo).getAdditionalProperties

/-- The document that arrives. -/
def arrived : CreditTransfer Unit where
  paymentId := none
  interbankSettlementAmount := some ⟨some ⟨1250, 2⟩, some (.ofString "EUR")⟩
  debtor := some ⟨some ⟨some ⟨some (.ofString "A")⟩⟩⟩
  debtorAccount := some ⟨some ⟨some (.ofString "I1")⟩⟩
  debtorAgent := none
  creditor := some ⟨some ⟨some ⟨some (.ofString "B")⟩⟩⟩
  creditorAccount := some ⟨some ⟨some (.ofString "I2")⟩⟩
  creditorAgent := none
  remittanceInfo := none

/-- The trip of the document if its properties are written as `json`. -/
def tripWith (remittanceInfo : Option (RemittanceInfo Unit)) (json : String)
    (h_encode : (sendPaymentEncoding.encode
      (Payment.args ⟨Address.toRpc 2, .EUR, 1250, "m1", .ofString json⟩)).isOk = true) :
    Trip (fun _ => some (.ofString json))
      (fun _ => .ok (some ((paymentWith remittanceInfo).order "m1").properties))
      (transferWith remittanceInfo) arrived where
  payment := paymentWith remittanceInfo
  converted := rfl
  messageId := "m1"
  registrar := ⟨fun _ => 2⟩
  sent := ⟨Address.toRpc 2, .EUR, 1250, "m1", .ofString json⟩
  sendPaymentAsync := by
    refine bind_eq_ok.mpr ⟨Address.toRpc 2, PaymentListener.getAddress_eq_ok.mpr ⟨?_, rfl⟩, rfl⟩
    show (JavaString.ofString "B").getBytes.length ≤ 992
    decide
  call := .sendPayment 2 "EUR" 1250 "m1" json
  sendTransaction := by
    cases h : sendPaymentEncoding.encode
        (Payment.args ⟨Address.toRpc 2, .EUR, 1250, "m1", .ofString json⟩) with
    | error e =>
      rw [h] at h_encode
      cases h_encode
    | ok text =>
      refine bind_eq_ok.mpr ⟨text, h, ?_⟩
      have h_text : String.ofList (JavaString.ofString json).characters = json := by
        unfold JavaString.ofString
        rw [JavaString.characters_flatMap_utf16, String.ofList_toList]
      dsimp only
      rw [h_text, Address.ofRpc_toRpc]
      rfl
  contract := (World.after [(2, .setLimit 1 "EUR" 2000), (1, .setAllow 2 "EUR" 2000)]).contract
  sender := 1
  event := .paymentMessage 1 2 "m1" 1250 "EUR" json
  emitted := List.mem_cons_self
  registrarThen := ⟨fun _ => 2⟩
  account := Address.toRpc 2
  notification := ⟨⟨.ofString "A", by decide⟩, ⟨.ofString "B", by decide⟩,
    ⟨.ofString "I1", by decide⟩, ⟨.ofString "I2", by decide⟩, .EUR, 1250,
    ((paymentWith remittanceInfo).order "m1").properties⟩
  delivered := by
    refine PaymentListener.paymentNotification_eq_some.mpr ⟨1, 2, "m1", 1250, "EUR", json, rfl, ?_⟩
    refine ⟨rfl, rfl, rfl, rfl, rfl, rfl, rfl, ?_, rfl⟩
    show (JavaString.ofString "B").getBytes.length ≤ 992
    decide
  published := rfl

theorem survives_withoutRemittanceInfo : (transferWith none).Survives arrived := by
  refine (survives_iff (tripWith none ?_ ?_) ⟨_, rfl, rfl⟩).mpr ⟨rfl, rfl⟩
  · exact "\x7b\"fromBic\":\"A\",\"toIban\":\"I2\",\"toBic\":\"B\",\"fromIban\":\"I1\"\x7d"
  · decide +kernel

/-- The remittance information of a document is lost. -/
theorem not_survives_invoice :
    ∃ writeValueAsString readValue, ∃ t : Trip writeValueAsString readValue
        (transferWith (some ⟨none, some (.ofString "invoice 7")⟩)) arrived,
      RoundTrips writeValueAsString readValue (t.payment.order t.messageId).properties ∧
        ¬(transferWith (some ⟨none, some (.ofString "invoice 7")⟩)).Survives arrived := by
  refine ⟨_, _, tripWith (some ⟨none, some (.ofString "invoice 7")⟩)
    ("\x7b\"fromBic\":\"A\",\"toIban\":\"I2\",\"toBic\":\"B\",\"fromIban\":\"I1\"," ++
      "\"RmtInfUstrd\":\"invoice 7\"\x7d") (by decide +kernel), ⟨_, rfl, rfl⟩, fun h => ?_⟩
  cases h.unstructured

end Ethiso
