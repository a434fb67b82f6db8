import Ethiso.Abi.Decimals
import Ethiso.Service.PaymentListener

/-!
# Credit transfers

A bank hands in its payments as credit transfers of ISO 20022. `CreditTransferConverter`
makes a payment of one: the accounts are given by their IBANs, the banks by the BICs of the
agents, the amount is written in hundredths, and the remittance information goes into the
additional properties.

Any part of a document may be missing. The converter throws if a part is missing that it
needs, if an identifier is empty, if the currency is unknown or the amount is no whole number
of hundredths in the range of `BigInteger`; `convert_isSome` says so. The parts of a document
that nothing reads are left out. Structured remittance information is a value of a type `α`.
-/

namespace Ethiso

open Abi

/-! ### Amounts -/

/-- The decimal point is moved. The scale is an `int`; that of a zero is cut off. -/
def Abi.BigDecimal.scaleByPowerOfTen (d : BigDecimal) (n : ℤ) : Java BigDecimal :=
  let scale := d.scale - n
  if -2 ^ 31 ≤ scale ∧ scale < 2 ^ 31 then return ⟨d.unscaledValue, scale⟩
  -- a zero has no digits to lose
  else if d.unscaledValue = 0 then return ⟨0, if scale < 0 then -2 ^ 31 else 2 ^ 31 - 1⟩
  else throw .arithmetic

namespace Currency

/-- `decimalPlaces`: euro and pound have two. -/
def decimalPlaces (_ : Currency) : ℤ := 2

/-- `deDecimalise` -/
def deDecimalise (c : Currency) (amount : BigDecimal) : Java ℤ := do
  (← amount.scaleByPowerOfTen c.decimalPlaces).toBigIntegerExact

/-- `decimalise` -/
def decimalise (c : Currency) (amount : ℤ) : Java BigDecimal :=
  BigDecimal.scaleByPowerOfTen ⟨amount, 0⟩ (-c.decimalPlaces)

/-- `valueOf`, on any Java string. -/
def valueOfJavaString (name : JavaString) : Option Currency :=
  [GBP, EUR, USD].find? (JavaString.ofString ·.toString = name)

end Currency

/-! ### Documents -/

/-- `AccountId` -/
structure AccountId where
  iban : Option JavaString

/-- `Account` -/
structure Account where
  id : Option AccountId

/-- `FinancialInstituionId` -/
structure FinancialInstituionId where
  bic : Option JavaString

/-- `Agent` -/
structure Agent where
  financialInstituionId : Option FinancialInstituionId

/-- `Amount` -/
structure Amount where
  amount : Option BigDecimal
  currency : Option JavaString

/-- `PaymentId` -/
structure PaymentId where
  instructionId : Option JavaString
  endToEndId : Option JavaString
  transactionId : Option JavaString

/-- `EntityId` -/
structure EntityId where
  bicOrBei : Option JavaString

/-- `PartyId` -/
structure PartyId where
  organisationId : Option EntityId

/-- `Party` -/
structure Party where
  id : Option PartyId

/-- `RemittanceInfo` -/
structure RemittanceInfo (α : Type) where
  structured : Option α
  unstructured : Option JavaString

/-- `CreditTransfer` -/
structure CreditTransfer (α : Type) where
  paymentId : Option PaymentId
  interbankSettlementAmount : Option Amount
  debtor : Option Party
  debtorAccount : Option Account
  debtorAgent : Option Agent
  creditor : Option Party
  creditorAccount : Option Account
  creditorAgent : Option Agent
  remittanceInfo : Option (RemittanceInfo α)

namespace CreditTransfer

variable {α : Type}

/-- `REMITTANCE_INFO_UNSTRUCTURED` -/
def REMITTANCE_INFO_UNSTRUCTURED : JavaString := .ofString "RmtInfUstrd"
/-- `REMITTANCE_INFO_STRUCTURED` -/
def REMITTANCE_INFO_STRUCTURED : JavaString := .ofString "RmtInfStrd"

/-- `getAdditionalProperties` -/
def getAdditionalProperties (x : CreditTransfer α) : Properties α :=
  match x.remittanceInfo with
  | none => fun _ => none
  | some remittanceInfo => fun key =>
    if key = REMITTANCE_INFO_UNSTRUCTURED then remittanceInfo.unstructured.map .string
    else if key = REMITTANCE_INFO_STRUCTURED then remittanceInfo.structured.map .other
    else none

/-! The chains of getters that are used. Each is `none` if the value or an object on the way to
it is `null`. -/

/-- The IBAN of the debtor, if it is there. -/
def debtorIban (x : CreditTransfer α) : Option JavaString := do (← (← x.debtorAccount).id).iban

/-- The IBAN of the creditor. -/
def creditorIban (x : CreditTransfer α) : Option JavaString := do (← (← x.creditorAccount).id).iban

/-- The BIC of the debtor's bank. -/
def debtorAgentBic (x : CreditTransfer α) : Option JavaString := do
  (← (← x.debtorAgent).financialInstituionId).bic

/-- The BIC of the creditor's bank. -/
def creditorAgentBic (x : CreditTransfer α) : Option JavaString := do
  (← (← x.creditorAgent).financialInstituionId).bic

/-- The amount to be settled. -/
def settlementAmount (x : CreditTransfer α) : Option BigDecimal := do
  (← x.interbankSettlementAmount).amount

/-- Its currency, as it is written. -/
def settlementCurrency (x : CreditTransfer α) : Option JavaString := do
  (← x.interbankSettlementAmount).currency

end CreditTransfer

/-! ### Conversion -/

/-- The payment that a transfer is converted to. -/
structure EthisoPayment (α : Type) where
  fromBic : StringType
  toBic : StringType
  fromIban : StringType
  toIban : StringType
  currency : Currency
  amount : ℤ
  additionalProperties : Properties α

/-- It throws a `RuntimeException` if it does not return. A part that is missing is noticed by
the next getter, a missing value by what is done with it; nothing depends on which of them is
noticed first. -/
def CreditTransferConverter.convert {α : Type} (creditTransfer : CreditTransfer α) :
    Option (EthisoPayment α) := do
  let from_ := creditTransfer.debtorIban
  let to_ := creditTransfer.creditorIban
  let fromBic := creditTransfer.debtorAgentBic
  let toBic := creditTransfer.creditorAgentBic
  let decimalAmount ← creditTransfer.settlementAmount
  let ccy ← Currency.valueOfJavaString (← creditTransfer.settlementCurrency)
  let amount ← (ccy.deDecimalise decimalAmount).toOption
  let additionalProperties := creditTransfer.getAdditionalProperties
  return ⟨← StringType.new fromBic, ← StringType.new toBic, ← StringType.new from_,
    ← StringType.new to_, ccy, amount, additionalProperties⟩

/-! ### Which amounts can be written in hundredths -/

namespace Abi.BigDecimal

/-- The value is multiplied by the power of ten. -/
theorem value_scaleByPowerOfTen {d d' : BigDecimal} {n : ℤ} (h : d.scaleByPowerOfTen n = .ok d') :
    d'.value = d.value * 10 ^ n := by
  unfold scaleByPowerOfTen at h
  dsimp only at h
  split at h
  · obtain rfl := (pure_eq_ok).mp h
    unfold value
    -- the digits stay, and the powers of ten multiply
    rw [mul_assoc, ← zpow_add₀ (by norm_num)]
    congr 2
    show -(d.scale - n) = -d.scale + n
    omega
  · split at h
    · next h_zero =>
      obtain rfl := (pure_eq_ok).mp h
      unfold value
      rw [h_zero]
      simp
    · cases h

/-- A scale of the number after the decimal point is moved by two places. -/
def Scalable (d : BigDecimal) : Prop :=
  d.unscaledValue = 0 ∨ (-2 ^ 31 ≤ d.scale - 2 ∧ d.scale - 2 < 2 ^ 31)

/-- Which amounts can be scaled. -/
theorem scaleByPowerOfTen_ok {d : BigDecimal} :
    (∃ d', d.scaleByPowerOfTen 2 = .ok d') ↔ d.Scalable := by
  unfold scaleByPowerOfTen Scalable
  dsimp only
  split
  · next h => exact iff_of_true ⟨_, rfl⟩ (Or.inr h)
  · next h =>
    split
    · next h_zero => exact iff_of_true ⟨_, rfl⟩ (Or.inl h_zero)
    · next h_zero =>
      refine iff_of_false (fun ⟨_, h_throw⟩ => ?_) (not_or.mpr ⟨h_zero, h⟩)
      cases h_throw

end Abi.BigDecimal

namespace Currency

/-- **An amount in cents**: scalable, whole and within the range of `BigInteger`. -/
theorem deDecimalise_eq_ok {c : Currency} {amount : BigDecimal} {n : ℤ} :
    c.deDecimalise amount = .ok n ↔
      amount.Scalable ∧ amount.value * 100 = n ∧ BigInteger.InRange n := by
  unfold deDecimalise decimalPlaces
  rw [bind_eq_ok, ← BigDecimal.scaleByPowerOfTen_ok]
  have h_value : ∀ d, amount.scaleByPowerOfTen 2 = .ok d →
      (d.toBigIntegerExact = .ok n ↔ amount.value * 100 = n ∧ BigInteger.InRange n) := by
    intro d h_d
    -- scaling keeps the value, so the exactness is one of the value
    rw [BigDecimal.toBigIntegerExact_eq_ok, BigDecimal.value_scaleByPowerOfTen h_d]
    norm_num
  refine ⟨?_, ?_⟩
  · rintro ⟨d, h_d, h_n⟩
    exact ⟨⟨d, h_d⟩, (h_value d h_d).mp h_n⟩
  · rintro ⟨⟨d, h_d⟩, h_n⟩
    exact ⟨d, h_d, (h_value d h_d).mpr h_n⟩

/-- The amount is a hundredth of the number, with two places. -/
theorem decimalise_eq (c : Currency) (amount : ℤ) : c.decimalise amount = .ok ⟨amount, 2⟩ := rfl

/-- A currency has one name. -/
theorem valueOfJavaString_eq_some {name : JavaString} {c : Currency} :
    valueOfJavaString name = some c ↔ name = .ofString c.toString := by
  unfold valueOfJavaString
  refine ⟨?_, ?_⟩
  · intro h
    have h_found := List.find?_some h
    exact (of_decide_eq_true h_found).symm
  · rintro rfl
    cases c <;> decide

end Currency

/-! ### Which documents are converted -/

section Convert

variable {α : Type} {x : CreditTransfer α}

/-- The payment that a document asks for. -/
structure CreditTransfer.AsksFor (x : CreditTransfer α) (payment : EthisoPayment α) : Prop where
  fromBic : x.debtorAgentBic = some payment.fromBic.1
  toBic : x.creditorAgentBic = some payment.toBic.1
  fromIban : x.debtorIban = some payment.fromIban.1
  toIban : x.creditorIban = some payment.toIban.1
  currency : x.settlementCurrency = some (.ofString payment.currency.toString)
  amount : ∃ amount, x.settlementAmount = some amount ∧ amount.Scalable ∧
    amount.value * 100 = payment.amount ∧ BigInteger.InRange payment.amount
  additionalProperties : payment.additionalProperties = x.getAdditionalProperties

/-- **What is converted**: exactly the payment that the transfer asks for. -/
theorem convert_eq_some {payment : EthisoPayment α} :
    CreditTransferConverter.convert x = some payment ↔ x.AsksFor payment := by
  obtain ⟨fromBic, toBic, fromIban, toIban, currency, n, additionalProperties⟩ := payment
  have h_ok : ∀ (c : Currency) (amount : BigDecimal) (k : ℤ),
      (c.deDecimalise amount).toOption = some k ↔ c.deDecimalise amount = .ok k := by
    intro c amount k
    cases c.deDecimalise amount <;> simp [Except.toOption]
  -- a chain of binds is a conjunction of what each of them needs
  unfold CreditTransferConverter.convert
  simp only [Option.bind_eq_bind, Option.bind_eq_some_iff, Option.pure_def, Option.some.injEq,
    EthisoPayment.mk.injEq, PaymentListener.stringType_new, h_ok, Currency.deDecimalise_eq_ok,
    Currency.valueOfJavaString_eq_some]
  refine ⟨?_, ?_⟩
  · rintro ⟨amount, h_amount, name, h_name, c, rfl, k, h_k, v₁, h₁, v₂, h₂, v₃, h₃, v₄, h₄, rfl,
      rfl, rfl, rfl, rfl, rfl, rfl⟩
    exact ⟨h₁, h₂, h₃, h₄, h_name, ⟨amount, h_amount, h_k⟩, rfl⟩
  · rintro ⟨h₁, h₂, h₃, h₄, h_name, ⟨amount, h_amount, h_k⟩, rfl⟩
    exact ⟨amount, h_amount, _, h_name, currency, rfl, n, h_k, fromBic, h₁, toBic, h₂, fromIban, h₃,
      toIban, h₄, rfl, rfl, rfl, rfl, rfl, rfl, rfl⟩

/-- The parts that are needed are there, and the payment that they make is one. -/
structure CreditTransfer.Convertible (x : CreditTransfer α) : Prop where
  debtorAgentBic : ∃ bic, x.debtorAgentBic = some bic ∧ bic ≠ []
  creditorAgentBic : ∃ bic, x.creditorAgentBic = some bic ∧ bic ≠ []
  debtorIban : ∃ iban, x.debtorIban = some iban ∧ iban ≠ []
  creditorIban : ∃ iban, x.creditorIban = some iban ∧ iban ≠ []
  currency : ∃ ccy : Currency, x.settlementCurrency = some (.ofString ccy.toString)
  amount : ∃ amount, x.settlementAmount = some amount ∧ amount.Scalable ∧
    ∃ n : ℤ, amount.value * 100 = n ∧ BigInteger.InRange n

/-- **Conversion.** The converter accepts a document if and only if its accounts, agents, currency
and amount are as they have to be. -/
theorem convert_isSome : (CreditTransferConverter.convert x).isSome = true ↔ x.Convertible := by
  rw [Option.isSome_iff_exists]
  refine ⟨?_, ?_⟩
  -- what it is converted to says that every part is there
  · rintro ⟨payment, h⟩
    have h_asks := convert_eq_some.mp h
    obtain ⟨amount, h_amount, h_scalable, h_n⟩ := h_asks.amount
    exact ⟨⟨_, h_asks.fromBic, payment.fromBic.2⟩, ⟨_, h_asks.toBic, payment.toBic.2⟩,
      ⟨_, h_asks.fromIban, payment.fromIban.2⟩, ⟨_, h_asks.toIban, payment.toIban.2⟩,
      ⟨_, h_asks.currency⟩, ⟨amount, h_amount, h_scalable, _, h_n⟩⟩
  -- the parts make the payment
  · rintro ⟨⟨bic₁, h₁, h_ne₁⟩, ⟨bic₂, h₂, h_ne₂⟩, ⟨iban₁, h₃, h_ne₃⟩, ⟨iban₂, h₄, h_ne₄⟩,
      ⟨ccy, h_ccy⟩, ⟨amount, h_amount, h_scalable, n, h_n⟩⟩
    refine ⟨⟨⟨bic₁, h_ne₁⟩, ⟨bic₂, h_ne₂⟩, ⟨iban₁, h_ne₃⟩, ⟨iban₂, h_ne₄⟩, ccy, n,
      x.getAdditionalProperties⟩, convert_eq_some.mpr ?_⟩
    exact ⟨h₁, h₂, h₃, h₄, h_ccy, ⟨amount, h_amount, h_scalable, h_n⟩, rfl⟩

end Convert

end Ethiso
