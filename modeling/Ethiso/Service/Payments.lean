import Ethiso.Abi.Encoding
import Ethiso.Service.Values

/-!
# Payments in the payment service

`sendPaymentAsync` looks up the BIC of the payee in the registrar and sends the payment to
the contract, with the two BICs and the two IBANs among the additional properties, which
are written as JSON. Two handlers read what the contract has to say about payments:
`onResultMessage` is told of the results of the bank's own payments only, by the filter on
the topics; `onPaymentMessage` is told of all payments, and decides by the BIC of
the payee in the additional properties which of them are for the bank.

The JSON library is not in the repository. `writeValueAsString` and `readValue` are
parameters; the values of a map that are neither strings nor `null` are of a type `α`, of
which nothing is used.
-/

namespace Ethiso

open Abi

/-! ### The registrar -/

/-- `NameToAddressRegistrar.sol`. A name is a string of bytes. -/
structure NameToAddressRegistrar where
  addresses : List UInt8 → Address

namespace NameToAddressRegistrar

/-- No name is registered. -/
def empty : NameToAddressRegistrar := ⟨fun _ => 0⟩

/-- `setAddress` -/
def setAddress (s : NameToAddressRegistrar) (name : List UInt8) (a : Address) :
    NameToAddressRegistrar :=
  ⟨fun n => if n = name then a else s.addresses n⟩

/-- `getAddress` -/
def getAddress (s : NameToAddressRegistrar) (name : List UInt8) : Address := s.addresses name

end NameToAddressRegistrar

/-! ### Bank identifiers and additional properties -/

/-- A `Bic` or an `Iban`. -/
abbrev StringType := { value : JavaString // value ≠ [] }

/-- `bic` and `iban` throw if the value is `null` or empty. -/
def StringType.new (value : Option JavaString) : Option StringType :=
  match value with
  | some value => if h : value ≠ [] then some ⟨value, h⟩ else none
  | none => none

/-- A value in a `Map<String, Object>`. -/
inductive PropertyValue (α : Type)
  | null
  | string (value : JavaString)
  | other (value : α)

/-- `Map<String, Object>` -/
abbrev Properties (α : Type) := JavaString → Option (PropertyValue α)

namespace PaymentServiceImpl

variable {α : Type}

/-- `EMPTY_MAP` -/
def EMPTY_MAP : Properties α := fun _ => none
/-- `FROM_BIC` -/
def FROM_BIC : JavaString := .ofString "fromBic"
/-- `TO_BIC` -/
def TO_BIC : JavaString := .ofString "toBic"
/-- `FROM_IBAN` -/
def FROM_IBAN : JavaString := .ofString "fromIban"
/-- `TO_IBAN` -/
def TO_IBAN : JavaString := .ofString "toIban"

/-- `getAddress(bytes)` of the registrar, encoded. -/
def getAddressEncoding : Abi.FunctionEncoding where
  hash := "0xbf40fac1aa7cc4262e7fd7a59a4812a50bf3a17aa22f9ff70d583fe20f433c4d".toList
  eventIndexedParameters := []
  inputParameters := [⟨.string, .string⟩]
  outputParameters := [⟨.address, .address⟩]
  inputParametersHeadSize := 32

/-- `bicRegistrar.getAddress`. It throws if `encode` does. -/
def getAddress (registrar : NameToAddressRegistrar) (name : JavaString) : Java RpcAddress := do
  let _ ← getAddressEncoding.encode [⟨.string, name⟩]
  return (registrar.getAddress name.getBytes).toRpc

/-! ### Sending -/

/-- The arguments of `sendPaymentAsync`, and the UUID that it draws. -/
structure PaymentOrder (α : Type) where
  fromBic : StringType
  toBic : StringType
  fromIban : StringType
  toIban : StringType
  currency : Currency
  paymentAmount : ℤ
  additionalProperties : Option (Properties α)
  messageId : String

/-- What `sendPaymentAsync` hands to `sendTransaction`. -/
structure Payment where
  toAddress : RpcAddress
  currency : Currency
  paymentAmount : ℤ
  messageId : String
  additionalProperties : JavaString

/-- The properties with those that the service adds. -/
def PaymentOrder.properties (x : PaymentOrder α) : Properties α :=
  let additionalProperties := x.additionalProperties.getD EMPTY_MAP
  fun key =>
    if key = TO_IBAN then some (.string x.toIban)
    else if key = FROM_IBAN then some (.string x.fromIban)
    else if key = TO_BIC then some (.string x.toBic)
    else if key = FROM_BIC then some (.string x.fromBic)
    else additionalProperties key

/-- `sendPaymentAsync` up to the UUID. `writeValueAsString` is `none` if it throws. -/
def PaymentOrder.payment (writeValueAsString : Properties α → Option JavaString)
    (registrar : NameToAddressRegistrar) (x : PaymentOrder α) : Java Payment := do
  let additionalPropertiesString :=
    (writeValueAsString x.properties).getD (.ofString "\x7b\x7d")
  let toAddress ← getAddress registrar x.toBic
  return ⟨toAddress, x.currency, x.paymentAmount, x.messageId, additionalPropertiesString⟩

/-- `sendPayment` of the contract, encoded. -/
def sendPaymentEncoding : Abi.FunctionEncoding where
  hash := "0x69914deaf58d4682ea0d2aa229641b524a835a508f886151a23cb60148714e67".toList
  eventIndexedParameters := []
  inputParameters := [⟨.address, .address⟩, ⟨.string, .string⟩,
    ⟨.bigInteger, .uint ⟨256, by decide⟩⟩, ⟨.string, .string⟩, ⟨.string, .string⟩]
  outputParameters := [⟨.boolean, .bool⟩]
  inputParametersHeadSize := 160

/-- The arguments of `sendPayment`, for `encode`. -/
def Payment.args (p : Payment) : List JavaObject :=
  [⟨.address, p.toAddress⟩, ⟨.string, JavaString.ofString p.currency.toString⟩,
    ⟨.bigInteger, p.paymentAmount⟩, ⟨.string, JavaString.ofString p.messageId⟩,
    ⟨.string, p.additionalProperties⟩]

/-- The call that the contract is sent, if `encode` does not throw. -/
def Payment.sendTransaction (p : Payment) : Java TrustlineCall := do
  let _ ← sendPaymentEncoding.encode p.args
  return .sendPayment (.ofRpc p.toAddress) p.currency.toString (BitVec.ofInt 256 p.paymentAmount)
    p.messageId (String.ofList p.additionalProperties.characters)

/-! ### Handlers -/

/-- What the handler of `ResultMessage` reads. -/
structure PaymentResult where
  messageId : String
  message : String
  errorType : ℤ
  deriving DecidableEq

/-- `intValueExact` throws if the error type is no `int`. -/
def onResultMessage (x : List EventArgument) : Option PaymentResult :=
  match x with
  | [_, .string messageId, .string message, .bigInteger errorType] =>
    if -2 ^ 31 ≤ errorType ∧ errorType < 2 ^ 31 then some ⟨messageId, message, errorType⟩ else none
  | _ => none

/-- What the listener for payments is told. -/
structure PaymentNotification (α : Type) where
  fromBic : StringType
  toBic : StringType
  fromIban : StringType
  toIban : StringType
  currency : Currency
  amount : ℤ
  additionalProperties : Properties α

/-- `(String) additionalProperties.get(key)`: it throws if the map is `null`, or the value
is neither a string nor `null`. -/
def getString (additionalProperties : Option (Properties α)) (key : JavaString) :
    Option (Option JavaString) := do
  let properties ← additionalProperties
  match properties key with
  | none => some none
  | some .null => some none
  | some (.string value) => some (some value)
  | some (.other _) => none

/-- The properties of a payment. If `readValue` throws, there are none. -/
def readProperties (readValue : JavaString → Java (Option (Properties α))) (text : JavaString) :
    Option (Properties α) :=
  match readValue text with
  | .ok properties => properties
  | .error _ => some EMPTY_MAP

/-- The handler of `PaymentMessage`: what the listener is told, if the handler does not throw
and the payment is for the bank. -/
def onPaymentMessage (readValue : JavaString → Java (Option (Properties α)))
    (registrar : NameToAddressRegistrar) (fromAccount : RpcAddress) (x : List EventArgument) :
    Option (PaymentNotification α) :=
  match x with
  | [_, _, _, .bigInteger amount, .string ccy, .string additionalProperties] => do
    let ccy ← Currency.valueOf ccy
    let additionalProperties := readProperties readValue (.ofString additionalProperties)
    let fromBic ← StringType.new (← getString additionalProperties FROM_BIC)
    let toBic ← StringType.new (← getString additionalProperties TO_BIC)
    let fromIban ← StringType.new (← getString additionalProperties FROM_IBAN)
    let toIban ← StringType.new (← getString additionalProperties TO_IBAN)
    let toAddr ← (getAddress registrar toBic).toOption
    let properties ← additionalProperties
    if toAddr.toWideAddressString = fromAccount.toWideAddressString then
      return ⟨fromBic, toBic, fromIban, toIban, ccy, amount, properties⟩
    else none
  | _ => none

end PaymentServiceImpl

/-- What the handler of `ResultMessage` is told: only the results of the payments from its own
account pass the filter. -/
def Event.paymentResult (fromAccount : RpcAddress) (e : Event) :
    Option PaymentServiceImpl.PaymentResult :=
  match e with
  | .resultMessage fromBank .. =>
    if fromBank.toRpc.toWideAddressString = fromAccount.toWideAddressString then
      PaymentServiceImpl.onResultMessage e.decode
    else none
  | _ => none

/-- What the listener is told of an event. -/
def Event.paymentNotification {α : Type} (readValue : JavaString → Java (Option (Properties α)))
    (registrar : NameToAddressRegistrar) (fromAccount : RpcAddress) (e : Event) :
    Option (PaymentServiceImpl.PaymentNotification α) :=
  match e with
  | .paymentMessage .. =>
    PaymentServiceImpl.onPaymentMessage readValue registrar fromAccount e.decode
  | _ => none

end Ethiso
