import Ethiso.Abi.ParameterTypes
import Ethiso.Client.Ethereum
import Ethiso.Framework.Outcome
import Ethiso.Framework.Promises
import Ethiso.Service.Payments

/-!
# Payments that fail

`sendPaymentAsync` puts a future into `pendingPayments` before it sends the transaction. What
throws before, the lookup of the payee for one, leaves no trace. What throws after it leaves the
future in the map: a currency or an amount that is `null`, arguments that `encode` rejects or has
no room for, and a full queue, for which also a nonce is gone.

So a call leaves no trace if and only if it throws before the future is made, or does not throw at
all (`leavesNoTrace_iff`).
-/

namespace Ethiso

open Abi

/-! ### Sending a transaction -/

namespace Ethereum

/-- The capacity of a `LinkedBlockingQueue`. -/
def QUEUE_CAPACITY : ℕ := 2 ^ 31 - 1

namespace State

variable {ρ : Type}

/-- `transactionQueue.add` -/
def add (s : State ρ) (t : TransactionAndReceipt) : Outcome (State ρ) :=
  if s.transactionQueue.length < QUEUE_CAPACITY then
    .returned { s with
      transactionQueue := s.transactionQueue ++ [t]
      returned := s.returned ++ [t.futureTransactionReceipt] }
  else .threw s

/-- `sendTransaction`, which throws if `encode` does or the queue is full. -/
def trySendTransaction (fromAccount : RpcAddress) (s : State ρ) (contractAddress : RpcAddress)
    (functionEncoding : Abi.FunctionEncoding) (args : List JavaObject) : Outcome (State ρ) :=
  match functionEncoding.encode args with
  | .error _ => .threw s
  | .ok data =>
    let (t, s) := s.newTransaction fun nonce =>
      ⟨fromAccount, some contractAddress, MAIN_GAS, some ZERO_VALUE, data, nonce⟩
    s.add t

section Send

variable {fromAccount contractAddress : RpcAddress} {s : State ρ} {t : TransactionAndReceipt}
  {functionEncoding : Abi.FunctionEncoding} {args : List JavaObject}

/-- The queue takes what fits. -/
theorem isReturned_add :
    (s.add t).isReturned = true ↔ s.transactionQueue.length < QUEUE_CAPACITY := by
  unfold add
  split_ifs with h
  · exact iff_of_true rfl h
  · exact iff_of_false Bool.false_ne_true h

/-- A transaction is queued if it can be encoded. -/
theorem isReturned_trySendTransaction :
    (s.trySendTransaction fromAccount contractAddress functionEncoding args).isReturned = true ↔
      (∃ data, functionEncoding.encode args = .ok data) ∧
        s.transactionQueue.length < QUEUE_CAPACITY := by
  unfold trySendTransaction
  cases functionEncoding.encode args with
  | error e => simp
  | ok data => exact isReturned_add.trans (and_iff_right ⟨data, rfl⟩).symm

/-- It is the step of the machine, unless the queue is full. -/
theorem state_trySendTransaction (h : s.transactionQueue.length < QUEUE_CAPACITY) :
    (s.trySendTransaction fromAccount contractAddress functionEncoding args).state =
      s.sendTransaction fromAccount contractAddress functionEncoding args := by
  unfold trySendTransaction sendTransaction
  cases functionEncoding.encode args with
  | error e => rfl
  | ok data => exact congrArg Outcome.state (if_pos h)

end Send

end State

end Ethereum

namespace PaymentServiceImpl

variable {α ρ : Type}

/-! ### Encoding a payment -/

section Encode

open Abi.FunctionEncoding

/-- The number of bytes in the tail for a string. -/
def stringSize (s : JavaString) : ℕ := 32 + ArrayType.paddedLength s.getBytes.length

/-- The size of the dynamic arguments. -/
def Payment.tailSize (p : Payment) : ℕ :=
  stringSize (.ofString p.currency.toString) + stringSize (.ofString p.messageId) +
    stringSize p.additionalProperties

theorem isSize_uint256 : 0 < 256 ∧ 256 ≤ 256 ∧ 256 % 8 = 0 := by decide

/-- The arguments of the payment. -/
def Payment.arguments (p : Payment) : List Argument :=
  [⟨.address, .address, p.toAddress⟩,
    ⟨.string, .string, JavaString.ofString p.currency.toString⟩,
    ⟨.bigInteger, .uint ⟨256, isSize_uint256⟩, p.paymentAmount⟩,
    ⟨.string, .string, JavaString.ofString p.messageId⟩,
    ⟨.string, .string, p.additionalProperties⟩]

/-- The content of a text. -/
theorem length_content_string (s : JavaString) :
    (Argument.part ⟨.string, .string, s⟩).content.length = stringSize s := by
  show (Abi.word s.getBytes.length ++ TypeConverterUtils.padded s.getBytes).length = stringSize s
  rw [length_word_append, length_padded]
  rfl

/-- The tails are as long as the dynamic arguments. -/
theorem length_tails_arguments (p : Payment) :
    (tails (p.arguments.map Argument.part)).length = p.tailSize := by
  simp only [Payment.arguments, List.map_cons, List.map_nil]
  rw [tails_cons_static rfl, tails_cons_dynamic rfl, tails_cons_static rfl, tails_cons_dynamic rfl,
    tails_cons_dynamic rfl, List.length_append, List.length_append, List.length_append,
    length_content_string, length_content_string, length_content_string]
  exact (Nat.add_assoc _ _ _).symm

/-- Each head is a word. -/
theorem full_arguments (p : Payment) :
    ∀ a ∈ p.arguments, a.part.headSize 32 = a.converter.headWidth := by
  unfold Payment.arguments
  simp only [List.forall_mem_cons]
  exact ⟨length_word _, rfl, length_word _, rfl, rfl, List.forall_mem_nil _⟩

theorem headSize_arguments (p : Payment) : headSize 32 (p.arguments.map Argument.part) = 160 :=
  headSize_eq_headWidths (full_arguments p)

/-- A text that fits is accepted. -/
theorem accepted_string {s : JavaString} (h : stringSize s ≤ 1024) :
    Argument.Accepted ⟨.string, .string, s⟩ := by
  unfold stringSize ArrayType.paddedLength at h
  show s.getBytes.length < 2 ^ 256
  omega

/-- **When a payment is encoded.** -/
theorem Payment.encode_ok_iff (p : Payment) :
    (∃ data, sendPaymentEncoding.encode p.args = .ok data) ↔
      (0 ≤ p.paymentAmount ∧ p.paymentAmount < 2 ^ 256) ∧ p.tailSize ≤ 1024 := by
  have h_iff {data : List Char} : sendPaymentEncoding.encode p.args = .ok data ↔
      sendPaymentEncoding.Returns p.arguments data :=
    @encode_eq_ok_iff sendPaymentEncoding p.arguments data (by decide) rfl
  simp only [h_iff]
  refine ⟨?_, ?_⟩
  -- encoding returns: the amount is a `uint256` and the tails fit
  · rintro ⟨data, h⟩
    have h_tails := h.tails_le
    rw [length_tails_arguments] at h_tails
    have h_amount := h.accepted ⟨.bigInteger, .uint ⟨256, isSize_uint256⟩, p.paymentAmount⟩
      (by simp [Payment.arguments])
    exact ⟨h_amount, h_tails⟩
  -- conversely all arguments are accepted
  · rintro ⟨h_amount, h_tails⟩
    have h_sizes := h_tails
    unfold Payment.tailSize at h_sizes
    refine ⟨_, ⟨?_, full_arguments p, ?_, offsetsFit_of_lt ?_, ?_, rfl⟩⟩
    · unfold Payment.arguments
      simp only [List.forall_mem_cons]
      exact ⟨trivial, accepted_string (by omega), h_amount, accepted_string (by omega),
        accepted_string (by omega), List.forall_mem_nil _⟩
    · rw [headSize_arguments]
      decide
    · rw [headSize_arguments, length_tails_arguments]
      omega
    · rwa [length_tails_arguments]

end Encode

/-! ### The call -/

/-- The arguments of `sendPaymentAsync`, which may be `null`, and the UUID that it draws. -/
structure PaymentRequest (α : Type) where
  fromBic : Option StringType
  toBic : Option StringType
  fromIban : Option StringType
  toIban : Option StringType
  currency : Option Currency
  paymentAmount : Option ℤ
  additionalProperties : Option (Properties α)
  messageId : String

/-- The accounts, the JSON library and the node, which has no answer to a call if it throws. -/
structure Environment (α : Type) where
  fromAccount : RpcAddress
  contractAddress : RpcAddress
  writeValueAsString : Properties α → Option JavaString
  eth_call : List Char → Option (List Char)

/-- `bicRegistrar.getAddress` -/
def Environment.getAddress (env : Environment α) (name : JavaString) : Option RpcAddress := do
  let data ← (getAddressEncoding.encode [⟨.string, name⟩]).toOption
  let result ← env.eth_call data
  let objects ← (getAddressEncoding.decode result).toOption
  match objects with
  | ⟨.address, address⟩ :: _ => some address
  | _ => none

namespace PaymentRequest

/-- `additionalProperties.put(key, value.toString())` -/
def put (additionalProperties : Properties α) (key : JavaString) (value : Option StringType) :
    Option (Properties α) :=
  value.map fun value => Function.update additionalProperties key (some (.string value))

/-- Adds the names of both parties; a missing one ends in an exception. -/
def properties (x : PaymentRequest α) : Option (Properties α) := do
  let additionalProperties := x.additionalProperties.getD EMPTY_MAP
  let additionalProperties ← put additionalProperties FROM_BIC x.fromBic
  let additionalProperties ← put additionalProperties TO_BIC x.toBic
  let additionalProperties ← put additionalProperties FROM_IBAN x.fromIban
  put additionalProperties TO_IBAN x.toIban

/-- The properties as JSON. If they cannot be written, there are none. -/
def additionalPropertiesString (env : Environment α) (properties : Properties α) : JavaString :=
  (env.writeValueAsString properties).getD (.ofString "\x7b\x7d")

/-- What is handed to `sendTransaction`. -/
def payment (x : PaymentRequest α) (toAddress : RpcAddress)
    (additionalProperties : JavaString) : Option Payment := do
  let currency ← x.currency
  let paymentAmount ← x.paymentAmount
  return ⟨toAddress, currency, paymentAmount, x.messageId, additionalProperties⟩

end PaymentRequest

/-- The service and its client. The futures that were made are numbered. -/
structure State (ρ : Type) where
  pendingPayments : Promises String
  pending_lt : ∀ name k, pendingPayments.pending name = some k → k < pendingPayments.names.length
  ethereum : Ethereum.State ρ

namespace State

/-- `pendingPayments.put` of a new future. -/
def put (s : State ρ) (messageId : String) : State ρ where
  pendingPayments := s.pendingPayments.register messageId
  pending_lt := by
    intro name k h
    show k < (s.pendingPayments.names ++ [messageId]).length
    rw [List.length_append, List.length_singleton]
    unfold Promises.register at h
    dsimp only at h
    by_cases h_name : name = messageId
    · rw [h_name, Function.update_self] at h
      obtain rfl := Option.some.inj h
      exact Nat.lt_succ_self _
    · rw [Function.update_of_ne h_name] at h
      exact (s.pending_lt name k h).trans (Nat.lt_succ_self _)
  ethereum := s.ethereum

/-- `sendTransaction`, which throws if there is a `null` among the arguments. -/
def send (env : Environment α) (s : State ρ) (payment : Option Payment) : Outcome (State ρ) :=
  match payment with
  | none => .threw s
  | some p =>
    (s.ethereum.trySendTransaction env.fromAccount env.contractAddress sendPaymentEncoding
      p.args).map fun ethereum => { s with ethereum := ethereum }

/-- `sendPaymentAsync`: the request is noted as pending before it is sent. -/
def sendPaymentAsync (env : Environment α) (s : State ρ) (x : PaymentRequest α) :
    Outcome (State ρ) :=
  match x.properties, x.toBic with
  | some properties, some toBic =>
    match env.getAddress toBic with
    | none => .threw s
    | some toAddress =>
      let additionalProperties := PaymentRequest.additionalPropertiesString env properties
      (s.put x.messageId).send env (x.payment toAddress additionalProperties)
  | _, _ => .threw s

end State

/-! ### Traces -/

/-- One of the BICs and IBANs is `null`. -/
def PaymentRequest.LacksName (x : PaymentRequest α) : Prop :=
  x.fromBic = none ∨ x.toBic = none ∨ x.fromIban = none ∨ x.toIban = none

/-- The call throws before there is a future: the address of the payee is not found. -/
def PaymentRequest.ThrowsEarly (env : Environment α) (x : PaymentRequest α) : Prop :=
  x.LacksName ∨ ∃ toBic : StringType, x.toBic = some toBic ∧ env.getAddress toBic = none

/-- There are a currency and an amount, `encode` takes the amount and has room for the texts, and
the queue has room for the transaction. -/
def PaymentRequest.IsSent (env : Environment α) (s : Ethereum.State ρ) (x : PaymentRequest α) :
    Prop :=
  ∃ properties currency paymentAmount, x.properties = some properties ∧
    x.currency = some currency ∧ x.paymentAmount = some paymentAmount ∧
    (0 ≤ paymentAmount ∧ paymentAmount < 2 ^ 256) ∧
    stringSize (.ofString currency.toString) + stringSize (.ofString x.messageId) +
      stringSize (PaymentRequest.additionalPropertiesString env properties) ≤ 1024 ∧
    s.transactionQueue.length < Ethereum.QUEUE_CAPACITY

/-- The map, the nonce and the queue are as before. -/
structure NoTrace (s s' : State ρ) : Prop where
  pendingPayments : s'.pendingPayments.pending = s.pendingPayments.pending
  accountNonce : s'.ethereum.accountNonce = s.ethereum.accountNonce
  transactionQueue : s'.ethereum.transactionQueue = s.ethereum.transactionQueue

/-- If the call throws, the state is as before. -/
def LeavesNoTrace (env : Environment α) (s : State ρ) (x : PaymentRequest α) : Prop :=
  ∀ s', s.sendPaymentAsync env x = .threw s' → NoTrace s s'

section Traces

variable {env : Environment α} {s : State ρ} {x : PaymentRequest α}

/-- The properties fail if a name is missing. -/
theorem PaymentRequest.properties_eq_none : x.properties = none ↔ x.LacksName := by
  unfold properties put LacksName
  cases x.fromBic <;> cases x.toBic <;> cases x.fromIban <;> cases x.toIban <;> simp

/-- A new future is another one than those in the map. -/
theorem State.pending_put_ne (s : State ρ) (messageId : String) :
    (s.put messageId).pendingPayments.pending ≠ s.pendingPayments.pending := by
  intro h
  have h_new : (s.put messageId).pendingPayments.pending messageId =
      some s.pendingPayments.names.length := Function.update_self _ _ _
  rw [h] at h_new
  exact Nat.lt_irrefl _ (s.pending_lt messageId _ h_new)

/-- Sending changes no pending payment. -/
theorem State.pendingPayments_send (payment : Option Payment) :
    (s.send env payment).state.pendingPayments = s.pendingPayments := by
  unfold send
  cases payment with
  | none => rfl
  | some p =>
    dsimp only
    cases s.ethereum.trySendTransaction env.fromAccount env.contractAddress sendPaymentEncoding
      p.args <;> rfl

/-- What is sent: an amount and texts that fit, if the queue has room. -/
theorem State.isReturned_send {p : Payment} : (s.send env (some p)).isReturned = true ↔
    ((0 ≤ p.paymentAmount ∧ p.paymentAmount < 2 ^ 256) ∧ p.tailSize ≤ 1024) ∧
      s.ethereum.transactionQueue.length < Ethereum.QUEUE_CAPACITY := by
  unfold send
  rw [Outcome.isReturned_map, Ethereum.State.isReturned_trySendTransaction, p.encode_ok_iff]

/-- Either the call throws early, or it goes on when there is a new future in the map. -/
theorem State.sendPaymentAsync_cases (env : Environment α) (s : State ρ) (x : PaymentRequest α) :
    (x.ThrowsEarly env ∧ s.sendPaymentAsync env x = .threw s) ∨
      (¬x.ThrowsEarly env ∧ ∃ properties toAddress, x.properties = some properties ∧
        s.sendPaymentAsync env x = (s.put x.messageId).send env (x.payment toAddress
          (PaymentRequest.additionalPropertiesString env properties))) := by
  unfold sendPaymentAsync
  cases h_properties : x.properties with
  | none => exact Or.inl ⟨Or.inl (PaymentRequest.properties_eq_none.mp h_properties), rfl⟩
  | some properties =>
    -- the texts of all names were put
    have h_names : ¬x.LacksName := by
      rw [← PaymentRequest.properties_eq_none, h_properties]
      exact Option.some_ne_none properties
    cases h_bic : x.toBic with
    | none => exact absurd (Or.inr (Or.inl h_bic)) h_names
    | some toBic =>
      dsimp only
      cases h_address : env.getAddress toBic with
      | none => exact Or.inl ⟨Or.inr ⟨toBic, h_bic, h_address⟩, rfl⟩
      | some toAddress =>
        refine Or.inr ⟨?_, properties, toAddress, rfl, rfl⟩
        rintro (h | ⟨toBic', h_bic', h_none⟩)
        · exact h_names h
        · obtain rfl := Option.some.inj (h_bic.symm.trans h_bic')
          exact Option.some_ne_none _ (h_address.symm.trans h_none)

/-- Once the future is in the map, the call must not throw. -/
theorem leavesNoTrace_iff_isReturned {payment : Option Payment} {messageId : String}
    (h : s.sendPaymentAsync env x = (s.put messageId).send env payment) :
    LeavesNoTrace env s x ↔ ((s.put messageId).send env payment).isReturned = true := by
  have h_pending := @State.pendingPayments_send α ρ env (s.put messageId) payment
  unfold LeavesNoTrace
  rw [h]
  cases h_send : (s.put messageId).send env payment with
  | returned s' => exact iff_of_true (fun s'' h' => by cases h') rfl
  | threw s' =>
    refine iff_of_false (fun h_all => ?_) Bool.false_ne_true
    -- the new future is still in the map
    rw [h_send] at h_pending
    have h_trace := (h_all s' rfl).pendingPayments
    rw [show s'.pendingPayments = _ from h_pending] at h_trace
    exact s.pending_put_ne messageId h_trace

/-- **When a payment that fails leaves no trace.** -/
theorem leavesNoTrace_iff (env : Environment α) (s : State ρ) (x : PaymentRequest α) :
    LeavesNoTrace env s x ↔ x.ThrowsEarly env ∨ x.IsSent env s.ethereum := by
  rcases s.sendPaymentAsync_cases env x with
    ⟨h_early, h_eq⟩ | ⟨h_late, properties, toAddress, h_properties, h_eq⟩
  · refine iff_of_true (fun s' h => ?_) (Or.inl h_early)
    rw [h_eq] at h
    cases h
    exact ⟨rfl, rfl, rfl⟩
  · rw [or_iff_right h_late, leavesNoTrace_iff_isReturned h_eq]
    unfold PaymentRequest.payment PaymentRequest.IsSent
    rw [h_properties]
    -- without a currency or an amount it throws
    cases x.currency with
    | none => simp [State.send]
    | some currency =>
      cases x.paymentAmount with
      | none => simp [State.send]
      | some paymentAmount =>
        refine State.isReturned_send.trans ⟨?_, ?_⟩
        · rintro ⟨⟨h_range, h_size⟩, h_queue⟩
          exact ⟨properties, currency, paymentAmount, rfl, rfl, rfl, h_range, h_size, h_queue⟩
        · rintro ⟨_, _, _, ⟨rfl⟩, ⟨rfl⟩, ⟨rfl⟩, h_range, h_size, h_queue⟩
          exact ⟨⟨h_range, h_size⟩, h_queue⟩

/-! ### A negative amount -/

/-- A node that finds the same address for every name. -/
def sampleEnvironment : Environment Unit where
  fromAccount := Address.toRpc 1
  contractAddress := Address.toRpc 2
  writeValueAsString _ := some (.ofString
    "\x7b\"fromBic\":\"P\",\"toBic\":\"Q\",\"fromIban\":\"R\",\"toIban\":\"S\"\x7d")
  eth_call _ := some ('0' :: 'x' :: List.replicate 63 '0' ++ ['3'])

/-- A state without payments. -/
def sampleState : State Unit where
  pendingPayments := .empty
  pending_lt _ _ h := nomatch h
  ethereum := .init 0

/-- A request with a negative amount. -/
def negativePayment : PaymentRequest Unit where
  fromBic := some ⟨.ofString "P", by decide⟩
  toBic := some ⟨.ofString "Q", by decide⟩
  fromIban := some ⟨.ofString "R", by decide⟩
  toIban := some ⟨.ofString "S", by decide⟩
  currency := some .GBP
  paymentAmount := some (-1)
  additionalProperties := none
  messageId := "6ad7aed5-27c4-4aa8-a3f6-0f6e3a0e6d0a"

/-- The payee is found, but `encode` rejects the amount. -/
theorem not_leavesNoTrace_negative :
    ¬LeavesNoTrace sampleEnvironment sampleState negativePayment := by
  have h_found : (sampleEnvironment.getAddress (.ofString "Q")).isSome = true := by decide +kernel
  -- no name is missing and the bank is known, so the request is pending
  rcases sampleState.sendPaymentAsync_cases sampleEnvironment negativePayment with
    ⟨h_early, -⟩ | ⟨-, properties, toAddress, -, h_eq⟩
  · rcases h_early with h_name | ⟨toBic, h_bic, h_none⟩
    · rcases h_name with h | h | h | h <;> cases h
    · obtain rfl := Option.some.inj h_bic
      rw [h_none] at h_found
      cases h_found
  · rw [leavesNoTrace_iff_isReturned h_eq]
    intro h_returned
    -- a negative amount is not encoded
    have h_range : (0 : ℤ) ≤ -1 := (State.isReturned_send.mp h_returned).1.1.1
    exact absurd h_range (by decide)

end Traces

end PaymentServiceImpl

end Ethiso
