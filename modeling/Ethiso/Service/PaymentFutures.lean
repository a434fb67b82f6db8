import Ethiso.Contracts.PaymentOutcome
import Ethiso.Framework.Promises
import Ethiso.Service.Payments

/-!
# The futures of payments

`sendPaymentAsync` puts a future into the map `pendingPayments` under a new UUID, which is
the message id of the payment, and sends the transaction. The handler of `ResultMessage`
removes the future under the message id of the event, and completes it.

One bank's payment service is a machine here, together with the contract and the registrar.
Calls of `sendPaymentAsync` are in two steps, before and after the transaction is sent.
Transactions are executed in any order, other calls of the contract come in
between, and each event in the log is delivered at any time and any number of times.

A completion is right (`Truthful`) if its future belongs to a payment whose transaction was
executed, the event that caused it was emitted by this execution, and the outcome is what
the execution did.
-/

namespace Ethiso

open Abi PaymentServiceImpl

namespace PaymentFutures

variable {α : Type}

/-! ### The machine -/

/-- An event in the log of the contract, and the future of the payment that it goes back to. -/
structure Logged where
  event : Event
  future : Option ℕ
  deriving DecidableEq

/-- A transaction that was executed, in this state of the contract. -/
structure Execution where
  future : ℕ
  before : PaymentService
  call : TrustlineCall

/-- How a future completes. -/
inductive Outcome
  | normally
  | exceptionally (message : String)
  deriving DecidableEq

/-- A future that was completed, and the event that the handler was told of. -/
structure Completion where
  future : ℕ
  outcome : Outcome
  cause : Logged
  deriving DecidableEq

/-- The `k`-th future is the one for the `k`-th of the payments. A call that has `started` has
not sent its transaction yet. -/
structure State where
  contract : PaymentService
  registrar : NameToAddressRegistrar
  log : List Logged
  pendingPayments : Promises String
  payments : List Payment
  started : List (ℕ × Payment)
  transactions : List (ℕ × TrustlineCall)
  executions : List Execution
  completions : List Completion

/-- What happens to the service. -/
inductive Input (α : Type)
  | sendPaymentAsync (x : PaymentOrder α)
  | sendTransaction (i : ℕ)
  | execute (i : ℕ)
  | call (sender : Address) (call : TrustlineCall)
  | setAddress (name : List UInt8) (a : Address)
  | deliver (i : ℕ)

namespace State

/-- Nothing has happened. -/
def init : State := ⟨.empty, .empty, [], .empty, [], [], [], [], []⟩

/-- The call up to the transaction. If it throws before the UUID, it leaves nothing. -/
def sendPaymentAsync (writeValueAsString : Properties α → Option JavaString) (s : State)
    (x : PaymentOrder α) : State :=
  match x.payment writeValueAsString s.registrar with
  | .error _ => s
  | .ok p =>
    { s with
      pendingPayments := s.pendingPayments.register p.messageId
      payments := s.payments ++ [p]
      started := s.started ++ [(s.payments.length, p)] }

/-- The rest of the call. If `encode` throws, the future stays in the map. -/
def sendTransaction (s : State) (i : ℕ) : State :=
  match s.started[i]? with
  | none => s
  | some (future, p) =>
    { s with
      started := s.started.eraseIdx i
      transactions := s.transactions ++ p.sendTransaction.toOption.toList.map fun c => (future, c) }

/-- The contract executes a transaction of the service. -/
def execute (us : Address) (s : State) (i : ℕ) : State :=
  match s.transactions[i]? with
  | none => s
  | some (future, call) =>
    let r := call.exec s.contract us
    { s with
      contract := r.state
      log := s.log ++ r.events.map fun e => ⟨e, some future⟩
      transactions := s.transactions.eraseIdx i
      executions := s.executions ++ [⟨future, s.contract, call⟩] }

/-- It executes a call of somebody else. -/
def call (s : State) (sender : Address) (call : TrustlineCall) : State :=
  let r := call.exec s.contract sender
  { s with
    contract := r.state
    log := s.log ++ r.events.map fun e => ⟨e, none⟩ }

/-- The handler of `ResultMessage`. -/
def onResult (s : State) (cause : Logged) (result : PaymentResult) : State :=
  let outcome : Outcome := if result.errorType ≠ 0 then .exceptionally result.message else .normally
  { s with
    pendingPayments := s.pendingPayments.fulfil result.messageId
    completions := s.completions ++
      (s.pendingPayments.pending result.messageId).toList.map fun k => ⟨k, outcome, cause⟩ }

/-- An event is delivered, which may complete a future. -/
def deliver (fromAccount : RpcAddress) (s : State) (i : ℕ) : State :=
  match s.log[i]? with
  | none => s
  | some logged =>
    match logged.event.paymentResult fromAccount with
    | none => s
    | some result => s.onResult logged result

/-- One step. -/
def step (writeValueAsString : Properties α → Option JavaString) (fromAccount : RpcAddress)
    (s : State) : Input α → State
  | .sendPaymentAsync x => s.sendPaymentAsync writeValueAsString x
  | .sendTransaction i => s.sendTransaction i
  | .execute i => s.execute (.ofRpc fromAccount) i
  | .call sender call => s.call sender call
  | .setAddress name a => { s with registrar := s.registrar.setAddress name a }
  | .deliver i => s.deliver fromAccount i

/-- The state after a list of inputs. -/
abbrev after (writeValueAsString : Properties α → Option JavaString) (fromAccount : RpcAddress)
    (inputs : List (Input α)) : State :=
  run (step writeValueAsString fromAccount) init inputs

end State

/-- The UUID that is drawn. -/
def Input.messageId : Input α → Option String
  | .sendPaymentAsync x => some x.messageId
  | _ => none

/-- Apart from the service, only other banks send payments. -/
def Input.PaysFromElsewhere (us : Address) : Input α → Prop
  | .call sender (.sendPayment ..) => sender ≠ us
  | _ => True

/-! ### What a completion has to say -/

/-- Nothing has changed, no `PaymentMessage` was emitted, and one `ResultMessage` with the
message and another error type than 0. -/
structure Refused (s : PaymentService) (sender : Address) (messageId message : String)
    (r : Result) : Prop where
  state : r.state = s
  payment : paymentMessages r.events = []
  result : ∃ errorType : Int256, errorType ≠ 0 ∧
    resultMessages r.events = [.resultMessage sender messageId message errorType]

/-- The execution has applied the payment, with its exact amount. -/
def Applied (us : Address) (p : Payment) (e : Execution) : Prop :=
  ∃ amount : Int256, amount.toInt = p.paymentAmount ∧
    Settled e.before us (.ofRpc p.toAddress) p.currency.toString amount p.messageId
      (String.ofList p.additionalProperties.characters) (e.call.exec e.before us)

/-- The outcome of the future is what the execution did. -/
def Outcome.Tells (us : Address) (p : Payment) (e : Execution) : Outcome → Prop
  | .normally => Applied us p e
  | .exceptionally message => Refused e.before us p.messageId message (e.call.exec e.before us)

/-- The transaction of the payment that the future is for was executed, the completion was
caused by an event of this execution, and it tells what the execution did. -/
def Truthful (us : Address) (s : State) (c : Completion) : Prop :=
  ∃ p, s.payments[c.future]? = some p ∧
    ∃ e ∈ s.executions, e.future = c.future ∧ p.sendTransaction = .ok e.call ∧
      c.cause.future = some c.future ∧ c.cause.event ∈ (e.call.exec e.before us).events ∧
      c.outcome.Tells us p e

end PaymentFutures

end Ethiso
