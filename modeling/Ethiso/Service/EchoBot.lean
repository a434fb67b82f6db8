import Ethiso.Service.TrustlineListener
import Mathlib.Data.List.ReduceOption

/-!
# Echo and its trustlines

`EchoBot` answers every trustline notification with calls of the payment service: it sets
its limit on the other party to that party's allow, and its allow to that party's limit,
unless the notification says that the figures already are the same.

The bot, the payment service of its bank and the contract are one machine here. A call
leaves its `TrustlineModified` events in the inbox, from which they are delivered in the
order in which they were emitted. The answers to a delivered event go to the outbox, and
are executed from the account of the bank, one after the other, and emit events in turn. Calls
of banks, deliveries and executions alternate at will. Events and answers carry the bank's
call that they go back to.
-/

namespace Ethiso

namespace PaymentServiceImpl

/-- An amount that `encode` accepts for the type `int256`. -/
def int256 (amount : ℤ) : Option Int256 :=
  if 0 ≤ amount ∧ amount < 2 ^ 256 then some (BitVec.ofInt 256 amount) else none

/-- `setAllow`, if the amount is an `int256`. -/
def setAllow (them : Address) (currency : Currency) (allowedAmount : ℤ) : Option TrustlineCall :=
  (int256 allowedAmount).map fun amount => .setAllow them currency.toString amount

/-- `setLimit` -/
def setLimit (them : Address) (currency : Currency) (limitAmount : ℤ) : Option TrustlineCall :=
  (int256 limitAmount).map fun amount => .setLimit them currency.toString amount

end PaymentServiceImpl

namespace EchoBot

open PaymentServiceImpl

/-- The calls that the listener makes. One that throws ends it. -/
def trustlineModified (n : TrustlineNotification) : List TrustlineCall :=
  let calls :=
    (if n.forwardAllow ≠ n.reverseLimit then [setLimit n.them n.currency n.forwardAllow] else []) ++
    (if n.forwardLimit ≠ n.reverseAllow then [setAllow n.them n.currency n.forwardLimit] else [])
  (calls.takeWhile Option.isSome).reduceOption

/-- The answers to an event. -/
def answers (e : Event) : List TrustlineCall :=
  match e.trustlineNotification with
  | some n => trustlineModified n
  | none => []

/-- Something that goes back to a call of a bank. -/
structure Caused (α : Type) where
  value : α
  cause : TrustlineCall
  deriving DecidableEq

/-- The contract, the events that are still to be delivered, and the calls of the bot that
are still to be executed. -/
structure State where
  contract : PaymentService
  inbox : List (Caused Event)
  outbox : List (Caused TrustlineCall)

/-- What happens: calls of others, deliveries to the bot, and its calls. -/
inductive Input
  | call (sender : Address) (call : TrustlineCall)
  | deliver
  | execute

namespace State

/-- Nothing has happened. -/
def init : State := ⟨.empty, [], []⟩

/-- Executes a call and leaves its events to be delivered. -/
def exec (s : State) (sender : Address) (call : Caused TrustlineCall) : State :=
  let r := call.value.exec s.contract sender
  { s with
    contract := r.state
    inbox := s.inbox ++ (trustlineModifications r.events).map fun e => ⟨e, call.cause⟩ }

/-- One step, `echo` being the account of the bot's bank. -/
def step (echo : Address) (s : State) : Input → State
  | .call sender call => s.exec sender ⟨call, call⟩
  | .deliver =>
    match s.inbox with
    | [] => s
    | e :: inbox =>
      { s with
        inbox := inbox
        outbox := s.outbox ++ (answers e.value).map fun call => ⟨call, e.cause⟩ }
  | .execute =>
    match s.outbox with
    | [] => s
    | call :: outbox => { s with outbox := outbox }.exec echo call

/-- The state after a list of inputs. -/
abbrev after (echo : Address) (inputs : List Input) : State := run (step echo) init inputs

end State

/-- Towards everybody else, the bot's figures are the other party's. -/
def Mirrored (echo : Address) (s : PaymentService) : Prop :=
  ∀ a ≠ echo, ∀ ccy, s.getLimit echo a ccy false = s.getAllow a echo ccy false ∧
    s.getAllow echo a ccy false = s.getLimit a echo ccy false

/-- If there is nothing left to deliver or to execute, the bot's figures are those of the
other parties; and an answer that goes back to a call between two other banks changes
nothing when it is executed. -/
structure MirrorsCounterparties (echo : Address) (s : State) : Prop where
  mirrored : s.inbox = [] → s.outbox = [] → Mirrored echo s.contract
  foreign : ∀ call outbox, s.outbox = call :: outbox → call.cause.them ≠ echo →
    (call.value.exec s.contract echo).state = s.contract

/-- No event about the trustline of the bot and `a` is left to deliver, and no answer to `a`
is left to execute. -/
def NothingLeft (echo : Address) (s : State) (a : Address) (ccy : String) : Prop :=
  (∀ e ∈ s.inbox, ∀ trustType fl rl fa ra,
      e.value ≠ .trustlineModified echo a ccy trustType fl rl fa ra) ∧
    ∀ call ∈ s.outbox, ¬(call.value.them = a ∧ call.value.ccy = ccy)

/-- The calls of banks that the bot gets right:

* calls that change nothing;
* `setAllow` towards the bot by a larger address in a known currency, when the bot has
  nothing left to do about this trustline;
* calls between two others in an unknown currency, or such that the event shows
  the same limit and allow in both directions. -/
def Answerable (echo : Address) (s : State) : Input → Prop
  | .call sender (.setLimit them ccy amount) =>
    amount.slt 0 = true ∨ s.contract.getLimit sender them ccy false = amount ∨
      (them ≠ echo ∧ (Currency.valueOf ccy = none ∨
        (s.contract.getAllow sender them ccy false = s.contract.getLimit sender them ccy true ∧
          amount = s.contract.getAllow sender them ccy true)))
  | .call sender (.setAllow them ccy amount) =>
    amount.slt 0 = true ∨ s.contract.getAllow sender them ccy false = amount ∨
      (them = echo ∧ echo < sender ∧ Currency.valueOf ccy ≠ none ∧ NothingLeft echo s sender ccy) ∨
      (them ≠ echo ∧ (Currency.valueOf ccy = none ∨
        (amount = s.contract.getLimit sender them ccy true ∧
          s.contract.getLimit sender them ccy false = s.contract.getAllow sender them ccy false)))
  | _ => True

/-- The calls of banks are not those of the bot's own bank. -/
def ByOthers (echo : Address) : Input → Prop
  | .call sender _ => sender ≠ echo
  | _ => True

end EchoBot

end Ethiso
