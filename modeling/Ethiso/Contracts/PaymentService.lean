import Ethiso.Framework.Run

/-!
# The PaymentService contract

The storage, the public functions and the events of `PaymentService.sol`, with
the two contracts it inherits from (`Mortal.sol`, `Owned.sol`). A function of
the contract is a Lean function of the storage, of `msg.sender` and of its
arguments; it returns the storage it leaves behind together with the events it
emits, oldest first, and its Solidity return value (`Result`).

Solidity's `int` is `Int256`, a 256-bit word read in two's complement: `+`, `-`
and unary minus wrap silently, and `<`, `<=` are the signed comparisons
`BitVec.slt` and `BitVec.sle`. Addresses are 160-bit words and compare
unsigned.

A trustline lives in one storage cell for both of its parties: the cell is
addressed by the smaller address first, and every function asks
`senderIsP1Against` on which side of it the sender stands.
-/

namespace Ethiso

/-- A Solidity `address`. -/
abbrev Address := BitVec 160

/-- A Solidity `int`: 256 bits, two's complement, no overflow check. -/
abbrev Int256 := BitVec 256

/-- One direction of a trustline (`aToB`). -/
structure AllowLimit where
  /-- b accepts owing this much to a -/
  allow : Int256
  /-- a limits b to owing them this much -/
  limit : Int256
  deriving DecidableEq

/-- The storage cell of a trustline between p1 and p2, p1 having the smaller
address. -/
structure TrustlineValue where
  p2OwesP1Amount : Int256
  p2OwesP1 : AllowLimit
  p1OwesP2 : AllowLimit
  deriving DecidableEq

/-- A cell that was never written reads as zero. -/
def TrustlineValue.zero : TrustlineValue := ⟨0, ⟨0, 0⟩, ⟨0, 0⟩⟩

/-- The contract's storage: `owner` is inherited from `Owned`. -/
structure PaymentService where
  owner : Address
  trustlines : Address → Address → String → TrustlineValue

/-- The events the contract emits. -/
inductive Event
  | trustlineModified (p1 p2 : Address) (ccy trustType : String)
      (forwardLimit reverseLimit forwardAllow reverseAllow : Int256)
  | paymentMessage (fromBank toBank : Address) (messageId : String) (amount : Int256)
      (ccy additionalProperties : String)
  | resultMessage (fromBank : Address) (messageId message : String) (errorType : Int256)
  | debugMessage (from_ : Address) (message : String)
  | amountMessage (from_ : Address) (message : String) (amount : Int256)
  deriving DecidableEq

/-- What a call that did not throw leaves behind. -/
structure Result where
  state : PaymentService
  events : List Event
  succeeded : Bool

/-- Whether the sender `us` is p1 of its trustlines with `them`. -/
def senderIsP1Against (us them : Address) : Bool :=
  if us < them then true else false

namespace PaymentService

/-- The storage before any call: `owner` and every trustline read as zero. -/
def empty : PaymentService := ⟨0, fun _ _ _ => TrustlineValue.zero⟩

/-- The trustline of `us` and `them`, no matter who is the caller. -/
def getTrustlineValue (s : PaymentService) (us them : Address) (ccy : String) :
    TrustlineValue :=
  if us < them then s.trustlines us them ccy else s.trustlines them us ccy

/-- Writing through the storage reference that `getTrustlineValue` returns. -/
def putTrustlineValue (s : PaymentService) (us them : Address) (ccy : String)
    (tlv : TrustlineValue) : PaymentService :=
  let p1 := if us < them then us else them
  let p2 := if us < them then them else us
  { s with trustlines := fun a b c =>
      if a = p1 ∧ b = p2 ∧ c = ccy then tlv else s.trustlines a b c }

/-- Limit the amount they can owe us (ie they can send us payments). -/
def setLimit (s : PaymentService) (sender them : Address) (ccy : String) (amount : Int256) :
    Result :=
  if amount.slt 0 then ⟨s, [], false⟩
  else
    let tlv := s.getTrustlineValue sender them ccy
    if senderIsP1Against sender them then
      if tlv.p2OwesP1.limit ≠ amount then
        ⟨s.putTrustlineValue sender them ccy
            { tlv with p2OwesP1 := { tlv.p2OwesP1 with limit := amount } },
          [.trustlineModified sender them ccy "limit" amount tlv.p1OwesP2.limit
            tlv.p1OwesP2.allow tlv.p2OwesP1.allow], true⟩
      else ⟨s, [], true⟩
    else
      if tlv.p1OwesP2.limit ≠ amount then
        ⟨s.putTrustlineValue sender them ccy
            { tlv with p1OwesP2 := { tlv.p1OwesP2 with limit := amount } },
          [.trustlineModified sender them ccy "limit" amount tlv.p2OwesP1.limit
            tlv.p2OwesP1.allow tlv.p1OwesP2.allow], true⟩
      else ⟨s, [], true⟩

/-- The current limit against another party; `reverse` asks for theirs against us. -/
def getLimit (s : PaymentService) (sender them : Address) (ccy : String) (reverse : Bool) :
    Int256 :=
  let tlv := s.getTrustlineValue sender them ccy
  if senderIsP1Against sender them != reverse then tlv.p2OwesP1.limit else tlv.p1OwesP2.limit

/-- Allow ourselves to owe them money (ie we can send them payments). -/
def setAllow (s : PaymentService) (sender them : Address) (ccy : String) (amount : Int256) :
    Result :=
  if amount.slt 0 then ⟨s, [], false⟩
  else
    let tlv := s.getTrustlineValue sender them ccy
    if senderIsP1Against sender them then
      if tlv.p1OwesP2.allow ≠ amount then
        -- the last argument is the value about to be overwritten, not the other party's
        ⟨s.putTrustlineValue sender them ccy
            { tlv with p1OwesP2 := { tlv.p1OwesP2 with allow := amount } },
          [.trustlineModified sender them ccy "allow" tlv.p2OwesP1.limit tlv.p1OwesP2.limit
            amount tlv.p1OwesP2.allow], true⟩
      else ⟨s, [], true⟩
    else
      if tlv.p2OwesP1.allow ≠ amount then
        -- here p1 and p2 of the event are swapped
        ⟨s.putTrustlineValue sender them ccy
            { tlv with p2OwesP1 := { tlv.p2OwesP1 with allow := amount } },
          [.trustlineModified them sender ccy "allow" tlv.p1OwesP2.limit tlv.p2OwesP1.limit
            amount tlv.p2OwesP1.allow], true⟩
      else ⟨s, [], true⟩

/-- The current allowed holding against another party; `reverse` asks for theirs
towards us. -/
def getAllow (s : PaymentService) (sender them : Address) (ccy : String) (reverse : Bool) :
    Int256 :=
  let tlv := s.getTrustlineValue sender them ccy
  if senderIsP1Against sender them != reverse then tlv.p1OwesP2.allow else tlv.p2OwesP1.allow

/-- Send a payment to them: effectively we owe them `amount` more. -/
def sendPayment (s : PaymentService) (sender them : Address) (ccy : String) (amount : Int256)
    (messageId additionalProperties : String) : Result :=
  if them = 0 then
    ⟨s, [.resultMessage sender messageId "need to pay a valid address" 1], false⟩
  else if them = sender then
    ⟨s, [.resultMessage sender messageId "cannot pay ourselves" 2], false⟩
  else if amount.slt 0 then
    ⟨s, [.resultMessage sender messageId "payment amount must be positive" 3], false⟩
  else
    let tlv := s.getTrustlineValue sender them ccy
    if senderIsP1Against sender them then
      let newAmount := tlv.p2OwesP1Amount - amount
      if (-newAmount).sle tlv.p1OwesP2.limit && (-newAmount).sle tlv.p1OwesP2.allow then
        ⟨s.putTrustlineValue sender them ccy { tlv with p2OwesP1Amount := newAmount },
          [.paymentMessage sender them messageId amount ccy additionalProperties,
            .resultMessage sender messageId "payment successful" 0], true⟩
      else
        ⟨s, [.resultMessage sender messageId "payment would exceed limits" 4], true⟩
    else -- we're p2
      let newAmount := tlv.p2OwesP1Amount + amount
      if newAmount.sle tlv.p2OwesP1.limit && newAmount.sle tlv.p2OwesP1.allow then
        ⟨s.putTrustlineValue sender them ccy { tlv with p2OwesP1Amount := newAmount },
          [.paymentMessage sender them messageId amount ccy additionalProperties,
            .resultMessage sender messageId "payment successful" 0], true⟩
      else
        ⟨s, [.resultMessage sender messageId "payment would exceed limits" 4], true⟩

/-- The amount owed to them by us. -/
def getAmountOwedTo (s : PaymentService) (sender them : Address) (ccy : String) : Int256 :=
  let tlv := s.getTrustlineValue sender them ccy
  if senderIsP1Against sender them then -1 * tlv.p2OwesP1Amount else tlv.p2OwesP1Amount

end PaymentService

/-! ### Transactions and runs -/

/-- A call of one of the three functions that write trustlines. -/
inductive TrustlineCall
  | setLimit (them : Address) (ccy : String) (amount : Int256)
  | setAllow (them : Address) (ccy : String) (amount : Int256)
  | sendPayment (them : Address) (ccy : String) (amount : Int256)
      (messageId additionalProperties : String)
  deriving DecidableEq

namespace TrustlineCall

/-- The counterparty of a call. -/
def them : TrustlineCall → Address
  | .setLimit them _ _ => them
  | .setAllow them _ _ => them
  | .sendPayment them _ _ _ _ => them

/-- The currency of a call. -/
def ccy : TrustlineCall → String
  | .setLimit _ ccy _ => ccy
  | .setAllow _ ccy _ => ccy
  | .sendPayment _ ccy _ _ _ => ccy

/-- Executing a call sent by `sender`. -/
def exec (s : PaymentService) (sender : Address) : TrustlineCall → Result
  | .setLimit them ccy amount => s.setLimit sender them ccy amount
  | .setAllow them ccy amount => s.setAllow sender them ccy amount
  | .sendPayment them ccy amount messageId additionalProperties =>
    s.sendPayment sender them ccy amount messageId additionalProperties

end TrustlineCall

/-- The contract together with every event it has emitted, oldest first. -/
structure World where
  contract : PaymentService
  log : List Event

namespace World

/-- The deployed contract, before any call. -/
def init : World := ⟨.empty, []⟩

/-- One transaction: a sender and its call. -/
def step (w : World) (tx : Address × TrustlineCall) : World :=
  let r := tx.2.exec w.contract tx.1
  ⟨r.state, w.log ++ r.events⟩

/-- The world after the transactions `txs`, oldest first. -/
abbrev after (txs : List (Address × TrustlineCall)) : World := run step init txs

end World

end Ethiso
