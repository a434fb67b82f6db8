import Ethiso.Abi.Deserialisation
import Ethiso.Contracts.PaymentService

/-!
# What the services exchange with the contracts

`PaymentServiceImpl` is told of the events of the contract by handlers, which get the
arguments of an event as an array, in the order in which `decodeEvent` returns them: the
indexed parameters first (`Event.decode`).

Accounts are numbers for the contract and texts for the services. The text of an address
that was decoded is in lower case (`Address.toRpc`), that of the bank's own account is as
it was configured. Texts are compared as they are, with leading zeros to the width of a
topic (`toWideAddressString`).
-/

namespace Ethiso

open Abi

/-! ### Currencies -/

/-- The currencies that the services know. -/
inductive Currency
  | GBP
  | EUR
  | USD
  deriving DecidableEq

namespace Currency

/-- `toString` -/
def toString : Currency → String
  | .GBP => "GBP"
  | .EUR => "EUR"
  | .USD => "USD"

/-- Throws for any other name. -/
def valueOf (name : String) : Option Currency := [GBP, EUR, USD].find? (·.toString = name)

/-- A currency has one name. -/
theorem valueOf_eq_some {name : String} {c : Currency} :
    valueOf name = some c ↔ c.toString = name := by
  unfold valueOf
  refine ⟨?_, ?_⟩
  · intro h
    have h_found := List.find?_some h
    exact of_decide_eq_true h_found
  · rintro rfl
    cases c <;> rfl

end Currency

/-! ### Events -/

/-- An element of the array that a handler gets. -/
inductive EventArgument
  | address (a : Address)
  | string (s : String)
  | bigInteger (n : ℤ)
  deriving DecidableEq

/-- A parameter of an event, as the contract declares it. -/
structure EventParameter where
  value : EventArgument
  indexed : Bool

namespace Event

/-- The parameters of an event, and which of them are indexed. -/
def parameters : Event → List EventParameter
  | .trustlineModified p1 p2 ccy trustType forwardLimit reverseLimit forwardAllow reverseAllow =>
    [⟨.address p1, true⟩, ⟨.address p2, true⟩, ⟨.string ccy, false⟩, ⟨.string trustType, false⟩,
      ⟨.bigInteger forwardLimit.toInt, false⟩, ⟨.bigInteger reverseLimit.toInt, false⟩,
      ⟨.bigInteger forwardAllow.toInt, false⟩, ⟨.bigInteger reverseAllow.toInt, false⟩]
  | .paymentMessage fromBank toBank messageId amount ccy additionalProperties =>
    [⟨.address fromBank, true⟩, ⟨.address toBank, true⟩, ⟨.string messageId, false⟩,
      ⟨.bigInteger amount.toInt, false⟩, ⟨.string ccy, false⟩,
      ⟨.string additionalProperties, false⟩]
  | .resultMessage fromBank messageId message errorType =>
    [⟨.address fromBank, true⟩, ⟨.string messageId, false⟩, ⟨.string message, false⟩,
      ⟨.bigInteger errorType.toInt, false⟩]
  | .debugMessage from_ message => [⟨.address from_, true⟩, ⟨.string message, false⟩]
  | .amountMessage from_ message amount =>
    [⟨.address from_, true⟩, ⟨.string message, false⟩, ⟨.bigInteger amount.toInt, false⟩]

/-- The array that `decodeEvent` returns. -/
def decode (e : Event) : List EventArgument :=
  (e.parameters.filter fun p => p.indexed).map EventParameter.value ++
    (e.parameters.filter fun p => !p.indexed).map EventParameter.value

end Event

/-! ### The texts of addresses -/

/-- Leading zeros to 32 bytes. -/
def Abi.RpcAddress.toWideAddressString (a : RpcAddress) : List Char :=
  '0' :: 'x' :: List.replicate 24 '0' ++ a.digits

/-- The address as it is decoded: `BigInteger.toString` writes lower case. -/
def Address.toRpc (a : Address) : RpcAddress where
  digits := (bigEndian 16 40 a.toNat).map Nat.digitChar
  length_eq := by
    have h_lt : a.toNat < 16 ^ 40 := a.isLt
    rw [List.length_map, length_bigEndian (by decide) h_lt]
  hex := by
    intro c hc
    obtain ⟨d, hd, rfl⟩ := List.mem_map.mp hc
    rw [digit_digitChar (lt_of_mem_bigEndian (by decide) hd)]
    rfl

/-- The number of an account. -/
def Address.ofRpc (a : RpcAddress) : Address :=
  BitVec.ofInt 160 (AddressTypeConverter.toBigInteger a)

/-- The address of its hexadecimal form. -/
theorem Address.ofRpc_toRpc (a : Address) : Address.ofRpc a.toRpc = a := by
  have h_digits : ∀ d ∈ bigEndian 16 40 a.toNat, d < 16 := fun d =>
    lt_of_mem_bigEndian (by decide)
  have h_number : AddressTypeConverter.toBigInteger a.toRpc = (a.toNat : ℤ) := by
    unfold AddressTypeConverter.toBigInteger Address.toRpc
    rw [filterMap_digit_map h_digits, ofBigEndian_bigEndian]
  unfold Address.ofRpc
  rw [h_number, BitVec.ofInt_natCast, BitVec.ofNat_toNat, BitVec.setWidth_eq]

theorem Abi.RpcAddress.eq_of_digits {a b : RpcAddress} (h : a.digits = b.digits) : a = b := by
  obtain ⟨digits, h_length, h_hex⟩ := a
  obtain rfl : digits = b.digits := h
  rfl

/-- Only the account itself has its text. -/
theorem Address.eq_of_toWideAddressString {a : Address} {account : RpcAddress}
    (h : a.toRpc.toWideAddressString = account.toWideAddressString) :
    a = Address.ofRpc account := by
  have h_rpc := Abi.RpcAddress.eq_of_digits (List.append_cancel_left h)
  rw [← h_rpc, Address.ofRpc_toRpc]

end Ethiso
