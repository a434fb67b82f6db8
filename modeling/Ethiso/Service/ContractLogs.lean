import Ethiso.Abi.EventLogs
import Ethiso.Service.Values
import Mathlib.Algebra.Order.BigOperators.Group.List
import Mathlib.Algebra.Order.Monoid.Canonical.Basic

/-!
# The logs of the contract

What the ABI definition of the contract says of its events (`EventKind`), the logs that it leaves
when it emits them, and what `decodeEvent` reads from these: the array that the handlers get.
-/

namespace Ethiso

open Abi TypeConverterUtils

/-- The events, as they are declared. -/
inductive EventKind
  | trustlineModified
  | paymentMessage
  | resultMessage
  | debugMessage
  | amountMessage
  deriving DecidableEq

/-! ### The ABI definition -/

namespace EventKind

/-- The name of an event. -/
def name : EventKind → String
  | .trustlineModified => "TrustlineModified"
  | .paymentMessage => "PaymentMessage"
  | .resultMessage => "ResultMessage"
  | .debugMessage => "DebugMessage"
  | .amountMessage => "AmountMessage"

/-- Its parameters, and which of them are indexed. -/
def inputs : EventKind → List (String × Bool)
  | .trustlineModified => [("address", true), ("address", true), ("string", false),
      ("string", false), ("int256", false), ("int256", false), ("int256", false), ("int256", false)]
  | .paymentMessage => [("address", true), ("address", true), ("string", false), ("int256", false),
      ("string", false), ("string", false)]
  | .resultMessage => [("address", true), ("string", false), ("string", false), ("int256", false)]
  | .debugMessage => [("address", true), ("string", false)]
  | .amountMessage => [("address", true), ("string", false), ("int256", false)]

/-- The event as the encoder takes it. -/
def function (k : EventKind) : Function where
  type := "event".toList
  name := some k.name.toList
  inputs := k.inputs.map fun p => ⟨p.1.toList, p.2⟩
  outputs := []

end EventKind

/-- The kind of an event. -/
def Event.kind : Event → EventKind
  | .trustlineModified .. => .trustlineModified
  | .paymentMessage .. => .paymentMessage
  | .resultMessage .. => .resultMessage
  | .debugMessage .. => .debugMessage
  | .amountMessage .. => .amountMessage

/-! ### Arguments -/

theorem isIntegerSize_256 : 0 < 256 ∧ 256 ≤ 256 ∧ 256 % 8 = 0 := by decide

/-- `int256` -/
def abiInt256 : AbiType .bigInteger := .elementary (.int ⟨256, isIntegerSize_256⟩)

namespace EventArgument

/-- An argument as the ABI takes it. -/
def abi : EventArgument → AbiArgument
  | .address a => ⟨.address, .elementary .address, a.toRpc⟩
  | .string s => ⟨.string, .elementary .string, JavaString.ofString s⟩
  | .bigInteger n => ⟨.bigInteger, abiInt256, n⟩

/-- The object in the array that a handler gets. -/
def object : EventArgument → JavaObject
  | .address a => ⟨.address, a.toRpc⟩
  | .string s => ⟨.string, JavaString.ofString s⟩
  | .bigInteger n => ⟨.bigInteger, n⟩

end EventArgument

/-- The inputs of an event. -/
def Event.inputs (e : Event) : List EventInput :=
  e.parameters.map fun p => ⟨p.value.abi, p.indexed⟩

theorem name_abiInt256 : abiInt256.name = "int256".toList := by decide +kernel

theorem Event.inputs_parameter (e : Event) :
    e.kind.function.inputs = e.inputs.map EventInput.parameter := by
  cases e <;> simp [inputs, parameters, EventInput.parameter, EventArgument.abi, kind,
    EventKind.function, EventKind.inputs, name_abiInt256] <;> decide

/-- An address of the contract has a text in lower case. -/
theorem Address.toLowerCase_toRpc (a : Address) : a.toRpc.toLowerCase = a.toRpc := by
  have h_digits : ∀ d ∈ bigEndian 16 40 a.toNat, d < 16 := fun d =>
    lt_of_mem_bigEndian (by decide)
  refine RpcAddress.eq_of_digits ((map_toLower a.toRpc.hex).trans ?_)
  exact congrArg (List.map Nat.digitChar) (filterMap_digit_map h_digits)

/-- What is decoded is the argument. -/
theorem EventArgument.decoded_abi (x : EventArgument) : x.abi.decoded = x.object := by
  cases x with
  | address a => exact congrArg (JavaObject.mk .address) a.toLowerCase_toRpc
  | string s => rfl
  | bigInteger n => rfl

/-- The arguments, the indexed ones first, are those of the array. -/
theorem Event.decode_eq (e : Event) :
    (eventArguments true e.inputs ++ eventArguments false e.inputs).map AbiArgument.decoded =
      e.decode.map EventArgument.object := by
  have h (indexed : Bool) : (eventArguments indexed e.inputs).map AbiArgument.decoded =
      ((e.parameters.filter fun p => p.indexed == indexed).map EventParameter.value).map
        EventArgument.object := by
    unfold eventArguments Event.inputs
    rw [List.filter_map, List.map_map, List.map_map, List.map_map]
    exact List.map_congr_left fun p _ => p.value.decoded_abi
  unfold Event.decode
  rw [List.map_append, h, h, List.map_append]
  simp only [beq_true, beq_false]

/-- The data of the log have less than `2 ^ 31` bytes. -/
def Event.Fits (e : Event) : Prop := (eventData e.inputs).length < 2 ^ 31

/-- The data is as long as each of its parts. -/
theorem Abi.length_encode_le {inputs : List EventInput} {a : EventInput} (h : a ∈ inputs)
    (h_indexed : a.indexed = false) :
    (a.argument.type.encode a.argument.value).length ≤ (eventData inputs).length := by
  have h_mem : a.argument.part.size 32 ∈
      ((eventArguments false inputs).map AbiArgument.part).map (Part.size 32) := by
    refine List.mem_map_of_mem (List.mem_map_of_mem ?_)
    exact FunctionEncoding.mem_eventArguments.mpr ⟨a, h, h_indexed, rfl⟩
  have h_le : a.argument.part.content.length ≤ a.argument.part.size 32 := by
    unfold Part.size
    split_ifs <;> omega
  unfold eventData
  rw [length_headTail length_offset]
  exact h_le.trans (List.le_sum_of_mem h_mem)

/-- The integers of an event are words of the contract, its addresses are indexed. -/
theorem Event.parameters_spec (e : Event) : ∀ p ∈ e.parameters,
    (∀ n, p.value = .bigInteger n → IntTypeConverter.Accepts 256 n) ∧
      (p.indexed = true ↔ ∃ a, p.value = .address a) := by
  have h_int (v : Int256) : IntTypeConverter.Accepts 256 v.toInt := ⟨v.le_toInt, v.toInt_lt⟩
  cases e <;> simp [Event.parameters, h_int]

/-- **What fits is decodable.** -/
theorem Event.decodable {e : Event} (h : e.Fits) : ∀ a ∈ e.inputs, a.argument.Decodable := by
  intro a ha
  obtain ⟨⟨x, indexed⟩, h_p, rfl⟩ := List.mem_map.mp ha
  obtain ⟨h_int, h_indexed⟩ := e.parameters_spec _ h_p
  cases x with
  | address a => exact ⟨rfl, trivial, trivial⟩
  -- text is not indexed, so it is part of the data
  | string s =>
    have h_false : indexed = false := by
      by_contra h_true
      obtain ⟨a, h_a⟩ := h_indexed.mp (Bool.eq_true_of_not_eq_false h_true)
      cases h_a
    have h_le := Abi.length_encode_le ha h_false
    have h_len : (Abi.word (JavaString.ofString s).getBytes.length ++
        padded (JavaString.ofString s).getBytes).length < 2 ^ 31 := Nat.lt_of_le_of_lt h_le h
    have h_padded := le_length_padded (JavaString.ofString s).getBytes
    rw [List.length_append] at h_len
    have h_bytes : (JavaString.ofString s).getBytes.length < 2 ^ 256 := by omega
    exact ⟨rfl, ⟨JavaString.wellFormed_ofString s, h_bytes⟩, JavaString.wellFormed_ofString s⟩
  -- an integer below the sign bit
  | bigInteger n =>
    obtain h_n := h_int n rfl
    exact ⟨rfl, h_n, h_n.2⟩

/-- Indexed inputs are words. -/
theorem Event.isWord (e : Event) :
    ∀ a ∈ e.inputs, a.indexed = true → a.argument.type.isWord = true := by
  intro a ha h_true
  obtain ⟨⟨x, indexed⟩, h_p, rfl⟩ := List.mem_map.mp ha
  obtain ⟨a, rfl⟩ := (e.parameters_spec _ h_p).2.mp h_true
  rfl

/-! ### The encodings of the events -/

/-- The encodings that the proxy of the contract has for the events. Two events have two hashes. -/
structure EventEncodings (digest : List UInt8 → List UInt8) where
  encoding : EventKind → Abi.FunctionEncoding
  new_eq : ∀ k, Abi.FunctionEncoding.new digest k.function = .ok (encoding k)
  hash_injective : ∀ k k', (encoding k).hash = (encoding k').hash → k = k'

namespace EventEncodings

variable {digest : List UInt8 → List UInt8} (E : EventEncodings digest)

/-- The first topic of the logs of such events. -/
def topic (k : EventKind) : String := .ofList (E.encoding k).hash

/-- The log that the contract leaves when it emits the event. -/
def log (address : String) (e : Event) : LogEntry :=
  eventLog address (E.encoding e.kind).hash e.inputs

/-- **The logs of the contract** are read as the handlers expect them. -/
theorem decodeEvent_log (address : String) {e : Event} (h : e.Fits) :
    (E.encoding e.kind).decodeEvent (E.log address e) =
      .ok (e.decode.map EventArgument.object) := by
  obtain ⟨h_indexed, h_others⟩ :=
    Abi.FunctionEncoding.new_event e.inputs_parameter (E.new_eq e.kind)
  rw [← e.decode_eq]
  exact Abi.FunctionEncoding.decodeEvent_reads h_indexed h_others (Event.decodable h) e.isWord h
    address _

end EventEncodings

/-! ### The digests of the contract -/

/-- The Keccak digest of the signature. -/
def EventKind.digest : EventKind → List UInt8
  | .trustlineModified =>
    [239, 11, 60, 205, 6, 213, 181, 92, 14, 188, 222, 110, 183, 10, 23, 227, 130, 106, 186, 205, 13,
      12, 199, 30, 199, 45, 190, 59, 122, 141, 45, 116]
  | .paymentMessage =>
    [240, 223, 142, 81, 196, 184, 2, 120, 62, 206, 1, 38, 174, 3, 86, 251, 174, 49, 75, 102, 204,
      84, 229, 126, 15, 148, 115, 85, 170, 209, 78, 140]
  | .resultMessage =>
    [172, 119, 94, 150, 5, 215, 239, 16, 44, 35, 73, 233, 47, 217, 38, 137, 102, 69, 61, 238, 131,
      19, 248, 130, 18, 76, 95, 157, 214, 157, 56, 64]
  | .debugMessage =>
    [49, 156, 42, 181, 154, 7, 65, 26, 23, 25, 59, 154, 142, 176, 83, 41, 205, 10, 172, 115, 157,
      44, 160, 214, 94, 228, 122, 155, 118, 129, 178, 233]
  | .amountMessage =>
    [185, 23, 209, 40, 108, 208, 117, 170, 57, 230, 4, 253, 131, 198, 10, 38, 198, 35, 118, 83, 86,
      181, 174, 37, 95, 119, 1, 138, 132, 147, 156, 123]

end Ethiso
