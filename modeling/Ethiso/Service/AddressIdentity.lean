import Ethiso.Events.PendingEvents
import Ethiso.Service.Values

/-!
# Texts and numbers of addresses

An address is a number for the contracts and a text for the services. A configured address
keeps the case of its digits; an address that is read from a buffer, and a topic as the
node reports it (`Address.topic`), have lower case. Since texts are compared as they are,
an address is the same after it was encoded, and a listener is told of its events, if and
only if it was given without upper-case digits (`keepsIdentity_iff`).
-/

namespace Ethiso

open Abi

/-! ### Words in hex -/

/-- The halves of bytes. -/
def nibbles (bytes : List UInt8) : List ℕ := bytes.flatMap fun b => [b.toNat / 16, b.toNat % 16]

/-- The digits of bytes, in lower case. -/
def lowerCaseHex (bytes : List UInt8) : List Char := (nibbles bytes).map Nat.digitChar

theorem nibbles_cons (b : UInt8) (bytes : List UInt8) :
    nibbles (b :: bytes) = b.toNat / 16 :: b.toNat % 16 :: nibbles bytes := rfl

/-- There are twice as many digits as bytes. -/
theorem length_nibbles (bytes : List UInt8) : (nibbles bytes).length = 2 * bytes.length := by
  induction bytes with
  | nil => rfl
  | cons b bytes ih => rw [nibbles_cons, List.length_cons, List.length_cons, ih, List.length_cons,
      Nat.mul_succ]

/-- Digits are below 16. -/
theorem lt_of_mem_nibbles {bytes : List UInt8} {d : ℕ} (h : d ∈ nibbles bytes) : d < 16 := by
  obtain ⟨b, -, h_d⟩ := List.mem_flatMap.mp h
  have h_lt := b.toNat_lt
  rcases List.mem_pair.mp h_d with rfl | rfl
  · omega
  · exact Nat.mod_lt _ (by decide)

/-- The halves have the value of the bytes. -/
theorem ofBigEndian_nibbles (bytes : List UInt8) :
    ofBigEndian 16 (nibbles bytes) = unsignedValue bytes := by
  induction bytes with
  | nil => rfl
  | cons b bytes ih =>
    have h_cons : unsignedValue (b :: bytes) =
        b.toNat * 256 ^ bytes.length + unsignedValue bytes := by
      unfold unsignedValue
      rw [List.map_cons, ofBigEndian_cons, List.length_map]
    have h_pow : 16 ^ (2 * bytes.length) = 256 ^ bytes.length := pow_mul 16 2 bytes.length
    rw [nibbles_cons, ofBigEndian_cons, ofBigEndian_cons, List.length_cons, length_nibbles, ih,
      h_cons, pow_succ', h_pow]
    -- the two digits of the first byte are its value
    have h_split := Nat.div_add_mod b.toNat 16
    calc b.toNat / 16 * (16 * 256 ^ bytes.length) +
          (b.toNat % 16 * 256 ^ bytes.length + unsignedValue bytes)
        = (16 * (b.toNat / 16) + b.toNat % 16) * 256 ^ bytes.length + unsignedValue bytes := by ring
      _ = b.toNat * 256 ^ bytes.length + unsignedValue bytes := by rw [h_split]

/-! ### Topics -/

/-- The topic of an indexed address, as the node reports it. -/
def Address.topic (x : Address) : List Char := '0' :: 'x' :: lowerCaseHex (Abi.word x.toNat)

/-- It is the text that the services compare with, in lower case. -/
theorem Address.topic_eq (x : Address) : x.topic = x.toRpc.toWideAddressString := by
  -- an address has 40 digits, which leave 24 zeros in front
  have h_lt : x.toNat < 16 ^ 40 := x.isLt
  have h_nibbles : nibbles (Abi.word x.toNat) = List.replicate 24 0 ++ bigEndian 16 40 x.toNat := by
    refine ofBigEndian_injective (b := 16) (by decide) (fun d => lt_of_mem_nibbles) ?_ ?_ ?_
    · intro d hd
      rcases List.mem_append.mp hd with h_zero | h_digit
      · rw [List.eq_of_mem_replicate h_zero]
        decide
      · exact lt_of_mem_bigEndian (by decide) h_digit
    · rw [length_nibbles, length_word, List.length_append, List.length_replicate,
        length_bigEndian (by decide) h_lt]
    · rw [ofBigEndian_nibbles, unsignedValue_word, ofBigEndian_replicate_append,
        ofBigEndian_bigEndian]
      omega
  unfold Address.topic lowerCaseHex RpcAddress.toWideAddressString Address.toRpc
  rw [h_nibbles, List.map_append, List.map_replicate]
  rfl

/-! ### Upper case -/

/-- An upper-case hex digit. -/
def UpperCaseDigit (c : Char) : Prop := 'A' ≤ c ∧ c ≤ 'F'

instance : DecidablePred UpperCaseDigit :=
  fun c => inferInstanceAs (Decidable ('A' ≤ c ∧ c ≤ 'F'))

/-- A digit stays if it is not in upper case. -/
theorem toLower_eq_iff {c : Char} (h : (digit 16 c).isSome) :
    c.toLower = c ↔ ¬ UpperCaseDigit c := by
  have h_table : ∀ n < 128, ∀ d < 16, digit 16 (Char.ofNat n) = some d →
      ((Char.ofNat n).toLower = Char.ofNat n ↔ ¬ UpperCaseDigit (Char.ofNat n)) := by
    decide +kernel
  obtain ⟨d, h_d⟩ := Option.isSome_iff_exists.mp h
  exact of_digit (P := fun c _ => c.toLower = c ↔ ¬ UpperCaseDigit c) h_table h_d

namespace Abi.RpcAddress

variable {a : RpcAddress}

theorem toLowerCase_eq_iff : a.toLowerCase = a ↔ ∀ c ∈ a.digits, ¬ UpperCaseDigit c := by
  have h_digits : a.toLowerCase = a ↔ a.digits.map Char.toLower = a.digits.map id := by
    rw [List.map_id]
    exact ⟨congrArg RpcAddress.digits, fun h => RpcAddress.eq_of_digits h⟩
  rw [h_digits, List.map_inj_left]
  exact forall₂_congr fun c hc => toLower_eq_iff (a.hex c hc)

/-- The number of an address is that of its digits. -/
theorem toNat_ofRpc (a : RpcAddress) :
    (Address.ofRpc a).toNat = ofBigEndian 16 (a.digits.filterMap (digit 16)) := by
  have h_range := AddressTypeConverter.toBigInteger_lt a
  unfold AddressTypeConverter.toBigInteger at h_range
  unfold Address.ofRpc AddressTypeConverter.toBigInteger
  rw [BitVec.ofInt_natCast, BitVec.toNat_ofNat]
  omega

/-- The constructor accepts the texts of addresses. -/
theorem new_eq_ok {address : List Char} :
    RpcAddress.new address = .ok a ↔ address = a.toString := by
  unfold RpcAddress.toString
  refine ⟨?_, ?_⟩
  · intro h
    unfold RpcAddress.new at h
    split at h
    -- an address of Java is its digits behind `0x`
    · next digits =>
      split at h
      · rw [← pure_eq_ok.mp h]
      · cases h
    · cases h
  · rintro rfl
    exact dif_pos ⟨a.length_eq, List.all_eq_true.mpr a.hex⟩

/-- The text of the account that has the number of the address. -/
theorem toRpc_ofRpc (a : RpcAddress) : (Address.ofRpc a).toRpc = a.toLowerCase := by
  obtain ⟨h_lt, h_len⟩ := a.digit_values
  have h_digits := @eq_bigEndian 16 (a.digits.filterMap (digit 16)) (by decide) h_lt
  rw [h_len] at h_digits
  apply RpcAddress.eq_of_digits
  unfold Address.toRpc RpcAddress.toLowerCase
  dsimp only
  rw [toNat_ofRpc, ← h_digits, map_toLower a.hex]

end Abi.RpcAddress

/-! ### Identity -/

/-- The address is itself after it was written and read back, its wide text is that of the
word, and a listener that filters on it is only passed over by the logs of other addresses. -/
structure KeepsIdentity (a : RpcAddress) : Prop where
  writes : ∀ b b', AddressTypeConverter.serialiseType b a = .ok b' ↔
    b.Extends (Abi.word (AddressTypeConverter.toBigInteger a)) b'
  reads_back : ∀ b b' bytes, AddressTypeConverter.serialiseType b a = .ok b' →
    b.Extends bytes b' → Reads AddressTypeConverter.deserialise bytes a
  wide : ∀ b b' bytes, AddressTypeConverter.serialiseType b a = .ok b' →
    b.Extends bytes b' → a.toWideAddressString = '0' :: 'x' :: lowerCaseHex bytes
  filters : ∀ (α ι : Type) [DecidableEq ι] (env : Environment α ι)
    (listener : FunctionEncodingAndHandler α ι) (logEntry : LogEntry) (trace : List (Output α ι))
    (signature signature' : String) (more : List String) (x : Address),
    listener.topics = [signature, String.ofList a.toWideAddressString] →
      logEntry.topics = signature' :: String.ofList x.topic :: more →
        (listener.fire env logEntry trace ≠ .returned trace ↔ x = Address.ofRpc a)

section Listeners

variable {α ι : Type} [DecidableEq ι] {env : Environment α ι}
  {listener : FunctionEncodingAndHandler α ι} {logEntry : LogEntry} {trace : List (Output α ι)}

/-- A listener passes over the logs that do not match. -/
theorem FunctionEncodingAndHandler.fire_ne_iff {m : Bool}
    (h : matchTopics (listener.topics.drop 1) (logEntry.topics.drop 1) = some m) :
    listener.fire env logEntry trace ≠ .returned trace ↔ m = true := by
  unfold FunctionEncodingAndHandler.fire
  rw [h]
  cases m with
  | false => simp
  | true =>
    refine iff_of_true ?_ rfl
    dsimp only
    split
    · simp
    · split <;> simp

/-- The listener hears of the log if the topics are the same text. -/
theorem fire_ne_iff_topic_eq {a : RpcAddress} {signature signature' : String} {more : List String}
    {x : Address} (h_listener : listener.topics = [signature, String.ofList a.toWideAddressString])
    (h_log : logEntry.topics = signature' :: String.ofList x.topic :: more) :
    listener.fire env logEntry trace ≠ .returned trace ↔ a.toWideAddressString = x.topic := by
  have h_match : matchTopics (listener.topics.drop 1) (logEntry.topics.drop 1) =
      some (String.ofList a.toWideAddressString == String.ofList x.topic && true) := by
    rw [h_listener, h_log]
    rfl
  rw [FunctionEncodingAndHandler.fire_ne_iff h_match, Bool.and_true, beq_iff_eq,
    String.ofList_inj]

end Listeners

open AddressTypeConverter

/-- What is written into an empty buffer is read in lower case. -/
theorem KeepsIdentity.toLowerCase_eq {a : RpcAddress} (h : KeepsIdentity a) :
    a.toLowerCase = a := by
  obtain ⟨b', h_ext⟩ := @ByteBuffer.exists_extends ⟨32, [], Nat.zero_le 32⟩
    (Abi.word (toBigInteger a)) (by rw [length_word]; exact Nat.le_refl 32)
  have h_back := h.reads_back _ b' _ ((h.writes _ b').mpr h_ext) h_ext [] [] none
  rw [reads_toLowerCase a [] [] none] at h_back
  exact congrArg Prod.fst (Except.ok.inj h_back)

/-- **Addresses.** An address keeps its identity if and only if it was given without upper-case
digits. -/
theorem keepsIdentity_iff {address : List Char} {a : RpcAddress}
    (h_new : RpcAddress.new address = .ok a) :
    KeepsIdentity a ↔ ∀ c ∈ address, ¬ UpperCaseDigit c := by
  -- the prefix has no digit in it
  have h_digits : (∀ c ∈ address, ¬ UpperCaseDigit c) ↔ ∀ c ∈ a.digits, ¬ UpperCaseDigit c := by
    rw [RpcAddress.new_eq_ok.mp h_new]
    unfold RpcAddress.toString
    rw [List.forall_mem_cons, List.forall_mem_cons, and_iff_right (by decide),
      and_iff_right (by decide)]
  rw [h_digits, ← RpcAddress.toLowerCase_eq_iff]
  refine ⟨KeepsIdentity.toLowerCase_eq, fun h => ?_⟩
  have h_rpc : (Address.ofRpc a).toRpc = a := (RpcAddress.toRpc_ofRpc a).trans h
  refine ⟨fun b b' => serialiseType_eq_ok a, ?_, ?_, ?_⟩
  -- what is written is the number, what is read is its digits in lower case
  · intro b b' bytes h_ok h_ext
    have h_reads := reads_toLowerCase a
    rw [h, ((serialiseType_eq_ok a).mp h_ok).bytes_eq h_ext] at h_reads
    exact h_reads
  · intro b b' bytes h_ok h_ext
    have h_topic := (Address.ofRpc a).topic_eq
    unfold Address.topic at h_topic
    rw [RpcAddress.toNat_ofRpc, h_rpc] at h_topic
    rw [← h_topic, h_ext.bytes_eq ((serialiseType_eq_ok a).mp h_ok)]
    rfl
  · intro α ι _ env listener logEntry trace signature signature' more x h_listener h_log
    rw [fire_ne_iff_topic_eq h_listener h_log, x.topic_eq]
    refine ⟨fun h_text => Address.eq_of_toWideAddressString h_text.symm, ?_⟩
    rintro rfl
    rw [h_rpc]

/-- An address with one digit only. -/
def repeatedDigit (c : Char) (h : (digit 16 c).isSome) : RpcAddress where
  digits := List.replicate 40 c
  length_eq := List.length_replicate
  hex := List.forall_mem_replicate.mpr (Or.inr h)

theorem lowerCase_keepsIdentity : KeepsIdentity (repeatedDigit 'a' rfl) := by
  refine (@keepsIdentity_iff ('0' :: 'x' :: List.replicate 40 'a') _ ?_).mpr ?_
  · exact RpcAddress.new_eq_ok.mpr rfl
  · rw [List.forall_mem_cons, List.forall_mem_cons, List.forall_mem_replicate]
    decide

theorem upperCase_not_keepsIdentity : ¬ KeepsIdentity (repeatedDigit 'A' rfl) := by
  intro h
  have h_digits := congrArg RpcAddress.digits h.toLowerCase_eq
  exact absurd h_digits (by decide)

end Ethiso
