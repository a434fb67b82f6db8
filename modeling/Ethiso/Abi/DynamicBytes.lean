import Ethiso.Abi.WordCodecs

/-!
# Byte arrays and their length

A byte array is written as its length, a `uint256`, and its bytes, padded with zeros to
whole words (`serialisation`), and it is read back. The other direction fails: the reader
narrows the length word to an `int`, the low 32 bits of it. So it takes a length word other
than that of the array it returns, or asks for an array of a negative size, if the buffer
says so (`dynamicBytes_faithful_iff`).
-/

namespace Ethiso.Abi

open TypeConverterUtils

variable {before rest : List UInt8} {mark : Option ℕ} {size : ℕ} {e : JavaException}

/-- A chain of two calls throws if the first does, or the second. -/
theorem bind_eq_error {α β : Type} {x : Java α} {f : α → Java β} :
    x >>= f = .error e ↔ x = .error e ∨ ∃ a, x = .ok a ∧ f a = .error e := by
  cases x with
  | error e' => simp [bind, Except.bind]
  | ok a => simp [bind, Except.bind]

/-! ### Reading bytes and their padding -/

theorem FlippedBuffer.get_eq_ok {data : List UInt8} {buffer : FlippedBuffer} :
    FlippedBuffer.get ⟨before, rest, mark⟩ size = .ok (data, buffer) ↔ data.length = size ∧
      ∃ rest', rest = data ++ rest' ∧ buffer = ⟨before ++ data, rest', mark⟩ := by
  refine ⟨?_, ?_⟩
  · intro h
    unfold FlippedBuffer.get at h
    dsimp only at h
    split_ifs at h with h_short
    obtain ⟨rfl, rfl⟩ := Prod.mk.inj (pure_eq_ok.mp h)
    exact ⟨List.length_take_of_le (not_lt.mp h_short), _,
      (List.take_append_drop size rest).symm, rfl⟩
  · rintro ⟨h_len, rest', rfl, rfl⟩
    exact get_append h_len before rest' mark

/-- The only exception of the buffer. -/
theorem FlippedBuffer.get_error {buffer : FlippedBuffer} (h : buffer.get size = .error e) :
    e = .bufferUnderflow := by
  unfold FlippedBuffer.get at h
  split_ifs at h
  · exact (Except.error.inj h).symm
  · cases h

/-- The padding passes if it is all zeros. -/
theorem checkPadding_eq_ok {pad : List UInt8} :
    checkPadding pad size = .ok () ↔ pad = List.replicate pad.length 0 := by
  refine ⟨fun h => ?_, fun h => h ▸ checkPadding_replicate pad.length size⟩
  unfold checkPadding at h
  split at h
  · next h_none =>
    rw [List.findIdx?_eq_none_iff] at h_none
    exact List.eq_replicate_of_mem fun b hb => by simpa using h_none b hb
  · cases h

/-- Otherwise an `IllegalArgumentException` is thrown. -/
theorem checkPadding_error {pad : List UInt8} (h : checkPadding pad size = .error e) :
    e.isIllegalArgument := by
  unfold checkPadding at h
  split at h
  · cases h
  · rw [← Except.error.inj h]
    rfl

namespace DynamicBytesTypeConverter

/-- The reader behind the length word. -/
def readData (size : ℕ) (byteBuffer : FlippedBuffer) : Java (List UInt8 × FlippedBuffer) := do
  let (data, byteBuffer) ← byteBuffer.get size
  if size % 32 ≠ 0 then
    let (pad, byteBuffer) ← byteBuffer.get (32 - size % 32)
    checkPadding pad size
    return (data, byteBuffer)
  else return (data, byteBuffer)

/-- **What is read**: the bytes that stand there, with their padding. -/
theorem readData_eq_ok {data : List UInt8} {buffer : FlippedBuffer} :
    readData size ⟨before, rest, mark⟩ = .ok (data, buffer) ↔ data.length = size ∧
      ∃ rest', rest = padded data ++ rest' ∧ buffer = ⟨before ++ padded data, rest', mark⟩ := by
  unfold readData padded
  refine ⟨?_, ?_⟩
  · intro h
    obtain ⟨⟨data', buffer'⟩, h_data, h⟩ := bind_eq_ok.mp h
    obtain ⟨h_len, rest₁, rfl, rfl⟩ := FlippedBuffer.get_eq_ok.mp h_data
    dsimp only at h
    split_ifs at h with h_full
    · obtain ⟨⟨pad, buffer'⟩, h_pad, h⟩ := bind_eq_ok.mp h
      obtain ⟨h_pad_len, rest₂, rfl, rfl⟩ := FlippedBuffer.get_eq_ok.mp h_pad
      obtain ⟨⟨⟩, h_check, h⟩ := bind_eq_ok.mp h
      obtain ⟨rfl, rfl⟩ := Prod.mk.inj (pure_eq_ok.mp h)
      rw [checkPadding_eq_ok, h_pad_len] at h_check
      rw [h_len, Nat.mod_eq_of_lt (show 32 - size % 32 < 32 by omega), ← h_check]
      exact ⟨rfl, rest₂, by rw [List.append_assoc], by rw [List.append_assoc]⟩
    · obtain ⟨rfl, rfl⟩ := Prod.mk.inj (pure_eq_ok.mp h)
      rw [h_len, not_not.mp h_full, Nat.sub_zero, Nat.mod_self, List.replicate_zero,
        List.append_nil]
      exact ⟨rfl, rest₁, rfl, rfl⟩
  · rintro ⟨h_len, rest', rfl, rfl⟩
    rw [List.append_assoc]
    refine bind_eq_ok.mpr ⟨_, get_append h_len before _ mark, ?_⟩
    dsimp only
    rw [h_len]
    -- whole words have no padding
    split_ifs with h_full
    · rw [Nat.mod_eq_of_lt (show 32 - size % 32 < 32 by omega)]
      refine bind_eq_ok.mpr ⟨_, get_append List.length_replicate _ rest' mark, ?_⟩
      refine bind_eq_ok.mpr ⟨_, checkPadding_replicate _ _, ?_⟩
      rw [List.append_assoc]
      rfl
    · rw [not_not.mp h_full, Nat.sub_zero, Nat.mod_self, List.replicate_zero, List.append_nil,
        List.nil_append]
      rfl

/-- What may be thrown is what the claim of the reader allows. -/
theorem readData_error {buffer : FlippedBuffer} (h : readData size buffer = .error e) :
    e.isIllegalArgument ∨ e = .bufferUnderflow := by
  unfold readData at h
  rcases bind_eq_error.mp h with h_data | ⟨⟨data, buffer₁⟩, -, h⟩
  · exact Or.inr (FlippedBuffer.get_error h_data)
  dsimp only at h
  split_ifs at h
  -- there is a padding only if the bytes do not fill their last word
  · rcases bind_eq_error.mp h with h_pad | ⟨⟨pad, buffer₂⟩, -, h⟩
    · exact Or.inr (FlippedBuffer.get_error h_pad)
    rcases bind_eq_error.mp h with h_check | ⟨-, -, h⟩
    · exact Or.inl (checkPadding_error h_check)
    · cases h
  · cases h

/-! ### The length word -/

/-- The low 32 bits of the length, as an `int`. -/
def narrowed (w : Word) : ℤ := BigInteger.intValue w.unsigned

theorem narrowed_lt (w : Word) : narrowed w < 2 ^ 31 := by
  unfold narrowed BigInteger.intValue
  rw [Int.bmod_def]
  omega

/-- The length is narrowed to the low 32 bits of its word. -/
theorem intValue_signed (w : Word) : BigInteger.intValue w.signed = narrowed w := by
  unfold narrowed BigInteger.intValue
  rw [w.signed_eq]
  split_ifs
  · rfl
  · rw [Int.bmod_def, Int.bmod_def]
    omega

/-- The length word is read as a signed number. -/
theorem deserialise_lengthWord (w : Word) :
    UIntTypeConverter.deserialise 256 ⟨before, w.1 ++ rest, mark⟩ =
      .ok (w.signed, ⟨before ++ w.1, rest, mark⟩) := by
  refine (UIntTypeConverter.readsSigned 256 w before rest mark _).mpr ⟨?_, rfl⟩
  have h_range := w.signed_range
  exact BigInteger.bitLength_le_iff.mpr ⟨by omega, by omega⟩

theorem ok_bind {α β : Type} (a : α) (f : α → Java β) : (Except.ok a : Java α) >>= f = f a := rfl

/-- **Reading** is narrowing the length, and reading as many bytes. -/
theorem deserialise_word (w : Word) :
    deserialise ⟨before, w.1 ++ rest, mark⟩ =
      if narrowed w < 0 then .error .negativeArraySize
      else readData (narrowed w).toNat ⟨before ++ w.1, rest, mark⟩ := by
  unfold deserialise readData
  rw [deserialise_lengthWord w, ok_bind]
  dsimp only
  rw [intValue_signed]
  generalize narrowed w = k
  by_cases h_neg : k < 0
  · rw [if_pos h_neg, if_pos h_neg]
    rfl
  · rw [if_neg h_neg, if_neg h_neg]

/-! ### When the reader and the writer agree -/

/-- The length of the array and its bytes, padded. -/
def serialisation (bytes : List UInt8) : List UInt8 := word bytes.length ++ padded bytes

/-- The length, and as many words as the bytes need. -/
theorem length_serialisation (bytes : List UInt8) :
    (serialisation bytes).length = 32 + 32 * ((bytes.length + 31) / 32) := by
  unfold serialisation padded
  rw [List.length_append, List.length_append, length_word, List.length_replicate]
  omega

/-- For an array, the writer puts its serialisation and the reader undoes this; on a buffer,
the reader returns an array whose serialisation it has consumed, or it throws one of the two
exceptions that are expected. -/
structure Faithful (bytes : List UInt8) (buffer : FlippedBuffer) : Prop where
  writes : bytes.length < 2 ^ 31 → ∀ b b', serialiseType b bytes = .ok b' ↔
    b.Extends (serialisation bytes) b'
  length_eq : (serialisation bytes).length = 32 + 32 * ((bytes.length + 31) / 32)
  reads_back : bytes.length < 2 ^ 31 → Reads deserialise (serialisation bytes) bytes
  returns : ∀ data buffer', deserialise buffer = .ok (data, buffer') →
    buffer.after = serialisation data ++ buffer'.after ∧
      buffer'.before = buffer.before ++ serialisation data ∧ buffer'.mark = buffer.mark
  throws : ∀ e, deserialise buffer = .error e → e.isIllegalArgument ∨ e = .bufferUnderflow

/-- The length word is that of an array, or what follows is none of the length that the low
32 bits say. They are not negative. -/
def LengthAgrees (w : Word) (rest : List UInt8) : Prop :=
  0 ≤ narrowed w ∧ (w.unsigned = narrowed w ∨
    ¬ ∃ data rest', (data.length : ℤ) = narrowed w ∧ rest = padded data ++ rest')

/-- What is returned if the length is not negative. -/
theorem deserialise_eq_ok {data : List UInt8} {buffer : FlippedBuffer} {w : Word} :
    deserialise ⟨before, w.1 ++ rest, mark⟩ = .ok (data, buffer) ↔
      (data.length : ℤ) = narrowed w ∧ ∃ rest', rest = padded data ++ rest' ∧
        buffer = ⟨before ++ w.1 ++ padded data, rest', mark⟩ := by
  rw [deserialise_word]
  split_ifs with h_neg
  · apply iff_of_false (by simp)
    intro h
    have h_len := h.1
    omega
  · rw [readData_eq_ok]
    apply and_congr_left'
    omega

/-- The length word is that of the data if and only if nothing was cut off. -/
theorem word_length_eq_iff {data : List UInt8} {w : Word}
    (h_len : (data.length : ℤ) = narrowed w) :
    word data.length = w.1 ↔ w.unsigned = narrowed w := by
  have h_lt := narrowed_lt w
  rw [← Word.ofInt_eq_iff ⟨by omega, by omega⟩, ← h_len]
  exact ⟨fun h => Subtype.ext h, fun h => congrArg Subtype.val h⟩

/-- What was read is what would be written, if and only if the length word was not narrowed. -/
theorem returns_iff {data : List UInt8} {buffer : FlippedBuffer} {w : Word}
    (h : deserialise ⟨before, w.1 ++ rest, mark⟩ = .ok (data, buffer)) :
    (w.1 ++ rest = serialisation data ++ buffer.after ∧
      buffer.before = before ++ serialisation data ∧ buffer.mark = mark) ↔
        w.unsigned = narrowed w := by
  obtain ⟨h_len, rest', rfl, rfl⟩ := deserialise_eq_ok.mp h
  rw [← word_length_eq_iff h_len]
  unfold serialisation
  dsimp only
  refine ⟨?_, ?_⟩
  · intro h_all
    have h_after := h_all.1
    rw [List.append_assoc] at h_after
    exact (List.append_inj_left h_after (by rw [w.2, length_word])).symm
  -- the word in front of the data is the one that was read
  · intro h_word
    rw [h_word]
    exact ⟨by rw [List.append_assoc], by rw [List.append_assoc], rfl⟩

/-- Only the reading can go wrong. -/
theorem Faithful.of_reads {bytes : List UInt8} {buffer : FlippedBuffer}
    (h_returns : ∀ data buffer', deserialise buffer = .ok (data, buffer') →
      buffer.after = serialisation data ++ buffer'.after ∧
        buffer'.before = buffer.before ++ serialisation data ∧ buffer'.mark = buffer.mark)
    (h_throws : ∀ e, deserialise buffer = .error e →
      e.isIllegalArgument ∨ e = .bufferUnderflow) : Faithful bytes buffer := by
  refine ⟨fun h_len b b' => ?_, length_serialisation bytes, DynamicBytesTypeConverter.reads,
    h_returns, h_throws⟩
  rw [DynamicBytesTypeConverter.serialiseType_eq_ok]
  exact and_iff_right (by omega)

/-- **One length word**: the reader and the writer agree on it if and only if its length does. -/
theorem faithful_iff_of_word (bytes : List UInt8) (w : Word) :
    Faithful bytes ⟨before, w.1 ++ rest, mark⟩ ↔ LengthAgrees w rest := by
  refine ⟨?_, ?_⟩
  · intro h
    -- a negative length makes the array's size negative, which is not to be thrown
    have h_nonneg : 0 ≤ narrowed w := by
      by_contra h_neg
      have h_throw := h.throws .negativeArraySize
        ((deserialise_word w).trans (if_pos (not_le.mp h_neg)))
      rcases h_throw with h_arg | h_eq
      · cases h_arg
      · cases h_eq
    refine ⟨h_nonneg, ?_⟩
    rw [or_iff_not_imp_right, not_not]
    rintro ⟨data, rest', h_len, h_rest⟩
    have h_ok : deserialise ⟨before, w.1 ++ rest, mark⟩ = .ok (data, _) :=
      deserialise_eq_ok.mpr ⟨h_len, rest', h_rest, rfl⟩
    exact (returns_iff h_ok).mp (h.returns _ _ h_ok)
  · intro h
    refine Faithful.of_reads (fun data buffer' h_ok => ?_) fun e h_error => ?_
    · obtain ⟨h_len, rest', h_rest, -⟩ := deserialise_eq_ok.mp h_ok
      refine (returns_iff h_ok).mpr (h.2.resolve_right ?_)
      exact not_not.mpr ⟨data, rest', h_len, h_rest⟩
    · rw [deserialise_word, if_neg (not_lt.mpr h.1)] at h_error
      exact readData_error h_error

/-- Without a length word, nothing is read, and that is what should be. -/
theorem faithful_of_short {bytes : List UInt8} {buffer : FlippedBuffer}
    (h : buffer.after.length < 32) : Faithful bytes buffer := by
  have h_throw : deserialise buffer = .error .bufferUnderflow := by
    unfold deserialise UIntTypeConverter.deserialise FlippedBuffer.get
    rw [if_pos h]
    rfl
  refine Faithful.of_reads (fun data buffer' h_ok => ?_) fun e h_error => ?_
  · rw [h_throw] at h_ok
    cases h_ok
  · rw [h_throw] at h_error
    exact Or.inr (Except.error.inj h_error).symm

end DynamicBytesTypeConverter

open DynamicBytesTypeConverter in
/-- **Byte arrays.** An array is written and read back. A buffer is read as it should unless
the low 32 bits of its length word are negative as an `int`, or are those of another length
than the word says and what follows is an array of this other length. -/
theorem dynamicBytes_faithful_iff (bytes : List UInt8) (buffer : FlippedBuffer) :
    Faithful bytes buffer ↔
      ∀ (w : Word) rest, buffer.after = w.1 ++ rest → LengthAgrees w rest := by
  obtain ⟨before, after, mark⟩ := buffer
  refine ⟨?_, ?_⟩
  · rintro h w rest rfl
    exact (faithful_iff_of_word bytes w).mp h
  · intro h
    rcases Nat.lt_or_ge after.length 32 with h_short | h_long
    · exact faithful_of_short h_short
    -- the first 32 bytes are the length word
    · have h_split := List.take_append_drop 32 after
      have h_agrees := h ⟨after.take 32, List.length_take_of_le h_long⟩ (after.drop 32) h_split.symm
      rw [← h_split]
      exact (faithful_iff_of_word bytes _).mpr h_agrees

/-- The length `2 ^ 32` is taken for 0. -/
theorem longer_length_not_faithful : ¬ DynamicBytesTypeConverter.Faithful []
    ⟨[], (Word.ofInt (2 ^ 32)).1 ++ [], none⟩ := by
  intro h
  have h_unsigned : (Word.ofInt (2 ^ 32)).unsigned = 2 ^ 32 :=
    Word.unsigned_ofInt ⟨by norm_num, by norm_num⟩
  have h_narrowed : DynamicBytesTypeConverter.narrowed (Word.ofInt (2 ^ 32)) = 0 := by
    unfold DynamicBytesTypeConverter.narrowed
    rw [h_unsigned]
    decide
  rcases ((DynamicBytesTypeConverter.faithful_iff_of_word [] _).mp h).2 with h_eq | h_none
  · rw [h_unsigned, h_narrowed] at h_eq
    norm_num at h_eq
  · exact h_none ⟨[], [], h_narrowed.symm, rfl⟩

end Ethiso.Abi
