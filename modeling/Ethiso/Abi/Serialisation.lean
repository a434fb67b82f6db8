import Ethiso.Abi.TypeConverter

/-!
# What the converters write

For each converter, `Accepts` are the values it does not reject, and `layout` are the
bytes it puts into the buffer for such a value. `serialiseType_eq_ok` says that this
is all: a value is written if and only if it is accepted and its bytes fit.

An integer is one word (`word`): the shortest representation that `toByteArray`
returns, less its leading zeros, padded in front to 32 bytes.
-/

namespace Ethiso.Abi

/-- A sequence returns if its first step returns and then its second. -/
theorem bind_eq_ok {α β : Type} {x : Java α} {f : α → Java β} {r : β} :
    x >>= f = .ok r ↔ ∃ a, x = .ok a ∧ f a = .ok r := by
  cases x with
  | error e => simp [bind, Except.bind]
  | ok a => simp [bind, Except.bind]

@[simp] theorem pure_eq_ok {α : Type} {a r : α} : (pure a : Java α) = .ok r ↔ a = r :=
  ⟨Except.ok.inj, congrArg Except.ok⟩

@[simp] theorem throw_eq_ok {α : Type} {e : JavaException} {r : α} :
    (throw e : Java α) = .ok r ↔ False :=
  ⟨fun h => by injection h, False.elim⟩

/-- An attempt with a result returned it. -/
theorem eq_ok_of_toOption {α : Type} {attempt : Java α} {r : α}
    (h : attempt.toOption = some r) : attempt = .ok r := by
  cases attempt with
  | error e => exact absurd h (by simp [Except.toOption])
  | ok a => exact congrArg Except.ok (Option.some.inj h)

/-- If there is a result, the attempt returned. -/
theorem exists_ok_of_isSome {α : Type} {attempt : Java α}
    (h : attempt.toOption.isSome = true) : ∃ r, attempt = .ok r := by
  obtain ⟨r, h_r⟩ := Option.isSome_iff_exists.mp h
  exact ⟨r, eq_ok_of_toOption h_r⟩

/-! ### Putting bytes -/

/-- The buffer `b'` is `b` after `bytes` were put. -/
def ByteBuffer.Extends (b : ByteBuffer) (bytes : List UInt8) (b' : ByteBuffer) : Prop :=
  b'.capacity = b.capacity ∧ b'.written = b.written ++ bytes

namespace ByteBuffer

variable {b b' : ByteBuffer} {bytes bytes' : List UInt8}

/-- What has been written determines the buffer. -/
theorem Extends.eq {b₁ b₂ : ByteBuffer} (h₁ : b.Extends bytes b₁) (h₂ : b.Extends bytes b₂) :
    b₁ = b₂ := by
  cases b₁
  cases b₂
  obtain ⟨rfl, rfl⟩ := h₁
  obtain ⟨rfl, rfl⟩ := h₂
  rfl

/-- The buffer determines what has been written. -/
theorem Extends.bytes_eq (h : b.Extends bytes b') (h' : b.Extends bytes' b') : bytes = bytes' :=
  List.append_cancel_left (h.2.symm.trans h'.2)

/-- What is written fits into the buffer. -/
theorem Extends.length_le (h : b.Extends bytes b') :
    b.written.length + bytes.length ≤ b.capacity := by
  have h_fits := b'.fits
  rw [h.1, h.2, List.length_append] at h_fits
  exact h_fits

theorem exists_extends (h : b.written.length + bytes.length ≤ b.capacity) :
    ∃ b', b.Extends bytes b' :=
  ⟨⟨b.capacity, b.written ++ bytes, by rw [List.length_append]; exact h⟩, rfl, rfl⟩

/-- Nothing was put. -/
theorem extends_nil : b.Extends [] b' ↔ b = b' := by
  refine ⟨fun h => Extends.eq ⟨rfl, (List.append_nil _).symm⟩ h, ?_⟩
  rintro rfl
  exact ⟨rfl, (List.append_nil _).symm⟩

/-- Putting two pieces is putting one after the other. -/
theorem extends_append :
    b.Extends (bytes ++ bytes') b' ↔ ∃ b₁, b.Extends bytes b₁ ∧ b₁.Extends bytes' b' := by
  refine ⟨?_, ?_⟩
  · intro h
    have h_len := h.length_le
    rw [List.length_append] at h_len
    obtain ⟨b₁, h₁⟩ := @exists_extends b bytes (by omega)
    exact ⟨b₁, h₁, by rw [h.1, h₁.1], by rw [h.2, h₁.2, List.append_assoc]⟩
  · rintro ⟨b₁, h₁, h₂⟩
    exact ⟨by rw [h₂.1, h₁.1], by rw [h₂.2, h₁.2, List.append_assoc]⟩

/-- A put within the bounds of the byte array succeeds if there is room. -/
theorem put_eq_ok {offset length : ℕ} (h : offset + length ≤ bytes.length) :
    b.put bytes offset length = .ok b' ↔ b.Extends ((bytes.drop offset).take length) b' := by
  unfold put
  rw [if_neg (by omega)]
  simp only [Int.toNat_natCast]
  -- the range is there, so only the room in the buffer is left to test
  by_cases h_room : (b.written ++ (bytes.drop offset).take length).length ≤ b.capacity
  · have h_new : b.Extends ((bytes.drop offset).take length) ⟨b.capacity, _, h_room⟩ := ⟨rfl, rfl⟩
    rw [dif_pos h_room, pure_eq_ok]
    refine ⟨fun h_eq => h_eq ▸ h_new, fun h_ext => h_new.eq h_ext⟩
  · rw [dif_neg h_room, throw_eq_ok, false_iff]
    intro h_ext
    apply h_room
    rw [List.length_append]
    exact h_ext.length_le

end ByteBuffer

/-! ### Bytes and their numbers -/

/-- A byte is its value below 256. -/
theorem map_toNat_ofNat {l : List ℕ} (h : ∀ d ∈ l, d < 256) :
    (l.map UInt8.ofNat).map UInt8.toNat = l := by
  rw [List.map_map]
  conv_rhs => rw [← List.map_id l]
  apply List.map_congr_left
  intro d hd
  exact UInt8.toNat_ofNat_of_lt' (h d hd)

theorem map_ofNat_toNat (bytes : List UInt8) : (bytes.map UInt8.toNat).map UInt8.ofNat = bytes := by
  rw [List.map_map]
  conv_rhs => rw [← List.map_id bytes]
  exact List.map_congr_left fun b _ => UInt8.ofNat_toNat

theorem toNat_lt_of_mem {bytes : List UInt8} : ∀ d ∈ bytes.map UInt8.toNat, d < 256 := by
  intro d hd
  obtain ⟨b, -, rfl⟩ := List.mem_map.mp hd
  exact b.toNat_lt

/-- The number that bytes denote, without a sign. -/
def unsignedValue (bytes : List UInt8) : ℕ := ofBigEndian 256 (bytes.map UInt8.toNat)

/-- The unsigned value of bytes is below the power of their number. -/
theorem unsignedValue_lt (bytes : List UInt8) : unsignedValue bytes < 256 ^ bytes.length := by
  have h := @ofBigEndian_lt 256 (bytes.map UInt8.toNat) (by decide) toNat_lt_of_mem
  rwa [List.length_map] at h

/-- **Among bytes of one length the unsigned value determines them.** -/
theorem unsignedValue_injective {bytes bytes' : List UInt8} (h_len : bytes.length = bytes'.length)
    (h : unsignedValue bytes = unsignedValue bytes') : bytes = bytes' := by
  have h_eq := ofBigEndian_injective (by decide) toNat_lt_of_mem toNat_lt_of_mem
    (by simpa using h_len) h
  rw [← map_ofNat_toNat bytes, h_eq, map_ofNat_toNat]

/-- The 32 bytes of an integer in two's complement. -/
def word (n : ℤ) : List UInt8 := (bigEndian 256 32 (n % 2 ^ 256).toNat).map UInt8.ofNat

/-- A residue modulo `2 ^ 256` needs 32 bytes. -/
theorem toNat_emod_lt (n : ℤ) : (n % 2 ^ 256).toNat < 256 ^ 32 := by omega

@[simp] theorem length_word (n : ℤ) : (word n).length = 32 := by
  unfold word
  rw [List.length_map, length_bigEndian (by decide) (toNat_emod_lt n)]

@[simp] theorem unsignedValue_word (n : ℤ) : unsignedValue (word n) = (n % 2 ^ 256).toNat := by
  unfold unsignedValue word
  rw [map_toNat_ofNat fun d => lt_of_mem_bigEndian (by decide), ofBigEndian_bigEndian]

/-- A word is determined by its length and its value. -/
theorem eq_word {bytes : List UInt8} {n : ℤ} (h_len : bytes.length = 32)
    (h : (unsignedValue bytes : ℤ) = n % 2 ^ 256) : bytes = word n := by
  apply unsignedValue_injective (by rw [h_len, length_word])
  rw [unsignedValue_word]
  omega

namespace BigInteger

/-- What the bit length says: the range of two's complement without its sign bit. -/
theorem bitLength_le_iff {n : ℤ} {k : ℕ} : bitLength n ≤ k ↔ -2 ^ k ≤ n ∧ n < 2 ^ k := by
  unfold bitLength
  rw [Nat.size_le]
  have h_cast : ((2 ^ k : ℕ) : ℤ) = 2 ^ k := by norm_cast
  split_ifs <;> omega

/-- A number lies in the range of its own bit length. -/
theorem bitLength_bounds (n : ℤ) : -2 ^ bitLength n ≤ n ∧ n < 2 ^ bitLength n :=
  bitLength_le_iff.mp (Nat.le_refl _)

/-- There is one byte for each eight bits, the sign bit included. -/
theorem length_toByteArray (n : ℤ) : (toByteArray n).length = bitLength n / 8 + 1 := by
  unfold toByteArray
  have h_pos : (0 : ℤ) < 256 ^ (bitLength n / 8 + 1) := by positivity
  have h_lt := Int.emod_lt_of_pos n h_pos
  have h_nonneg := Int.emod_nonneg n h_pos.ne'
  rw [List.length_map, length_bigEndian (by decide)]
  zify
  rwa [Int.toNat_of_nonneg h_nonneg]

/-- `toByteArray` is two's complement: the unsigned value is the residue. -/
theorem unsignedValue_toByteArray (n : ℤ) :
    (unsignedValue (toByteArray n) : ℤ) = n % 256 ^ (toByteArray n).length := by
  rw [length_toByteArray]
  unfold unsignedValue toByteArray
  have h_pos : (0 : ℤ) < 256 ^ (bitLength n / 8 + 1) := by positivity
  rw [map_toNat_ofNat fun d => lt_of_mem_bigEndian (by decide), ofBigEndian_bigEndian,
    Int.toNat_of_nonneg (Int.emod_nonneg n h_pos.ne')]

/-- The bytes have room for the sign. -/
theorem two_pow_bitLength_lt (n : ℤ) :
    2 * (2 : ℤ) ^ bitLength n ≤ 256 ^ (toByteArray n).length := by
  rw [length_toByteArray]
  have h_256 : (256 : ℤ) ^ (bitLength n / 8 + 1) = 2 ^ (8 * (bitLength n / 8 + 1)) := by
    rw [pow_mul]
    norm_num
  rw [h_256, ← pow_succ']
  exact pow_le_pow_right₀ (by norm_num) (by omega)

end BigInteger

/-! ### Integers -/

namespace TypeConverterUtils

/-- Bytes are their leading zeros and what follows. -/
theorem replicate_leadingZeros (bytes : List UInt8) :
    List.replicate (leadingZeros bytes) 0 ++ bytes.drop (leadingZeros bytes) = bytes := by
  induction bytes with
  | nil => rfl
  | cons b bytes ih =>
    cases bytes with
    | nil => rfl
    | cons c bytes =>
      rw [leadingZeros]
      split_ifs with h_b
      · rw [h_b, List.replicate_succ, List.drop_succ_cons, List.cons_append, ih]
      · rfl

/-- What follows the leading zeros starts with another byte, or is the last byte. -/
theorem drop_leadingZeros {bytes : List UInt8} (h : bytes ≠ []) :
    ∃ b rest, bytes.drop (leadingZeros bytes) = b :: rest ∧ (b ≠ 0 ∨ rest = []) := by
  induction bytes with
  | nil => exact absurd rfl h
  | cons b bytes ih =>
    cases bytes with
    | nil => exact ⟨b, [], rfl, Or.inr rfl⟩
    | cons c bytes =>
      rw [leadingZeros]
      split_ifs with h_b
      · exact ih (List.cons_ne_nil c bytes)
      · exact ⟨b, c :: bytes, rfl, Or.inl h_b⟩

/-- Zeros in front do not count. -/
theorem unsignedValue_replicate_append (k : ℕ) (bytes : List UInt8) :
    unsignedValue (List.replicate k 0 ++ bytes) = unsignedValue bytes := by
  unfold unsignedValue
  rw [List.map_append, List.map_replicate]
  exact ofBigEndian_replicate_append k

/-- Without leading zeros a number below `256 ^ (k + 1)` has at most `k + 1` bytes. -/
theorem length_drop_leadingZeros_le {bytes : List UInt8} (h : bytes ≠ []) {k : ℕ}
    (h_lt : unsignedValue bytes < 256 ^ (k + 1)) :
    (bytes.drop (leadingZeros bytes)).length ≤ k + 1 := by
  have h_value : unsignedValue (bytes.drop (leadingZeros bytes)) < 256 ^ (k + 1) := by
    rw [← unsignedValue_replicate_append (leadingZeros bytes), replicate_leadingZeros]
    exact h_lt
  obtain ⟨b, rest, h_eq, h_front⟩ := drop_leadingZeros h
  rw [h_eq] at h_value ⊢
  cases h_front with
  -- the first byte counts
  | inl h_b =>
    have h_toNat : b.toNat ≠ 0 := fun hc => h_b (UInt8.toNat_inj.mp hc)
    have h_len := length_le_of_ofBigEndian_lt (by decide) h_toNat h_value
    simpa using h_len
  -- only the last byte is left, which may be zero
  | inr h_rest =>
    rw [h_rest]
    exact Nat.succ_le_succ (Nat.zero_le k)

variable {b b' : ByteBuffer} {bytes : List UInt8}

/-- The padding goes in front of what follows the leading zeros. -/
theorem lpadTo32_eq_ok (p : UInt8) (h : (bytes.drop (leadingZeros bytes)).length ≤ 32) :
    lpadTo32 b bytes (List.replicate 32 p) = .ok b' ↔
      b.Extends (List.replicate (32 - (bytes.drop (leadingZeros bytes)).length) p ++
        bytes.drop (leadingZeros bytes)) b' := by
  have h_split := congrArg List.length (replicate_leadingZeros bytes)
  rw [List.length_append, List.length_replicate, List.length_drop] at h_split
  rw [List.length_drop] at h ⊢
  have h_pad : (((List.replicate 32 p).length : ℤ) - (bytes.length - leadingZeros bytes)) =
      ((32 - (bytes.length - leadingZeros bytes) : ℕ) : ℤ) := by
    rw [List.length_replicate]
    omega
  have h_rest : ((bytes.length : ℤ) - leadingZeros bytes) =
      ((bytes.length - leadingZeros bytes : ℕ) : ℤ) := by omega
  unfold lpadTo32
  simp only [bind_eq_ok]
  rw [h_pad, h_rest, ByteBuffer.extends_append]
  -- the padding is put first, then the bytes
  refine exists_congr fun b₁ => and_congr ?_ ?_
  · have h_put := @ByteBuffer.put_eq_ok b b₁ (List.replicate 32 p) 0
      (32 - (bytes.length - leadingZeros bytes)) (by simp)
    rw [Int.natCast_zero] at h_put
    rw [h_put, List.drop_zero, List.take_replicate, Nat.min_eq_left (by omega)]
  · rw [ByteBuffer.put_eq_ok (by omega), List.take_of_length_le (by rw [List.length_drop])]

/-- With zeros, this gives the word with the unsigned value of the bytes. -/
theorem lpadZeroTo32_eq_ok (h : bytes ≠ []) (h_lt : unsignedValue bytes < 2 ^ 256) :
    lpadZeroTo32 b bytes = .ok b' ↔ b.Extends (word (unsignedValue bytes)) b' := by
  have h_len := @length_drop_leadingZeros_le bytes h 31 (by simpa using h_lt)
  have h_word : List.replicate (32 - (bytes.drop (leadingZeros bytes)).length) 0 ++
      bytes.drop (leadingZeros bytes) = word (unsignedValue bytes) := by
    refine eq_word ?_ ?_
    · rw [List.length_append, List.length_replicate]
      omega
    · rw [unsignedValue_replicate_append, ← unsignedValue_replicate_append (leadingZeros bytes),
        replicate_leadingZeros]
      omega
  rw [← h_word]
  exact lpadTo32_eq_ok 0 h_len

/-- The two's complement of a negative number has no leading zeros. -/
theorem leadingZeros_toByteArray {n : ℤ} (h : n < 0) :
    leadingZeros (BigInteger.toByteArray n) = 0 := by
  have h_value := BigInteger.unsignedValue_toByteArray n
  have h_room := BigInteger.two_pow_bitLength_lt n
  have h_low := (BigInteger.bitLength_bounds n).1
  generalize BigInteger.toByteArray n = bytes at h_value h_room
  match bytes with
  | [] => rfl
  | [_] => rfl
  | b :: c :: rest =>
    rw [leadingZeros, if_neg]
    rintro rfl
    -- otherwise the value would be below that of the sign bit
    have h_rest := unsignedValue_lt (c :: rest)
    have h_zero : unsignedValue (0 :: c :: rest) = unsignedValue (c :: rest) :=
      unsignedValue_replicate_append 1 (c :: rest)
    rw [h_zero] at h_value
    set len := (c :: rest).length with h_len
    rw [List.length_cons, ← h_len, pow_succ] at h_value h_room
    have h_pos : (0 : ℤ) < 256 ^ len := by positivity
    have h_mod : n % (256 ^ len * 256) = n + 256 ^ len * 256 := by
      rw [Int.emod_eq_add_self_emod, Int.emod_eq_of_lt] <;> omega
    have h_cast : ((256 ^ len : ℕ) : ℤ) = 256 ^ len := by norm_cast
    omega

/-- Bytes `FF` in front subtract a power: the value is that of two's complement. By induction on
their number. -/
theorem unsignedValue_replicate_FF (k : ℕ) (bytes : List UInt8) :
    unsignedValue (List.replicate k 0xFF ++ bytes) + 256 ^ bytes.length =
      256 ^ (k + bytes.length) + unsignedValue bytes := by
  induction k with
  | zero => rw [List.replicate_zero, List.nil_append, Nat.zero_add, Nat.add_comm]
  | succ k ih =>
    -- the first of the bytes has the value 255
    have h_cons : unsignedValue (0xFF :: (List.replicate k 0xFF ++ bytes)) =
        255 * 256 ^ (k + bytes.length) + unsignedValue (List.replicate k 0xFF ++ bytes) := by
      unfold unsignedValue
      rw [List.map_cons, ofBigEndian_cons, List.length_map, List.length_append,
        List.length_replicate]
      rfl
    rw [List.replicate_succ, List.cons_append, h_cons, Nat.add_right_comm k 1, pow_succ]
    omega

/-- A negative number is padded with ones. -/
theorem lpadFFTo32_eq_ok {n : ℤ} (h_neg : n < 0) (h : BigInteger.bitLength n < 256) :
    lpadFFTo32 b (BigInteger.toByteArray n) = .ok b' ↔ b.Extends (word n) b' := by
  have h_len := BigInteger.length_toByteArray n
  have h_le : (BigInteger.toByteArray n).length ≤ 32 := by omega
  have h_drop : (BigInteger.toByteArray n).drop (leadingZeros (BigInteger.toByteArray n)) =
      BigInteger.toByteArray n := by rw [leadingZeros_toByteArray h_neg, List.drop_zero]
  have h_word : List.replicate (32 - (BigInteger.toByteArray n).length) 0xFF ++
      BigInteger.toByteArray n = word n := by
    refine eq_word ?_ ?_
    · rw [List.length_append, List.length_replicate]
      omega
    -- ones in front of the two's complement add up to `2 ^ 256`
    · have h_FF := unsignedValue_replicate_FF (32 - (BigInteger.toByteArray n).length)
        (BigInteger.toByteArray n)
      have h_value := BigInteger.unsignedValue_toByteArray n
      have h_room := BigInteger.two_pow_bitLength_lt n
      have h_low := (BigInteger.bitLength_bounds n).1
      rw [Nat.sub_add_cancel h_le] at h_FF
      set len := (BigInteger.toByteArray n).length
      have h_pos : (0 : ℤ) < 256 ^ len := by positivity
      have h_mod : n % 256 ^ len = n + 256 ^ len := by
        rw [Int.emod_eq_add_self_emod, Int.emod_eq_of_lt] <;> omega
      have h_cast : ((256 ^ len : ℕ) : ℤ) = 256 ^ len := by norm_cast
      have h_256 : -2 ^ 256 ≤ n := by
        have h_pow : (2 : ℤ) ^ BigInteger.bitLength n ≤ 2 ^ 256 :=
          pow_le_pow_right₀ (by norm_num) h.le
        omega
      omega
  have h_pad := @lpadTo32_eq_ok b b' (BigInteger.toByteArray n) 0xFF (by rw [h_drop]; exact h_le)
  rw [h_drop, h_word] at h_pad
  exact h_pad

/-- The bytes, padded with zeros to whole words. -/
def padded (bytes : List UInt8) : List UInt8 :=
  bytes ++ List.replicate ((32 - bytes.length % 32) % 32) 0

/-- **Padding on the right** writes the bytes and zeros up to a full word. -/
theorem rpadZeroTo32_eq_ok : rpadZeroTo32 b bytes = .ok b' ↔ b.Extends (padded bytes) b' := by
  unfold rpadZeroTo32 rpadTo32 padded
  simp only [bind_eq_ok]
  rw [ByteBuffer.extends_append]
  refine exists_congr fun b₁ => and_congr ?_ ?_
  · have h_put := @ByteBuffer.put_eq_ok b b₁ bytes 0 bytes.length (by simp)
    rw [Int.natCast_zero] at h_put
    rw [h_put, List.drop_zero, List.take_length]
  · by_cases h_full : bytes.length % 32 = 0
    -- a full last word is not padded
    · rw [if_neg (not_not_intro h_full), h_full, pure_eq_ok]
      exact ByteBuffer.extends_nil.symm
    -- the rest of the word is taken from the zeros
    · have h_put := @ByteBuffer.put_eq_ok b₁ b' ZEROS 0 (32 - bytes.length % 32) (by simp [ZEROS])
      rw [Int.natCast_zero] at h_put
      rw [if_pos h_full, h_put, List.drop_zero, ZEROS, List.take_replicate,
        Nat.min_eq_left (by omega),
        Nat.mod_eq_of_lt (show 32 - bytes.length % 32 < 32 by omega)]

end TypeConverterUtils

open TypeConverterUtils

/-- For a number that is not negative the bytes have its value. -/
theorem unsignedValue_of_nonneg {n : ℤ} (h : 0 ≤ n) :
    (unsignedValue (BigInteger.toByteArray n) : ℤ) = n := by
  rw [BigInteger.unsignedValue_toByteArray]
  have h_room := BigInteger.two_pow_bitLength_lt n
  have h_lt := (BigInteger.bitLength_bounds n).2
  exact Int.emod_eq_of_lt h (by omega)

/-- **Padding on the left** writes the word of a number that is not negative. -/
theorem lpadZeroTo32_toByteArray {b b' : ByteBuffer} {n : ℤ} (h : 0 ≤ n) (h_lt : n < 2 ^ 256) :
    lpadZeroTo32 b (BigInteger.toByteArray n) = .ok b' ↔ b.Extends (word n) b' := by
  have h_value := unsignedValue_of_nonneg h
  have h_ne : BigInteger.toByteArray n ≠ [] := by
    intro hc
    have h_len := BigInteger.length_toByteArray n
    rw [hc, List.length_nil] at h_len
    omega
  rw [lpadZeroTo32_eq_ok h_ne (by omega), h_value]

variable {b b' : ByteBuffer} {size : ℕ} {n : ℤ}

/-- The numbers of `uintN`. -/
def UIntTypeConverter.Accepts (size : ℕ) (n : ℤ) : Prop := 0 ≤ n ∧ n < 2 ^ size

/-- The numbers of `intN`, in two's complement. -/
def IntTypeConverter.Accepts (size : ℕ) (n : ℤ) : Prop :=
  -2 ^ (size - 1) ≤ n ∧ n < 2 ^ (size - 1)

/-- `uintN` writes the word of each of its numbers and refuses all others. -/
theorem UIntTypeConverter.serialiseType_eq_ok (h_size : size ≤ 256) :
    UIntTypeConverter.serialiseType size b n = .ok b' ↔
      UIntTypeConverter.Accepts size n ∧ b.Extends (word n) b' := by
  unfold UIntTypeConverter.serialiseType UIntTypeConverter.Accepts
  -- both tests of the code are passed exactly by the numbers in range
  by_cases h : 0 ≤ n ∧ n < 2 ^ size
  · have h_bits : BigInteger.bitLength n ≤ size :=
      BigInteger.bitLength_le_iff.mpr ⟨by have := pow_pos (two_pos (α := ℤ)) size; omega, h.2⟩
    have h_pow : (2 : ℤ) ^ size ≤ 2 ^ 256 := pow_le_pow_right₀ (by norm_num) h_size
    rw [if_neg (by omega), and_iff_right h]
    exact lpadZeroTo32_toByteArray h.1 (by omega)
  · rw [if_pos, throw_eq_ok, false_iff]
    · exact fun hc => h hc.1
    -- a number that passes neither test is in range
    · by_contra hc
      rw [not_or, not_lt, not_lt, BigInteger.bitLength_le_iff] at hc
      exact h ⟨hc.1, hc.2.2⟩

/-- `intN` writes the word of each of its numbers and refuses all others. -/
theorem IntTypeConverter.serialiseType_eq_ok (h_pos : 0 < size) (h_size : size ≤ 256) :
    IntTypeConverter.serialiseType size b n = .ok b' ↔
      IntTypeConverter.Accepts size n ∧ b.Extends (word n) b' := by
  unfold IntTypeConverter.serialiseType IntTypeConverter.Accepts
  rw [← BigInteger.bitLength_le_iff]
  by_cases h : BigInteger.bitLength n ≤ size - 1
  · rw [if_neg (by omega), and_iff_right h]
    split_ifs with h_neg
    -- a negative number is padded with `FF`, the others with zeros
    · exact lpadFFTo32_eq_ok h_neg (by omega)
    · have h_pow : (2 : ℤ) ^ BigInteger.bitLength n ≤ 2 ^ 256 :=
        pow_le_pow_right₀ (by norm_num) (by omega)
      have h_lt := (BigInteger.bitLength_bounds n).2
      exact lpadZeroTo32_toByteArray (by omega) (by omega)
  · rw [if_pos (by omega), throw_eq_ok, false_iff]
    exact fun hc => h hc.1

/-! ### The other elementary values -/

/-- A digit is below the radix. -/
theorem digit_lt {radix d : ℕ} {c : Char} (h : digit radix c = some d) : d < radix := by
  unfold digit at h
  dsimp only at h
  obtain ⟨h_lt, h_eq⟩ := Option.ite_none_right_eq_some.mp h
  rwa [← Option.some.inj h_eq]

/-- The digits are ASCII characters. -/
theorem toNat_lt_of_digit {radix d : ℕ} {c : Char} (h : digit radix c = some d) :
    c.toNat < 128 := by
  unfold digit at h
  dsimp only at h
  obtain ⟨h_lt, -⟩ := Option.ite_none_right_eq_some.mp h
  have h_le {c' : Char} (hc : c ≤ c') : c.toNat ≤ c'.toNat := hc
  split_ifs at h_lt with h_1 h_2 h_3
  · exact Nat.lt_of_le_of_lt (h_le h_1.2) (by decide)
  · exact Nat.lt_of_le_of_lt (h_le h_2.2) (by decide)
  · exact Nat.lt_of_le_of_lt (h_le h_3.2) (by decide)
  · exact absurd h_lt (Nat.lt_irrefl radix)

/-- What holds of the digits among the ASCII characters holds of all digits. -/
theorem of_digit {radix : ℕ} {P : Char → ℕ → Prop}
    (h_table : ∀ n < 128, ∀ d < radix, digit radix (Char.ofNat n) = some d → P (Char.ofNat n) d)
    {c : Char} {d : ℕ} (h : digit radix c = some d) : P c d := by
  have h_char := h_table c.toNat (toNat_lt_of_digit h) d (digit_lt h)
  rw [Char.ofNat_toNat] at h_char
  exact h_char h

/-- An address is a number of 160 bits. -/
theorem AddressTypeConverter.toBigInteger_lt (a : RpcAddress) :
    0 ≤ toBigInteger a ∧ toBigInteger a < 2 ^ 160 := by
  have h_digits : ∀ d ∈ a.digits.filterMap (digit 16), d < 16 := by
    intro d hd
    obtain ⟨c, -, h_c⟩ := List.mem_filterMap.mp hd
    exact digit_lt h_c
  have h_len : (a.digits.filterMap (digit 16)).length ≤ 40 := by
    rw [← a.length_eq]
    exact List.length_filterMap_le _ _
  have h_lt := @ofBigEndian_lt 16 (a.digits.filterMap (digit 16)) (by decide) h_digits
  have h_pow := Nat.pow_le_pow_right (show 0 < 16 by decide) h_len
  unfold toBigInteger
  omega

/-- An address is written as the number that it is. -/
theorem AddressTypeConverter.serialiseType_eq_ok (a : RpcAddress) :
    AddressTypeConverter.serialiseType b a = .ok b' ↔ b.Extends (word (toBigInteger a)) b' := by
  unfold AddressTypeConverter.serialiseType
  rw [UIntTypeConverter.serialiseType_eq_ok (by decide)]
  exact and_iff_right (toBigInteger_lt a)

/-- A flag is written as 0 or 1. -/
theorem BoolTypeConverter.serialiseType_eq_ok (x : Bool) :
    BoolTypeConverter.serialiseType b x = .ok b' ↔ b.Extends (word x.toInt) b' := by
  have h_word := @UIntTypeConverter.serialiseType_eq_ok b b' 8 x.toInt (by decide)
  have h_range : UIntTypeConverter.Accepts 8 x.toInt := by cases x <;> exact ⟨by decide, by decide⟩
  rw [and_iff_right h_range] at h_word
  cases x <;> exact h_word

/-- A fixed-point number is written as its scaled integer, if the scaling is exact. -/
theorem FixedTypeConverter.serialiseWith_eq_ok {serialiseType : ByteBuffer → ℤ → Java ByteBuffer}
    {size : FixedSize} {value : BigDecimal} :
    serialiseWith serialiseType size b value = .ok b' ↔
      ∃ n, (value.multiply ⟨2 ^ size.n, 0⟩).toBigIntegerExact = .ok n ∧
        serialiseType b n = .ok b' := by
  unfold serialiseWith
  rw [← bind_eq_ok]
  dsimp only
  split
  · rename_i b'' h_eq
    rw [h_eq, pure_eq_ok]
    exact ⟨congrArg Except.ok, Except.ok.inj⟩
  -- what the conversion throws is replaced by another exception, or passed on
  · rename_i e h_eq
    rw [h_eq]
    split_ifs <;> simp

/-- A length is a `uint256`, whatever is written for `length`. -/
theorem serialiseLength_eq_ok {length : ℕ} :
    UIntTypeConverter.serialiseType 256 b length = .ok b' ↔
      length < 2 ^ 256 ∧ b.Extends (word length) b' := by
  rw [UIntTypeConverter.serialiseType_eq_ok (Nat.le_refl 256)]
  refine and_congr_left' ⟨fun h => by have := h.2; omega, fun h => ⟨by omega, by omega⟩⟩

/-- Bytes are written after their number, padded. -/
theorem DynamicBytesTypeConverter.serialiseType_eq_ok (bytes : List UInt8) :
    DynamicBytesTypeConverter.serialiseType b bytes = .ok b' ↔
      bytes.length < 2 ^ 256 ∧ b.Extends (word bytes.length ++ padded bytes) b' := by
  unfold DynamicBytesTypeConverter.serialiseType
  simp only [bind_eq_ok, serialiseLength_eq_ok, rpadZeroTo32_eq_ok, ByteBuffer.extends_append,
    and_assoc, exists_and_left]

/-- `bytesN` writes exactly `N` bytes, padded. -/
theorem StaticBytesTypeConverter.serialiseType_eq_ok (bytes : List UInt8) :
    StaticBytesTypeConverter.serialiseType size b bytes = .ok b' ↔
      bytes.length = size ∧ b.Extends (padded bytes) b' := by
  unfold StaticBytesTypeConverter.serialiseType
  split_ifs with h_len
  · rw [false_iff]
    exact fun hc => h_len hc.1
  · rw [rpadZeroTo32_eq_ok, and_iff_right (not_not.mp h_len)]

/-! ### Arrays -/

section Arrays

variable {α : Type} {f : ByteBuffer → α → Java ByteBuffer} {A : α → Prop} {L : α → List UInt8}

/-- A loop over the components writes one after the other. -/
theorem foldlM_eq_ok (h : ∀ b x b', f b x = .ok b' ↔ A x ∧ b.Extends (L x) b') (l : List α)
    (b b' : ByteBuffer) :
    l.foldlM f b = .ok b' ↔ (∀ x ∈ l, A x) ∧ b.Extends (l.flatMap L) b' := by
  induction l generalizing b with
  | nil =>
    rw [List.foldlM_nil, pure_eq_ok, List.flatMap_nil, ByteBuffer.extends_nil]
    exact (and_iff_right (List.forall_mem_nil _)).symm
  | cons x l ih =>
    rw [List.foldlM_cons, bind_eq_ok, List.forall_mem_cons, List.flatMap_cons,
      ByteBuffer.extends_append]
    refine ⟨?_, ?_⟩
    -- first the element, then the others
    · rintro ⟨b₁, h₁, h₂⟩
      obtain ⟨h_x, h_ext⟩ := (h b x b₁).mp h₁
      obtain ⟨h_l, h_ext'⟩ := (ih b₁).mp h₂
      exact ⟨⟨h_x, h_l⟩, b₁, h_ext, h_ext'⟩
    · rintro ⟨⟨h_x, h_l⟩, b₁, h_ext, h_ext'⟩
      exact ⟨b₁, (h b x b₁).mpr ⟨h_x, h_ext⟩, (ih b₁).mpr ⟨h_l, h_ext'⟩⟩

/-- How many elements an array may have that carries its length. -/
def DynamicArrayTypeConverter.Accepts (A : α → Prop) (value : List α) : Prop :=
  value.length < 2 ^ 256 ∧ ∀ x ∈ value, A x

/-- How many elements an array of a fixed size has. -/
def StaticArrayTypeConverter.Accepts (A : α → Prop) (size : ℕ) (value : List α) : Prop :=
  value.length = size ∧ ∀ x ∈ value, A x

/-- An array writes its length and then its elements. -/
theorem DynamicArrayTypeConverter.serialiseType_eq_ok
    (h : ∀ b x b', f b x = .ok b' ↔ A x ∧ b.Extends (L x) b') (value : List α) :
    DynamicArrayTypeConverter.serialiseType f b value = .ok b' ↔
      Accepts A value ∧ b.Extends (word value.length ++ value.flatMap L) b' := by
  unfold DynamicArrayTypeConverter.serialiseType Accepts
  simp only [bind_eq_ok, serialiseLength_eq_ok, foldlM_eq_ok h, ByteBuffer.extends_append]
  refine ⟨?_, ?_⟩
  · rintro ⟨b₁, ⟨h_len, h₁⟩, h_all, h₂⟩
    exact ⟨⟨h_len, h_all⟩, b₁, h₁, h₂⟩
  · rintro ⟨⟨h_len, h_all⟩, b₁, h₁, h₂⟩
    exact ⟨b₁, ⟨h_len, h₁⟩, h_all, h₂⟩

/-- An array of a fixed size writes its elements only. -/
theorem StaticArrayTypeConverter.serialiseType_eq_ok
    (h : ∀ b x b', f b x = .ok b' ↔ A x ∧ b.Extends (L x) b') (value : List α) :
    StaticArrayTypeConverter.serialiseType f size b value = .ok b' ↔
      Accepts A size value ∧ b.Extends (value.flatMap L) b' := by
  unfold StaticArrayTypeConverter.serialiseType Accepts
  dsimp only
  split_ifs with h_len
  · rw [false_iff]
    exact fun hc => h_len hc.1.1
  · rw [foldlM_eq_ok h, and_iff_right (not_not.mp h_len)]

end Arrays

/-! ### The tree -/

namespace TypeConverter

/-- The values a converter does not reject. -/
def Accepts : {c : JavaClass} → TypeConverter c → c.Value → Prop
  | _, .address, _ => True
  | _, .bool, _ => True
  | _, .int size, n => IntTypeConverter.Accepts size n
  | _, .uint size, n => UIntTypeConverter.Accepts size n
  | _, .fixed size, value =>
    ∃ n, (BigDecimal.multiply value ⟨2 ^ size.n, 0⟩).toBigIntegerExact = .ok n ∧
      IntTypeConverter.Accepts (size.m + size.n) n
  | _, .ufixed size, value =>
    ∃ n, (BigDecimal.multiply value ⟨2 ^ size.n, 0⟩).toBigIntegerExact = .ok n ∧
      UIntTypeConverter.Accepts (size.m + size.n) n
  | _, .dynamicBytes, bytes => List.length bytes < 2 ^ 256
  | _, .staticBytes size, bytes => List.length bytes = size
  | _, .string, value => (JavaString.getBytes value).length < 2 ^ 256
  | _, .dynamicArray component, value =>
    DynamicArrayTypeConverter.Accepts (fun x => component.Accepts x) value
  | _, .staticArray component size, value =>
    StaticArrayTypeConverter.Accepts (fun x => component.Accepts x) size value

/-- The word of a fixed-point number. -/
def fixedWord (size : FixedSize) (value : BigDecimal) : List UInt8 :=
  match (value.multiply ⟨2 ^ size.n, 0⟩).toBigIntegerExact with
  | .ok n => word n
  | .error _ => []

/-- The bytes a converter puts for a value it accepts. -/
def layout : {c : JavaClass} → TypeConverter c → c.Value → List UInt8
  | _, .address, a => word (AddressTypeConverter.toBigInteger a)
  | _, .bool, x => word (Bool.toInt x)
  | _, .int _, n => word n
  | _, .uint _, n => word n
  | _, .fixed size, value => fixedWord size value
  | _, .ufixed size, value => fixedWord size value
  | _, .dynamicBytes, bytes => word (List.length bytes) ++ padded bytes
  | _, .staticBytes _, bytes => padded bytes
  | _, .string, value =>
    word (JavaString.getBytes value).length ++ padded (JavaString.getBytes value)
  | _, .dynamicArray component, value =>
    word (List.length value) ++ List.flatMap (fun x => component.layout x) value
  | _, .staticArray component _, value => List.flatMap (fun x => component.layout x) value

/-- What both fixed-point converters do, each with the integers that it takes. -/
theorem extends_fixedWord {b b' : ByteBuffer} {size : FixedSize} {value : BigDecimal}
    {Takes : ℤ → Prop} {serialiseType : ByteBuffer → ℤ → Java ByteBuffer}
    (h : ∀ n, serialiseType b n = .ok b' ↔ Takes n ∧ b.Extends (word n) b') :
    FixedTypeConverter.serialiseWith serialiseType size b value = .ok b' ↔
      (∃ n, (value.multiply ⟨2 ^ size.n, 0⟩).toBigIntegerExact = .ok n ∧ Takes n) ∧
        b.Extends (fixedWord size value) b' := by
  rw [FixedTypeConverter.serialiseWith_eq_ok]
  simp only [fixedWord, h]
  refine ⟨?_, ?_⟩
  -- the integer is the one that the condition names
  · rintro ⟨n, h_n, h_takes, h_ext⟩
    rw [h_n]
    exact ⟨⟨n, rfl, h_takes⟩, h_ext⟩
  · rintro ⟨⟨n, h_n, h_takes⟩, h_ext⟩
    rw [h_n] at h_ext
    exact ⟨n, h_n, h_takes, h_ext⟩

/-- **What a converter writes.** It succeeds for the values it accepts, as long as there
is room, and puts their layout. -/
theorem serialiseType_eq_ok {c : JavaClass} (converter : TypeConverter c) (b : ByteBuffer)
    (value : c.Value) (b' : ByteBuffer) :
    converter.serialiseType b value = .ok b' ↔
      converter.Accepts value ∧ b.Extends (converter.layout value) b' := by
  induction converter generalizing b b' with
  -- one case for each converter; the arrays use the lemma about the loop
  | address =>
    exact (AddressTypeConverter.serialiseType_eq_ok value).trans (and_iff_right trivial).symm
  | bool => exact (BoolTypeConverter.serialiseType_eq_ok value).trans (and_iff_right trivial).symm
  | int size => exact IntTypeConverter.serialiseType_eq_ok size.2.1 size.2.2.1
  | uint size => exact UIntTypeConverter.serialiseType_eq_ok size.2.2.1
  | fixed size =>
    have h_pos : 0 < size.m + size.n := by have := size.valid; omega
    exact extends_fixedWord fun _ => IntTypeConverter.serialiseType_eq_ok h_pos size.valid.2.2.1
  | ufixed size =>
    exact extends_fixedWord fun _ => UIntTypeConverter.serialiseType_eq_ok size.valid.2.2.1
  | dynamicBytes => exact DynamicBytesTypeConverter.serialiseType_eq_ok value
  | staticBytes size => exact StaticBytesTypeConverter.serialiseType_eq_ok value
  | string => exact DynamicBytesTypeConverter.serialiseType_eq_ok (JavaString.getBytes value)
  | dynamicArray component ih => exact DynamicArrayTypeConverter.serialiseType_eq_ok ih value
  | staticArray component size ih => exact StaticArrayTypeConverter.serialiseType_eq_ok ih value

end TypeConverter

end Ethiso.Abi
