import Ethiso.Abi.Encoding
import Ethiso.Abi.TypeGrammar

/-!
# Signed integers

The factory of the types `intM` makes converters of unsigned integers, so that the converter of
`intM` writes the numbers of `uintM`: the negative numbers of the type are rejected, and numbers
above its bound are written. `serialisesSigned_iff` says for which numbers this is no difference.
-/

namespace Ethiso.Abi

/-- The converter writes the two's complement of the number if it is one of `intM`, and rejects
it otherwise. There is room for a word in the buffer. -/
def SerialisesSigned (converter : AnyTypeConverter) (m : ℕ) (v : ℤ) : Prop :=
  ∀ b : ByteBuffer, b.written.length + 32 ≤ b.capacity →
    (-2 ^ (m - 1) ≤ v ∧ v < 2 ^ (m - 1) →
      ∃ b', converter.2.serialise b ⟨.bigInteger, v⟩ = .ok b' ∧ b.Extends (word v) b') ∧
    (¬(-2 ^ (m - 1) ≤ v ∧ v < 2 ^ (m - 1)) →
      Fails (converter.2.serialise b ⟨.bigInteger, v⟩))

section Names

variable {suffix : List Char} {m n : ℕ} {converter : AnyTypeConverter}

/-- A size is read as one number. -/
theorem Spelling.IsSize.unique (h : Spelling.loose.IsSize suffix m)
    (h' : Spelling.loose.IsSize suffix n) : m = n := by
  rcases h with ⟨rfl, rfl⟩ | h
  · rcases h' with ⟨-, rfl⟩ | h'
    · rfl
    · exact absurd rfl (Digits.ne_nil h')
  · rcases h' with ⟨rfl, -⟩ | h'
    · exact absurd rfl (Digits.ne_nil h)
    · exact Digits.unique h h'

/-- What is found for the name of a signed type. -/
theorem getTypeConverter_int (h_suffix : Spelling.loose.IsSize suffix m)
    (h : TypeConverterManagerImpl.getTypeConverter (INT ++ suffix) = .ok converter) :
    ∃ size : IntegerSize, (size : ℕ) = m ∧ converter = ⟨_, .uint size⟩ := by
  have h_bracket : '[' ∉ INT ++ suffix := List.not_mem_append (by decide) h_suffix.notMem.1
  obtain ⟨base, h_name, rfl⟩ := (TypeConverterManagerImpl.newTypeConverter_iff h_bracket).mp h
  generalize h_s : INT ++ suffix = s at h_name
  cases h_name with
  | int h_size =>
    obtain rfl := List.append_cancel_left h_s
    exact ⟨_, h_size.unique h_suffix, rfl⟩
  -- no other word begins with `int`
  | _ => cases h_s

end Names

section Serialise

variable {size : IntegerSize} {b : ByteBuffer} {v : ℤ}

/-- The converter of `uintN` writes what `UIntTypeConverter` writes. -/
theorem serialise_uint (b : ByteBuffer) (v : ℤ) :
    (TypeConverter.uint size).serialise b ⟨.bigInteger, v⟩ =
      UIntTypeConverter.serialiseType size b v := rfl

/-- A number out of range is refused whatever the buffer is. -/
theorem UIntTypeConverter.serialiseType_fails (h : ¬UIntTypeConverter.Accepts size v) :
    Fails (UIntTypeConverter.serialiseType size b v) := by
  unfold UIntTypeConverter.serialiseType
  rw [if_pos]
  · exact ⟨_, rfl, rfl⟩
  · by_contra hc
    rw [not_or, not_lt, not_lt, BigInteger.bitLength_le_iff] at hc
    exact h ⟨hc.1, hc.2.2⟩

/-- A buffer with room for one word. -/
theorem exists_room : ∃ b : ByteBuffer, b.written.length + 32 ≤ b.capacity :=
  ⟨⟨32, [], Nat.zero_le 32⟩, Nat.le_refl 32⟩

/-- A power of two is twice the one below it. -/
theorem two_pow_pred {m : ℕ} (h : 0 < m) : (2 : ℤ) ^ m = 2 * 2 ^ (m - 1) := by
  rw [← pow_succ', Nat.sub_add_cancel h]

end Serialise

/-- **Signed integers.** The converter that is found for `intM` treats a number as one of `intM`
if and only if it is too small, or not negative and in bounds, or too large for `uintM`. -/
theorem serialisesSigned_iff {suffix : List Char} {m : ℕ} {converter : AnyTypeConverter}
    (h_suffix : suffix = [] ∧ m = 256 ∨ Digits suffix m)
    (h : TypeConverterManagerImpl.getTypeConverter (INT ++ suffix) = .ok converter) (v : ℤ) :
    SerialisesSigned converter m v ↔
      v < -2 ^ (m - 1) ∨ 0 ≤ v ∧ v < 2 ^ (m - 1) ∨ 2 ^ m ≤ v := by
  obtain ⟨size, rfl, rfl⟩ := getTypeConverter_int h_suffix h
  have h_pow := two_pow_pred size.2.1
  have h_half : (0 : ℤ) < 2 ^ ((size : ℕ) - 1) := by positivity
  unfold SerialisesSigned
  simp only [serialise_uint]
  refine ⟨fun h_all => ?_, fun h_v b h_room => ⟨fun h_range => ?_, fun h_range => ?_⟩⟩
  · -- one buffer is enough to tell
    obtain ⟨b, h_room⟩ := exists_room
    obtain ⟨h_accept, h_reject⟩ := h_all b h_room
    by_cases h_range : -2 ^ ((size : ℕ) - 1) ≤ v ∧ v < 2 ^ ((size : ℕ) - 1)
    · obtain ⟨b', h_ok, -⟩ := h_accept h_range
      have h_nonneg := ((UIntTypeConverter.serialiseType_eq_ok size.2.2.1).mp h_ok).1.1
      exact Or.inr (Or.inl ⟨h_nonneg, h_range.2⟩)
    · -- what `uintM` accepts is not rejected
      obtain ⟨b', h_extends⟩ := @ByteBuffer.exists_extends b (word v) (by rwa [length_word])
      have h_not : ¬UIntTypeConverter.Accepts size v := fun h_accepts =>
        (h_reject h_range).not_ok b'
          ((UIntTypeConverter.serialiseType_eq_ok size.2.2.1).mpr ⟨h_accepts, h_extends⟩)
      unfold UIntTypeConverter.Accepts at h_not
      omega
  · obtain ⟨b', h_extends⟩ := @ByteBuffer.exists_extends b (word v) (by rwa [length_word])
    have h_accepts : UIntTypeConverter.Accepts size v := by
      unfold UIntTypeConverter.Accepts
      omega
    exact ⟨b', (UIntTypeConverter.serialiseType_eq_ok size.2.2.1).mpr ⟨h_accepts, h_extends⟩,
      h_extends⟩
  · apply UIntTypeConverter.serialiseType_fails
    unfold UIntTypeConverter.Accepts
    omega

theorem getTypeConverter_INT :
    TypeConverterManagerImpl.getTypeConverter INT = .ok ⟨_, .uint ⟨256, by decide⟩⟩ :=
  (TypeConverterManagerImpl.getTypeConverter_elementary_eq_ok (.nil INT)
    (@ElementaryName.int _ [] ⟨256, by decide⟩ (Or.inl ⟨rfl, rfl⟩))).mpr ⟨by decide, rfl⟩

/-- A positive `int`. -/
theorem serialisesSigned_one : SerialisesSigned ⟨_, .uint ⟨256, by decide⟩⟩ 256 1 :=
  (@serialisesSigned_iff [] _ _ (Or.inl ⟨rfl, rfl⟩) getTypeConverter_INT 1).mpr
    (Or.inr (Or.inl ⟨by decide, by decide⟩))

/-- No negative number is sent as an `int`. -/
theorem not_serialisesSigned_neg : ¬∀ converter,
    TypeConverterManagerImpl.getTypeConverter INT = .ok converter →
      SerialisesSigned converter 256 (-1) := by
  intro h_all
  obtain ⟨b, h_room⟩ := exists_room
  obtain ⟨b', h_ok, -⟩ := ((h_all _ getTypeConverter_INT) b h_room).1 ⟨by decide, by decide⟩
  have h_fails : Fails (UIntTypeConverter.serialiseType 256 b (-1)) :=
    @UIntTypeConverter.serialiseType_fails ⟨256, by decide⟩ b (-1) fun h => absurd h.1 (by decide)
  exact h_fails.not_ok b' h_ok

end Ethiso.Abi
