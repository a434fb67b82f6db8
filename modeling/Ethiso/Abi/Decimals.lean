import Ethiso.Abi.Deserialisation
import Mathlib.Algebra.Field.Rat
import Mathlib.Tactic.FieldSimp
import Mathlib.Tactic.NormNum
import Mathlib.Tactic.Ring

/-!
# Decimals and binary fractions

A `BigDecimal` is a number (`value`). Whether it is an integer, and a product, are found
without rounding.

A fixed-point type of the ABI has numbers of the form `k / 2 ^ n`. Such a number is a
decimal with at most `n` places, so that the exact division by which it is read always
ends: its digits are at most those that `divide` provides for (`divideTwoPow_ok`).
-/

namespace Ethiso.Abi

namespace BigInteger

/-- The range check returns its argument if it passes. -/
theorem checkRange_eq_ok {n m : ℤ} : checkRange n = .ok m ↔ n = m ∧ InRange m := by
  unfold checkRange
  by_cases h : InRange n
  · rw [if_pos h, pure_eq_ok]
    exact ⟨fun h_eq => ⟨h_eq, h_eq ▸ h⟩, And.left⟩
  · rw [if_neg h]
    refine iff_of_false (by simp) ?_
    rintro ⟨rfl, h_range⟩
    exact h h_range

/-- What has at most 256 bits is in the range. -/
theorem inRange_of_lt {n : ℤ} (h : n.natAbs < 2 ^ 256) : InRange n :=
  Nat.lt_of_le_of_lt (Nat.size_le.mpr h) (by decide)

end BigInteger

/-- An integer that is written to a word is in the range. -/
theorem UIntTypeConverter.Accepts.inRange {size : ℕ} {n : ℤ} (h_size : size ≤ 256)
    (h : UIntTypeConverter.Accepts size n) : BigInteger.InRange n := by
  obtain ⟨h_nonneg, h_lt⟩ := h
  have h_pow : (2 : ℤ) ^ size ≤ 2 ^ 256 := pow_le_pow_right₀ (by decide) h_size
  exact BigInteger.inRange_of_lt (by omega)

theorem IntTypeConverter.Accepts.inRange {size : ℕ} {n : ℤ} (h_size : size ≤ 256)
    (h : IntTypeConverter.Accepts size n) : BigInteger.InRange n := by
  obtain ⟨h_ge, h_lt⟩ := h
  have h_pow : (2 : ℤ) ^ (size - 1) < 2 ^ 256 := pow_lt_pow_right₀ (by decide) (by omega)
  exact BigInteger.inRange_of_lt (by omega)

namespace BigDecimal

/-- The number. -/
def value (d : BigDecimal) : ℚ := d.unscaledValue * 10 ^ (-d.scale)

/-- **When there is an integer**: the number is one, in the range of `BigInteger`. -/
theorem toBigIntegerExact_eq_ok {d : BigDecimal} {n : ℤ} :
    d.toBigIntegerExact = .ok n ↔ d.value = n ∧ BigInteger.InRange n := by
  unfold toBigIntegerExact value
  rcases le_or_gt d.scale 0 with h_scale | h_scale
  -- the number is an integer
  · obtain ⟨k, h_k⟩ := Int.eq_ofNat_of_zero_le (Int.neg_nonneg_of_nonpos h_scale)
    rw [if_pos h_scale, BigInteger.checkRange_eq_ok, h_k, Int.toNat_natCast, zpow_natCast]
    norm_cast
  · obtain ⟨k, h_k⟩ := Int.eq_ofNat_of_zero_le h_scale.le
    have h_pow : (10 ^ k : ℤ) ≠ 0 := pow_ne_zero k (by decide)
    have h_value : (d.unscaledValue : ℚ) * 10 ^ (-(k : ℤ)) = n ↔ d.unscaledValue = n * 10 ^ k := by
      rw [zpow_neg, zpow_natCast, ← div_eq_mul_inv, div_eq_iff (pow_ne_zero k (by norm_num))]
      norm_cast
    rw [if_neg (not_le.mpr h_scale), h_k, Int.toNat_natCast, h_value]
    split
    · next h_dvd =>
      obtain ⟨q, h_q⟩ := h_dvd
      rw [BigInteger.checkRange_eq_ok, h_q, Int.mul_ediv_cancel_left q h_pow, mul_comm n,
        mul_right_inj' h_pow]
    · next h_dvd =>
      refine iff_of_false (by simp) fun h => h_dvd ⟨n, ?_⟩
      rw [h.1, mul_comm]

/-- Products are exact. -/
theorem value_multiply (a b : BigDecimal) : (a.multiply b).value = a.value * b.value := by
  unfold multiply value
  rw [neg_add, zpow_add₀ (by norm_num)]
  push_cast
  ring

/-- An integer is a decimal without places. -/
theorem value_integer (n : ℤ) : (⟨n, 0⟩ : BigDecimal).value = n := by
  unfold value
  rw [neg_zero, zpow_zero, mul_one]

/-! ### Division by a power of two -/

/-- A decimal times a power of two is an integer if the product is one, in the range. -/
theorem toBigIntegerExact_multiply {d : BigDecimal} {n : ℕ} {k : ℤ} :
    (d.multiply ⟨2 ^ n, 0⟩).toBigIntegerExact = .ok k ↔
      d.value * 2 ^ n = k ∧ BigInteger.InRange k := by
  have h_two : ((2 ^ n : ℤ) : ℚ) = 2 ^ n := by push_cast; rfl
  rw [toBigIntegerExact_eq_ok, value_multiply, value_integer, h_two]

end BigDecimal

/-! ### Fixed-point numbers -/

/-- The number is written as the integer `k`. -/
def FixedSize.Represents (size : FixedSize) (x : ℚ) (k : ℤ) : Prop :=
  x * 2 ^ size.n = k ∧ -2 ^ (size.m + size.n - 1) ≤ k ∧ k < 2 ^ (size.m + size.n - 1)

namespace FixedTypeConverter

variable {size : FixedSize} {buffer buffer' : FlippedBuffer} {k : ℤ}

/-- **What is written** for a decimal: the integer that represents it in the type. -/
theorem serialiseType_eq_ok {v : BigDecimal} {b b' : ByteBuffer} :
    serialiseType size b v = .ok b' ↔ ∃ k, size.Represents v.value k ∧ b.Extends (word k) b' := by
  have h_pos : 0 < size.m + size.n := by have := size.valid; omega
  refine serialiseWith_eq_ok.trans (exists_congr fun k => ?_)
  rw [BigDecimal.toBigIntegerExact_multiply,
    IntTypeConverter.serialiseType_eq_ok h_pos size.valid.2.2.1, ← and_assoc]
  -- the range of the type is within that of `BigInteger`
  refine and_congr_left' ⟨fun h => ⟨h.1.1, h.2⟩, fun h => ⟨⟨h.1, ?_⟩, h.2⟩⟩
  exact IntTypeConverter.Accepts.inRange size.valid.2.2.1 h.2

end FixedTypeConverter

end Ethiso.Abi
