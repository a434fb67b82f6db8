import Mathlib.Data.Nat.Digits.Lemmas

/-!
# Numerals of a fixed width, most significant digit first

Mathlib writes the digits of a number least significant first and pads them at
the end (`Nat.digitsAppend`). Data formats write them the other way round and pad
at the front. `bigEndian` is that form and `ofBigEndian` reads it back; each
undoes the other on the numbers that fit the width.

Two numerals of one width and one value are equal (`ofBigEndian_injective`), so
that a numeral that was put together in some roundabout way is identified by its
width and its value (`eq_bigEndian`).
-/

namespace Ethiso

/-- The digits of `n` in base `b`, padded with zeros in front to the width `w`. -/
def bigEndian (b w n : ℕ) : List ℕ := (b.digitsAppend w n).reverse

/-- The number that a list of digits denotes. -/
def ofBigEndian (b : ℕ) (l : List ℕ) : ℕ := Nat.ofDigits b l.reverse

section BigEndian

variable {b w n : ℕ} {l l' : List ℕ}

/-! ### Reading -/

@[simp] theorem ofBigEndian_cons : ofBigEndian b (n :: l) = n * b ^ l.length + ofBigEndian b l := by
  unfold ofBigEndian
  rw [List.reverse_cons, Nat.ofDigits_append, Nat.ofDigits_singleton, List.length_reverse]
  ring

/-- Zeros in front do not count. -/
@[simp] theorem ofBigEndian_replicate_append (k : ℕ) :
    ofBigEndian b (List.replicate k 0 ++ l) = ofBigEndian b l := by
  unfold ofBigEndian
  rw [List.reverse_append, List.reverse_replicate, Nat.ofDigits_append_replicate_zero]

/-- The digits of a number with `l.length` places are below the power. -/
theorem ofBigEndian_lt (hb : 1 < b) (hl : ∀ d ∈ l, d < b) : ofBigEndian b l < b ^ l.length := by
  unfold ofBigEndian
  rw [← List.length_reverse]
  exact Nat.ofDigits_lt_base_pow_length hb fun d hd => hl d (List.mem_reverse.mp hd)

/-- A numeral with a digit other than zero in front is as long as its value asks for. -/
theorem length_le_of_ofBigEndian_lt (hb : 1 < b) (h_front : n ≠ 0)
    (h : ofBigEndian b (n :: l) < b ^ w) : (n :: l).length ≤ w := by
  rw [ofBigEndian_cons] at h
  have h_one : b ^ l.length ≤ n * b ^ l.length :=
    Nat.le_mul_of_pos_left _ (Nat.pos_of_ne_zero h_front)
  have h_lt : b ^ l.length < b ^ w := by omega
  exact (Nat.pow_lt_pow_iff_right hb).mp h_lt

/-! ### Writing -/

@[simp] theorem length_bigEndian (hb : 1 < b) (hn : n < b ^ w) : (bigEndian b w n).length = w := by
  unfold bigEndian
  rw [List.length_reverse, Nat.length_digitsAppend hb w hn]

theorem lt_of_mem_bigEndian (hb : 1 < b) {d : ℕ} (hd : d ∈ bigEndian b w n) : d < b :=
  Nat.lt_of_mem_digitsAppend hb w d (List.mem_reverse.mp hd)

/-- Reading a numeral gives the number back. -/
@[simp] theorem ofBigEndian_bigEndian : ofBigEndian b (bigEndian b w n) = n := by
  unfold ofBigEndian bigEndian
  rw [List.reverse_reverse, Nat.digitsAppend, Nat.ofDigits_append_replicate_zero,
    Nat.ofDigits_digits]

/-- Digits of one length are determined by their number. -/
theorem ofBigEndian_injective (hb : 1 < b) (hl : ∀ d ∈ l, d < b) (hl' : ∀ d ∈ l', d < b)
    (h_len : l.length = l'.length) (h : ofBigEndian b l = ofBigEndian b l') : l = l' := by
  refine List.reverse_injective (Nat.ofDigits_inj_of_len_eq hb (by simpa using h_len) ?_ ?_ h)
  · exact fun d hd => hl d (List.mem_reverse.mp hd)
  · exact fun d hd => hl' d (List.mem_reverse.mp hd)

/-- A numeral is determined by its width and its value. -/
theorem eq_bigEndian (hb : 1 < b) (hl : ∀ d ∈ l, d < b) :
    l = bigEndian b l.length (ofBigEndian b l) := by
  refine ofBigEndian_injective hb hl (fun d => lt_of_mem_bigEndian hb) ?_ ofBigEndian_bigEndian.symm
  rw [length_bigEndian hb (ofBigEndian_lt hb hl)]

end BigEndian

end Ethiso
