import Ethiso.Abi.Serialisation
import Ethiso.Abi.TypeConverterManager

/-!
# Numerals and attempts

The factories try to read the name of a type. An attempt returns, or ends with an
`IllegalArgumentException`, which `supported` catches (`Regular`).

The numerals that they read are the decimal ones, with any number of zeros in front (`Digits`).
`Integer.parseInt` also takes a plus sign, `Integer.parseUnsignedInt` is not given any. Both are
stated for positive numbers, as all sizes are.
-/

namespace Ethiso.Abi

/-! ### Numerals -/

/-- A decimal numeral of `n`. There may be zeros in front. -/
def Digits (s : List Char) (n : ℕ) : Prop :=
  ∃ ds, ds ≠ [] ∧ (∀ d ∈ ds, d < 10) ∧ s = ds.map Nat.digitChar ∧ ofBigEndian 10 ds = n

/-- A decimal digit is none of the signs and separators of a type name. -/
theorem digitChar_ne {d : ℕ} (h : d < 10) :
    d.digitChar ≠ '-' ∧ d.digitChar ≠ '+' ∧ d.digitChar ≠ '[' ∧ d.digitChar ≠ ']' ∧
      d.digitChar ≠ 'x' := by
  interval_cases d <;> decide

/-- The decimal numeral of a number is read as that number. -/
theorem digits_numeral (n : ℕ) : Digits (numeral 10 n) n := by
  by_cases h : n = 0
  · -- zero has no digits, but a numeral
    subst h
    exact ⟨[0], List.cons_ne_nil 0 [], by simp, rfl, rfl⟩
  · refine ⟨(Nat.digits 10 n).reverse, ?_, ?_, if_neg h, ?_⟩
    · exact List.reverse_ne_nil_iff.mpr (Nat.digits_ne_nil_iff_ne_zero.mpr h)
    · intro d h_d
      exact Nat.digits_lt_base (by decide) (List.mem_reverse.mp h_d)
    · rw [ofBigEndian, List.reverse_reverse]
      exact Nat.ofDigits_digits 10 n

/-- The digits with a value in base ten. -/
theorem digit_ten {c : Char} {d : ℕ} : digit 10 c = some d ↔ d < 10 ∧ c = d.digitChar := by
  refine ⟨?_, ?_⟩
  · intro h
    have h_table : ∀ k < 128, ∀ d < 10, digit 10 (Char.ofNat k) = some d →
        Char.ofNat k = d.digitChar := by decide +kernel
    exact ⟨digit_lt h, of_digit (P := fun c d => c = d.digitChar) h_table h⟩
  · rintro ⟨h, rfl⟩
    interval_cases d <;> rfl

/-- A list of characters has digit values exactly if it is the characters of these. -/
theorem mapM_digit {s : List Char} {ds : List ℕ} :
    s.mapM (digit 10) = some ds ↔ (∀ d ∈ ds, d < 10) ∧ s = ds.map Nat.digitChar := by
  induction s generalizing ds with
  | nil =>
    rw [List.mapM_nil, Option.pure_def, Option.some.injEq]
    refine ⟨?_, ?_⟩
    · rintro rfl
      exact ⟨by simp, rfl⟩
    · rintro ⟨-, h⟩
      exact (List.map_eq_nil_iff.mp h.symm).symm
  | cons c s ih =>
    rw [List.mapM_cons]
    simp only [Option.bind_eq_bind, Option.bind_eq_some_iff, Option.pure_def, Option.some.injEq,
      digit_ten, ih]
    refine ⟨?_, ?_⟩
    -- the first character is a digit and the rest are
    · rintro ⟨d, ⟨h_d, rfl⟩, ds, ⟨h_ds, rfl⟩, rfl⟩
      exact ⟨List.forall_mem_cons.mpr ⟨h_d, h_ds⟩, rfl⟩
    · rintro ⟨h_ds, h_eq⟩
      obtain ⟨d, ds, rfl, rfl, rfl⟩ := List.map_eq_cons_iff.mp h_eq.symm
      rw [List.forall_mem_cons] at h_ds
      exact ⟨d, ⟨h_ds.1, rfl⟩, ds, ⟨h_ds.2, rfl⟩, rfl⟩

/-- **Reading digits**: `parseDigits` reads the numerals of numbers and nothing else. -/
theorem parseDigits_eq_ok {s : List Char} {n : ℕ} : parseDigits 10 s = .ok n ↔ Digits s n := by
  unfold parseDigits Digits
  split
  · next ds h =>
    obtain ⟨h_lt, rfl⟩ := mapM_digit.mp h
    split
    -- the empty string is no numeral
    · next h_nil =>
      subst h_nil
      apply iff_of_false (by simp)
      rintro ⟨ds, h_ne, -, h_eq, -⟩
      exact h_ne (List.map_eq_nil_iff.mp h_eq.symm)
    · next h_nil =>
      rw [pure_eq_ok]
      refine ⟨fun h_n => ⟨ds, h_nil, h_lt, rfl, h_n⟩, ?_⟩
      rintro ⟨ds', -, h_lt', h_eq, h_n⟩
      have h_same := mapM_digit.mpr ⟨h_lt', h_eq⟩
      rw [h, Option.some.injEq] at h_same
      rw [h_same, h_n]
  · next h =>
    apply iff_of_false (by simp)
    rintro ⟨ds, -, h_lt, h_eq, -⟩
    rw [mapM_digit.mpr ⟨h_lt, h_eq⟩] at h
    cases h

section Digits

variable {s : List Char} {n m : ℕ}

/-- A list of digits is read as one number. -/
theorem Digits.unique (h : Digits s n) (h' : Digits s m) : n = m :=
  Except.ok.inj ((parseDigits_eq_ok.mpr h).symm.trans (parseDigits_eq_ok.mpr h'))

theorem Digits.ne_nil (h : Digits s n) : s ≠ [] := by
  obtain ⟨ds, h_ne, -, rfl, -⟩ := h
  exact fun h_nil => h_ne (List.map_eq_nil_iff.mp h_nil)

/-- There are only digits in a numeral. -/
theorem Digits.notMem (h : Digits s n) : '-' ∉ s ∧ '+' ∉ s ∧ '[' ∉ s ∧ ']' ∉ s ∧ 'x' ∉ s := by
  obtain ⟨ds, -, h_lt, rfl, -⟩ := h
  have h_ne {c : Char} (h_c : ∀ d < 10, Nat.digitChar d ≠ c) : c ∉ ds.map Nat.digitChar := by
    intro h_mem
    obtain ⟨d, h_d, h_eq⟩ := List.mem_map.mp h_mem
    exact h_c d (h_lt d h_d) h_eq
  exact ⟨h_ne fun d hd => (digitChar_ne hd).1, h_ne fun d hd => (digitChar_ne hd).2.1,
    h_ne fun d hd => (digitChar_ne hd).2.2.1, h_ne fun d hd => (digitChar_ne hd).2.2.2.1,
    h_ne fun d hd => (digitChar_ne hd).2.2.2.2⟩

theorem Digits.not_plus (h : Digits s n) : ¬['+'].isPrefixOf s = true := by
  intro h_plus
  obtain ⟨d, rfl⟩ := List.isPrefixOf_iff_prefix.mp h_plus
  exact h.notMem.2.1 List.mem_cons_self

end Digits

/-! ### Attempts -/

/-- The attempt ends with an exception that `supported` catches. -/
def Fails {α : Type} (attempt : Java α) : Prop :=
  ∃ e, attempt = .error e ∧ e.isIllegalArgument = true

/-- The attempt returns, or ends with such an exception. -/
def Regular {α : Type} (attempt : Java α) : Prop := (∃ x, attempt = .ok x) ∨ Fails attempt

section Attempts

variable {α β : Type} {attempt : Java α}

theorem Fails.not_ok (h : Fails attempt) (x : α) : attempt ≠ .ok x := by
  obtain ⟨e, rfl, -⟩ := h
  simp

/-- What follows a failure is not reached. -/
theorem Fails.bind (h : Fails attempt) (f : α → Java β) : Fails (attempt >>= f) := by
  obtain ⟨e, rfl, h_e⟩ := h
  exact ⟨e, rfl, h_e⟩

theorem regular_ok (x : α) : Regular (.ok x : Java α) := Or.inl ⟨x, rfl⟩

theorem regular_throw {e : JavaException} (h : e.isIllegalArgument = true) :
    Regular (throw e : Java α) := Or.inr ⟨e, rfl, h⟩

/-- **Sequencing**: it throws nothing unexpected if its parts do not. -/
theorem Regular.bind {f : α → Java β} (h : Regular attempt) (h_f : ∀ x, Regular (f x)) :
    Regular (attempt >>= f) := by
  rcases h with ⟨x, rfl⟩ | h
  · exact h_f x
  · exact Or.inr (h.bind f)

theorem Regular.map {f : α → β} (h : Regular attempt) : Regular (attempt.map f) := by
  rcases h with ⟨x, rfl⟩ | ⟨e, rfl, h_e⟩
  · exact regular_ok (f x)
  · exact Or.inr ⟨e, rfl, h_e⟩

/-- A case on a proof of the condition. -/
theorem Regular.dite {p : Prop} [Decidable p] {f : p → Java α} {f' : ¬p → Java α}
    (h : ∀ h_p, Regular (f h_p)) (h' : ∀ h_p, Regular (f' h_p)) : Regular (dite p f f') := by
  split
  · exact h _
  · exact h' _

/-- A case on the condition. -/
theorem Regular.ite {p : Prop} [Decidable p] {attempt' : Java α} (h : Regular attempt)
    (h' : Regular attempt') : Regular (if p then attempt else attempt') := by
  split
  · exact h
  · exact h'

/-- What is done after a check. -/
theorem Regular.guard {p : Prop} [Decidable p] {e : JavaException} (h : Regular attempt)
    (h_e : e.isIllegalArgument = true) :
    Regular (if p then (throw e : Java β) >>= fun _ => attempt else attempt) :=
  Regular.ite ((regular_throw h_e).bind fun _ => h) h

/-- A test that throws is passed if its condition is false. -/
theorem guard_eq_ok {p : Prop} [Decidable p] {e : JavaException} {x : α} :
    (if p then (throw e : Java β) >>= fun _ => attempt else attempt) = .ok x ↔
      ¬p ∧ attempt = .ok x := by
  split
  · next h => exact iff_of_false (by simp [bind_eq_ok]) fun h' => h'.1 h
  · next h => exact (and_iff_right h).symm

/-- Failing to make a converter means not supporting the type. -/
theorem supported_of_fails (h : Fails attempt) : supported attempt = .ok false := by
  obtain ⟨e, rfl, h_e⟩ := h
  exact if_pos h_e

theorem supported_of_ok {x : α} (h : attempt = .ok x) : supported attempt = .ok true := by
  rw [h]
  rfl

/-- Whether a type is supported is always answered. -/
theorem Regular.supported (h : Regular attempt) : ∃ b, supported attempt = .ok b := by
  rcases h with ⟨x, h⟩ | h
  · exact ⟨true, supported_of_ok h⟩
  · exact ⟨false, supported_of_fails h⟩

end Attempts

/-! ### Reading numerals -/

theorem map_eq_ok {α β : Type} {attempt : Java α} {f : α → β} {y : β} :
    attempt.map f = .ok y ↔ ∃ x, attempt = .ok x ∧ f x = y := by
  cases attempt <;> simp [Except.map]

/-- Reading digits throws only `NumberFormatException`. -/
theorem parseDigits_regular (s : List Char) : Regular (parseDigits 10 s) := by
  unfold parseDigits
  split
  · split
    · exact regular_throw rfl
    · exact regular_ok _
  · exact regular_throw rfl

theorem parseInt_regular (s : List Char) : Regular (parseInt 10 s) := by
  have h_check : ∀ n : ℤ, Regular (if -2 ^ 31 ≤ n ∧ n < 2 ^ 31 then return n
      else throw .numberFormat : Java ℤ) := fun n => Regular.ite (regular_ok n) (regular_throw rfl)
  unfold parseInt
  dsimp only
  split
  · exact (((parseDigits_regular _).bind fun n => regular_ok _).map).bind h_check
  · exact (parseDigits_regular _).map.bind h_check
  · exact (parseDigits_regular _).map.bind h_check

theorem parseUnsignedInt_regular (s : List Char) : Regular (parseUnsignedInt s) := by
  have h_check : ∀ n : ℤ, Regular (if n < 2 ^ 32 then return n.bmod (2 ^ 32)
      else throw .numberFormat : Java ℤ) := fun n => Regular.ite (regular_ok _) (regular_throw rfl)
  unfold parseUnsignedInt
  dsimp only
  split
  · exact (regular_throw rfl).bind h_check
  · exact (parseDigits_regular _).map.bind h_check
  · exact (parseDigits_regular _).map.bind h_check

/-- A positive number is read from a numeral, with or without a plus sign. -/
theorem parseInt_eq_ok {s : List Char} {n : ℕ} (h_pos : 0 < n) :
    parseInt 10 s = .ok (n : ℤ) ↔
      n < 2 ^ 31 ∧ (Digits s n ∨ ∃ digits, s = '+' :: digits ∧ Digits digits n) := by
  have h_check : ∀ k : ℤ, (if -2 ^ 31 ≤ k ∧ k < 2 ^ 31 then return k else throw .numberFormat) =
      (.ok (n : ℤ) : Java ℤ) ↔ k = n ∧ n < 2 ^ 31 := by
    intro k
    split
    · next h_k =>
      rw [pure_eq_ok]
      exact ⟨fun h => ⟨h, by omega⟩, fun h => h.1⟩
    · next h_k =>
      rw [throw_eq_ok]
      exact iff_of_false not_false fun h => h_k ⟨by omega, by omega⟩
  have h_digits : ∀ digits, ((parseDigits 10 digits).map Int.ofNat >>= fun k =>
      if -2 ^ 31 ≤ k ∧ k < 2 ^ 31 then return k else throw .numberFormat) = .ok (n : ℤ) ↔
      n < 2 ^ 31 ∧ Digits digits n := by
    intro digits
    simp only [bind_eq_ok, map_eq_ok, h_check, parseDigits_eq_ok]
    refine ⟨?_, fun h => ⟨n, ⟨n, h.2, rfl⟩, rfl, h.1⟩⟩
    rintro ⟨k, ⟨m, h_m, rfl⟩, h_k, h_lt⟩
    obtain rfl := Int.ofNat.inj h_k
    exact ⟨h_lt, h_m⟩
  unfold parseInt
  dsimp only
  split
  · next digits =>
    -- what has a minus sign is not positive
    refine iff_of_false (fun h => ?_) ?_
    · obtain ⟨k, h_k, h_n⟩ := bind_eq_ok.mp h
      obtain ⟨m, h_m, rfl⟩ := map_eq_ok.mp h_k
      obtain ⟨l, -, h_l⟩ := bind_eq_ok.mp h_m
      obtain rfl := pure_eq_ok.mp h_l
      have h_neg := ((h_check _).mp h_n).1
      omega
    · rintro ⟨-, h | ⟨_, h, -⟩⟩
      · exact h.notMem.1 List.mem_cons_self
      · cases h
  · next digits =>
    -- the plus sign is not a digit
    rw [h_digits]
    refine and_congr_right fun _ => ⟨fun h => Or.inr ⟨digits, rfl, h⟩, ?_⟩
    rintro (h | ⟨_, h_eq, h⟩)
    · exact absurd List.mem_cons_self h.notMem.2.1
    · cases h_eq
      exact h
  · next h_minus h_plus =>
    rw [h_digits]
    refine and_congr_right fun _ => ⟨Or.inl, ?_⟩
    rintro (h | ⟨digits, rfl, -⟩)
    · exact h
    · exact absurd rfl (h_plus digits)

/-- A positive number is read from a numeral without sign. -/
theorem parseUnsignedInt_eq_ok {s : List Char} {n : ℕ} (h_pos : 0 < n)
    (h_plus : ¬['+'].isPrefixOf s = true) :
    parseUnsignedInt s = .ok (n : ℤ) ↔ n < 2 ^ 31 ∧ Digits s n := by
  have h_check : ∀ k : ℕ, (if (k : ℤ) < 2 ^ 32 then return (k : ℤ).bmod (2 ^ 32)
      else throw .numberFormat) = (.ok (n : ℤ) : Java ℤ) ↔ k = n ∧ n < 2 ^ 31 := by
    intro k
    split
    · next h_k =>
      -- numbers from 2^31 on become negative
      rw [pure_eq_ok, Int.bmod_def]
      constructor <;> omega
    · next h_k =>
      rw [throw_eq_ok]
      exact iff_of_false not_false fun h => h_k (by omega)
  unfold parseUnsignedInt
  dsimp only
  split
  · next digits =>
    refine iff_of_false (fun h => ?_) fun h => h.2.notMem.1 List.mem_cons_self
    cases h
  · next digits => exact absurd rfl h_plus
  · simp only [bind_eq_ok, map_eq_ok, parseDigits_eq_ok]
    refine ⟨?_, fun h => ⟨n, ⟨n, h.2, rfl⟩, (h_check n).mpr ⟨rfl, h.1⟩⟩⟩
    rintro ⟨k, ⟨m, h_m, rfl⟩, h_k⟩
    obtain ⟨rfl, h_lt⟩ := (h_check m).mp h_k
    exact ⟨h_lt, h_m⟩

end Ethiso.Abi
