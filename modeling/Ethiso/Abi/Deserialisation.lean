import Ethiso.Abi.Serialisation

/-!
# Reading back what was written

A converter that wrote a value reads it back from the same bytes, wherever they stand,
and goes on right behind them (`Reads`). The value it returns is the one that was
written up to the case of the hex digits of addresses (`SameValue`).

There are two exceptions, so that this holds of the `Readable` values: a `uint256` is
read as a signed number, and a string that is not well-formed Unicode has been changed
when it was written. Fixed-point numbers are left out here.
-/

namespace Ethiso.Abi

/-- Reading the bytes gives the value, and the position is behind them. -/
def Reads {α : Type} (deserialise : FlippedBuffer → Java (α × FlippedBuffer))
    (bytes : List UInt8) (value : α) : Prop :=
  ∀ before rest mark, deserialise ⟨before, bytes ++ rest, mark⟩ =
    .ok (value, ⟨before ++ bytes, rest, mark⟩)

/-- What is in front of the buffer is read first. -/
theorem get_append {bytes : List UInt8} {length : ℕ} (h : bytes.length = length)
    (before rest : List UInt8) (mark : Option ℕ) :
    FlippedBuffer.get ⟨before, bytes ++ rest, mark⟩ length =
      .ok (bytes, ⟨before ++ bytes, rest, mark⟩) := by
  unfold FlippedBuffer.get
  dsimp only
  rw [if_neg (by simp [h]), List.take_left' h, List.drop_left' h]
  rfl

/-! ### Integers -/

/-- A word is read as a signed number. -/
theorem ofByteArray_word {n : ℤ} (h : -2 ^ 255 ≤ n ∧ n < 2 ^ 255) :
    BigInteger.ofByteArray (word n) = n := by
  have h_value := unsignedValue_word n
  unfold unsignedValue at h_value
  unfold BigInteger.ofByteArray
  dsimp only
  rw [h_value, length_word]
  split_ifs <;> omega

section Integers

variable {size : ℕ} {n : ℤ}

/-- A number below `2 ^ 255` is read from its word. -/
theorem UIntTypeConverter.reads (h : UIntTypeConverter.Accepts size n) (h_255 : n < 2 ^ 255) :
    Reads (UIntTypeConverter.deserialise size) (word n) n := by
  intro before rest mark
  have h_bits : BigInteger.bitLength n ≤ size :=
    BigInteger.bitLength_le_iff.mpr ⟨by have := h.1; have := h.2; omega, h.2⟩
  unfold UIntTypeConverter.deserialise
  refine bind_eq_ok.mpr ⟨_, get_append (length_word n) before rest mark, ?_⟩
  dsimp only
  rw [ofByteArray_word ⟨by have := h.1; omega, h_255⟩, if_neg (by omega)]
  rfl

/-- A number with a sign is read from its word. -/
theorem IntTypeConverter.reads (h_pos : 0 < size) (h_size : size ≤ 256)
    (h : IntTypeConverter.Accepts size n) :
    Reads (IntTypeConverter.deserialise size) (word n) n := by
  intro before rest mark
  have h_bits : BigInteger.bitLength n ≤ size - 1 := BigInteger.bitLength_le_iff.mpr h
  have h_pow : (2 : ℤ) ^ (size - 1) ≤ 2 ^ 255 := pow_le_pow_right₀ (by norm_num) (by omega)
  unfold IntTypeConverter.deserialise
  refine bind_eq_ok.mpr ⟨_, get_append (length_word n) before rest mark, ?_⟩
  dsimp only
  rw [ofByteArray_word ⟨by have := h.1; omega, by have := h.2; omega⟩, if_neg]
  · rfl
  · split_ifs <;> omega

/-- A length that is an `int` is read as such. -/
theorem reads_length {length : ℕ} (h : length < 2 ^ 31) :
    Reads (UIntTypeConverter.deserialise 256) (word length) length :=
  UIntTypeConverter.reads ⟨by omega, by omega⟩ (by omega)

/-- An `int` is not changed by the conversion. -/
theorem intValue_of_lt {n : ℤ} (h : -2 ^ 31 ≤ n ∧ n < 2 ^ 31) : BigInteger.intValue n = n := by
  unfold BigInteger.intValue
  rw [Int.bmod_def]
  omega

end Integers

/-! ### Addresses -/

/-- Hex digits of one value differ in case only. -/
theorem toLower_of_digit {c : Char} {d : ℕ} (h : digit 16 c = some d) :
    c.toLower = d.digitChar := by
  have h_table : ∀ n < 128, ∀ d < 16, digit 16 (Char.ofNat n) = some d →
      (Char.ofNat n).toLower = d.digitChar := by decide +kernel
  exact of_digit (P := fun c d => c.toLower = d.digitChar) h_table h

/-- A digit is read back from its character. -/
theorem digit_digitChar {d : ℕ} (h : d < 16) : digit 16 d.digitChar = some d := by
  interval_cases d <;> rfl

/-- The values of hex digits, and the digits in lower case. -/
theorem map_toLower {digits : List Char} (h : ∀ c ∈ digits, (digit 16 c).isSome) :
    digits.map Char.toLower = (digits.filterMap (digit 16)).map Nat.digitChar := by
  induction digits with
  | nil => rfl
  | cons c digits ih =>
    rw [List.forall_mem_cons] at h
    obtain ⟨d, h_d⟩ := Option.isSome_iff_exists.mp h.1
    rw [List.filterMap_cons_some h_d, List.map_cons, List.map_cons, ih h.2, toLower_of_digit h_d]

theorem filterMap_digit_map {ds : List ℕ} (h : ∀ d ∈ ds, d < 16) :
    (ds.map Nat.digitChar).filterMap (digit 16) = ds := by
  induction ds with
  | nil => rfl
  | cons d ds ih =>
    rw [List.forall_mem_cons] at h
    rw [List.map_cons, List.filterMap_cons_some (digit_digitChar h.1), ih h.2]

/-- The numeral of a number, padded to a width, has its digits of this width. -/
theorem replicate_append_numeral {w n : ℕ} (h_pos : 0 < w) (h : n < 16 ^ w) :
    (numeral 16 n).length ≤ w ∧
      List.replicate (w - (numeral 16 n).length) '0' ++ numeral 16 n =
        (bigEndian 16 w n).map Nat.digitChar := by
  unfold numeral
  split_ifs with h_zero
  -- zero has the numeral of one digit
  · obtain ⟨w, rfl⟩ : ∃ k, w = k + 1 := ⟨w - 1, by omega⟩
    refine ⟨by simp, ?_⟩
    rw [h_zero]
    simpa [bigEndian, Nat.digitsAppend, Nat.digitChar] using
      (List.replicate_succ' (n := w) (a := '0')).symm
  · have h_len : (Nat.digits 16 n).length ≤ w := (Nat.digits_length_le_iff (by decide) n).mpr h
    refine ⟨by simpa using h_len, ?_⟩
    simp [bigEndian, Nat.digitsAppend, Nat.digitChar]

/-- Two numbers have two numerals. -/
theorem numeral_injective {n m : ℕ} (h : numeral 16 n = numeral 16 m) : n = m := by
  have h_lt {k : ℕ} : k < 16 ^ k := Nat.lt_pow_self (by decide)
  have h_n := (@replicate_append_numeral (n + m + 1) n (Nat.succ_pos _)
    (h_lt.trans_le (Nat.pow_le_pow_right (by decide) (by omega)))).2
  have h_m := (@replicate_append_numeral (n + m + 1) m (Nat.succ_pos _)
    (h_lt.trans_le (Nat.pow_le_pow_right (by decide) (by omega)))).2
  rw [h, h_m] at h_n
  -- the digits of one width are the same, and so are their values
  have h_digits := congrArg (List.filterMap (digit 16)) h_n
  rw [filterMap_digit_map fun d => lt_of_mem_bigEndian (by decide),
    filterMap_digit_map fun d => lt_of_mem_bigEndian (by decide)] at h_digits
  have h_value := congrArg (ofBigEndian 16) h_digits
  rw [ofBigEndian_bigEndian, ofBigEndian_bigEndian] at h_value
  exact h_value.symm

/-- Addresses that differ in the case of their digits only. -/
def RpcAddress.SameIgnoringCase (a b : RpcAddress) : Prop :=
  a.digits.map Char.toLower = b.digits.map Char.toLower

/-- The values of the digits. -/
theorem RpcAddress.digit_values (a : RpcAddress) :
    (∀ d ∈ a.digits.filterMap (digit 16), d < 16) ∧
      (a.digits.filterMap (digit 16)).length = 40 := by
  refine ⟨?_, ?_⟩
  · intro d hd
    obtain ⟨c, -, h_c⟩ := List.mem_filterMap.mp hd
    exact digit_lt h_c
  · have h_map := congrArg List.length (map_toLower a.hex)
    rw [List.length_map, List.length_map, a.length_eq] at h_map
    exact h_map.symm

/-- The address with its digits in lower case. -/
def RpcAddress.toLowerCase (a : RpcAddress) : RpcAddress where
  digits := a.digits.map Char.toLower
  length_eq := by rw [List.length_map, a.length_eq]
  hex := by
    intro c hc
    rw [map_toLower a.hex] at hc
    obtain ⟨d, hd, rfl⟩ := List.mem_map.mp hc
    rw [digit_digitChar (a.digit_values.1 d hd)]
    rfl

/-- An address is read with its digits in lower case. -/
theorem AddressTypeConverter.reads_toLowerCase (a : RpcAddress) :
    Reads AddressTypeConverter.deserialise (word (toBigInteger a)) a.toLowerCase := by
  have h_range := toBigInteger_lt a
  have h_lower : a.toLowerCase.digits =
      (a.digits.filterMap (digit 16)).map Nat.digitChar := map_toLower a.hex
  obtain ⟨h_digits, h_len⟩ := a.digit_values
  set ds := a.digits.filterMap (digit 16) with h_ds
  intro before rest mark
  have h_text := @replicate_append_numeral 40 (toBigInteger a).natAbs (by decide) (by omega)
  have h_value : (toBigInteger a).natAbs = ofBigEndian 16 ds := rfl
  have h_eq := @eq_bigEndian 16 ds (by decide) h_digits
  rw [h_len] at h_eq
  rw [h_value, ← h_eq, ← h_lower] at h_text
  unfold AddressTypeConverter.deserialise
  refine bind_eq_ok.mpr ⟨_, UIntTypeConverter.reads h_range (by omega) before rest mark, ?_⟩
  refine bind_eq_ok.mpr ⟨a.toLowerCase.digits, ?_, ?_⟩
  · have h_string : BigInteger.toString 16 (toBigInteger a) = numeral 16 (ofBigEndian 16 ds) :=
      if_neg (by omega)
    unfold pad
    rw [h_string, if_neg (by simpa [ZEROS] using h_text.1), pure_eq_ok, ZEROS,
      List.drop_replicate]
    exact h_text.2
  · refine bind_eq_ok.mpr ⟨a.toLowerCase, ?_, rfl⟩
    unfold RpcAddress.new
    exact dif_pos ⟨a.toLowerCase.length_eq, List.all_eq_true.mpr a.toLowerCase.hex⟩

/-- An address is read as the same one, up to the case of its digits. -/
theorem AddressTypeConverter.reads (a : RpcAddress) :
    ∃ a', Reads AddressTypeConverter.deserialise (word (toBigInteger a)) a' ∧
      a.SameIgnoringCase a' := by
  refine ⟨a.toLowerCase, reads_toLowerCase a, ?_⟩
  have h_lower : a.toLowerCase.digits = (a.digits.filterMap (digit 16)).map Nat.digitChar :=
    map_toLower a.hex
  unfold RpcAddress.SameIgnoringCase
  rw [map_toLower a.hex, map_toLower a.toLowerCase.hex, h_lower,
    filterMap_digit_map a.digit_values.1]

/-! ### Booleans and bytes -/

/-- A truth value is read from its word. -/
theorem BoolTypeConverter.reads (x : Bool) :
    Reads BoolTypeConverter.deserialise (word x.toInt) x := by
  intro before rest mark
  have h_word : Reads (UIntTypeConverter.deserialise 8) (word x.toInt) x.toInt :=
    UIntTypeConverter.reads (by cases x <;> exact ⟨by decide, by decide⟩) (by cases x <;> decide)
  unfold BoolTypeConverter.deserialise
  refine bind_eq_ok.mpr ⟨_, h_word before rest mark, ?_⟩
  cases x <;> rfl

open TypeConverterUtils

/-- Zeros are a padding. -/
theorem checkPadding_replicate (k size : ℕ) :
    checkPadding (List.replicate k 0) size = .ok () := by
  unfold checkPadding
  have h_none : (List.replicate k (0 : UInt8)).findIdx? (· ≠ 0) = none := by
    rw [List.findIdx?_eq_none_iff]
    intro b hb
    rw [List.eq_of_mem_replicate hb]
    rfl
  rw [h_none]
  rfl

/-- Bytes that fill a word are read without its padding. -/
theorem StaticBytesTypeConverter.reads {bytes : List UInt8} {size : ℕ} (h : bytes.length = size)
    (h_pos : 0 < size) (h_size : size ≤ 32) :
    Reads (StaticBytesTypeConverter.deserialise size) (padded bytes) bytes := by
  intro before rest mark
  have h_pad : (32 - bytes.length % 32) % 32 = 32 - size := by omega
  unfold StaticBytesTypeConverter.deserialise padded
  rw [h_pad, List.append_assoc]
  refine bind_eq_ok.mpr ⟨_, get_append h before _ mark, ?_⟩
  refine bind_eq_ok.mpr ⟨_, get_append List.length_replicate _ rest mark, ?_⟩
  refine bind_eq_ok.mpr ⟨_, checkPadding_replicate _ _, ?_⟩
  rw [List.append_assoc]
  rfl

/-- Bytes are read by their length. -/
theorem DynamicBytesTypeConverter.reads {bytes : List UInt8} (h : bytes.length < 2 ^ 31) :
    Reads DynamicBytesTypeConverter.deserialise (word bytes.length ++ padded bytes) bytes := by
  intro before rest mark
  unfold DynamicBytesTypeConverter.deserialise padded
  rw [List.append_assoc, List.append_assoc]
  refine bind_eq_ok.mpr ⟨_, reads_length h before _ mark, ?_⟩
  dsimp only
  rw [intValue_of_lt ⟨by omega, by omega⟩, if_neg (by omega)]
  refine bind_eq_ok.mpr ⟨_, get_append rfl _ _ mark, ?_⟩
  dsimp only [Int.toNat_natCast]
  -- whole words have no padding
  by_cases h_full : bytes.length % 32 = 0
  · rw [if_neg (not_not_intro h_full), h_full]
    simp
  · rw [if_pos h_full, Nat.mod_eq_of_lt (show 32 - bytes.length % 32 < 32 by omega)]
    refine bind_eq_ok.mpr ⟨_, get_append List.length_replicate _ rest mark, ?_⟩
    refine bind_eq_ok.mpr ⟨_, checkPadding_replicate _ _, ?_⟩
    simp only [List.append_assoc]
    rfl

/-- A string is read if it is well-formed. -/
theorem StringTypeConverter.reads {s : JavaString} (h : s.WellFormed)
    (h_len : s.getBytes.length < 2 ^ 31) :
    Reads StringTypeConverter.deserialise (word s.getBytes.length ++ padded s.getBytes) s := by
  intro before rest mark
  unfold StringTypeConverter.deserialise
  refine bind_eq_ok.mpr ⟨_, DynamicBytesTypeConverter.reads h_len before rest mark, ?_⟩
  dsimp only
  rw [JavaString.ofBytes_getBytes h]
  rfl

/-! ### Arrays -/

section Arrays

variable {α : Type} {deserialise : FlippedBuffer → Java (α × FlippedBuffer)} {L : α → List UInt8}
  {R : α → α → Prop} {value : List α}

/-- The components of an array are read one after the other. -/
theorem reads_all (h : ∀ x ∈ value, ∃ x', Reads deserialise (L x) x' ∧ R x x') :
    ∃ value', Reads (deserialiseAll deserialise value.length) (value.flatMap L) value' ∧
      List.Forall₂ R value value' := by
  induction value with
  | nil =>
    refine ⟨[], fun before rest mark => ?_, List.Forall₂.nil⟩
    rw [List.flatMap_nil, List.append_nil]
    rfl
  | cons x value ih =>
    rw [List.forall_mem_cons] at h
    obtain ⟨x', h_x, h_same⟩ := h.1
    obtain ⟨value', h_value, h_all⟩ := ih h.2
    refine ⟨x' :: value', fun before rest mark => ?_, List.Forall₂.cons h_same h_all⟩
    rw [List.flatMap_cons, List.append_assoc]
    -- the first component, and then the others behind it
    refine bind_eq_ok.mpr ⟨_, h_x before _ mark, ?_⟩
    refine bind_eq_ok.mpr ⟨_, h_value _ rest mark, ?_⟩
    dsimp only
    rw [List.append_assoc]
    rfl

/-- An array is read by its length. -/
theorem DynamicArrayTypeConverter.reads (h_len : value.length < 2 ^ 31)
    (h : ∀ x ∈ value, ∃ x', Reads deserialise (L x) x' ∧ R x x') :
    ∃ value', Reads (DynamicArrayTypeConverter.deserialise deserialise)
      (word value.length ++ value.flatMap L) value' ∧ List.Forall₂ R value value' := by
  obtain ⟨value', h_reads, h_all⟩ := reads_all h
  refine ⟨value', fun before rest mark => ?_, h_all⟩
  unfold DynamicArrayTypeConverter.deserialise
  rw [List.append_assoc]
  refine bind_eq_ok.mpr ⟨_, reads_length h_len before _ mark, ?_⟩
  dsimp only
  rw [intValue_of_lt ⟨by omega, by omega⟩, if_neg (by omega), Int.toNat_natCast]
  rw [← List.append_assoc]
  exact h_reads _ rest mark

end Arrays

/-! ### The tree -/

/-- The integers that are read back. -/
def ReadableInteger (n : ℤ) : Prop := n < 2 ^ 255

/-- The values that are read back: integers below `2 ^ 255` and well-formed strings. -/
def Readable : (c : JavaClass) → c.Value → Prop
  | .bigInteger, n => ReadableInteger n
  | .bigDecimal, _ => False
  | .string, s => JavaString.WellFormed s
  | .array c, value => ∀ x ∈ (show List c.Value from value), Readable c x
  | .address, _ => True
  | .boolean, _ => True
  | .byteArray, _ => True

/-- The same value, up to the case of the digits of addresses. -/
def SameValue : (c : JavaClass) → c.Value → c.Value → Prop
  | .address, a, a' => RpcAddress.SameIgnoringCase a a'
  | .array c, value, value' => List.Forall₂ (fun x x' => SameValue c x x') value value'
  | .boolean, value, value' => value = value'
  | .bigInteger, value, value' => value = value'
  | .bigDecimal, value, value' => value = value'
  | .byteArray, value, value' => value = value'
  | .string, value, value' => value = value'

section Lengths

variable {α : Type} {L : α → List UInt8} {l : List α}

theorem le_length_padded (bytes : List UInt8) : bytes.length ≤ (padded bytes).length := by
  unfold padded
  rw [List.length_append]
  exact Nat.le_add_right _ _

/-- A word in front makes at least 32 bytes. -/
theorem le_length_word_append (n : ℤ) (bytes : List UInt8) : 32 ≤ (word n ++ bytes).length := by
  rw [List.length_append, length_word]
  exact Nat.le_add_right _ _

/-- Components of a minimal length make an array of one. -/
theorem mul_le_length_flatMap {k : ℕ} (h : ∀ x ∈ l, k ≤ (L x).length) :
    l.length * k ≤ (l.flatMap L).length := by
  induction l with
  | nil => simp
  | cons x l ih =>
    rw [List.forall_mem_cons] at h
    rw [List.length_cons, Nat.succ_mul, List.flatMap_cons, List.length_append, Nat.add_comm]
    exact Nat.add_le_add h.1 (ih h.2)

/-- An array is at least as long as each component. -/
theorem length_le_flatMap {x : α} (h : x ∈ l) : (L x).length ≤ (l.flatMap L).length := by
  rw [List.flatMap_def]
  exact (List.sublist_flatten_of_mem (List.mem_map_of_mem h)).length_le

end Lengths

namespace TypeConverter

/-- The number of bytes in the head, not cut to an `int`. -/
def headWidth : {c : JavaClass} → TypeConverter c → ℕ
  | _, .staticArray component size => size * component.headWidth
  | _, _ => 32

/-- The head of every type takes a word or more. -/
theorem le_headWidth {c : JavaClass} (converter : TypeConverter c) : 32 ≤ converter.headWidth := by
  induction converter with
  | staticArray component size ih => exact ih.trans (Nat.le_mul_of_pos_left _ size.2.1)
  | _ => exact Nat.le_refl 32

/-- A number of a fixed-point type is written to one word. -/
theorem length_fixedWord {size : FixedSize} {value : BigDecimal} {n : ℤ}
    (h : (value.multiply ⟨2 ^ size.n, 0⟩).toBigIntegerExact = .ok n) :
    (fixedWord size value).length = 32 := by
  unfold fixedWord
  rw [h]
  exact length_word n

/-- Up to 32 bytes are written to one word. -/
theorem length_padded_of_le {bytes : List UInt8} (h_pos : 0 < bytes.length)
    (h : bytes.length ≤ 32) : (padded bytes).length = 32 := by
  unfold padded
  rw [List.length_append, List.length_replicate]
  omega

/-- An accepted value is written as at least so many bytes. -/
theorem headWidth_le {c : JavaClass} (converter : TypeConverter c) {value : c.Value}
    (h : converter.Accepts value) : converter.headWidth ≤ (converter.layout value).length := by
  induction converter with
  | address => exact (length_word _).ge
  | bool => exact (length_word _).ge
  | int size => exact (length_word _).ge
  | uint size => exact (length_word _).ge
  | fixed size =>
    obtain ⟨n, h_n, -⟩ := h
    exact (length_fixedWord h_n).ge
  | ufixed size =>
    obtain ⟨n, h_n, -⟩ := h
    exact (length_fixedWord h_n).ge
  | dynamicBytes => exact le_length_word_append _ _
  -- bytes that are not more than a word are padded to one
  | staticBytes size =>
    have h_len : List.length value = size := h
    exact (length_padded_of_le (h_len ▸ size.2.1) (h_len ▸ size.2.2)).ge
  | string => exact le_length_word_append _ _
  | dynamicArray component ih => exact le_length_word_append _ _
  | staticArray component size ih =>
    have h_array : StaticArrayTypeConverter.Accepts (fun x => component.Accepts x) size value := h
    have h_flat := mul_le_length_flatMap fun x hx => ih (h_array.2 x hx)
    rw [h_array.1] at h_flat
    exact h_flat

/-- **A converter reads back what it wrote**, if that is shorter than `2 ^ 31`. -/
theorem exists_reads {c : JavaClass} (converter : TypeConverter c) {value : c.Value}
    (h_acc : converter.Accepts value) (h_readable : Readable c value)
    (h_len : (converter.layout value).length < 2 ^ 31) :
    ∃ value', Reads converter.deserialise (converter.layout value) value' ∧
      SameValue c value value' := by
  induction converter with
  | address => exact AddressTypeConverter.reads value
  | bool => exact ⟨value, BoolTypeConverter.reads value, rfl⟩
  | int size => exact ⟨value, IntTypeConverter.reads size.2.1 size.2.2.1 h_acc, rfl⟩
  | uint size => exact ⟨value, UIntTypeConverter.reads h_acc h_readable, rfl⟩
  | fixed size => exact False.elim h_readable
  | ufixed size => exact False.elim h_readable
  | dynamicBytes =>
    have h_flat : (word (List.length value) ++ padded value).length < 2 ^ 31 := h_len
    have h_padded := le_length_padded value
    rw [List.length_append] at h_flat
    exact ⟨value, DynamicBytesTypeConverter.reads (by omega), rfl⟩
  | staticBytes size => exact ⟨value, StaticBytesTypeConverter.reads h_acc size.2.1 size.2.2, rfl⟩
  | string =>
    have h_flat : (word (JavaString.getBytes value).length ++
      padded (JavaString.getBytes value)).length < 2 ^ 31 := h_len
    have h_padded := le_length_padded (JavaString.getBytes value)
    rw [List.length_append] at h_flat
    exact ⟨value, StringTypeConverter.reads h_readable (by omega), rfl⟩
  | dynamicArray component ih =>
    have h_array : DynamicArrayTypeConverter.Accepts (fun x => component.Accepts x) value := h_acc
    have h_flat : (word (List.length value) ++
      List.flatMap (fun x => component.layout x) value).length < 2 ^ 31 := h_len
    -- an array has at most as many components as bytes
    have h_mul := mul_le_length_flatMap fun x hx => component.headWidth_le (h_array.2 x hx)
    have h_count := Nat.le_mul_of_pos_right (List.length value)
      (Nat.lt_of_lt_of_le (Nat.succ_pos 31) component.le_headWidth)
    rw [List.length_append] at h_flat
    apply DynamicArrayTypeConverter.reads (by omega)
    intro x hx
    have h_x := length_le_flatMap (L := fun x => component.layout x) hx
    exact ih (h_array.2 x hx) (h_readable x hx) (by omega)
  | staticArray component size ih =>
    have h_array : StaticArrayTypeConverter.Accepts (fun x => component.Accepts x) size value :=
      h_acc
    have h_flat : (List.flatMap (fun x => component.layout x) value).length < 2 ^ 31 := h_len
    have h_all := @reads_all _ component.deserialise component.layout (SameValue _) value
      fun x hx => ih (h_array.2 x hx) (h_readable x hx)
        (Nat.lt_of_le_of_lt (length_le_flatMap hx) h_flat)
    rw [h_array.1] at h_all
    exact h_all

end TypeConverter

end Ethiso.Abi
