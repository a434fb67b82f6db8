import Ethiso.Abi.Numerals

/-!
# The names of the elementary types

The factories read the name of a type: a word, with one or two sizes after it. `ElementaryName`
is the grammar of these names, for any notion of a numeral for the sizes and of what may stand
after two sizes. The numerals that the factories read are the decimal ones, with any number of
zeros in front (`Digits`); after the sizes of a fixed-point type there may be more letters `x`.

`newTypeConverter_iff` says that the factories find the converter of each such name, and of no
other name without a bracket; for the others there is an `IllegalArgumentException`.
-/

namespace Ethiso.Abi

/-! ### The grammar -/

/-- How the numbers in the name of a type are written. -/
structure Spelling where
  /-- The numerals of a size. -/
  IsNumeral : List Char → ℕ → Prop
  /-- What may stand after the two sizes of a fixed-point type. -/
  IsRest : List Char → Prop
  /-- The numerals of the size of an array. -/
  IsArraySize : List Char → ℕ → Prop

/-- The spelling that the factories read. -/
def Spelling.loose : Spelling where
  IsNumeral := Digits
  IsRest rest := ∃ k, rest = List.replicate k 'x'
  IsArraySize s n := Digits s n ∨ ∃ digits, s = '+' :: digits ∧ Digits digits n

/-- Decimal numerals without sign or zeros in front, and nothing after them. -/
def Spelling.strict : Spelling where
  IsNumeral s n := s = numeral 10 n
  IsRest rest := rest = []
  IsArraySize s n := s = numeral 10 n

/-- What follows the word of an integer type. -/
def Spelling.IsSize (spelling : Spelling) (suffix : List Char) (size : ℕ) : Prop :=
  suffix = [] ∧ size = 256 ∨ spelling.IsNumeral suffix size

/-- What follows the word of a fixed-point type. -/
def Spelling.IsSizes (spelling : Spelling) (suffix : List Char) (m n : ℕ) : Prop :=
  suffix = [] ∧ m = 128 ∧ n = 128 ∨
    ∃ s s' rest, spelling.IsNumeral s m ∧ spelling.IsNumeral s' n ∧ spelling.IsRest rest ∧
      suffix = s ++ 'x' :: (s' ++ rest)

/-- The elementary types. -/
inductive BaseType
  | address
  | bool
  | string
  | bytes
  | bytesN (size : BytesSize)
  | int (size : IntegerSize)
  | uint (size : IntegerSize)
  | fixed (size : FixedSize)
  | ufixed (size : FixedSize)

/-- The names of the elementary types. -/
inductive ElementaryName (spelling : Spelling) : List Char → BaseType → Prop
  | address : ElementaryName spelling ['a', 'd', 'd', 'r', 'e', 's', 's'] .address
  | bool : ElementaryName spelling ['b', 'o', 'o', 'l'] .bool
  | string : ElementaryName spelling ['s', 't', 'r', 'i', 'n', 'g'] .string
  | bytes : ElementaryName spelling BYTES .bytes
  | bytesN {suffix : List Char} {size : BytesSize} (h : spelling.IsNumeral suffix size) :
    ElementaryName spelling (BYTES ++ suffix) (.bytesN size)
  | int {suffix : List Char} {size : IntegerSize} (h : spelling.IsSize suffix size) :
    ElementaryName spelling (INT ++ suffix) (.int size)
  | uint {suffix : List Char} {size : IntegerSize} (h : spelling.IsSize suffix size) :
    ElementaryName spelling (UINT ++ suffix) (.uint size)
  | fixed {suffix : List Char} {size : FixedSize} (h : spelling.IsSizes suffix size.m size.n) :
    ElementaryName spelling (FIXED ++ suffix) (.fixed size)
  | ufixed {suffix : List Char} {size : FixedSize} (h : spelling.IsSizes suffix size.m size.n) :
    ElementaryName spelling (UFIXED ++ suffix) (.ufixed size)

/-- The converter of a signed integer is the unsigned one. -/
def BaseType.converter : BaseType → AnyTypeConverter
  | .address => ⟨_, .address⟩
  | .bool => ⟨_, .bool⟩
  | .string => ⟨_, .string⟩
  | .bytes => ⟨_, .dynamicBytes⟩
  | .bytesN size => ⟨_, .staticBytes size⟩
  | .int size => ⟨_, .uint size⟩
  | .uint size => ⟨_, .uint size⟩
  | .fixed size => ⟨_, .fixed size⟩
  | .ufixed size => ⟨_, .ufixed size⟩

section Names

variable {s : List Char} {m n : ℕ} {base : BaseType}

/-- A size that is written strictly can be read loosely. -/
theorem Spelling.IsSize.loose (h : Spelling.strict.IsSize s n) : Spelling.loose.IsSize s n := by
  rcases h with h | rfl
  · exact Or.inl h
  · exact Or.inr (digits_numeral n)

theorem Spelling.IsSizes.loose (h : Spelling.strict.IsSizes s m n) :
    Spelling.loose.IsSizes s m n := by
  rcases h with h | ⟨_, _, _, rfl, rfl, rfl, h⟩
  · exact Or.inl h
  · exact Or.inr ⟨_, _, _, digits_numeral m, digits_numeral n, ⟨0, rfl⟩, h⟩

/-- The factories read what is written strictly. -/
theorem ElementaryName.loose (h : ElementaryName Spelling.strict s base) :
    ElementaryName Spelling.loose s base := by
  cases h with
  | address => exact .address
  | bool => exact .bool
  | string => exact .string
  | bytes => exact .bytes
  -- only the size of `bytesN` is read in the same way by both
  | bytesN h =>
    obtain rfl := h
    exact .bytesN (digits_numeral _)
  | int h => exact .int h.loose
  | uint h => exact .uint h.loose
  | fixed h => exact .fixed h.loose
  | ufixed h => exact .ufixed h.loose

/-- There are no brackets in what follows the word. -/
theorem Spelling.IsSize.notMem (h : Spelling.loose.IsSize s n) : '[' ∉ s ∧ ']' ∉ s := by
  rcases h with ⟨rfl, -⟩ | h
  · exact ⟨List.not_mem_nil, List.not_mem_nil⟩
  · exact ⟨h.notMem.2.2.1, h.notMem.2.2.2.1⟩

/-- There are no brackets in sizes. -/
theorem Spelling.IsSizes.notMem (h : Spelling.loose.IsSizes s m n) : '[' ∉ s ∧ ']' ∉ s := by
  rcases h with ⟨rfl, -⟩ | ⟨s, s', _, h, h', ⟨k, rfl⟩, rfl⟩
  · exact ⟨List.not_mem_nil, List.not_mem_nil⟩
  · have h_s := Digits.notMem h
    have h_s' := Digits.notMem h'
    simp [h_s.2.2.1, h_s.2.2.2.1, h_s'.2.2.1, h_s'.2.2.2.1]

/-- There are no brackets in the name of an elementary type. -/
theorem ElementaryName.notMem (h : ElementaryName Spelling.loose s base) :
    '[' ∉ s ∧ ']' ∉ s := by
  have h_word {word suffix : List Char} (h_w : '[' ∉ word ∧ ']' ∉ word)
      (h_s : '[' ∉ suffix ∧ ']' ∉ suffix) : '[' ∉ word ++ suffix ∧ ']' ∉ word ++ suffix :=
    ⟨List.not_mem_append h_w.1 h_s.1, List.not_mem_append h_w.2 h_s.2⟩
  cases h with
  | address => decide
  | bool => decide
  | string => decide
  | bytes => decide
  | bytesN h => exact h_word (by decide) ⟨(Digits.notMem h).2.2.1, (Digits.notMem h).2.2.2.1⟩
  | int h => exact h_word (by decide) h.notMem
  | uint h => exact h_word (by decide) h.notMem
  | fixed h => exact h_word (by decide) h.notMem
  | ufixed h => exact h_word (by decide) h.notMem

end Names

/-! ### Sizes -/

/-- The suffix is what follows the word. -/
theorem suffixOf_eq_ok {word type suffix : List Char} :
    suffixOf word type = .ok suffix ↔ type = word ++ suffix := by
  unfold suffixOf
  split
  · next h =>
    obtain ⟨rest, rfl⟩ := List.isPrefixOf_iff_prefix.mp h
    rw [pure_eq_ok, List.drop_left]
    exact (List.append_right_inj word).symm
  · next h =>
    apply iff_of_false (by simp [typeNotSupported])
    rintro rfl
    exact h (List.isPrefixOf_iff_prefix.mpr (List.prefix_append word suffix))

/-- Taking the suffix throws nothing unexpected. -/
theorem suffixOf_regular (word type : List Char) : Regular (suffixOf word type) := by
  unfold suffixOf
  exact Regular.ite (regular_ok _) (regular_throw rfl)

theorem suffixOf_fails {word type : List Char} (h : word.isPrefixOf type = false) :
    Fails (suffixOf word type) := by
  unfold suffixOf
  rw [if_neg (by simp [h])]
  exact ⟨_, rfl, rfl⟩

section Sizes

variable {word type : List Char}

theorem integerSize_fails (h : word.isPrefixOf type = false) : Fails (integerSize word type) :=
  (suffixOf_fails h).bind _

theorem fixedPointSizes_fails (h : word.isPrefixOf type = false) :
    Fails (fixedPointSizes word type) :=
  (suffixOf_fails h).bind _

theorem getSize_fails (h : BYTES.isPrefixOf type = false) :
    Fails (StaticBytesTypeConverterFactory.getSize type) :=
  (suffixOf_fails h).bind _

/-- Reading the size of an integer type throws nothing unexpected. -/
theorem integerSize_regular (word type : List Char) : Regular (integerSize word type) := by
  have h_check : ∀ (suffix : List Char) (size : ℤ), Regular
      (if h : 8 ≤ size ∧ size ≤ 256 ∧ size % 8 = 0 then return ⟨size.toNat, by omega⟩
        else throw (.illegalArgument s!"Invalid uint size [{String.ofList suffix}]") :
          Java IntegerSize) :=
    fun suffix size => Regular.dite (fun _ => regular_ok _) fun _ => regular_throw rfl
  unfold integerSize
  refine (suffixOf_regular word type).bind fun suffix => Regular.guard ?_ rfl
  exact Regular.ite ((regular_ok 256).bind (h_check suffix))
    ((parseUnsignedInt_regular suffix).bind (h_check suffix))

/-- **Sizes of integers**: what is read is a size after the word. -/
theorem integerSize_eq_ok {size : IntegerSize} :
    integerSize word type = .ok size ↔
      ∃ suffix, type = word ++ suffix ∧ Spelling.loose.IsSize suffix size := by
  have h_range := size.2
  have h_check : ∀ (suffix : List Char) (n : ℤ),
      (if h : 8 ≤ n ∧ n ≤ 256 ∧ n % 8 = 0 then return ⟨n.toNat, by omega⟩
        else throw (.illegalArgument s!"Invalid uint size [{String.ofList suffix}]") :
          Java IntegerSize) = .ok size ↔ n = (size : ℕ) := by
    intro suffix n
    split
    · next h =>
      rw [pure_eq_ok, Subtype.ext_iff]
      show n.toNat = size ↔ _
      omega
    · next h =>
      rw [throw_eq_ok]
      exact iff_of_false not_false fun h_eq => h ⟨by omega, by omega, by omega⟩
  unfold integerSize
  rw [bind_eq_ok]
  simp only [suffixOf_eq_ok, guard_eq_ok]
  refine exists_congr fun suffix => and_congr_right fun _ => ?_
  split
  · next h_nil =>
    -- without a size it is 256
    subst h_nil
    rw [bind_eq_ok]
    simp only [pure_eq_ok, h_check]
    refine ⟨?_, ?_⟩
    · rintro ⟨-, n, rfl, h_n⟩
      exact Or.inl ⟨rfl, by omega⟩
    · rintro (⟨-, h_n⟩ | h)
      · exact ⟨by decide, 256, rfl, by omega⟩
      · exact absurd rfl h.ne_nil
  · next h_nil =>
    -- a plus sign was excluded before, so a numeral is read
    rw [bind_eq_ok]
    simp only [h_check]
    refine ⟨?_, ?_⟩
    · rintro ⟨h_plus, n, h_n, rfl⟩
      exact Or.inr ((parseUnsignedInt_eq_ok (by omega) h_plus).mp h_n).2
    · rintro (⟨h, -⟩ | h)
      · exact absurd h h_nil
      · exact ⟨h.not_plus, size,
          (parseUnsignedInt_eq_ok (by omega) h.not_plus).mpr ⟨by omega, h⟩, rfl⟩

namespace StaticBytesTypeConverterFactory

/-- Reading the size of bytes throws nothing unexpected. -/
theorem getSize_regular (type : List Char) : Regular (getSize type) := by
  unfold getSize
  refine (suffixOf_regular BYTES type).bind fun suffix => Regular.guard (Regular.guard ?_ rfl) rfl
  exact (parseUnsignedInt_regular suffix).bind fun size => Regular.guard (regular_ok size) rfl

/-- **Sizes of bytes**: digits after the word, of a number up to 32. -/
theorem getSize_eq_ok {size : ℕ} (h_pos : 0 < size) :
    getSize type = .ok (size : ℤ) ↔
      size ≤ 32 ∧ ∃ suffix, type = BYTES ++ suffix ∧ Digits suffix size := by
  unfold getSize
  rw [bind_eq_ok]
  simp only [suffixOf_eq_ok, guard_eq_ok, bind_eq_ok, pure_eq_ok]
  refine ⟨?_, ?_⟩
  · rintro ⟨suffix, h_type, h_plus, h_nil, n, h_n, h_range, rfl⟩
    exact ⟨by omega, suffix, h_type, ((parseUnsignedInt_eq_ok h_pos h_plus).mp h_n).2⟩
  · rintro ⟨h_le, suffix, h_type, h⟩
    exact ⟨suffix, h_type, h.not_plus, h.ne_nil, size,
      (parseUnsignedInt_eq_ok h_pos h.not_plus).mpr ⟨by omega, h⟩, by omega, rfl⟩

/-- The factory of `bytesN` throws nothing unexpected. -/
theorem newTypeConverter_regular (type : List Char) : Regular (newTypeConverter type) := by
  unfold newTypeConverter
  exact (getSize_regular type).bind fun size =>
    Regular.dite (fun _ => regular_ok _) fun _ => regular_throw rfl

/-- The factory of `bytesN` makes a converter for its names. -/
theorem newTypeConverter_eq_ok {c : AnyTypeConverter} :
    newTypeConverter type = .ok c ↔ ∃ (suffix : List Char) (size : BytesSize),
      type = BYTES ++ suffix ∧ Digits suffix size ∧ c = ⟨_, .staticBytes size⟩ := by
  unfold newTypeConverter
  rw [bind_eq_ok]
  refine ⟨?_, ?_⟩
  · rintro ⟨n, h_n, h_c⟩
    split at h_c
    -- the range that is tested makes the number a size
    · next h_range =>
      obtain ⟨size, rfl⟩ := Int.eq_ofNat_of_zero_le h_range.1.le
      obtain ⟨-, suffix, h_type, h⟩ := (getSize_eq_ok (by omega)).mp h_n
      exact ⟨suffix, ⟨size, by omega⟩, h_type, h, (pure_eq_ok.mp h_c).symm⟩
    · cases h_c
  · rintro ⟨suffix, size, h_type, h, rfl⟩
    have h_range := size.2
    refine ⟨(size : ℕ), (getSize_eq_ok h_range.1).mpr ⟨h_range.2, suffix, h_type, h⟩, ?_⟩
    exact dif_pos ⟨by omega, by omega⟩

end StaticBytesTypeConverterFactory

end Sizes

/-! ### Two sizes -/

/-- Reading one size of a fixed-point type throws nothing unexpected. -/
theorem fixedPointSize_regular (s : List Char) : Regular (fixedPointSize s) := by
  unfold fixedPointSize
  refine Regular.guard ?_ rfl
  exact (parseInt_regular s).bind fun n => Regular.guard (regular_ok n) rfl

/-- One size of a fixed-point type, without a sign. -/
theorem fixedPointSize_eq_ok {s : List Char} {size : ℤ} :
    fixedPointSize s = .ok size ↔
      ∃ n : ℕ, size = n ∧ Digits s n ∧ 8 ≤ n ∧ n ≤ 256 ∧ n % 8 = 0 := by
  unfold fixedPointSize
  simp only [guard_eq_ok, bind_eq_ok, pure_eq_ok]
  refine ⟨?_, ?_⟩
  · rintro ⟨h_plus, size, h_size, h_range, rfl⟩
    obtain ⟨n, rfl⟩ := Int.eq_ofNat_of_zero_le (show 0 ≤ size by omega)
    obtain ⟨-, h | ⟨digits, rfl, -⟩⟩ := (parseInt_eq_ok (by omega)).mp h_size
    · exact ⟨n, rfl, h, by omega, by omega, by omega⟩
    · -- `parseInt` would take a plus sign
      exact absurd (List.isPrefixOf_iff_prefix.mpr (List.prefix_append ['+'] digits)) h_plus
  · rintro ⟨n, rfl, h, h_range⟩
    exact ⟨h.not_plus, n, (parseInt_eq_ok (by omega)).mpr ⟨by omega, Or.inl h⟩, by omega, rfl⟩

/-- Empty strings at the end. -/
theorem intercalate_replicate_nil (s : List Char) (k : ℕ) :
    ['x'].intercalate (s :: List.replicate k []) = s ++ List.replicate k 'x' := by
  induction k generalizing s with
  | zero => simp
  | succ k ih =>
    rw [List.replicate_succ, List.intercalate_cons_cons, ih, List.nil_append, List.replicate_succ,
      List.append_assoc, List.singleton_append]

/-- What `split` leaves out at the end is empty, and the last string that it keeps is not. -/
theorem splitSizes_eq_iff {suffix : List Char} {sizes : List (List Char)} {n : List Char} :
    splitSizes suffix = sizes ++ [n] ↔
      n ≠ [] ∧ ∃ k, suffix.splitOn 'x' = sizes ++ n :: List.replicate k [] := by
  unfold splitSizes
  rw [List.reverse_eq_iff, List.reverse_append, List.reverse_singleton, List.singleton_append]
  refine ⟨?_, ?_⟩
  · intro h
    have h_split := @List.takeWhile_append_dropWhile _ (fun s : List Char => s = [])
      (suffix.splitOn 'x').reverse
    obtain ⟨k, h_empty⟩ : ∃ k, (suffix.splitOn 'x').reverse.takeWhile (fun s => s = []) =
        List.replicate k [] :=
      ⟨_, List.eq_replicate_of_mem fun s h_s =>
        of_decide_eq_true (List.all_eq_true.mp List.all_takeWhile s h_s)⟩
    -- what is kept ends with a string that is not empty
    have h_last := @List.head_dropWhile_not _ (fun s : List Char => s = [])
      (suffix.splitOn 'x').reverse (by rw [h]; exact List.cons_ne_nil _ _)
    simp only [h, List.head_cons, decide_eq_false_iff_not] at h_last
    rw [h, h_empty] at h_split
    refine ⟨h_last, k, List.reverse_injective (h_split.symm.trans ?_)⟩
    rw [List.reverse_append, List.reverse_cons, List.reverse_replicate, List.append_assoc,
      List.singleton_append]
  · rintro ⟨h_ne, k, h⟩
    rw [h, List.reverse_append, List.reverse_cons, List.reverse_replicate, List.append_assoc,
      List.dropWhile_append_of_pos (by simp), List.singleton_append,
      List.dropWhile_cons_of_neg (by simpa using h_ne)]

/-- The strings that are split at a letter do not contain it. -/
theorem notMem_of_mem_splitOn {suffix s : List Char} (h : s ∈ suffix.splitOn 'x') : 'x' ∉ s := by
  induction suffix generalizing s with
  | nil =>
    rw [List.splitOn_nil, List.mem_singleton] at h
    subst h
    exact List.not_mem_nil
  | cons c suffix ih =>
    rw [List.splitOn_cons_eq_if_modifyHead] at h
    split at h
    · rcases List.mem_cons.mp h with rfl | h
      · exact List.not_mem_nil
      · exact ih h
    · next h_c =>
      -- the character goes in front of the first string
      obtain ⟨first, rest, h_split⟩ := List.exists_cons_of_ne_nil (List.splitOn_ne_nil 'x' suffix)
      rw [h_split, List.modifyHead_cons] at h
      rw [h_split] at ih
      rcases List.mem_cons.mp h with rfl | h
      · refine List.not_mem_cons_of_ne_of_not_mem ?_ (ih List.mem_cons_self)
        rintro rfl
        exact h_c (beq_self_eq_true 'x')
      · exact ih (List.mem_cons_of_mem first h)

/-- There are two sizes, and then any number of letters `x`. -/
theorem splitSizes_eq_pair {suffix m n : List Char} :
    splitSizes suffix = [m, n] ↔ n ≠ [] ∧ 'x' ∉ m ∧ 'x' ∉ n ∧
      ∃ k, suffix = m ++ 'x' :: (n ++ List.replicate k 'x') := by
  have h_join (k : ℕ) : ['x'].intercalate (m :: n :: List.replicate k []) =
      m ++ 'x' :: (n ++ List.replicate k 'x') := by
    rw [List.intercalate_cons_cons, intercalate_replicate_nil, List.append_assoc,
      List.singleton_append]
  refine (@splitSizes_eq_iff suffix [m] n).trans (and_congr_right fun h_ne => ?_)
  refine ⟨?_, ?_⟩
  -- no part of what is split has the separator in it
  · rintro ⟨k, h⟩
    have h_notMem {s : List Char} (h_s : s ∈ [m] ++ n :: List.replicate k []) : 'x' ∉ s :=
      notMem_of_mem_splitOn (h ▸ h_s)
    refine ⟨h_notMem (by simp), h_notMem (by simp), k, ?_⟩
    calc suffix
      _ = ['x'].intercalate (suffix.splitOn 'x') := (List.intercalate_splitOn 'x').symm
      _ = ['x'].intercalate (m :: n :: List.replicate k []) := by rw [h, List.singleton_append]
      _ = m ++ 'x' :: (n ++ List.replicate k 'x') := h_join k
  · rintro ⟨h_m, h_n, k, rfl⟩
    refine ⟨k, ?_⟩
    rw [← h_join, List.splitOn_intercalate]
    · rfl
    · simp [h_m, h_n]
    · simp

section FixedPoint

variable {word type : List Char} {sizes : ℤ × ℤ} {name : String} {size : FixedSize}

theorem fixedPointSizes_regular (word type : List Char) : Regular (fixedPointSizes word type) := by
  unfold fixedPointSizes
  refine (suffixOf_regular word type).bind fun suffix => Regular.ite (regular_ok _) ?_
  split
  · exact (fixedPointSize_regular _).bind fun m => (fixedPointSize_regular _).bind fun n =>
      regular_ok (m, n)
  · exact regular_throw rfl

/-- **Sizes of a fixed-point type**: none, or two numbers with an `x` between them. -/
theorem fixedPointSizes_eq_ok :
    fixedPointSizes word type = .ok sizes ↔ ∃ (suffix : List Char) (m n : ℕ),
      type = word ++ suffix ∧ Spelling.loose.IsSizes suffix m n ∧ sizes = ((m : ℤ), (n : ℤ)) ∧
        (8 ≤ m ∧ m ≤ 256 ∧ m % 8 = 0) ∧ 8 ≤ n ∧ n ≤ 256 ∧ n % 8 = 0 := by
  unfold fixedPointSizes
  rw [bind_eq_ok]
  simp only [suffixOf_eq_ok]
  refine ⟨?_, ?_⟩
  · rintro ⟨suffix, h_type, h⟩
    -- no suffix stands for the sizes 128 and 128
    split at h
    · next h_nil => exact ⟨suffix, 128, 128, h_type, Or.inl ⟨h_nil, rfl, rfl⟩,
        (pure_eq_ok.mp h).symm, by decide, by decide⟩
    · split at h
      · next s s' h_split =>
        obtain ⟨-, -, -, k, h_suffix⟩ := splitSizes_eq_pair.mp h_split
        obtain ⟨m, h_m, h⟩ := bind_eq_ok.mp h
        obtain ⟨n, h_n, h⟩ := bind_eq_ok.mp h
        obtain ⟨m, rfl, h_s, h_m⟩ := fixedPointSize_eq_ok.mp h_m
        obtain ⟨n, rfl, h_s', h_n⟩ := fixedPointSize_eq_ok.mp h_n
        exact ⟨suffix, m, n, h_type, Or.inr ⟨s, s', _, h_s, h_s', ⟨k, rfl⟩, h_suffix⟩,
          (pure_eq_ok.mp h).symm, h_m, h_n⟩
      · cases h
  · rintro ⟨suffix, m, n, h_type, h | ⟨s, s', _, h_s, h_s', ⟨k, rfl⟩, h_suffix⟩, rfl, h_m, h_n⟩
    · obtain ⟨h_nil, rfl, rfl⟩ := h
      exact ⟨suffix, h_type, if_pos h_nil⟩
    -- what follows the second size are separators only
    · have h_split := splitSizes_eq_pair.mpr
        ⟨Digits.ne_nil h_s', (Digits.notMem h_s).2.2.2.2, (Digits.notMem h_s').2.2.2.2, k, h_suffix⟩
      have h_nil : suffix ≠ [] := by
        rw [h_suffix]
        exact List.append_ne_nil_of_right_ne_nil _ (List.cons_ne_nil _ _)
      refine ⟨suffix, h_type, ?_⟩
      rw [if_neg h_nil, h_split]
      refine bind_eq_ok.mpr ⟨m, fixedPointSize_eq_ok.mpr ⟨m, rfl, h_s, h_m⟩, ?_⟩
      exact bind_eq_ok.mpr ⟨n, fixedPointSize_eq_ok.mpr ⟨n, rfl, h_s', h_n⟩, rfl⟩

/-- The constructor of the sizes throws nothing unexpected. -/
theorem FixedSize.new_regular (name : String) (m n : ℤ) : Regular (FixedSize.new name m n) := by
  unfold FixedSize.new
  exact Regular.dite (fun _ => regular_ok _) fun _ => regular_throw rfl

/-- The sizes of the type are those that are tested. -/
theorem FixedSize.new_eq_ok {m n : ℤ} :
    FixedSize.new name m n = .ok size ↔ m = size.m ∧ n = size.n := by
  obtain ⟨m', n', h_valid⟩ := size
  unfold FixedSize.new
  split
  · next h =>
    rw [pure_eq_ok, FixedSize.mk.injEq]
    show m.toNat = m' ∧ n.toNat = n' ↔ m = m' ∧ n = n'
    omega
  · next h =>
    rw [throw_eq_ok]
    exact iff_of_false not_false fun h_eq => h (by dsimp only at h_eq; omega)

/-- What the constructor of a fixed-point converter gets. -/
theorem newFixedSize_eq_ok :
    (fixedPointSizes word type >>= fun sizes => FixedSize.new name sizes.1 sizes.2) = .ok size ↔
      ∃ suffix, type = word ++ suffix ∧ Spelling.loose.IsSizes suffix size.m size.n := by
  -- the sum of the sizes is tested with the sizes
  have h_valid := size.valid
  rw [bind_eq_ok]
  simp only [fixedPointSizes_eq_ok, FixedSize.new_eq_ok]
  refine ⟨?_, ?_⟩
  · rintro ⟨_, ⟨suffix, m, n, h_type, h, rfl, -⟩, h_m, h_n⟩
    obtain rfl := Int.ofNat.inj h_m
    obtain rfl := Int.ofNat.inj h_n
    exact ⟨suffix, h_type, h⟩
  · rintro ⟨suffix, h_type, h⟩
    exact ⟨(size.m, size.n), ⟨suffix, size.m, size.n, h_type, h, rfl, by omega, by omega⟩, rfl,
      rfl⟩

end FixedPoint

/-! ### Asking the factories -/

/-- The index of a character behind a word that does not have it. -/
theorem indexOf_append {c : Char} {word : List Char} (h : c ∉ word) (rest : List Char) :
    indexOf c (word ++ c :: rest) = some word.length := by
  unfold indexOf
  induction word with
  | nil => exact if_pos (decide_eq_true rfl)
  | cons c' word ih =>
    rw [List.mem_cons, not_or] at h
    rw [List.cons_append, List.findIdx?_cons, if_neg (by simpa using Ne.symm h.1), ih h.2]
    rfl

theorem indexOf_eq_none {c : Char} {word : List Char} (h : c ∉ word) : indexOf c word = none :=
  List.findIdx?_eq_none_iff.mpr fun c' hc' => by
    rw [decide_eq_false_iff_not]
    exact fun h_eq => h (h_eq ▸ hc')

namespace TypeConverterManagerImpl

variable {manager : List Char → Java AnyTypeConverter} {type : List Char}
variable {factory : TypeConverterFactory} {factories : List TypeConverterFactory}
variable {converter : AnyTypeConverter}

/-- A factory that does not support the type is passed over. -/
theorem newTypeConverter_skip (h : factory.supportsType type = .ok false) :
    newTypeConverter manager type (factory :: factories) =
      newTypeConverter manager type factories := by
  rw [newTypeConverter, h]
  rfl

/-- The first factory that supports the type makes the converter. -/
theorem newTypeConverter_take (h : factory.supportsType type = .ok true) :
    newTypeConverter manager type (factory :: factories) =
      factory.newTypeConverter manager type := by
  rw [newTypeConverter, h]
  rfl

/-- A factory for one name supports no other. -/
theorem namedFactory_skip {name : List Char} {instance_ : AnyTypeConverter} (h : type ≠ name) :
    (namedFactory name instance_).supportsType type = .ok false :=
  congrArg Except.ok (decide_eq_false h)

theorem namedFactory_take {name : List Char} {instance_ : AnyTypeConverter} :
    newTypeConverter manager name (namedFactory name instance_ :: factories) = .ok instance_ := by
  rw [newTypeConverter_take (congrArg Except.ok (decide_eq_true rfl))]
  exact if_pos rfl

/-- What is found is the converter of one of the factories. -/
theorem exists_factory (h : newTypeConverter manager type factories = .ok converter) :
    ∃ factory ∈ factories, factory.newTypeConverter manager type = .ok converter := by
  induction factories with
  | nil => cases h
  | cons factory factories ih =>
    rw [newTypeConverter, bind_eq_ok] at h
    obtain ⟨b, -, h⟩ := h
    split at h
    · exact ⟨factory, List.mem_cons_self, h⟩
    -- it does not support the type
    · obtain ⟨factory', h_mem, h⟩ := ih h
      exact ⟨factory', List.mem_cons_of_mem factory h_mem, h⟩

end TypeConverterManagerImpl

section Factories

variable (manager : List Char → Java AnyTypeConverter) (type : List Char)

/-- The factory may be asked about the type, and for its converter. -/
def TypeConverterFactory.IsRegular (factory : TypeConverterFactory) : Prop :=
  (∃ b, factory.supportsType type = .ok b) ∧ Regular (factory.newTypeConverter manager type)

variable {manager type}

/-- **Factories in a row** throw nothing unexpected if none of them does. -/
theorem TypeConverterManagerImpl.newTypeConverter_regular {factories : List TypeConverterFactory}
    (h : ∀ factory ∈ factories, factory.IsRegular manager type) :
    Regular (newTypeConverter manager type factories) := by
  induction factories with
  | nil => exact regular_throw rfl
  | cons factory factories ih =>
    rw [List.forall_mem_cons] at h
    -- a factory says whether it supports the type before it is asked for a converter
    obtain ⟨⟨b, h_b⟩, h_new⟩ := h.1
    cases b with
    | true =>
      rw [newTypeConverter_take h_b]
      exact h_new
    | false =>
      rw [newTypeConverter_skip h_b]
      exact ih h.2

/-- A factory for one name throws nothing unexpected. -/
theorem namedFactory_regular (name : List Char) (instance_ : AnyTypeConverter) :
    (namedFactory name instance_).IsRegular manager type :=
  ⟨⟨_, rfl⟩, Regular.ite (regular_ok _) (regular_throw rfl)⟩

/-- What it makes, and for which name. -/
theorem namedFactory_eq_ok {name : List Char} {instance_ converter : AnyTypeConverter} :
    (namedFactory name instance_).newTypeConverter manager type = .ok converter ↔
      type = name ∧ instance_ = converter := by
  show (if type = name then return instance_ else typeNotSupported type) = .ok converter ↔ _
  split
  · next h => exact pure_eq_ok.trans (and_iff_right h).symm
  · next h => exact iff_of_false (by simp [typeNotSupported]) fun h' => h h'.1

/-- Without a bracket there is no fixed size. -/
theorem getFirstFixedArraySize_fails (h : '[' ∉ type) :
    Fails (StaticArrayTypeConverterFactory.getFirstFixedArraySize type) := by
  unfold StaticArrayTypeConverterFactory.getFirstFixedArraySize
  rw [indexOf_eq_none h]
  exact ⟨_, rfl, rfl⟩

/-- Without a bracket there is no dynamic dimension. -/
theorem isFirstArraySizeDynamic_of_notMem (h : '[' ∉ type) :
    DynamicArrayTypeConverterFactory.isFirstArraySizeDynamic type = .ok false := by
  unfold DynamicArrayTypeConverterFactory.isFirstArraySizeDynamic
  rw [indexOf_eq_none h]
  rfl

end Factories

/-! ### Elementary types -/

namespace TypeConverterManagerImpl

variable {manager : List Char → Java AnyTypeConverter} {type : List Char}
variable {converter : AnyTypeConverter} {base : BaseType}

/-- All factories may be asked about a name without a bracket. -/
theorem regular_of_notMem (h : '[' ∉ type) :
    Regular (newTypeConverter manager type TYPE_CONVERTER_FACTORIES) := by
  apply newTypeConverter_regular
  intro factory h_factory
  -- one case for each factory, in the order of the services file
  simp only [TYPE_CONVERTER_FACTORIES, List.mem_cons, List.not_mem_nil, or_false] at h_factory
  rcases h_factory with rfl | rfl | rfl | rfl | rfl | rfl | rfl | rfl | rfl | rfl | rfl
  · exact namedFactory_regular _ _
  · exact namedFactory_regular _ _
  · refine ⟨⟨false, isFirstArraySizeDynamic_of_notMem h⟩, ?_⟩
    show Regular (DynamicArrayTypeConverterFactory.isFirstArraySizeDynamic type >>= _)
    rw [isFirstArraySizeDynamic_of_notMem h]
    exact regular_throw rfl
  · exact namedFactory_regular _ _
  · exact ⟨(fixedPointSizes_regular FIXED type).supported,
      (fixedPointSizes_regular FIXED type).bind fun sizes =>
        (FixedSize.new_regular _ _ _).bind fun size => regular_ok _⟩
  · exact ⟨(integerSize_regular INT type).supported,
      (integerSize_regular INT type).bind fun size => regular_ok _⟩
  · have h_size := getFirstFixedArraySize_fails h
    exact ⟨⟨false, supported_of_fails h_size⟩, Or.inr (h_size.bind _)⟩
  · exact ⟨(StaticBytesTypeConverterFactory.getSize_regular type).supported,
      StaticBytesTypeConverterFactory.newTypeConverter_regular type⟩
  · exact namedFactory_regular _ _
  · exact ⟨(fixedPointSizes_regular UFIXED type).supported,
      (fixedPointSizes_regular UFIXED type).bind fun sizes =>
        (FixedSize.new_regular _ _ _).bind fun size => regular_ok _⟩
  · exact ⟨(integerSize_regular UINT type).supported,
      (integerSize_regular UINT type).bind fun size => regular_ok _⟩

/-- The sizes that a fixed-point factory has found. -/
theorem exists_name_of_fixed {word : List Char} {name : String} {f : FixedSize → AnyTypeConverter}
    (h : (do
      let (m, n) ← fixedPointSizes word type
      return f (← FixedSize.new name m n)) = (.ok converter : Java AnyTypeConverter)) :
    ∃ (suffix : List Char) (size : FixedSize), type = word ++ suffix ∧
      Spelling.loose.IsSizes suffix size.m size.n ∧ f size = converter := by
  obtain ⟨sizes, h_sizes, h⟩ := bind_eq_ok.mp h
  obtain ⟨size, h_size, h⟩ := bind_eq_ok.mp h
  obtain ⟨suffix, h_type, h_suffix⟩ :=
    newFixedSize_eq_ok.mp (bind_eq_ok.mpr ⟨sizes, h_sizes, h_size⟩)
  exact ⟨suffix, size, h_type, h_suffix, pure_eq_ok.mp h⟩

/-- Whatever is found for a name without a bracket, the name is that of an elementary type. -/
theorem exists_name_of_notMem (h : '[' ∉ type)
    (h_ok : newTypeConverter manager type TYPE_CONVERTER_FACTORIES = .ok converter) :
    ∃ base, ElementaryName Spelling.loose type base ∧ base.converter = converter := by
  obtain ⟨factory, h_factory, h_new⟩ := exists_factory h_ok
  -- whichever factory it is, it has read the name
  simp only [TYPE_CONVERTER_FACTORIES, List.mem_cons, List.not_mem_nil, or_false] at h_factory
  rcases h_factory with rfl | rfl | rfl | rfl | rfl | rfl | rfl | rfl | rfl | rfl | rfl
  · obtain ⟨rfl, rfl⟩ := namedFactory_eq_ok.mp h_new
    exact ⟨_, .address, rfl⟩
  · obtain ⟨rfl, rfl⟩ := namedFactory_eq_ok.mp h_new
    exact ⟨_, .bool, rfl⟩
  · obtain ⟨b, h_b, h_new⟩ := bind_eq_ok.mp h_new
    rw [isFirstArraySizeDynamic_of_notMem h] at h_b
    cases h_b
    cases h_new
  · obtain ⟨rfl, rfl⟩ := namedFactory_eq_ok.mp h_new
    exact ⟨_, .bytes, rfl⟩
  · obtain ⟨suffix, size, rfl, h_suffix, rfl⟩ := exists_name_of_fixed h_new
    exact ⟨_, .fixed h_suffix, rfl⟩
  · obtain ⟨size, h_size, h_eq⟩ := bind_eq_ok.mp h_new
    obtain ⟨suffix, rfl, h_suffix⟩ := integerSize_eq_ok.mp h_size
    exact ⟨_, .int h_suffix, pure_eq_ok.mp h_eq⟩
  · obtain ⟨size, h_size, -⟩ := bind_eq_ok.mp h_new
    exact absurd h_size ((getFirstFixedArraySize_fails h).not_ok size)
  · obtain ⟨suffix, size, rfl, h_suffix, rfl⟩ :=
      StaticBytesTypeConverterFactory.newTypeConverter_eq_ok.mp h_new
    exact ⟨_, .bytesN h_suffix, rfl⟩
  · obtain ⟨rfl, rfl⟩ := namedFactory_eq_ok.mp h_new
    exact ⟨_, .string, rfl⟩
  · obtain ⟨suffix, size, rfl, h_suffix, rfl⟩ := exists_name_of_fixed h_new
    exact ⟨_, .ufixed h_suffix, rfl⟩
  · obtain ⟨size, h_size, h_eq⟩ := bind_eq_ok.mp h_new
    obtain ⟨suffix, rfl, h_suffix⟩ := integerSize_eq_ok.mp h_size
    exact ⟨_, .uint h_suffix, pure_eq_ok.mp h_eq⟩

/-- The first five factories do not support a type with a size, unless it is fixed-point. -/
theorem newTypeConverter_sized (h_bracket : '[' ∉ type)
    (h_address : type ≠ ['a', 'd', 'd', 'r', 'e', 's', 's']) (h_bool : type ≠ ['b', 'o', 'o', 'l'])
    (h_bytes : type ≠ BYTES) (h_fixed : Fails (fixedPointSizes FIXED type)) :
    newTypeConverter manager type TYPE_CONVERTER_FACTORIES =
      newTypeConverter manager type (TYPE_CONVERTER_FACTORIES.drop 5) := by
  refine (newTypeConverter_skip (namedFactory_skip h_address)).trans ?_
  refine (newTypeConverter_skip (namedFactory_skip h_bool)).trans ?_
  refine (newTypeConverter_skip (isFirstArraySizeDynamic_of_notMem h_bracket)).trans ?_
  refine (newTypeConverter_skip (namedFactory_skip h_bytes)).trans ?_
  exact newTypeConverter_skip (supported_of_fails h_fixed)

/-- Nor do the next four support an unsigned type with a size. -/
theorem newTypeConverter_unsigned (h_bracket : '[' ∉ type)
    (h_address : type ≠ ['a', 'd', 'd', 'r', 'e', 's', 's']) (h_bool : type ≠ ['b', 'o', 'o', 'l'])
    (h_bytes : BYTES.isPrefixOf type = false) (h_fixed : FIXED.isPrefixOf type = false)
    (h_int : INT.isPrefixOf type = false) (h_string : type ≠ ['s', 't', 'r', 'i', 'n', 'g']) :
    newTypeConverter manager type TYPE_CONVERTER_FACTORIES =
      newTypeConverter manager type (TYPE_CONVERTER_FACTORIES.drop 9) := by
  -- without brackets, the factories of the arrays are passed over
  have h_static := supported_of_fails (getFirstFixedArraySize_fails h_bracket)
  have h_ne : type ≠ BYTES := by
    rintro rfl
    cases h_bytes
  refine (newTypeConverter_sized h_bracket h_address h_bool h_ne
    (fixedPointSizes_fails h_fixed)).trans ?_
  refine (newTypeConverter_skip (supported_of_fails (integerSize_fails h_int))).trans ?_
  refine (newTypeConverter_skip h_static).trans ?_
  refine (newTypeConverter_skip (supported_of_fails (getSize_fails h_bytes))).trans ?_
  exact newTypeConverter_skip (namedFactory_skip h_string)

section Sized

variable {suffix : List Char}

/-- The name of `bytesN`. -/
theorem newTypeConverter_bytesN {size : BytesSize} (h : Digits suffix size) :
    newTypeConverter manager (BYTES ++ suffix) TYPE_CONVERTER_FACTORIES =
      .ok ⟨_, .staticBytes size⟩ := by
  have h_bracket := (@ElementaryName.bytesN Spelling.loose _ _ h).notMem.1
  have h_static := supported_of_fails (getFirstFixedArraySize_fails h_bracket)
  have h_ne : BYTES ++ suffix ≠ BYTES := fun hc => h.ne_nil (List.append_right_eq_self.mp hc)
  have h_int : Fails (integerSize INT (BYTES ++ suffix)) := integerSize_fails rfl
  -- `getSize` finds the size, so the factory supports the type
  have h_size := (StaticBytesTypeConverterFactory.getSize_eq_ok size.2.1).mpr
    ⟨size.2.2, suffix, rfl, h⟩
  refine (newTypeConverter_sized h_bracket (by simp [BYTES]) (by simp [BYTES]) h_ne
    (fixedPointSizes_fails rfl)).trans ?_
  refine (newTypeConverter_skip (supported_of_fails h_int)).trans ?_
  refine (newTypeConverter_skip h_static).trans ?_
  refine (newTypeConverter_take (supported_of_ok h_size)).trans ?_
  exact StaticBytesTypeConverterFactory.newTypeConverter_eq_ok.mpr ⟨suffix, size, rfl, h, rfl⟩

/-- The name of a signed integer, for which an unsigned one is made. -/
theorem newTypeConverter_int {size : IntegerSize} (h : Spelling.loose.IsSize suffix size) :
    newTypeConverter manager (INT ++ suffix) TYPE_CONVERTER_FACTORIES = .ok ⟨_, .uint size⟩ := by
  have h_size : integerSize INT (INT ++ suffix) = .ok size :=
    integerSize_eq_ok.mpr ⟨suffix, rfl, h⟩
  refine (newTypeConverter_sized (ElementaryName.int h).notMem.1 (by simp [INT]) (by simp [INT])
    (by simp [INT, BYTES]) (fixedPointSizes_fails rfl)).trans ?_
  refine (newTypeConverter_take (supported_of_ok h_size)).trans ?_
  exact bind_eq_ok.mpr ⟨size, h_size, rfl⟩

/-- The name of an unsigned integer. -/
theorem newTypeConverter_uint {size : IntegerSize} (h : Spelling.loose.IsSize suffix size) :
    newTypeConverter manager (UINT ++ suffix) TYPE_CONVERTER_FACTORIES = .ok ⟨_, .uint size⟩ := by
  have h_size : integerSize UINT (UINT ++ suffix) = .ok size :=
    integerSize_eq_ok.mpr ⟨suffix, rfl, h⟩
  have h_ufixed : Fails (fixedPointSizes UFIXED (UINT ++ suffix)) := fixedPointSizes_fails rfl
  refine (newTypeConverter_unsigned (ElementaryName.uint h).notMem.1 (by simp [UINT])
    (by simp [UINT]) rfl rfl rfl (by simp [UINT])).trans ?_
  refine (newTypeConverter_skip (supported_of_fails h_ufixed)).trans ?_
  refine (newTypeConverter_take (supported_of_ok h_size)).trans ?_
  exact bind_eq_ok.mpr ⟨size, h_size, rfl⟩

/-- The name of a fixed-point number. -/
theorem newTypeConverter_fixed {size : FixedSize}
    (h : Spelling.loose.IsSizes suffix size.m size.n) :
    newTypeConverter manager (FIXED ++ suffix) TYPE_CONVERTER_FACTORIES =
      .ok ⟨_, .fixed size⟩ := by
  have h_dynamic := isFirstArraySizeDynamic_of_notMem (ElementaryName.fixed h).notMem.1
  obtain ⟨sizes, h_sizes, h_size⟩ := bind_eq_ok.mp
    ((@newFixedSize_eq_ok FIXED _ "FixedTypeConverter" size).mpr ⟨suffix, rfl, h⟩)
  refine (newTypeConverter_skip (namedFactory_skip (by simp [FIXED]))).trans ?_
  refine (newTypeConverter_skip (namedFactory_skip (by simp [FIXED]))).trans ?_
  refine (newTypeConverter_skip h_dynamic).trans ?_
  refine (newTypeConverter_skip (namedFactory_skip (by simp [FIXED, BYTES]))).trans ?_
  refine (newTypeConverter_take (supported_of_ok h_sizes)).trans ?_
  exact bind_eq_ok.mpr ⟨sizes, h_sizes, bind_eq_ok.mpr ⟨size, h_size, rfl⟩⟩

/-- The name of an unsigned fixed-point number. -/
theorem newTypeConverter_ufixed {size : FixedSize}
    (h : Spelling.loose.IsSizes suffix size.m size.n) :
    newTypeConverter manager (UFIXED ++ suffix) TYPE_CONVERTER_FACTORIES =
      .ok ⟨_, .ufixed size⟩ := by
  obtain ⟨sizes, h_sizes, h_size⟩ := bind_eq_ok.mp
    ((@newFixedSize_eq_ok UFIXED _ "UFixedTypeConverter" size).mpr ⟨suffix, rfl, h⟩)
  refine (newTypeConverter_unsigned (ElementaryName.ufixed h).notMem.1 (by simp [UFIXED])
    (by simp [UFIXED]) rfl rfl rfl (by simp [UFIXED])).trans ?_
  refine (newTypeConverter_take (supported_of_ok h_sizes)).trans ?_
  exact bind_eq_ok.mpr ⟨sizes, h_sizes, bind_eq_ok.mpr ⟨size, h_size, rfl⟩⟩

end Sized

/-- The converter of each elementary type is found by each of its names. -/
theorem newTypeConverter_elementary (manager : List Char → Java AnyTypeConverter)
    (h : ElementaryName Spelling.loose type base) :
    newTypeConverter manager type TYPE_CONVERTER_FACTORIES = .ok base.converter := by
  -- each kind of name is passed over by the factories in front of its own
  cases h with
  | address => exact namedFactory_take
  | bool =>
    refine (newTypeConverter_skip (namedFactory_skip (by decide))).trans ?_
    exact namedFactory_take
  | string => rfl
  | bytes =>
    have h_dynamic := @isFirstArraySizeDynamic_of_notMem BYTES (by decide)
    refine (newTypeConverter_skip (namedFactory_skip (by decide))).trans ?_
    refine (newTypeConverter_skip (namedFactory_skip (by decide))).trans ?_
    refine (newTypeConverter_skip h_dynamic).trans ?_
    exact namedFactory_take
  | bytesN h => exact newTypeConverter_bytesN h
  | int h => exact newTypeConverter_int h
  | uint h => exact newTypeConverter_uint h
  | fixed h => exact newTypeConverter_fixed h
  | ufixed h => exact newTypeConverter_ufixed h

/-- **The elementary types.** For a name without a bracket, the manager finds the converter of
the elementary type with this name. -/
theorem newTypeConverter_iff (h : '[' ∉ type) :
    newTypeConverter manager type TYPE_CONVERTER_FACTORIES = .ok converter ↔
      ∃ base, ElementaryName Spelling.loose type base ∧ base.converter = converter := by
  refine ⟨exists_name_of_notMem h, ?_⟩
  rintro ⟨base, h_base, rfl⟩
  exact newTypeConverter_elementary manager h_base

end TypeConverterManagerImpl

end Ethiso.Abi
