import Ethiso.Abi.Deserialisation
import Mathlib.Data.PEquiv

/-!
# Integers as words

What an integer type of the ABI stands for is a partial bijection between integers and
words of 32 bytes (`words`): the integers of the type's range, and their words in two's
complement. A codec is right about a value and a word (`CodesLike`) if it writes and reads
as this bijection says, and undoes what it has done.

Both integer converters write as they should. When they read, they take the word for a
signed number first and check the range of it afterwards (`ReadsSigned`), each with a slip
of its own: the unsigned converter lets negative numbers pass (`uint_codesLike_iff`), the
signed one non-negative numbers that need the sign bit (`int_codesLike_iff`).
-/

namespace Ethiso.Abi

/-! ### Words -/

/-- A word of the EVM. -/
abbrev Word := { bytes : List UInt8 // bytes.length = 32 }

namespace Word

/-- The word of an integer, modulo `2 ^ 256`. -/
def ofInt (n : ℤ) : Word := ⟨word n, length_word n⟩

/-- The number of a word without sign. -/
def unsigned (w : Word) : ℤ := unsignedValue w.1

/-- The number in two's complement. -/
def signed (w : Word) : ℤ := BigInteger.ofByteArray w.1

variable {w : Word} {n : ℤ}

/-- Which numbers a word stands for without sign. -/
theorem unsigned_range (w : Word) : 0 ≤ w.unsigned ∧ w.unsigned < 2 ^ 256 := by
  have h_lt := unsignedValue_lt w.1
  rw [w.2] at h_lt
  unfold unsigned
  omega

/-- The two readings differ if the first bit is set. -/
theorem signed_eq (w : Word) :
    w.signed = if w.unsigned < 2 ^ 255 then w.unsigned else w.unsigned - 2 ^ 256 := by
  have h_len := w.2
  unfold signed unsigned unsignedValue BigInteger.ofByteArray
  dsimp only
  rw [h_len]
  split_ifs <;> omega

theorem signed_range (w : Word) : -2 ^ 255 ≤ w.signed ∧ w.signed < 2 ^ 255 := by
  have h_range := w.unsigned_range
  rw [w.signed_eq]
  split_ifs <;> omega

theorem unsigned_ofInt (h : 0 ≤ n ∧ n < 2 ^ 256) : (ofInt n).unsigned = n := by
  unfold unsigned ofInt
  rw [unsignedValue_word]
  omega

theorem signed_ofInt (h : -2 ^ 255 ≤ n ∧ n < 2 ^ 255) : (ofInt n).signed = n :=
  ofByteArray_word h

/-- A word is written back. -/
theorem ofInt_unsigned (w : Word) : ofInt w.unsigned = w := by
  have h_range := w.unsigned_range
  apply Subtype.ext
  apply (eq_word w.2 _).symm
  unfold unsigned at h_range ⊢
  rw [Int.emod_eq_of_lt h_range.1 h_range.2]

/-- A word and its number determine each other. -/
theorem ofInt_eq_iff (h : 0 ≤ n ∧ n < 2 ^ 256) : ofInt n = w ↔ w.unsigned = n := by
  refine ⟨?_, ?_⟩
  · rintro rfl
    exact unsigned_ofInt h
  · rintro rfl
    exact ofInt_unsigned w

theorem ofInt_signed (w : Word) : ofInt w.signed = w := by
  have h_range := w.unsigned_range
  apply Subtype.ext
  apply (eq_word w.2 _).symm
  -- the two numbers are congruent modulo 2 ^ 256
  rw [w.signed_eq]
  unfold unsigned at h_range ⊢
  split_ifs <;> omega

end Word

/-! ### What an integer type stands for -/

section Specification

variable {InRange : ℤ → Prop} [DecidablePred InRange] {value : Word → ℤ}
  {value_ofInt : ∀ n, InRange n → value (Word.ofInt n) = n}
  {ofInt_value : ∀ w, Word.ofInt (value w) = w} {n : ℤ} {w : Word}

/-- The integers of a range and their words, where `value` is the number of a word. -/
def words (InRange : ℤ → Prop) [DecidablePred InRange] (value : Word → ℤ)
    (value_ofInt : ∀ n, InRange n → value (Word.ofInt n) = n)
    (ofInt_value : ∀ w, Word.ofInt (value w) = w) : ℤ ≃. Word where
  toFun n := if InRange n then some (Word.ofInt n) else none
  invFun w := if InRange (value w) then some (value w) else none
  inv n w := by
    simp only [Option.ite_none_right_eq_some, Option.some.injEq]
    refine ⟨?_, ?_⟩
    · rintro ⟨h_range, rfl⟩
      exact ⟨h_range, ofInt_value w⟩
    · rintro ⟨h_range, rfl⟩
      rw [value_ofInt n h_range]
      exact ⟨h_range, rfl⟩

theorem mem_words :
    w ∈ words InRange value value_ofInt ofInt_value n ↔ InRange n ∧ Word.ofInt n = w :=
  Option.ite_none_right_eq_some.trans (and_congr_right' (Option.some_inj))

theorem mem_words_symm :
    n ∈ (words InRange value value_ofInt ofInt_value).symm w ↔ InRange (value w) ∧ value w = n :=
  Option.ite_none_right_eq_some.trans (and_congr_right' (Option.some_inj))

end Specification

instance (size : ℕ) : DecidablePred (UIntTypeConverter.Accepts size) :=
  fun n => inferInstanceAs (Decidable (0 ≤ n ∧ n < 2 ^ size))

instance (size : ℕ) : DecidablePred (IntTypeConverter.Accepts size) :=
  fun n => inferInstanceAs (Decidable (-2 ^ (size - 1) ≤ n ∧ n < 2 ^ (size - 1)))

theorem UIntTypeConverter.Accepts.range {size : IntegerSize} {n : ℤ}
    (h : UIntTypeConverter.Accepts size n) : 0 ≤ n ∧ n < 2 ^ 256 := by
  have h_pow : (2 : ℤ) ^ size.1 ≤ 2 ^ 256 := pow_le_pow_right₀ (by norm_num) size.2.2.1
  exact ⟨h.1, h.2.trans_le h_pow⟩

theorem IntTypeConverter.Accepts.range {size : IntegerSize} {n : ℤ}
    (h : IntTypeConverter.Accepts size n) : -2 ^ 255 ≤ n ∧ n < 2 ^ 255 := by
  have h_size := size.2.2.1
  have h_pow : (2 : ℤ) ^ (size.1 - 1) ≤ 2 ^ 255 := pow_le_pow_right₀ (by norm_num) (by omega)
  exact ⟨(neg_le_neg h_pow).trans h.1, h.2.trans_le h_pow⟩

/-- `uintM`: the integers from 0 to `2 ^ M`, in 32 bytes, the most significant first. -/
def uintWords (size : IntegerSize) : ℤ ≃. Word :=
  words (UIntTypeConverter.Accepts size) Word.unsigned (fun _ h => Word.unsigned_ofInt h.range)
    Word.ofInt_unsigned

/-- `intM`: the integers from `-2 ^ (M - 1)` to `2 ^ (M - 1)`, in two's complement. -/
def intWords (size : IntegerSize) : ℤ ≃. Word :=
  words (IntTypeConverter.Accepts size) Word.signed (fun _ h => Word.signed_ofInt h.range)
    Word.ofInt_signed

/-! ### Codecs -/

section Codecs

variable {serialise : ByteBuffer → ℤ → Java ByteBuffer}
  {deserialise : FlippedBuffer → Java (ℤ × FlippedBuffer)}

/-- A codec treats the value and the word as the bijection says. It writes the word of the
value if it has one, it reads the value of the word if it has one, and the other direction
undoes both, wherever the bytes stand. -/
structure CodesLike (serialise : ByteBuffer → ℤ → Java ByteBuffer)
    (deserialise : FlippedBuffer → Java (ℤ × FlippedBuffer)) (codec : ℤ ≃. Word) (n : ℤ)
    (w : Word) : Prop where
  writes : ∀ b b', serialise b n = .ok b' ↔ ∃ w' ∈ codec n, b.Extends w'.1 b'
  reads : ∀ before rest mark r, deserialise ⟨before, w.1 ++ rest, mark⟩ = .ok r ↔
    ∃ n' ∈ codec.symm w, r = (n', ⟨before ++ w.1, rest, mark⟩)
  undoes_writing : ∀ b b' bytes, serialise b n = .ok b' → b.Extends bytes b' →
    Reads deserialise bytes n
  undoes_reading : ∀ before rest mark r, deserialise ⟨before, w.1 ++ rest, mark⟩ = .ok r →
    ∀ b b', b.Extends w.1 b' → serialise b r.1 = .ok b'

/-- A word is read as a signed number, of which some are let pass. -/
def ReadsSigned (deserialise : FlippedBuffer → Java (ℤ × FlippedBuffer)) (Passes : ℤ → Prop) :
    Prop :=
  ∀ (w : Word) before rest mark r, deserialise ⟨before, w.1 ++ rest, mark⟩ = .ok r ↔
    Passes w.signed ∧ r = (w.signed, ⟨before ++ w.1, rest, mark⟩)

/-- A word is let pass if it is the word of an integer in the range, and then its signed
number is this integer. -/
def ReadRightly (Passes InRange : ℤ → Prop) (value : Word → ℤ) (w : Word) : Prop :=
  Passes w.signed ∨ InRange (value w) →
    Passes w.signed ∧ InRange (value w) ∧ w.signed = value w

/-- Reading the word of a number returns it if the test is passed and the sign is right. -/
theorem ReadsSigned.reads {Passes : ℤ → Prop} {n : ℤ} (h : ReadsSigned deserialise Passes) :
    Reads deserialise (word n) n ↔ Passes (Word.ofInt n).signed ∧ (Word.ofInt n).signed = n := by
  refine ⟨?_, ?_⟩
  · intro h_reads
    obtain ⟨h_pass, h_eq⟩ := (h (Word.ofInt n) [] [] none _).mp (h_reads [] [] none)
    exact ⟨h_pass, (congrArg Prod.fst h_eq).symm⟩
  · intro h_word before rest mark
    have h_read := (h (Word.ofInt n) before rest mark _).mpr ⟨h_word.1, rfl⟩
    rw [h_word.2] at h_read
    exact h_read

section Reading

variable {InRange : ℤ → Prop} [DecidablePred InRange] {value : Word → ℤ}
  {value_ofInt : ∀ n, InRange n → value (Word.ofInt n) = n}
  {ofInt_value : ∀ w, Word.ofInt (value w) = w} {Passes : ℤ → Prop} {n : ℤ} {w : Word}

/-- The value is written into an empty buffer and read from there. -/
theorem CodesLike.readRightly_ofInt
    (h : CodesLike serialise deserialise (words InRange value value_ofInt ofInt_value) n w)
    (h_writes : ∀ n b b', serialise b n = .ok b' ↔ InRange n ∧ b.Extends (word n) b')
    (h_reads : ReadsSigned deserialise Passes) (h_range : InRange n) :
    ReadRightly Passes InRange value (Word.ofInt n) := by
  intro _
  obtain ⟨b', h_ext⟩ := @ByteBuffer.exists_extends ⟨32, [], Nat.zero_le 32⟩ (word n)
    (by rw [length_word]; exact Nat.le_refl 32)
  have h_back := h.undoes_writing _ b' _ ((h_writes n _ b').mpr ⟨h_range, h_ext⟩) h_ext
  obtain ⟨h_pass, h_signed⟩ := h_reads.reads.mp h_back
  rw [value_ofInt n h_range]
  exact ⟨h_pass, h_range, h_signed⟩

/-- The word is read from a buffer of its own. -/
theorem CodesLike.readRightly
    (h : CodesLike serialise deserialise (words InRange value value_ofInt ofInt_value) n w)
    (h_reads : ReadsSigned deserialise Passes) : ReadRightly Passes InRange value w := by
  have h_read := h.reads [] [] none
  simp only [h_reads w [] [] none, mem_words_symm] at h_read
  rintro (h_pass | h_range)
  · obtain ⟨n', ⟨h_range, rfl⟩, h_eq⟩ := (h_read _).mp ⟨h_pass, rfl⟩
    exact ⟨h_pass, h_range, congrArg Prod.fst h_eq⟩
  · obtain ⟨h_pass, h_eq⟩ := (h_read _).mpr ⟨_, ⟨h_range, rfl⟩, rfl⟩
    exact ⟨h_pass, h_range, (congrArg Prod.fst h_eq).symm⟩

/-- **A codec by its words**: it is the partial bijection if words are read rightly. -/
theorem codesLike_of_readRightly
    (h_writes : ∀ n b b', serialise b n = .ok b' ↔ InRange n ∧ b.Extends (word n) b')
    (h_reads : ReadsSigned deserialise Passes)
    (h_value : InRange n → ReadRightly Passes InRange value (Word.ofInt n))
    (h_word : ReadRightly Passes InRange value w) :
    CodesLike serialise deserialise (words InRange value value_ofInt ofInt_value) n w where
  writes := by
    intro b b'
    simp only [h_writes, mem_words]
    refine ⟨?_, ?_⟩
    · rintro ⟨h_range, h_ext⟩
      exact ⟨Word.ofInt n, ⟨h_range, rfl⟩, h_ext⟩
    · rintro ⟨_, ⟨h_range, rfl⟩, h_ext⟩
      exact ⟨h_range, h_ext⟩
  reads := by
    intro before rest mark r
    simp only [h_reads w before rest mark, mem_words_symm]
    refine ⟨?_, ?_⟩
    · rintro ⟨h_pass, rfl⟩
      obtain ⟨-, h_range, h_eq⟩ := h_word (Or.inl h_pass)
      exact ⟨w.signed, ⟨h_range, h_eq.symm⟩, rfl⟩
    · rintro ⟨_, ⟨h_range, rfl⟩, rfl⟩
      obtain ⟨h_pass, -, h_eq⟩ := h_word (Or.inr h_range)
      exact ⟨h_pass, by rw [h_eq]⟩
  undoes_writing := by
    intro b b' bytes h_ok h_bytes
    obtain ⟨h_range, h_ext⟩ := (h_writes n b b').mp h_ok
    obtain ⟨h_pass, -, h_eq⟩ := h_value h_range (Or.inr ((value_ofInt n h_range).symm ▸ h_range))
    rw [value_ofInt n h_range] at h_eq
    -- the bytes that were put are those of the word
    rw [h_bytes.bytes_eq h_ext]
    exact h_reads.reads.mpr ⟨h_pass, h_eq⟩
  undoes_reading := by
    intro before rest mark r h_ok b b' h_ext
    obtain ⟨h_pass, rfl⟩ := (h_reads w before rest mark r).mp h_ok
    obtain ⟨-, h_range, h_eq⟩ := h_word (Or.inl h_pass)
    refine (h_writes _ b b').mpr ⟨h_eq ▸ h_range, ?_⟩
    have h_bytes : word w.signed = w.1 := congrArg Subtype.val w.ofInt_signed
    rw [h_bytes]
    exact h_ext

/-- A codec that writes as it should is as good as it reads the word, and the word of the
value. -/
theorem codesLike_iff
    (h_writes : ∀ n b b', serialise b n = .ok b' ↔ InRange n ∧ b.Extends (word n) b')
    (h_reads : ReadsSigned deserialise Passes) :
    CodesLike serialise deserialise (words InRange value value_ofInt ofInt_value) n w ↔
      (InRange n → ReadRightly Passes InRange value (Word.ofInt n)) ∧
        ReadRightly Passes InRange value w := by
  refine ⟨?_, ?_⟩
  · intro h
    exact ⟨h.readRightly_ofInt h_writes h_reads, h.readRightly h_reads⟩
  · rintro ⟨h_value, h_word⟩
    exact codesLike_of_readRightly h_writes h_reads h_value h_word

end Reading

end Codecs

/-! ### The two converters -/

/-- What both converters do, with their own numbers of bits. -/
theorem readsSigned_of_bits (size : ℕ) (bits : ℤ → ℕ) (message : ℤ → String) :
    ReadsSigned (fun byteBuffer => do
      let (data, byteBuffer) ← byteBuffer.get 32
      let bigInteger := BigInteger.ofByteArray data
      if size < bits bigInteger then throw (.illegalArgument (message bigInteger))
      return (bigInteger, byteBuffer)) fun s => bits s ≤ size := by
  intro w before rest mark r
  dsimp only
  rw [get_append w.2]
  have h_signed : BigInteger.ofByteArray w.1 = w.signed := rfl
  dsimp only [bind, Except.bind]
  rw [h_signed]
  split_ifs with h_bits
  -- the test throws, so nothing is read
  · exact iff_of_false (by simp) fun h => absurd h.1 (not_le.mpr h_bits)
  · rw [and_iff_right (not_lt.mp h_bits), eq_comm (a := r)]
    exact pure_eq_ok

variable {size : IntegerSize} {n : ℤ} {w : Word}

/-- The sizes are multiples of eight: either the top byte of the word is free, or there is none. -/
theorem IntegerSize.two_pow_cases (size : IntegerSize) :
    (2 : ℤ) ^ size.1 = 2 * 2 ^ (size.1 - 1) ∧ 0 < (2 : ℤ) ^ (size.1 - 1) ∧
      (size.1 < 256 ∧ (2 : ℤ) ^ size.1 ≤ 2 ^ 248 ∨ size.1 = 256 ∧ (2 : ℤ) ^ size.1 = 2 ^ 256) := by
  obtain ⟨size, h_pos, h_le, h_mod⟩ := size
  refine ⟨by rw [← pow_succ', Nat.sub_add_cancel h_pos], by positivity, ?_⟩
  -- a size is a whole number of bytes
  by_cases h : size ≤ 248
  · exact Or.inl ⟨Nat.lt_of_le_of_lt h (by decide), pow_le_pow_right₀ (by norm_num) h⟩
  · obtain rfl : size = 256 := by omega
    exact Or.inr ⟨rfl, rfl⟩

namespace UIntTypeConverter

/-- `uintN` reads signed numbers and tests their bit length. -/
theorem readsSigned (size : ℕ) : ReadsSigned (UIntTypeConverter.deserialise size)
    fun s => BigInteger.bitLength s ≤ size :=
  readsSigned_of_bits size BigInteger.bitLength fun n => s!"Value {n} not valid for type uint{size}"

/-- A word with the first bit set is read as a negative number, and rejected if that has
too many bits. -/
theorem readRightly_iff : ReadRightly (fun s => BigInteger.bitLength s ≤ size)
    (UIntTypeConverter.Accepts size) Word.unsigned w ↔
      ¬ (2 ^ 255 ≤ w.unsigned ∧ 2 ^ 256 - 2 ^ size.1 ≤ w.unsigned) := by
  have h_range := w.unsigned_range
  have h_pow := size.two_pow_cases
  unfold ReadRightly UIntTypeConverter.Accepts
  simp only [BigInteger.bitLength_le_iff, w.signed_eq]
  -- below 2 ^ 255 both numbers are the same
  split_ifs <;> omega

/-- A number of `uintN` is read rightly exactly below `2 ^ 255`. -/
theorem readRightly_ofInt (h : UIntTypeConverter.Accepts size n) :
    ReadRightly (fun s => BigInteger.bitLength s ≤ size) (UIntTypeConverter.Accepts size)
      Word.unsigned (Word.ofInt n) ↔ n < 2 ^ 255 := by
  have h_pow := size.two_pow_cases
  rw [readRightly_iff, Word.unsigned_ofInt h.range]
  unfold UIntTypeConverter.Accepts at h
  omega

end UIntTypeConverter

namespace IntTypeConverter

/-- `intN` reads signed numbers; its test counts the sign of negative ones only. -/
theorem readsSigned (size : ℕ) : ReadsSigned (IntTypeConverter.deserialise size)
    fun s => BigInteger.bitLength s + (if s < 0 then 1 else 0) ≤ size :=
  readsSigned_of_bits size (fun s => BigInteger.bitLength s + if s < 0 then 1 else 0)
    fun n => s!"Value {n} not valid for type uint{size}"

/-- A non-negative number is let pass with one bit too many. -/
theorem readRightly_iff :
    ReadRightly (fun s => BigInteger.bitLength s + (if s < 0 then 1 else 0) ≤ size)
      (IntTypeConverter.Accepts size) Word.signed w ↔
      ¬ (2 ^ (size.1 - 1) ≤ w.signed ∧ w.signed < 2 ^ size.1) := by
  have h_pow := size.two_pow_cases
  have h_bits (s : ℤ) : BigInteger.bitLength s + (if s < 0 then 1 else 0) ≤ size ↔
      -2 ^ (size.1 - 1) ≤ s ∧ s < 2 ^ size.1 := by
    have h_all := @BigInteger.bitLength_le_iff s size
    have h_neg := @BigInteger.bitLength_le_iff s (size - 1)
    split_ifs <;> omega
  unfold ReadRightly IntTypeConverter.Accepts
  simp only [h_bits, and_true]
  omega

end IntTypeConverter

/-! ### When they code like the integer types -/

/-- `uintN` by the words that are read rightly. -/
theorem UIntTypeConverter.codesLike_iff_reads :
    CodesLike (UIntTypeConverter.serialiseType size) (UIntTypeConverter.deserialise size)
      (uintWords size) n w ↔
      (UIntTypeConverter.Accepts size n → n < 2 ^ 255) ∧
        ¬ (2 ^ 255 ≤ w.unsigned ∧ 2 ^ 256 - 2 ^ size.1 ≤ w.unsigned) := by
  have h_writes (n : ℤ) (b b' : ByteBuffer) : UIntTypeConverter.serialiseType size b n = .ok b' ↔
      UIntTypeConverter.Accepts size n ∧ b.Extends (word n) b' :=
    UIntTypeConverter.serialiseType_eq_ok size.2.2.1
  unfold uintWords
  rw [codesLike_iff h_writes (UIntTypeConverter.readsSigned size)]
  apply and_congr _ UIntTypeConverter.readRightly_iff
  exact forall_congr' fun h => UIntTypeConverter.readRightly_ofInt h

/-- **The unsigned codec.** It is right unless the value, or the number of the word, needs the
sign bit: a value is not read back then, and a word is read as a negative number. If that
number is too small for the type, the word is rejected, as it should. -/
theorem uint_codesLike_iff (size : IntegerSize) (n : ℤ) (w : Word) :
    CodesLike (UIntTypeConverter.serialiseType size) (UIntTypeConverter.deserialise size)
      (uintWords size) n w ↔
      ¬ (2 ^ 255 ≤ n ∧ n < 2 ^ size.1) ∧
        ¬ (2 ^ 255 ≤ w.unsigned ∧ 2 ^ 256 - 2 ^ size.1 ≤ w.unsigned) := by
  refine UIntTypeConverter.codesLike_iff_reads.trans (and_congr_left' ?_)
  unfold UIntTypeConverter.Accepts
  refine ⟨?_, ?_⟩
  -- only numbers in the upper half of a word are misread
  · intro h h_big
    have h_lt := h ⟨by omega, h_big.2⟩
    omega
  · intro h h_range
    have h_lt := h_range.2
    omega

/-- The largest `uint256` is read back as -1. -/
theorem uint256_not_codesLike : ¬ CodesLike (UIntTypeConverter.serialiseType 256)
    (UIntTypeConverter.deserialise 256) (uintWords ⟨256, by decide⟩) (2 ^ 256 - 1)
    (Word.ofInt (2 ^ 256 - 1)) := by
  intro h
  have h_lt := ((@UIntTypeConverter.codesLike_iff_reads ⟨256, by decide⟩ _ _).mp h).1
    ⟨by norm_num, by norm_num⟩
  norm_num at h_lt

/-- `intN` by the words that are read rightly. -/
theorem IntTypeConverter.codesLike_iff_reads :
    CodesLike (IntTypeConverter.serialiseType size) (IntTypeConverter.deserialise size)
      (intWords size) n w ↔ ¬ (2 ^ (size.1 - 1) ≤ w.signed ∧ w.signed < 2 ^ size.1) := by
  have h_writes (n : ℤ) (b b' : ByteBuffer) : IntTypeConverter.serialiseType size b n = .ok b' ↔
      IntTypeConverter.Accepts size n ∧ b.Extends (word n) b' :=
    IntTypeConverter.serialiseType_eq_ok size.2.1 size.2.2.1
  unfold intWords
  rw [codesLike_iff h_writes (IntTypeConverter.readsSigned size)]
  refine (and_iff_right ?_).trans IntTypeConverter.readRightly_iff
  intro h_value
  -- a value of the type is below the numbers that are let pass by mistake
  have h_lt := h_value.2
  rw [IntTypeConverter.readRightly_iff, Word.signed_ofInt h_value.range]
  omega

/-- **The signed codec.** Every value is written and read back. A word is read as it should
unless its number is from `2 ^ (M - 1)` to `2 ^ M`: `intM` has no such number, but it is
returned. -/
theorem int_codesLike_iff (size : IntegerSize) (n : ℤ) (w : Word) :
    CodesLike (IntTypeConverter.serialiseType size) (IntTypeConverter.deserialise size)
      (intWords size) n w ↔
      ¬ (size.1 < 256 ∧ 2 ^ (size.1 - 1) ≤ w.unsigned ∧ w.unsigned < 2 ^ size.1) := by
  have h_pow := size.two_pow_cases
  have h_range := w.unsigned_range
  rw [IntTypeConverter.codesLike_iff_reads, w.signed_eq]
  split_ifs <;> omega

/-- The word of 255 is read as an `int8`. -/
theorem int8_not_codesLike : ¬ CodesLike (IntTypeConverter.serialiseType 8)
    (IntTypeConverter.deserialise 8) (intWords ⟨8, by decide⟩) 0 (Word.ofInt 255) := by
  intro h
  apply (@IntTypeConverter.codesLike_iff_reads ⟨8, by decide⟩ _ _).mp h
  rw [Word.signed_ofInt ⟨by norm_num, by norm_num⟩]
  norm_num

end Ethiso.Abi
