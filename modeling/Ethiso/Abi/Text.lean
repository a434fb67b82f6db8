import Mathlib.Data.Nat.Notation
import Mathlib.Tactic.Common

/-!
# Java strings and their UTF-8 bytes

A Java string is a list of UTF-16 code units, and any list is one: nothing says that
a surrogate has its partner. `getBytes` writes the characters of the string in UTF-8
and a question mark for a surrogate without partner; `ofBytes` reads bytes and puts
the replacement character where they are not UTF-8.

On strings that are well-formed Unicode the second undoes the first
(`ofBytes_getBytes`).
-/

namespace Ethiso.Abi

/-- A `java.lang.String`: its UTF-16 code units. -/
abbrev JavaString := List UInt16

namespace JavaString

/-- The first unit of a pair. -/
def isHighSurrogate (u : UInt16) : Bool := 0xD800 ≤ u.toNat && u.toNat ≤ 0xDBFF

/-- The second unit of a pair. -/
def isLowSurrogate (u : UInt16) : Bool := 0xDC00 ≤ u.toNat && u.toNat ≤ 0xDFFF

/-- The code units of a character. -/
def utf16 (c : Char) : List UInt16 :=
  if c.toNat < 0x10000 then [UInt16.ofNat c.toNat]
  else [UInt16.ofNat (0xD800 + (c.toNat - 0x10000) / 0x400),
    UInt16.ofNat (0xDC00 + (c.toNat - 0x10000) % 0x400)]

/-- A text that is given by its characters. -/
def ofString (s : String) : JavaString := s.toList.flatMap utf16

/-! ### Writing -/

/-- The characters of a string. A surrogate without partner is a question mark. -/
def characters : JavaString → List Char
  | [] => []
  | u :: l :: rest =>
    if isHighSurrogate u && isLowSurrogate l then
      Char.ofNat (0x10000 + (u.toNat - 0xD800) * 0x400 + (l.toNat - 0xDC00)) :: characters rest
    else if isHighSurrogate u || isLowSurrogate u then '?' :: characters (l :: rest)
    else Char.ofNat u.toNat :: characters (l :: rest)
  | [u] => if isHighSurrogate u || isLowSurrogate u then ['?'] else [Char.ofNat u.toNat]

/-- `getBytes(UTF8_CHARSET)` -/
def getBytes (s : JavaString) : List UInt8 := s.characters.flatMap String.utf8EncodeChar

/-! ### Reading -/

/-- The bytes `10xxxxxx`, which do not begin a character. -/
def isContinuation (b : UInt8) : Bool := 0x80 ≤ b.toNat && b.toNat ≤ 0xBF

/-- How many of the bytes are replaced together, if they do not start with a character. -/
def malformedLength : List UInt8 → ℕ
  | b1 :: b2 :: rest =>
    let third := rest.head?.any isContinuation
    if 0xE0 ≤ b1.toNat ∧ b1.toNat ≤ 0xEF then
      if (b1 = 0xE0 ∧ b2.toNat < 0xA0) ∨ !isContinuation b2 then 1
      else if third then 3 else 2
    else if 0xF0 ≤ b1.toNat ∧ b1.toNat ≤ 0xF4 then
      if (b1 = 0xF0 ∧ b2.toNat < 0x90) ∨ (b1 = 0xF4 ∧ 0x8F < b2.toNat) ∨ !isContinuation b2 then 1
      else if third then 3 else 2
    else 1
  | _ => 1

/-- The character the bytes start with and the number of its bytes. -/
def nextCharacter (bytes : List UInt8) : Char × ℕ :=
  match bytes.toByteArray.utf8DecodeChar? 0 with
  | some c => (c, c.utf8Size)
  | none => ('\uFFFD', malformedLength bytes)

/-- The characters of the bytes, at most `fuel` of them. -/
def decode : ℕ → List UInt8 → List Char
  | 0, _ => []
  | _ + 1, [] => []
  | fuel + 1, b :: rest =>
    let (c, size) := nextCharacter (b :: rest)
    c :: decode fuel ((b :: rest).drop size)

/-- `new String(bytes, UTF8_CHARSET)` -/
def ofBytes (bytes : List UInt8) : JavaString := (decode bytes.length bytes).flatMap utf16

/-! ### Well-formed strings -/

/-- Every surrogate has its partner. -/
def WellFormed (s : JavaString) : Prop := ∃ cs : List Char, s = cs.flatMap utf16

/-- A text that is given by characters is well formed. -/
theorem wellFormed_ofString (s : String) : WellFormed (ofString s) := ⟨s.toList, rfl⟩

theorem isValidChar_toNat (c : Char) : c.toNat < 0xD800 ∨ (0xDFFF < c.toNat ∧ c.toNat < 0x110000) :=
  c.valid

/-- The code units of a character are read as this character. -/
theorem characters_utf16_append (c : Char) (s : JavaString) :
    characters (utf16 c ++ s) = c :: characters s := by
  have h_valid := isValidChar_toNat c
  unfold utf16
  by_cases h_bmp : c.toNat < 0x10000
  -- one code unit, which is no surrogate
  · have h_unit : (UInt16.ofNat c.toNat).toNat = c.toNat := UInt16.toNat_ofNat_of_lt' h_bmp
    have h_high : isHighSurrogate (UInt16.ofNat c.toNat) = false := by
      simp only [isHighSurrogate, h_unit, Bool.and_eq_false_iff, decide_eq_false_iff_not]
      omega
    have h_low : isLowSurrogate (UInt16.ofNat c.toNat) = false := by
      simp only [isLowSurrogate, h_unit, Bool.and_eq_false_iff, decide_eq_false_iff_not]
      omega
    rw [if_pos h_bmp, List.singleton_append]
    cases s with
    | nil => simp [characters, h_high, h_low, h_unit]
    | cons l rest => simp [characters, h_high, h_low, h_unit]
  · -- a pair of surrogates
    obtain ⟨k, h_k⟩ : ∃ k, c.toNat = 0x10000 + k := ⟨c.toNat - 0x10000, by omega⟩
    have h_range : k < 0x100000 := by omega
    have h_u : (UInt16.ofNat (0xD800 + k / 0x400)).toNat = 0xD800 + k / 0x400 :=
      UInt16.toNat_ofNat_of_lt' (by unfold UInt16.size; omega)
    have h_l : (UInt16.ofNat (0xDC00 + k % 0x400)).toNat = 0xDC00 + k % 0x400 :=
      UInt16.toNat_ofNat_of_lt' (by unfold UInt16.size; omega)
    have h_high : isHighSurrogate (UInt16.ofNat (0xD800 + k / 0x400)) = true := by
      simp only [isHighSurrogate, h_u, Bool.and_eq_true, decide_eq_true_eq]
      omega
    have h_low : isLowSurrogate (UInt16.ofNat (0xDC00 + k % 0x400)) = true := by
      simp only [isLowSurrogate, h_l, Bool.and_eq_true, decide_eq_true_eq]
      omega
    have h_char : 0x10000 + (0xD800 + k / 0x400 - 0xD800) * 0x400 + (0xDC00 + k % 0x400 - 0xDC00) =
        c.toNat := by omega
    rw [if_neg h_bmp, h_k, Nat.add_sub_cancel_left]
    simp only [List.cons_append, List.nil_append, characters, h_high, h_low, Bool.and_self, if_true,
      h_u, h_l, h_char, Char.ofNat_toNat]

/-- **Units are read back** as the characters that they were written for. -/
theorem characters_flatMap_utf16 (cs : List Char) : characters (cs.flatMap utf16) = cs := by
  induction cs with
  | nil => rfl
  | cons c cs ih => rw [List.flatMap_cons, characters_utf16_append, ih]

/-- **Bytes are read back** character by character. -/
theorem nextCharacter_utf8 (c : Char) (bytes : List UInt8) :
    nextCharacter (String.utf8EncodeChar c ++ bytes) = (c, c.utf8Size) := by
  unfold nextCharacter
  rw [List.toByteArray_append, ByteArray.utf8DecodeChar?_utf8EncodeChar_append]

theorem decode_flatMap_utf8 (cs : List Char) (fuel : ℕ) (h : cs.length ≤ fuel) :
    decode fuel (cs.flatMap String.utf8EncodeChar) = cs := by
  induction cs generalizing fuel with
  | nil => cases fuel <;> rfl
  | cons c cs ih =>
    obtain ⟨fuel, rfl⟩ : ∃ f, fuel = f + 1 := ⟨fuel - 1, by simp at h; omega⟩
    have h_size : (String.utf8EncodeChar c).length = c.utf8Size := String.length_utf8EncodeChar c
    have h_drop : (String.utf8EncodeChar c ++ cs.flatMap String.utf8EncodeChar).drop c.utf8Size =
        cs.flatMap String.utf8EncodeChar := by rw [← h_size, List.drop_left]
    rw [List.flatMap_cons]
    generalize h_bytes : String.utf8EncodeChar c ++ cs.flatMap String.utf8EncodeChar = bytes
      at h_drop
    have h_next : nextCharacter bytes = (c, c.utf8Size) := by rw [← h_bytes, nextCharacter_utf8]
    cases bytes with
    | nil =>
      -- a character has at least one byte
      have h_pos := c.utf8Size_pos
      have h_len := congrArg List.length h_bytes
      rw [List.length_append, h_size, List.length_nil] at h_len
      omega
    | cons b rest =>
      rw [decode, h_next]
      dsimp only
      rw [h_drop, ih fuel (by simp at h; omega)]

/-- A well-formed string is read back from its bytes. -/
theorem ofBytes_getBytes {s : JavaString} (h : s.WellFormed) : ofBytes (getBytes s) = s := by
  obtain ⟨cs, rfl⟩ := h
  unfold ofBytes getBytes
  rw [characters_flatMap_utf16, decode_flatMap_utf8]
  -- each character has a byte
  induction cs with
  | nil => exact Nat.le_refl 0
  | cons c cs ih =>
    have h_pos := c.utf8Size_pos
    have h_size : (String.utf8EncodeChar c).length = c.utf8Size := String.length_utf8EncodeChar c
    rw [List.flatMap_cons, List.length_append, List.length_cons, h_size]
    omega

/-- Only the empty text has no characters. -/
theorem characters_eq_nil {s : JavaString} : characters s = [] ↔ s = [] := by
  refine ⟨?_, ?_⟩
  · intro h
    unfold characters at h
    split at h
    · rfl
    · split_ifs at h
    · split_ifs at h
  · rintro rfl
    rfl

/-- Only the empty string has no bytes. -/
theorem getBytes_eq_nil {s : JavaString} : getBytes s = [] ↔ s = [] := by
  have h_char (c : Char) : String.utf8EncodeChar c ≠ [] :=
    List.ne_nil_of_length_pos (by rw [String.length_utf8EncodeChar]; exact c.utf8Size_pos)
  unfold getBytes
  rw [← characters_eq_nil, List.flatMap_eq_nil_iff]
  refine ⟨?_, ?_⟩
  · intro h
    by_contra h_ne
    obtain ⟨c, h_c⟩ := List.exists_mem_of_ne_nil _ h_ne
    exact h_char c (h c h_c)
  · intro h c h_c
    rw [h] at h_c
    cases h_c

end JavaString

end Ethiso.Abi
