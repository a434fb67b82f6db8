import Ethiso.Abi.ElementaryNames
import Ethiso.Abi.Specification

/-!
# The names of the types

The factories of arrays take the first brackets out of a name, wherever they stand, and the
manager goes on with what is left (`Peels`). When there are no more brackets, the name has to be
that of an elementary type. A name that ends with its first bracket makes `charAt` throw, since
the factory of `T[]` reads the next character in `supportsType`, where nothing is caught. The
component of an array needs a class, and there is none with more than 255 dimensions
(`BaseType.Admits`).

`getTypeConverter_cases` says what comes of each name; `conforms_iff` compares this with the
grammar of the type names.
-/

namespace Ethiso.Abi

/-! ### Brackets -/

section Brackets

variable {c : Char} {s p p' r r' : List Char}

/-- Where a character stands first: what is before it does not have it. -/
theorem indexOf_eq_some {i : ℕ} :
    indexOf c s = some i ↔ ∃ p r, s = p ++ c :: r ∧ c ∉ p ∧ p.length = i := by
  refine ⟨?_, ?_⟩
  · intro h
    obtain ⟨h_lt, h_c, h_first⟩ := List.findIdx?_eq_some_iff_getElem.mp h
    refine ⟨s.take i, s.drop (i + 1), ?_, ?_, List.length_take_of_le h_lt.le⟩
    · rw [← of_decide_eq_true h_c, List.getElem_cons_drop, List.take_append_drop]
    · intro h_mem
      obtain ⟨j, h_j, h_eq⟩ := List.mem_take_iff_getElem.mp h_mem
      exact h_first j (by omega) (decide_eq_true h_eq)
  · rintro ⟨p, r, rfl, h, rfl⟩
    exact indexOf_append h r

/-- The first place of a character. -/
theorem append_cons_inj (h : c ∉ p) (h' : c ∉ p') (h_eq : p ++ c :: r = p' ++ c :: r') :
    p = p' ∧ r = r' := by
  have h_length : p.length = p'.length :=
    Option.some.inj ((indexOf_append h r).symm.trans (h_eq ▸ indexOf_append h' r'))
  obtain ⟨rfl, h_r⟩ := List.append_inj h_eq h_length
  exact ⟨rfl, (List.cons.inj h_r).2⟩

end Brackets

/-! ### Taking brackets out -/

section Arrays

variable {type p num r : List Char} {size : ArraySize}

/-- Reading the size of an array throws nothing unexpected. -/
theorem getFirstFixedArraySize_regular (type : List Char) :
    Regular (StaticArrayTypeConverterFactory.getFirstFixedArraySize type) := by
  unfold StaticArrayTypeConverterFactory.getFirstFixedArraySize
  split
  · apply Regular.ite (regular_throw rfl)
    exact (parseInt_regular _).bind fun n => Regular.dite (fun _ => regular_ok _) fun _ =>
      regular_throw rfl
  · exact regular_throw rfl

/-- What stands between the brackets is not empty and has no bracket. -/
theorem Spelling.IsArraySize.notMem (h : Spelling.loose.IsArraySize num size) :
    num ≠ [] ∧ ']' ∉ num := by
  rcases h with h | ⟨digits, rfl, h⟩
  · exact ⟨h.ne_nil, h.notMem.2.2.2.1⟩
  · exact ⟨List.cons_ne_nil _ _, List.not_mem_cons_of_ne_of_not_mem (by decide) h.notMem.2.2.2.1⟩

theorem Spelling.IsArraySize.unique {n n' : ℕ} (h : Spelling.loose.IsArraySize num n)
    (h' : Spelling.loose.IsArraySize num n') : n = n' := by
  rcases h with h | ⟨digits, rfl, h⟩
  · rcases h' with h' | ⟨digits, rfl, h'⟩
    · exact h.unique h'
    -- a numeral has no plus sign
    · exact absurd List.mem_cons_self h.notMem.2.1
  · rcases h' with h' | ⟨digits', h_eq, h'⟩
    · exact absurd List.mem_cons_self h'.notMem.2.1
    · obtain rfl := (List.cons.inj h_eq).2
      exact h.unique h'

/-- The first brackets of a name with a number between them. -/
theorem indexOf_brackets (h_open : '[' ∉ p) (h_close : ']' ∉ p) (h_num : ']' ∉ num) :
    indexOf '[' (p ++ '[' :: (num ++ ']' :: r)) = some p.length ∧
      indexOf ']' (p ++ '[' :: (num ++ ']' :: r)) = some (p.length + (num.length + 1)) := by
  refine ⟨indexOf_append h_open _, ?_⟩
  have h_notMem : ']' ∉ p ++ '[' :: num :=
    List.not_mem_append h_close (List.not_mem_cons_of_ne_of_not_mem (by decide) h_num)
  have h_index := indexOf_append h_notMem r
  rwa [List.append_assoc, List.cons_append, List.length_append, List.length_cons] at h_index

/-- **A size is found** exactly between the first brackets of the type. -/
theorem getFirstFixedArraySize_eq_ok :
    StaticArrayTypeConverterFactory.getFirstFixedArraySize type = .ok size ↔
      ∃ p num r, type = p ++ '[' :: (num ++ ']' :: r) ∧ '[' ∉ p ∧ ']' ∉ p ∧
        Spelling.loose.IsArraySize num size := by
  have h_range := size.2
  have h_size : ∀ s, (do
      let n ← parseInt 10 s
      if h : 0 < n ∧ n < 2 ^ 31 then return (⟨n.toNat, by omega⟩ : ArraySize)
      else typeNotSupported type) = .ok size ↔ Spelling.loose.IsArraySize s size := by
    intro s
    rw [bind_eq_ok]
    refine ⟨?_, ?_⟩
    · rintro ⟨n, h_n, h⟩
      split at h
      · next h_pos =>
        obtain ⟨n, rfl⟩ := Int.eq_ofNat_of_zero_le h_pos.1.le
        rw [← pure_eq_ok.mp h]
        exact ((parseInt_eq_ok (by omega)).mp h_n).2
      · cases h
    · intro h
      exact ⟨(size : ℕ), (parseInt_eq_ok h_range.1).mpr ⟨h_range.2, h⟩,
        dif_pos ⟨by omega, by omega⟩⟩
  unfold StaticArrayTypeConverterFactory.getFirstFixedArraySize
  refine ⟨?_, ?_⟩
  · intro h
    split at h
    · next i j h_open h_close =>
      split at h
      · cases h
      · next h_lt =>
        rw [h_size] at h
        obtain ⟨p, q, h_type, h_p, rfl⟩ := indexOf_eq_some.mp h_open
        obtain ⟨p', r, h_type', h_p', rfl⟩ := indexOf_eq_some.mp h_close
        -- the second bracket comes after the first
        obtain ⟨t, rfl, h_t⟩ | ⟨t, rfl, -⟩ := List.append_eq_append_iff.mp
          (h_type.symm.trans h_type')
        · rw [List.length_append] at h_lt
          obtain ⟨c, num, rfl⟩ := List.exists_cons_of_ne_nil
            (List.length_pos_iff.mp (show 0 < t.length by omega))
          obtain ⟨rfl, rfl⟩ := List.cons.inj h_t
          refine ⟨p, num, r, h_type, h_p, fun h_mem => h_p' (List.mem_append_left _ h_mem), ?_⟩
          rw [h_type', List.take_left, List.drop_append, List.drop_of_length_le (by omega),
            Nat.add_sub_cancel_left] at h
          exact h
        · -- the closing bracket is not in front of the other
          rw [List.length_append] at h_lt
          omega
    · cases h
  · rintro ⟨p, num, r, rfl, h_open, h_close, h⟩
    obtain ⟨h_ne, h_num⟩ := h.notMem
    have h_pos := List.length_pos_iff.mpr h_ne
    rw [(indexOf_brackets h_open h_close h_num).1, (indexOf_brackets h_open h_close h_num).2]
    dsimp only
    rw [if_neg (by omega), h_size]
    rw [show p ++ '[' :: (num ++ ']' :: r) = (p ++ ['[']) ++ num ++ [']'] ++ r by simp]
    rw [List.append_assoc (_ ++ _), List.take_left' (by simp), List.drop_left' (by simp)]
    exact h

/-- The first brackets are taken out of the name. -/
theorem getComponentType_eq (h_open : '[' ∉ p) (h_close : ']' ∉ p) (h_num : ']' ∉ num) :
    StaticArrayTypeConverterFactory.getComponentType (p ++ '[' :: (num ++ ']' :: r)) = p ++ r := by
  unfold StaticArrayTypeConverterFactory.getComponentType
  rw [(indexOf_brackets h_open h_close h_num).1, (indexOf_brackets h_open h_close h_num).2]
  dsimp only
  rw [List.take_left]
  rw [show p ++ '[' :: (num ++ ']' :: r) = (p ++ ['[']) ++ num ++ [']'] ++ r by simp]
  rw [List.drop_left' (by simp; omega)]

/-- Whether the first dimension has a size is decided by the character behind its bracket. -/
theorem isFirstArraySizeDynamic_eq (h_open : '[' ∉ p) :
    DynamicArrayTypeConverterFactory.isFirstArraySizeDynamic (p ++ '[' :: r) =
      match r[0]? with
      | some c => .ok (c = ']')
      | none => .error .indexOutOfBounds := by
  unfold DynamicArrayTypeConverterFactory.isFirstArraySizeDynamic
  rw [indexOf_append h_open]
  dsimp only
  rw [List.getElem?_append_right (Nat.le_add_right _ 1), Nat.add_sub_cancel_left,
    List.getElem?_cons_succ]
  cases r <;> rfl

end Arrays

/-! ### The factories of the elementary types -/

section Elementary

variable {type word : List Char}

/-- What throws nothing unexpected and does not return has failed. -/
theorem Regular.fails {α : Type} {attempt : Java α} (h : Regular attempt)
    (h_ok : ∀ x, attempt ≠ .ok x) : Fails attempt := by
  rcases h with ⟨x, h⟩ | h
  · exact absurd h (h_ok x)
  · exact h

/-- They support no name with a bracket. -/
theorem integerSize_fails_of_bracket (h_word : '[' ∉ word) (h : '[' ∈ type) :
    Fails (integerSize word type) := by
  apply (integerSize_regular word type).fails
  intro size h_size
  obtain ⟨suffix, rfl, h_suffix⟩ := integerSize_eq_ok.mp h_size
  exact List.not_mem_append h_word h_suffix.notMem.1 h

/-- No size of a fixed-point type has a bracket in it. -/
theorem fixedPointSizes_fails_of_bracket (h_word : '[' ∉ word) (h : '[' ∈ type) :
    Fails (fixedPointSizes word type) := by
  apply (fixedPointSizes_regular word type).fails
  intro sizes h_sizes
  obtain ⟨suffix, m, n, rfl, h_suffix, -⟩ := fixedPointSizes_eq_ok.mp h_sizes
  exact List.not_mem_append h_word h_suffix.notMem.1 h

theorem parseUnsignedInt_fails_of_bracket {s : List Char} (h : '[' ∈ s) :
    Fails (parseUnsignedInt s) := by
  apply (parseUnsignedInt_regular s).fails
  intro n h_n
  unfold parseUnsignedInt at h_n
  dsimp only at h_n
  split at h_n
  -- the three ways in which the text is read: empty, signed, unsigned
  · cases h_n
  · next digits =>
    obtain ⟨k, h_k, -⟩ := bind_eq_ok.mp h_n
    obtain ⟨m, h_m, -⟩ := map_eq_ok.mp h_k
    exact (parseDigits_eq_ok.mp h_m).notMem.2.2.1 (List.mem_of_ne_of_mem (by decide) h)
  · obtain ⟨k, h_k, -⟩ := bind_eq_ok.mp h_n
    obtain ⟨m, h_m, -⟩ := map_eq_ok.mp h_k
    exact (parseDigits_eq_ok.mp h_m).notMem.2.2.1 h

theorem getSize_fails_of_bracket (h : '[' ∈ type) :
    Fails (StaticBytesTypeConverterFactory.getSize type) := by
  apply (StaticBytesTypeConverterFactory.getSize_regular type).fails
  intro size h_size
  obtain ⟨suffix, h_suffix, h_size⟩ := bind_eq_ok.mp h_size
  obtain rfl := suffixOf_eq_ok.mp h_suffix
  obtain ⟨-, h_size⟩ := guard_eq_ok.mp h_size
  obtain ⟨-, h_size⟩ := guard_eq_ok.mp h_size
  obtain ⟨n, h_n, -⟩ := bind_eq_ok.mp h_size
  have h_mem : '[' ∈ suffix := (List.mem_append.mp h).resolve_left (by decide)
  exact (parseUnsignedInt_fails_of_bracket h_mem).not_ok n h_n

end Elementary

/-! ### The manager -/

namespace TypeConverterManagerImpl

variable {manager : List Char → Java AnyTypeConverter} {type p num r : List Char}

/-- A type with a bracket is none of the names without one. -/
theorem ne_of_bracket {name : List Char} (h : '[' ∈ type) (h_name : '[' ∉ name) : type ≠ name := by
  rintro rfl
  exact h_name h

/-- The first two factories are those of `address` and `bool`. -/
theorem newTypeConverter_bracket (h : '[' ∈ type) :
    newTypeConverter manager type TYPE_CONVERTER_FACTORIES =
      newTypeConverter manager type (TYPE_CONVERTER_FACTORIES.drop 2) := by
  have h_address : type ≠ ['a', 'd', 'd', 'r', 'e', 's', 's'] := ne_of_bracket h (by decide)
  have h_bool : type ≠ ['b', 'o', 'o', 'l'] := ne_of_bracket h (by decide)
  refine (newTypeConverter_skip (namedFactory_skip h_address)).trans ?_
  exact newTypeConverter_skip (namedFactory_skip h_bool)

/-- The first bracket is the last character. -/
theorem newTypeConverter_open (h : '[' ∉ p) :
    newTypeConverter manager (p ++ ['[']) TYPE_CONVERTER_FACTORIES = .error .indexOutOfBounds := by
  have h_mem : '[' ∈ p ++ ['['] := List.mem_append_right p List.mem_cons_self
  rw [newTypeConverter_bracket h_mem]
  show (DynamicArrayTypeConverterFactory.isFirstArraySizeDynamic (p ++ ['[']) >>= _) = _
  rw [isFirstArraySizeDynamic_eq h]
  rfl

/-- **A dynamic dimension** is taken by the first factory, which asks the manager for the rest. -/
theorem newTypeConverter_dynamic (h : '[' ∉ p) :
    newTypeConverter manager (p ++ '[' :: ']' :: r) TYPE_CONVERTER_FACTORIES =
      (do
        let component ← manager (p ++ r)
        let _ ← component.2.getTypeClass
        return ⟨_, .dynamicArray component.2⟩) := by
  have h_mem : '[' ∈ p ++ '[' :: ']' :: r := List.mem_append_right p List.mem_cons_self
  -- the bracket is closed at once
  have h_first : DynamicArrayTypeConverterFactory.isFirstArraySizeDynamic
      (p ++ '[' :: ']' :: r) = .ok true := by
    rw [isFirstArraySizeDynamic_eq h]
    rfl
  have h_component : DynamicArrayTypeConverterFactory.getComponentType (p ++ '[' :: ']' :: r) =
      p ++ r := by
    unfold DynamicArrayTypeConverterFactory.getComponentType
    rw [indexOf_append h]
    dsimp only
    rw [List.take_left, List.drop_append]
    simp
  rw [newTypeConverter_bracket h_mem]
  refine (newTypeConverter_take h_first).trans ?_
  show (DynamicArrayTypeConverterFactory.isFirstArraySizeDynamic _ >>= _) = _
  rw [h_first, h_component]
  rfl

/-- The factories before that of `T[k]` support no other name with a bracket. -/
theorem newTypeConverter_other (h : '[' ∉ p) (h_ne : r ≠ []) (h_first : r[0]? ≠ some ']') :
    newTypeConverter manager (p ++ '[' :: r) TYPE_CONVERTER_FACTORIES =
      newTypeConverter manager (p ++ '[' :: r) (TYPE_CONVERTER_FACTORIES.drop 6) := by
  have h_mem : '[' ∈ p ++ '[' :: r := List.mem_append_right p List.mem_cons_self
  have h_dynamic : DynamicArrayTypeConverterFactory.isFirstArraySizeDynamic (p ++ '[' :: r) =
      .ok false := by
    rw [isFirstArraySizeDynamic_eq h]
    obtain ⟨c, r, rfl⟩ := List.exists_cons_of_ne_nil h_ne
    exact congrArg Except.ok (decide_eq_false fun h_c => h_first (congrArg some h_c))
  -- the factories of elementary types refuse every bracket
  have h_fixed := @fixedPointSizes_fails_of_bracket _ FIXED (by decide) h_mem
  have h_int := @integerSize_fails_of_bracket _ INT (by decide) h_mem
  rw [newTypeConverter_bracket h_mem]
  refine (newTypeConverter_skip h_dynamic).trans ?_
  refine (newTypeConverter_skip (namedFactory_skip (ne_of_bracket h_mem (by decide)))).trans ?_
  refine (newTypeConverter_skip (supported_of_fails h_fixed)).trans ?_
  exact newTypeConverter_skip (supported_of_fails h_int)

/-- **A dimension with a size** is taken by the factory of static arrays. -/
theorem newTypeConverter_static {size : ArraySize} (h_open : '[' ∉ p) (h_close : ']' ∉ p)
    (h_num : Spelling.loose.IsArraySize num size) :
    newTypeConverter manager (p ++ '[' :: (num ++ ']' :: r)) TYPE_CONVERTER_FACTORIES =
      (do
        let component ← manager (p ++ r)
        let _ ← component.2.getTypeClass
        return ⟨_, .staticArray component.2 size⟩) := by
  obtain ⟨h_ne, h_notMem⟩ := h_num.notMem
  have h_size := getFirstFixedArraySize_eq_ok.mpr ⟨p, num, r, rfl, h_open, h_close, h_num⟩
  have h_first : (num ++ ']' :: r)[0]? ≠ some ']' := by
    -- the first character of the size is not a bracket
    obtain ⟨c, num, rfl⟩ := List.exists_cons_of_ne_nil h_ne
    exact fun h_c => h_notMem (Option.some.inj h_c ▸ List.mem_cons_self)
  refine (newTypeConverter_other h_open (by simp) h_first).trans ?_
  refine (newTypeConverter_take (supported_of_ok h_size)).trans ?_
  show (StaticArrayTypeConverterFactory.getFirstFixedArraySize _ >>= _) = _
  rw [h_size, getComponentType_eq h_open h_close h_notMem]
  rfl

/-- Any other name with a bracket is refused by all factories. -/
theorem newTypeConverter_refused (h : '[' ∉ p) (h_ne : r ≠ []) (h_first : r[0]? ≠ some ']')
    (h_size : ∀ size, StaticArrayTypeConverterFactory.getFirstFixedArraySize (p ++ '[' :: r) ≠
      .ok size) :
    Fails (newTypeConverter manager (p ++ '[' :: r) TYPE_CONVERTER_FACTORIES) := by
  have h_mem : '[' ∈ p ++ '[' :: r := List.mem_append_right p List.mem_cons_self
  have h_static := (getFirstFixedArraySize_regular (p ++ '[' :: r)).fails h_size
  have h_bytes := getSize_fails_of_bracket h_mem
  have h_ufixed := @fixedPointSizes_fails_of_bracket _ UFIXED (by decide) h_mem
  have h_uint := @integerSize_fails_of_bracket _ UINT (by decide) h_mem
  -- no factory from here on supports the type
  have h_none : newTypeConverter manager (p ++ '[' :: r) (TYPE_CONVERTER_FACTORIES.drop 6) =
      newTypeConverter manager (p ++ '[' :: r) [] := by
    refine (newTypeConverter_skip (supported_of_fails h_static)).trans ?_
    refine (newTypeConverter_skip (supported_of_fails h_bytes)).trans ?_
    refine (newTypeConverter_skip (namedFactory_skip (ne_of_bracket h_mem (by decide)))).trans ?_
    refine (newTypeConverter_skip (supported_of_fails h_ufixed)).trans ?_
    exact newTypeConverter_skip (supported_of_fails h_uint)
  rw [newTypeConverter_other h h_ne h_first, h_none]
  exact ⟨_, rfl, rfl⟩

end TypeConverterManagerImpl

/-! ### All brackets -/

/-- The converter of arrays with this dimension. -/
def Dimension.converter {c : JavaClass} (component : TypeConverter c) :
    Dimension → TypeConverter (.array c)
  | .dynamic => .dynamicArray component
  | .fixed size => .staticArray component size

/-- The converter with these dimensions around another one, the first being the outermost. -/
def nested (converter : AnyTypeConverter) : List Dimension → AnyTypeConverter
  | [] => converter
  | dimension :: dimensions => ⟨_, dimension.converter (nested converter dimensions).2⟩

/-- The factories build the converters of the dimensions, the innermost first. They ask each
component for its class. -/
def buildNested (converter : AnyTypeConverter) : List Dimension → Java AnyTypeConverter
  | [] => return converter
  | dimension :: dimensions => do
    let component ← buildNested converter dimensions
    let _ ← component.2.getTypeClass
    return ⟨_, dimension.converter component.2⟩

/-- The component of the outermost array has a class: it has no more than 255 dimensions, of which
a `byte[]` is one. -/
def BaseType.Admits (base : BaseType) (dimensions : List Dimension) : Prop :=
  base.converter.1.dimensions + dimensions.length ≤ 256

instance (base : BaseType) (dimensions : List Dimension) : Decidable (base.Admits dimensions) :=
  inferInstanceAs (Decidable (_ ≤ 256))

section Classes

variable {base : BaseType} {dimensions : List Dimension}

/-- An elementary type is represented by a class of at most one dimension. -/
theorem BaseType.dimensions_le (base : BaseType) : base.converter.1.dimensions ≤ 1 := by
  cases base <;> simp [BaseType.converter, JavaClass.dimensions]

theorem BaseType.getTypeClass_converter (base : BaseType) :
    base.converter.2.getTypeClass = .ok base.converter.1 := by
  cases base <;> rfl

/-- Each suffix adds one dimension to the class. -/
theorem dimensions_nested :
    (nested base.converter dimensions).1.dimensions =
      base.converter.1.dimensions + dimensions.length := by
  induction dimensions with
  | nil => rfl
  | cons dimension dimensions ih =>
    show (nested base.converter dimensions).1.dimensions + 1 = _
    rw [ih, List.length_cons, Nat.add_assoc]

/-- What the factory of an outer array asks its component for. -/
theorem getTypeClass_nested :
    (nested base.converter dimensions).2.getTypeClass =
      if base.converter.1.dimensions + dimensions.length ≤ 255
      then .ok (nested base.converter dimensions).1 else .error (.illegalArgument "") := by
  cases dimensions with
  | nil =>
    have h_le := base.dimensions_le
    rw [if_pos (by rw [List.length_nil]; omega)]
    exact base.getTypeClass_converter
  | cons dimension dimensions =>
    have h_class : (nested base.converter (dimension :: dimensions)).2.getTypeClass =
        (nested base.converter dimensions).1.newInstance := by
      cases dimension <;> rfl
    rw [h_class]
    unfold JavaClass.newInstance
    rw [dimensions_nested, List.length_cons, ← Nat.add_assoc]
    rfl

/-- **The classes of arrays**: only the number of the dimensions can be refused. -/
theorem buildNested_eq (base : BaseType) (dimensions : List Dimension) :
    buildNested base.converter dimensions =
      if base.Admits dimensions then .ok (nested base.converter dimensions)
      else .error (.illegalArgument "") := by
  -- the limit is met by all inner dimensions if it is met by the last
  induction dimensions with
  | nil =>
    have h_admits : base.Admits [] := base.dimensions_le.trans (by decide)
    rw [if_pos h_admits]
    rfl
  | cons dimension dimensions ih =>
    have h_admits : base.Admits (dimension :: dimensions) ↔
        base.converter.1.dimensions + dimensions.length ≤ 255 := by
      unfold BaseType.Admits
      rw [List.length_cons]
      omega
    rw [buildNested, ih]
    -- the inner converter is within the limit, or the outer one is not reached
    by_cases h_fits : base.converter.1.dimensions + dimensions.length ≤ 255
    · have h_inner : base.Admits dimensions := Nat.le_succ_of_le h_fits
      rw [if_pos h_inner, if_pos (h_admits.mpr h_fits)]
      show ((nested base.converter dimensions).2.getTypeClass >>= _) = _
      rw [getTypeClass_nested, if_pos h_fits]
      rfl
    · rw [if_neg fun h => h_fits (h_admits.mp h)]
      -- too deep inside is too deep outside
      split_ifs with h_inner
      · show ((nested base.converter dimensions).2.getTypeClass >>= _) = _
        rw [getTypeClass_nested, if_neg h_fits]
        rfl
      · rfl

end Classes

/-- The name `e` is left when these dimensions were taken out of the other name, each time the
first brackets. -/
inductive Peels : List Char → List Char → List Dimension → Prop
  | nil (e : List Char) : Peels e e []
  | dynamic {p r e : List Char} {dimensions : List Dimension} (h_open : '[' ∉ p)
    (h : Peels (p ++ r) e dimensions) : Peels (p ++ '[' :: ']' :: r) e (.dynamic :: dimensions)
  | fixed {p num r e : List Char} {size : ArraySize} {dimensions : List Dimension}
    (h_open : '[' ∉ p) (h_close : ']' ∉ p) (h_num : Spelling.loose.IsArraySize num size)
    (h : Peels (p ++ r) e dimensions) :
    Peels (p ++ '[' :: (num ++ ']' :: r)) e (.fixed size :: dimensions)

/-- The first bracket stands at the end, or does so when others were taken out. -/
def CutOff (s : List Char) : Prop :=
  ∃ p dimensions, '[' ∉ p ∧ Peels s (p ++ ['[']) dimensions

/-- There is something between the first bracket and the end, but no size. -/
def BadSize (s : List Char) : Prop :=
  ∃ p r, s = p ++ '[' :: r ∧ '[' ∉ p ∧ r ≠ [] ∧ r[0]? ≠ some ']' ∧
    ∀ size, StaticArrayTypeConverterFactory.getFirstFixedArraySize s ≠ .ok size

section Peels

variable {s e e' : List Char} {dimensions dimensions' : List Dimension}

/-- Each suffix takes a character at least. -/
theorem Peels.length_le (h : Peels s e dimensions) : e.length + dimensions.length ≤ s.length := by
  induction h with
  | nil e => exact Nat.le_refl _
  | dynamic h_open h ih =>
    rw [List.length_append] at ih
    simp only [List.length_append, List.length_cons]
    omega
  | fixed h_open h_close h_num h ih =>
    rw [List.length_append] at ih
    simp only [List.length_append, List.length_cons]
    omega

/-- Taking out as many brackets as possible. -/
theorem exists_peels (s : List Char) : ∃ e dimensions, Peels s e dimensions ∧
    ('[' ∉ e ∨ (∃ p, '[' ∉ p ∧ e = p ++ ['[']) ∨ BadSize e) := by
  -- by induction on the length: what is left when brackets are taken out is shorter
  induction h_length : s.length using Nat.strong_induction_on generalizing s with
  | _ n ih =>
  subst h_length
  by_cases h : '[' ∈ s
  · obtain ⟨p, r, rfl, h_open⟩ := List.eq_append_cons_of_mem h
    match r with
    -- the bracket is the last character
    | [] => exact ⟨_, [], .nil _, Or.inr (Or.inl ⟨p, h_open, rfl⟩)⟩
    | c :: r =>
      by_cases h_c : c = ']'
      · subst h_c
        obtain ⟨e, dimensions, h_peels, h_e⟩ := ih (p ++ r).length (by simp) (p ++ r) rfl
        exact ⟨e, _, .dynamic h_open h_peels, h_e⟩
      · by_cases h_size : ∃ size,
            StaticArrayTypeConverterFactory.getFirstFixedArraySize (p ++ '[' :: c :: r) = .ok size
        · obtain ⟨size, h_size⟩ := h_size
          obtain ⟨p', num, r', h_eq, h_open', h_close, h_num⟩ :=
            getFirstFixedArraySize_eq_ok.mp h_size
          rw [h_eq] at ih ⊢
          obtain ⟨e, dimensions, h_peels, h_e⟩ :=
            ih (p' ++ r').length (by simp; omega) (p' ++ r') rfl
          exact ⟨e, _, .fixed h_open' h_close h_num h_peels, h_e⟩
        · have h_bad : BadSize (p ++ '[' :: c :: r) :=
            ⟨p, c :: r, rfl, h_open, List.cons_ne_nil c r, fun h => h_c (Option.some.inj h),
              fun size h => h_size ⟨size, h⟩⟩
          exact ⟨_, [], .nil _, Or.inr (Or.inr h_bad)⟩
  · exact ⟨s, [], .nil s, Or.inl h⟩

/-- There is one way to take out all brackets. -/
theorem Peels.unique (h : Peels s e dimensions) (h' : Peels s e' dimensions') (h_e : '[' ∉ e)
    (h_e' : '[' ∉ e') : e = e' ∧ dimensions = dimensions' := by
  have h_mem (p r : List Char) : '[' ∈ p ++ '[' :: r := List.mem_append_right p List.mem_cons_self
  induction h generalizing dimensions' with
  | nil e =>
    cases h' with
    | nil => exact ⟨rfl, rfl⟩
    | dynamic => exact absurd (h_mem _ _) h_e
    | fixed => exact absurd (h_mem _ _) h_e
  | @dynamic p r e dimensions h_open h ih =>
    generalize h_s : p ++ '[' :: ']' :: r = s at h'
    cases h' with
    | nil =>
      subst h_s
      exact absurd (h_mem _ _) h_e'
    | dynamic h_open' h' =>
      obtain ⟨rfl, h_r⟩ := append_cons_inj h_open h_open' h_s
      obtain rfl := (List.cons.inj h_r).2
      obtain ⟨rfl, rfl⟩ := ih h' h_e
      exact ⟨rfl, rfl⟩
    | fixed h_open' h_close h_num h' =>
      -- a size is not empty, and has no bracket in it
      obtain ⟨rfl, h_r⟩ := append_cons_inj h_open h_open' h_s
      obtain ⟨h_ne, h_notMem⟩ := h_num.notMem
      obtain ⟨c, num, rfl⟩ := List.exists_cons_of_ne_nil h_ne
      exact absurd ((List.cons.inj h_r).1 ▸ List.mem_cons_self) h_notMem
  | @fixed p num r e size dimensions h_open h_close h_num h ih =>
    generalize h_s : p ++ '[' :: (num ++ ']' :: r) = s at h'
    obtain ⟨h_ne, h_notMem⟩ := h_num.notMem
    cases h' with
    | nil =>
      subst h_s
      exact absurd (h_mem _ _) h_e'
    | dynamic h_open' h' =>
      obtain ⟨rfl, h_r⟩ := append_cons_inj h_open h_open' h_s
      obtain ⟨c, num, rfl⟩ := List.exists_cons_of_ne_nil h_ne
      exact absurd ((List.cons.inj h_r).1 ▸ List.mem_cons_self) h_notMem
    | fixed h_open' h_close' h_num' h' =>
      -- both end at the first closing bracket
      obtain ⟨rfl, h_r⟩ := append_cons_inj h_open h_open' h_s
      obtain ⟨rfl, rfl⟩ := append_cons_inj h_notMem h_num'.notMem.2 h_r
      obtain ⟨rfl, rfl⟩ := ih h' h_e
      obtain rfl := Subtype.ext (h_num.unique h_num')
      exact ⟨rfl, rfl⟩

end Peels

namespace TypeConverterManagerImpl

variable {s e : List Char} {dimensions : List Dimension} {depth : ℕ}

/-- The manager takes out the brackets, and builds the arrays around what it finds. -/
theorem getTypeConverterWithin_peels (h : Peels s e dimensions) :
    getTypeConverterWithin (depth + dimensions.length) s =
      getTypeConverterWithin depth e >>= fun converter => buildNested converter dimensions := by
  induction h with
  | nil e => cases getTypeConverterWithin depth e <;> rfl
  | dynamic h_open h ih =>
    rw [List.length_cons, ← Nat.add_assoc, getTypeConverterWithin, newTypeConverter_dynamic h_open,
      ih]
    cases getTypeConverterWithin depth _ <;> rfl
  | fixed h_open h_close h_num h ih =>
    rw [List.length_cons, ← Nat.add_assoc, getTypeConverterWithin,
      newTypeConverter_static h_open h_close h_num, ih]
    cases getTypeConverterWithin depth _ <;> rfl

/-- What the manager answers depends on the name without the brackets. -/
theorem getTypeConverter_peels (h : Peels s e dimensions) :
    ∃ manager, getTypeConverter s = newTypeConverter manager e TYPE_CONVERTER_FACTORIES >>=
      fun converter => buildNested converter dimensions := by
  -- there are not more dimensions than characters, so the nesting is deep enough
  have h_length := h.length_le
  refine ⟨getTypeConverterWithin (s.length - dimensions.length), ?_⟩
  have h_depth : s.length + 1 = (s.length - dimensions.length + 1) + dimensions.length := by omega
  unfold getTypeConverter
  rw [h_depth, getTypeConverterWithin_peels h]
  rfl

/-- The name of an elementary type with brackets in it. -/
theorem getTypeConverter_elementary {base : BaseType} (h : Peels s e dimensions)
    (h_e : ElementaryName Spelling.loose e base) :
    getTypeConverter s =
      if base.Admits dimensions then .ok (nested base.converter dimensions)
      else .error (.illegalArgument "") := by
  obtain ⟨manager, h_eq⟩ := getTypeConverter_peels h
  rw [h_eq, newTypeConverter_elementary manager h_e, ← buildNested_eq]
  rfl

/-- **Types with suffixes**: the converter is the nesting, if the limit of dimensions is kept. -/
theorem getTypeConverter_elementary_eq_ok {base : BaseType} (h : Peels s e dimensions)
    (h_e : ElementaryName Spelling.loose e base) {converter : AnyTypeConverter} :
    getTypeConverter s = .ok converter ↔
      base.Admits dimensions ∧ nested base.converter dimensions = converter := by
  rw [getTypeConverter_elementary h h_e]
  by_cases h_admits : base.Admits dimensions
  · rw [if_pos h_admits, and_iff_right h_admits]
    exact ⟨Except.ok.inj, congrArg Except.ok⟩
  · rw [if_neg h_admits]
    exact iff_of_false (fun h => nomatch h) fun h => h_admits h.1

/-- A type that ends behind a bracket is cut off: the code reads past the end. -/
theorem getTypeConverter_cutOff (h : CutOff s) :
    getTypeConverter s = .error .indexOutOfBounds := by
  obtain ⟨p, dimensions, h_p, h_peels⟩ := h
  obtain ⟨manager, h_eq⟩ := getTypeConverter_peels h_peels
  rw [h_eq, newTypeConverter_open h_p]
  rfl

/-- **What comes of a name**: a converter, `StringIndexOutOfBoundsException`, or
`IllegalArgumentException`. -/
theorem getTypeConverter_cases (s : List Char) :
    (∃ e base dimensions, Peels s e dimensions ∧ ElementaryName Spelling.loose e base ∧
      base.Admits dimensions) ∨ CutOff s ∨ Fails (getTypeConverter s) := by
  obtain ⟨e, dimensions, h, h_e | ⟨p, h_p, rfl⟩ | ⟨p, r, rfl, h_open, h_ne, h_first, h_size⟩⟩ :=
    exists_peels s
  · obtain ⟨manager, h_eq⟩ := getTypeConverter_peels h
    -- the rest is an elementary name, or no factory knows it
    rcases @regular_of_notMem manager _ h_e with ⟨converter, h_ok⟩ | ⟨x, h_x, h_fails⟩
    · obtain ⟨base, h_base, -⟩ := (newTypeConverter_iff h_e).mp h_ok
      by_cases h_admits : base.Admits dimensions
      · exact Or.inl ⟨e, base, dimensions, h, h_base, h_admits⟩
      · exact Or.inr (Or.inr ⟨_, (getTypeConverter_elementary h h_base).trans (if_neg h_admits),
          rfl⟩)
    · exact Or.inr (Or.inr ⟨x, by rw [h_eq, h_x]; rfl, h_fails⟩)
  · exact Or.inr (Or.inl ⟨p, dimensions, h_p, h⟩)
  -- the first bracket is not that of a dimension
  · obtain ⟨manager, h_eq⟩ := getTypeConverter_peels h
    obtain ⟨x, h_x, h_fails⟩ := @newTypeConverter_refused manager _ _ h_open h_ne h_first
      h_size
    exact Or.inr (Or.inr ⟨x, by rw [h_eq, h_x]; rfl, h_fails⟩)

end TypeConverterManagerImpl

/-! ### The grammar of the names -/

/-- A string of ASCII characters. -/
abbrev AsciiString := { s : List Char // ∀ c ∈ s, c.toNat < 128 }

/-- The name of a type: the name of an elementary type, and the dimensions after it. -/
def TypeName (s : List Char) : Prop :=
  ∃ e base, ∃ dimensions : List Dimension, ElementaryName Spelling.strict e base ∧
    s = e ++ dimensions.flatMap Dimension.name

/-- Without its brackets, the name is that of an elementary type; but there are zeros in front of
a size, or letters `x` after two of them, or the dimensions are not written at the end, or not in
this way: there are zeros or a plus sign in front of their sizes. -/
def Deviates (s : List Char) : Prop :=
  ∃ e base dimensions, Peels s e dimensions ∧ ElementaryName Spelling.loose e base ∧
    ((¬∃ base, ElementaryName Spelling.strict e base) ∨ s ≠ e ++ dimensions.flatMap Dimension.name)

/-- Without its brackets, the name is that of an elementary type, but there are too many dimensions
for a class. -/
def TooDeep (s : List Char) : Prop :=
  ∃ e base dimensions, Peels s e dimensions ∧ ElementaryName Spelling.loose e base ∧
    ¬base.Admits dimensions

/-- The dimensions are taken out one after the other. -/
theorem peels_name {e : List Char} (h : '[' ∉ e ∧ ']' ∉ e) (dimensions : List Dimension) :
    Peels (e ++ dimensions.flatMap Dimension.name) e dimensions := by
  induction dimensions with
  | nil =>
    -- an elementary name is peeled of nothing
    rw [List.flatMap_nil, List.append_nil]
    exact .nil e
  | cons dimension dimensions ih =>
    rw [List.flatMap_cons]
    cases dimension with
    | dynamic => exact .dynamic h.1 ih
    | fixed size =>
      have h_name : (Dimension.fixed size).name ++ dimensions.flatMap Dimension.name =
          '[' :: (numeral 10 size ++ ']' :: dimensions.flatMap Dimension.name) := by
        simp [Dimension.name]
      rw [h_name]
      exact .fixed h.1 h.2 (Or.inl (digits_numeral size)) ih

/-- A name that deviates is not the name of a type. -/
theorem Deviates.not_typeName {s : List Char} (h : Deviates s) : ¬TypeName s := by
  rintro ⟨e', base', dimensions', h_e', h_s⟩
  obtain ⟨e, base, dimensions, h_peels, h_e, h⟩ := h
  have h_peels' := peels_name h_e'.loose.notMem dimensions'
  rw [← h_s] at h_peels'
  obtain ⟨rfl, rfl⟩ := h_peels.unique h_peels' h_e.notMem.1 h_e'.loose.notMem.1
  exact h.elim (fun h => h ⟨base', h_e'⟩) fun h => h h_s

namespace TypeConverterManagerImpl

/-- The manager accepts a name of a type, and refuses any other string with
`IllegalArgumentException`. -/
def Conforms (s : List Char) : Prop :=
  ((∃ converter, getTypeConverter s = .ok converter) ↔ TypeName s) ∧
    (¬TypeName s → Fails (getTypeConverter s))

/-- What ends in an unexpected exception does not conform. -/
theorem not_conforms_of_error {s : List Char}
    (h : getTypeConverter s = .error .indexOutOfBounds) : ¬Conforms s := by
  rintro ⟨h_ok, h_fails⟩
  have h_name : ¬TypeName s := by
    intro h_name
    obtain ⟨converter, h_converter⟩ := h_ok.mpr h_name
    rw [h] at h_converter
    cases h_converter
  obtain ⟨x, h_x, h_illegal⟩ := h_fails h_name
  rw [h] at h_x
  cases h_x
  cases h_illegal

/-- A name with too many dimensions is refused. -/
theorem TooDeep.fails {s : List Char} (h : TooDeep s) : Fails (getTypeConverter s) := by
  obtain ⟨e, base, dimensions, h_peels, h_e, h_not⟩ := h
  exact ⟨_, (getTypeConverter_elementary h_peels h_e).trans (if_neg h_not), rfl⟩

/-- A name of Solidity has a converter, if it is not too deep. -/
theorem TypeName.exists_converter {s : List Char} (h : TypeName s) (h_deep : ¬TooDeep s) :
    ∃ converter, getTypeConverter s = .ok converter := by
  obtain ⟨e, base, dimensions, h_e, rfl⟩ := h
  have h_peels := peels_name h_e.loose.notMem dimensions
  have h_admits : base.Admits dimensions := by
    by_contra h_not
    exact h_deep ⟨e, base, dimensions, h_peels, h_e.loose, h_not⟩
  exact ⟨_, (getTypeConverter_elementary h_peels h_e.loose).trans (if_pos h_admits)⟩

/-- What is read is the name of a type, or deviates from one. -/
theorem typeName_or_deviates {s e : List Char} {base : BaseType} {dimensions : List Dimension}
    (h : Peels s e dimensions) (h_e : ElementaryName Spelling.loose e base) :
    TypeName s ∨ Deviates s := by
  by_cases h_strict : (∃ base, ElementaryName Spelling.strict e base) ∧
      s = e ++ dimensions.flatMap Dimension.name
  · obtain ⟨⟨base', h_base'⟩, h_s⟩ := h_strict
    exact Or.inl ⟨e, base', dimensions, h_base', h_s⟩
  · exact Or.inr ⟨e, base, dimensions, h, h_e, not_and_or.mp h_strict⟩

/-- **The names that are accepted** are the names of the types, and any other string is refused
with `IllegalArgumentException`, except for the strings whose first bracket is cut off, those that
deviate from such a name and are not refused for their dimensions, and the names that are. -/
theorem conforms_iff (s : AsciiString) :
    Conforms s.1 ↔
      ¬CutOff s.1 ∧ (Deviates s.1 → TooDeep s.1) ∧ (TypeName s.1 → ¬TooDeep s.1) := by
  refine ⟨fun h => ⟨fun h_cutOff => ?_, fun h_deviates => ?_, fun h_name h_deep => ?_⟩, ?_⟩
  · exact not_conforms_of_error (getTypeConverter_cutOff h_cutOff) h
  · have h_name := h_deviates.not_typeName
    obtain ⟨e, base, dimensions, h_peels, h_e, -⟩ := h_deviates
    -- with a class, the manager would have found a converter
    refine ⟨e, base, dimensions, h_peels, h_e, fun h_admits => h_name (h.1.mp ?_)⟩
    exact ⟨_, (getTypeConverter_elementary h_peels h_e).trans (if_pos h_admits)⟩
  · obtain ⟨converter, h_ok⟩ := h.1.mpr h_name
    exact (TooDeep.fails h_deep).not_ok converter h_ok
  · rintro ⟨h_cutOff, h_deviates, h_deep⟩
    rcases getTypeConverter_cases s.1 with ⟨e, base, dimensions, h_peels, h_e, h_admits⟩ | h | h
    · have h_ok := (getTypeConverter_elementary h_peels h_e).trans (if_pos h_admits)
      -- what is read does not deviate
      have h_name : TypeName s.1 := (typeName_or_deviates h_peels h_e).resolve_right
        fun h => (TooDeep.fails (h_deviates h)).not_ok _ h_ok
      exact ⟨iff_of_true ⟨_, h_ok⟩ h_name, fun h => absurd h_name h⟩
    · exact absurd h h_cutOff
    · have h_ok : ¬∃ converter, getTypeConverter s.1 = .ok converter :=
        fun ⟨converter, h_ok⟩ => h.not_ok converter h_ok
      exact ⟨iff_of_false h_ok fun h => h_ok (TypeName.exists_converter h (h_deep h)), fun _ => h⟩

/-- A bracket at the end of a name makes `charAt` throw. -/
theorem not_conforms_cutOff : ¬Conforms ['b', 'o', 'o', 'l', '['] :=
  not_conforms_of_error rfl

end TypeConverterManagerImpl

end Ethiso.Abi
