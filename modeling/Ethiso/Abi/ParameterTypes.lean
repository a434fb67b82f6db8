import Ethiso.Abi.Decimals
import Ethiso.Abi.Encoding
import Ethiso.Abi.NestedArrays
import Mathlib.Algebra.Order.BigOperators.Group.List

/-!
# The types of parameters and their values

A name that the type manager accepts stands for an elementary type with dimensions. It is meant
as the contract ABI reads it (`meant`): the last dimension is the outermost one, and `intM` is a
signed type. The converters take it for another type (`taken`): the first dimension is the
outermost one, and `intM` is `uintM`.

`size` is the number of bytes that are written for a value, `announced` the number that the
converter announces for its head. A type that is not dynamic announces too little only if there
is something in a string, byte array or dynamic array inside of it (`size_eq_announced_iff`).
-/

namespace Ethiso.Abi

open TypeConverterUtils

/-! ### Values -/

/-- The objects that are values of an elementary type. -/
inductive BaseType.IsValue : BaseType → JavaObject → Prop
  | address (a : RpcAddress) : IsValue .address ⟨.address, a⟩
  | bool (x : Bool) : IsValue .bool ⟨.boolean, x⟩
  | string (s : JavaString) : IsValue .string ⟨.string, s⟩
  | bytes (bytes : List UInt8) : IsValue .bytes ⟨.byteArray, bytes⟩
  | bytesN {size : BytesSize} {bytes : List UInt8} (h : bytes.length = size) :
    IsValue (.bytesN size) ⟨.byteArray, bytes⟩
  | int {size : IntegerSize} {n : ℤ} (h : IntTypeConverter.Accepts size n) :
    IsValue (.int size) ⟨.bigInteger, n⟩
  | uint {size : IntegerSize} {n : ℤ} (h : UIntTypeConverter.Accepts size n) :
    IsValue (.uint size) ⟨.bigInteger, n⟩
  | fixed {size : FixedSize} {x : BigDecimal} {k : ℤ} (h_value : x.value * 2 ^ size.n = k)
    (h : IntTypeConverter.Accepts (size.m + size.n) k) : IsValue (.fixed size) ⟨.bigDecimal, x⟩
  | ufixed {size : FixedSize} {x : BigDecimal} {k : ℤ} (h_value : x.value * 2 ^ size.n = k)
    (h : UIntTypeConverter.Accepts (size.m + size.n) k) : IsValue (.ufixed size) ⟨.bigDecimal, x⟩

/-- The length is the one in the name, if there is any. -/
def Dimension.IsLength : Dimension → ℕ → Prop
  | .dynamic, _ => True
  | .fixed size, length => length = size

namespace ArrayType

/-- The class of the values. -/
def typeClass : ArrayType → JavaClass
  | base type => type.converter.1
  | array component _ => .array component.typeClass

/-- The objects that are values of a type. -/
inductive IsValue : ArrayType → JavaObject → Prop
  | base {type : BaseType} {object : JavaObject} (h : type.IsValue object) :
    IsValue (base type) object
  | array {component : ArrayType} {dimension : Dimension} {value : List component.typeClass.Value}
    (h_length : dimension.IsLength value.length)
    (h : ∀ x ∈ value, IsValue component ⟨component.typeClass, x⟩) :
    IsValue (array component dimension) ⟨.array component.typeClass, value⟩

/-- A value of a type has the class that the type is represented by. -/
theorem IsValue.typeClass_eq {type : ArrayType} {object : JavaObject} (h : type.IsValue object) :
    object.typeClass = type.typeClass := by
  cases h with
  | base h => cases h <;> rfl
  | array => rfl

/-! ### Sizes -/

/-- The bytes of `length` bytes that are padded to whole words. -/
def paddedLength (length : ℕ) : ℕ := 32 * ((length + 31) / 32)

/-- The number of bytes that are written for a value. -/
def size : ArrayType → JavaObject → ℕ
  | base .bytes, ⟨.byteArray, bytes⟩ => 32 + paddedLength (List.length bytes)
  | base .string, ⟨.string, s⟩ => 32 + paddedLength (JavaString.getBytes s).length
  | base _, _ => 32
  | array component .dynamic, ⟨.array c, value⟩ =>
    32 + (List.map (fun x => component.size ⟨c, x⟩) value).sum
  | array component (.fixed _), ⟨.array c, value⟩ =>
    (List.map (fun x => component.size ⟨c, x⟩) value).sum
  | array _ _, _ => 0

/-- The number of bytes of the head. -/
def announced : ArrayType → ℕ
  | array component (.fixed size) => size * component.announced
  | _ => 32

/-- Whether a value is written to the tail. -/
def isDynamic : ArrayType → Bool
  | base .bytes => true
  | base .string => true
  | array _ .dynamic => true
  | _ => false

/-- The strings, byte arrays and dynamic arrays that a value holds are empty. -/
def IsBlank : ArrayType → JavaObject → Prop
  | base .bytes, ⟨.byteArray, bytes⟩ => bytes = ([] : List UInt8)
  | base .string, ⟨.string, s⟩ => s = ([] : List UInt16)
  | base _, _ => True
  | array _ .dynamic, ⟨.array c, value⟩ => value = ([] : List c.Value)
  | array component (.fixed _), ⟨.array c, value⟩ =>
    List.Forall (fun x => component.IsBlank ⟨c, x⟩) value
  | array _ _, _ => True

end ArrayType

/-- Padding brings the length up to a multiple of 32. -/
theorem length_padded (bytes : List UInt8) :
    (padded bytes).length = ArrayType.paddedLength bytes.length := by
  unfold padded ArrayType.paddedLength
  rw [List.length_append, List.length_replicate]
  omega

/-! ### Types of parameters -/

/-- The type that the factories take for another one. -/
def BaseType.unsigned : BaseType → BaseType
  | .int size => .uint size
  | type => type

/-- The type of a parameter: the dimensions are in the order in which they are written. -/
structure ParameterType where
  base : BaseType
  dimensions : List Dimension

namespace ParameterType

/-- The name stands for the type, as the factories read names. -/
def IsNamed (type : ParameterType) (s : List Char) : Prop :=
  ∃ e, Peels s e type.dimensions ∧ ElementaryName Spelling.loose e type.base

/-- What the name means. -/
def meant (type : ParameterType) : ArrayType := .ofSuffixes type.base type.dimensions

/-- What the converter takes it for. -/
def taken (type : ParameterType) : ArrayType := .ofOuter type.base.unsigned type.dimensions

/-- The converter of a type: those of its dimensions around that of its base. -/
def converter (type : ParameterType) : AnyTypeConverter :=
  nested type.base.converter type.dimensions

/-- The names that the type manager accepts stand for a type whose arrays have classes. -/
theorem getTypeConverter_eq_ok {s : List Char} {converter : AnyTypeConverter} :
    TypeConverterManagerImpl.getTypeConverter s = .ok converter ↔
      ∃ type : ParameterType, type.IsNamed s ∧ type.base.Admits type.dimensions ∧
        converter = type.converter := by
  refine ⟨?_, ?_⟩
  · intro h
    rcases TypeConverterManagerImpl.getTypeConverter_cases s with
      ⟨e, base, dimensions, h_peels, h_e, -⟩ | h_cutOff | h_fails
    · obtain ⟨h_admits, rfl⟩ :=
        (TypeConverterManagerImpl.getTypeConverter_elementary_eq_ok h_peels h_e).mp h
      exact ⟨⟨base, dimensions⟩, ⟨e, h_peels, h_e⟩, h_admits, rfl⟩
    -- a name whose last bracket stays open has no converter
    · rw [TypeConverterManagerImpl.getTypeConverter_cutOff h_cutOff] at h
      cases h
    · exact absurd h (h_fails.not_ok converter)
  · rintro ⟨type, ⟨e, h_peels, h_e⟩, h_admits, rfl⟩
    exact (TypeConverterManagerImpl.getTypeConverter_elementary_eq_ok h_peels h_e).mpr
      ⟨h_admits, rfl⟩

end ParameterType

/-! ### Sizes of values -/

namespace ArrayType

section Sizes

variable {type component : ArrayType} {c : JavaClass} {object : JavaObject}

/-- Every type announces at least a word. -/
theorem le_announced (type : ArrayType) : 32 ≤ type.announced := by
  induction type with
  | base type => exact Nat.le_refl 32
  | array component dimension ih =>
    cases dimension with
    | dynamic => exact Nat.le_refl 32
    | fixed size => exact ih.trans (Nat.le_mul_of_pos_left _ size.2.1)

/-- The sizes of components that are not smaller than `k`. -/
theorem length_mul_le_sum {α : Type} {f : α → ℕ} {k : ℕ} {l : List α} (h : ∀ x ∈ l, k ≤ f x) :
    l.length * k ≤ (l.map f).sum := by
  have h_sum := List.card_nsmul_le_sum (l.map f) k (List.forall_mem_map.mpr h)
  rwa [List.length_map, Nat.nsmul_eq_mul] at h_sum

/-- A dynamic type announces a word, for its offset. -/
theorem announced_of_dynamic (h : type.isDynamic = true) : type.announced = 32 := by
  cases type with
  | base type => rfl
  | array component dimension =>
    cases dimension with
    | dynamic => rfl
    | fixed size => cases h

/-- **A value takes at least what its type announces.** By induction on the value. -/
theorem announced_le_size (h : type.IsValue object) : type.announced ≤ type.size object := by
  induction h with
  | base h =>
    cases h with
    | string s => exact Nat.le_add_right 32 _
    | bytes bytes => exact Nat.le_add_right 32 _
    | _ => exact Nat.le_refl 32
  | @array component dimension value h_length h ih =>
    cases dimension with
    -- the word of the length is there in any case
    | dynamic => exact Nat.le_add_right 32 _
    | fixed size =>
      -- each element takes what the component announces, and there are `size` of them
      have h_sum := length_mul_le_sum ih
      rw [show value.length = size from h_length] at h_sum
      exact h_sum

theorem le_size (h : type.IsValue object) : 32 ≤ type.size object :=
  type.le_announced.trans (announced_le_size h)

/-- A sum of terms that are at least `k` is least if all of them are `k`. -/
theorem sum_map_eq_iff {α : Type} {f : α → ℕ} {k : ℕ} {l : List α} (h : ∀ x ∈ l, k ≤ f x) :
    (l.map f).sum = l.length * k ↔ ∀ x ∈ l, f x = k := by
  induction l with
  | nil => simp
  | cons x l ih =>
    rw [List.forall_mem_cons] at h
    have h_rest := length_mul_le_sum h.2
    rw [List.forall_mem_cons, ← ih h.2, List.map_cons, List.sum_cons, List.length_cons,
      Nat.succ_mul]
    have h_first := h.1
    omega

theorem paddedLength_eq_zero {length : ℕ} : paddedLength length = 0 ↔ length = 0 := by
  unfold paddedLength
  omega

/-- **What fits the head**: a value without anything in its strings, byte arrays and dynamic
arrays. -/
theorem size_eq_announced_iff (h : type.IsValue object) :
    type.size object = type.announced ↔ type.IsBlank object := by
  induction h with
  | base h =>
    cases h with
    | string s =>
      have h_nil : 32 + paddedLength (JavaString.getBytes s).length = 32 ↔ s = [] := by
        rw [Nat.add_eq_left, paddedLength_eq_zero, List.length_eq_zero_iff,
          JavaString.getBytes_eq_nil]
      exact h_nil
    | bytes bytes =>
      have h_nil : 32 + paddedLength bytes.length = 32 ↔ bytes = [] := by
        rw [Nat.add_eq_left, paddedLength_eq_zero, List.length_eq_zero_iff]
      exact h_nil
    | _ => exact iff_of_true rfl trivial
  | @array component dimension value h_length h ih =>
    cases dimension with
    | dynamic =>
      have h_nil : 32 + (value.map fun x => component.size ⟨_, x⟩).sum = 32 ↔ value = [] := by
        rw [Nat.add_eq_left]
        refine ⟨?_, ?_⟩
        · intro h_sum
          -- a component would take at least a word
          by_contra h_ne
          obtain ⟨x, h_x⟩ := List.exists_mem_of_ne_nil value h_ne
          have h_le := List.le_sum_of_mem
            (List.mem_map_of_mem (f := fun x => component.size ⟨_, x⟩) h_x)
          have h_word := le_size (h x h_x)
          omega
        · rintro rfl
          rfl
      exact h_nil
    | fixed size =>
      have h_iff := sum_map_eq_iff fun x hx => announced_le_size (h x hx)
      rw [show value.length = size from h_length] at h_iff
      refine h_iff.trans ((forall₂_congr fun x hx => ih x hx).trans ?_)
      exact (List.forall_iff_forall_mem).symm

end Sizes

end ArrayType

/-! ### What the converter takes -/

section Nested

open ArrayType

variable {base : BaseType} {dimensions : List Dimension}

/-- A signed type has the converter of its unsigned one. -/
theorem BaseType.converter_unsigned (base : BaseType) :
    base.unsigned.converter = base.converter := by
  cases base <;> rfl

/-- The class of a converter is that of the type it takes. -/
theorem typeClass_taken (base : BaseType) (dimensions : List Dimension) :
    (ofOuter base.unsigned dimensions).typeClass = (nested base.converter dimensions).1 := by
  induction dimensions with
  | nil => exact congrArg Sigma.fst base.converter_unsigned
  | cons dimension dimensions ih => exact congrArg JavaClass.array ih

/-- The class does not depend on the order of the dimensions. -/
theorem typeClass_ofOuter {base' : BaseType} {dimensions' : List Dimension}
    (h_base : base.converter.1 = base'.converter.1)
    (h_length : dimensions.length = dimensions'.length) :
    (ofOuter base dimensions).typeClass = (ofOuter base' dimensions').typeClass := by
  induction dimensions generalizing dimensions' with
  | nil =>
    obtain rfl := List.length_eq_zero_iff.mp h_length.symm
    exact h_base
  | cons dimension dimensions ih =>
    obtain ⟨dimension', dimensions', rfl⟩ := List.exists_cons_of_length_eq_add_one h_length.symm
    exact congrArg JavaClass.array (ih (Nat.succ.inj h_length))

variable {c : JavaClass} {converter : TypeConverter c} {value : c.Value}

/-- The components of the converter have the class that is taken for theirs. -/
theorem nested_cons_eq {dimension : Dimension}
    (h : nested base.converter (dimension :: dimensions) = ⟨c, converter⟩) :
    ∃ inner : TypeConverter (ofOuter base.unsigned dimensions).typeClass,
      nested base.converter dimensions = ⟨_, inner⟩ ∧
        (⟨c, converter⟩ : AnyTypeConverter) = ⟨.array _, dimension.converter inner⟩ := by
  have h_class := typeClass_taken base dimensions
  rw [← h, nested]
  generalize nested base.converter dimensions = inner at h_class
  obtain ⟨c', inner⟩ := inner
  -- from here on the two classes are one
  obtain rfl : _ = c' := h_class
  exact ⟨inner, rfl, rfl⟩

/-- What a converter of a base accepts is a value of the unsigned base. -/
theorem BaseType.isValue_of_accepts (h : base.converter = ⟨c, converter⟩)
    (h_acc : converter.Accepts value) : base.unsigned.IsValue ⟨c, value⟩ := by
  cases base <;> cases h
  case address => exact .address value
  case bool => exact .bool value
  case string => exact .string value
  case bytes => exact .bytes value
  case bytesN => exact .bytesN h_acc
  case int => exact .uint h_acc
  case uint => exact .uint h_acc
  case fixed =>
    -- the bounds of the integer are those of the scaled number
    obtain ⟨k, h_k, h_range⟩ := h_acc
    exact .fixed (BigDecimal.toBigIntegerExact_multiply.mp h_k).1 h_range
  case ufixed =>
    obtain ⟨k, h_k, h_range⟩ := h_acc
    exact .ufixed (BigDecimal.toBigIntegerExact_multiply.mp h_k).1 h_range

/-- What is accepted is a value of the type that the converter takes. -/
theorem isValue_of_accepts (h : nested base.converter dimensions = ⟨c, converter⟩)
    (h_acc : converter.Accepts value) : (ofOuter base.unsigned dimensions).IsValue ⟨c, value⟩ := by
  induction dimensions generalizing c with
  | nil => exact .base (BaseType.isValue_of_accepts h h_acc)
  | cons dimension dimensions ih =>
    obtain ⟨inner, h_inner, h_array⟩ := nested_cons_eq h
    cases h_array
    cases dimension with
    | dynamic => exact .array trivial fun x hx => ih h_inner (h_acc.2 x hx)
    | fixed size => exact .array h_acc.1 fun x hx => ih h_inner (h_acc.2 x hx)

/-- The width that the head reserves is what the type announces. -/
theorem headWidth_eq (h : nested base.converter dimensions = ⟨c, converter⟩) :
    converter.headWidth = (ofOuter base.unsigned dimensions).announced := by
  induction dimensions generalizing c with
  | nil => cases base <;> cases h <;> rfl
  | cons dimension dimensions ih =>
    cases h
    cases dimension with
    | dynamic => rfl
    | fixed size => exact congrArg (size.1 * ·) (ih rfl)

/-- Converter and type agree on what is dynamic. -/
theorem isDynamic_eq (h : nested base.converter dimensions = ⟨c, converter⟩) :
    converter.isDynamic = (ofOuter base.unsigned dimensions).isDynamic := by
  cases dimensions with
  | nil => cases base <;> cases h <;> rfl
  | cons dimension dimensions =>
    cases h
    cases dimension <;> rfl

theorem length_word_append (n : ℤ) (bytes : List UInt8) :
    (word n ++ bytes).length = 32 + bytes.length := by
  rw [List.length_append, length_word]

/-- The length of what is written for each element is the sum of the lengths. -/
theorem length_flatMap_eq {α : Type} {f : α → List UInt8} {g : α → ℕ} {l : List α}
    (h : ∀ x ∈ l, (f x).length = g x) : (l.flatMap f).length = (l.map g).sum := by
  rw [List.length_flatMap]
  exact congrArg List.sum (List.map_congr_left h)

/-- What the converter of a base writes is as long as the size of the value. -/
theorem BaseType.length_layout (h : base.converter = ⟨c, converter⟩)
    (h_value : base.unsigned.IsValue ⟨c, value⟩) :
    (converter.layout value).length = (ArrayType.base base.unsigned).size ⟨c, value⟩ := by
  -- text and bytes are written alike: a length and padded content
  have h_bytes (bytes : List UInt8) : (word bytes.length ++ padded bytes).length =
      32 + paddedLength bytes.length := by
    rw [length_word_append, length_padded]
  cases base <;> cases h
  case string => exact h_bytes (JavaString.getBytes value)
  case bytes => exact h_bytes value
  case bytesN size =>
    cases h_value with
    | bytesN h => exact TypeConverter.length_padded_of_le (h ▸ size.2.1) (h ▸ size.2.2)
  case fixed size =>
    cases h_value with
    | fixed h_k h =>
      have h_range := h.inRange size.valid.2.2.1
      exact TypeConverter.length_fixedWord
        (BigDecimal.toBigIntegerExact_multiply.mpr ⟨h_k, h_range⟩)
  case ufixed size =>
    cases h_value with
    | ufixed h_k h =>
      have h_range := h.inRange size.valid.2.2.1
      exact TypeConverter.length_fixedWord
        (BigDecimal.toBigIntegerExact_multiply.mpr ⟨h_k, h_range⟩)
  all_goals exact length_word _

/-- The size is the number of bytes that the converter writes. -/
theorem length_layout (h : nested base.converter dimensions = ⟨c, converter⟩)
    (h_value : (ofOuter base.unsigned dimensions).IsValue ⟨c, value⟩) :
    (converter.layout value).length = (ofOuter base.unsigned dimensions).size ⟨c, value⟩ := by
  induction dimensions generalizing c with
  | nil =>
    obtain ⟨h_base⟩ := h_value
    exact BaseType.length_layout h h_base
  | cons dimension dimensions ih =>
    obtain ⟨inner, h_inner, h_array⟩ := nested_cons_eq h
    cases h_array
    cases h_value with
    | array h_length h_all =>
      have h_flat := length_flatMap_eq fun x hx => ih h_inner (h_all x hx)
      cases dimension with
      -- a dynamic dimension writes the number of its elements before them
      | dynamic => exact (length_word_append _ _).trans (congrArg (32 + ·) h_flat)
      | fixed size => exact h_flat

end Nested

end Ethiso.Abi
