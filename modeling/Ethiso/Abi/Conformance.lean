import Ethiso.Abi.RoundTrip
import Ethiso.Abi.TypeNames

/-!
# How far `encode` follows the contract ABI

The converter of an array writes its components one after the other, and the call has a
head and a tail for the parameters only. Moreover, the converter has the dimensions in the
reverse order. What is written for a value is compared here with its encoding.

The converter and the type of a parameter have the same elementary values (`Alike`). From
this it follows how long what the converter writes is, compared with the encoding. If the
first pair of brackets is `[]`, it is no longer (`length_layout_le`); otherwise the
converter writes to the head, which is full, and it writes no more than the encoding is
long (`headWidth_le_encode`). A call is therefore as long as its encoding only if each
argument is, and then the arguments can be compared one by one.
-/

namespace Ethiso.Abi

open TypeConverterUtils

/-! ### Values and types that agree -/

/-- The converter and the type have the same elementary values, in any dimensions. -/
def Alike : {c : JavaClass} → TypeConverter c → AbiType c → Prop
  | _, converter, .elementary type => converter = type.converter
  | _, converter, .array type _ =>
    ∃ component dimension, converter = Dimension.converter component dimension ∧
      Alike component type

/-- A converter stays alike if a dimension is inserted below it, as long as the type gets one more.
-/
theorem Alike.insertInner {c : JavaClass} {converter : TypeConverter c} {type : AbiType c}
    (h : Alike converter type) (dimension dimension' : Dimension) :
    Alike (converter.insertInner dimension) (.array type dimension') := by
  induction type generalizing dimension' with
  | elementary type =>
    obtain rfl : converter = type.converter := h
    exact ⟨type.converter, dimension, by cases type <;> rfl, rfl⟩
  | array type dimension'' ih =>
    obtain ⟨component, outer, rfl, h_component⟩ := h
    exact ⟨component.insertInner dimension, outer, by cases outer <;> rfl, ih h_component _⟩

/-- The converter of a type is alike, whichever order the dimensions are in. -/
theorem alike_converter {c : JavaClass} (type : AbiType c) : Alike type.converter type := by
  induction type with
  | elementary type => rfl
  | array component dimension ih => exact ih.insertInner dimension dimension

/-- Whether an array is written to the tail depends on the outermost dimension. -/
theorem TypeConverter.isDynamic_insertInner {c : JavaClass}
    (converter : TypeConverter (.array c)) (dimension : Dimension) :
    (converter.insertInner dimension).isDynamic = converter.isDynamic := by
  cases converter <;> rfl

namespace AbiType

/-- Whether the first pair of brackets in the name is `[]`. -/
def isFirstDynamic : {c : JavaClass} → AbiType c → Bool
  | _, .elementary _ => false
  | _, .array (.elementary _) dimension => dimension.isDynamic
  | _, .array component _ => component.isFirstDynamic

/-- A type whose first dimension is dynamic is dynamic. -/
theorem isDynamic_of_isFirstDynamic {c : JavaClass} {type : AbiType c}
    (h : type.isFirstDynamic = true) : type.isDynamic = true := by
  induction type with
  | elementary type => exact absurd h Bool.false_ne_true
  | array component dimension ih =>
    cases component with
    | elementary type => exact Bool.or_eq_true_iff.mpr (.inl h)
    | array component dimension' => exact Bool.or_eq_true_iff.mpr (.inr (ih h))

/-- The converter of an array looks at the first dimension that is written. -/
theorem isDynamic_converter {c : JavaClass} (component : AbiType c) (dimension : Dimension) :
    (AbiType.array component dimension).converter.isDynamic =
      (AbiType.array component dimension).isFirstDynamic := by
  induction component generalizing dimension with
  | elementary type => cases dimension <;> cases type <;> rfl
  | array component dimension' ih =>
    exact (TypeConverter.isDynamic_insertInner _ dimension).trans (ih dimension')

end AbiType

/-- Whether there is anything dynamic below the converter. -/
def TypeConverter.hasDynamic : {c : JavaClass} → TypeConverter c → Bool
  | _, .staticArray component _ => component.hasDynamic
  | _, converter => converter.isDynamic

theorem TypeConverter.hasDynamic_insertInner {c : JavaClass} (converter : TypeConverter c)
    (dimension : Dimension) :
    (converter.insertInner dimension).hasDynamic =
      (dimension.isDynamic || converter.hasDynamic) := by
  induction converter with
  | dynamicArray component ih => exact (Bool.or_true _).symm
  | staticArray component size ih => exact ih
  | _ => cases dimension <;> rfl

/-- A dynamic part anywhere below makes the type dynamic. -/
theorem AbiType.hasDynamic_converter {c : JavaClass} (type : AbiType c) :
    type.converter.hasDynamic = type.isDynamic := by
  induction type with
  | elementary type => cases type <;> rfl
  | array component dimension ih =>
    rw [AbiType.converter, TypeConverter.hasDynamic_insertInner, ih, AbiType.isDynamic]

/-- An array that is written to the tail has a dynamic part, itself. -/
theorem TypeConverter.hasDynamic_of_isDynamic {c : JavaClass} {converter : TypeConverter c}
    (h : converter.isDynamic = true) : converter.hasDynamic = true := by
  cases converter <;> first | exact h | exact absurd h Bool.false_ne_true

/-! ### Lengths -/

section Lengths

variable {α : Type} {f g : α → List UInt8} {l : List α}

/-- Longer components make a longer array. -/
theorem length_flatMap_le (h : ∀ x ∈ l, (f x).length ≤ (g x).length) :
    (l.flatMap f).length ≤ (l.flatMap g).length := by
  induction l with
  | nil => exact Nat.le_refl 0
  | cons x l ih =>
    rw [List.forall_mem_cons] at h
    rw [List.flatMap_cons, List.flatMap_cons, List.length_append, List.length_append]
    exact Nat.add_le_add h.1 (ih h.2)

/-- Dynamic components have an offset each. -/
theorem length_encodeComponents_dynamic :
    (encodeComponents true f l).length = 32 * l.length + (l.flatMap f).length := by
  unfold encodeComponents
  rw [length_headTail length_offset]
  induction l with
  | nil => rfl
  | cons x l ih =>
    rw [List.map_cons, List.map_cons, List.sum_cons, ih, List.length_cons, List.flatMap_cons,
      List.length_append, Part.size, if_pos rfl]
    dsimp only
    omega

/-- The offsets of the components only add to their length. -/
theorem length_flatMap_le_encodeComponents (isDynamic : Bool) :
    (l.flatMap f).length ≤ (encodeComponents isDynamic f l).length := by
  cases isDynamic with
  | true =>
    rw [length_encodeComponents_dynamic]
    exact Nat.le_add_left _ _
  | false => rw [encodeComponents_static]

end Lengths

/-- The length of an array is written in front of it if it is dynamic. -/
theorem Dimension.length_lengthWord (dimension : Dimension) (length : ℕ) :
    (dimension.lengthWord length).length = if dimension.isDynamic then 32 else 0 := by
  cases dimension with
  | dynamic => exact length_word _
  | fixed size => rfl

section Arrays

variable {c : JavaClass} {component : TypeConverter c} {dimension : Dimension}
variable {value : List c.Value}

/-- How an array is written, dynamic or not. -/
theorem layout_array :
    (dimension.converter component).layout value =
      dimension.lengthWord value.length ++ value.flatMap (fun x => component.layout x) := by
  cases dimension <;> rfl

/-- Which arrays are accepted: those of an allowed length whose components are. -/
theorem accepts_array :
    (dimension.converter component).Accepts value ↔
      dimension.Allows value.length ∧ ∀ x ∈ value, component.Accepts x := by
  cases dimension <;> rfl

/-- Which lists are values of an array type. -/
theorem isValue_array {type : AbiType c} :
    (AbiType.array type dimension).IsValue value ↔
      dimension.Allows value.length ∧ ∀ x ∈ value, type.IsValue x := by
  exact and_congr_right' List.forall_iff_forall_mem

/-- The encoding of an array: its length, if need be, and its components. -/
theorem encode_array {type : AbiType c} :
    (AbiType.array type dimension).encode value =
      dimension.lengthWord value.length ++
        encodeComponents type.isDynamic (fun x => type.encode x) value := rfl

/-- No array with a fixed size is empty. -/
theorem Dimension.isDynamic_of_allows_zero (h : dimension.Allows 0) :
    dimension.isDynamic = true := by
  cases dimension with
  | dynamic => rfl
  | fixed size => exact absurd (show 0 = size.1 from h) (Nat.ne_of_lt size.2.1)

end Arrays

/-- An elementary value is written as the ABI says. -/
theorem layout_elementary {c : JavaClass} (type : ElementaryType c) (value : c.Value) :
    type.converter.layout value = type.encode value := by
  cases type <;> rfl

theorem isDynamic_elementary {c : JavaClass} (type : ElementaryType c) :
    type.converter.isDynamic = type.isDynamic := by
  cases type <;> rfl

/-! ### An array, given its components -/

section Arrays

variable {c : JavaClass} {component : TypeConverter c} {type : AbiType c}
variable {dimension dimension' : Dimension} {value : List c.Value}

/-- For static components there is no difference but that of the dimensions. -/
theorem layout_eq_encode_array (h_dim : dimension.isDynamic = false)
    (h_dim' : dimension'.isDynamic = false) (h_type : type.isDynamic = false)
    (h : ∀ x ∈ value, component.layout x = type.encode x) :
    (dimension'.converter component).layout value = (type.array dimension).encode value := by
  have h_word {d : Dimension} (hd : d.isDynamic = false) (n : ℕ) : d.lengthWord n = [] :=
    List.length_eq_zero_iff.mp (by rw [d.length_lengthWord, hd]; rfl)
  rw [layout_array, encode_array, h_word h_dim, h_word h_dim', h_type, encodeComponents_static]
  exact congrArg List.flatten (List.map_congr_left h)

/-- The announced width of a static array is not larger than its encoding. -/
theorem headWidth_le_encode_array (h_size : dimension'.Allows value.length)
    (h_size' : dimension.Allows value.length)
    (h : ∀ x ∈ value, component.headWidth ≤ (type.encode x).length) :
    (dimension'.converter component).headWidth ≤ ((type.array dimension).encode value).length := by
  -- one component after the other fills as many heads
  have h_flat : value.length * component.headWidth ≤
      (value.flatMap fun x => type.encode x).length := mul_le_length_flatMap h
  have h_le := @length_flatMap_le_encodeComponents _ (fun x => type.encode x) value type.isDynamic
  rw [encode_array, List.length_append, dimension.length_lengthWord]
  cases dimension' with
  | dynamic =>
    show 32 ≤ _
    cases value with
    | nil =>
      rw [if_pos (Dimension.isDynamic_of_allows_zero h_size')]
      exact Nat.le_add_right _ _
    | cons x value =>
      have h_head := component.le_headWidth
      rw [List.length_cons, Nat.succ_mul] at h_flat
      omega
  | fixed size =>
    have h_length : value.length = size := h_size
    show size * component.headWidth ≤ _
    rw [h_length] at h_flat
    omega

/-- The components of an array with dynamic components have an offset each, which makes up
for the number of components. -/
theorem length_layout_le_array (h_type : type.isDynamic = true)
    (h_size : dimension.Allows value.length)
    (h : ∀ x ∈ value, (component.layout x).length ≤ (type.encode x).length) :
    ((dimension'.converter component).layout value).length ≤
      ((type.array dimension).encode value).length := by
  have h_flat : (value.flatMap fun x => component.layout x).length ≤
      (value.flatMap fun x => type.encode x).length := length_flatMap_le h
  rw [layout_array, encode_array, h_type, List.length_append, List.length_append,
    length_encodeComponents_dynamic, dimension.length_lengthWord, dimension'.length_lengthWord]
  cases value with
  -- without components, the converter may write a length where the type has none
  | nil =>
    rw [if_pos (Dimension.isDynamic_of_allows_zero h_size)]
    split_ifs <;> simp
  -- each component has an offset of 32 bytes in the encoding
  | cons x value =>
    rw [List.length_cons]
    split_ifs <;> omega

/-- `T[]`, where `T` is elementary. -/
theorem length_layout_le_elementary {type : ElementaryType c} :
    ((dimension'.converter type.converter).layout value).length ≤
      ((AbiType.array (.elementary type) .dynamic).encode value).length := by
  have h_le := @length_flatMap_le_encodeComponents _ (fun x => type.encode x) value type.isDynamic
  have h_layout : (value.flatMap fun x => type.converter.layout x) =
      value.flatMap fun x => type.encode x :=
    congrArg List.flatten (List.map_congr_left fun x _ => layout_elementary type x)
  rw [layout_array, encode_array, h_layout, List.length_append, List.length_append,
    dimension'.length_lengthWord, Dimension.length_lengthWord]
  refine Nat.add_le_add ?_ h_le
  split_ifs with h_dim h_dyn
  all_goals first | exact Nat.le_refl _ | exact Nat.zero_le _ | exact absurd rfl h_dyn

end Arrays

/-! ### What is written and the encoding -/

section Compare

variable {c : JavaClass} {converter : TypeConverter c} {type : AbiType c} {value : c.Value}

/-- If nothing is dynamic, the encoding is written. -/
theorem layout_eq_encode (h : Alike converter type) (h_converter : converter.hasDynamic = false)
    (h_type : type.isDynamic = false) : converter.layout value = type.encode value := by
  induction type with
  | elementary type =>
    obtain rfl : converter = type.converter := h
    exact layout_elementary type value
  | array type dimension ih =>
    obtain ⟨component, dimension', rfl, h_component⟩ := h
    obtain ⟨h_dim, h_type⟩ := Bool.or_eq_false_iff.mp h_type
    cases dimension' with
    | dynamic => exact absurd h_converter Bool.noConfusion
    | fixed size =>
      exact layout_eq_encode_array h_dim rfl h_type fun x _ => ih h_component h_converter h_type

/-- The encoding fills the head that the converter announces. -/
theorem headWidth_le_encode (h : Alike converter type) (h_accepts : converter.Accepts value)
    (h_value : type.IsValue value) : converter.headWidth ≤ (type.encode value).length := by
  -- the cases are those of the type: a converter alike to it has the same depth
  induction type with
  | elementary type =>
    obtain rfl : converter = type.converter := h
    have h_head := type.converter.headWidth_le h_accepts
    rw [layout_elementary] at h_head
    exact h_head
  | array type dimension ih =>
    obtain ⟨component, dimension', rfl, h_component⟩ := h
    obtain ⟨h_size, h_accepts⟩ := accepts_array.mp h_accepts
    obtain ⟨h_size', h_value⟩ := isValue_array.mp h_value
    exact headWidth_le_encode_array h_size h_size' fun x hx =>
      ih h_component (h_accepts x hx) (h_value x hx)

/-- If the first pair of brackets is `[]`, what is written is no longer than the encoding. -/
theorem length_layout_le (h : Alike converter type) (h_first : type.isFirstDynamic = true)
    (h_value : type.IsValue value) :
    (converter.layout value).length ≤ (type.encode value).length := by
  induction type with
  | elementary type => exact absurd h_first Bool.false_ne_true
  | array type dimension ih =>
    obtain ⟨component, dimension', rfl, h_component⟩ := h
    obtain ⟨h_size, h_value⟩ := isValue_array.mp h_value
    cases type with
    | elementary type =>
      -- an array of elementary components is dynamic only by its own length
      obtain rfl : component = type.converter := h_component
      cases dimension with
      | dynamic => exact length_layout_le_elementary
      | fixed size => exact absurd h_first Bool.false_ne_true
    | array type dimension'' =>
      exact length_layout_le_array (AbiType.isDynamic_of_isFirstDynamic h_first) h_size
        fun x hx => ih h_component h_first (h_value x hx)

end Compare

/-! ### Equality -/

/-- The types whose values are all written as the encoding: they are elementary, or not
dynamic, or `T[]` where `T` is elementary and not dynamic. -/
def AbiType.isFlat : {c : JavaClass} → AbiType c → Bool
  | _, .elementary _ => true
  | _, .array (.elementary type) .dynamic => !type.isDynamic
  | _, .array component dimension => !(AbiType.array component dimension).isDynamic

/-- The value is an array without components. -/
def IsEmptyArray : (c : JavaClass) → c.Value → Prop
  | .array _, value => List.length value = 0
  | _, _ => False

/-- A static type is flat. -/
theorem AbiType.isFlat_of_static {c : JavaClass} {type : AbiType c} (h : type.isDynamic = false) :
    type.isFlat = true := by
  unfold AbiType.isFlat
  split
  · rfl
  · exact absurd h Bool.noConfusion
  · exact congrArg Bool.not h

/-- A flat type that is dynamic is a dynamic array of static components. -/
theorem AbiType.eq_elementary_of_isFlat {c : JavaClass} {component : AbiType c}
    {dimension : Dimension} (h : (component.array dimension).isFlat = true)
    (h_dyn : (component.array dimension).isDynamic = true) :
    ∃ type : ElementaryType c, type.isDynamic = false ∧ component = .elementary type ∧
      dimension = .dynamic := by
  cases component with
  | elementary type =>
    cases dimension with
    | dynamic => exact ⟨type, by simpa [AbiType.isFlat] using h, rfl, rfl⟩
    | fixed size => exact absurd (h.symm.trans (congrArg Bool.not h_dyn)) (by decide)
  | array component dimension' =>
    exact absurd (h.symm.trans (congrArg Bool.not h_dyn)) (by decide)

/-- The arrays of dynamic components that are written as the encoding are empty. -/
theorem eq_nil_of_layout_eq {c : JavaClass} {component : TypeConverter c} {type : AbiType c}
    {dimension : Dimension} {value : List c.Value} (h_type : type.isDynamic = true)
    (h : ∀ x ∈ value, (component.layout x).length ≤ (type.encode x).length)
    (h_eq : (Dimension.converter component .dynamic).layout value =
      (type.array dimension).encode value) : value = [] := by
  have h_flat : (value.flatMap fun x => component.layout x).length ≤
      (value.flatMap fun x => type.encode x).length := length_flatMap_le h
  rw [layout_array, encode_array, h_type] at h_eq
  have h_length := congrArg List.length h_eq
  rw [List.length_append, List.length_append, length_encodeComponents_dynamic,
    Dimension.length_lengthWord, Dimension.length_lengthWord,
    if_pos (show Dimension.dynamic.isDynamic = true from rfl)] at h_length
  cases dimension with
  | dynamic =>
    rw [if_pos (show Dimension.dynamic.isDynamic = true from rfl)] at h_length
    exact List.length_eq_zero_iff.mp (by omega)
  | fixed size =>
    rw [if_neg (show ¬(Dimension.fixed size).isDynamic = true from Bool.false_ne_true)] at h_length
    match value, h_flat, h_eq, h_length with
    | [], _, _, _ => rfl
    | [x], _, h_eq, _ =>
      -- the number of components is in the place of the offset
      have h_words : word (1 : ℕ) ++ [x].flatMap (fun x => component.layout x) =
          word (32 : ℕ) ++ (type.encode x ++ []) := h_eq
      have h_first := (List.append_inj h_words (by rw [length_word, length_word])).1
      exact absurd h_first (by decide +kernel)
    | x :: y :: value, h_flat, _, h_length =>
      rw [List.length_cons, List.length_cons] at h_length
      omega

/-- If the first pair of brackets is `[]`, only the arrays of static elementary values and
the empty arrays are written as the encoding. -/
theorem isFlat_or_eq_nil {c : JavaClass} {component : AbiType c} {dimension : Dimension}
    {value : List c.Value} (h_value : ∀ x ∈ value, component.IsValue x)
    (h_first : (component.array dimension).isFirstDynamic = true)
    (h_eq : (component.array dimension).converter.layout value =
      (component.array dimension).encode value) :
    (component.array dimension).isFlat = true ∨ value = [] := by
  have h_dyn := AbiType.isDynamic_converter component dimension
  obtain ⟨converter, dimension', h_converter, h_alike⟩ :=
    alike_converter (component.array dimension)
  rw [h_converter] at h_eq h_dyn
  -- the converter is that of a dynamic array
  obtain rfl : dimension' = .dynamic := by
    cases dimension' with
    | dynamic => rfl
    | fixed size => exact absurd (h_dyn.trans h_first) Bool.false_ne_true
  cases component with
  | elementary type =>
    obtain rfl : converter = type.converter := h_alike
    cases dimension with
    | fixed size => exact absurd h_first Bool.false_ne_true
    | dynamic =>
      by_cases h_type : type.isDynamic = true
      · right
        exact @eq_nil_of_layout_eq _ _ (.elementary type) .dynamic _ h_type
          (fun x _ => (congrArg List.length (layout_elementary type x)).le) h_eq
      · left
        exact congrArg Bool.not (Bool.eq_false_iff.mpr h_type)
  | array component dimension'' =>
    right
    exact eq_nil_of_layout_eq (AbiType.isDynamic_of_isFirstDynamic h_first)
      (fun x hx => length_layout_le h_alike h_first (h_value x hx)) h_eq

/-! ### Arguments -/

namespace AbiArgument

/-- The argument as `encode` sees it, with the converter of its type. -/
def argument (a : AbiArgument) : Argument := ⟨a.typeClass, a.type.converter, a.value⟩

/-- The type is flat, or the value is an empty array. -/
def Conforms (a : AbiArgument) : Prop :=
  a.type.isFlat = true ∨ IsEmptyArray a.typeClass a.value

variable {a : AbiArgument}

/-- What the code writes to the tail belongs there. -/
theorem dynamic_of_argument_dynamic (h : a.argument.part.dynamic = true) :
    a.part.dynamic = true :=
  a.type.hasDynamic_converter.symm.trans (TypeConverter.hasDynamic_of_isDynamic h)

/-- An accepted argument is written within the room that its encoding needs. -/
theorem within (h_accepted : a.argument.Accepted) (h_value : a.IsValue)
    (h_full : a.argument.part.headSize 32 = a.argument.converter.headWidth) :
    Within a.argument.part a.part := by
  refine ⟨dynamic_of_argument_dynamic, ?_⟩
  obtain ⟨c, type, value⟩ := a
  cases type with
  | elementary type => exact (congrArg List.length (layout_elementary type value)).le
  | array component dimension =>
    have h_alike := alike_converter (component.array dimension)
    by_cases h_first : (component.array dimension).isFirstDynamic = true
    · exact length_layout_le h_alike h_first h_value
    · -- the array is written to the head, which is full
      have h_static : ¬(component.array dimension).converter.isDynamic = true := by
        rw [AbiType.isDynamic_converter]
        exact h_first
      have h_head := headWidth_le_encode h_alike h_accepted h_value
      exact ((if_neg h_static).symm.trans h_full).le.trans h_head

/-- If the code writes an argument as the ABI says, its type is flat or it is an empty array. -/
theorem conforms_of_part_eq (h_value : a.IsValue) (h : a.argument.part = a.part) :
    a.Conforms := by
  obtain ⟨c, type, value⟩ := a
  by_cases h_dyn : type.isDynamic = true
  · cases type with
    | elementary type => exact .inl rfl
    | array component dimension =>
      have h_first : (component.array dimension).isFirstDynamic = true :=
        (AbiType.isDynamic_converter component dimension).symm.trans
          ((congrArg Part.dynamic h).trans h_dyn)
      have h_either :=
        isFlat_or_eq_nil (isValue_array.mp h_value).2 h_first (congrArg Part.content h)
      exact h_either.imp_right List.length_eq_zero_iff.mpr
  · exact .inl (AbiType.isFlat_of_static (Bool.eq_false_iff.mpr h_dyn))

/-- A static argument is written as the ABI says. -/
theorem part_eq_of_static (h : a.type.isDynamic = false) : a.argument.part = a.part := by
  have h_converter : a.type.converter.hasDynamic = false := a.type.hasDynamic_converter.trans h
  have h_dyn : a.type.converter.isDynamic = false :=
    Bool.eq_false_iff.mpr fun hc =>
      Bool.eq_false_iff.mp h_converter (TypeConverter.hasDynamic_of_isDynamic hc)
  exact congrArg₂ Part.mk (h_dyn.trans h.symm)
    (layout_eq_encode (alike_converter a.type) h_converter h)

/-- `T[]`, where `T` is elementary and not dynamic. -/
theorem part_eq_of_elementary {c : JavaClass} {type : ElementaryType c}
    (h : type.isDynamic = false) (value : List c.Value) :
    (argument ⟨.array c, .array (.elementary type) .dynamic, value⟩).part =
      part ⟨.array c, .array (.elementary type) .dynamic, value⟩ := by
  have h_converter : (AbiType.array (.elementary type) .dynamic).converter =
      Dimension.converter type.converter .dynamic := by
    cases type <;> rfl
  -- static components are concatenated without offsets in both
  have h_content : (Dimension.converter type.converter .dynamic).layout value =
      (AbiType.array (.elementary type) .dynamic).encode value := by
    have h_static : (AbiType.elementary type).isDynamic = false := h
    rw [layout_array, encode_array, h_static, encodeComponents_static]
    exact congrArg (fun l => word (value.length : ℕ) ++ l)
      (congrArg List.flatten (List.map_congr_left fun x _ => layout_elementary type x))
  unfold argument
  rw [h_converter]
  exact congrArg (Part.mk true) h_content

/-- The number of components is all there is of an empty array. -/
theorem part_eq_of_nil {c : JavaClass} {component : AbiType c} {dimension : Dimension}
    (h_accepted : (argument ⟨.array c, .array component dimension, ([] : List c.Value)⟩).Accepted)
    (h_value : IsValue ⟨.array c, .array component dimension, ([] : List c.Value)⟩) :
    (argument ⟨.array c, .array component dimension, ([] : List c.Value)⟩).part =
      part ⟨.array c, .array component dimension, ([] : List c.Value)⟩ := by
  obtain ⟨converter, dimension', h_converter, -⟩ := alike_converter (component.array dimension)
  unfold argument at h_accepted ⊢
  rw [h_converter] at h_accepted ⊢
  cases dimension with
  | fixed size => exact absurd (Dimension.isDynamic_of_allows_zero h_value.1) Bool.false_ne_true
  | dynamic =>
    -- an empty array has no length that a fixed dimension allows
    cases dimension' with
    | fixed size =>
      have h_accepts : (Dimension.converter converter (.fixed size)).Accepts ([] : List c.Value) :=
        h_accepted
      exact absurd (Dimension.isDynamic_of_allows_zero (accepts_array.mp h_accepts).1)
        Bool.false_ne_true
    | dynamic => rfl

/-- **Arguments that conform** are written as the ABI says. -/
theorem part_eq_of_conforms (h_accepted : a.argument.Accepted) (h_value : a.IsValue)
    (h : a.Conforms) : a.argument.part = a.part := by
  by_cases h_dyn : a.type.isDynamic = true
  · obtain ⟨c, type, value⟩ := a
    -- an elementary type, and an array whose components are static, or that has none
    cases type with
    | elementary type =>
      exact congrArg₂ Part.mk (isDynamic_elementary type) (layout_elementary type value)
    | @array c component dimension =>
      rcases h with h_flat | h_empty
      · obtain ⟨type, h_type, rfl, rfl⟩ := AbiType.eq_elementary_of_isFlat h_flat h_dyn
        exact part_eq_of_elementary h_type value
      · obtain rfl : value = ([] : List c.Value) := List.length_eq_zero_iff.mp h_empty
        exact part_eq_of_nil h_accepted h_value
  · exact part_eq_of_static (Bool.eq_false_iff.mpr h_dyn)

/-- Two arguments of the same type and with the same object are the same. -/
theorem eq_of_anyType_of_object {a a' : AbiArgument} (h_type : a.anyType = a'.anyType)
    (h_object : a.object = a'.object) : a = a' := by
  obtain ⟨c, type, value⟩ := a
  obtain ⟨c', type', value'⟩ := a'
  obtain ⟨rfl, h_type⟩ := Sigma.mk.inj h_type
  obtain rfl := eq_of_heq h_type
  obtain ⟨-, h_value⟩ := JavaObject.mk.inj h_object
  obtain rfl := eq_of_heq h_value
  rfl

end AbiArgument

/-! ### Calls -/

/-- The argument is a value of the type, which is flat unless the value is an empty array. -/
def MeetsAbi (type : AnyAbiType) (arg : JavaObject) : Prop :=
  ∃ value, arg = ⟨type.1, value⟩ ∧ type.2.IsValue value ∧
    (type.2.isFlat = true ∨ IsEmptyArray type.1 value)

/-- The converter of a type. -/
def AnyAbiType.typeConverter (type : AnyAbiType) : AnyTypeConverter := ⟨type.1, type.2.converter⟩

/-- The arguments meet the ABI one by one. -/
theorem meetsAbi_iff {as : List AbiArgument} :
    List.Forall₂ MeetsAbi (as.map AbiArgument.anyType) (as.map AbiArgument.object) ↔
      ∀ a ∈ as, a.IsValue ∧ a.Conforms := by
  induction as with
  | nil => simp
  | cons a as ih =>
    rw [List.map_cons, List.map_cons, List.forall₂_cons, ih, List.forall_mem_cons]
    refine and_congr_left' ⟨?_, fun h => ⟨a.value, rfl, h.1, h.2⟩⟩
    rintro ⟨value, h_object, h_value, h_conforms⟩
    obtain ⟨-, h_eq⟩ := JavaObject.mk.inj h_object
    obtain rfl : a.value = value := eq_of_heq h_eq
    exact ⟨h_value, h_conforms⟩

/-- An argument is determined by its type and its object. -/
theorem eq_of_anyTypes_of_objects {as as' : List AbiArgument}
    (h_types : as.map AbiArgument.anyType = as'.map AbiArgument.anyType)
    (h_objects : as.map AbiArgument.object = as'.map AbiArgument.object) : as = as' := by
  induction as generalizing as' with
  | nil =>
    obtain rfl : as' = [] := by simpa using h_types.symm
    rfl
  | cons a as ih =>
    cases as' with
    | nil => exact absurd h_types (by simp)
    | cons a' as' =>
      obtain ⟨h_type, h_types⟩ := List.cons.inj h_types
      obtain ⟨h_object, h_objects⟩ := List.cons.inj h_objects
      rw [AbiArgument.eq_of_anyType_of_object h_type h_object, ih h_types h_objects]

/-- The arguments are all there is to an encoding. -/
theorem isAbiEncoding_iff {as : List AbiArgument} {bytes : List UInt8} :
    IsAbiEncoding (as.map AbiArgument.anyType) (as.map AbiArgument.object) bytes ↔
      (∀ a ∈ as, a.IsValue) ∧ bytes = headTail (fun k => word k) 32 (as.map AbiArgument.part) := by
  refine ⟨?_, fun h => ⟨as, rfl, rfl, h.1, h.2⟩⟩
  rintro ⟨as', h_types, h_objects, h_values, h_bytes⟩
  obtain rfl := eq_of_anyTypes_of_objects h_types h_objects
  exact ⟨h_values, h_bytes⟩

/-- The constructor finds the converters of the types. -/
theorem inputParameters_eq {parameters : List Parameter} {converters : List AnyTypeConverter}
    (h : List.Forall₂ Converts parameters converters) {types : List AnyAbiType}
    (h_types : parameters.map Parameter.type = types.map fun type => type.2.name) :
    converters = types.map AnyAbiType.typeConverter := by
  induction h generalizing types with
  | nil =>
    obtain rfl : types = [] := by simpa using h_types.symm
    rfl
  -- the name of the first parameter is that of the first type, so the converter is its own
  | @cons parameter converter parameters converters h_first _ ih =>
    cases types with
    | nil => exact absurd h_types (by simp)
    | cons type types =>
      obtain ⟨h_name, h_types⟩ := List.cons.inj h_types
      have h_converter : TypeConverterManagerImpl.getTypeConverter parameter.type =
          .ok converter := h_first
      rw [h_name] at h_converter
      rw [List.map_cons, ← ih h_types, TypeConverterManagerImpl.getTypeConverter_name h_converter]
      rfl

/-- An argument that `encode` builds for a type of the ABI is one of these arguments. -/
theorem exists_abiArgument {a : Argument} {type : AnyAbiType}
    (h : a.typeConverter = type.typeConverter) :
    ∃ a' : AbiArgument, a'.anyType = type ∧ a = a'.argument := by
  obtain ⟨c, converter, value⟩ := a
  obtain ⟨c', type⟩ := type
  obtain ⟨h_class, h_converter⟩ := Sigma.mk.inj h
  obtain rfl : c = c' := h_class
  obtain rfl : converter = type.converter := eq_of_heq h_converter
  exact ⟨⟨c, type, value⟩, rfl, rfl⟩

theorem exists_abiArguments {as : List Argument} {types : List AnyAbiType}
    (h : as.map Argument.typeConverter = types.map AnyAbiType.typeConverter) :
    ∃ as' : List AbiArgument, as'.map AbiArgument.anyType = types ∧
      as = as'.map AbiArgument.argument := by
  induction as generalizing types with
  | nil =>
    obtain rfl : types = [] := by simpa using h.symm
    exact ⟨[], rfl, rfl⟩
  | cons a as ih =>
    cases types with
    | nil => exact absurd h (by simp)
    | cons type types =>
      obtain ⟨h_first, h_rest⟩ := List.cons.inj h
      obtain ⟨as', rfl, rfl⟩ := ih h_rest
      obtain ⟨a', rfl, rfl⟩ := exists_abiArgument h_first
      exact ⟨a' :: as', rfl, rfl⟩

namespace FunctionEncoding

/-- **When `encode` follows the contract ABI.** If it returns, the text behind the selector
is the hex of the encoding of the arguments if and only if each argument is a value of its
type, and the type is flat or the value is an empty array. -/
theorem encode_follows_abi_iff (digest : List UInt8 → List UInt8) (function : Function)
    (h_indexed : ∀ p ∈ function.inputs, p.indexed = false) (types : List AnyAbiType)
    (h_types : function.inputs.map Parameter.type = types.map fun type => type.2.name)
    (e : FunctionEncoding) (h_new : new digest function = .ok e) (args : List JavaObject)
    (text : List Char) (h_encode : e.encode args = .ok text) :
    (∃ bytes, IsAbiEncoding types args bytes ∧
        text = e.hash.take 10 ++ bytes.flatMap EthereumUtils.byteString) ↔
      List.Forall₂ MeetsAbi types args := by
  obtain ⟨h_built, -⟩ := new_returns h_new
  obtain ⟨as, h_converters, h_objects, h_returns⟩ := encode_returns h_built.headSize h_encode
  -- the arguments have the types of the parameters
  have h_filter : function.inputs.filter (fun p => !p.indexed) = function.inputs :=
    List.filter_eq_self.mpr fun p hp => by rw [h_indexed p hp]; rfl
  have h_all := h_built.inputParameters
  rw [h_filter] at h_all
  rw [inputParameters_eq h_all h_types] at h_converters
  obtain ⟨as, rfl, rfl⟩ := exists_abiArguments h_converters
  have h_args : args = as.map AbiArgument.object := by
    rw [← h_objects, List.map_map]
    rfl
  have h_parts : (as.map AbiArgument.argument).map Argument.part =
      as.map fun a => a.argument.part := List.map_map
  have h_text := h_returns.text_eq
  rw [h_parts] at h_text
  simp only [h_args, meetsAbi_iff, isAbiEncoding_iff]
  refine ⟨?_, ?_⟩
  · rintro ⟨bytes, ⟨h_values, rfl⟩, h_text'⟩
    rw [h_text] at h_text'
    -- equal texts have equal bytes, and equal bytes have equal parts
    have h_layout := hex_injective (List.append_cancel_left h_text')
    have h_within : List.Forall₂ Within (as.map fun a => a.argument.part)
        (as.map AbiArgument.part) := by
      rw [List.forall₂_map_left_iff, List.forall₂_map_right_iff, List.forall₂_same]
      intro a ha
      have h_mem : a.argument ∈ as.map AbiArgument.argument := List.mem_map_of_mem ha
      exact AbiArgument.within (h_returns.accepted _ h_mem) (h_values a ha)
        (h_returns.full _ h_mem)
    have h_eq := eq_of_headTail_eq length_offset (by decide) h_within h_layout
    intro a ha
    exact ⟨h_values a ha, AbiArgument.conforms_of_part_eq (h_values a ha)
      (List.map_inj_left.mp h_eq a ha)⟩
  · intro h
    refine ⟨_, ⟨fun a ha => (h a ha).1, rfl⟩, ?_⟩
    have h_same : (as.map fun a => a.argument.part) = as.map AbiArgument.part := by
      apply List.map_congr_left
      intro a ha
      exact AbiArgument.part_eq_of_conforms
        (h_returns.accepted _ (List.mem_map_of_mem ha)) (h a ha).1 (h a ha).2
    rw [h_text, h_same]

/-- A function of an ABI definition. -/
def functionOf (name : List Char) (types : List AnyAbiType) : Function where
  type := "function".toList
  name := some name
  inputs := types.map fun type => ⟨type.2.name, false⟩
  outputs := []

/-- The array `[7]` as the argument of `f(uint8[])`. -/
theorem encode_follows_abi_iff_uint8 :
    let types : List AnyAbiType := [⟨_, .array (.elementary (.uint ⟨8, by decide⟩)) .dynamic⟩]
    let args : List JavaObject := [⟨.array .bigInteger, ([7] : List ℤ)⟩]
    ∃ e text, encode e args = .ok text ∧
      ((∃ bytes, IsAbiEncoding types args bytes ∧
          text = e.hash.take 10 ++ bytes.flatMap EthereumUtils.byteString) ↔
        List.Forall₂ MeetsAbi types args) := by
  intro types args
  let digest : List UInt8 → List UInt8 := fun _ => [203, 219, 69, 38, 166, 169, 97, 112, 46, 15,
    55, 174, 66, 63, 212, 47, 74, 164, 0, 206, 13, 52, 152, 153, 132, 215, 222, 165, 226, 94, 80,
    22]
  -- the function is encoded by evaluation, and the theorem is applied to what it returns
  have h_run : (new digest (functionOf ['f'] types) >>= fun e => e.encode args).toOption.isSome =
      true := by decide +kernel
  obtain ⟨text, h_ok⟩ := exists_ok_of_isSome h_run
  obtain ⟨e, h_new, h_encode⟩ := bind_eq_ok.mp h_ok
  exact ⟨e, text, h_encode, encode_follows_abi_iff digest (functionOf ['f'] types) (by decide)
    types rfl e h_new args text h_encode⟩

/-- The array `["a"]` as the argument of `f(string[])`: the component has no offset. -/
theorem encode_string_array_not_abi :
    let types : List AnyAbiType := [⟨_, .array (.elementary .string) .dynamic⟩]
    let args : List JavaObject := [⟨.array .string, [JavaString.ofString "a"]⟩]
    let digest : List UInt8 → List UInt8 := fun _ => [233, 204, 135, 128, 223, 82, 51, 182, 57, 170,
      165, 142, 191, 94, 202, 6, 9, 106, 88, 47, 137, 141, 180, 64, 1, 151, 45, 208, 236, 77, 183,
      153]
    ∃ e text, new digest (functionOf ['f'] types) = .ok e ∧ e.encode args = .ok text ∧
      ¬∃ bytes, IsAbiEncoding types args bytes ∧
        text = e.hash.take 10 ++ bytes.flatMap EthereumUtils.byteString := by
  intro types args digest
  let run : Java (FunctionEncoding × List Char) := do
    let e ← new digest (functionOf ['f'] types)
    let text ← e.encode args
    return (e, text)
  have h_run : run.toOption.map (fun r => (r.1.hash.length, r.2.length)) = some (66, 266) := by
    decide +kernel
  obtain ⟨⟨e, text⟩, h_some, h_lengths⟩ := Option.map_eq_some_iff.mp h_run
  obtain ⟨e', h_new, h_rest⟩ := bind_eq_ok.mp (eq_ok_of_toOption h_some)
  obtain ⟨text', h_encode, h_eq⟩ := bind_eq_ok.mp h_rest
  obtain ⟨rfl, rfl⟩ := Prod.mk.inj (pure_eq_ok.mp h_eq)
  obtain ⟨h_hash, h_text⟩ : e'.hash.length = 66 ∧ text'.length = 266 := Prod.mk.inj h_lengths
  refine ⟨_, _, h_new, h_encode, ?_⟩
  rintro ⟨bytes, h_bytes, h_eq⟩
  -- the encoding is a word longer
  have h_only := (@isAbiEncoding_iff [⟨_, .array (.elementary .string) .dynamic,
    [JavaString.ofString "a"]⟩] bytes).mp h_bytes
  have h_bytes_length : bytes.length = 160 := by
    rw [h_only.2]
    decide +kernel
  have h_length := congrArg List.length h_eq
  rw [List.length_append, List.length_take, length_hex, h_bytes_length] at h_length
  omega

end FunctionEncoding

end Ethiso.Abi
