import Ethiso.Abi.TypeGrammar

/-!
# The converters of the types

The converter that the type manager finds for the name of a type (`AbiType.converter`).
For an elementary type it is the one to be expected, but that of `intM` is the unsigned
one. For an array the factories take the first pair of brackets of the name, which is the
innermost dimension of the type, as the outermost dimension of the converter. Adding a
dimension to the type therefore adds one inside of the converter (`insertInner`).
-/

namespace Ethiso.Abi

/-- The converter of a signed integer is the unsigned one. -/
def ElementaryType.converter : {c : JavaClass} → ElementaryType c → TypeConverter c
  | _, .address => .address
  | _, .bool => .bool
  | _, .int size => .uint size
  | _, .uint size => .uint size
  | _, .bytes => .dynamicBytes
  | _, .bytesN size => .staticBytes size
  | _, .string => .string

/-- Makes arrays of the values that are not arrays. -/
def TypeConverter.insertInner : {c : JavaClass} → TypeConverter c → Dimension →
    TypeConverter (.array c)
  | _, .dynamicArray component, dimension => .dynamicArray (component.insertInner dimension)
  | _, .staticArray component size, dimension => .staticArray (component.insertInner dimension) size
  | _, converter, dimension => dimension.converter converter

/-- The converter that the manager makes for the name of a type. -/
def AbiType.converter : {c : JavaClass} → AbiType c → TypeConverter c
  | _, .elementary type => type.converter
  | _, .array component dimension => component.converter.insertInner dimension

/-! ### Elementary types -/

section Elementary

variable {c : JavaClass} (type : ElementaryType c)

/-- The elementary type, whatever the class of its values. -/
def ElementaryType.base : {c : JavaClass} → ElementaryType c → BaseType
  | _, .address => .address
  | _, .bool => .bool
  | _, .int size => .int size
  | _, .uint size => .uint size
  | _, .bytes => .bytes
  | _, .bytesN size => .bytesN size
  | _, .string => .string

theorem ElementaryType.base_converter : type.base.converter = ⟨c, type.converter⟩ := by
  cases type <;> rfl

/-- The name of an elementary type is one of the strict grammar. -/
theorem ElementaryType.elementaryName : ElementaryName Spelling.strict type.name type.base := by
  cases type with
  | address => exact .address
  | bool => exact .bool
  | int size => exact .int (Or.inr rfl)
  | uint size => exact .uint (Or.inr rfl)
  | bytes => exact .bytes
  | bytesN size => exact .bytesN rfl
  | string => exact .string

end Elementary

/-! ### Any dimensions -/

/-- A suffix behind the others is the innermost dimension of the converter. -/
theorem nested_append {c : JavaClass} (type : ElementaryType c) (dimensions : List Dimension)
    (dimension : Dimension) :
    nested ⟨c, type.converter⟩ (dimensions ++ [dimension]) =
      ⟨_, (nested ⟨c, type.converter⟩ dimensions).2.insertInner dimension⟩ := by
  induction dimensions with
  | nil => cases type <;> rfl
  | cons first dimensions ih =>
    rw [List.cons_append, nested, ih]
    cases first <;> rfl

/-- The brackets of a type, as they are read. -/
theorem AbiType.exists_nested {c : JavaClass} (type : AbiType c) :
    ∃ (c' : JavaClass) (base : ElementaryType c') (dimensions : List Dimension),
      type.name = base.name ++ dimensions.flatMap Dimension.name ∧
      (⟨c, type.converter⟩ : AnyTypeConverter) = nested ⟨c', base.converter⟩ dimensions := by
  induction type with
  | elementary base => exact ⟨_, base, [], (List.append_nil _).symm, rfl⟩
  | array component dimension ih =>
    obtain ⟨c', base, dimensions, h_name, h_converter⟩ := ih
    refine ⟨c', base, dimensions ++ [dimension], ?_, ?_⟩
    · rw [AbiType.name, h_name, List.flatMap_append, List.append_assoc, List.flatMap_singleton]
    · rw [nested_append, ← h_converter]
      rfl

/-- **The converter of a type.** For its name, the manager finds no other converter. -/
theorem TypeConverterManagerImpl.getTypeConverter_name {c : JavaClass} {type : AbiType c}
    {converter : AnyTypeConverter} (h : getTypeConverter type.name = .ok converter) :
    converter = ⟨c, type.converter⟩ := by
  obtain ⟨c', base, dimensions, h_name, h_converter⟩ := type.exists_nested
  have h_base := base.elementaryName.loose
  rw [h_name] at h
  calc converter
    _ = nested base.base.converter dimensions :=
      ((getTypeConverter_elementary_eq_ok (peels_name h_base.notMem dimensions) h_base).mp h).2.symm
    _ = ⟨c, type.converter⟩ := by rw [base.base_converter, h_converter]

end Ethiso.Abi
