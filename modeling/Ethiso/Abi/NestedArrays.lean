import Ethiso.Abi.Serialisation
import Ethiso.Abi.TypeGrammar

/-!
# Nested arrays

In the name of an array type, the last dimension is the outermost one (`ofSuffixes`). The
factories take the first dimension for the outermost one (`nested`). So the converter denotes the
type of the name if and only if the dimensions are the same in both orders, as in `T[k]` or
`T[2][2]`, but not in `T[2][]`, and there are not too many of them for the classes of the arrays.
-/

namespace Ethiso.Abi

/-- An elementary type, or arrays of a component type. -/
inductive ArrayType
  | base (type : BaseType)
  | array (component : ArrayType) (dimension : Dimension)

namespace ArrayType

/-- The type that is written with these dimensions one after the other. -/
def ofSuffixes (type : BaseType) (dimensions : List Dimension) : ArrayType :=
  dimensions.foldl array (base type)

/-- The type with these dimensions, the first being the outermost. -/
def ofOuter (type : BaseType) : List Dimension → ArrayType
  | [] => base type
  | dimension :: dimensions => array (ofOuter type dimensions) dimension

/-- Read from the right, suffixes are the dimensions from the outside in. -/
theorem ofSuffixes_eq (type : BaseType) (dimensions : List Dimension) :
    ofSuffixes type dimensions = ofOuter type dimensions.reverse := by
  induction dimensions using List.reverseRecOn with
  | nil => rfl
  | append_singleton dimensions dimension ih =>
    rw [List.reverse_append, List.reverse_singleton, List.singleton_append, ofOuter, ← ih]
    exact List.foldl_append

/-- The converter is that of the elementary type, or one of arrays with the dimension of the
type, and its component denotes the component type. -/
def Denotes : AnyTypeConverter → ArrayType → Prop
  | converter, base type => converter = type.converter
  | converter, array component dimension =>
    ∃ inner : AnyTypeConverter, converter = ⟨_, dimension.converter inner.2⟩ ∧
      Denotes inner component

end ArrayType

section Nested

open ArrayType

variable {base : BaseType}

/-- The converter of an elementary type is not one of arrays. -/
theorem BaseType.converter_ne (base : BaseType) (inner : AnyTypeConverter) (dimension : Dimension) :
    base.converter ≠ ⟨_, dimension.converter inner.2⟩ := by
  intro h
  have h_class := congrArg Sigma.fst h
  cases base <;> cases h_class

/-- Wrapping a converter in a dimension loses nothing. -/
theorem converter_inj {inner inner' : AnyTypeConverter} {dimension dimension' : Dimension} :
    (⟨_, dimension.converter inner.2⟩ : AnyTypeConverter) = ⟨_, dimension'.converter inner'.2⟩ ↔
      dimension = dimension' ∧ inner = inner' := by
  refine ⟨?_, ?_⟩
  · intro h
    -- the classes of the values tell which component it is
    obtain ⟨c, inner⟩ := inner
    obtain ⟨c', inner'⟩ := inner'
    cases dimension <;> cases dimension' <;> cases h <;> exact ⟨rfl, rfl⟩
  · rintro ⟨rfl, rfl⟩
    rfl

/-- The dimensions of the converter have to be those of the type. -/
theorem denotes_nested_iff {dimensions dimensions' : List Dimension} :
    Denotes (nested base.converter dimensions) (ofOuter base dimensions') ↔
      dimensions = dimensions' := by
  induction dimensions generalizing dimensions' with
  | nil =>
    cases dimensions' with
    | nil => exact iff_of_true rfl rfl
    -- the converter of an elementary type is not one of arrays
    | cons dimension' dimensions' =>
      refine iff_of_false ?_ (List.cons_ne_nil _ _).symm
      rintro ⟨inner, h_eq, -⟩
      exact base.converter_ne inner dimension' h_eq
  | cons dimension dimensions ih =>
    cases dimensions' with
    | nil => exact iff_of_false (Ne.symm (base.converter_ne _ dimension)) (List.cons_ne_nil _ _)
    | cons dimension' dimensions' =>
      rw [List.cons.injEq]
      refine ⟨?_, ?_⟩
      · rintro ⟨inner, h_eq, h_inner⟩
        obtain ⟨rfl, rfl⟩ := converter_inj.mp h_eq
        exact ⟨rfl, ih.mp h_inner⟩
      · rintro ⟨rfl, h⟩
        exact ⟨_, rfl, ih.mpr h⟩

namespace TypeConverterManagerImpl

/-- **Nested arrays.** A converter is found for the name of an array type, and denotes this type,
if and only if its dimensions are the same from the first to the last as they are from the last to
the first, and the arrays have a class. -/
theorem denotes_iff {e : List Char} (h : ElementaryName Spelling.strict e base)
    (dimensions : List Dimension) :
    (∃ converter, getTypeConverter (e ++ dimensions.flatMap Dimension.name) = .ok converter ∧
        Denotes converter (ofSuffixes base dimensions)) ↔
      dimensions.reverse = dimensions ∧ base.Admits dimensions := by
  have h_peels := peels_name h.loose.notMem dimensions
  calc (∃ converter, getTypeConverter (e ++ dimensions.flatMap Dimension.name) = .ok converter ∧
        Denotes converter (ofSuffixes base dimensions))
    _ ↔ Denotes (nested base.converter dimensions) (ofSuffixes base dimensions) ∧
        base.Admits dimensions := by
      simp only [getTypeConverter_elementary_eq_ok h_peels h.loose, and_assoc]
      -- what the name is converted to is determined: it is the nesting of its suffixes
      exact ⟨fun ⟨_, h_admits, h_eq, h⟩ => ⟨h_eq ▸ h, h_admits⟩,
        fun ⟨h, h_admits⟩ => ⟨_, h_admits, rfl, h⟩⟩
    _ ↔ Denotes (nested base.converter dimensions) (ofOuter base dimensions.reverse) ∧
        base.Admits dimensions := by
      rw [ofSuffixes_eq]
    _ ↔ dimensions = dimensions.reverse ∧ base.Admits dimensions := by
      -- the converter has the first suffix outside, Solidity has the last one there
      rw [denotes_nested_iff]
    _ ↔ dimensions.reverse = dimensions ∧ base.Admits dimensions := by
      rw [eq_comm]

/-- `bool[][2][]` -/
theorem denotes_palindrome : ∃ converter,
    getTypeConverter (['b', 'o', 'o', 'l'] ++
        [.dynamic, .fixed ⟨2, by decide⟩, .dynamic].flatMap Dimension.name) = .ok converter ∧
      Denotes converter (ofSuffixes .bool [.dynamic, .fixed ⟨2, by decide⟩, .dynamic]) :=
  (denotes_iff .bool [.dynamic, .fixed ⟨2, by decide⟩, .dynamic]).mpr ⟨rfl, by decide⟩

/-- `bool[2][]` is taken for two arrays of any length. -/
theorem not_denotes_pairs : ¬∃ converter,
    getTypeConverter (['b', 'o', 'o', 'l'] ++
        [.fixed ⟨2, by decide⟩, .dynamic].flatMap Dimension.name) = .ok converter ∧
      Denotes converter (ofSuffixes .bool [.fixed ⟨2, by decide⟩, .dynamic]) := by
  rintro ⟨converter, h_ok, h⟩
  have h_peels := peels_name (by decide : '[' ∉ ['b', 'o', 'o', 'l'] ∧ ']' ∉ ['b', 'o', 'o', 'l'])
    [.fixed ⟨2, by decide⟩, .dynamic]
  obtain ⟨-, rfl⟩ := (getTypeConverter_elementary_eq_ok h_peels .bool).mp h_ok
  rw [ofSuffixes_eq, denotes_nested_iff] at h
  cases h

end TypeConverterManagerImpl

end Nested

end Ethiso.Abi
