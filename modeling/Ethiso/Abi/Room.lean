import Ethiso.Abi.ParameterTypes

/-!
# Room for the arguments

The head buffer is as large as the converters announce, and the tail buffer always has 1024 bytes.
`encode_ok_iff_fits` says for which arguments this is enough: the values are taken for values of
the types, there is nothing in the strings, byte arrays and dynamic arrays inside of an argument in
the head, and the arguments in the tail have no more than 1024 bytes together. The sizes of the
heads and the offsets have to be `int`s, too.
-/

namespace Ethiso.Abi

/-- An object with the type of its parameter. -/
structure TypedArgument where
  type : ParameterType
  object : JavaObject
  isValue : type.meant.IsValue object

namespace TypedArgument

/-! ### Arguments of the converters -/

section Argument

variable (a : TypedArgument)

/-- The order of the dimensions is no matter for the class of the values. -/
theorem typeClass_eq : a.object.typeClass = a.type.converter.1 :=
  calc a.object.typeClass
    _ = (ArrayType.ofSuffixes a.type.base a.type.dimensions).typeClass := a.isValue.typeClass_eq
    _ = (ArrayType.ofOuter a.type.base a.type.dimensions.reverse).typeClass := by
      rw [ArrayType.ofSuffixes_eq]
    _ = (ArrayType.ofOuter a.type.base.unsigned a.type.dimensions).typeClass :=
      typeClass_ofOuter (congrArg Sigma.fst a.type.base.converter_unsigned).symm
        List.length_reverse
    _ = a.type.converter.1 := typeClass_taken a.type.base a.type.dimensions

/-- The argument, as its converter takes it. -/
def argument : Argument := ⟨_, a.type.converter.2, a.typeClass_eq ▸ a.object.value⟩

theorem object_argument : a.argument.object = a.object := by
  obtain ⟨type, ⟨c, value⟩, h⟩ := a
  obtain rfl : c = type.converter.1 := typeClass_eq ⟨type, ⟨c, value⟩, h⟩
  rfl

/-- The type that the converter takes for the type of the parameter. -/
def taken : ArrayType := a.type.taken

variable {a}

/-- An accepted argument is a value of the type it is taken for. -/
theorem isValue_of_accepted (h : a.argument.Accepted) : a.taken.IsValue a.object := by
  rw [← a.object_argument]
  exact isValue_of_accepts rfl h

/-- The part of an argument is as long as its size. -/
theorem length_content (h : a.taken.IsValue a.object) :
    a.argument.part.content.length = a.taken.size a.object := by
  rw [← a.object_argument] at h ⊢
  exact length_layout rfl h

theorem isDynamic_argument : a.argument.converter.isDynamic = a.taken.isDynamic := isDynamic_eq rfl

theorem headWidth_argument : a.argument.converter.headWidth = a.taken.announced := headWidth_eq rfl

end Argument

end TypedArgument

/-! ### Sizes of calls -/

/-- The size of the heads. -/
def announcedSize (as : List TypedArgument) : ℕ := (as.map fun a => a.taken.announced).sum

/-- The size of the tails. -/
def tailSize (as : List TypedArgument) : ℕ :=
  (as.map fun a => if a.taken.isDynamic then a.taken.size a.object else 0).sum

/-- There is room for the arguments, and the converters take them. -/
structure Fits (as : List TypedArgument) : Prop where
  isValue : ∀ a ∈ as, a.taken.IsValue a.object
  blank : ∀ a ∈ as, a.taken.isDynamic = false → a.taken.IsBlank a.object
  announced : announcedSize as < 2 ^ 31
  offsets : ∀ before a after, as = before ++ a :: after → a.taken.isDynamic = true →
    announcedSize as + tailSize before < 2 ^ 31
  tails : tailSize as ≤ 1024

section Sizes

variable {as : List TypedArgument}

/-- The heads together take what the types announce. -/
theorem headWidths_arguments :
    headWidths ((as.map TypedArgument.argument).map Argument.typeConverter) = announcedSize as := by
  unfold headWidths announcedSize
  rw [List.map_map, List.map_map]
  exact congrArg List.sum (List.map_congr_left fun a _ => a.headWidth_argument)

theorem tailSize_cons (a : TypedArgument) :
    tailSize (a :: as) = (if a.taken.isDynamic then a.taken.size a.object else 0) + tailSize as :=
  List.sum_cons

/-- What one argument adds to the tails. -/
theorem length_tail {a : TypedArgument} (h : a.taken.IsValue a.object) :
    (tails [a.argument.part]).length =
      if a.taken.isDynamic then a.taken.size a.object else 0 := by
  rw [tails, tails, List.append_nil]
  show (if a.argument.converter.isDynamic then a.argument.part.content else []).length = _
  rw [a.isDynamic_argument]
  split_ifs
  · exact TypedArgument.length_content h
  · rfl

/-- The length of all tails. -/
theorem length_tails (h : ∀ a ∈ as, a.taken.IsValue a.object) :
    (tails ((as.map TypedArgument.argument).map Argument.part)).length = tailSize as := by
  induction as with
  | nil => rfl
  | cons a as ih =>
    rw [List.forall_mem_cons] at h
    rw [List.map_cons, List.map_cons, tails_cons, List.length_append, length_tail h.1, ih h.2,
      tailSize_cons]

/-- Offsets fit if what stands before each dynamic argument stays below `2 ^ 31`. -/
theorem offsetsFit_iff {k : ℕ} (h : ∀ a ∈ as, a.taken.IsValue a.object) :
    OffsetsFit k (as.map TypedArgument.argument) ↔
      ∀ before a after, as = before ++ a :: after → a.taken.isDynamic = true →
        k + tailSize before < 2 ^ 31 := by
  induction as generalizing k with
  | nil =>
    apply iff_of_true trivial
    intro before a after h_eq
    exact absurd h_eq (by simp)
  | cons a as ih =>
    rw [List.forall_mem_cons] at h
    rw [List.map_cons, OffsetsFit, ih h.2, a.isDynamic_argument, length_tail h.1]
    refine ⟨?_, fun h_all => ⟨fun h_dyn => ?_, fun before b after h_eq h_dyn => ?_⟩⟩
    · rintro ⟨h_first, h_rest⟩ before b after h_eq h_dyn
      -- the argument is the first one, or it is among the others
      cases before with
      | nil =>
        obtain ⟨rfl, rfl⟩ := List.cons.inj h_eq
        exact h_first h_dyn
      | cons a' before =>
        obtain ⟨rfl, rfl⟩ := List.cons.inj h_eq
        rw [tailSize_cons, ← Nat.add_assoc]
        exact h_rest before b after rfl h_dyn
    · exact h_all [] a as rfl h_dyn
    · have h_b := h_all (a :: before) b after (by rw [h_eq, List.cons_append]) h_dyn
      rwa [tailSize_cons, ← Nat.add_assoc] at h_b

/-- The head of an argument is as large as announced if there is nothing in it. -/
theorem headSize_eq_iff {a : TypedArgument} (h : a.taken.IsValue a.object) :
    a.argument.part.headSize 32 = a.argument.converter.headWidth ↔
      (a.taken.isDynamic = false → a.taken.IsBlank a.object) := by
  rw [a.headWidth_argument, ← ArrayType.size_eq_announced_iff h, ← TypedArgument.length_content h]
  show (if a.argument.converter.isDynamic then 32 else a.argument.part.content.length) = _ ↔ _
  rw [a.isDynamic_argument]
  split_ifs with h_dyn
  · exact iff_of_true (ArrayType.announced_of_dynamic h_dyn).symm fun hc => by simp [h_dyn] at hc
  · exact (imp_iff_right (Bool.eq_false_iff.mpr h_dyn)).symm

end Sizes

/-! ### Calls -/

namespace FunctionEncoding

open EthereumUtils

variable {e : FunctionEncoding} {as : List TypedArgument}

/-- If encoding returns, the arguments fit. -/
theorem Returns.fits {text : List Char} (h : e.Returns (as.map TypedArgument.argument) text) :
    Fits as := by
  have h_value : ∀ a ∈ as, a.taken.IsValue a.object := fun a h_a =>
    TypedArgument.isValue_of_accepted (h.accepted _ (List.mem_map_of_mem h_a))
  have h_size := (headSize_eq_headWidths h.full).trans headWidths_arguments
  have h_lt := h.headSize_lt
  have h_offsets := h.offsets
  have h_tails := h.tails_le
  rw [h_size] at h_lt h_offsets
  rw [length_tails h_value] at h_tails
  refine ⟨h_value, fun a h_a => ?_, h_lt, (offsetsFit_iff h_value).mp h_offsets, h_tails⟩
  exact (headSize_eq_iff (h_value a h_a)).mp (h.full _ (List.mem_map_of_mem h_a))

end FunctionEncoding

end Ethiso.Abi
