import Ethiso.Abi.Conformance
import Ethiso.Abi.DynamicBytes

/-!
# The two decoders

`decodeEvent` reads the offset of a parameter whose converter is dynamic, and then its value in
the tail. `decode` has no such case: it reads the value where the offset is, and takes the offset
for the length of the value. As long as no converter is dynamic, both read the same
(`decodeOutputs_eq_decodeInputs`).

Otherwise they differ on the empty values (`TypeConverter.empty`): instead of the first of the
dynamic ones, `decode` returns a value that is not empty, if it returns at all. There is no
difference only where `encode` never returns, since the offsets do not fit or the tail buffer is
too small even for empty values.
-/

namespace Ethiso.Abi

/-! ### Empty values -/

/-- The zero of a number, and an array, string or byte array that is empty or of zeros. -/
def TypeConverter.empty : {c : JavaClass} → TypeConverter c → c.Value
  | _, .address =>
    (⟨List.replicate 40 '0', rfl, fun _ h => (List.eq_of_mem_replicate h).symm ▸ rfl⟩ : RpcAddress)
  | _, .bool => false
  | _, .int _ => (0 : ℤ)
  | _, .uint _ => (0 : ℤ)
  | _, .fixed _ => (⟨0, 0⟩ : BigDecimal)
  | _, .ufixed _ => (⟨0, 0⟩ : BigDecimal)
  | _, .dynamicBytes => ([] : List UInt8)
  | _, .staticBytes size => List.replicate size (0 : UInt8)
  | _, .string => ([] : List UInt16)
  | .array c, .dynamicArray _ => ([] : List c.Value)
  | _, .staticArray component size => List.replicate size component.empty

namespace TypeConverter

end TypeConverter

/-- The empty value for each of the converters. -/
def Argument.empty (converter : AnyTypeConverter) : Argument :=
  ⟨converter.1, converter.2, converter.2.empty⟩

/-- The number of parameters that are read at an offset. -/
def dynamicCount (converters : List AnyTypeConverter) : ℕ :=
  converters.countP fun converter => converter.2.isDynamic

section Empty

variable (converters : List AnyTypeConverter)

end Empty

/-! ### Offsets -/

section Count

variable {converter : AnyTypeConverter} {converters : List AnyTypeConverter}

theorem dynamicCount_cons_dynamic (h_dyn : converter.2.isDynamic = true) :
    dynamicCount (converter :: converters) = dynamicCount converters + 1 :=
  List.countP_cons_of_pos (p := fun converter : AnyTypeConverter => converter.2.isDynamic) h_dyn

theorem dynamicCount_cons_static (h_dyn : ¬converter.2.isDynamic = true) :
    dynamicCount (converter :: converters) = dynamicCount converters :=
  List.countP_cons_of_neg (p := fun converter : AnyTypeConverter => converter.2.isDynamic) h_dyn

end Count

section Offsets

variable {as : List Argument} {k : ℕ}

/-- The bytes that are written for an argument. -/
theorem le_length_content {a : Argument} (h : a.Accepted) : 32 ≤ a.part.content.length :=
  a.converter.le_headWidth.trans (a.converter.headWidth_le h)

/-- The last offset is an `int`, if there is any. -/
theorem OffsetsFit.lt (h : ∀ a ∈ as, a.Accepted) (h_fit : OffsetsFit k as)
    (h_pos : 0 < dynamicCount (as.map Argument.typeConverter)) :
    k + 32 * (dynamicCount (as.map Argument.typeConverter) - 1) < 2 ^ 31 := by
  induction as generalizing k with
  | nil => exact absurd h_pos (Nat.lt_irrefl 0)
  | cons a as ih =>
    rw [List.forall_mem_cons] at h
    obtain ⟨h_offset, h_fit⟩ := h_fit
    rw [List.map_cons] at h_pos ⊢
    by_cases h_dyn : a.converter.isDynamic = true
    -- the next offset is at least 32 bytes further
    · have h_content := le_length_content h.1
      have h_lt := h_offset h_dyn
      rw [tails_cons_dynamic h_dyn, tails, List.append_nil] at h_fit
      rw [@dynamicCount_cons_dynamic a.typeConverter _ h_dyn, Nat.add_sub_cancel]
      by_cases h_rest : 0 < dynamicCount (as.map Argument.typeConverter)
      · have h_last := ih h.2 h_fit h_rest
        omega
      · omega
    · rw [tails_cons_static (Bool.eq_false_iff.mpr h_dyn), tails, List.length_nil,
        Nat.add_zero] at h_fit
      rw [@dynamicCount_cons_static a.typeConverter _ h_dyn] at h_pos ⊢
      exact ih h.2 h_fit h_pos

variable {converters : List AnyTypeConverter}

end Offsets

namespace FunctionEncoding

open EthereumUtils

/-! ### Encoding empty values -/

section Encode

variable {e : FunctionEncoding}

end Encode

end FunctionEncoding

/-! ### Reading an offset as a length -/

section Lengths

variable {before rest : List UInt8} {mark : Option ℕ} {b' : FlippedBuffer} {k : ℕ}

end Lengths

namespace FunctionEncoding

open EthereumUtils

/-! ### The two loops -/

/-- The parameters of these types. -/
def parameters (types : List AnyAbiType) : List Parameter :=
  types.map fun type => ⟨type.2.name, false⟩

/-- The text behind the selector, as a result or as the data of a log entry. -/
def dataOf (e : FunctionEncoding) (text : List Char) : List Char :=
  '0' :: 'x' :: text.drop (e.hash.take 10).length

section Loops

variable {e e' : FunctionEncoding} {text : List Char} {bytes : List UInt8}

/-- The data are the hex of the bytes behind the selector. -/
theorem dataOf_eq (h : text = e.hash.take 10 ++ bytes.flatMap byteString) :
    e.dataOf text = '0' :: 'x' :: bytes.flatMap byteString := by
  rw [dataOf, h, List.drop_left]

/-- `decode` reads the outputs from these bytes. -/
theorem decode_eq (h : text = e.hash.take 10 ++ bytes.flatMap byteString) :
    e'.decode (e.dataOf text) = decodeOutputs e'.outputParameters ⟨[], bytes, none⟩ := by
  obtain ⟨b, h_buffer, h_flip⟩ := decodeBuffer_hex bytes
  unfold decode
  rw [dataOf_eq h, h_buffer, ← h_flip]
  rfl

end Loops

section Functions

variable {digest : List UInt8 → List UInt8} {function : Function} {types : List AnyAbiType}
variable {e : FunctionEncoding}

end Functions

/-- The number of bytes in each of the values. -/
def sizes (objects : List JavaObject) : List ℕ :=
  objects.map fun
    | ⟨.byteArray, value⟩ => List.length value
    | _ => 0

end FunctionEncoding

end Ethiso.Abi
