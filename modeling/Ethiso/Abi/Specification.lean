import Ethiso.Abi.Serialisation
import Ethiso.Framework.HeadTail

/-!
# The contract ABI

The types of the Ethereum contract ABI that the converters are for, their names, and
the encoding that the ABI specification gives to their values. The specification is
about the types as the ABI reads them: in `T[k]` and `T[]` the component `T` is all that
stands in front of the last pair of brackets. It is our statement of what
`FunctionEncoding.encode` is for, and is compared with it later.

A sequence of components, be it the arguments of a call or the components of an array,
is encoded with heads and tails (`headTail`), the offsets being relative to the start of
the sequence. A component is dynamic if its type is.

A type is indexed by the class of its values in Java. Not every value of the class is a
value of the type (`IsValue`): the sizes of arrays have to be right, integers have to be
in range, and strings well-formed. The sizes in types are those that the type manager
accepts.
-/

namespace Ethiso.Abi

open TypeConverterUtils

/-- The types that are not arrays. -/
inductive ElementaryType : JavaClass → Type
  | address : ElementaryType .address
  | bool : ElementaryType .boolean
  | int (size : IntegerSize) : ElementaryType .bigInteger
  | uint (size : IntegerSize) : ElementaryType .bigInteger
  | bytes : ElementaryType .byteArray
  | bytesN (size : BytesSize) : ElementaryType .byteArray
  | string : ElementaryType .string

/-- What stands between a pair of brackets. -/
inductive Dimension
  | dynamic
  | fixed (size : ArraySize)

/-- The types: `array component dimension` is `T[k]` or `T[]`. -/
inductive AbiType : JavaClass → Type
  | elementary {c : JavaClass} (type : ElementaryType c) : AbiType c
  | array {c : JavaClass} (component : AbiType c) (dimension : Dimension) : AbiType (.array c)

/-! ### Names -/

/-- The name of an elementary type. -/
def ElementaryType.name : {c : JavaClass} → ElementaryType c → List Char
  | _, .address => ['a', 'd', 'd', 'r', 'e', 's', 's']
  | _, .bool => ['b', 'o', 'o', 'l']
  | _, .int size => ['i', 'n', 't'] ++ numeral 10 size
  | _, .uint size => ['u', 'i', 'n', 't'] ++ numeral 10 size
  | _, .bytes => ['b', 'y', 't', 'e', 's']
  | _, .bytesN size => ['b', 'y', 't', 'e', 's'] ++ numeral 10 size
  | _, .string => ['s', 't', 'r', 'i', 'n', 'g']

/-- A dimension as it stands behind the type. -/
def Dimension.name : Dimension → List Char
  | .dynamic => ['[', ']']
  | .fixed size => '[' :: numeral 10 size ++ [']']

/-- The name of a type: the dimensions follow, the outermost one last. -/
def AbiType.name : {c : JavaClass} → AbiType c → List Char
  | _, .elementary type => type.name
  | _, .array component dimension => component.name ++ dimension.name

/-! ### Dynamic types -/

/-- Bytes and text have no length of their own. -/
def ElementaryType.isDynamic : {c : JavaClass} → ElementaryType c → Bool
  | _, .bytes => true
  | _, .string => true
  | _, _ => false

/-- A dimension without a size. -/
def Dimension.isDynamic : Dimension → Bool
  | .dynamic => true
  | .fixed _ => false

/-- `bytes`, `string`, `T[]`, and `T[k]` if `T` is dynamic. -/
def AbiType.isDynamic : {c : JavaClass} → AbiType c → Bool
  | _, .elementary type => type.isDynamic
  | _, .array component dimension => dimension.isDynamic || component.isDynamic

/-! ### Values -/

/-- What the values of an elementary type are. -/
def ElementaryType.IsValue : {c : JavaClass} → ElementaryType c → c.Value → Prop
  | _, .address, _ => True
  | _, .bool, _ => True
  | _, .int size, n => IntTypeConverter.Accepts size n
  | _, .uint size, n => UIntTypeConverter.Accepts size n
  | _, .bytes, value => List.length value < 2 ^ 256
  | _, .bytesN size, value => List.length value = size
  | _, .string, s => JavaString.WellFormed s ∧ (JavaString.getBytes s).length < 2 ^ 256

/-- The number of components is the size, or any number that a `uint256` can be. -/
def Dimension.Allows : Dimension → ℕ → Prop
  | .dynamic, length => length < 2 ^ 256
  | .fixed size, length => length = size

/-- What the values of a type are: each element is one of the component. -/
def AbiType.IsValue : {c : JavaClass} → AbiType c → c.Value → Prop
  | _, .elementary type, value => type.IsValue value
  | _, .array component dimension, value =>
    dimension.Allows (List.length value) ∧ List.Forall (fun x => component.IsValue x) value

/-! ### The encoding -/

/-- How the ABI encodes a value of an elementary type. -/
def ElementaryType.encode : {c : JavaClass} → ElementaryType c → c.Value → List UInt8
  | _, .address, a => word (AddressTypeConverter.toBigInteger a)
  | _, .bool, x => word (Bool.toInt x)
  | _, .int _, n => word n
  | _, .uint _, n => word n
  | _, .bytes, value => word (List.length value) ++ padded value
  | _, .bytesN _, value => padded value
  | _, .string, s => word (JavaString.getBytes s).length ++ padded (JavaString.getBytes s)

/-- A sequence of components, which are all dynamic or all static. -/
def encodeComponents {α : Type} (isDynamic : Bool) (encode : α → List UInt8) (l : List α) :
    List UInt8 :=
  headTail (fun k => word k) 32 (l.map fun x => ⟨isDynamic, encode x⟩)

/-- The number of components, if the type does not tell it. -/
def Dimension.lengthWord : Dimension → ℕ → List UInt8
  | .dynamic, length => word length
  | .fixed _, _ => []

/-- How it encodes an array: with offsets, if the component is dynamic. -/
def AbiType.encode : {c : JavaClass} → AbiType c → c.Value → List UInt8
  | _, .elementary type, value => type.encode value
  | _, .array component dimension, value =>
    dimension.lengthWord (List.length value) ++
      encodeComponents component.isDynamic (fun x => component.encode x) value

/-! ### Calls -/

/-- A type with the class of its values. -/
abbrev AnyAbiType := (c : JavaClass) × AbiType c

/-- A value with its type. -/
structure AbiArgument where
  typeClass : JavaClass
  type : AbiType typeClass
  value : typeClass.Value

namespace AbiArgument

/-- The type of an argument. -/
def anyType (a : AbiArgument) : AnyAbiType := ⟨a.typeClass, a.type⟩

/-- The argument as an object of Java. -/
def object (a : AbiArgument) : JavaObject := ⟨a.typeClass, a.value⟩

/-- The value is one of the type. -/
def IsValue (a : AbiArgument) : Prop := a.type.IsValue a.value

/-- Where the argument goes: into the head or into the tail. -/
def part (a : AbiArgument) : Part UInt8 := ⟨a.type.isDynamic, a.type.encode a.value⟩

end AbiArgument

/-- The bytes are the encoding of the arguments of a call with parameters of these types. -/
def IsAbiEncoding (types : List AnyAbiType) (args : List JavaObject) (bytes : List UInt8) : Prop :=
  ∃ as : List AbiArgument, as.map AbiArgument.anyType = types ∧
    as.map AbiArgument.object = args ∧ (∀ a ∈ as, a.IsValue) ∧
    bytes = headTail (fun k => word k) 32 (as.map AbiArgument.part)

/-! ### Static components -/

section Static

variable {α : Type} (encode : α → List UInt8) (l : List α)

/-- Parts that are not dynamic stand in the head, one after the other. -/
theorem heads_static (k : ℕ) :
    heads (fun k => word k) k (l.map fun x => ⟨false, encode x⟩) = l.flatMap encode := by
  induction l with
  | nil => rfl
  | cons x l ih => rw [List.map_cons, heads_cons_static rfl, ih, List.flatMap_cons]

theorem tails_static : tails (l.map fun x => (⟨false, encode x⟩ : Part UInt8)) = [] := by
  induction l with
  | nil => rfl
  | cons x l ih =>
    rw [List.map_cons, tails_cons_static rfl]
    exact ih

/-- Static components are put one after the other. -/
theorem encodeComponents_static : encodeComponents false encode l = l.flatMap encode := by
  unfold encodeComponents headTail
  rw [heads_static, tails_static, List.append_nil]

end Static

end Ethiso.Abi
