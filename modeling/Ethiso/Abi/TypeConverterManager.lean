import Ethiso.Abi.TypeConverter

/-!
# The type manager

`TypeConverterManagerImpl` finds the converter of a type by its name: it asks the
factories one after the other, in the order of the services file. The two factories
of arrays take one dimension off the name, the first one, and ask the manager for
the converter of what is left.

The manager and these factories call each other. The depth of the calls is counted
down; a name has fewer dimensions than characters, so that the count of
`getTypeConverter` is never used up. The table of the converters found before is left
out: it does not change the answer.
-/

namespace Ethiso.Abi

/-- A `TypeConverter<?>`. -/
abbrev AnyTypeConverter := (c : JavaClass) × TypeConverter c

/-- A factory is given the manager, which the array factories ask. -/
structure TypeConverterFactory where
  supportsType : List Char → Java Bool
  newTypeConverter : (List Char → Java AnyTypeConverter) → List Char → Java AnyTypeConverter

/-- Whether the attempt succeeds; an `IllegalArgumentException` is caught. -/
def supported {α : Type} (attempt : Java α) : Java Bool :=
  match attempt with
  | .ok _ => return true
  | .error e => if e.isIllegalArgument then return false else throw e

/-- What the manager throws if no factory supports the type. -/
def typeNotSupported {α : Type} (type : List Char) : Java α :=
  throw (.illegalArgument s!"Type not supported [{String.ofList type}]")

/-- `type.indexOf(c)` -/
def indexOf (c : Char) (type : List Char) : Option ℕ := type.findIdx? (· = c)

/-! ### Elementary types -/

/-- The factory of a type with a fixed name. -/
def namedFactory (name : List Char) (instance_ : AnyTypeConverter) : TypeConverterFactory where
  supportsType type := return type = name
  newTypeConverter _ type := if type = name then return instance_ else typeNotSupported type

/-- `address` -/
def AddressTypeConverterFactory : TypeConverterFactory :=
  namedFactory ['a', 'd', 'd', 'r', 'e', 's', 's'] ⟨_, .address⟩

/-- `bool` -/
def BoolTypeConverterFactory : TypeConverterFactory :=
  namedFactory ['b', 'o', 'o', 'l'] ⟨_, .bool⟩

/-- The word before the size of bytes. -/
def BYTES : List Char := ['b', 'y', 't', 'e', 's']

/-- `bytes` -/
def DynamicBytesTypeConverterFactory : TypeConverterFactory := namedFactory BYTES ⟨_, .dynamicBytes⟩

/-- `string` -/
def StringTypeConverterFactory : TypeConverterFactory :=
  namedFactory ['s', 't', 'r', 'i', 'n', 'g'] ⟨_, .string⟩

/-- What follows the word that the type starts with. -/
def suffixOf (word type : List Char) : Java (List Char) :=
  if word.isPrefixOf type then return type.drop word.length else typeNotSupported type

/-- The size of an integer type: in steps of 8 from 8 to 256, which is the default. -/
def integerSize (word type : List Char) : Java IntegerSize := do
  let suffix ← suffixOf word type
  if ['+'].isPrefixOf suffix then
    throw (.illegalArgument s!"Invalid uint size [{String.ofList suffix}]")
  let size : ℤ ← if suffix = [] then pure 256 else parseUnsignedInt suffix
  if h : 8 ≤ size ∧ size ≤ 256 ∧ size % 8 = 0 then return ⟨size.toNat, by omega⟩
  else throw (.illegalArgument s!"Invalid uint size [{String.ofList suffix}]")

/-- The word before the size of a signed integer. -/
def INT : List Char := ['i', 'n', 't']

/-- The word before the size of an unsigned one. -/
def UINT : List Char := ['u', 'i', 'n', 't']

/-- The converter of a signed type is the unsigned one. -/
def IntTypeConverterFactory : TypeConverterFactory where
  supportsType type := supported (integerSize INT type)
  newTypeConverter _ type := do return ⟨_, .uint (← integerSize INT type)⟩

/-- `uint` and `uintN` -/
def UIntTypeConverterFactory : TypeConverterFactory where
  supportsType type := supported (integerSize UINT type)
  newTypeConverter _ type := do return ⟨_, .uint (← integerSize UINT type)⟩

namespace StaticBytesTypeConverterFactory

/-- The number behind `bytes`, which must not be missing. -/
def getSize (type : List Char) : Java ℤ := do
  let suffix ← suffixOf BYTES type
  if ['+'].isPrefixOf suffix then
    throw (.illegalArgument s!"Invalid bytes size [{String.ofList suffix}]")
  if suffix = [] then
    throw (.illegalArgument s!"Dynamic bytes arrays not supported [{String.ofList suffix}]")
  let size ← parseUnsignedInt suffix
  if size < 0 ∨ 32 < size then
    throw (.illegalArgument s!"Invalid bytes size [{String.ofList suffix}]")
  return size

/-- The constructor of the converter refuses the size 0, which `getSize` takes. -/
def newTypeConverter (type : List Char) : Java AnyTypeConverter := do
  let size ← getSize type
  if h : 0 < size ∧ size ≤ 32 then return ⟨_, .staticBytes ⟨size.toNat, by omega⟩⟩
  else throw (.illegalArgument s!"Invalid size {size}")

end StaticBytesTypeConverterFactory

/-- `bytesN` -/
def StaticBytesTypeConverterFactory : TypeConverterFactory where
  supportsType type := supported (StaticBytesTypeConverterFactory.getSize type)
  newTypeConverter _ type := StaticBytesTypeConverterFactory.newTypeConverter type

/-! ### Fixed-point types -/

/-- `suffix.split("x")`: empty strings at the end are left out. -/
def splitSizes (suffix : List Char) : List (List Char) :=
  ((suffix.splitOn 'x').reverse.dropWhile (· = [])).reverse

/-- One of the two sizes of a fixed-point type. -/
def fixedPointSize (sizeString : List Char) : Java ℤ := do
  if ['+'].isPrefixOf sizeString then
    throw (.illegalArgument s!"Invalid uint size [{String.ofList sizeString}]")
  let size ← parseInt 10 sizeString
  if size < 8 ∨ 256 < size ∨ size % 8 ≠ 0 then
    throw (.illegalArgument s!"Invalid fixed size [{String.ofList sizeString}]")
  return size

/-- Both sizes; 128 and 128 if none is given. -/
def fixedPointSizes (word type : List Char) : Java (ℤ × ℤ) := do
  let suffix ← suffixOf word type
  if suffix = [] then return (128, 128)
  match splitSizes suffix with
  | [m, n] => return (← fixedPointSize m, ← fixedPointSize n)
  | sizes =>
    let text := ", ".intercalate (sizes.map String.ofList)
    throw (.illegalArgument s!"Bad fixed sizes [{text}]")

/-- The check of both constructors. -/
def FixedSize.new (name : String) (m n : ℤ) : Java FixedSize :=
  if h : 8 ≤ m ∧ 8 ≤ n ∧ m + n ≤ 256 ∧ m % 8 = 0 ∧ n % 8 = 0 then
    return ⟨m.toNat, n.toNat, by omega⟩
  else throw (.illegalArgument s!"Invalid sizes for {name} [m={m}, n={n}]")

/-- The word before the sizes of a signed fixed-point type. -/
def FIXED : List Char := ['f', 'i', 'x', 'e', 'd']

/-- The word before the sizes of an unsigned one. -/
def UFIXED : List Char := ['u', 'f', 'i', 'x', 'e', 'd']

/-- `fixedMxN` -/
def FixedTypeConverterFactory : TypeConverterFactory where
  supportsType type := supported (fixedPointSizes FIXED type)
  newTypeConverter _ type := do
    let (m, n) ← fixedPointSizes FIXED type
    return ⟨_, .fixed (← FixedSize.new "FixedTypeConverter" m n)⟩

/-- `ufixedMxN` -/
def UFixedTypeConverterFactory : TypeConverterFactory where
  supportsType type := supported (fixedPointSizes UFIXED type)
  newTypeConverter _ type := do
    let (m, n) ← fixedPointSizes UFIXED type
    return ⟨_, .ufixed (← FixedSize.new "UFixedTypeConverter" m n)⟩

/-! ### Arrays -/

namespace DynamicArrayTypeConverterFactory

/-- Whether the first bracket is closed at once. -/
def isFirstArraySizeDynamic (type : List Char) : Java Bool :=
  match indexOf '[' type with
  | none => return false
  | some startIdx =>
    match type[startIdx + 1]? with
    | some c => return c = ']'
    | none => throw .indexOutOfBounds

/-- The type without its first bracket. -/
def getComponentType (type : List Char) : List Char :=
  match indexOf '[' type with
  | none => type
  | some startIdx => type.take startIdx ++ type.drop (startIdx + 2)

end DynamicArrayTypeConverterFactory

/-- An array without a size, in the first dimension that is written. -/
def DynamicArrayTypeConverterFactory : TypeConverterFactory where
  supportsType := DynamicArrayTypeConverterFactory.isFirstArraySizeDynamic
  newTypeConverter manager type := do
    if ← DynamicArrayTypeConverterFactory.isFirstArraySizeDynamic type then
      let component ← manager (DynamicArrayTypeConverterFactory.getComponentType type)
      let _ ← component.2.getTypeClass
      return ⟨_, .dynamicArray component.2⟩
    else typeNotSupported type

namespace StaticArrayTypeConverterFactory

/-- The number in the first bracket. -/
def getFirstFixedArraySize (type : List Char) : Java ArraySize :=
  match indexOf '[' type, indexOf ']' type with
  | some startIdx, some endIdx =>
    if endIdx ≤ startIdx + 1 then typeNotSupported type
    else do
      let size ← parseInt 10 ((type.take endIdx).drop (startIdx + 1))
      -- `parseInt` returns an `int`, so that the second bound always holds
      if h : 0 < size ∧ size < 2 ^ 31 then return ⟨size.toNat, by omega⟩
      else typeNotSupported type
  | _, _ => typeNotSupported type

/-- The type without its first dimension. -/
def getComponentType (type : List Char) : List Char :=
  match indexOf '[' type, indexOf ']' type with
  | some startIdx, some endIdx => type.take startIdx ++ type.drop (endIdx + 1)
  | _, _ => type

end StaticArrayTypeConverterFactory

/-- An array of a fixed size, in the first dimension that is written. -/
def StaticArrayTypeConverterFactory : TypeConverterFactory where
  supportsType type := supported (StaticArrayTypeConverterFactory.getFirstFixedArraySize type)
  newTypeConverter manager type := do
    let size ← StaticArrayTypeConverterFactory.getFirstFixedArraySize type
    let component ← manager (StaticArrayTypeConverterFactory.getComponentType type)
    let _ ← component.2.getTypeClass
    return ⟨_, .staticArray component.2 size⟩

/-! ### The manager -/

namespace TypeConverterManagerImpl

/-- The factories in the order of the services file. -/
def TYPE_CONVERTER_FACTORIES : List TypeConverterFactory :=
  [AddressTypeConverterFactory, BoolTypeConverterFactory, DynamicArrayTypeConverterFactory,
    DynamicBytesTypeConverterFactory, FixedTypeConverterFactory, IntTypeConverterFactory,
    StaticArrayTypeConverterFactory, StaticBytesTypeConverterFactory, StringTypeConverterFactory,
    UFixedTypeConverterFactory, UIntTypeConverterFactory]

/-- The converter of the first factory that supports the type. -/
def newTypeConverter (manager : List Char → Java AnyTypeConverter) (type : List Char) :
    List TypeConverterFactory → Java AnyTypeConverter
  | [] => throw (.illegalArgument s!"Unsupported type [{String.ofList type}]")
  | factory :: factories => do
    if ← factory.supportsType type then factory.newTypeConverter manager type
    else newTypeConverter manager type factories

/-- The manager, with calls nested at most `depth` deep. -/
def getTypeConverterWithin : ℕ → List Char → Java AnyTypeConverter
  | 0, _ => throw .stackOverflow
  | depth + 1, type =>
    newTypeConverter (getTypeConverterWithin depth) type TYPE_CONVERTER_FACTORIES

/-- `getTypeConverter`; each dimension takes a character at least, so this fuel is enough. -/
def getTypeConverter (type : List Char) : Java AnyTypeConverter :=
  getTypeConverterWithin (type.length + 1) type

end TypeConverterManagerImpl

end Ethiso.Abi
