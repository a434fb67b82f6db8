import Ethiso.Abi.Java
import Ethiso.Abi.Text

/-!
# The type converters

A `TypeConverter` writes the Java values of one ABI type into a byte buffer and reads
them back. Converters of arrays are built on the converter of their component, so a
converter is a tree; it is indexed by the Java class of the values it takes
(`getTypeClass`).

An argument is an object with its class (`JavaObject`). Left out are `null`, which
every converter rejects with an exception, also as a component of an array, and the
objects of classes that no converter takes, which fail the class cast.

`IntTypeConverter` is here because the fixed-point converters are built on it.
-/

namespace Ethiso.Abi

/-! ### Java values -/

/-- `rpc.Address`: the digits after `0x`, in the case they were given in. -/
structure RpcAddress where
  digits : List Char
  length_eq : digits.length = 40
  hex : ∀ c ∈ digits, (digit 16 c).isSome
  deriving DecidableEq

namespace RpcAddress

/-- The constructor, for a string that is not `null`. -/
def new (address : List Char) : Java RpcAddress :=
  match address with
  | '0' :: 'x' :: digits =>
    if h : digits.length = 40 ∧ digits.all (fun c => (digit 16 c).isSome) then
      return ⟨digits, h.1, List.all_eq_true.mp h.2⟩
    else throw (.illegalArgument s!"Invalid address format [{String.ofList address}]")
  | _ => throw (.illegalArgument s!"Invalid address format [{String.ofList address}]")

/-- `Address.toString()` -/
def toString (a : RpcAddress) : List Char := '0' :: 'x' :: a.digits

end RpcAddress

/-- `java.math.BigDecimal`: `unscaledValue * 10 ^ -scale` -/
structure BigDecimal where
  unscaledValue : ℤ
  scale : ℤ
  deriving DecidableEq

namespace BigDecimal

/-- `BigDecimal.multiply`: the scales add up. -/
def multiply (a b : BigDecimal) : BigDecimal :=
  ⟨a.unscaledValue * b.unscaledValue, a.scale + b.scale⟩

/-- The value as an integer, if it is one and in the range of `BigInteger`. For a value other
than zero with the scale `-2 ^ 31`, `setScale` throws before it multiplies; the product is out
of range. -/
def toBigIntegerExact (d : BigDecimal) : Java ℤ :=
  if d.scale ≤ 0 then BigInteger.checkRange (d.unscaledValue * 10 ^ (-d.scale).toNat)
  else if (10 ^ d.scale.toNat : ℤ) ∣ d.unscaledValue then
    BigInteger.checkRange (d.unscaledValue / 10 ^ d.scale.toNat)
  else throw .arithmetic

/-- Removes trailing zeros as long as the scale is positive. -/
def stripZeros (unscaledValue : ℤ) : ℕ → BigDecimal
  | 0 => ⟨unscaledValue, 0⟩
  | scale + 1 =>
    if (10 : ℤ) ∣ unscaledValue then stripZeros (unscaledValue / 10) scale
    else ⟨unscaledValue, scale + 1⟩

/-- `new BigDecimal(value).divide(2 ^ n)`: the exact quotient, unless it has more digits
than `divide` computes for these operands. -/
def divideTwoPow (value : ℤ) (n : ℕ) : Java BigDecimal :=
  let quotient := stripZeros (value * 5 ^ n) n
  let precision (k : ℤ) : ℕ := (numeral 10 k.natAbs).length
  if precision value + (10 * precision (2 ^ n) + 2) / 3 < precision quotient.unscaledValue then
    throw .arithmetic
  else return quotient

/-- `BigDecimal.toString`, with an exponent where the scale is negative or the number is small. -/
def toString (d : BigDecimal) : String :=
  let coeff := numeral 10 d.unscaledValue.natAbs
  let adjusted : ℤ := -d.scale + (coeff.length - 1 : ℕ)
  let sign := if d.unscaledValue < 0 then "-" else ""
  if d.scale = 0 then sign ++ String.ofList coeff
  else if 0 < d.scale ∧ -6 ≤ adjusted then
    let whole := coeff.length - d.scale.toNat
    sign ++ (if whole = 0 then "0" else String.ofList (coeff.take whole)) ++ "." ++
      String.ofList (List.replicate (d.scale.toNat - coeff.length) '0' ++ coeff.drop whole)
  else
    sign ++ String.ofList (coeff.take 1) ++
      (if coeff.length = 1 then "" else "." ++ String.ofList (coeff.drop 1)) ++
      (if adjusted = 0 then ""
        else "E" ++ (if 0 < adjusted then "+" else "") ++ ToString.toString adjusted)

end BigDecimal

/-- The classes of the values that are converted. -/
inductive JavaClass
  | address
  | boolean
  | bigInteger
  | bigDecimal
  | byteArray
  | string
  | array (component : JavaClass)
  deriving DecidableEq

/-- The values of a class. -/
def JavaClass.Value : JavaClass → Type
  | .address => RpcAddress
  | .boolean => Bool
  | .bigInteger => ℤ
  | .bigDecimal => BigDecimal
  | .byteArray => List UInt8
  | .string => JavaString
  | .array component => List component.Value

/-- The number of dimensions of an array class, `byte[]` included. -/
def JavaClass.dimensions : JavaClass → ℕ
  | .byteArray => 1
  | .array component => component.dimensions + 1
  | _ => 0

/-- The class of `Array.newInstance(component, 0)`. An array has at most 255 dimensions. -/
def JavaClass.newInstance (component : JavaClass) : Java JavaClass :=
  if component.dimensions < 255 then return .array component else throw (.illegalArgument "")

/-- An `Object`: a value with its class. -/
structure JavaObject where
  typeClass : JavaClass
  value : typeClass.Value

/-- `typeClass.cast(object)` -/
def JavaObject.cast (object : JavaObject) (typeClass : JavaClass) : Java typeClass.Value :=
  if h : object.typeClass = typeClass then return h ▸ object.value else throw .classCast

/-! ### Padding -/

namespace TypeConverterUtils

/-- 32 zeros, from which padding is taken. -/
def ZEROS : List UInt8 := List.replicate 32 0

/-- 32 bytes `FF`, for negative numbers. -/
def FFS : List UInt8 := List.replicate 32 0xFF

/-- The zeros in front of the last byte. -/
def leadingZeros : List UInt8 → ℕ
  | b :: c :: bytes => if b = 0 then leadingZeros (c :: bytes) + 1 else 0
  | _ => 0

/-- Writes the bytes without their leading zeros, the padding before them. -/
def lpadTo32 (byteBuffer : ByteBuffer) (bytes pad : List UInt8) : Java ByteBuffer := do
  let offset := leadingZeros bytes
  let byteBuffer ← byteBuffer.put pad 0 (pad.length - (bytes.length - offset))
  byteBuffer.put bytes offset (bytes.length - offset)

/-- Writes the bytes and fills the last word. -/
def rpadTo32 (byteBuffer : ByteBuffer) (bytes pad : List UInt8) : Java ByteBuffer := do
  let byteBuffer ← byteBuffer.put bytes 0 bytes.length
  if bytes.length % 32 ≠ 0 then byteBuffer.put pad 0 (32 - bytes.length % 32 : ℕ)
  else return byteBuffer

/-- Zeros on the left. -/
def lpadZeroTo32 (byteBuffer : ByteBuffer) (bytes : List UInt8) : Java ByteBuffer :=
  lpadTo32 byteBuffer bytes ZEROS

/-- `FF` on the left. -/
def lpadFFTo32 (byteBuffer : ByteBuffer) (bytes : List UInt8) : Java ByteBuffer :=
  lpadTo32 byteBuffer bytes FFS

/-- Zeros on the right. -/
def rpadZeroTo32 (byteBuffer : ByteBuffer) (bytes : List UInt8) : Java ByteBuffer :=
  rpadTo32 byteBuffer bytes ZEROS

/-- The loop over the padding of a byte array of this size. -/
def checkPadding (pad : List UInt8) (size : ℕ) : Java Unit :=
  match pad.findIdx? (· ≠ 0) with
  | none => return
  | some i =>
    let index := pad.length + i
    let value := ((pad.getD i 0).toNat : ℤ).bmod 256
    throw (.illegalArgument s!"Bad padding at index {index} value {value} for bytes {size}")

end TypeConverterUtils

open TypeConverterUtils

/-! ### Converters of one word -/

/-- The sizes that the constructors of the integer converters accept. -/
abbrev IntegerSize := { size : ℕ // 0 < size ∧ size ≤ 256 ∧ size % 8 = 0 }

namespace UIntTypeConverter

/-- Writes an unsigned integer of the size. -/
def serialiseType (size : ℕ) (byteBuffer : ByteBuffer) (value : ℤ) : Java ByteBuffer :=
  if value < 0 ∨ size < BigInteger.bitLength value then
    throw (.illegalArgument s!"Value {value} not valid for type uint{size}")
  else lpadZeroTo32 byteBuffer (BigInteger.toByteArray value)

/-- The word is read as a signed number. -/
def deserialise (size : ℕ) (byteBuffer : FlippedBuffer) : Java (ℤ × FlippedBuffer) := do
  let (data, byteBuffer) ← byteBuffer.get 32
  let bigInteger := BigInteger.ofByteArray data
  if size < BigInteger.bitLength bigInteger then
    throw (.illegalArgument s!"Value {bigInteger} not valid for type uint{size}")
  return (bigInteger, byteBuffer)

end UIntTypeConverter

namespace IntTypeConverter

/-- Writes a signed integer of the size. The test `value.bitLength() + 1 > size` is one of `int`; it
would wrap at a bit length of `2 ^ 31 - 1` only, where padding then throws
`IndexOutOfBoundsException` instead of the exception here. -/
def serialiseType (size : ℕ) (byteBuffer : ByteBuffer) (value : ℤ) : Java ByteBuffer :=
  if size < BigInteger.bitLength value + 1 then
    throw (.illegalArgument s!"Value {value} not valid for type int{size}")
  else if value < 0 then lpadFFTo32 byteBuffer (BigInteger.toByteArray value)
  else lpadZeroTo32 byteBuffer (BigInteger.toByteArray value)

/-- Reads an integer; what is a sign bit for the ABI is one for `BigInteger` too. -/
def deserialise (size : ℕ) (byteBuffer : FlippedBuffer) : Java (ℤ × FlippedBuffer) := do
  let (data, byteBuffer) ← byteBuffer.get 32
  let bigInteger := BigInteger.ofByteArray data
  if size < BigInteger.bitLength bigInteger + (if bigInteger < 0 then 1 else 0) then
    throw (.illegalArgument s!"Value {bigInteger} not valid for type uint{size}")
  return (bigInteger, byteBuffer)

end IntTypeConverter

namespace AddressTypeConverter

/-- 40 digits, from which an address is filled up. -/
def ZEROS : List Char := List.replicate 40 '0'

/-- The number of an address: `new BigInteger(digits, HEX_RADIX)`. -/
def toBigInteger (value : RpcAddress) : ℤ := ofBigEndian 16 (value.digits.filterMap (digit 16))

/-- Writes the number of the address as `uint160`. -/
def serialiseType (byteBuffer : ByteBuffer) (value : RpcAddress) : Java ByteBuffer :=
  UIntTypeConverter.serialiseType 160 byteBuffer (toBigInteger value)

/-- Fills the digits up to 40; `substring` throws if there are more. -/
def pad (address : List Char) : Java (List Char) :=
  if ZEROS.length < address.length then throw .indexOutOfBounds
  else return ZEROS.drop address.length ++ address

/-- Reads `uint160` and writes it with 40 digits. -/
def deserialise (byteBuffer : FlippedBuffer) : Java (RpcAddress × FlippedBuffer) := do
  let (bigInteger, byteBuffer) ← UIntTypeConverter.deserialise 160 byteBuffer
  let address ← pad (BigInteger.toString 16 bigInteger)
  let address ← RpcAddress.new ('0' :: 'x' :: address)
  return (address, byteBuffer)

end AddressTypeConverter

namespace BoolTypeConverter

/-- Writes a flag as `uint8`. -/
def serialiseType (byteBuffer : ByteBuffer) (value : Bool) : Java ByteBuffer :=
  UIntTypeConverter.serialiseType 8 byteBuffer (if value then 1 else 0)

/-- Reads `uint8`, of which only 0 and 1 are flags. -/
def deserialise (byteBuffer : FlippedBuffer) : Java (Bool × FlippedBuffer) := do
  let (value, byteBuffer) ← UIntTypeConverter.deserialise 8 byteBuffer
  if value ≠ 0 ∧ value ≠ 1 then
    throw (.illegalArgument s!"Value {value} not valid for type bool")
  return (value = 1, byteBuffer)

end BoolTypeConverter

/-- The sizes that the constructors of the fixed-point converters accept. -/
structure FixedSize where
  m : ℕ
  n : ℕ
  valid : 8 ≤ m ∧ 8 ≤ n ∧ m + n ≤ 256 ∧ m % 8 = 0 ∧ n % 8 = 0
  deriving DecidableEq

namespace FixedTypeConverter

/-- Both fixed-point converters, on the integer converter of size `m + n`. -/
def serialiseWith (serialiseType : ByteBuffer → ℤ → Java ByteBuffer) (size : FixedSize)
    (byteBuffer : ByteBuffer) (value : BigDecimal) : Java ByteBuffer :=
  let attempt := do
    let bigInteger ← (value.multiply ⟨2 ^ size.n, 0⟩).toBigIntegerExact
    serialiseType byteBuffer bigInteger
  match attempt with
  | .ok byteBuffer => return byteBuffer
  | .error e =>
    if e = .arithmetic ∨ e.isIllegalArgument then
      throw (.illegalArgument
        s!"Value {value.toString} not supported by type fixed{size.m}x{size.n}")
    else throw e

/-- Reads the integer and divides by the power of two. -/
def deserialiseWith (deserialise : FlippedBuffer → Java (ℤ × FlippedBuffer)) (size : FixedSize)
    (byteBuffer : FlippedBuffer) : Java (BigDecimal × FlippedBuffer) :=
  let attempt := do
    let (bigInteger, byteBuffer) ← deserialise byteBuffer
    let value ← BigDecimal.divideTwoPow bigInteger size.n
    return (value, byteBuffer)
  match attempt with
  | .ok result => return result
  | .error e =>
    if e.isIllegalArgument then
      throw (.illegalArgument s!"Value not supported by fixed{size.m}x{size.n}")
    else throw e

/-- Writes the scaled number as a signed integer. -/
def serialiseType (size : FixedSize) : ByteBuffer → BigDecimal → Java ByteBuffer :=
  serialiseWith (IntTypeConverter.serialiseType (size.m + size.n)) size

/-- Reads it. -/
def deserialise (size : FixedSize) : FlippedBuffer → Java (BigDecimal × FlippedBuffer) :=
  deserialiseWith (IntTypeConverter.deserialise (size.m + size.n)) size

end FixedTypeConverter

namespace UFixedTypeConverter

/-- Writes the scaled number as an unsigned integer. -/
def serialiseType (size : FixedSize) : ByteBuffer → BigDecimal → Java ByteBuffer :=
  FixedTypeConverter.serialiseWith (UIntTypeConverter.serialiseType (size.m + size.n)) size

/-- Reads it. -/
def deserialise (size : FixedSize) : FlippedBuffer → Java (BigDecimal × FlippedBuffer) :=
  FixedTypeConverter.deserialiseWith (UIntTypeConverter.deserialise (size.m + size.n)) size

end UFixedTypeConverter

/-! ### Converters of bytes -/

/-- The sizes that the constructor of the converter of `bytesN` accepts. -/
abbrev BytesSize := { size : ℕ // 0 < size ∧ size ≤ 32 }

namespace StaticBytesTypeConverter

/-- Writes exactly as many bytes as the size says. -/
def serialiseType (size : ℕ) (byteBuffer : ByteBuffer) (value : List UInt8) : Java ByteBuffer :=
  if value.length ≠ size then
    throw (.illegalArgument s!"Value length {value.length} not valid for type bytes{size}")
  else rpadZeroTo32 byteBuffer value

/-- Reads as many bytes and tests that only zeros follow. -/
def deserialise (size : ℕ) (byteBuffer : FlippedBuffer) : Java (List UInt8 × FlippedBuffer) := do
  let (data, byteBuffer) ← byteBuffer.get size
  let (pad, byteBuffer) ← byteBuffer.get (32 - size)
  checkPadding pad size
  return (data, byteBuffer)

end StaticBytesTypeConverter

namespace DynamicBytesTypeConverter

/-- Writes the number of bytes and then the bytes. -/
def serialiseType (byteBuffer : ByteBuffer) (value : List UInt8) : Java ByteBuffer := do
  let byteBuffer ← UIntTypeConverter.serialiseType 256 byteBuffer value.length
  rpadZeroTo32 byteBuffer value

/-- Reads the number of bytes, of which `intValue` keeps the lower 32 bits, and then the bytes. -/
def deserialise (byteBuffer : FlippedBuffer) : Java (List UInt8 × FlippedBuffer) := do
  let (length, byteBuffer) ← UIntTypeConverter.deserialise 256 byteBuffer
  let size := BigInteger.intValue length
  if size < 0 then throw .negativeArraySize
  let size := size.toNat
  let (data, byteBuffer) ← byteBuffer.get size
  if size % 32 ≠ 0 then
    let (pad, byteBuffer) ← byteBuffer.get (32 - size % 32)
    checkPadding pad size
    return (data, byteBuffer)
  else return (data, byteBuffer)

end DynamicBytesTypeConverter

namespace StringTypeConverter

/-- Writes the bytes of the text in UTF-8. -/
def serialiseType (byteBuffer : ByteBuffer) (value : JavaString) : Java ByteBuffer :=
  DynamicBytesTypeConverter.serialiseType byteBuffer value.getBytes

/-- Reads bytes and makes a text of them, whatever they are. -/
def deserialise (byteBuffer : FlippedBuffer) : Java (JavaString × FlippedBuffer) := do
  let (bytes, byteBuffer) ← DynamicBytesTypeConverter.deserialise byteBuffer
  return (JavaString.ofBytes bytes, byteBuffer)

end StringTypeConverter

/-! ### Converters of arrays -/

/-- The sizes of arrays: positive `int`s. -/
abbrev ArraySize := { size : ℕ // 0 < size ∧ size < 2 ^ 31 }

section Arrays

variable {α : Type}

/-- Reads the components of an array one after the other. -/
def deserialiseAll (deserialise : FlippedBuffer → Java (α × FlippedBuffer)) :
    ℕ → FlippedBuffer → Java (List α × FlippedBuffer)
  | 0, byteBuffer => return ([], byteBuffer)
  | size + 1, byteBuffer => do
    let (component, byteBuffer) ← deserialise byteBuffer
    let (value, byteBuffer) ← deserialiseAll deserialise size byteBuffer
    return (component :: value, byteBuffer)

namespace DynamicArrayTypeConverter

/-- Writes the number of elements and then each of them. -/
def serialiseType (serialiseComponent : ByteBuffer → α → Java ByteBuffer) (byteBuffer : ByteBuffer)
    (value : List α) : Java ByteBuffer := do
  let byteBuffer ← UIntTypeConverter.serialiseType 256 byteBuffer value.length
  value.foldlM serialiseComponent byteBuffer

/-- Reads the number of elements and then each of them. -/
def deserialise (deserialiseComponent : FlippedBuffer → Java (α × FlippedBuffer))
    (byteBuffer : FlippedBuffer) : Java (List α × FlippedBuffer) := do
  let (length, byteBuffer) ← UIntTypeConverter.deserialise 256 byteBuffer
  let size := BigInteger.intValue length
  if size < 0 then throw .negativeArraySize
  deserialiseAll deserialiseComponent size.toNat byteBuffer

end DynamicArrayTypeConverter

namespace StaticArrayTypeConverter

/-- Writes each element, if there are as many as the size says. -/
def serialiseType (serialiseComponent : ByteBuffer → α → Java ByteBuffer) (size : ℕ)
    (byteBuffer : ByteBuffer) (value : List α) : Java ByteBuffer :=
  let actual := value.length
  if actual ≠ size then
    throw (.illegalArgument s!"Invalid argument array size, expected {size}, actual {actual}")
  else value.foldlM serialiseComponent byteBuffer

end StaticArrayTypeConverter

end Arrays

/-! ### The tree -/

/-- A converter of the values of a class. -/
inductive TypeConverter : JavaClass → Type
  | address : TypeConverter .address
  | bool : TypeConverter .boolean
  | int (size : IntegerSize) : TypeConverter .bigInteger
  | uint (size : IntegerSize) : TypeConverter .bigInteger
  | fixed (size : FixedSize) : TypeConverter .bigDecimal
  | ufixed (size : FixedSize) : TypeConverter .bigDecimal
  | dynamicBytes : TypeConverter .byteArray
  | staticBytes (size : BytesSize) : TypeConverter .byteArray
  | string : TypeConverter .string
  | dynamicArray {c : JavaClass} (component : TypeConverter c) : TypeConverter (.array c)
  | staticArray {c : JavaClass} (component : TypeConverter c) (size : ArraySize) :
    TypeConverter (.array c)

namespace TypeConverter

/-- `TypeConverter.serialiseType` -/
def serialiseType : {c : JavaClass} → TypeConverter c → ByteBuffer → c.Value → Java ByteBuffer
  | _, .address, byteBuffer, value => AddressTypeConverter.serialiseType byteBuffer value
  | _, .bool, byteBuffer, value => BoolTypeConverter.serialiseType byteBuffer value
  | _, .int size, byteBuffer, value => IntTypeConverter.serialiseType size byteBuffer value
  | _, .uint size, byteBuffer, value => UIntTypeConverter.serialiseType size byteBuffer value
  | _, .fixed size, byteBuffer, value => FixedTypeConverter.serialiseType size byteBuffer value
  | _, .ufixed size, byteBuffer, value => UFixedTypeConverter.serialiseType size byteBuffer value
  | _, .dynamicBytes, byteBuffer, value => DynamicBytesTypeConverter.serialiseType byteBuffer value
  | _, .staticBytes size, byteBuffer, value =>
    StaticBytesTypeConverter.serialiseType size byteBuffer value
  | _, .string, byteBuffer, value => StringTypeConverter.serialiseType byteBuffer value
  | _, .dynamicArray component, byteBuffer, value =>
    DynamicArrayTypeConverter.serialiseType (fun b x => component.serialiseType b x) byteBuffer
      value
  | _, .staticArray component size, byteBuffer, value =>
    StaticArrayTypeConverter.serialiseType (fun b x => component.serialiseType b x) size byteBuffer
      value

/-- `TypeConverter.deserialise` -/
def deserialise : {c : JavaClass} → TypeConverter c → FlippedBuffer →
    Java (c.Value × FlippedBuffer)
  | _, .address, byteBuffer => AddressTypeConverter.deserialise byteBuffer
  | _, .bool, byteBuffer => BoolTypeConverter.deserialise byteBuffer
  | _, .int size, byteBuffer => IntTypeConverter.deserialise size byteBuffer
  | _, .uint size, byteBuffer => UIntTypeConverter.deserialise size byteBuffer
  | _, .fixed size, byteBuffer => FixedTypeConverter.deserialise size byteBuffer
  | _, .ufixed size, byteBuffer => UFixedTypeConverter.deserialise size byteBuffer
  | _, .dynamicBytes, byteBuffer => DynamicBytesTypeConverter.deserialise byteBuffer
  | _, .staticBytes size, byteBuffer => StaticBytesTypeConverter.deserialise size byteBuffer
  | _, .string, byteBuffer => StringTypeConverter.deserialise byteBuffer
  | _, .dynamicArray component, byteBuffer =>
    DynamicArrayTypeConverter.deserialise (fun b => component.deserialise b) byteBuffer
  | _, .staticArray component size, byteBuffer =>
    deserialiseAll (fun b => component.deserialise b) size byteBuffer

/-- `TypeConverter.isDynamic`: an array of a fixed size never is. -/
def isDynamic : {c : JavaClass} → TypeConverter c → Bool
  | _, .dynamicBytes => true
  | _, .string => true
  | _, .dynamicArray _ => true
  | _, _ => false

/-- An `int` product. -/
def getHeadSize : {c : JavaClass} → TypeConverter c → ℤ
  | _, .staticArray component size => BigInteger.intValue (size * component.getHeadSize)
  | _, _ => 32

/-- The class of the values. That of an array is found by making an array of the components. -/
def getTypeClass : {c : JavaClass} → TypeConverter c → Java JavaClass
  | .array component, .dynamicArray _ => component.newInstance
  | .array component, .staticArray _ _ => component.newInstance
  | c, _ => return c

/-- Casts the object to the class of the converter and writes it. -/
def serialise {c : JavaClass} (converter : TypeConverter c) (byteBuffer : ByteBuffer)
    (object : JavaObject) : Java ByteBuffer := do
  let value ← object.cast c
  converter.serialiseType byteBuffer value

end TypeConverter

end Ethiso.Abi
