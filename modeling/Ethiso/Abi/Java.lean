import Ethiso.Framework.BigEndian
import Mathlib.Data.Nat.Size
import Mathlib.Data.Int.DivMod

/-!
# What the codec uses of the Java library

`FunctionEncoding` and its type converters are built on three parts of the Java
library: big integers and their bytes, numerals, and byte buffers. They are
modelled as far as the codec uses them.

A byte buffer is used in two ways, and is two types here. While it is filled, it
has a capacity and the bytes that were put so far (`ByteBuffer`). After `flip` it is
read: the bytes before the position, those from the position on, and the mark
(`FlippedBuffer`). Java's invariant that the position is at most the limit holds by
construction in both.

Texts that the codec itself reads and writes are ASCII; they are lists of
characters.
-/

namespace Ethiso.Abi

/-! ### Exceptions -/

/-- The exceptions that the codec throws. -/
inductive JavaException
  | illegalArgument (message : String)
  /-- a subclass of `IllegalArgumentException` -/
  | numberFormat
  | arithmetic
  | classCast
  | indexOutOfBounds
  | negativeArraySize
  | bufferOverflow
  | bufferUnderflow
  | invalidMark
  | stackOverflow
  deriving DecidableEq

/-- Whether `catch (IllegalArgumentException e)` catches it. -/
def JavaException.isIllegalArgument : JavaException → Bool
  | .illegalArgument _ => true
  | .numberFormat => true
  | _ => false

/-- What a Java method does: it returns or throws. -/
abbrev Java := Except JavaException

/-! ### Numerals -/

/-- The numeral of `n` without leading zeros, in lower case. -/
def numeral (radix n : ℕ) : List Char :=
  if n = 0 then ['0'] else (radix.digits n).reverse.map Nat.digitChar

/-- `Character.digit`, on ASCII characters. -/
def digit (radix : ℕ) (c : Char) : Option ℕ :=
  let d :=
    if '0' ≤ c ∧ c ≤ '9' then c.toNat - '0'.toNat
    else if 'a' ≤ c ∧ c ≤ 'z' then c.toNat - 'a'.toNat + 10
    else if 'A' ≤ c ∧ c ≤ 'Z' then c.toNat - 'A'.toNat + 10
    else radix
  if d < radix then some d else none

/-- The number that a non-empty list of digits denotes. -/
def parseDigits (radix : ℕ) (s : List Char) : Java ℕ :=
  match s.mapM (digit radix) with
  | some ds => if ds = [] then throw .numberFormat else return ofBigEndian radix ds
  | none => throw .numberFormat

/-- `Integer.parseInt`. -/
def parseInt (radix : ℕ) (s : List Char) : Java ℤ := do
  let n : ℤ ← match s with
    | '-' :: ds => (parseDigits radix ds).map fun n => -(n : ℤ)
    | '+' :: ds => (parseDigits radix ds).map Int.ofNat
    | ds => (parseDigits radix ds).map Int.ofNat
  if -2 ^ 31 ≤ n ∧ n < 2 ^ 31 then return n else throw .numberFormat

/-- `Integer.parseUnsignedInt`: the `int` with this unsigned value. -/
def parseUnsignedInt (s : List Char) : Java ℤ := do
  let n : ℤ ← match s with
    | '-' :: _ => throw .numberFormat
    | '+' :: ds => (parseDigits 10 ds).map Int.ofNat
    | ds => (parseDigits 10 ds).map Int.ofNat
  if n < 2 ^ 32 then return n.bmod (2 ^ 32) else throw .numberFormat

/-! ### Big integers -/

namespace BigInteger

/-- The size of the two's complement representation, without the sign. -/
def bitLength (n : ℤ) : ℕ := (if n < 0 then -n - 1 else n).toNat.size

/-- The shortest two's complement representation, the sign included. -/
def toByteArray (n : ℤ) : List UInt8 :=
  let length := bitLength n / 8 + 1
  (bigEndian 256 length (n % 256 ^ length).toNat).map UInt8.ofNat

/-- The constructor that reads two's complement. -/
def ofByteArray (bytes : List UInt8) : ℤ :=
  let n := ofBigEndian 256 (bytes.map UInt8.toNat)
  if 2 * n < 256 ^ bytes.length then n else n - 256 ^ bytes.length

/-- The low 32 bits, read as an `int`. -/
def intValue (n : ℤ) : ℤ := n.bmod (2 ^ 32)

/-- `BigInteger.toString` with a radix. -/
def toString (radix : ℕ) (n : ℤ) : List Char :=
  if n < 0 then '-' :: numeral radix n.natAbs else numeral radix n.natAbs

/-- The supported range: the magnitude has at most `Integer.MAX_VALUE` bits. -/
def InRange (n : ℤ) : Prop := n.natAbs.size < 2 ^ 31

instance (n : ℤ) : Decidable (InRange n) := inferInstanceAs (Decidable (n.natAbs.size < 2 ^ 31))

/-- The result of an operation, which throws if no `BigInteger` can have the value. -/
def checkRange (n : ℤ) : Java ℤ := if InRange n then return n else throw .arithmetic

end BigInteger

/-! ### Byte buffers -/

/-- A buffer that is being filled. -/
structure ByteBuffer where
  capacity : ℕ
  written : List UInt8
  fits : written.length ≤ capacity

namespace ByteBuffer

/-- An empty buffer. A negative capacity is refused. -/
def allocateDirect (capacity : ℤ) : Java ByteBuffer :=
  if capacity < 0 then throw (.illegalArgument "") else return ⟨capacity.toNat, [], Nat.zero_le _⟩

/-- How much was written. -/
def position (b : ByteBuffer) : ℕ := b.written.length

/-- Puts `length` of the bytes, from `offset` on. -/
def put (b : ByteBuffer) (bytes : List UInt8) (offset length : ℤ) : Java ByteBuffer :=
  if offset < 0 ∨ length < 0 ∨ bytes.length < offset + length then throw .indexOutOfBounds
  else
    let written := b.written ++ (bytes.drop offset.toNat).take length.toNat
    if h : written.length ≤ b.capacity then return ⟨b.capacity, written, h⟩
    else throw .bufferOverflow

end ByteBuffer

/-- A buffer that is being read. -/
structure FlippedBuffer where
  before : List UInt8
  after : List UInt8
  mark : Option ℕ

/-- The position goes to the start, the limit to the last byte put. -/
def ByteBuffer.flip (b : ByteBuffer) : FlippedBuffer := ⟨[], b.written, none⟩

namespace FlippedBuffer

/-- Reads a byte array of the length. -/
def get (b : FlippedBuffer) (length : ℕ) : Java (List UInt8 × FlippedBuffer) :=
  if b.after.length < length then throw .bufferUnderflow
  else return (b.after.take length, ⟨b.before ++ b.after.take length, b.after.drop length, b.mark⟩)

/-- `mark` -/
def setMark (b : FlippedBuffer) : FlippedBuffer := ⟨b.before, b.after, some b.before.length⟩

/-- Moves the position. A mark beyond it is discarded. -/
def setPosition (b : FlippedBuffer) (position : ℤ) : Java FlippedBuffer :=
  let data := b.before ++ b.after
  if position < 0 ∨ data.length < position then throw (.illegalArgument "")
  else return ⟨data.take position.toNat, data.drop position.toNat,
    b.mark.filter fun m => m ≤ position⟩

/-- Moves the position back to the mark. -/
def reset (b : FlippedBuffer) : Java FlippedBuffer :=
  match b.mark with
  | none => throw .invalidMark
  | some m => b.setPosition m

end FlippedBuffer

end Ethiso.Abi
