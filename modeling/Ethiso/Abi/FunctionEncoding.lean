import Ethiso.Abi.TypeConverterManager
import Ethiso.Events.PendingEvents

/-!
# Encoding calls, decoding results and events

A `FunctionEncoding` is made from a function or event of a contract's ABI
definition. `encode` writes the arguments of a call: a parameter whose converter is
not dynamic is written to the head, for the others the head has the offset of what
is written to the tail. `decodeEvent` reads the indexed parameters from the topics of
a log entry and the others from its data; `decode` reads the results of a call.

The KECCAK-256 digest is not in the repository, it is the parameter `digest`.
-/

namespace Ethiso.Abi

/-- A parameter in an ABI definition. -/
structure Parameter where
  type : List Char
  indexed : Bool

/-- A function or an event in an ABI definition; lists that are `null` are empty. -/
structure Function where
  type : List Char
  name : Option (List Char)
  inputs : List Parameter
  outputs : List Parameter

/-- An encoding: the hash of the signature, and the converters of the parameters. -/
structure FunctionEncoding where
  hash : List Char
  eventIndexedParameters : List AnyTypeConverter
  inputParameters : List AnyTypeConverter
  outputParameters : List AnyTypeConverter
  inputParametersHeadSize : ℤ

/-! ### The signature -/

namespace EthereumUtils

/-- The converter that the manager has for a type. -/
def getTypeConverter (type : List Char) : Java AnyTypeConverter :=
  TypeConverterManagerImpl.getTypeConverter type

/-- The name, and the types of the parameters in parentheses, in UTF-8. -/
def getCanonicalSignature (function : Function) : Java (List UInt8) :=
  match function.name with
  | none => throw (.illegalArgument "")
  | some name =>
    let types := [','].intercalate (function.inputs.map Parameter.type)
    let signature := name ++ ['('] ++ types ++ [')']
    return signature.flatMap String.utf8EncodeChar

/-- `Integer.toHexString` of a byte, with two digits. -/
def byteString (b : UInt8) : List Char :=
  let string := numeral 16 b.toNat
  if string.length = 1 then '0' :: string else string

/-- The digest of the signature, as hex. -/
def getFunctionSignatureHash (digest : List UInt8 → List UInt8) (function : Function) :
    Java (List Char) := do
  let signature ← getCanonicalSignature function
  return '0' :: 'x' :: (digest signature).flatMap byteString

end EthereumUtils

namespace FunctionEncoding

open EthereumUtils

/-- The type of a constructor, which has no selector. -/
def CONSTRUCTOR : List Char := ['c', 'o', 'n', 's', 't', 'r', 'u', 'c', 't', 'o', 'r']

/-- The bits of an offset. -/
def DYNAMIC_OFFSET_SIZE : ℕ := 256

/-! ### The constructor -/

/-- A parameter of the function. Indexed ones are not encoded. -/
def addInput (encoding : FunctionEncoding) (parameter : Parameter) : Java FunctionEncoding := do
  let typeConverter ← getTypeConverter parameter.type
  if parameter.indexed then
    return { encoding with
      eventIndexedParameters := encoding.eventIndexedParameters ++ [typeConverter] }
  else
    return { encoding with
      inputParameters := encoding.inputParameters ++ [typeConverter]
      inputParametersHeadSize :=
        BigInteger.intValue (encoding.inputParametersHeadSize + typeConverter.2.getHeadSize) }

/-- A result of the function. -/
def addOutput (encoding : FunctionEncoding) (parameter : Parameter) : Java FunctionEncoding := do
  let typeConverter ← getTypeConverter parameter.type
  return { encoding with outputParameters := encoding.outputParameters ++ [typeConverter] }

/-- A constructor has no hash. -/
def hashOf (digest : List UInt8 → List UInt8) (function : Function) : Java (List Char) :=
  if function.type = CONSTRUCTOR then return [] else getFunctionSignatureHash digest function

/-- The constructor. It asks for the converters of all types. -/
def new (digest : List UInt8 → List UInt8) (function : Function) : Java FunctionEncoding := do
  let hash ← hashOf digest function
  let encoding ← function.inputs.foldlM addInput ⟨hash, [], [], [], 0⟩
  function.outputs.foldlM addOutput encoding

/-! ### Encoding -/

/-- The bytes of a buffer, as hex. -/
def encodeBuffer (buffer : ByteBuffer) : List Char := buffer.flip.after.flatMap byteString

/-- Writes one argument to the head, or to the tail and its offset to the head. -/
def encodeParameter (encoding : FunctionEncoding) (buffers : ByteBuffer × ByteBuffer)
    (parameter : AnyTypeConverter × JavaObject) : Java (ByteBuffer × ByteBuffer) := do
  let (headBuffer, tailBuffer) := buffers
  let (typeConverter, arg) := parameter
  if typeConverter.2.isDynamic then
    let offset := BigInteger.intValue (encoding.inputParametersHeadSize + tailBuffer.position)
    let tailBuffer ← typeConverter.2.serialise tailBuffer arg
    let headBuffer ← UIntTypeConverter.serialiseType DYNAMIC_OFFSET_SIZE headBuffer offset
    return (headBuffer, tailBuffer)
  else
    let headBuffer ← typeConverter.2.serialise headBuffer arg
    return (headBuffer, tailBuffer)

/-- The selector and the arguments. A tail has room for 1024 bytes. -/
def encode (encoding : FunctionEncoding) (args : List JavaObject) : Java (List Char) := do
  let headBuffer ← ByteBuffer.allocateDirect encoding.inputParametersHeadSize
  let tailBuffer ← ByteBuffer.allocateDirect 1024
  let expected := encoding.inputParameters.length
  let actual := args.length
  if actual ≠ expected then
    throw (.illegalArgument s!"Wrong number of parameters, expected {expected}, actual {actual}")
  let (headBuffer, tailBuffer) ←
    (encoding.inputParameters.zip args).foldlM encoding.encodeParameter (headBuffer, tailBuffer)
  return encoding.hash.take 10 ++ encodeBuffer headBuffer ++ encodeBuffer tailBuffer

/-! ### Decoding -/

/-- Puts the bytes of the digits, two at a time. -/
def decodeDigits (byteBuffer : ByteBuffer) : List Char → Java ByteBuffer
  | c :: c' :: string => do
    let n ← parseInt 16 [c, c']
    let byteBuffer ← byteBuffer.put [UInt8.ofNat (n % 256).toNat] 0 1
    decodeDigits byteBuffer string
  | _ => return byteBuffer

/-- The bytes of a text of hex digits. -/
def decodeBuffer (string : List Char) : Java ByteBuffer := do
  let byteBuffer ← ByteBuffer.allocateDirect (string.length / 2 : ℕ)
  match string with
  | '0' :: 'x' :: digits => decodeDigits byteBuffer digits
  | _ => throw (.illegalArgument "Invalid string format")

/-- The results are read one after the other, whatever their types. -/
def decodeOutputs : List AnyTypeConverter → FlippedBuffer → Java (List JavaObject)
  | [], _ => return []
  | typeConverter :: typeConverters, byteBuffer => do
    let (value, byteBuffer) ← typeConverter.2.deserialise byteBuffer
    return ⟨_, value⟩ :: (← decodeOutputs typeConverters byteBuffer)

/-- `decode`, for what a call has returned. -/
def decode (encoding : FunctionEncoding) (result : List Char) : Java (List JavaObject) := do
  let byteBuffer ← decodeBuffer result
  decodeOutputs encoding.outputParameters byteBuffer.flip

/-- Reads the indexed parameters, one from each of the topics. -/
def decodeTopics : List AnyTypeConverter → List String → Java (List JavaObject)
  | [], _ => return []
  | _ :: _, [] => throw .indexOutOfBounds
  | typeConverter :: typeConverters, topic :: topics => do
    let byteBuffer ← decodeBuffer topic.toList
    let (value, _) ← typeConverter.2.deserialise byteBuffer.flip
    return ⟨_, value⟩ :: (← decodeTopics typeConverters topics)

/-- Reads the other parameters from the data. -/
def decodeInputs : List AnyTypeConverter → FlippedBuffer → Java (List JavaObject)
  | [], _ => return []
  | typeConverter :: typeConverters, byteBuffer => do
    if typeConverter.2.isDynamic then
      let (offset, byteBuffer) ← UIntTypeConverter.deserialise DYNAMIC_OFFSET_SIZE byteBuffer
      let byteBuffer := byteBuffer.setMark
      let byteBuffer ← byteBuffer.setPosition (BigInteger.intValue offset)
      let (value, byteBuffer) ← typeConverter.2.deserialise byteBuffer
      let byteBuffer ← byteBuffer.reset
      return ⟨_, value⟩ :: (← decodeInputs typeConverters byteBuffer)
    else
      let (value, byteBuffer) ← typeConverter.2.deserialise byteBuffer
      return ⟨_, value⟩ :: (← decodeInputs typeConverters byteBuffer)

/-- The first topic is the hash of the event. -/
def decodeEvent (encoding : FunctionEncoding) (logEntry : LogEntry) : Java (List JavaObject) := do
  let indexed ← decodeTopics encoding.eventIndexedParameters (logEntry.topics.drop 1)
  let byteBuffer ← decodeBuffer logEntry.data.toList
  return indexed ++ (← decodeInputs encoding.inputParameters byteBuffer.flip)

end FunctionEncoding

end Ethiso.Abi
