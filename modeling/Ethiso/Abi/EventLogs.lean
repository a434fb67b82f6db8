import Ethiso.Abi.Conformance
import Ethiso.Abi.RoundTrip

/-!
# The logs of events

A contract that emits an event leaves a log: its first topic is the hash of the event, then comes
one topic for each indexed argument, and the data are the encoding of the other arguments
(`eventLog`, after the contract ABI). An indexed argument is a word here; of any other there would
only be a digest among the topics.

`decodeEvent` reads the arguments back from the log (`decodeEvent_eventLog`), the indexed ones
first, wherever they stand among the parameters. This is not the round trip of `encode`: a signed
integer has the converter of the unsigned one, which does not take it if it is negative, but which
reads any word as a signed number.
-/

namespace Ethiso.Abi

open EthereumUtils TypeConverterUtils

/-- A parameter of an event with its argument. -/
structure EventInput where
  argument : AbiArgument
  indexed : Bool

/-- The parameter in the ABI definition. -/
def EventInput.parameter (a : EventInput) : Parameter := ⟨a.argument.type.name, a.indexed⟩

/-- The arguments that are indexed, or those that are not. -/
def eventArguments (indexed : Bool) (as : List EventInput) : List AbiArgument :=
  (as.filter fun a => a.indexed == indexed).map EventInput.argument

/-! ### What a contract leaves -/

/-- The digits of the bytes, as the node reports them. -/
def hexText (bytes : List UInt8) : String := .ofList ('0' :: 'x' :: bytes.flatMap byteString)

/-- The topic of an indexed argument: its encoding, as hex. -/
def AbiArgument.topic (a : AbiArgument) : String := hexText (a.type.encode a.value)

/-- The encoding of the arguments that are not indexed. -/
def eventData (as : List EventInput) : List UInt8 :=
  headTail (fun k => word k) 32 ((eventArguments false as).map AbiArgument.part)

/-- The log that a contract leaves when it emits the event. -/
def eventLog (address : String) (hash : List Char) (as : List EventInput) : LogEntry where
  address := address
  topics := .ofList hash :: (eventArguments true as).map AbiArgument.topic
  data := hexText (eventData as)

/-! ### Reading one argument -/

/-- The types whose values are words. -/
def AbiType.isWord : {c : JavaClass} → AbiType c → Bool
  | _, .elementary type => !type.isDynamic
  | _, .array _ _ => false

/-- The elementary types, and the arrays of words. -/
def AbiType.isSimple : {c : JavaClass} → AbiType c → Bool
  | _, .elementary _ => true
  | _, .array (.elementary type) _ => !type.isDynamic
  | _, .array _ _ => false

/-- The components of an array that is read are words. -/
theorem AbiType.isSimple_array {c : JavaClass} {component : AbiType c} {dimension : Dimension}
    (h : (component.array dimension).isSimple = true) :
    ∃ type : ElementaryType c, component = .elementary type ∧ type.isDynamic = false := by
  cases component with
  | elementary type => exact ⟨type, rfl, by simpa [isSimple] using h⟩
  | array component dimension => cases h

/-- For these types, what is announced as dynamic is dynamic. -/
theorem AbiType.isDynamic_of_isSimple {c : JavaClass} {type : AbiType c}
    (h : type.isSimple = true) : type.converter.isDynamic = type.isDynamic := by
  cases type with
  | elementary type => exact isDynamic_elementary type
  | array component dimension =>
    obtain ⟨type, rfl, h_static⟩ := isSimple_array h
    rw [isDynamic_converter]
    show dimension.isDynamic = (dimension.isDynamic || type.isDynamic)
    rw [h_static, Bool.or_false]

/-- A word is read as a signed number, whatever the sign. -/
theorem UIntTypeConverter.reads_signed {size : IntegerSize} {n : ℤ}
    (h : IntTypeConverter.Accepts size n) :
    Reads (UIntTypeConverter.deserialise size) (word n) n := by
  intro before rest mark
  have h_bits : BigInteger.bitLength n ≤ size.1 - 1 := BigInteger.bitLength_le_iff.mpr h
  -- a size of at most 256 bits has its sign in the first bit of the word
  have h_size : size.1 ≤ 256 := size.2.2.1
  have h_pow : (2 : ℤ) ^ (size.1 - 1) ≤ 2 ^ 255 := pow_le_pow_right₀ (by norm_num) (by omega)
  have h_range : -2 ^ 255 ≤ n ∧ n < 2 ^ 255 :=
    ⟨(neg_le_neg h_pow).trans h.1, h.2.trans_le h_pow⟩
  unfold UIntTypeConverter.deserialise
  refine bind_eq_ok.mpr ⟨_, get_append (length_word n) before rest mark, ?_⟩
  dsimp only
  rw [ofByteArray_word h_range, if_neg (by omega)]
  rfl

/-- The value as it is read: addresses have their digits in lower case. -/
def lowerCase : (c : JavaClass) → c.Value → c.Value
  | .address, a => RpcAddress.toLowerCase a
  | .array c, value => List.map (fun x => lowerCase c x) value
  | .boolean, value => value
  | .bigInteger, value => value
  | .bigDecimal, value => value
  | .byteArray, value => value
  | .string, value => value

/-- **An elementary value** is read as it was encoded, with its length where it has one. -/
theorem ElementaryType.reads {c : JavaClass} (type : ElementaryType c) {value : c.Value}
    (h_value : type.IsValue value) (h_readable : Readable c value)
    (h_len : (type.encode value).length < 2 ^ 31) :
    Reads type.converter.deserialise (type.encode value) (lowerCase c value) := by
  have h_padded {bytes : List UInt8} (h : (word bytes.length ++ padded bytes).length < 2 ^ 31) :
      bytes.length < 2 ^ 31 := by
    have h_le := le_length_padded bytes
    rw [List.length_append] at h
    omega
  -- the unsigned integers have to be below `2 ^ 255`, strings have to be well-formed
  cases type with
  | address => exact AddressTypeConverter.reads_toLowerCase value
  | bool => exact BoolTypeConverter.reads value
  | int size => exact UIntTypeConverter.reads_signed h_value
  | uint size => exact UIntTypeConverter.reads h_value h_readable
  | bytes => exact DynamicBytesTypeConverter.reads (h_padded h_len)
  | bytesN size => exact StaticBytesTypeConverter.reads h_value size.2.1 size.2.2
  | string => exact StringTypeConverter.reads h_readable (h_padded h_len)

/-- A value without a length takes one word. -/
theorem ElementaryType.length_encode {c : JavaClass} {type : ElementaryType c} {value : c.Value}
    (h_static : type.isDynamic = false) (h_value : type.IsValue value) :
    (type.encode value).length = 32 := by
  cases type with
  | address | bool | int | uint => exact length_word _
  | bytesN size =>
    have h_size : List.length value = size := h_value
    exact TypeConverter.length_padded_of_le (h_size ▸ size.2.1) (h_size ▸ size.2.2)
  | bytes | string => cases h_static

theorem AbiType.length_encode {c : JavaClass} {type : AbiType c} {value : c.Value}
    (h_word : type.isWord = true) (h_value : type.IsValue value) :
    (type.encode value).length = 32 := by
  cases type with
  | elementary type =>
    exact ElementaryType.length_encode (by simpa [isWord] using h_word) h_value
  | array component dimension => cases h_word

/-- Words one after the other. -/
theorem AbiType.reads_array {c : JavaClass} {type : ElementaryType c} {dimension : Dimension}
    {value : List c.Value} (h_static : type.isDynamic = false)
    (h_value : (AbiType.array (.elementary type) dimension).IsValue value)
    (h_readable : ∀ x ∈ value, Readable c x)
    (h_len : ((AbiType.array (.elementary type) dimension).encode value).length < 2 ^ 31) :
    Reads (dimension.converter type.converter).deserialise
      ((AbiType.array (.elementary type) dimension).encode value) (value.map (lowerCase c)) := by
  obtain ⟨h_length, h_all⟩ := isValue_array.mp h_value
  have h_elementary : (AbiType.elementary type).isDynamic = false := h_static
  rw [encode_array, h_elementary, encodeComponents_static] at h_len ⊢
  have h_flat : (value.flatMap fun x => type.encode x).length < 2 ^ 31 :=
    Nat.lt_of_le_of_lt (by rw [List.length_append]; exact Nat.le_add_left _ _) h_len
  have h_components : ∀ x ∈ value, ∃ x', Reads type.converter.deserialise (type.encode x) x' ∧
      lowerCase c x = x' := by
    intro x hx
    refine ⟨_, type.reads (h_all x hx) (h_readable x hx) ?_, rfl⟩
    exact Nat.lt_of_le_of_lt (length_le_flatMap hx) h_flat
  have h_map {value' : List c.Value}
      (h : List.Forall₂ (fun x x' => lowerCase c x = x') value value') :
      value.map (lowerCase c) = value' := by
    rwa [← List.forall₂_map_left_iff (R := Eq), List.forall₂_eq_eq_eq] at h
  cases dimension with
  | fixed size =>
    obtain ⟨value', h_reads, h_same⟩ := reads_all h_components
    rw [h_length, ← h_map h_same] at h_reads
    exact h_reads
  | dynamic =>
    -- there are at least as many bytes as components
    have h_mul := @mul_le_length_flatMap _ (fun x => type.encode x) value 1 fun x hx =>
      Nat.le_of_lt (by rw [ElementaryType.length_encode h_static (h_all x hx)]; omega)
    obtain ⟨value', h_reads, h_same⟩ := DynamicArrayTypeConverter.reads (by omega) h_components
    rw [← h_map h_same] at h_reads
    exact h_reads

/-- **A value** of an elementary type, or an array of words, is read as it was encoded. -/
theorem AbiType.reads {c : JavaClass} (type : AbiType c) {value : c.Value}
    (h_simple : type.isSimple = true) (h_value : type.IsValue value)
    (h_readable : Readable c value) (h_len : (type.encode value).length < 2 ^ 31) :
    Reads type.converter.deserialise (type.encode value) (lowerCase c value) := by
  cases type with
  | elementary type => exact type.reads h_value h_readable h_len
  | @array c component dimension =>
    obtain ⟨type, rfl, h_static⟩ := isSimple_array h_simple
    have h_converter : (AbiType.array (.elementary type) dimension).converter =
        dimension.converter type.converter := by
      cases type <;> rfl
    rw [h_converter]
    exact reads_array h_static h_value h_readable h_len

/-! ### Reading the log -/

namespace AbiArgument

/-- The converter of the argument's type. -/
def typeConverter (a : AbiArgument) : AnyTypeConverter := a.anyType.typeConverter

/-- The argument is a value of a simple type, and integers and strings are readable. -/
structure Decodable (a : AbiArgument) : Prop where
  simple : a.type.isSimple = true
  value : a.IsValue
  readable : Readable a.typeClass a.value

/-- The object that is read. -/
def decoded (a : AbiArgument) : JavaObject := ⟨a.typeClass, lowerCase a.typeClass a.value⟩

/-- The argument is read from its encoding. -/
theorem Decodable.reads {a : AbiArgument} (h : a.Decodable)
    (h_len : (a.type.encode a.value).length < 2 ^ 31) :
    Reads a.type.converter.deserialise (a.type.encode a.value) (lowerCase a.typeClass a.value) :=
  a.type.reads h.simple h.value h.readable h_len

end AbiArgument

namespace FunctionEncoding

variable {as : List AbiArgument}

/-- Each topic holds one argument. -/
theorem decodeTopics_topics (h : ∀ a ∈ as, a.Decodable)
    (h_word : ∀ a ∈ as, a.type.isWord = true) :
    decodeTopics (as.map AbiArgument.typeConverter) (as.map AbiArgument.topic) =
      .ok (as.map AbiArgument.decoded) := by
  induction as with
  | nil => rfl
  | cons a as ih =>
    rw [List.forall_mem_cons] at h h_word
    -- the argument fills its topic, and is read from there
    have h_len := AbiType.length_encode h_word.1 h.1.value
    obtain ⟨b, h_buffer, h_flip⟩ := decodeBuffer_hex (a.type.encode a.value)
    have h_value := h.1.reads (by omega) [] [] none
    rw [List.append_nil, List.nil_append, ← h_flip] at h_value
    have h_text : a.topic.toList = '0' :: 'x' :: (a.type.encode a.value).flatMap byteString :=
      String.toList_ofList
    refine bind_eq_ok.mpr ⟨b, h_text ▸ h_buffer, bind_eq_ok.mpr ⟨_, h_value, ?_⟩⟩
    exact bind_eq_ok.mpr ⟨_, ih h.2 h_word.2, rfl⟩

variable {before done : List UInt8} {mark : Option ℕ} {n : ℕ}

/-- The other arguments are read from their heads and tails, when the heads read so far are in
front of the position, and the tails read so far are `done`. -/
theorem decodeInputs_parts (h : ∀ a ∈ as, a.Decodable)
    (h_n : n = before.length + headSize 32 (as.map AbiArgument.part))
    (h_len : n + done.length + (tails (as.map AbiArgument.part)).length < 2 ^ 31) :
    decodeInputs (as.map AbiArgument.typeConverter)
        ⟨before, heads (fun k => word k) (n + done.length) (as.map AbiArgument.part) ++
          (done ++ tails (as.map AbiArgument.part)), mark⟩ =
      .ok (as.map AbiArgument.decoded) := by
  induction as generalizing before done mark with
  | nil => rfl
  | cons a as ih =>
    rw [List.forall_mem_cons] at h
    rw [List.map_cons, headSize_cons] at h_n
    rw [List.map_cons, tails_cons, List.length_append] at h_len
    simp only [List.map_cons]
    by_cases h_dyn : a.type.isDynamic = true
    · have h_part : a.part.dynamic = true := h_dyn
      rw [tails_cons_dynamic h_part, tails, List.append_nil] at h_len
      rw [Part.headSize, if_pos h_part] at h_n
      have h_reads := h.1.reads (show a.part.content.length < 2 ^ 31 by omega)
      have h_rest := @ih (before ++ word (n + done.length : ℕ))
        (done ++ a.part.content) (some (before ++ word (n + done.length : ℕ)).length) h.2
        (by rw [List.length_append, length_word]; omega) (by rw [List.length_append]; omega)
      rw [heads_cons_dynamic h_part, tails_cons_dynamic h_part]
      rw [List.length_append, ← Nat.add_assoc] at h_rest
      -- the other heads and the tails read before are between the offset and the tail
      set k := n + done.length with h_k
      set later := heads (fun k => word k) (k + a.part.content.length) (as.map AbiArgument.part)
      have h_later : later.length = headSize 32 (as.map AbiArgument.part) :=
        length_heads length_offset _ _
      have h_data : word k ++ later ++
          (done ++ (a.part.content ++ tails (as.map AbiArgument.part))) =
          word k ++ ((later ++ done) ++
            (a.part.content ++ tails (as.map AbiArgument.part))) := by
        simp only [List.append_assoc]
      rw [h_data]
      refine decodeInputs_dynamic ?_ h_reads ?_ (by omega) ?_
      · exact (AbiType.isDynamic_of_isSimple h.1.simple).trans h_dyn
      · simp only [List.length_append, length_word]
        omega
      · rw [← h_rest]
        simp only [List.append_assoc]
        rfl
    · have h_part : a.part.dynamic = false := Bool.eq_false_iff.mpr h_dyn
      rw [tails_cons_static h_part, tails, List.length_nil] at h_len
      rw [Part.headSize, h_part, if_neg Bool.false_ne_true] at h_n
      have h_reads := h.1.reads (show a.part.content.length < 2 ^ 31 by omega)
      have h_rest := @ih (before ++ a.part.content) done mark h.2
        (by rw [List.length_append]; omega) (by omega)
      rw [heads_cons_static h_part, tails_cons_static h_part, List.append_assoc]
      have h_simple := AbiType.isDynamic_of_isSimple h.1.simple
      exact decodeInputs_static (fun hc => h_dyn (h_simple.symm.trans hc)) h_reads h_rest

/-- The converters of those parameters that are indexed, or of those that are not. -/
theorem eventConverters_eq {inputs : List EventInput} {indexed : Bool}
    {converters : List AnyTypeConverter}
    (h : List.Forall₂ Converts
      ((inputs.map EventInput.parameter).filter fun p => p.indexed == indexed) converters) :
    converters = (eventArguments indexed inputs).map AbiArgument.typeConverter := by
  have h_names : ((inputs.map EventInput.parameter).filter fun p => p.indexed == indexed).map
      Parameter.type = ((eventArguments indexed inputs).map AbiArgument.anyType).map
        fun type => type.2.name := by
    rw [List.filter_map, List.map_map, eventArguments, List.map_map, List.map_map]
    rfl
  rw [inputParameters_eq h h_names, List.map_map]
  rfl

/-- What the constructor finds for the parameters of an event: the indexed ones, and the others. -/
theorem new_event {digest : List UInt8 → List UInt8} {function : Function}
    {inputs : List EventInput} (h_inputs : function.inputs = inputs.map EventInput.parameter)
    {e : FunctionEncoding} (h_new : new digest function = .ok e) :
    e.eventIndexedParameters = (eventArguments true inputs).map AbiArgument.typeConverter ∧
      e.inputParameters = (eventArguments false inputs).map AbiArgument.typeConverter := by
  obtain ⟨h_built, -⟩ := new_returns h_new
  have h_indexed := h_built.eventIndexedParameters
  have h_others := h_built.inputParameters
  rw [h_inputs] at h_indexed h_others
  refine ⟨eventConverters_eq ?_, eventConverters_eq ?_⟩
  · simpa only [beq_true] using h_indexed
  · simpa only [beq_false] using h_others

/-- The arguments that are indexed, or those that are not. -/
theorem mem_eventArguments {inputs : List EventInput} {indexed : Bool} {a : AbiArgument} :
    a ∈ eventArguments indexed inputs ↔
      ∃ input ∈ inputs, input.indexed = indexed ∧ input.argument = a := by
  simp only [eventArguments, List.mem_map, List.mem_filter, beq_iff_eq, and_assoc]

/-- **What `decodeEvent` reads** from the log of an event, when its encoding has the converters
of the parameters. -/
theorem decodeEvent_reads {e : FunctionEncoding} {inputs : List EventInput}
    (h_indexed : e.eventIndexedParameters =
      (eventArguments true inputs).map AbiArgument.typeConverter)
    (h_others : e.inputParameters = (eventArguments false inputs).map AbiArgument.typeConverter)
    (h : ∀ a ∈ inputs, a.argument.Decodable)
    (h_word : ∀ a ∈ inputs, a.indexed = true → a.argument.type.isWord = true)
    (h_len : (eventData inputs).length < 2 ^ 31) (address : String) (hash : List Char) :
    e.decodeEvent (eventLog address hash inputs) =
      .ok ((eventArguments true inputs ++ eventArguments false inputs).map
        AbiArgument.decoded) := by
  have h_all {indexed : Bool} : ∀ a ∈ eventArguments indexed inputs, a.Decodable := by
    intro a ha
    obtain ⟨input, h_mem, -, rfl⟩ := mem_eventArguments.mp ha
    exact h input h_mem
  have h_words : ∀ a ∈ eventArguments true inputs, a.type.isWord = true := by
    intro a ha
    obtain ⟨input, h_mem, h_true, rfl⟩ := mem_eventArguments.mp ha
    exact h_word input h_mem h_true
  -- the topics and the data are texts of hex digits
  obtain ⟨b, h_buffer, h_flip⟩ := decodeBuffer_hex (eventData inputs)
  unfold eventData headTail at h_len
  rw [List.length_append, length_heads length_offset] at h_len
  have h_data := @decodeInputs_parts (eventArguments false inputs) [] [] none
    (headSize 32 ((eventArguments false inputs).map AbiArgument.part)) h_all
    (Nat.zero_add _).symm h_len
  unfold decodeEvent eventLog
  rw [h_indexed, h_others, List.drop_one, List.tail_cons, List.map_append]
  refine bind_eq_ok.mpr ⟨_, decodeTopics_topics h_all h_words, bind_eq_ok.mpr ⟨b, ?_, ?_⟩⟩
  · rw [hexText, String.toList_ofList]
    exact h_buffer
  · rw [h_flip]
    exact bind_eq_ok.mpr ⟨_, h_data, rfl⟩

/-- **`decodeEvent` undoes the log of an event.** From the log of an event whose indexed parameters
are words and whose other parameters are elementary or arrays of words, it returns all arguments,
the indexed ones first, with the digits of addresses in lower case. Integers may be negative; those
of 256 bits are below `2 ^ 255`, strings are well-formed and there are less than `2 ^ 31` bytes. -/
theorem decodeEvent_eventLog (digest : List UInt8 → List UInt8) (function : Function)
    (inputs : List EventInput) (h_inputs : function.inputs = inputs.map EventInput.parameter)
    (e : FunctionEncoding) (h_new : new digest function = .ok e)
    (h : ∀ a ∈ inputs, a.argument.Decodable)
    (h_word : ∀ a ∈ inputs, a.indexed = true → a.argument.type.isWord = true)
    (h_len : (eventData inputs).length < 2 ^ 31) (address : String) :
    e.decodeEvent (eventLog address e.hash inputs) =
      .ok ((eventArguments true inputs ++ eventArguments false inputs).map
        AbiArgument.decoded) := by
  obtain ⟨h_indexed, h_others⟩ := new_event h_inputs h_new
  exact decodeEvent_reads h_indexed h_others h h_word h_len address e.hash

/-- The event `f(string,int8)` with an indexed -1. -/
theorem decodeEvent_eventLog_int8 :
    let inputs : List EventInput := [⟨⟨_, .elementary .string, JavaString.ofString "é"⟩, false⟩,
      ⟨⟨_, .elementary (.int ⟨8, by decide⟩), (-1 : ℤ)⟩, true⟩]
    ∃ e : FunctionEncoding, new (fun _ => List.replicate 32 0)
        ⟨"event".toList, some ['f'], inputs.map EventInput.parameter, []⟩ = .ok e ∧
      e.decodeEvent (eventLog "0xc0" e.hash inputs) =
        .ok [⟨.bigInteger, (-1 : ℤ)⟩, ⟨.string, JavaString.ofString "é"⟩] := by
  intro inputs
  have h_new : (new (fun _ => List.replicate 32 0)
      ⟨"event".toList, some ['f'], inputs.map EventInput.parameter, []⟩).toOption.isSome =
        true := by
    decide +kernel
  -- the constructor is run once
  obtain ⟨e, h_e⟩ := exists_ok_of_isSome h_new
  refine ⟨e, h_e, decodeEvent_eventLog _ _ inputs rfl e h_e ?_ ?_ (by decide +kernel) _⟩
  · refine List.forall_mem_cons.mpr ⟨⟨rfl, ?_, ?_⟩, List.forall_mem_singleton.mpr ⟨rfl, ?_, ?_⟩⟩
    · exact ⟨JavaString.wellFormed_ofString "é", by decide +kernel⟩
    · exact JavaString.wellFormed_ofString "é"
    · exact (⟨by decide, by decide⟩ : IntTypeConverter.Accepts 8 (-1))
    · exact (by decide : (-1 : ℤ) < 2 ^ 255)
  · decide

end FunctionEncoding

end Ethiso.Abi
