import Ethiso.Abi.FunctionEncoding
import Ethiso.Abi.Deserialisation
import Ethiso.Framework.HeadTail

/-!
# What `encode` returns

If `encode` returns, each argument is a value that its converter accepts, and the text
behind the selector is the hex of one sequence with heads and tails (`headTail`): a
parameter is a dynamic component if its converter says so, and its content is what the
converter writes (`encode_returns`).

The head buffer is as large as the constructor computed, in `int` arithmetic. No
converter writes less to the head than it announces, so that when nothing overflows
the head is exactly full, and the `int`s are the exact sizes. Conversely, `encode` returns
whenever this is so (`encode_of_returns`).
-/

namespace Ethiso.Abi

/-! ### Class casts -/

/-- A cast succeeds if the object has the class. -/
theorem JavaObject.cast_eq_ok {object : JavaObject} {c : JavaClass} {value : c.Value} :
    object.cast c = .ok value ↔ object = ⟨c, value⟩ := by
  obtain ⟨c', value'⟩ := object
  unfold JavaObject.cast
  by_cases h : c' = c
  · subst h
    simp
  · rw [dif_neg h, throw_eq_ok, false_iff]
    exact fun hc => h (congrArg JavaObject.typeClass hc)

/-- **What a converter writes**: an object of its class that it accepts, in its layout. -/
theorem TypeConverter.serialise_eq_ok {c : JavaClass} (converter : TypeConverter c)
    {b b' : ByteBuffer} {object : JavaObject} :
    converter.serialise b object = .ok b' ↔
      ∃ value, object = ⟨c, value⟩ ∧ converter.Accepts value ∧
        b.Extends (converter.layout value) b' := by
  unfold TypeConverter.serialise
  simp only [bind_eq_ok, JavaObject.cast_eq_ok, TypeConverter.serialiseType_eq_ok]

/-! ### The size of the head -/

/-- The announced size of the head is an `int`. -/
theorem TypeConverter.getHeadSize_eq {c : JavaClass} (converter : TypeConverter c) :
    converter.getHeadSize = BigInteger.intValue converter.headWidth := by
  induction converter with
  | staticArray component size ih =>
    unfold TypeConverter.getHeadSize TypeConverter.headWidth
    rw [ih, Nat.cast_mul]
    exact Int.mul_bmod_bmod
  | _ => exact (intValue_of_lt (n := 32) ⟨by decide, by decide⟩).symm

/-- The sum of the sizes that the converters announce. -/
def headWidths (converters : List AnyTypeConverter) : ℕ :=
  (converters.map fun converter => converter.2.headWidth).sum

/-- The converter of the parameter. -/
def Converts (parameter : Parameter) (converter : AnyTypeConverter) : Prop :=
  EthereumUtils.getTypeConverter parameter.type = .ok converter

namespace FunctionEncoding

/-- The loop over the inputs finds the converters, and adds up the sizes of the heads. -/
theorem addInputs_returns {inputs : List Parameter} {e e' : FunctionEncoding} {n : ℕ}
    (h_size : e.inputParametersHeadSize = BigInteger.intValue n)
    (h : inputs.foldlM addInput e = .ok e') :
    e'.hash = e.hash ∧ ∃ indexed converters,
      List.Forall₂ Converts (inputs.filter fun p => p.indexed) indexed ∧
      List.Forall₂ Converts (inputs.filter fun p => !p.indexed) converters ∧
      e'.eventIndexedParameters = e.eventIndexedParameters ++ indexed ∧
      e'.inputParameters = e.inputParameters ++ converters ∧
      e'.inputParametersHeadSize = BigInteger.intValue (n + headWidths converters : ℕ) := by
  induction inputs generalizing e n with
  | nil =>
    obtain rfl := pure_eq_ok.mp h
    exact ⟨rfl, [], [], .nil, .nil, (List.append_nil _).symm, (List.append_nil _).symm, h_size⟩
  | cons p inputs ih =>
    rw [List.foldlM_cons, bind_eq_ok] at h
    obtain ⟨e₁, h_first, h_rest⟩ := h
    obtain ⟨converter, h_conv, h_eq⟩ := bind_eq_ok.mp h_first
    by_cases h_indexed : p.indexed = true
    -- an indexed parameter is not written, and does not count for the size of the head
    · rw [if_pos h_indexed, pure_eq_ok] at h_eq
      obtain ⟨h_hash, indexed, converters, h_1, h_2, h_3, h_4, h_5⟩ :=
        ih (e := e₁) (by rw [← h_eq]; exact h_size) h_rest
      rw [← h_eq] at h_hash h_3 h_4
      refine ⟨h_hash, converter :: indexed, converters, ?_, ?_, ?_, h_4, h_5⟩
      · rw [List.filter_cons_of_pos h_indexed]
        exact .cons h_conv h_1
      · rw [List.filter_cons_of_neg (by simp [h_indexed])]
        exact h_2
      · rw [h_3, List.append_assoc, List.singleton_append]
    · rw [if_neg h_indexed, pure_eq_ok] at h_eq
      -- the `int` sum wraps around as the exact sum does
      have h_next : BigInteger.intValue (e.inputParametersHeadSize + converter.2.getHeadSize) =
          BigInteger.intValue (n + converter.2.headWidth : ℕ) := by
        rw [h_size, converter.2.getHeadSize_eq, Nat.cast_add]
        unfold BigInteger.intValue
        rw [Int.add_bmod_bmod, Int.bmod_add_bmod]
      obtain ⟨h_hash, indexed, converters, h_1, h_2, h_3, h_4, h_5⟩ :=
        ih (e := e₁) (by rw [← h_eq]; exact h_next) h_rest
      rw [← h_eq] at h_hash h_3 h_4
      refine ⟨h_hash, indexed, converter :: converters, ?_, ?_, h_3, ?_, ?_⟩
      · rw [List.filter_cons_of_neg h_indexed]
        exact h_1
      · rw [List.filter_cons_of_pos (by simp [h_indexed])]
        exact .cons h_conv h_2
      · rw [h_4, List.append_assoc, List.singleton_append]
      · rw [h_5, headWidths, headWidths, List.map_cons, List.sum_cons, Nat.add_assoc]

/-- The loop over the outputs finds the converters of the results. -/
theorem addOutputs_returns {outputs : List Parameter} {e e' : FunctionEncoding}
    (h : outputs.foldlM addOutput e = .ok e') :
    ∃ converters, List.Forall₂ Converts outputs converters ∧
      e' = { e with outputParameters := e.outputParameters ++ converters } := by
  induction outputs generalizing e with
  | nil =>
    obtain rfl := pure_eq_ok.mp h
    exact ⟨[], .nil, by rw [List.append_nil]⟩
  | cons p outputs ih =>
    rw [List.foldlM_cons, bind_eq_ok] at h
    obtain ⟨e₁, h_first, h_rest⟩ := h
    -- the converter of the first result, and then those of the others
    obtain ⟨converter, h_conv, h_eq⟩ := bind_eq_ok.mp h_first
    rw [pure_eq_ok] at h_eq
    obtain ⟨converters, h_all, h_rest⟩ := ih (e := e₁) h_rest
    rw [← h_eq, List.append_assoc, List.singleton_append] at h_rest
    exact ⟨converter :: converters, .cons h_conv h_all, h_rest⟩

/-- What the constructor returns: the converters of the parameters and the `int` sum of
their head sizes. -/
structure BuiltFrom (function : Function) (e : FunctionEncoding) : Prop where
  eventIndexedParameters :
    List.Forall₂ Converts (function.inputs.filter fun p => p.indexed) e.eventIndexedParameters
  inputParameters :
    List.Forall₂ Converts (function.inputs.filter fun p => !p.indexed) e.inputParameters
  headSize : e.inputParametersHeadSize = BigInteger.intValue (headWidths e.inputParameters)

/-- **What the constructor returns**: an encoding that was built from the function. -/
theorem new_returns {digest : List UInt8 → List UInt8} {function : Function}
    {e : FunctionEncoding} (h : new digest function = .ok e) :
    BuiltFrom function e ∧ hashOf digest function = .ok e.hash := by
  unfold new at h
  simp only [bind_eq_ok] at h
  obtain ⟨hash, h_hash, e₁, h_inputs, h_outputs⟩ := h
  obtain ⟨h_same, indexed, converters, h_1, h_2, h_3, h_4, h_5⟩ :=
    addInputs_returns (n := 0) (intValue_of_lt (n := 0) ⟨by decide, by decide⟩).symm h_inputs
  obtain ⟨outputs, -, rfl⟩ := addOutputs_returns h_outputs
  rw [List.nil_append] at h_3 h_4
  refine ⟨⟨h_3 ▸ h_1, h_4 ▸ h_2, ?_⟩, h_same ▸ h_hash⟩
  rw [Nat.zero_add, ← h_4] at h_5
  exact h_5

end FunctionEncoding

/-! ### The arguments -/

/-- A parameter's converter with a value of its class. -/
structure Argument where
  typeClass : JavaClass
  converter : TypeConverter typeClass
  value : typeClass.Value

namespace Argument

/-- The converter, with the class of its values. -/
def typeConverter (a : Argument) : AnyTypeConverter := ⟨a.typeClass, a.converter⟩

/-- The value, with its class. -/
def object (a : Argument) : JavaObject := ⟨a.typeClass, a.value⟩

/-- The converter takes the value. -/
def Accepted (a : Argument) : Prop := a.converter.Accepts a.value

/-- The argument as a component of the sequence. -/
def part (a : Argument) : Part UInt8 := ⟨a.converter.isDynamic, a.converter.layout a.value⟩

end Argument

/-- Arguments are determined by their converters and their objects. -/
theorem Argument.ext_maps {as as' : List Argument}
    (h_conv : as.map Argument.typeConverter = as'.map Argument.typeConverter)
    (h_obj : as.map Argument.object = as'.map Argument.object) : as = as' := by
  induction as generalizing as' with
  | nil =>
    obtain rfl : as' = [] := by simpa using h_conv.symm
    rfl
  | cons a as ih =>
    cases as' with
    | nil => exact absurd h_conv (by simp)
    -- the first arguments agree, and by induction the others
    | cons a' as' =>
      obtain ⟨h_first, h_convs⟩ := List.cons.inj h_conv
      obtain ⟨h_object, h_objs⟩ := List.cons.inj h_obj
      obtain rfl := ih h_convs h_objs
      obtain ⟨c, converter, value⟩ := a
      obtain ⟨c', converter', value'⟩ := a'
      cases h_first
      cases h_object
      rfl

theorem length_offset (k : ℕ) : (word k).length = 32 := length_word k

/-- The offsets are `int`s, when the tail of the next dynamic argument is at `k`. -/
def OffsetsFit : ℕ → List Argument → Prop
  | _, [] => True
  | k, a :: as =>
    (a.converter.isDynamic = true → k < 2 ^ 31) ∧ OffsetsFit (k + (tails [a.part]).length) as

/-- The offsets are `int`s if the end of the tail is one. -/
theorem offsetsFit_of_lt {k : ℕ} {as : List Argument}
    (h : k + (tails (as.map Argument.part)).length < 2 ^ 31) : OffsetsFit k as := by
  induction as generalizing k with
  | nil => trivial
  | cons a as ih =>
    rw [List.map_cons, tails_cons, List.length_append, ← Nat.add_assoc] at h
    exact ⟨fun _ => by omega, ih h⟩

namespace FunctionEncoding

variable {e : FunctionEncoding} {b t b' t' : ByteBuffer}

/-- Writing one argument. The offset is exact: it fits an `int` because a negative
number is rejected. -/
theorem encodeParameter_returns {n : ℕ} (h_size : e.inputParametersHeadSize = n)
    (h_n : n < 2 ^ 31) (h_tail : t.capacity = 1024) {converter : AnyTypeConverter}
    {object : JavaObject}
    (h : e.encodeParameter (b, t) (converter, object) = .ok (b', t')) :
    ∃ a : Argument, a.typeConverter = converter ∧ a.object = object ∧ a.Accepted ∧
      (a.converter.isDynamic = true → n + t.position < 2 ^ 31) ∧
      b.Extends (heads (fun k => word k) (n + t.position) [a.part]) b' ∧
      t.Extends (tails [a.part]) t' := by
  obtain ⟨c, converter⟩ := converter
  unfold encodeParameter at h
  dsimp only at h
  by_cases h_dyn : converter.isDynamic = true
  · rw [if_pos h_dyn] at h
    simp only [bind_eq_ok, pure_eq_ok, Prod.mk.injEq, TypeConverter.serialise_eq_ok] at h
    obtain ⟨t₁, ⟨value, rfl, h_acc, h_t⟩, b₁, h_b, rfl, rfl⟩ := h
    obtain ⟨h_range, h_b⟩ := (UIntTypeConverter.serialiseType_eq_ok (Nat.le_refl 256)).mp h_b
    have h_position : t.position ≤ 1024 := h_tail ▸ t.fits
    have h_nonneg := h_range.1
    rw [h_size] at h_nonneg h_b
    -- a sum of two `int`s that overflows is negative, and the converter rejects it
    have h_fits : n + t.position < 2 ^ 31 := by
      unfold BigInteger.intValue at h_nonneg
      rw [Int.bmod_def] at h_nonneg
      omega
    rw [intValue_of_lt ⟨by omega, by omega⟩, ← Nat.cast_add] at h_b
    refine ⟨⟨c, converter, value⟩, rfl, rfl, h_acc, fun _ => h_fits, ?_, ?_⟩
    · simpa [heads, Argument.part, h_dyn] using h_b
    · simpa [tails, Argument.part, h_dyn] using h_t
  · rw [if_neg h_dyn] at h
    simp only [bind_eq_ok, pure_eq_ok, Prod.mk.injEq, TypeConverter.serialise_eq_ok] at h
    obtain ⟨b₁, ⟨value, rfl, h_acc, h_b⟩, rfl, rfl⟩ := h
    refine ⟨⟨c, converter, value⟩, rfl, rfl, h_acc, fun hc => absurd hc h_dyn, ?_, ?_⟩
    · simpa [heads, Argument.part, h_dyn] using h_b
    · simpa [tails, Argument.part, h_dyn] using ByteBuffer.extends_nil.mpr rfl

/-- **What the loop over the arguments returns**: all of them were accepted and written. -/
theorem encodeParameters_returns {n : ℕ} (h_size : e.inputParametersHeadSize = n)
    (h_n : n < 2 ^ 31) (h_tail : t.capacity = 1024) {converters : List AnyTypeConverter}
    {objects : List JavaObject} (h_len : converters.length = objects.length)
    (h : (converters.zip objects).foldlM e.encodeParameter (b, t) = .ok (b', t')) :
    ∃ as : List Argument, as.map Argument.typeConverter = converters ∧
      as.map Argument.object = objects ∧ (∀ a ∈ as, a.Accepted) ∧
      OffsetsFit (n + t.position) as ∧
      b.Extends (heads (fun k => word k) (n + t.position) (as.map Argument.part)) b' ∧
      t.Extends (tails (as.map Argument.part)) t' := by
  induction converters generalizing objects b t with
  | nil =>
    obtain rfl := List.length_eq_zero_iff.mp h_len.symm
    obtain ⟨rfl, rfl⟩ := Prod.mk.inj (pure_eq_ok.mp h)
    exact ⟨[], rfl, rfl, List.forall_mem_nil _, trivial, ByteBuffer.extends_nil.mpr rfl,
      ByteBuffer.extends_nil.mpr rfl⟩
  | cons converter converters ih =>
    obtain ⟨object, objects, rfl⟩ := List.exists_cons_of_length_eq_add_one h_len.symm
    rw [List.zip_cons_cons, List.foldlM_cons, bind_eq_ok] at h
    obtain ⟨⟨b₁, t₁⟩, h_first, h_rest⟩ := h
    obtain ⟨a, rfl, rfl, h_acc, h_fits, h_b, h_t⟩ :=
      encodeParameter_returns h_size h_n h_tail h_first
    obtain ⟨as, rfl, rfl, h_all, h_fit, h_b', h_t'⟩ :=
      ih (h_t.1.trans h_tail) (Nat.succ.inj h_len) h_rest
    -- the next tail starts where this one ends
    have h_position : t₁.position = t.position + (tails [a.part]).length := by
      unfold ByteBuffer.position
      rw [h_t.2, List.length_append]
    rw [h_position, ← Nat.add_assoc] at h_b' h_fit
    refine ⟨a :: as, rfl, rfl, List.forall_mem_cons.mpr ⟨h_acc, h_all⟩, ⟨h_fits, h_fit⟩, ?_, ?_⟩
    · rw [List.map_cons, heads_cons, ByteBuffer.extends_append]
      exact ⟨b₁, h_b, h_b'⟩
    · rw [List.map_cons, tails_cons, ByteBuffer.extends_append]
      exact ⟨t₁, h_t, h_t'⟩

/-! ### The result -/

/-- Each accepted argument fills its head. -/
theorem headWidth_le_headSize {a : Argument} (h : a.Accepted) :
    a.converter.headWidth ≤ a.part.headSize 32 := by
  unfold Part.headSize Argument.part
  split_ifs with h_dyn
  · obtain ⟨c, converter, value⟩ := a
    cases converter <;> first | exact Nat.le_refl 32 | exact absurd h_dyn Bool.false_ne_true
  · exact a.converter.headWidth_le h

/-- The first argument announces its own width. -/
theorem headWidths_cons (a : Argument) (as : List Argument) :
    headWidths ((a :: as).map Argument.typeConverter) =
      a.converter.headWidth + headWidths (as.map Argument.typeConverter) := by
  unfold headWidths
  rw [List.map_cons, List.map_cons, List.sum_cons]
  rfl

/-- The arguments do not write less to the head than was announced. -/
theorem headWidths_le_headSize {as : List Argument} (h_acc : ∀ a ∈ as, a.Accepted) :
    headWidths (as.map Argument.typeConverter) ≤ headSize 32 (as.map Argument.part) := by
  induction as with
  | nil => exact Nat.zero_le _
  | cons a as ih =>
    rw [List.forall_mem_cons] at h_acc
    rw [headWidths_cons, List.map_cons, headSize_cons]
    exact Nat.add_le_add (headWidth_le_headSize h_acc.1) (ih h_acc.2)

/-- If the heads are no larger than the sum of the announced sizes, each head is as large
as announced. -/
theorem headSize_eq_headWidth {as : List Argument} (h_acc : ∀ a ∈ as, a.Accepted)
    (h : headSize 32 (as.map Argument.part) ≤ headWidths (as.map Argument.typeConverter)) :
    ∀ a ∈ as, a.part.headSize 32 = a.converter.headWidth := by
  induction as with
  | nil => exact List.forall_mem_nil _
  | cons a as ih =>
    rw [List.forall_mem_cons] at h_acc
    have h_first := headWidth_le_headSize h_acc.1
    have h_rest := headWidths_le_headSize h_acc.2
    rw [headWidths_cons, List.map_cons, headSize_cons] at h
    exact List.forall_mem_cons.mpr ⟨by omega, ih h_acc.2 (by omega)⟩

/-- What is known of the arguments when `encode` returns `text`. -/
structure Returns (e : FunctionEncoding) (as : List Argument) (text : List Char) : Prop where
  accepted : ∀ a ∈ as, a.Accepted
  full : ∀ a ∈ as, a.part.headSize 32 = a.converter.headWidth
  headSize_lt : headSize 32 (as.map Argument.part) < 2 ^ 31
  offsets : OffsetsFit (headSize 32 (as.map Argument.part)) as
  tails_le : (tails (as.map Argument.part)).length ≤ 1024
  text_eq : text = e.hash.take 10 ++
    (headTail (fun k => word k) 32 (as.map Argument.part)).flatMap EthereumUtils.byteString

/-- **What `encode` returns.** -/
theorem encode_returns {objects : List JavaObject} {text : List Char}
    (h_size : e.inputParametersHeadSize = BigInteger.intValue (headWidths e.inputParameters))
    (h : e.encode objects = .ok text) :
    ∃ as : List Argument, as.map Argument.typeConverter = e.inputParameters ∧
      as.map Argument.object = objects ∧ e.Returns as text := by
  unfold encode at h
  simp only [bind_eq_ok] at h
  obtain ⟨b, h_b, t, h_t, h⟩ := h
  -- the buffers are empty and of the sizes asked for
  unfold ByteBuffer.allocateDirect at h_b h_t
  split_ifs at h_b h_t with h_neg
  rw [pure_eq_ok] at h_b h_t
  obtain ⟨n, h_n⟩ := Int.eq_ofNat_of_zero_le (not_lt.mp h_neg)
  have h_int : (n : ℤ) = BigInteger.intValue (headWidths e.inputParameters) :=
    h_n.symm.trans h_size
  unfold BigInteger.intValue at h_int
  rw [Int.bmod_def] at h_int
  have h_lt : n < 2 ^ 31 := by omega
  split_ifs at h with h_count
  · simp [bind_eq_ok] at h
  obtain ⟨⟨b', t'⟩, h_loop, h_text⟩ := bind_eq_ok.mp h
  rw [pure_eq_ok] at h_text
  obtain ⟨as, h_conv, h_obj, h_acc, h_fit, h_heads, h_tails⟩ :=
    encodeParameters_returns h_n h_lt (by rw [← h_t]; rfl) (not_not.mp h_count).symm h_loop
  have h_position : t.position = 0 := by rw [← h_t]; rfl
  have h_written : b.written = [] ∧ t.written = [] := by
    rw [← h_b, ← h_t]
    exact ⟨rfl, rfl⟩
  have h_room : b.capacity = n ∧ t.capacity = 1024 := by
    rw [← h_b, ← h_t, h_n]
    exact ⟨rfl, rfl⟩
  have h_le := h_heads.length_le
  have h_tails_le := h_tails.length_le
  rw [h_written.1, h_room.1, List.length_nil, Nat.zero_add, length_heads length_offset] at h_le
  rw [h_written.2, h_room.2, List.length_nil, Nat.zero_add] at h_tails_le
  -- the `int` is at most the sum of the announced sizes, which the heads reach
  have h_widths := headWidths_le_headSize h_acc
  rw [h_conv] at h_widths
  have h_exact : headSize 32 (as.map Argument.part) = n := by
    split_ifs at h_int <;> omega
  rw [h_position, Nat.add_zero, ← h_exact] at h_heads h_fit
  refine ⟨as, h_conv, h_obj, h_acc, headSize_eq_headWidth h_acc ?_, by omega, h_fit, h_tails_le, ?_⟩
  · rw [h_conv]
    split_ifs at h_int <;> omega
  · rw [← h_text, headTail, List.flatMap_append]
    unfold encodeBuffer ByteBuffer.flip
    dsimp only
    rw [h_heads.2, h_tails.2, h_written.1, h_written.2, List.nil_append, List.nil_append,
      List.append_assoc]

/-! ### Room for the result -/

/-- An accepted argument is written if there is room for it. -/
theorem exists_encodeParameter {n : ℕ} (h_size : e.inputParametersHeadSize = n) {a : Argument}
    (h_acc : a.Accepted) (h_fit : a.converter.isDynamic = true → n + t.position < 2 ^ 31)
    (h_head : b.written.length + a.part.headSize 32 ≤ b.capacity)
    (h_tail : t.written.length + (tails [a.part]).length ≤ t.capacity) :
    ∃ b' t', e.encodeParameter (b, t) (a.typeConverter, a.object) = .ok (b', t') ∧
      b.Extends (heads (fun k => word k) (n + t.position) [a.part]) b' ∧
      t.Extends (tails [a.part]) t' := by
  unfold encodeParameter
  dsimp only
  by_cases h_dyn : a.typeConverter.2.isDynamic = true
  -- the value goes to the tail, and its offset to the head
  · have h_part : a.part.dynamic = true := h_dyn
    have h_lt := h_fit h_dyn
    rw [Part.headSize, if_pos h_part] at h_head
    rw [tails_cons_dynamic h_part, tails, List.append_nil] at h_tail ⊢
    rw [heads_cons_dynamic h_part, heads, List.append_nil]
    obtain ⟨t', h_t⟩ := ByteBuffer.exists_extends h_tail
    obtain ⟨b', h_b⟩ := @ByteBuffer.exists_extends b (word (n + t.position : ℕ))
      (by rwa [length_word])
    refine ⟨b', t', ?_, h_b, h_t⟩
    have h_offset : BigInteger.intValue (e.inputParametersHeadSize + t.position) =
        (n + t.position : ℕ) := by
      rw [h_size, ← Nat.cast_add]
      exact intValue_of_lt ⟨by omega, by omega⟩
    rw [if_pos h_dyn, h_offset]
    refine bind_eq_ok.mpr ⟨t', a.converter.serialise_eq_ok.mpr ⟨a.value, rfl, h_acc, h_t⟩, ?_⟩
    exact bind_eq_ok.mpr ⟨b', (serialiseLength_eq_ok).mpr ⟨by omega, h_b⟩, rfl⟩
  -- the value itself goes to the head
  · have h_part : a.part.dynamic = false := Bool.eq_false_iff.mpr h_dyn
    rw [Part.headSize, h_part, if_neg Bool.false_ne_true] at h_head
    rw [tails_cons_static h_part, tails]
    rw [heads_cons_static h_part, heads, List.append_nil]
    obtain ⟨b', h_b⟩ := ByteBuffer.exists_extends h_head
    refine ⟨b', t, ?_, h_b, ByteBuffer.extends_nil.mpr rfl⟩
    rw [if_neg h_dyn]
    exact bind_eq_ok.mpr ⟨b', a.converter.serialise_eq_ok.mpr ⟨a.value, rfl, h_acc, h_b⟩, rfl⟩

theorem exists_encodeParameters {n : ℕ} (h_size : e.inputParametersHeadSize = n)
    {as : List Argument}
    (h_acc : ∀ a ∈ as, a.Accepted) (h_fit : OffsetsFit (n + t.position) as)
    (h_head : b.written.length + headSize 32 (as.map Argument.part) ≤ b.capacity)
    (h_tail : t.written.length + (tails (as.map Argument.part)).length ≤ t.capacity) :
    ∃ b' t', ((as.map Argument.typeConverter).zip (as.map Argument.object)).foldlM
        e.encodeParameter (b, t) = .ok (b', t') ∧
      b.Extends (heads (fun k => word k) (n + t.position) (as.map Argument.part)) b' ∧
      t.Extends (tails (as.map Argument.part)) t' := by
  induction as generalizing b t with
  | nil => exact ⟨b, t, rfl, ByteBuffer.extends_nil.mpr rfl, ByteBuffer.extends_nil.mpr rfl⟩
  | cons a as ih =>
    rw [List.forall_mem_cons] at h_acc
    obtain ⟨h_offset, h_fit⟩ := h_fit
    rw [List.map_cons, headSize_cons] at h_head
    rw [List.map_cons, tails_cons, List.length_append] at h_tail
    obtain ⟨b₁, t₁, h_first, h_b, h_t⟩ :=
      @exists_encodeParameter e b t n h_size a h_acc.1 h_offset (by omega) (by omega)
    have h_written := congrArg List.length h_b.2
    have h_written' := congrArg List.length h_t.2
    rw [List.length_append] at h_written h_written'
    rw [length_heads length_offset, headSize_cons] at h_written
    have h_nil : headSize 32 ([] : List (Part UInt8)) = 0 := rfl
    -- the next tail starts where this one ends
    have h_position : n + t₁.position = n + t.position + (tails [a.part]).length := by
      rw [ByteBuffer.position, h_written', ByteBuffer.position, Nat.add_assoc]
    obtain ⟨b', t', h_rest, h_b', h_t'⟩ := @ih b₁ t₁ h_acc.2 (by rw [h_position]; exact h_fit)
      (by rw [h_b.1]; omega) (by rw [h_t.1]; omega)
    rw [h_position] at h_b'
    refine ⟨b', t', ?_, ?_, ?_⟩
    · rw [List.map_cons, List.map_cons, List.zip_cons_cons, List.foldlM_cons]
      exact bind_eq_ok.mpr ⟨(b₁, t₁), h_first, h_rest⟩
    · rw [List.map_cons, heads_cons, ByteBuffer.extends_append]
      exact ⟨b₁, h_b, h_b'⟩
    · rw [List.map_cons, tails_cons, ByteBuffer.extends_append]
      exact ⟨t₁, h_t, h_t'⟩

/-- If each head is as large as announced, so are all of them. -/
theorem headSize_eq_headWidths {as : List Argument}
    (h : ∀ a ∈ as, a.part.headSize 32 = a.converter.headWidth) :
    headSize 32 (as.map Argument.part) = headWidths (as.map Argument.typeConverter) := by
  unfold headSize headWidths
  rw [List.map_map, List.map_map]
  exact congrArg List.sum (List.map_congr_left h)

/-- `encode` returns the text, if the arguments are as they are when it returns. -/
theorem encode_of_returns {as : List Argument} {text : List Char}
    (h_size : e.inputParametersHeadSize = BigInteger.intValue (headWidths e.inputParameters))
    (h_conv : as.map Argument.typeConverter = e.inputParameters) (h : e.Returns as text) :
    e.encode (as.map Argument.object) = .ok text := by
  have h_lt := h.headSize_lt
  have h_n : e.inputParametersHeadSize = (headSize 32 (as.map Argument.part) : ℕ) := by
    rw [h_size, ← h_conv, ← headSize_eq_headWidths h.full]
    exact intValue_of_lt ⟨by omega, by omega⟩
  obtain ⟨b, t, h_loop, h_b, h_t⟩ := @exists_encodeParameters e
    ⟨headSize 32 (as.map Argument.part), [], Nat.zero_le _⟩ ⟨1024, [], Nat.zero_le _⟩ _ h_n as
    h.accepted h.offsets (Nat.zero_add _).le ((Nat.zero_add _).le.trans h.tails_le)
  have h_heads : b.written = heads (fun k => word k) (headSize 32 (as.map Argument.part))
      (as.map Argument.part) := h_b.2
  have h_tails : t.written = tails (as.map Argument.part) := h_t.2
  have h_text : encodeBuffer b ++ encodeBuffer t =
      (headTail (fun k => word k) 32 (as.map Argument.part)).flatMap EthereumUtils.byteString := by
    unfold encodeBuffer ByteBuffer.flip
    rw [h_heads, h_tails, headTail, List.flatMap_append]
  have h_count : e.inputParameters.length = (as.map Argument.object).length := by
    rw [← h_conv, List.length_map, List.length_map]
  rw [h_conv] at h_loop
  -- the loop over the parameters is all there is to it, as their number is right
  unfold encode
  rw [h_n, h.text_eq, ← h_text, ← List.append_assoc]
  refine bind_eq_ok.mpr ⟨_, rfl, bind_eq_ok.mpr ⟨_, rfl, ?_⟩⟩
  dsimp only
  rw [if_neg (not_not.mpr h_count.symm)]
  exact bind_eq_ok.mpr ⟨(b, t), h_loop, rfl⟩

/-- **When `encode` returns**, for arguments of the classes that the converters take. -/
theorem encode_eq_ok_iff {as : List Argument} {text : List Char}
    (h_size : e.inputParametersHeadSize = BigInteger.intValue (headWidths e.inputParameters))
    (h_conv : as.map Argument.typeConverter = e.inputParameters) :
    e.encode (as.map Argument.object) = .ok text ↔ e.Returns as text := by
  refine ⟨fun h => ?_, encode_of_returns h_size h_conv⟩
  obtain ⟨as', h_conv', h_obj, h_returns⟩ := encode_returns h_size h
  rwa [Argument.ext_maps (h_conv.trans h_conv'.symm) h_obj.symm]

end FunctionEncoding

end Ethiso.Abi
