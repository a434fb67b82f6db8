import Ethiso.Abi.Encoding

/-!
# `decodeEvent` undoes `encode`

The hex text that `encode` returns is read into the bytes it was written from
(`decodeBuffer_hex`). In these, `decodeInputs` finds each static argument in its head
and each dynamic one at its offset, since the heads are exactly full
(`decodeInputs_heads`): the offset that was written is the position of the tail, and it
is beyond the mark, so that `reset` goes back to the heads.

`decodeEvent_undoes_encode` puts the two together for an event without indexed
parameters.
-/

namespace Ethiso.Abi

open EthereumUtils

/-! ### Hex -/

/-- A byte is written as two digits, which are read as this byte. -/
theorem byteString_eq (b : UInt8) :
    ∃ c c', byteString b = [c, c'] ∧ parseInt 16 [c, c'] = .ok b.toNat := by
  have h_table : ∀ n < 256, byteString (UInt8.ofNat n) =
      [(n / 16).digitChar, (n % 16).digitChar] ∧
      parseInt 16 [(n / 16).digitChar, (n % 16).digitChar] = .ok n := by decide +kernel
  have h_b := h_table b.toNat b.toNat_lt
  rw [UInt8.ofNat_toNat] at h_b
  exact ⟨_, _, h_b.1, h_b.2⟩

theorem length_byteString (b : UInt8) : (byteString b).length = 2 := by
  obtain ⟨c, c', h_eq, -⟩ := byteString_eq b
  rw [h_eq]
  rfl

/-- The text of bytes is twice as long. -/
theorem length_hex (bytes : List UInt8) : (bytes.flatMap byteString).length = 2 * bytes.length := by
  induction bytes with
  | nil => rfl
  | cons b bytes ih =>
    rw [List.flatMap_cons, List.length_append, length_byteString, ih, List.length_cons]
    omega

/-- The text of bytes determines them. -/
theorem hex_injective {bytes bytes' : List UInt8}
    (h : bytes.flatMap byteString = bytes'.flatMap byteString) : bytes = bytes' := by
  induction bytes generalizing bytes' with
  | nil =>
    have h_length := congrArg List.length h
    rw [length_hex, length_hex] at h_length
    exact (List.length_eq_zero_iff.mp (by simpa using h_length.symm)).symm
  | cons b bytes ih =>
    cases bytes' with
    | nil =>
      have h_length := congrArg List.length h
      rw [length_hex, length_hex] at h_length
      exact absurd h_length (by simp)
    | cons b' bytes' =>
      rw [List.flatMap_cons, List.flatMap_cons] at h
      -- two digits for each byte, which parse to the byte
      obtain ⟨h_first, h_rest⟩ :=
        List.append_inj h (by rw [length_byteString, length_byteString])
      obtain ⟨c, c', h_eq, h_parse⟩ := byteString_eq b
      obtain ⟨d, d', h_eq', h_parse'⟩ := byteString_eq b'
      rw [h_eq, h_eq'] at h_first
      rw [h_first, h_parse'] at h_parse
      have h_byte : b'.toNat = b.toNat := Int.ofNat.inj (Except.ok.inj h_parse)
      rw [UInt8.toNat_inj.mp h_byte, ih h_rest]

namespace FunctionEncoding

/-- **Digits are read back**, two at a time. By induction on the bytes. -/
theorem decodeDigits_hex {bytes : List UInt8} {b b' : ByteBuffer} (h : b.Extends bytes b') :
    decodeDigits b (bytes.flatMap byteString) = .ok b' := by
  induction bytes generalizing b with
  | nil =>
    obtain rfl := ByteBuffer.extends_nil.mp h
    rfl
  | cons x bytes ih =>
    obtain ⟨c, c', h_eq, h_parse⟩ := byteString_eq x
    have h_split : b.Extends ([x] ++ bytes) b' := h
    obtain ⟨b₁, h_first, h_rest⟩ := ByteBuffer.extends_append.mp h_split
    -- the parsed number is the byte, not its signed value
    have h_byte : UInt8.ofNat ((x.toNat : ℤ) % 256).toNat = x := by
      have h_lt := x.toNat_lt
      have h_mod : ((x.toNat : ℤ) % 256).toNat = x.toNat := by omega
      rw [h_mod, UInt8.ofNat_toNat]
    rw [List.flatMap_cons, h_eq]
    refine bind_eq_ok.mpr ⟨_, h_parse, ?_⟩
    rw [h_byte]
    refine bind_eq_ok.mpr ⟨b₁, ?_, ih h_rest⟩
    exact (@ByteBuffer.put_eq_ok b b₁ [x] 0 1 (Nat.le_refl 1)).mpr h_first

/-- The hex of some bytes is read into a buffer with these bytes. -/
theorem decodeBuffer_hex (bytes : List UInt8) :
    ∃ b, decodeBuffer ('0' :: 'x' :: bytes.flatMap byteString) = .ok b ∧
      b.flip = ⟨[], bytes, none⟩ := by
  have h_len : ('0' :: 'x' :: bytes.flatMap byteString).length / 2 = bytes.length + 1 := by
    rw [List.length_cons, List.length_cons, length_hex]
    omega
  -- two characters of the prefix make room for one byte more than there is
  unfold decodeBuffer
  rw [h_len]
  obtain ⟨b, h_b⟩ :=
    @ByteBuffer.exists_extends ⟨bytes.length + 1, [], Nat.zero_le _⟩ bytes (by simp)
  refine ⟨b, bind_eq_ok.mpr ⟨⟨bytes.length + 1, [], Nat.zero_le _⟩, rfl, ?_⟩, ?_⟩
  · exact decodeDigits_hex h_b
  · unfold ByteBuffer.flip
    rw [h_b.2]
    rfl

/-! ### Heads and tails -/

/-- Objects of one class with the same value, up to the case of addresses. -/
def SameObject (object object' : JavaObject) : Prop :=
  ∃ value, object' = ⟨object.typeClass, value⟩ ∧ SameValue object.typeClass object.value value

/-- Moving within the data, not in front of the mark. -/
theorem setPosition_eq {before after before' after' : List UInt8} {mark : Option ℕ}
    (h : before ++ after = before' ++ after') (h_mark : ∀ m ∈ mark, m ≤ before'.length) :
    FlippedBuffer.setPosition ⟨before, after, mark⟩ before'.length =
      .ok ⟨before', after', mark⟩ := by
  unfold FlippedBuffer.setPosition
  dsimp only
  rw [h, if_neg (by rw [List.length_append]; omega), Int.toNat_natCast, List.take_left,
    List.drop_left]
  -- the mark is kept: it does not lie behind the new position
  have h_filter : mark.filter (fun m : ℕ => decide ((m : ℤ) ≤ before'.length)) = mark := by
    cases mark with
    | none => rfl
    | some m => simpa using h_mark m rfl
  rw [h_filter]
  rfl

variable {c : JavaClass} {converter : TypeConverter c} {value : c.Value}
  {converters : List AnyTypeConverter} {objects : List JavaObject}
  {before content gap rest : List UInt8} {mark : Option ℕ}

/-- A dynamic parameter is read at its offset, and the position goes on behind the offset. -/
theorem decodeInputs_dynamic (h_dyn : converter.isDynamic = true)
    (h_reads : Reads converter.deserialise content value) {k : ℕ}
    (h_k : (before ++ (word k ++ gap)).length = k) (h_lt : k < 2 ^ 31)
    (h : decodeInputs converters ⟨before ++ word k, gap ++ (content ++ rest),
      some (before ++ word k).length⟩ = .ok objects) :
    decodeInputs (⟨c, converter⟩ :: converters)
      ⟨before, word k ++ (gap ++ (content ++ rest)), mark⟩ = .ok (⟨c, value⟩ :: objects) := by
  unfold decodeInputs
  rw [if_pos h_dyn]
  refine bind_eq_ok.mpr ⟨_, reads_length h_lt before _ mark, ?_⟩
  dsimp only [FlippedBuffer.setMark]
  rw [intValue_of_lt ⟨by omega, by omega⟩]
  -- to the tail, which is beyond the mark
  have h_to := @setPosition_eq (before ++ word k) (gap ++ (content ++ rest))
    (before ++ (word k ++ gap)) (content ++ rest) (some (before ++ word k).length)
    (by simp only [List.append_assoc]) (by simp)
  rw [h_k] at h_to
  refine bind_eq_ok.mpr ⟨_, h_to, ?_⟩
  refine bind_eq_ok.mpr ⟨_, h_reads _ rest _, ?_⟩
  -- and back to the mark
  have h_back := @setPosition_eq (before ++ (word k ++ gap) ++ content) rest
    (before ++ word k) (gap ++ (content ++ rest)) (some (before ++ word k).length)
    (by simp only [List.append_assoc]) (by simp)
  refine bind_eq_ok.mpr ⟨_, h_back, ?_⟩
  exact bind_eq_ok.mpr ⟨objects, h, rfl⟩

/-- An argument that is not dynamic is read where it stands. -/
theorem decodeInputs_static (h_dyn : ¬converter.isDynamic = true)
    (h_reads : Reads converter.deserialise content value)
    (h : decodeInputs converters ⟨before ++ content, rest, mark⟩ = .ok objects) :
    decodeInputs (⟨c, converter⟩ :: converters) ⟨before, content ++ rest, mark⟩ =
      .ok (⟨c, value⟩ :: objects) := by
  unfold decodeInputs
  rw [if_neg h_dyn]
  refine bind_eq_ok.mpr ⟨_, h_reads before rest mark, ?_⟩
  exact bind_eq_ok.mpr ⟨objects, h, rfl⟩

/-- `decodeInputs` reads the arguments from their heads and tails, when the heads read
so far are before the position, and the tails read so far are `done`. -/
theorem decodeInputs_heads {n : ℕ} {as : List Argument} {done : List UInt8}
    (h_acc : ∀ a ∈ as, a.Accepted) (h_readable : ∀ a ∈ as, Readable a.typeClass a.value)
    (h_n : n = before.length + headSize 32 (as.map Argument.part))
    (h_fit : OffsetsFit (n + done.length) as) (h_heads : n < 2 ^ 31)
    (h_tails : (tails (as.map Argument.part)).length < 2 ^ 31) :
    ∃ objects, decodeInputs (as.map Argument.typeConverter)
        ⟨before, heads (fun k => word k) (n + done.length) (as.map Argument.part) ++
          (done ++ tails (as.map Argument.part)), mark⟩ = .ok objects ∧
      List.Forall₂ SameObject (as.map Argument.object) objects := by
  induction as generalizing before done mark with
  | nil => exact ⟨[], rfl, .nil⟩
  | cons a as ih =>
    rw [List.forall_mem_cons] at h_acc h_readable
    obtain ⟨h_offset, h_fit⟩ := h_fit
    rw [List.map_cons, headSize_cons] at h_n
    rw [List.map_cons, tails_cons, List.length_append] at h_tails
    by_cases h_dyn : a.converter.isDynamic = true
    · have h_part : a.part.dynamic = true := h_dyn
      rw [tails_cons_dynamic h_part, tails, List.append_nil] at h_fit h_tails
      rw [Part.headSize, if_pos h_part] at h_n
      obtain ⟨value, h_reads, h_same⟩ := a.converter.exists_reads h_acc.1 h_readable.1
        (Nat.lt_of_le_of_lt (Nat.le_add_right _ _) h_tails)
      obtain ⟨objects, h_rest, h_all⟩ := @ih (before ++ word (n + done.length : ℕ))
        (some (before ++ word (n + done.length : ℕ)).length) (done ++ a.part.content) h_acc.2
        h_readable.2 (by rw [List.length_append, length_word]; omega)
        (by rw [List.length_append, ← Nat.add_assoc]; exact h_fit) (by omega)
      refine ⟨⟨_, value⟩ :: objects, ?_, .cons ⟨value, rfl, h_same⟩ h_all⟩
      rw [List.map_cons, List.map_cons, heads_cons_dynamic h_part, tails_cons_dynamic h_part]
      rw [List.length_append, ← Nat.add_assoc] at h_rest
      -- between the offset and the tail are the other heads and the tails read before
      set k := n + done.length with h_k
      set later := heads (fun k => word k) (k + a.part.content.length) (as.map Argument.part)
      have h_later : later.length = headSize 32 (as.map Argument.part) :=
        length_heads length_offset _ _
      have h_data : word k ++ later ++ (done ++ (a.part.content ++ tails (as.map Argument.part))) =
          word k ++ ((later ++ done) ++ (a.part.content ++ tails (as.map Argument.part))) := by
        simp only [List.append_assoc]
      rw [h_data]
      refine decodeInputs_dynamic h_dyn h_reads ?_ (h_offset h_dyn) ?_
      · simp only [List.length_append, length_word]
        omega
      · rw [← h_rest]
        simp only [List.append_assoc]
        rfl
    · have h_part : a.part.dynamic = false := Bool.eq_false_iff.mpr h_dyn
      rw [tails_cons_static h_part, tails, List.length_nil] at h_fit h_tails
      rw [Part.headSize, h_part, if_neg Bool.false_ne_true] at h_n
      obtain ⟨value, h_reads, h_same⟩ := a.converter.exists_reads h_acc.1 h_readable.1
        (Nat.lt_of_le_of_lt
          (Nat.le_add_right _ (before.length + headSize 32 (as.map Argument.part)))
          (by have : a.part.content.length = (a.converter.layout a.value).length := rfl; omega))
      obtain ⟨objects, h_rest, h_all⟩ := @ih (before ++ a.part.content) mark done h_acc.2
        h_readable.2 (by rw [List.length_append]; omega) h_fit (by omega)
      refine ⟨⟨_, value⟩ :: objects, ?_, .cons ⟨value, rfl, h_same⟩ h_all⟩
      rw [List.map_cons, List.map_cons, heads_cons_static h_part, tails_cons_static h_part,
        List.append_assoc]
      exact decodeInputs_static h_dyn h_reads h_rest

/-! ### The result -/

/-- A hash is `0x` and two digits for each byte of the digest. -/
theorem length_hash {digest : List UInt8 → List UInt8} (h_digest : ∀ m, (digest m).length = 32)
    {function : Function} (h_type : function.type ≠ CONSTRUCTOR) {hash : List Char}
    (h : hashOf digest function = .ok hash) : hash.length = 66 := by
  unfold hashOf at h
  rw [if_neg h_type] at h
  obtain ⟨signature, -, h_eq⟩ := bind_eq_ok.mp h
  rw [pure_eq_ok] at h_eq
  rw [← h_eq, List.length_cons, List.length_cons, length_hex, h_digest]

/-- **`decodeEvent` undoes `encode`.** If no parameter is indexed and `encode` returns, then
from a log entry with the encoded arguments as its data `decodeEvent` returns these
arguments, provided that the integers are below `2 ^ 255` and the strings well-formed. -/
theorem decodeEvent_undoes_encode (digest : List UInt8 → List UInt8)
    (h_digest : ∀ m, (digest m).length = 32) (function : Function)
    (h_type : function.type ≠ CONSTRUCTOR) (h_inputs : ∀ p ∈ function.inputs, p.indexed = false)
    (e : FunctionEncoding) (h_new : new digest function = .ok e) (args : List JavaObject)
    (h_readable : ∀ arg ∈ args, Readable arg.typeClass arg.value) (text : List Char)
    (h_encode : e.encode args = .ok text) (logEntry : LogEntry)
    (h_data : logEntry.data = String.ofList ('0' :: 'x' :: text.drop 10)) :
    ∃ results, e.decodeEvent logEntry = .ok results ∧ List.Forall₂ SameObject args results := by
  obtain ⟨h_built, h_hash⟩ := new_returns h_new
  obtain ⟨as, h_converters, h_objects, h_returns⟩ := encode_returns h_built.headSize h_encode
  have h_indexed : e.eventIndexedParameters = [] := by
    have h_none : function.inputs.filter (fun p => p.indexed) = [] :=
      List.filter_eq_nil_iff.mpr fun p hp => by rw [h_inputs p hp]; exact Bool.false_ne_true
    have h_all := h_built.eventIndexedParameters
    rw [h_none] at h_all
    exact List.forall₂_nil_left_iff.mp h_all
  -- behind the selector is the hex of the heads and tails
  have h_text : text.drop 10 =
      (headTail (fun k => word k) 32 (as.map Argument.part)).flatMap byteString := by
    have h_len := length_hash h_digest h_type h_hash
    have h_take : (e.hash.take 10).length = 10 := by rw [List.length_take, h_len]; rfl
    rw [h_returns.text_eq, List.drop_left' h_take]
  obtain ⟨b, h_buffer, h_flip⟩ :=
    decodeBuffer_hex (headTail (fun k => word k) 32 (as.map Argument.part))
  subst h_objects
  obtain ⟨results, h_results, h_same⟩ := @decodeInputs_heads [] none
    (headSize 32 (as.map Argument.part)) as [] h_returns.accepted
    (fun a ha => h_readable a.object (List.mem_map_of_mem ha)) (Nat.zero_add _).symm
    h_returns.offsets h_returns.headSize_lt (by have := h_returns.tails_le; omega)
  refine ⟨results, ?_, h_same⟩
  unfold decodeEvent
  rw [h_indexed, h_data, String.toList_ofList, h_text]
  refine bind_eq_ok.mpr ⟨[], rfl, bind_eq_ok.mpr ⟨b, h_buffer, ?_⟩⟩
  rw [h_flip, ← h_converters]
  exact bind_eq_ok.mpr ⟨results, h_results, rfl⟩

/-- The event `f(uint8,string)` with the arguments 7 and é. -/
theorem decodeEvent_undoes_encode_uint8_string :
    ∃ e text, encode e [⟨.bigInteger, (7 : ℤ)⟩, ⟨.string, JavaString.ofString "é"⟩] = .ok text ∧
      ∃ results, decodeEvent e ⟨"", [], String.ofList ('0' :: 'x' :: text.drop 10)⟩ = .ok results ∧
        List.Forall₂ SameObject [⟨.bigInteger, (7 : ℤ)⟩, ⟨.string, JavaString.ofString "é"⟩]
          results := by
  -- the digest of the signature, which the encoder takes from outside
  let digest : List UInt8 → List UInt8 := fun _ => [45, 81, 211, 11, 222, 62, 58, 220, 160, 208,
    140, 196, 152, 230, 213, 203, 201, 185, 244, 150, 82, 141, 90, 245, 123, 243, 249, 87, 227,
    179, 35, 225]
  let function : Function := ⟨"event".toList, some "f".toList,
    [⟨"uint8".toList, false⟩, ⟨"string".toList, false⟩], []⟩
  let args : List JavaObject := [⟨.bigInteger, (7 : ℤ)⟩, ⟨.string, JavaString.ofString "é"⟩]
  have h_run : (new digest function >>= fun e => e.encode args).toOption.isSome = true := by
    decide +kernel
  obtain ⟨text, h_ok⟩ := exists_ok_of_isSome h_run
  obtain ⟨e, h_new, h_encode⟩ := bind_eq_ok.mp h_ok
  -- the number has no sign bit and the text no unpaired surrogate
  have h_readable : ∀ arg ∈ args, Readable arg.typeClass arg.value := by
    refine List.forall_mem_cons.mpr ⟨?_, List.forall_mem_singleton.mpr ?_⟩
    · exact (by decide : (7 : ℤ) < 2 ^ 255)
    · exact JavaString.wellFormed_ofString "é"
  exact ⟨e, text, h_encode, decodeEvent_undoes_encode digest (fun _ => rfl) function (by decide)
    (by decide) e h_new args h_readable text h_encode _ rfl⟩

end FunctionEncoding

end Ethiso.Abi
