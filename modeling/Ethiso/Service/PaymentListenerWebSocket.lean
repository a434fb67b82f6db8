import Ethiso.Abi.Numerals
import Ethiso.Framework.Json
import Ethiso.Rpc.JsonRpcFactory
import Ethiso.Service.Payments

/-!
# Payments on the web socket

`PaymentListenerWebSocket` tells its sessions of a payment in a JSON text, which it prints with a
format string: the BICs and IBANs between quotes as they are, the amount as an `int`, and the
additional properties, which a JSON library has written.

A BIC or an IBAN is any string that is not empty (`StringType`), and an amount may be larger than
an `int`. The text says what the payment is exactly if there is nothing to escape, the amount is
an `int`, and the digits of the default locale are the ASCII ones, as `%d` prints those of the
locale (`messages_faithful`).

The JSON library is not in the repository; `writeValueAsString` is a parameter, as is whether a
session fails. A text is what `sendString` is given.
-/

namespace Ethiso

open Abi JavaString

/-- The default locale, as far as `%d` goes: the zero among its digits. -/
abbrev Locale := { zeroDigit : ℕ // zeroDigit ∈ Rpc.DIGIT_ZEROS }

/-- The digit of a numeral among those with the zero. -/
def localized (zeroDigit : ℕ) (c : Char) : UInt16 :=
  UInt16.ofNat (c.toNat - '0'.toNat + zeroDigit)

/-- What `%d` prints for an `int`. The sign is not localized. -/
def formatInt (zeroDigit : ℕ) (n : ℤ) : JavaString :=
  (if n < 0 then [0x2D] else []) ++ (numeral 10 n.natAbs).map (localized zeroDigit)

/-- What a payment listener is told. -/
structure ReceivedPayment (α : Type) where
  fromBic : StringType
  toBic : StringType
  fromIban : StringType
  toIban : StringType
  currency : Currency
  paymentAmount : ℤ
  additionalProperties : Properties α

section FormatInt

/-- A digit in the digits of a locale. -/
theorem localized_digitChar {d : ℕ} (h : d < 10) (zeroDigit : ℕ) :
    localized zeroDigit d.digitChar = UInt16.ofNat (d + zeroDigit) := by
  have h_digit : ∀ d < 10, d.digitChar.toNat - '0'.toNat = d := by decide
  unfold localized
  rw [h_digit d h]

/-- No two locales share a digit with ASCII. -/
theorem Locale.cases (locale : Locale) :
    locale.1 = 0x30 ∨ (0x100 ≤ locale.1 ∧ locale.1 + 10 ≤ 2 ^ 16) := by
  have h_all : ∀ z ∈ Rpc.DIGIT_ZEROS, z = 0x30 ∨ (0x100 ≤ z ∧ z + 10 ≤ 2 ^ 16) := by decide
  exact h_all locale.1 locale.2

theorem toNat_localized (locale : Locale) {d : ℕ} (h : d < 10) :
    (UInt16.ofNat (d + locale.1)).toNat = d + locale.1 := by
  apply UInt16.toNat_ofNat_of_lt'
  have h_locale := locale.cases
  unfold UInt16.size
  omega

/-- What is printed, by the digits. -/
theorem exists_formatInt (zeroDigit : ℕ) (n : ℤ) : ∃ ds : List ℕ, ds ≠ [] ∧ (∀ d ∈ ds, d < 10) ∧
    ofBigEndian 10 ds = n.natAbs ∧ formatInt zeroDigit n =
      (if n < 0 then [0x2D] else []) ++ ds.map fun d => UInt16.ofNat (d + zeroDigit) := by
  obtain ⟨ds, h_ne, h_lt, h_eq, h_value⟩ := digits_numeral n.natAbs
  refine ⟨ds, h_ne, h_lt, h_value, ?_⟩
  unfold formatInt
  rw [h_eq, List.map_map]
  congr 1
  refine List.map_congr_left fun d h_d => ?_
  exact localized_digitChar (h_lt d h_d) zeroDigit

/-- The text of a big integer has ASCII digits. -/
theorem toString_eq (n : ℤ) :
    (BigInteger.toString 10 n).flatMap utf16 = formatInt 0x30 n := by
  have h_digits : (numeral 10 n.natAbs).flatMap utf16 =
      (numeral 10 n.natAbs).map (localized 0x30) := by
    obtain ⟨ds, -, h_lt, h_eq, -⟩ := digits_numeral n.natAbs
    have h_digit : ∀ d < 10, utf16 d.digitChar = [localized 0x30 d.digitChar] := by decide
    -- the digits of the numeral, one by one
    rw [h_eq, List.flatMap_map, List.map_map, List.map_eq_flatMap]
    refine List.flatMap_congr fun d h_d => ?_
    exact h_digit d (h_lt d h_d)
  unfold BigInteger.toString formatInt
  -- the sign is written by itself
  by_cases h : n < 0
  · rw [if_pos h, if_pos h, List.flatMap_cons, h_digits]
    rfl
  · rw [if_neg h, if_neg h, h_digits]
    rfl

/-- Digits are read back from their code units, if one of them is an ASCII digit. -/
theorem digits_injective {locale : Locale} {ds ds' : List ℕ} (h_ne : ds ≠ [])
    (h_lt : ∀ d ∈ ds, d < 10) (h_lt' : ∀ d ∈ ds', d < 10)
    (h : (ds.map fun d => UInt16.ofNat (d + locale.1)) = ds'.map fun d => UInt16.ofNat (d + 0x30)) :
    locale.1 = 0x30 ∧ ds = ds' := by
  -- the numbers of the code units
  have h_nat : (ds.map fun d => d + locale.1) = ds'.map fun d => d + 0x30 := by
    have h_map := congrArg (List.map UInt16.toNat) h
    rw [List.map_map, List.map_map] at h_map
    rw [List.map_congr_left (g := UInt16.toNat ∘ fun d => UInt16.ofNat (d + locale.1))
        fun d h_d => (toNat_localized locale (h_lt d h_d)).symm, h_map]
    exact List.map_congr_left fun d h_d =>
      toNat_localized ⟨0x30, by decide⟩ (h_lt' d h_d)
  have h_zero : locale.1 = 0x30 := by
    obtain ⟨d, ds, rfl⟩ := List.exists_cons_of_ne_nil h_ne
    cases ds' with
    | nil => cases h_nat
    | cons d' ds' =>
      have h_head : d + locale.1 = d' + 0x30 := (List.cons.inj h_nat).1
      have h_d := h_lt d List.mem_cons_self
      have h_d' := h_lt' d' List.mem_cons_self
      have h_locale := locale.cases
      omega
  refine ⟨h_zero, ?_⟩
  rw [h_zero] at h_nat
  exact List.map_injective_iff.mpr (fun x y h => Nat.add_right_cancel h) h_nat

/-- A number in the digits of a locale is the text of `toString` in latin digits only. -/
theorem formatInt_injective {locale : Locale} {m n : ℤ}
    (h : formatInt locale m = formatInt 0x30 n) : locale.1 = 0x30 ∧ m = n := by
  obtain ⟨ds, h_ne, h_lt, h_value, h_m⟩ := exists_formatInt locale m
  obtain ⟨ds', h_ne', h_lt', h_value', h_n⟩ := exists_formatInt 0x30 n
  rw [h_m, h_n] at h
  -- a digit is no sign
  have h_sign : ∀ (locale : Locale) (ds : List ℕ), (∀ d ∈ ds, d < 10) → ∀ t,
      0x2D :: t ≠ ds.map fun d => UInt16.ofNat (d + locale.1) := by
    intro locale ds h_lt t h_eq
    cases ds with
    | nil => cases h_eq
    | cons d ds =>
      have h_head := congrArg UInt16.toNat (List.cons.inj h_eq).1
      rw [toNat_localized locale (h_lt d List.mem_cons_self)] at h_head
      have h_locale := locale.cases
      change 0x2D = _ at h_head
      omega
  by_cases h_neg : m < 0 <;> by_cases h_neg' : n < 0
  · rw [if_pos h_neg, if_pos h_neg'] at h
    obtain ⟨h_zero, rfl⟩ := digits_injective h_ne h_lt h_lt' (List.cons.inj h).2
    exact ⟨h_zero, by omega⟩
  · rw [if_pos h_neg, if_neg h_neg'] at h
    exact absurd h (h_sign ⟨0x30, by decide⟩ ds' h_lt' _)
  · rw [if_neg h_neg, if_pos h_neg'] at h
    exact absurd h.symm (h_sign locale ds h_lt _)
  · rw [if_neg h_neg, if_neg h_neg'] at h
    obtain ⟨h_zero, rfl⟩ := digits_injective h_ne h_lt h_lt' h
    exact ⟨h_zero, by omega⟩

/-- What is printed is the text of the number if and only if it has ASCII digits and the number
is an `int`. -/
theorem formatInt_intValue_iff {locale : Locale} {n : ℤ} :
    formatInt locale (BigInteger.intValue n) = formatInt 0x30 n ↔
      (-2 ^ 31 ≤ n ∧ n < 2 ^ 31) ∧ locale.1 = 0x30 := by
  have h_int : BigInteger.intValue n = n ↔ -2 ^ 31 ≤ n ∧ n < 2 ^ 31 := by
    unfold BigInteger.intValue
    rw [Int.bmod_def]
    omega
  rw [← h_int]
  refine ⟨?_, ?_⟩
  · intro h
    exact (formatInt_injective h).symm
  · rintro ⟨h_n, h_zero⟩
    rw [h_n, h_zero]

/-- There is nothing to escape in what is printed. -/
theorem plain_formatInt (locale : Locale) (n : ℤ) : Json.IsPlain (formatInt locale n) := by
  obtain ⟨ds, -, h_lt, -, h_n⟩ := exists_formatInt locale n
  rw [h_n]
  intro u h_u
  rcases List.mem_append.mp h_u with h_u | h_u
  -- the sign of a negative number, then its digits
  · by_cases h_neg : n < 0
    · rw [if_pos h_neg] at h_u
      rw [List.mem_singleton.mp h_u]
      decide
    · rw [if_neg h_neg] at h_u
      cases h_u
  · obtain ⟨d, h_d, rfl⟩ := List.mem_map.mp h_u
    have h_nat := toNat_localized locale (h_lt d h_d)
    have h_d := h_lt d h_d
    have h_locale := locale.cases
    generalize UInt16.ofNat (d + locale.1) = u at h_nat ⊢
    simp only [Json.isPlain, Bool.and_eq_true, decide_eq_true_eq, bne_iff_ne, ne_eq]
    refine ⟨⟨by omega, ?_⟩, ?_⟩
    -- no digit is a quote or a backslash
    · rintro rfl
      change 0x22 = _ at h_nat
      omega
    · rintro rfl
      change 0x5C = _ at h_nat
      omega

end FormatInt

namespace PaymentListenerWebSocket

variable {α σ : Type}

/-- `String.format`, with the text of the additional properties. -/
def message (locale : Locale) (p : ReceivedPayment α) (ref : JavaString) : JavaString :=
  List.flatten [ofString "\x7b\"tk\":\"end\",\"fromBic\":\"", p.fromBic,
    ofString "\",\"toBic\":\"", p.toBic, ofString "\",\"fromIban\":\"", p.fromIban,
    ofString "\",\"toIban\":\"", p.toIban, ofString "\",\"amt\":\"",
    formatInt locale (BigInteger.intValue p.paymentAmount), ofString "\",\"ccy\":\"",
    ofString p.currency.toString, ofString "\",\"ref\":", ref, ofString "\x7d"]

/-- The loop over the sessions. An exception of `sendString` ends it. -/
def sendAll (sendString : σ → JavaString → Bool) (message : JavaString) :
    List σ → List (σ × JavaString)
  | [] => []
  | session :: sessions =>
    (session, message) ::
      if sendString session message then sendAll sendString message sessions else []

/-- The texts that `sendString` is given. Nothing is sent if `writeValueAsString` throws. -/
def paymentReceived (locale : Locale) (writeValueAsString : Properties α → Option JavaString)
    (sendString : σ → JavaString → Bool) (sessions : List σ) (p : ReceivedPayment α) :
    List (σ × JavaString) :=
  match writeValueAsString p.additionalProperties with
  | none => []
  | some ref => sendAll sendString (message locale p ref) sessions

/-! ### What a text says -/

/-- The members that are to say what the payment is. -/
def members (p : ReceivedPayment α) : List (JavaString × JavaString) :=
  [(ofString "fromBic", p.fromBic), (ofString "toBic", p.toBic),
    (ofString "fromIban", p.fromIban), (ofString "toIban", p.toIban),
    (ofString "amt", (BigInteger.toString 10 p.paymentAmount).flatMap JavaString.utf16),
    (ofString "ccy", ofString p.currency.toString)]

/-- The text parses as an object in which the members are these strings. -/
def Faithful (p : ReceivedPayment α) (text : JavaString) : Prop :=
  ∃ l, Json.Parses text (.object l) ∧
    ∀ x ∈ members p, ∀ v, (x.1, v) ∈ l ↔ v = .string x.2

/-- There is nothing to escape, and the amount is an `int` in ASCII digits. -/
structure Printable (locale : Locale) (p : ReceivedPayment α) : Prop where
  fromBic : Json.IsPlain p.fromBic
  toBic : Json.IsPlain p.toBic
  fromIban : Json.IsPlain p.fromIban
  toIban : Json.IsPlain p.toIban
  paymentAmount : -2 ^ 31 ≤ p.paymentAmount ∧ p.paymentAmount < 2 ^ 31
  zeroDigit : locale.1 = 0x30

variable {locale : Locale} {p : ReceivedPayment α} {ref : JavaString}

/-! ### What is printed -/

/-- The members that are printed as they are. -/
def printed (locale : Locale) (p : ReceivedPayment α) : List (JavaString × JavaString) :=
  [(ofString "tk", ofString "end"), (ofString "fromBic", p.fromBic), (ofString "toBic", p.toBic),
    (ofString "fromIban", p.fromIban), (ofString "toIban", p.toIban),
    (ofString "amt", formatInt locale (BigInteger.intValue p.paymentAmount)),
    (ofString "ccy", ofString p.currency.toString)]

/-- The message: the members and the reference behind them. -/
theorem message_eq : message locale p ref =
    Json.openBrace :: (Json.memberTexts (printed locale p) ++ Json.quote ::
      (ofString "ref" ++ Json.quote :: Json.colon :: (ref ++ [Json.closeBrace]))) := by
  unfold printed
  simp only [Json.memberTexts_cons]
  rfl

/-- The names of members are plain. -/
theorem plain_name : ∀ x ∈ printed locale p, Json.IsPlain x.1 := by
  have h_names : ∀ k ∈ ["tk", "fromBic", "toBic", "fromIban", "toIban", "amt", "ccy"].map ofString,
      Json.IsPlain k := by
    decide
  intro x h_x
  exact h_names x.1 (List.mem_map_of_mem (f := Prod.fst) h_x)

theorem plain_currency (c : Currency) : Json.IsPlain (ofString c.toString) := by
  cases c <;> decide

/-- What is printed between quotes has nothing to escape, but for the BICs and IBANs. -/
theorem plain_printed (h : Json.IsPlain p.fromBic ∧ Json.IsPlain p.toBic ∧
    Json.IsPlain p.fromIban ∧ Json.IsPlain p.toIban) :
    ∀ x ∈ printed locale p, Json.IsPlain x.2 := by
  obtain ⟨h_fromBic, h_toBic, h_fromIban, h_toIban⟩ := h
  unfold printed
  simp only [List.forall_mem_cons]
  refine ⟨?_, h_fromBic, h_toBic, h_fromIban, h_toIban, plain_formatInt _ _, plain_currency _, ?_⟩
  · decide
  · intro x h_x
    cases h_x

/-- The text of a payment with nothing to escape, as an object. -/
theorem isText_message {j : Json.Value} (h_ref : Json.IsText ref j)
    (h : ∀ x ∈ printed locale p, Json.IsPlain x.2) :
    Json.IsText (message locale p ref)
      (.object ((printed locale p).map (fun x => (x.1, .string x.2)) ++
        [(ofString "ref", j)])) := by
  rw [message_eq]
  refine Json.isText_object (Json.reads_memberTexts (fun x h_x => ⟨plain_name x h_x, h x h_x⟩) ?_)
  refine Json.reads_lastMember ?_ h_ref
  decide

/-- A faithful text has nothing to escape. -/
theorem plain_of_faithful (h : Faithful p (message locale p ref)) :
    Json.IsPlain p.fromBic ∧ Json.IsPlain p.toBic ∧ Json.IsPlain p.fromIban ∧
      Json.IsPlain p.toIban := by
  obtain ⟨l, h_parses, h_l⟩ := h
  have h_text := (h_parses (.object l)).mpr rfl
  rw [message_eq] at h_text
  obtain ⟨t, h_t⟩ := Json.exists_memberTexts (printed locale p)
    (ofString "ref" ++ Json.quote :: Json.colon :: (ref ++ [Json.closeBrace]))
  rw [h_t] at h_text
  obtain ⟨r, h_read⟩ := Json.members_of_isText h_text
  rw [← h_t] at h_read
  -- the members that are not to be relied on have nothing to escape
  have h_others : ∀ x ∈ printed locale p,
      Json.IsPlain x.2 ∨ ∀ v, (x.1, v) ∈ l → v = .string x.2 := by
    simp only [members, List.forall_mem_cons] at h_l
    obtain ⟨h_fromBic, h_toBic, h_fromIban, h_toIban, -⟩ := h_l
    unfold printed
    simp only [List.forall_mem_cons]
    refine ⟨Or.inl ?_, Or.inr fun v => (h_fromBic v).mp, Or.inr fun v => (h_toBic v).mp,
      Or.inr fun v => (h_fromIban v).mp, Or.inr fun v => (h_toIban v).mp,
      Or.inl (plain_formatInt _ _), Or.inl (plain_currency _), ?_⟩
    · decide
    · intro x h_x
      cases h_x
  have h_plain := Json.plain_of_reads plain_name h_read h_others
  unfold printed at h_plain
  simp only [List.forall_mem_cons] at h_plain
  obtain ⟨-, h_fromBic, h_toBic, h_fromIban, h_toIban, -⟩ := h_plain
  exact ⟨h_fromBic, h_toBic, h_fromIban, h_toIban⟩

/-- What a text with nothing to escape says is what is printed. -/
theorem faithful_iff_of_plain {j : Json.Value} (h_ref : Json.IsText ref j)
    (h : Json.IsPlain p.fromBic ∧ Json.IsPlain p.toBic ∧ Json.IsPlain p.fromIban ∧
      Json.IsPlain p.toIban) :
    Faithful p (message locale p ref) ↔
      formatInt locale (BigInteger.intValue p.paymentAmount) = formatInt 0x30 p.paymentAmount := by
  have h_text := @isText_message _ locale p ref j h_ref (plain_printed h)
  generalize h_all : (printed locale p).map (fun x => (x.1, Json.Value.string x.2)) ++
    [(ofString "ref", j)] = all at h_text
  -- no two members have one name
  have h_nodup : (all.map Prod.fst).Nodup := by
    rw [← h_all]
    exact (by decide : ((["tk", "fromBic", "toBic", "fromIban", "toIban", "amt", "ccy",
      "ref"]).map ofString).Nodup)
  have h_mem : ∀ x ∈ printed locale p, ∀ v, (x.1, v) ∈ all ↔ v = .string x.2 := by
    intro x h_x v
    have h_x_all : (x.1, Json.Value.string x.2) ∈ all := by
      rw [← h_all]
      exact List.mem_append_left _ (List.mem_map_of_mem h_x)
    refine ⟨?_, ?_⟩
    · intro h_v
      exact (Prod.mk.inj (List.inj_on_of_nodup_map h_nodup h_v h_x_all rfl)).2
    · rintro rfl
      exact h_x_all
  refine ⟨?_, ?_⟩
  · rintro ⟨l, h_parses, h_l⟩
    obtain rfl := Json.Value.object.inj ((h_parses _).mp h_text)
    have h_amount := h_l (ofString "amt", (BigInteger.toString 10 p.paymentAmount).flatMap utf16)
      (by simp [members])
    have h_printed := h_mem (ofString "amt", formatInt locale (BigInteger.intValue p.paymentAmount))
      (by simp [printed])
    rw [← toString_eq]
    exact Json.Value.string.inj ((h_amount _).mp ((h_printed _).mpr rfl))
  · intro h_amount
    have h_members : members p = (printed locale p).tail := by
      unfold members
      rw [toString_eq, ← h_amount]
      rfl
    refine ⟨all, h_text.parses, fun x h_x => h_mem x ?_⟩
    rw [h_members] at h_x
    exact List.mem_of_mem_tail h_x

/-- The text of a payment says what the payment is if and only if it is printable. -/
theorem faithful_message_iff {j : Json.Value} (h_ref : Json.IsText ref j) :
    Faithful p (message locale p ref) ↔ Printable locale p := by
  refine ⟨?_, ?_⟩
  · intro h
    have h_plain := plain_of_faithful h
    obtain ⟨h_amount, h_zero⟩ :=
      formatInt_intValue_iff.mp ((faithful_iff_of_plain h_ref h_plain).mp h)
    obtain ⟨h_fromBic, h_toBic, h_fromIban, h_toIban⟩ := h_plain
    exact ⟨h_fromBic, h_toBic, h_fromIban, h_toIban, h_amount, h_zero⟩
  · intro h
    refine (faithful_iff_of_plain h_ref ⟨h.fromBic, h.toBic, h.fromIban, h.toIban⟩).mpr ?_
    exact formatInt_intValue_iff.mpr ⟨h.paymentAmount, h.zeroDigit⟩

/-! ### What is sent -/

/-- All sessions get the same text. -/
theorem eq_of_mem_sendAll {sendString : σ → JavaString → Bool} {text : JavaString}
    {sessions : List σ} {x : σ × JavaString} (h : x ∈ sendAll sendString text sessions) :
    x.2 = text := by
  induction sessions with
  | nil => cases h
  | cons session sessions ih =>
    rcases List.mem_cons.mp h with rfl | h
    · rfl
    · by_cases h_sent : sendString session text = true
      · rw [if_pos h_sent] at h
        exact ih h
      · rw [if_neg h_sent] at h
        cases h

/-- **Messages.** Whatever the payment, the sessions and the locale, each text that is sent says
what the payment is if and only if the payment is printable. -/
theorem messages_faithful (locale : Locale) (writeValueAsString : Properties α → Option JavaString)
    (sendString : σ → JavaString → Bool) (sessions : List σ) (p : ReceivedPayment α)
    (h_ref : ∀ ref, writeValueAsString p.additionalProperties = some ref →
      ∃ j, Json.IsText ref j) :
    ∀ x ∈ paymentReceived locale writeValueAsString sendString sessions p,
      Faithful p x.2 ↔ Printable locale p := by
  intro x h_x
  unfold paymentReceived at h_x
  -- without the properties there is no message
  cases h_write : writeValueAsString p.additionalProperties with
  | none =>
    rw [h_write] at h_x
    cases h_x
  | some ref =>
    rw [h_write] at h_x
    obtain ⟨j, h_j⟩ := h_ref ref h_write
    rw [eq_of_mem_sendAll h_x]
    exact faithful_message_iff h_j

/-! ### Two payments -/

/-- A payment with this BIC. -/
def paymentFrom (fromBic : StringType) : ReceivedPayment Empty where
  fromBic := fromBic
  toBic := ⟨ofString "K", by decide⟩
  fromIban := ⟨ofString "L", by decide⟩
  toIban := ⟨ofString "M", by decide⟩
  currency := .EUR
  paymentAmount := 12
  additionalProperties _ := none

/-- A locale with latin digits. -/
def english : Locale := ⟨0x30, List.mem_cons_self⟩

/-- The texts sent to a session, when the additional properties are none. -/
def sent (fromBic : StringType) : List (Unit × JavaString) :=
  paymentReceived english (fun _ => some (ofString "\x7b\x7d")) (fun _ _ => true) [()]
    (paymentFrom fromBic)

/-- Twelve euros are written faithfully. -/
theorem messages_faithful_twelveEuros :
    ∃ x ∈ sent ⟨ofString "P", by decide⟩, Faithful (paymentFrom ⟨ofString "P", by decide⟩) x.2 := by
  refine ⟨_, List.mem_cons_self, (messages_faithful english
    (fun _ => some (ofString "\x7b\x7d")) (fun _ _ => true) [()] _ ?_ _
    List.mem_cons_self).mpr ?_⟩
  · rintro ref ⟨⟩
    exact ⟨.object [], .item .done (.noMembers .done) .done⟩
  · exact ⟨by decide, by decide, by decide, by decide, by decide, rfl⟩

/-- A BIC that is a quote ends the string that it is printed in. -/
theorem not_faithful_quote :
    ¬∀ x ∈ sent ⟨ofString "\"", by decide⟩,
      Faithful (paymentFrom ⟨ofString "\"", by decide⟩) x.2 := by
  intro h
  have h_plain := (plain_of_faithful (h _ List.mem_cons_self)).1
  exact absurd (h_plain Json.quote List.mem_cons_self) (by decide)

end PaymentListenerWebSocket

end Ethiso
