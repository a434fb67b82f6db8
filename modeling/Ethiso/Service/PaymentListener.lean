import Ethiso.Service.Payments

/-!
# Which payments a bank is told of

The handler of `PaymentMessage` does not look at the payee of the event. It takes the BIC of
the payee from the additional properties, which the payer writes, and asks the
registrar for the address of this BIC when the event is delivered. The listener is told of the
payment if the text of this address is that of the bank's account.

The contract, the registrar and the payment service of one bank are a machine here. Anybody
calls the contract and changes the registrar at any time, and events are delivered in any
order and any number of times. `paymentListener_designated` says of every delivery whether
the listener is told of the event; the addresses are those that were registered last.

The contract says that a payment message is only acted upon at the bank of the payee. So it is
in the runs whose delivered payments name their payee by BIC, and in no others
(`paymentListener_credited_iff`).
-/

namespace Ethiso

open Abi PaymentServiceImpl TypeConverterUtils

namespace PaymentListener

variable {α : Type}

/-! ### The machine -/

/-- The contract, the registered names, and what the listener was told. -/
structure State (α : Type) where
  world : World
  registrar : NameToAddressRegistrar
  invocations : List (PaymentNotification α)

/-- What happens. -/
inductive Input
  | call (sender : Address) (call : TrustlineCall)
  | setAddress (name : List UInt8) (a : Address)
  | deliver (i : ℕ)

namespace State

/-- Nothing has happened. -/
def init : State α := ⟨.init, .empty, []⟩

/-- The handler of `registerPaymentListener`: it tells the listener, or does nothing. -/
def deliver (readValue : JavaString → Java (Option (Properties α))) (fromAccount : RpcAddress)
    (s : State α) (e : Event) : State α :=
  { s with
    invocations := s.invocations ++
      (e.paymentNotification readValue s.registrar fromAccount).toList }

/-- One step. -/
def step (readValue : JavaString → Java (Option (Properties α))) (fromAccount : RpcAddress)
    (s : State α) : Input → State α
  | .call sender call => { s with world := s.world.step (sender, call) }
  | .setAddress name a => { s with registrar := s.registrar.setAddress name a }
  | .deliver i =>
    match s.world.log[i]? with
    | none => s
    | some e => s.deliver readValue fromAccount e

/-- The state after a list of inputs. -/
abbrev after (readValue : JavaString → Java (Option (Properties α))) (fromAccount : RpcAddress)
    (inputs : List Input) : State α :=
  run (step readValue fromAccount) init inputs

end State

/-! ### What the listener is told -/

/-- The address that the input registers for the name. -/
def Input.registers (name : List UInt8) : Input → Option Address
  | .setAddress n a => if n = name then some a else none
  | _ => none

/-- The address that was registered last for the name, zero if there is none. -/
def registered (inputs : List Input) (name : List UInt8) : Address :=
  latest (Input.registers name) 0 inputs

/-- The notification has the amount, the currency and the properties of the event, of which
four are texts and not empty, and the BIC of the payee has this account. -/
structure Designates (readValue : JavaString → Java (Option (Properties α)))
    (fromAccount : RpcAddress) (addressOf : List UInt8 → Address) (amount : Int256)
    (ccy additionalProperties : String) (n : PaymentNotification α) : Prop where
  currency : n.currency.toString = ccy
  amount : n.amount = amount.toInt
  properties : readValue (.ofString additionalProperties) = .ok (some n.additionalProperties)
  fromBic : n.additionalProperties FROM_BIC = some (.string n.fromBic)
  toBic : n.additionalProperties TO_BIC = some (.string n.toBic)
  fromIban : n.additionalProperties FROM_IBAN = some (.string n.fromIban)
  toIban : n.additionalProperties TO_IBAN = some (.string n.toIban)
  length_le : n.toBic.1.getBytes.length ≤ 992
  account : (addressOf n.toBic.1.getBytes).toRpc = fromAccount

/-- The event is a payment that designates the account. -/
def Designated (readValue : JavaString → Java (Option (Properties α))) (fromAccount : RpcAddress)
    (inputs : List Input) (e : Event) : Prop :=
  ∃ fromBank toBank messageId amount ccy properties n,
    e = .paymentMessage fromBank toBank messageId amount ccy properties ∧
      Designates readValue fromAccount (registered inputs) amount ccy properties n

/-- The event is a payment to the account. -/
def Credited (fromAccount : RpcAddress) (e : Event) : Prop :=
  ∃ fromBank messageId amount ccy properties,
    e = .paymentMessage fromBank (.ofRpc fromAccount) messageId amount ccy properties

/-- If the input delivers an event, then this is a payment to the account if and only if the payer
names the account by BIC. -/
def NamesPayee (readValue : JavaString → Java (Option (Properties α))) (fromAccount : RpcAddress)
    (pre : List Input) (i : Input) : Prop :=
  ∀ k e, i = .deliver k → (State.after readValue fromAccount pre).world.log[k]? = some e →
    (Designated readValue fromAccount pre e ↔ Credited fromAccount e)

/-- The listener is told of the event once, with its amount and currency. -/
def ToldOnce (e : Event) (told : List (PaymentNotification α)) : Prop :=
  ∃ n fromBank toBank messageId amount properties, told = [n] ∧ n.amount = amount.toInt ∧
    e = .paymentMessage fromBank toBank messageId amount n.currency.toString properties

/-- The input makes the listener be told of an event if it delivers one that meets `P`, and
else of nothing. -/
def TellsIf (readValue : JavaString → Java (Option (Properties α))) (fromAccount : RpcAddress)
    (P : List Input → Event → Prop) (pre : List Input) (i : Input) : Prop :=
  ∃ told, (State.after readValue fromAccount (pre ++ [i])).invocations =
      (State.after readValue fromAccount pre).invocations ++ told ∧
    ((∃ k e, i = .deliver k ∧ (State.after readValue fromAccount pre).world.log[k]? = some e ∧
        P pre e ∧ ToldOnce e told) ∨
      ((∀ k e, i = .deliver k → (State.after readValue fromAccount pre).world.log[k]? = some e →
        ¬P pre e) ∧ told = []))

/-! ### The registrar -/

/-- **When a name can be looked up**: its length and its bytes have to fit into 1024 bytes. -/
theorem encode_getAddress (name : JavaString) :
    (∃ text, getAddressEncoding.encode [⟨.string, name⟩] = .ok text) ↔
      name.getBytes.length ≤ 992 := by
  have h_layout : (TypeConverter.string.layout name).length =
      32 + (padded name.getBytes).length := by
    show (Abi.word name.getBytes.length ++ padded name.getBytes).length = _
    rw [List.length_append, length_word]
  refine ⟨?_, ?_⟩
  · rintro ⟨text, h⟩
    obtain ⟨as, h_converters, h_objects, h_returns⟩ :=
      Abi.FunctionEncoding.encode_returns (by decide) h
    -- there is one argument, the name
    obtain ⟨⟨c, converter, value⟩, rest, rfl, h_converter, h_rest⟩ :=
      List.map_eq_cons_iff.mp h_converters
    obtain rfl := List.map_eq_nil_iff.mp h_rest
    obtain ⟨rfl, h_value⟩ := JavaObject.mk.inj (List.singleton_inj.mp h_objects)
    obtain rfl : name = value := (eq_of_heq h_value).symm
    obtain rfl := eq_of_heq (Sigma.mk.inj h_converter).2
    have h_tails : (TypeConverter.string.layout name).length ≤ 1024 := by
      have h_le := h_returns.tails_le
      simpa [tails, Argument.part, TypeConverter.isDynamic] using h_le
    have h_padded := le_length_padded name.getBytes
    omega
  · intro h
    -- 992 bytes are 31 words, and the length is one more
    have h_padded : (padded name.getBytes).length ≤ 992 := by
      unfold padded
      rw [List.length_append, List.length_replicate]
      omega
    obtain ⟨t, h_t⟩ := @ByteBuffer.exists_extends ⟨1024, [], Nat.zero_le _⟩
      (TypeConverter.string.layout name) (by rw [h_layout]; simp; omega)
    obtain ⟨b, h_b⟩ := @ByteBuffer.exists_extends ⟨32, [], Nat.zero_le _⟩ (Abi.word 32)
      (by rw [length_word]; simp)
    have h_accepts : TypeConverter.string.Accepts name := by
      show name.getBytes.length < 2 ^ 256
      omega
    have h_tail : TypeConverter.string.serialise ⟨1024, [], Nat.zero_le _⟩ ⟨.string, name⟩ =
        .ok t :=
      (TypeConverter.serialise_eq_ok _).mpr ⟨name, rfl, h_accepts, h_t⟩
    have h_head : UIntTypeConverter.serialiseType Abi.FunctionEncoding.DYNAMIC_OFFSET_SIZE
        ⟨32, [], Nat.zero_le _⟩ 32 = .ok b :=
      (UIntTypeConverter.serialiseType_eq_ok (Nat.le_refl 256)).mpr ⟨⟨by decide, by decide⟩, h_b⟩
    have h_parameter : getAddressEncoding.encodeParameter
        (⟨32, [], Nat.zero_le _⟩, ⟨1024, [], Nat.zero_le _⟩) (⟨.string, .string⟩, ⟨.string, name⟩) =
          .ok (b, t) :=
      bind_eq_ok.mpr ⟨t, h_tail, bind_eq_ok.mpr ⟨b, h_head, rfl⟩⟩
    refine ⟨_, bind_eq_ok.mpr ⟨_, rfl, bind_eq_ok.mpr ⟨_, rfl, bind_eq_ok.mpr ⟨(b, t), ?_, rfl⟩⟩⟩⟩
    exact bind_eq_ok.mpr ⟨_, h_parameter, rfl⟩

/-- The lookup of a name, whose bytes have to fit into the call. -/
theorem getAddress_eq_ok {registrar : NameToAddressRegistrar} {name : JavaString} {a : RpcAddress} :
    getAddress registrar name = .ok a ↔
      name.getBytes.length ≤ 992 ∧ (registrar.getAddress name.getBytes).toRpc = a := by
  unfold getAddress
  rw [bind_eq_ok, ← encode_getAddress]
  simp only [pure_eq_ok, exists_and_right]

/-- **The registrar** after a run has what was registered last. -/
theorem registrar_after (readValue : JavaString → Java (Option (Properties α)))
    (fromAccount : RpcAddress) (inputs : List Input) (name : List UInt8) :
    (State.after readValue fromAccount inputs).registrar.getAddress name =
      registered inputs name := by
  refine @run_induction _ _ (State.step readValue fromAccount) State.init (fun _ _ => True)
    (fun pre s => s.registrar.getAddress name = registered pre name) rfl ?_ inputs
    fun _ _ _ _ => trivial
  intro pre i h_pre _
  unfold registered at h_pre ⊢
  rw [latest_concat]
  generalize run (State.step readValue fromAccount) State.init pre = s at h_pre ⊢
  cases i with
  | call sender call => exact h_pre
  | setAddress n a =>
    show (if name = n then a else s.registrar.addresses name) =
      (if n = name then some a else none).getD _
    -- the name is set, or another one
    by_cases h : n = name
    · rw [if_pos h.symm, if_pos h]
      rfl
    · rw [if_neg (Ne.symm h), if_neg h]
      exact h_pre
  | deliver k =>
    unfold State.step
    dsimp only
    split <;> exact h_pre

/-! ### The handler -/

/-- A `StringType` is a text that is not empty. -/
theorem stringType_new {value : Option JavaString} {v : StringType} :
    StringType.new value = some v ↔ value = some v.1 := by
  obtain ⟨v, h_v⟩ := v
  cases value with
  | none => simp [StringType.new]
  | some w =>
    by_cases h : w = []
    · subst h
      simp [StringType.new, Ne.symm h_v]
    · simp [StringType.new, h]

/-- A property that is read as a BIC or an IBAN. -/
theorem getString_new {p : Properties α} {key : JavaString} {v : StringType} :
    (∃ value, getString (some p) key = some value ∧ StringType.new value = some v) ↔
      p key = some (.string v.1) := by
  unfold getString
  rw [Option.bind_eq_bind, Option.bind_some]
  simp only [stringType_new, exists_eq_right]
  split <;> simp_all

/-- If the four properties are there, the text was read. -/
theorem readProperties_eq_some {readValue : JavaString → Java (Option (Properties α))}
    {text : JavaString} {p : Properties α} {key value : JavaString}
    (h_key : p key = some (.string value)) :
    readProperties readValue text = some p ↔ readValue text = .ok (some p) := by
  unfold readProperties
  cases h : readValue text with
  | ok properties => simp
  | error e =>
    refine iff_of_false (fun hc => ?_) (by simp)
    rw [← Option.some.inj hc] at h_key
    exact absurd h_key (by simp [EMPTY_MAP])

theorem toWideAddressString_inj {a b : RpcAddress} :
    a.toWideAddressString = b.toWideAddressString ↔ a = b :=
  ⟨fun h => RpcAddress.eq_of_digits (List.append_cancel_left h), congrArg _⟩

section Handler

variable {readValue : JavaString → Java (Option (Properties α))}
  {registrar : NameToAddressRegistrar} {fromAccount : RpcAddress} {n : PaymentNotification α}

/-- When the handler of a payment tells the listener, and of what. -/
theorem onPaymentMessage_eq_some {fromBank toBank messageId : EventArgument} {amount : Int256}
    {ccy text : String} :
    onPaymentMessage readValue registrar fromAccount
        [fromBank, toBank, messageId, .bigInteger amount.toInt, .string ccy, .string text] =
        some n ↔
      Designates readValue fromAccount registrar.getAddress amount ccy text n := by
  unfold onPaymentMessage
  simp only [Option.bind_eq_bind, Option.bind_eq_some_iff, Option.pure_def,
    Option.ite_none_right_eq_some, toWideAddressString_inj]
  refine ⟨?_, ?_⟩
  · rintro ⟨ccy', h_ccy, o₁, h_o₁, fromBic, h₁, o₂, h_o₂, toBic, h₂, o₃, h_o₃, fromIban, h₃, o₄,
      h_o₄, toIban, h₄, toAddr, h_addr, p, h_p, rfl, h_n⟩
    obtain rfl := Option.some.inj h_n
    -- the map has a BIC, so it is the one that was read
    rw [h_p] at h_o₁ h_o₂ h_o₃ h_o₄
    have h_fromBic := getString_new.mp ⟨o₁, h_o₁, h₁⟩
    obtain ⟨h_length, h_account⟩ := getAddress_eq_ok.mp (eq_ok_of_toOption h_addr)
    exact ⟨Currency.valueOf_eq_some.mp h_ccy, rfl, (readProperties_eq_some h_fromBic).mp h_p,
      h_fromBic, getString_new.mp ⟨o₂, h_o₂, h₂⟩, getString_new.mp ⟨o₃, h_o₃, h₃⟩,
      getString_new.mp ⟨o₄, h_o₄, h₄⟩, h_length, h_account⟩
  · intro h
    rw [(readProperties_eq_some h.fromBic).mpr h.properties]
    obtain ⟨o₁, h_o₁, h₁⟩ := getString_new.mpr h.fromBic
    obtain ⟨o₂, h_o₂, h₂⟩ := getString_new.mpr h.toBic
    obtain ⟨o₃, h_o₃, h₃⟩ := getString_new.mpr h.fromIban
    obtain ⟨o₄, h_o₄, h₄⟩ := getString_new.mpr h.toIban
    have h_addr := (@getAddress_eq_ok registrar _ _).mpr ⟨h.length_le, h.account⟩
    refine ⟨n.currency, Currency.valueOf_eq_some.mpr h.currency, o₁, h_o₁, n.fromBic, h₁, o₂, h_o₂,
      n.toBic, h₂, o₃, h_o₃, n.fromIban, h₃, o₄, h_o₄, n.toIban, h₄, fromAccount, ?_,
      n.additionalProperties, rfl, rfl, ?_⟩
    · rw [h_addr]
      rfl
    · rw [← h.amount]

/-- **What the handler does** with an event. -/
theorem paymentNotification_eq_some {e : Event} :
    e.paymentNotification readValue registrar fromAccount = some n ↔
      ∃ fromBank toBank messageId amount ccy properties,
        e = .paymentMessage fromBank toBank messageId amount ccy properties ∧
          Designates readValue fromAccount registrar.getAddress amount ccy properties n := by
  cases e with
  -- the only event with a handler here
  | paymentMessage fromBank toBank messageId amount ccy properties =>
    have h_handler := @onPaymentMessage_eq_some α readValue registrar fromAccount n
      (.address fromBank) (.address toBank) (.string messageId) amount ccy properties
    refine h_handler.trans ⟨fun h => ⟨_, _, _, _, _, _, rfl, h⟩, ?_⟩
    rintro ⟨_, _, _, _, _, _, h_eq, h⟩
    obtain ⟨-, -, -, rfl, rfl, rfl⟩ := Event.paymentMessage.inj h_eq
    exact h
  | trustlineModified => simp [Event.paymentNotification]
  | resultMessage => simp [Event.paymentNotification]
  | debugMessage => simp [Event.paymentNotification]
  | amountMessage => simp [Event.paymentNotification]

end Handler

/-! ### Runs -/

section Runs

variable (readValue : JavaString → Java (Option (Properties α))) (fromAccount : RpcAddress)

/-- **One delivery**: the registrar is asked for what was registered last. -/
theorem designated_iff (inputs : List Input) (e : Event) :
    Designated readValue fromAccount inputs e ↔
      ∃ n, e.paymentNotification readValue
        (State.after readValue fromAccount inputs).registrar fromAccount = some n := by
  have h_registrar : (State.after readValue fromAccount inputs).registrar.getAddress =
      registered inputs := by
    ext1 name
    exact registrar_after readValue fromAccount inputs name
  simp only [paymentNotification_eq_some, h_registrar]
  refine ⟨?_, ?_⟩
  -- the event, then the conditions of the handler
  · rintro ⟨_, _, _, _, _, _, n, h⟩
    exact ⟨n, _, _, _, _, _, _, h⟩
  · rintro ⟨n, _, _, _, _, _, _, h⟩
    exact ⟨_, _, _, _, _, _, n, h⟩

/-- What is designated is told, and nothing else. -/
theorem tellsIf_designated (pre : List Input) (i : Input) :
    TellsIf readValue fromAccount (Designated readValue fromAccount) pre i := by
  have h_next : State.after readValue fromAccount (pre ++ [i]) =
      (State.after readValue fromAccount pre).step readValue fromAccount i := run_concat _ _
  unfold TellsIf
  simp only [designated_iff]
  rw [h_next]
  generalize State.after readValue fromAccount pre = s
  cases i with
  | call sender call => exact ⟨[], (List.append_nil _).symm, Or.inr ⟨nofun, rfl⟩⟩
  | setAddress name a => exact ⟨[], (List.append_nil _).symm, Or.inr ⟨nofun, rfl⟩⟩
  | deliver k =>
    unfold State.step
    dsimp only
    cases h_log : s.world.log[k]? with
    | none =>
      refine ⟨[], (List.append_nil _).symm, Or.inr ⟨fun j e h_j h_e => ?_, rfl⟩⟩
      obtain rfl := Input.deliver.inj h_j
      exact absurd (h_log.symm.trans h_e) (by simp)
    | some e =>
      refine ⟨(e.paymentNotification readValue s.registrar fromAccount).toList, rfl, ?_⟩
      -- the log holds one event at this position
      cases h_told : e.paymentNotification readValue s.registrar fromAccount with
      | none =>
        refine Or.inr ⟨fun j e' h_j h_e => ?_, rfl⟩
        obtain rfl := Input.deliver.inj h_j
        obtain rfl := Option.some.inj (h_log.symm.trans h_e)
        rintro ⟨n, h_n⟩
        exact absurd (h_told.symm.trans h_n) (by simp)
      | some n =>
        refine Or.inl ⟨k, e, rfl, h_log, ⟨n, h_told⟩, n, ?_⟩
        obtain ⟨fromBank, toBank, messageId, amount, ccy, properties, rfl, h_n⟩ :=
          paymentNotification_eq_some.mp h_told
        exact ⟨fromBank, toBank, messageId, amount, properties, rfl, h_n.amount,
          by rw [h_n.currency]⟩

/-- **Payments are reported to the bank that they designate.** Along every run, the listener is
told of a delivered event if and only if it is a payment whose additional properties designate
the bank's account, by the address that was registered last for the BIC of the payee.
It is told once for each delivery, of the amount and the currency of the event. -/
theorem paymentListener_designated (inputs : List Input) :
    Along (TellsIf readValue fromAccount (Designated readValue fromAccount)) inputs :=
  fun pre i _ _ => tellsIf_designated readValue fromAccount pre i

variable {readValue fromAccount}

/-- What is told at a delivery decides for which events something is told. -/
theorem TellsIf.iff_of_deliver {P Q : List Input → Event → Prop} {pre : List Input} {k : ℕ}
    {e : Event} (h : TellsIf readValue fromAccount P pre (.deliver k))
    (h_log : (State.after readValue fromAccount pre).world.log[k]? = some e)
    (h' : TellsIf readValue fromAccount Q pre (.deliver k)) : P pre e → Q pre e := by
  intro h_P
  obtain ⟨told, h_told, h | ⟨h_none, -⟩⟩ := h
  · obtain ⟨told', h_told', ⟨k', e', h_k, h_e, h_Q, -⟩ | ⟨-, rfl⟩⟩ := h'
    · -- the log holds one event at this position
      obtain rfl := Input.deliver.inj h_k
      rwa [Option.some.inj (h_log.symm.trans h_e)]
    · obtain ⟨-, -, -, -, -, n, -, -, -, -, -, rfl, -⟩ := h
      exact absurd (List.append_cancel_left (h_told.symm.trans h_told')) (List.cons_ne_nil n [])
  · exact absurd h_P (h_none k e rfl h_log)

/-- **The step theorem**: who is credited is told exactly if the names agree. -/
theorem tellsIf_credited_iff (pre : List Input) (i : Input) :
    TellsIf readValue fromAccount (fun _ => Credited fromAccount) pre i ↔
      NamesPayee readValue fromAccount pre i := by
  have h_designated := tellsIf_designated readValue fromAccount pre i
  refine ⟨?_, ?_⟩
  · rintro h k e rfl h_log
    exact ⟨h_designated.iff_of_deliver h_log h, h.iff_of_deliver h_log h_designated⟩
  · intro h
    obtain ⟨told, h_told, ⟨k, e, rfl, h_log, h_P, h_once⟩ | ⟨h_none, h_nil⟩⟩ := h_designated
    · exact ⟨told, h_told, Or.inl ⟨k, e, rfl, h_log, (h k e rfl h_log).mp h_P, h_once⟩⟩
    · exact ⟨told, h_told, Or.inr ⟨fun k e h_i h_log h_Q =>
        h_none k e h_i h_log ((h k e h_i h_log).mpr h_Q), h_nil⟩⟩

/-- **Payments are reported to the bank that the ledger credits** along a run if and only if each
payment that is delivered has the BIC of its payee: what is delivered designates the bank's account
if and only if it was paid to it. -/
theorem paymentListener_credited_iff (readValue : JavaString → Java (Option (Properties α)))
    (fromAccount : RpcAddress) (inputs : List Input) :
    Along (TellsIf readValue fromAccount fun _ => Credited fromAccount) inputs ↔
      Along (NamesPayee readValue fromAccount) inputs :=
  along_congr tellsIf_credited_iff

end Runs

/-- Bank 1 pays 5 pounds to bank 2, but writes a BIC that is registered for nobody: bank 2 is
not told. -/
theorem paymentListener_not_credited :
    let account : RpcAddress := Address.toRpc 2
    let properties : Properties Unit := fun key =>
      if key = FROM_BIC then some (.string (.ofString "A"))
      else if key = TO_BIC then some (.string (.ofString "C"))
      else if key = FROM_IBAN then some (.string (.ofString "I1"))
      else if key = TO_IBAN then some (.string (.ofString "I2"))
      else none
    let json :=
      "\x7b\"fromBic\":\"A\",\"toBic\":\"C\",\"fromIban\":\"I1\",\"toIban\":\"I2\"\x7d"
    ¬Along (TellsIf (fun _ => .ok (some properties)) account fun _ => Credited account)
      [.call 2 (.setLimit 1 "GBP" 9), .call 1 (.setAllow 2 "GBP" 9),
        .setAddress (JavaString.ofString "B").getBytes 2,
        .call 1 (.sendPayment 2 "GBP" 5 "m1" json), .deliver 2] := by
  intro account properties json h
  let pre : List Input := [.call 2 (.setLimit 1 "GBP" 9), .call 1 (.setAllow 2 "GBP" 9),
    .setAddress (JavaString.ofString "B").getBytes 2, .call 1 (.sendPayment 2 "GBP" 5 "m1" json)]
  obtain ⟨told, h_told, h_or⟩ := h pre (.deliver 2) [] rfl
  have h_length := congrArg List.length h_told
  -- nothing was told at the last step, but the payment was credited
  have h_none : (State.after (fun _ => .ok (some properties)) account
      (pre ++ [.deliver 2])).invocations.length = 0 := by decide +kernel
  rw [h_none, List.length_append] at h_length
  obtain rfl : told = [] := List.length_eq_zero_iff.mp (by omega)
  rcases h_or with ⟨_, _, -, -, -, _, _, _, _, _, _, h_one, -⟩ | ⟨h_not, -⟩
  · exact absurd h_one (by simp)
  · apply h_not 2 (.paymentMessage 1 2 "m1" 5 "GBP" json) rfl (by decide +kernel)
    exact ⟨1, "m1", 5, "GBP", json, by decide +kernel⟩

end PaymentListener

end Ethiso
