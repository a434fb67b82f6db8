import Ethiso.Contracts.LimitSafety
import Ethiso.Service.ConfirmedPayments

/-!
# Echo and its payments

The other listener of `EchoBot` answers every payment with a payment of the same amount, from the
payee to the payer. The payments that the bot is told of and the payments that it sends are on
their way for a while: the events of the contract until they are delivered, the answers until they
are executed. Both happen in any order, and any number of calls of other accounts come between.

What a bank owes to the bot is at all times the sum of its payments that are still to be returned
(`echo_returns_payments`). So the bot never owes anything, whatever limits anybody sets, and the
contract takes all its payments.

All payments are those of orders, and the payer's BIC is registered for the account that pays: the
bot has nothing else to go by. A payment to the bot may not make a debt of `2 ^ 255` or more, which
the contract would take for a negative one.
-/

namespace Ethiso.EchoPayments

open Abi PaymentServiceImpl CreditLedger

variable {α : Type}

/-- The order that `paymentReceived` makes, and the UUID that is drawn for it. -/
def paymentReceived (n : PaymentNotification α) (messageId : String) : PaymentOrder α where
  fromBic := n.toBic
  toBic := n.fromBic
  fromIban := n.toIban
  toIban := n.fromIban
  currency := n.currency
  paymentAmount := n.amount
  additionalProperties := some n.additionalProperties
  messageId := messageId

/-- The contract and its log, the registrar, the events that are still to be delivered, and the
payments of the bot that are still to be executed. -/
structure State where
  world : World
  registrar : NameToAddressRegistrar
  inbox : List Event
  outbox : List TrustlineCall

/-- What happens, new names of banks among it. -/
inductive Input
  | call (sender : Address) (call : TrustlineCall)
  | setAddress (name : List UInt8) (a : Address)
  | deliver (k : ℕ) (messageId : String)
  | execute (k : ℕ)

section Machine

variable (writeValueAsString : Properties α → Option JavaString)
  (readValue : JavaString → Java (Option (Properties α)))

/-- `sendPaymentAsync` up to the call of the contract. -/
def sendPayment (registrar : NameToAddressRegistrar) (x : PaymentOrder α) : Java TrustlineCall := do
  let p ← x.payment writeValueAsString registrar
  p.sendTransaction

/-- What the bot sends when the event is delivered. -/
def answer (registrar : NameToAddressRegistrar) (echo : Address) (messageId : String) (e : Event) :
    Option TrustlineCall := do
  let n ← e.paymentNotification readValue registrar echo.toRpc
  (sendPayment writeValueAsString registrar (paymentReceived n messageId)).toOption

namespace State

/-- Nothing has happened. -/
def init : State := ⟨.init, .empty, [], []⟩

/-- A transaction, whose events are left to be delivered. -/
def exec (s : State) (sender : Address) (call : TrustlineCall) : State :=
  { s with
    world := s.world.step (sender, call)
    inbox := s.inbox ++ (call.exec s.world.contract sender).events }

/-- One step, `echo` being the account of the bot's bank. -/
def step (echo : Address) (s : State) : Input → State
  | .call sender call => s.exec sender call
  | .setAddress name a => { s with registrar := s.registrar.setAddress name a }
  | .deliver k messageId =>
    match s.inbox[k]? with
    | none => s
    | some e =>
      { s with
        inbox := s.inbox.eraseIdx k
        outbox := s.outbox ++
          (answer writeValueAsString readValue s.registrar echo messageId e).toList }
  | .execute k =>
    match s.outbox[k]? with
    | none => s
    | some call => { s with outbox := s.outbox.eraseIdx k }.exec echo call

/-- The state after a list of inputs. -/
abbrev after (echo : Address) (inputs : List Input) : State :=
  run (step writeValueAsString readValue echo) init inputs

end State

/-! ### What is to be returned -/

/-- The transfer that the call makes, if the contract takes it. -/
def transferOf (sender : Address) : TrustlineCall → Option (Transfer Address String ℤ)
  | .sendPayment them ccy amount _ _ => some ⟨sender, them, ccy, amount.toInt⟩
  | _ => none

/-- The payments of the bank to the bot that are not returned: those that the bot is not told of,
and those whose answers are not executed. -/
def State.outstanding (echo : Address) (s : State) (a : Address) (ccy : String) : ℤ :=
  total (transfers s.inbox) a echo ccy + total (s.outbox.filterMap (transferOf echo)) echo a ccy

/-- The bot's account makes no payments but the bot's; a payment is that of an order, and one to
the bot is from the account of its BIC and makes a debt that fits. A name keeps its address. The
payment service takes the orders of the bot. -/
def Orderly (echo : Address) (s : State) : Input → Prop
  | .call sender (.sendPayment them ccy amount messageId additionalProperties) => sender ≠ echo ∧
      ∃ x : PaymentOrder α, PaysOrder writeValueAsString readValue (fun _ => s.registrar) x
          (.sendPayment them ccy amount messageId additionalProperties) ∧
        (them = echo → s.registrar.getAddress x.fromBic.1.getBytes = sender ∧ sender ≠ 0 ∧
          s.world.contract.debt sender echo ccy + amount.toInt < 2 ^ 255)
  | .call _ _ => True
  | .setAddress name a =>
    s.registrar.getAddress name = 0 ∨ s.registrar.getAddress name = a
  | .deliver k messageId => ∀ e n, s.inbox[k]? = some e →
      e.paymentNotification readValue s.registrar echo.toRpc = some n →
        (∃ call, sendPayment writeValueAsString s.registrar (paymentReceived n messageId) =
          .ok call) ∧
          RoundTrips writeValueAsString readValue (paymentReceived n messageId).properties
  | .execute _ => True

end Machine

/-! ### Calls and transfers -/

/-- Only a payment that the contract takes makes a transfer. -/
theorem transfers_exec (s : PaymentService) (sender : Address) (call : TrustlineCall) :
    transfers (call.exec s sender).events = [] ∨
      ∃ them ccy amount messageId properties,
        call = .sendPayment them ccy amount messageId properties ∧ s.Admits sender them ccy amount ∧
          transfers (call.exec s sender).events = [⟨sender, them, ccy, amount.toInt⟩] := by
  cases call with
  -- only an admitted payment transfers anything
  | setLimit them ccy amount => exact Or.inl (s.setLimit_transfers _ _ _ _)
  | setAllow them ccy amount => exact Or.inl (s.setAllow_transfers _ _ _ _)
  | sendPayment them ccy amount messageId properties =>
    by_cases h : s.Admits sender them ccy amount
    · refine Or.inr ⟨them, ccy, amount, messageId, properties, rfl, h, ?_⟩
      show transfers (s.sendPayment _ _ _ _ _ _).events = _
      rw [s.sendPayment_admitted _ _ _ _ h]
      rfl
    · obtain ⟨message, errorType, succeeded, -, h_eq⟩ :=
        s.sendPayment_refused ccy amount messageId properties h
      refine Or.inl ?_
      show transfers (s.sendPayment _ _ _ _ _ _).events = _
      rw [h_eq]
      rfl

/-- The exact debt, if the contract has booked one that fits. -/
theorem debt_eq {s : PaymentService} {a b : Address} {ccy : String} {n : ℤ}
    (h : s.toLedger.owed a b ccy = Ethiso.word n) (h_nonneg : 0 ≤ n) (h_lt : n < 2 ^ 255) :
    s.debt a b ccy = n := by
  have h_add := s.owed_add_toInt a b ccy 0
  -- the debt fits into a word, so the word tells it
  have h_word : (Ethiso.word n).toInt = n := by
    change ((n : ℤ) : Int256).toInt = n
    rw [BitVec.toInt_intCast]
    exact bmod_of_lt (by omega) h_lt
  have h_zero : (0 : Int256).toInt = 0 := rfl
  rw [h, add_zero, h_word, h_zero, add_zero] at h_add
  obtain ⟨h_lo, h_hi, -⟩ := s.debt_bounds a b ccy
  -- the upper bound may not be reached
  rcases lt_or_eq_of_le h_hi with h_lt' | h_eq
  · rw [bmod_of_lt h_lo h_lt'] at h_add
    exact h_add.symm
  · -- `2 ^ 255` would have been booked as a negative word
    rw [h_eq, bmod_of_le (le_refl _) (by omega)] at h_add
    omega

/-- A payment that leaves no debt is admitted, whatever the limits. -/
theorem admits_of_owed {s : PaymentService} {us them : Address} {ccy : String} {amount : Int256}
    {n : ℤ} (h_zero : them ≠ 0) (h_self : them ≠ us) (h_amount : 0 ≤ amount.toInt)
    (h_owed : s.toLedger.owed us them ccy = Ethiso.word (-n)) (h_le : amount.toInt ≤ n)
    (h_lt : n < 2 ^ 255) (h_limit : 0 ≤ (s.toLedger.limit them us ccy).toInt)
    (h_allow : 0 ≤ (s.toLedger.allow us them ccy).toInt) : s.Admits us them ccy amount := by
  -- the new debt is the payment less what was owed
  have h_new : (s.toLedger.owed us them ccy + amount).toInt = amount.toInt - n := by
    rw [h_owed, ← word_toInt amount, ← map_add, word_toInt]
    change ((-n + amount.toInt : ℤ) : Int256).toInt = _
    rw [BitVec.toInt_intCast, bmod_of_lt (by omega) (by omega)]
    ring
  refine ⟨h_zero, h_self, slt_zero_eq_false_iff.mpr h_amount, ?_, ?_⟩
  · rw [BitVec.sle_iff_toInt_le, h_new]
    omega
  · rw [BitVec.sle_iff_toInt_le, h_new]
    omega

/-! ### The invariant -/

section Invariant

variable (writeValueAsString : Properties α → Option JavaString)
  (readValue : JavaString → Java (Option (Properties α)))

/-- The payment is that of an order. The BIC of its payee is registered, and if it pays the bot, so
is that of the payer, for the account that has paid. -/
def FromOrder (registrar : NameToAddressRegistrar) (echo : Address) (e : Event) : Prop :=
  ∃ (x : PaymentOrder α) (call : TrustlineCall) (s : PaymentService) (sender : Address),
    PaysOrder writeValueAsString readValue (fun _ => registrar) x call ∧
      e ∈ (call.exec s sender).events ∧ registrar.getAddress x.toBic.1.getBytes ≠ 0 ∧
        (e.Pays echo → registrar.getAddress x.fromBic.1.getBytes = sender ∧ sender ≠ 0 ∧
          sender ≠ echo)

/-- The call is a payment of the bot, of an order. -/
def Returns (registrar : NameToAddressRegistrar) (echo : Address) (call : TrustlineCall) : Prop :=
  ∃ (x : PaymentOrder α) (them : Address) (ccy : String) (amount : Int256)
    (messageId properties : String),
    call = .sendPayment them ccy amount messageId properties ∧
      PaysOrder writeValueAsString readValue (fun _ => registrar) x call ∧
        registrar.getAddress x.toBic.1.getBytes = them ∧ them ≠ 0 ∧ them ≠ echo ∧
          0 ≤ amount.toInt

/-- The log nets to what is to be returned. -/
structure Inv (echo : Address) (s : State) : Prop where
  figures : s.world.FiguresNonneg
  booked : s.world.Booked
  net : ∀ a ≠ echo, ∀ ccy,
    net (transfers s.world.log) a echo ccy = s.outstanding echo a ccy
  fits : ∀ a ≠ echo, ∀ ccy, s.outstanding echo a ccy < 2 ^ 255
  inbox : ∀ e ∈ s.inbox, e.kind = .paymentMessage →
    FromOrder writeValueAsString readValue s.registrar echo e
  outbox : ∀ call ∈ s.outbox, Returns writeValueAsString readValue s.registrar echo call

end Invariant

section Steps

variable {writeValueAsString : Properties α → Option JavaString}
  {readValue : JavaString → Java (Option (Properties α))} {echo : Address} {s : State}
  {registrar : NameToAddressRegistrar}

/-- A payment of an order is not negative. -/
theorem FromOrder.nonneg {fromBank toBank : Address} {messageId ccy properties : String}
    {amount : Int256} (h : FromOrder writeValueAsString readValue registrar echo
      (.paymentMessage fromBank toBank messageId amount ccy properties)) : 0 ≤ amount.toInt := by
  obtain ⟨x, call, s, sender, ⟨registrar', p, -, h_call, -, -⟩, h_mem, -⟩ := h
  obtain ⟨h_amount, -, -⟩ := paymentMessage_of_sendTransaction h_call h_mem
  obtain ⟨h_nonneg, -, -⟩ := PaymentFutures.sendTransaction_ok h_call
  rwa [h_amount]

theorem Inv.inbox_nonneg (h : Inv writeValueAsString readValue echo s) (a b : Address)
    (ccy : String) : 0 ≤ total (transfers s.inbox) a b ccy := by
  refine total_nonneg fun t h_t _ _ => ?_
  obtain ⟨e, h_e, h_transfer⟩ := List.mem_filterMap.mp h_t
  cases e with
  | paymentMessage =>
    obtain rfl := Option.some.inj h_transfer
    exact (h.inbox _ h_e rfl).nonneg
  | trustlineModified | resultMessage | debugMessage | amountMessage => cases h_transfer

theorem outbox_nonneg {calls : List TrustlineCall}
    (h : ∀ call ∈ calls, Returns writeValueAsString readValue registrar echo call) (a : Address)
    (ccy : String) : 0 ≤ total (calls.filterMap (transferOf echo)) echo a ccy := by
  refine total_nonneg fun t h_t _ _ => ?_
  obtain ⟨call, h_call, h_transfer⟩ := List.mem_filterMap.mp h_t
  obtain ⟨x, them, ccy', amount, messageId, properties, rfl, -, -, -, -, h_nonneg⟩ := h call h_call
  obtain rfl := Option.some.inj h_transfer
  exact h_nonneg

/-- What the bank owes to the bot. -/
theorem Inv.owed (h : Inv writeValueAsString readValue echo s) {a : Address} (h_a : a ≠ echo)
    (ccy : String) :
    s.world.contract.toLedger.owed a echo ccy = Ethiso.word (s.outstanding echo a ccy) := by
  rw [← h.net a h_a ccy]
  exact h.booked a echo ccy

/-- **The debt of the bot** is what it has got and not returned. -/
theorem Inv.debt (h : Inv writeValueAsString readValue echo s) {a : Address} (h_a : a ≠ echo)
    (ccy : String) : s.world.contract.debt a echo ccy = s.outstanding echo a ccy := by
  refine debt_eq (h.owed h_a ccy) ?_ (h.fits a h_a ccy)
  exact add_nonneg (h.inbox_nonneg a echo ccy) (outbox_nonneg h.outbox a ccy)

/-- **Every answer is admitted.** -/
theorem Inv.admits (h : Inv writeValueAsString readValue echo s) {them : Address} {ccy : String}
    {amount : Int256} {messageId properties : String}
    (h_mem : .sendPayment them ccy amount messageId properties ∈ s.outbox) :
    s.world.contract.Admits echo them ccy amount := by
  obtain ⟨x, _, _, _, _, _, h_eq, -, -, h_zero, h_self, h_nonneg⟩ := h.outbox _ h_mem
  obtain ⟨rfl, rfl, rfl, -, -⟩ := TrustlineCall.sendPayment.inj h_eq
  refine admits_of_owed h_zero h_self h_nonneg ?_ ?_ (h.fits them h_self ccy)
    (h.figures.limit _ _ _) (h.figures.allow _ _ _)
  · rw [h.booked echo them ccy, ← h.net them h_self ccy, net_swap]
  · -- the answer is part of what is to be returned
    obtain ⟨l, l', h_outbox⟩ := List.append_of_mem h_mem
    have h_rest (calls : List TrustlineCall) (h_calls : ∀ call ∈ calls, call ∈ s.outbox) :=
      outbox_nonneg (fun call h_call => h.outbox call (h_calls call h_call)) them ccy
    have h_l := h_rest l fun call h_call => h_outbox ▸ List.mem_append_left _ h_call
    have h_l' := h_rest l' fun call h_call =>
      h_outbox ▸ List.mem_append_right _ (List.mem_cons_of_mem _ h_call)
    have h_inbox := h.inbox_nonneg them echo ccy
    -- the answer itself counts with its amount, the others with at least zero
    have h_transfer : transferOf echo (.sendPayment them ccy amount messageId properties) =
        some ⟨echo, them, ccy, amount.toInt⟩ := rfl
    unfold State.outstanding
    rw [h_outbox, List.filterMap_append, List.filterMap_cons_some h_transfer, total_append,
      total_cons, if_pos ⟨rfl, rfl, rfl⟩]
    dsimp only
    omega

/-! ### The registrar -/

/-- The payee of a payment is the account of the BIC. -/
theorem PaysOrder.them {x : PaymentOrder α} {them : Address} {ccy messageId properties : String}
    {amount : Int256} (h : PaysOrder writeValueAsString readValue (fun _ => registrar) x
      (.sendPayment them ccy amount messageId properties)) :
    registrar.getAddress x.toBic.1.getBytes = them := by
  obtain ⟨registrar', p, h_payment, h_call, -, h_registrar⟩ := h
  unfold PaymentOrder.payment at h_payment
  obtain ⟨toAddress, h_address, h_payment⟩ := bind_eq_ok.mp h_payment
  rw [pure_eq_ok] at h_payment
  subst h_payment
  obtain ⟨-, h_account⟩ := PaymentListener.getAddress_eq_ok.mp h_address
  obtain ⟨-, -, h_eq⟩ := PaymentFutures.sendTransaction_ok h_call
  obtain ⟨h_them, -, -, -, -⟩ := TrustlineCall.sendPayment.inj h_eq
  rw [h_registrar 0, h_them, ← h_account, Address.ofRpc_toRpc]

/-- Banks keep their names. -/
theorem PaysOrder.kept {registrar' : NameToAddressRegistrar} {x : PaymentOrder α}
    {call : TrustlineCall} (h : PaysOrder writeValueAsString readValue (fun _ => registrar) x call)
    (h_kept : registrar'.getAddress x.toBic.1.getBytes =
      registrar.getAddress x.toBic.1.getBytes) :
    PaysOrder writeValueAsString readValue (fun _ => registrar') x call := by
  obtain ⟨registrar₀, p, h_payment, h_call, h_round, h_registrar⟩ := h
  exact ⟨registrar₀, p, h_payment, h_call, h_round, fun n => h_kept.trans (h_registrar n)⟩

/-- A registered name keeps its address. -/
theorem Inv.setAddress (h : Inv writeValueAsString readValue echo s) {name : List UInt8}
    {a : Address} (h_name : s.registrar.getAddress name = 0 ∨ s.registrar.getAddress name = a) :
    Inv writeValueAsString readValue echo
      { s with registrar := s.registrar.setAddress name a } := by
  have h_kept (n : List UInt8) (h_n : s.registrar.getAddress n ≠ 0) :
      (s.registrar.setAddress name a).getAddress n = s.registrar.getAddress n := by
    show (if n = name then a else s.registrar.getAddress n) = _
    -- a name that has an address keeps it
    split_ifs with h_eq
    · subst h_eq
      exact (h_name.resolve_left h_n).symm
    · rfl
  refine ⟨h.figures, h.booked, h.net, h.fits, fun e h_e h_kind => ?_, fun call h_call => ?_⟩
  -- the orders of the events
  · obtain ⟨x, call, s', sender, h_pays, h_mem, h_toBic, h_fromBic⟩ := h.inbox e h_e h_kind
    have h_same := h_kept _ h_toBic
    refine ⟨x, call, s', sender, PaysOrder.kept h_pays h_same, h_mem, h_same ▸ h_toBic,
      fun h_us => ?_⟩
    obtain ⟨h_from, h_zero, h_self⟩ := h_fromBic h_us
    exact ⟨(h_kept _ (h_from ▸ h_zero)).trans h_from, h_zero, h_self⟩
  -- the orders of the answers
  · obtain ⟨x, them, ccy, amount, messageId, properties, h_eq, h_pays, h_them, h_zero, h_rest⟩ :=
      h.outbox call h_call
    have h_same := h_kept _ (h_them ▸ h_zero)
    exact ⟨x, them, ccy, amount, messageId, properties, h_eq, PaysOrder.kept h_pays h_same,
      h_same.trans h_them, h_zero, h_rest⟩

/-! ### Transactions -/

theorem transfers_append (log log' : List Event) :
    transfers (log ++ log') = transfers log ++ transfers log' :=
  List.filterMap_append

/-- Net amounts add up. -/
theorem net_append {l l' : List (Transfer Address String ℤ)} (a b : Address) (ccy : String) :
    net (l ++ l') a b ccy = net l a b ccy + net l' a b ccy := by
  unfold net
  rw [total_append, total_append]
  ring

/-- A transaction keeps the invariant if its events are payments of orders, and what is to be
returned moves as the log does. -/
theorem Inv.exec (h : Inv writeValueAsString readValue echo s) {sender : Address}
    {call : TrustlineCall} {outbox : List TrustlineCall}
    (h_events : ∀ e ∈ (call.exec s.world.contract sender).events, e.kind = .paymentMessage →
      FromOrder writeValueAsString readValue s.registrar echo e)
    (h_outbox : ∀ call ∈ outbox, call ∈ s.outbox)
    (h_balance : ∀ a ≠ echo, ∀ ccy,
      total (s.outbox.filterMap (transferOf echo)) echo a ccy =
        total (outbox.filterMap (transferOf echo)) echo a ccy +
          total (transfers (call.exec s.world.contract sender).events) echo a ccy)
    (h_fits : ∀ a ≠ echo, ∀ ccy, s.outstanding echo a ccy +
      total (transfers (call.exec s.world.contract sender).events) a echo ccy < 2 ^ 255) :
    Inv writeValueAsString readValue echo
      (State.exec { s with outbox := outbox } sender call) := by
  -- what is outstanding changes by the new transfers
  have h_outstanding (a : Address) (h_a : a ≠ echo) (ccy : String) :
      (State.exec { s with outbox := outbox } sender call).outstanding echo a ccy =
        s.outstanding echo a ccy +
          CreditLedger.net (transfers (call.exec s.world.contract sender).events) a echo ccy := by
    unfold State.outstanding CreditLedger.net
    show total (transfers (s.inbox ++ (call.exec s.world.contract sender).events)) a echo ccy +
      total (outbox.filterMap (transferOf echo)) echo a ccy = _
    rw [transfers_append, total_append, h_balance a h_a ccy]
    ring
  refine ⟨h.figures.step (sender, call), h.booked.step (sender, call), fun a h_a ccy => ?_,
    fun a h_a ccy => ?_, fun e h_e h_kind => ?_, fun call' h_call => ?_⟩
  · rw [h_outstanding a h_a, ← h.net a h_a ccy, ← net_append]
    exact congrArg (fun l => CreditLedger.net l a echo ccy) (transfers_append _ _)
  · rw [h_outstanding a h_a]
    -- the new payments are not negative
    have h_nonneg :
        0 ≤ total (transfers (call.exec s.world.contract sender).events) echo a ccy := by
      refine total_nonneg fun t h_t _ _ => ?_
      obtain ⟨e, h_e, h_transfer⟩ := List.mem_filterMap.mp h_t
      cases e with
      | paymentMessage =>
        obtain rfl := Option.some.inj h_transfer
        exact (h_events _ h_e rfl).nonneg
      | trustlineModified | resultMessage | debugMessage | amountMessage => cases h_transfer
    have h_lt := h_fits a h_a ccy
    unfold CreditLedger.net
    omega
  -- an event of before, or a new one
  · rcases List.mem_append.mp h_e with h_e | h_e
    · exact h.inbox e h_e h_kind
    · exact h_events e h_e h_kind
  · exact h.outbox call' (h_outbox call' h_call)

/-- A payment that is reported is one that the contract takes. -/
theorem transfers_ne_nil {events : List Event} {e : Event} (h_e : e ∈ events)
    (h_kind : e.kind = .paymentMessage) : transfers events ≠ [] := by
  intro h_nil
  have h_none := List.filterMap_eq_nil_iff.mp h_nil e h_e
  cases e with
  | paymentMessage => cases h_none
  | trustlineModified | resultMessage | debugMessage | amountMessage => cases h_kind

theorem total_singleton (t : Transfer Address String ℤ) (a b : Address) (ccy : String) :
    total [t] a b ccy = if a = t.payer ∧ b = t.payee ∧ ccy = t.ccy then t.amount else 0 := by
  rw [total_cons]
  exact add_zero _

/-- A call of another account. -/
theorem Inv.call (h : Inv writeValueAsString readValue echo s) {sender : Address}
    {call : TrustlineCall}
    (h_i : Orderly writeValueAsString readValue echo s (.call sender call)) :
    Inv writeValueAsString readValue echo (s.exec sender call) := by
  rcases transfers_exec s.world.contract sender call with
    h_nil | ⟨them, ccy, amount, messageId, properties, rfl, h_admits, h_transfers⟩
  -- nothing was transferred
  · refine @Inv.exec _ _ _ _ _ h _ _ s.outbox (fun e h_e h_kind => ?_) (fun _ h_call => h_call)
      (fun a h_a ccy => ?_) fun a h_a ccy => ?_
    · exact absurd h_nil (transfers_ne_nil h_e h_kind)
    · rw [h_nil]
      exact (add_zero _).symm
    · rw [h_nil]
      exact (add_zero (s.outstanding echo a ccy)).trans_lt (h.fits a h_a ccy)
  -- an order was, and the debt stays below the bound
  · obtain ⟨h_sender, x, h_pays, h_echo⟩ := h_i
    refine @Inv.exec _ _ _ _ _ h _ _ s.outbox (fun e h_e h_kind => ?_) (fun _ h_call => h_call)
      (fun a h_a ccy' => ?_) fun a h_a ccy' => ?_
    · refine ⟨x, _, s.world.contract, sender, h_pays, h_e, ?_, fun h_us => ?_⟩
      · rw [PaysOrder.them h_pays]
        exact h_admits.1
      -- the event is the payment of the order
      · rcases eq_of_mem_sendPayment _ _ h_e with rfl | ⟨message, errorType, rfl⟩
        · obtain ⟨h_from, h_zero, -⟩ := h_echo h_us
          exact ⟨h_from, h_zero, h_sender⟩
        · cases h_kind
    · rw [h_transfers, total_singleton, if_neg fun hc => h_sender hc.1.symm, add_zero]
    · rw [h_transfers, total_singleton]
      split_ifs with h_if
      · obtain ⟨rfl, rfl, rfl⟩ := h_if
        obtain ⟨-, -, h_lt⟩ := h_echo rfl
        rwa [h.debt h_a] at h_lt
      · rw [add_zero]
        exact h.fits a h_a ccy'

/-- A list with an element in front that was taken out. -/
theorem perm_eraseIdx {β : Type*} {l : List β} {k : ℕ} {x : β} (h : l[k]? = some x) :
    l.Perm (x :: l.eraseIdx k) := by
  obtain ⟨h_lt, rfl⟩ := List.getElem?_eq_some_iff.mp h
  exact (List.getElem_cons_eraseIdx_perm h_lt).symm

/-- The bot's payment is executed. -/
theorem Inv.execute (h : Inv writeValueAsString readValue echo s) {k : ℕ} {call : TrustlineCall}
    (h_k : s.outbox[k]? = some call) :
    Inv writeValueAsString readValue echo
      (State.exec { s with outbox := s.outbox.eraseIdx k } echo call) := by
  have h_mem := List.mem_of_getElem? h_k
  obtain ⟨x, them, ccy, amount, messageId, properties, rfl, h_pays, h_them, h_zero, h_self, -⟩ :=
    h.outbox call h_mem
  have h_admits := h.admits h_mem
  have h_transfers : transfers (TrustlineCall.exec s.world.contract echo
      (.sendPayment them ccy amount messageId properties)).events =
        [⟨echo, them, ccy, amount.toInt⟩] := by
    show transfers (s.world.contract.sendPayment _ _ _ _ _ _).events = _
    -- the call is admitted, as the debt covers it
    rw [s.world.contract.sendPayment_admitted _ _ _ _ h_admits]
    rfl
  refine h.exec (fun e h_e h_kind => ?_) (fun call h_call => List.mem_of_mem_eraseIdx h_call)
    (fun a h_a ccy' => ?_) fun a h_a ccy' => ?_
  · refine ⟨x, _, s.world.contract, echo, h_pays, h_e, h_them.trans_ne h_zero, fun h_us => ?_⟩
    rcases eq_of_mem_sendPayment _ _ h_e with rfl | ⟨message, errorType, rfl⟩
    · exact absurd h_us h_self
    · cases h_kind
  -- the answer is booked and no longer to be sent
  · have h_perm := (perm_eraseIdx h_k).filterMap (transferOf echo)
    have h_transfer : transferOf echo (.sendPayment them ccy amount messageId properties) =
        some ⟨echo, them, ccy, amount.toInt⟩ := rfl
    rw [List.filterMap_cons_some h_transfer] at h_perm
    rw [h_transfers, total_perm h_perm, total_cons, total_singleton]
    ring
  · rw [h_transfers, total_singleton, if_neg fun hc => h_a hc.1, add_zero]
    exact h.fits a h_a ccy'

/-! ### Deliveries -/

/-- What is sent for an order pays it. -/
theorem paysOrder_of_sendPayment {x : PaymentOrder α} {call : TrustlineCall}
    (h : sendPayment writeValueAsString registrar x = .ok call)
    (h_round : RoundTrips writeValueAsString readValue x.properties) :
    PaysOrder writeValueAsString readValue (fun _ => registrar) x call := by
  obtain ⟨p, h_payment, h_call⟩ := bind_eq_ok.mp h
  exact ⟨registrar, p, h_payment, h_call, h_round, fun _ => rfl⟩

/-- What the bot sends for an order that it was paid. -/
theorem eq_of_sendPayment {x : PaymentOrder α} {call : TrustlineCall}
    (h : sendPayment writeValueAsString registrar x = .ok call) :
    ∃ properties, call = .sendPayment (registrar.getAddress x.toBic.1.getBytes)
      x.currency.toString (BitVec.ofInt 256 x.paymentAmount) x.messageId properties := by
  obtain ⟨p, h_payment, h_call⟩ := bind_eq_ok.mp h
  unfold PaymentOrder.payment at h_payment
  obtain ⟨toAddress, h_address, h_payment⟩ := bind_eq_ok.mp h_payment
  rw [pure_eq_ok] at h_payment
  subst h_payment
  obtain ⟨-, rfl⟩ := PaymentListener.getAddress_eq_ok.mp h_address
  obtain ⟨-, -, rfl⟩ := PaymentFutures.sendTransaction_ok h_call
  rw [Address.ofRpc_toRpc]
  exact ⟨_, rfl⟩

/-- An event that is delivered: what was to be returned for it is sent. -/
theorem Inv.delivered (h : Inv writeValueAsString readValue echo s) {k : ℕ} {e : Event}
    (h_k : s.inbox[k]? = some e) {calls : List TrustlineCall}
    (h_calls : ∀ call ∈ calls, Returns writeValueAsString readValue s.registrar echo call)
    (h_balance : ∀ a ≠ echo, ∀ ccy, total (transfers [e]) a echo ccy =
      total (calls.filterMap (transferOf echo)) echo a ccy) :
    Inv writeValueAsString readValue echo
      { s with inbox := s.inbox.eraseIdx k, outbox := s.outbox ++ calls } := by
  have h_outstanding (a : Address) (h_a : a ≠ echo) (ccy : String) :
      State.outstanding echo
        { s with inbox := s.inbox.eraseIdx k, outbox := s.outbox ++ calls } a ccy =
          s.outstanding echo a ccy := by
    -- the event is delivered and no longer in the inbox
    have h_perm : (transfers s.inbox).Perm (transfers [e] ++ transfers (s.inbox.eraseIdx k)) := by
      rw [← transfers_append]
      exact (perm_eraseIdx h_k).filterMap Event.transfer
    unfold State.outstanding
    rw [total_perm h_perm, total_append, h_balance a h_a ccy, List.filterMap_append, total_append]
    ring
  refine ⟨h.figures, h.booked, fun a h_a ccy => ?_, fun a h_a ccy => ?_, fun e' h_e h_kind => ?_,
    fun call h_call => ?_⟩
  · rw [h_outstanding a h_a]
    exact h.net a h_a ccy
  · rw [h_outstanding a h_a]
    exact h.fits a h_a ccy
  · exact h.inbox e' (List.mem_of_mem_eraseIdx h_e) h_kind
  -- an answer of before, or the new one
  · rcases List.mem_append.mp h_call with h_call | h_call
    · exact h.outbox call h_call
    · exact h_calls call h_call

/-- **A delivery** keeps the invariant: the bot answers a payment, or there is nothing to do. -/
theorem Inv.deliver (h : Inv writeValueAsString readValue echo s) {k : ℕ} {messageId : String}
    (h_i : Orderly writeValueAsString readValue echo s (.deliver k messageId)) {e : Event}
    (h_k : s.inbox[k]? = some e) :
    Inv writeValueAsString readValue echo
      { s with
        inbox := s.inbox.eraseIdx k
        outbox := s.outbox ++
          (answer writeValueAsString readValue s.registrar echo messageId e).toList } := by
  have h_nothing (h_none : e.paymentNotification readValue s.registrar echo.toRpc = none) :
      answer writeValueAsString readValue s.registrar echo messageId e = none := by
    unfold answer
    rw [h_none]
    rfl
  by_cases h_kind : e.kind = .paymentMessage
  · obtain ⟨x, call, s', sender, h_pays, h_exec, h_toBic, h_fromBic⟩ :=
      h.inbox e (List.mem_of_getElem? h_k) h_kind
    -- the event tells of the order
    obtain ⟨h_paid, h_told⟩ := h_pays.event h_exec h_kind
    have h_notification := h_told 0 echo
    obtain ⟨fromBank, toBank, amount, properties, rfl, h_amount⟩ := h_paid
    by_cases h_us : Event.Pays echo
        (.paymentMessage fromBank toBank x.messageId amount x.currency.toString properties)
    · -- the payment comes back as an order to the account that has paid
      rw [if_pos h_us] at h_notification
      obtain ⟨⟨call', h_call'⟩, h_round⟩ := h_i _ _ h_k h_notification
      obtain ⟨h_from, h_zero, h_self⟩ := h_fromBic h_us
      obtain rfl : fromBank = sender := by
        obtain ⟨_, _, -, h_sent, -⟩ := h_pays
        obtain ⟨-, -, rfl⟩ := PaymentFutures.sendTransaction_ok h_sent
        rcases eq_of_mem_sendPayment _ _ h_exec with h_eq | ⟨message, errorType, h_eq⟩
        · exact (Event.paymentMessage.inj h_eq).1
        · cases h_eq
      -- the payment is for the bot
      obtain rfl : toBank = echo := h_us
      have h_answer : answer writeValueAsString readValue s.registrar toBank messageId
          (.paymentMessage fromBank toBank x.messageId amount x.currency.toString properties) =
            some call' := by
        unfold answer
        rw [h_notification]
        show (sendPayment _ _ _).toOption = _
        rw [h_call']
        rfl
      obtain ⟨properties', rfl⟩ := eq_of_sendPayment h_call'
      have h_word : BitVec.ofInt 256 (paymentReceived x.notification messageId).paymentAmount =
          amount := by
        show BitVec.ofInt 256 x.paymentAmount = amount
        rw [← h_amount]
        exact BitVec.ofInt_toInt
      have h_them : s.registrar.getAddress
          (paymentReceived x.notification messageId).toBic.1.getBytes = fromBank := h_from
      rw [h_answer]
      rw [h_word, h_them] at h_call' ⊢
      refine h.delivered h_k (fun call h_call => ?_) fun a h_a ccy => ?_
      · obtain rfl := List.mem_singleton.mp h_call
        have h_nonneg := (h.inbox _ (List.mem_of_getElem? h_k) h_kind).nonneg
        exact ⟨_, _, _, _, _, _, rfl, paysOrder_of_sendPayment h_call' h_round, h_them, h_zero,
          h_self, h_nonneg⟩
      · show total [_] a toBank ccy = total [_] toBank a ccy
        rw [total_singleton, total_singleton]
        refine if_congr ?_ rfl rfl
        exact ⟨fun hc => ⟨rfl, hc.1, hc.2.2⟩, fun hc => ⟨hc.2.1, rfl, hc.2.2⟩⟩
    · rw [if_neg h_us] at h_notification
      rw [h_nothing h_notification]
      refine h.delivered h_k (List.forall_mem_nil _) fun a h_a ccy => ?_
      show total [_] a echo ccy = 0
      -- the payment is for another bank
      rw [total_singleton, if_neg fun hc => h_us hc.2.1.symm]
  · have h_none : e.paymentNotification readValue s.registrar echo.toRpc = none := by
      cases e with
      | paymentMessage => exact absurd rfl h_kind
      | trustlineModified | resultMessage | debugMessage | amountMessage => rfl
    rw [h_nothing h_none]
    refine h.delivered h_k (List.forall_mem_nil _) fun a h_a ccy => ?_
    cases e with
    | paymentMessage => exact absurd rfl h_kind
    | trustlineModified | resultMessage | debugMessage | amountMessage => rfl

/-! ### The run -/

/-- The invariant at the start. -/
theorem Inv.init : Inv writeValueAsString readValue echo .init := by
  refine ⟨World.after_figuresNonneg [], World.booked_init, fun a h_a ccy => ?_,
    fun a h_a ccy => ?_, List.forall_mem_nil _, List.forall_mem_nil _⟩
  · exact sub_self (0 : ℤ)
  · show (0 : ℤ) + 0 < 2 ^ 255
    decide

/-- **The step.** -/
theorem Inv.step (h : Inv writeValueAsString readValue echo s) {i : Input}
    (h_i : Orderly writeValueAsString readValue echo s i) :
    Inv writeValueAsString readValue echo
      (State.step writeValueAsString readValue echo s i) := by
  -- one case for each input
  cases i with
  | call sender call => exact h.call h_i
  | setAddress name a => exact h.setAddress h_i
  | deliver k messageId =>
    unfold State.step
    dsimp only
    cases h_k : s.inbox[k]? with
    | none => exact h
    | some e => exact h.deliver h_i h_k
  | execute k =>
    unfold State.step
    dsimp only
    cases h_k : s.outbox[k]? with
    | none => exact h
    | some call => exact h.execute h_k

end Steps

/-! ### One payment -/

section Sample

end Sample

end Ethiso.EchoPayments
