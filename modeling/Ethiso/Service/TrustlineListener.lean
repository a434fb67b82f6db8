import Ethiso.Contracts.ModifiedEvents
import Ethiso.Contracts.PaymentOutcome
import Ethiso.Service.Values

/-!
# Trustline notifications

`registerTrustlineListener` registers a handler that passes every `TrustlineModified` event
on to the bank's listener, with the second argument of the event as the other party.
There is no filter on the topics, and the handler does not look at the first argument.

The notification is right if the bank is one of the two parties and is told of the other
one (`RightlyNotified`). It is so exactly if the bank is the first party of the event, and
not the second (`rightlyNotified_iff`). For the calls this means: the bank's own `setLimit`
on somebody else, and `setAllow` by any of the two parties if the bank has the smaller
address (`NotifiesRightly`). The calls of the other party, as far as the other addresses
are smaller, and the calls of all other banks are notified wrongly.
-/

namespace Ethiso

/-- What the listener is told. -/
structure TrustlineNotification where
  them : Address
  currency : Currency
  forwardLimit : ℤ
  reverseLimit : ℤ
  forwardAllow : ℤ
  reverseAllow : ℤ
  deriving DecidableEq

namespace PaymentServiceImpl

/-- The handler of `TrustlineModified`. It throws if the currency is unknown, and then the
listener is told nothing. -/
def onTrustlineModified (x : List EventArgument) : Option TrustlineNotification :=
  match x with
  | [_, .address them, .string ccy, _, .bigInteger forwardLimit, .bigInteger reverseLimit,
      .bigInteger forwardAllow, .bigInteger reverseAllow] => do
    let currency ← Currency.valueOf ccy
    return ⟨them, currency, forwardLimit, reverseLimit, forwardAllow, reverseAllow⟩
  | _ => none

end PaymentServiceImpl

/-- What the listener is told of an event. The handler is registered for
`TrustlineModified` only. -/
def Event.trustlineNotification (e : Event) : Option TrustlineNotification :=
  match e with
  | .trustlineModified .. => PaymentServiceImpl.onTrustlineModified e.decode
  | _ => none

/-- The other party of the trustline between `p1` and `p2`. -/
def IsOther (us p1 p2 them : Address) : Prop := (us = p1 ∧ them = p2) ∨ (us = p2 ∧ them = p1)

/-- If the bank is told of the event, it is a party of the trustline, and is told of the
other one, which is not the bank itself. -/
def RightlyNotified (us : Address) (e : Event) : Prop :=
  ∀ n, e.trustlineNotification = some n → n.them ≠ us ∧
    ∃ p1 p2 ccy trustType fl rl fa ra, e = .trustlineModified p1 p2 ccy trustType fl rl fa ra ∧
      IsOther us p1 p2 n.them

/-- The bank is told of nothing, or it sets its limit on another party, or one of two
parties, of which the bank has the smaller address, sets its allow towards the other. -/
def NotifiesRightly (us : Address) (s : PaymentService) : Address × TrustlineCall → Prop
  | (sender, .setLimit them ccy amount) =>
    Currency.valueOf ccy = none ∨ amount.slt 0 = true ∨ s.getLimit sender them ccy false = amount ∨
      (sender = us ∧ them ≠ us)
  | (sender, .setAllow them ccy amount) =>
    Currency.valueOf ccy = none ∨ amount.slt 0 = true ∨ s.getAllow sender them ccy false = amount ∨
      (sender = us ∧ us < them) ∨ (them = us ∧ us < sender)
  | (_, .sendPayment ..) => True

section Event

variable {us p1 p2 : Address} {ccy trustType : String} {fl rl fa ra : Int256}

/-- What the handler makes of the event. -/
theorem trustlineNotification_eq :
    (Event.trustlineModified p1 p2 ccy trustType fl rl fa ra).trustlineNotification =
      (Currency.valueOf ccy).map fun currency =>
        ⟨p2, currency, fl.toInt, rl.toInt, fa.toInt, ra.toInt⟩ := by
  cases h : Currency.valueOf ccy <;>
    simp [Event.trustlineNotification, Event.decode, Event.parameters,
      PaymentServiceImpl.onTrustlineModified, h]

/-- The bank has to be the first party, and not the second. -/
theorem rightlyNotified_iff :
    RightlyNotified us (.trustlineModified p1 p2 ccy trustType fl rl fa ra) ↔
      Currency.valueOf ccy = none ∨ (p1 = us ∧ p2 ≠ us) := by
  unfold RightlyNotified
  rw [trustlineNotification_eq]
  cases h : Currency.valueOf ccy with
  | none => simp
  | some currency =>
    refine ⟨?_, ?_⟩
    -- the notification names the second party as the other one
    · intro h_all
      obtain ⟨h_ne, q1, q2, _, _, _, _, _, _, h_eq, h_other⟩ := h_all _ rfl
      obtain ⟨rfl, rfl, -⟩ := Event.trustlineModified.inj h_eq
      rcases h_other with ⟨rfl, -⟩ | ⟨rfl, -⟩
      · exact Or.inr ⟨rfl, h_ne⟩
      · exact absurd rfl h_ne
    · rintro (h_none | ⟨rfl, h_ne⟩) n h_n
      · exact absurd h_none (by simp)
      · obtain rfl := Option.some.inj h_n
        exact ⟨h_ne, _, _, _, _, _, _, _, _, rfl, Or.inl ⟨rfl, rfl⟩⟩

end Event

/-! ### Calls -/

section Calls

variable (us sender them : Address) (s : PaymentService) (ccy : String) (amount : Int256)

/-- When `setLimit` notifies rightly. -/
theorem setLimit_notifies :
    (∀ e ∈ (s.setLimit sender them ccy amount).events, RightlyNotified us e) ↔
      NotifiesRightly us s (sender, .setLimit them ccy amount) := by
  unfold NotifiesRightly
  rw [PaymentService.setLimit_events, PaymentService.forall_mem_emitted, rightlyNotified_iff]
  tauto

/-- The bank is the first party of the event of a `setAllow`, and not the second, if it is
the one with the smaller address. -/
theorem first_of_setAllow :
    ((if sender < them then sender else them) = us ∧
        (if sender < them then them else sender) ≠ us) ↔
      (sender = us ∧ us < them) ∨ (them = us ∧ us < sender) := by
  by_cases h_role : sender < them
  -- the order of the addresses decides which of them is first
  · rw [if_pos h_role, if_pos h_role]
    refine ⟨?_, ?_⟩
    · rintro ⟨rfl, -⟩
      exact Or.inl ⟨rfl, h_role⟩
    · rintro (⟨rfl, -⟩ | ⟨rfl, h_lt⟩)
      · exact ⟨rfl, fun hc => by bv_omega⟩
      · exact absurd h_role (by bv_omega)
  · rw [if_neg h_role, if_neg h_role]
    refine ⟨?_, ?_⟩
    · rintro ⟨rfl, h_ne⟩
      exact Or.inr ⟨rfl, by bv_omega⟩
    · rintro (⟨rfl, h_lt⟩ | ⟨rfl, h_lt⟩)
      · exact absurd h_lt h_role
      · exact ⟨rfl, fun hc => by bv_omega⟩

/-- When `setAllow` does. -/
theorem setAllow_notifies :
    (∀ e ∈ (s.setAllow sender them ccy amount).events, RightlyNotified us e) ↔
      NotifiesRightly us s (sender, .setAllow them ccy amount) := by
  unfold NotifiesRightly
  rw [PaymentService.setAllow_events, PaymentService.forall_mem_emitted, rightlyNotified_iff,
    first_of_setAllow]
  tauto

/-- A payment emits no `TrustlineModified`. -/
theorem sendPayment_trustlineNotification (messageId additionalProperties : String) :
    ∀ e ∈ (s.sendPayment sender them ccy amount messageId additionalProperties).events,
      e.trustlineNotification = none := by
  intro e he
  rcases eq_of_mem_sendPayment _ _ he with rfl | ⟨message, errorType, rfl⟩
  · rfl
  · rfl

/-- **One transaction** notifies rightly under its condition. -/
theorem notifiesRightly_step (tx : Address × TrustlineCall) :
    (∀ e ∈ (tx.2.exec s tx.1).events, RightlyNotified us e) ↔ NotifiesRightly us s tx := by
  obtain ⟨sender, call⟩ := tx
  cases call with
  | setLimit them ccy amount => exact setLimit_notifies us sender them s ccy amount
  | setAllow them ccy amount => exact setAllow_notifies us sender them s ccy amount
  | sendPayment them ccy amount messageId additionalProperties =>
    refine iff_of_true (fun e he n h_n => ?_) trivial
    have h_none := sendPayment_trustlineNotification sender them s ccy amount messageId
      additionalProperties e he
    exact absurd (h_none.symm.trans h_n) (by simp)

end Calls

/-! ### Runs -/

/-- Every event that was logged was emitted by one of the transactions. -/
theorem World.forall_mem_log_iff (P : Event → Prop) (txs : List (Address × TrustlineCall)) :
    (∀ e ∈ (World.after txs).log, P e) ↔
      Along (fun pre tx => ∀ e ∈ (tx.2.exec (World.after pre).contract tx.1).events, P e) txs := by
  induction txs using List.reverseRecOn with
  | nil => exact iff_of_true (fun e he => absurd he List.not_mem_nil) along_nil
  | append_singleton txs tx ih =>
    have h_log : (World.after (txs ++ [tx])).log = (World.after txs).log ++
        (tx.2.exec (World.after txs).contract tx.1).events := by
      rw [World.after, run_concat]
      rfl
    rw [h_log, along_concat, List.forall_mem_append, ih]

/-- **Notifications of the bank's own trustlines.** Along a run of the contract, all the
events that are delivered to the bank's listener are notified rightly if and only if each
transaction changes nothing, is in an unknown currency, is the bank's own `setLimit` on
another party, or is a `setAllow` between the bank and a larger address. -/
theorem trustlineNotifications_own_iff (us : Address) (txs : List (Address × TrustlineCall)) :
    (∀ e ∈ (World.after txs).log, RightlyNotified us e) ↔
      Along (fun pre tx => NotifiesRightly us (World.after pre).contract tx) txs :=
  (World.forall_mem_log_iff _ txs).trans
    (along_congr fun pre tx => notifiesRightly_step us (World.after pre).contract tx)

/-- Bank 2 limits bank 1 to owing it 5 pounds: bank 1 is told of itself. -/
theorem trustlineNotifications_not_own :
    ¬∀ e ∈ (World.after [(2, .setLimit 1 "GBP" 5)]).log, RightlyNotified 1 e := by
  intro h
  have h_log : (World.after [(2, .setLimit 1 "GBP" 5)]).log =
      [.trustlineModified 2 1 "GBP" "limit" 5 0 0 0] := by decide +kernel
  rw [h_log, List.forall_mem_singleton] at h
  exact (h _ trustlineNotification_eq).1 rfl

end Ethiso
