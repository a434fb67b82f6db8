import Ethiso.Contracts.Refinement
import Mathlib.Data.Int.ModEq

/-!
# The ledger agrees with its event log

Every `PaymentMessage` the contract emits reports one transfer. This module
shows that the debts in storage are the net of the reported transfers modulo
`2 ^ 256` (`ledger_agrees_with_log`), by carrying `CreditLedger.Accounts` along
the runs of the contract, the additive map being the reduction of an exact
amount to a 256-bit word.

Only a payment the contract takes both moves a debt and emits a
`PaymentMessage`; it does both once and for the same figure
(`sendPayment_admitted`, `book_toLedger`). The two setters and the refused
payments touch neither the debts nor the reported transfers.
-/

namespace Ethiso

open CreditLedger

/-- The transfer an event reports. -/
def Event.transfer : Event → Option (Transfer Address String ℤ)
  | .paymentMessage fromBank toBank _ amount ccy _ => some ⟨fromBank, toBank, ccy, amount.toInt⟩
  | _ => none

/-- The transfers a log reports, oldest first. -/
def transfers (log : List Event) : List (Transfer Address String ℤ) :=
  log.filterMap Event.transfer

/-- The sum of the amounts of all `PaymentMessage` events from `a` to `b` in `ccy`. -/
def paid (log : List Event) (a b : Address) (ccy : String) : ℤ :=
  total (transfers log) a b ccy

/-- An exact amount as a 256-bit word. -/
def word : ℤ →+ Int256 := Int.castAddHom Int256

/-- A figure is the word of its integer. -/
theorem word_toInt (v : Int256) : word v.toInt = v := by
  apply BitVec.eq_of_toInt_eq
  change ((v.toInt : ℤ) : Int256).toInt = v.toInt
  rw [BitVec.toInt_intCast]
  exact BitVec.toInt_bmod_cancel v

/-- Reading a word back gives the exact amount modulo `2 ^ 256`. -/
theorem toInt_word (n : ℤ) : (word n).toInt ≡ n [ZMOD 2 ^ 256] := by
  change ((n : ℤ) : Int256).toInt ≡ n [ZMOD 2 ^ 256]
  rw [BitVec.toInt_intCast]
  exact Int.bmod_emod

/-! ### The invariant -/

namespace PaymentService

variable (s : PaymentService) (us them : Address) (ccy : String) (amount : Int256)

theorem setLimit_transfers : transfers (s.setLimit us them ccy amount).events = [] := by
  unfold setLimit
  dsimp only
  split_ifs <;> rfl

theorem setAllow_transfers : transfers (s.setAllow us them ccy amount).events = [] := by
  unfold setAllow
  dsimp only
  split_ifs <;> rfl

end PaymentService

/-- The debts in storage account for the transfers in the log. -/
def World.Booked (w : World) : Prop :=
  Accounts word (transfers w.log) w.contract.toLedger

/-- Nothing is owed at the start. -/
theorem World.owed_init (a b : Address) (ccy : String) :
    World.init.contract.toLedger.owed a b ccy = 0 := by
  change PaymentService.empty.getAmountOwedTo a b ccy = 0
  simp [PaymentService.getAmountOwedTo, PaymentService.getTrustlineValue,
    PaymentService.empty, TrustlineValue.zero]

theorem World.booked_init : World.init.Booked := by
  intro a b ccy
  rw [World.owed_init]
  change 0 = word (net [] a b ccy)
  rw [net_nil, map_zero]

/-- **One transaction keeps the books.** -/
theorem World.Booked.step {w : World} (h : w.Booked) (tx : Address × TrustlineCall) :
    (w.step tx).Booked := by
  obtain ⟨sender, call⟩ := tx
  unfold World.Booked World.step transfers
  rw [List.filterMap_append]
  -- the setters report no transfer and move no debt
  cases call with
  | setLimit them ccy amount =>
    have h_log := w.contract.setLimit_transfers sender them ccy amount
    unfold transfers at h_log
    simp only [TrustlineCall.exec, h_log, List.append_nil]
    intro a b k
    exact (congrFun₃ (w.contract.setFigure_owed sender them ccy amount .limit) a b k).trans
      (h a b k)
  | setAllow them ccy amount =>
    have h_log := w.contract.setAllow_transfers sender them ccy amount
    unfold transfers at h_log
    simp only [TrustlineCall.exec, h_log, List.append_nil]
    intro a b k
    exact (congrFun₃ (w.contract.setFigure_owed sender them ccy amount .allow) a b k).trans
      (h a b k)
  | sendPayment them ccy amount messageId additionalProperties =>
    by_cases h_adm : w.contract.Admits sender them ccy amount
    · -- the transfer reported is the one booked, and its parties are distinct
      have h_ne : sender ≠ them := h_adm.2.1.symm
      simp only [TrustlineCall.exec, PaymentService.sendPayment_admitted _ _ _ _ _ h_adm]
      rw [PaymentService.book_toLedger _ _ _ h_ne]
      have h_pay := Accounts.pay h ⟨sender, them, ccy, amount.toInt⟩ h_ne
      rw [word_toInt] at h_pay
      exact h_pay
    -- a refused payment reports an error only
    · obtain ⟨message, errorType, succeeded, -, h_eq⟩ :=
        w.contract.sendPayment_refused ccy amount messageId additionalProperties h_adm
      have h_log : [Event.resultMessage sender messageId message errorType].filterMap
          Event.transfer = [] := rfl
      simp only [TrustlineCall.exec, h_eq, h_log, List.append_nil]
      exact h

/-- **In every run** the ledger is what the log says. -/
theorem World.after_booked (txs : List (Address × TrustlineCall)) : (World.after txs).Booked :=
  run_invariant World.booked_init (fun _ tx h => h.step tx) txs

/-! ### The result -/

/-- The call is one of the two parties against the other, in the currency. -/
def TrustlineCall.Concerns (sender : Address) (call : TrustlineCall) (a b : Address)
    (ccy : String) : Prop :=
  call.ccy = ccy ∧ ((sender = a ∧ call.them = b) ∨ (sender = b ∧ call.them = a))

/-- A call about another pair or another currency moves no debt of this one. -/
theorem TrustlineCall.owed_of_not_concerns {sender : Address} {call : TrustlineCall}
    {a b : Address} {ccy : String} (s : PaymentService)
    (h : ¬call.Concerns sender a b ccy) :
    (call.exec s sender).state.getAmountOwedTo a b ccy = s.getAmountOwedTo a b ccy := by
  change (call.exec s sender).state.toLedger.owed a b ccy = s.toLedger.owed a b ccy
  cases call with
  | setLimit them ccy' amount =>
    exact congrFun₃ (s.setFigure_owed sender them ccy' amount .limit) a b ccy
  | setAllow them ccy' amount =>
    exact congrFun₃ (s.setFigure_owed sender them ccy' amount .allow) a b ccy
  -- an admitted payment changes what its two parties owe each other
  | sendPayment them ccy' amount messageId additionalProperties =>
    rw [TrustlineCall.exec]
    by_cases h_adm : s.Admits sender them ccy' amount
    · rw [PaymentService.sendPayment_admitted _ _ _ _ _ h_adm,
        PaymentService.book_toLedger _ _ _ h_adm.2.1.symm]
      refine pay_owed_other _ _ _ _ _ fun hc => h ⟨hc.1.symm, ?_⟩
      rcases hc.2 with ⟨rfl, rfl⟩ | ⟨rfl, rfl⟩
      · exact Or.inl ⟨rfl, rfl⟩
      · exact Or.inr ⟨rfl, rfl⟩
    -- a rejected payment changes nothing
    · obtain ⟨message, errorType, succeeded, -, h_eq⟩ :=
        s.sendPayment_refused ccy' amount messageId additionalProperties h_adm
      rw [h_eq]

/-- **The ledger agrees with its event log.** After any run, what `a` is told
it owes `b` is, modulo `2 ^ 256`, the payments reported from `a` to `b` less
those from `b` to `a`; it is the negation of what `b` is told; and no call
about another pair or currency moves it. -/
theorem ledger_agrees_with_log (txs : List (Address × TrustlineCall)) (a b : Address)
    (ccy : String) :
    ((World.after txs).contract.getAmountOwedTo a b ccy).toInt ≡
        paid (World.after txs).log a b ccy - paid (World.after txs).log b a ccy
        [ZMOD 2 ^ 256] ∧
      (World.after txs).contract.getAmountOwedTo a b ccy =
        -(World.after txs).contract.getAmountOwedTo b a ccy ∧
      ∀ sender call, ¬TrustlineCall.Concerns sender call a b ccy →
        (call.exec (World.after txs).contract sender).state.getAmountOwedTo a b ccy =
          (World.after txs).contract.getAmountOwedTo a b ccy := by
  have h := World.after_booked txs
  refine ⟨?_, ?_, fun sender call hc => TrustlineCall.owed_of_not_concerns _ hc⟩
  · have h_net : (World.after txs).contract.getAmountOwedTo a b ccy =
        word (net (transfers (World.after txs).log) a b ccy) := h a b ccy
    rw [h_net]
    exact toInt_word _
  · exact h.owed_swap b a ccy

end Ethiso
