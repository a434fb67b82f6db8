import Ethiso.Contracts.Refinement

/-!
# Limits and allowances belong to the party that set them

In every state of the contract, the limit of `a` on `b` is the amount of the
latest `setLimit` call by `a` about `b` that the contract accepted, and the
allow of `a` towards `b` likewise (`figures_belong_to_setter`). The invariant
is stated on the ledger reading of the contract, where a setter writes the
figure of its own ordered pair: which field of which struct that is, is
settled in `PaymentService.setLimit_toLedger` and `setAllow_toLedger`.
-/

namespace Ethiso

open CreditLedger

/-- The amount of a `setLimit` call by `a` about `b` in `ccy`, if it is not negative. -/
def limitSet (a b : Address) (ccy : String) : Address × TrustlineCall → Option Int256
  | (sender, .setLimit them c amount) =>
    if sender = a ∧ them = b ∧ c = ccy ∧ 0 ≤ amount.toInt then some amount else none
  | _ => none

/-- The amount of a `setAllow` call by `a` towards `b` in `ccy`, if it is not negative. -/
def allowSet (a b : Address) (ccy : String) : Address × TrustlineCall → Option Int256
  | (sender, .setAllow them c amount) =>
    if sender = a ∧ them = b ∧ c = ccy ∧ 0 ≤ amount.toInt then some amount else none
  | _ => none

/-- A word is negative for Solidity exactly when it is as a number. -/
theorem slt_zero_eq_false_iff {v : Int256} : v.slt 0 = false ↔ 0 ≤ v.toInt := by
  rw [BitVec.slt_eq_decide]
  simp

/-- A figure that is put under its setter's ordered pair is the latest there, and no
other figure moves. -/
theorem put_eq_getD (f : Address → Address → String → Int256) (sender them a b : Address)
    (ccy k : String) {amount : Int256} (h_nonneg : 0 ≤ amount.toInt) :
    put f sender them ccy amount a b k =
      (if sender = a ∧ them = b ∧ ccy = k ∧ 0 ≤ amount.toInt then some amount else none).getD
        (f a b k) := by
  by_cases h_own : sender = a ∧ them = b ∧ ccy = k
  · obtain ⟨rfl, rfl, rfl⟩ := h_own
    rw [if_pos ⟨rfl, rfl, rfl, h_nonneg⟩]
    exact put_self _ _ _ _ _
  · rw [if_neg fun hc => h_own ⟨hc.1, hc.2.1, hc.2.2.1⟩]
    exact put_other _ fun hc => h_own ⟨hc.1.symm, hc.2.1.symm, hc.2.2.symm⟩

/-! ### The figures, one or the other -/

/-- The call that sets a figure. -/
def TrustlineCall.setFigure : Figure → Address → String → Int256 → TrustlineCall
  | .limit => .setLimit
  | .allow => .setAllow

/-- The amount of a call by `a` that sets the figure about `b`, if it is not negative. -/
def figureSet : Figure → Address → Address → String → Address × TrustlineCall → Option Int256
  | .limit => limitSet
  | .allow => allowSet

section Step

variable (s : PaymentService) (sender a b them : Address) (call : TrustlineCall) (ccy k : String)
  (amount : Int256)

/-- What a setter sets: one figure of one trustline, unless the amount is negative. -/
theorem figureSet_setFigure (F : Figure) :
    figureSet F a b k (sender, .setFigure F them ccy amount) =
      if sender = a ∧ them = b ∧ ccy = k ∧ 0 ≤ amount.toInt then some amount else none := by
  cases F <;> rfl

/-- The setter of the other figure does not set this one. -/
theorem figureSet_of_ne {F G : Figure} (h : F ≠ G) :
    figureSet F a b k (sender, .setFigure G them ccy amount) = none := by
  cases F <;> cases G <;> first | rfl | exact absurd rfl h

/-- What a setter does to a figure. -/
theorem exec_setFigure (F G : Figure) :
    (s.setFigure G sender them ccy amount).state.toLedger.figure F a b k =
      (figureSet F a b k (sender, .setFigure G them ccy amount)).getD
        (s.toLedger.figure F a b k) := by
  by_cases h_same : F = G
  · subst h_same
    rw [figureSet_setFigure]
    cases h_neg : amount.slt 0 with
    | true =>
      -- a negative amount is turned away, and is no setting either
      have h_neg' : ¬0 ≤ amount.toInt := fun hc => by
        rw [slt_zero_eq_false_iff.mpr hc] at h_neg
        exact Bool.false_ne_true h_neg
      rw [PaymentService.setFigure_negative _ _ _ _ _ _ h_neg, if_neg fun hc => h_neg' hc.2.2.2]
      rfl
    | false =>
      rw [PaymentService.setFigure_toLedger _ _ _ _ _ _ h_neg, figure_setFigure, if_pos rfl]
      exact put_eq_getD _ _ _ _ _ _ _ (slt_zero_eq_false_iff.mp h_neg)
  · rw [figureSet_of_ne _ _ _ _ _ _ _ h_same]
    exact congrFun₃ (s.figure_setFigure_of_ne sender them ccy amount h_same) a b k

/-- **What one transaction does to a figure**: a setter that its owner calls with an amount that is
not negative replaces it, and nothing else touches it. -/
theorem exec_figure (F : Figure) :
    (call.exec s sender).state.toLedger.figure F a b k =
      (figureSet F a b k (sender, call)).getD (s.toLedger.figure F a b k) := by
  cases call with
  | setLimit them ccy amount => exact exec_setFigure s sender a b them ccy k amount F .limit
  | setAllow them ccy amount => exact exec_setFigure s sender a b them ccy k amount F .allow
  | sendPayment them ccy amount messageId additionalProperties =>
    have h_same := @PaymentService.sendPayment_figure s sender them ccy amount messageId
      additionalProperties F
    cases F <;> exact congrFun₃ h_same a b k

end Step

/-- A figure that is set is not negative. -/
theorem figureSet_nonneg {F : Figure} {a b : Address} {ccy : String} {tx : Address × TrustlineCall}
    {v : Int256} (h : figureSet F a b ccy tx = some v) : 0 ≤ v.toInt := by
  -- a setter of the other figure sets nothing here
  have h_set (them : Address) (c : String) (amount : Int256) (G : Figure)
      (h : figureSet F a b ccy (tx.1, .setFigure G them c amount) = some v) : 0 ≤ v.toInt := by
    by_cases h_same : F = G
    · subst h_same
      rw [figureSet_setFigure] at h
      obtain ⟨h_own, h_v⟩ := Option.ite_none_right_eq_some.mp h
      exact Option.some.inj h_v ▸ h_own.2.2.2
    · rw [figureSet_of_ne _ _ _ _ _ _ _ h_same] at h
      cases h
  obtain ⟨sender, call⟩ := tx
  cases call with
  | setLimit them c amount => exact h_set them c amount .limit h
  | setAllow them c amount => exact h_set them c amount .allow h
  | sendPayment them c amount messageId additionalProperties => cases F <;> cases h

/-- A transaction leaves a figure that is not negative, or sets one. -/
theorem exec_figure_nonneg {s : PaymentService} {F : Figure} {a b : Address}
    {ccy : String} (h : 0 ≤ (s.toLedger.figure F a b ccy).toInt) (sender : Address)
    (call : TrustlineCall) : 0 ≤ ((call.exec s sender).state.toLedger.figure F a b ccy).toInt := by
  rw [exec_figure]
  cases h_set : figureSet F a b ccy (sender, call) with
  | none => exact h
  | some v => exact figureSet_nonneg h_set

/-- Every figure of the ledger is the latest its owner has set. -/
structure World.FiguresOwned (pre : List (Address × TrustlineCall)) (w : World) : Prop where
  limit : ∀ a b ccy, w.contract.toLedger.limit a b ccy = latest (limitSet a b ccy) 0 pre
  allow : ∀ a b ccy, w.contract.toLedger.allow a b ccy = latest (allowSet a b ccy) 0 pre

theorem World.figuresOwned_init : World.FiguresOwned [] World.init where
  limit a b ccy := by
    change PaymentService.empty.getLimit a b ccy false = 0
    simp [PaymentService.getLimit, PaymentService.getTrustlineValue, PaymentService.empty,
      TrustlineValue.zero]
  allow a b ccy := by
    change PaymentService.empty.getAllow a b ccy false = 0
    simp [PaymentService.getAllow, PaymentService.getTrustlineValue, PaymentService.empty,
      TrustlineValue.zero]

/-- Every figure is the latest its owner has set, after every run. -/
theorem World.after_figuresOwned (txs : List (Address × TrustlineCall)) :
    (World.after txs).FiguresOwned txs := by
  refine run_induction (World.figuresOwned_init) (fun pre tx h _ => ?_) txs
    (fun _ _ _ _ => trivial)
  obtain ⟨sender, call⟩ := tx
  refine ⟨?_, ?_⟩
  -- the limit
  · intro a b ccy
    rw [latest_concat, ← h.limit]
    exact exec_figure _ sender a b call ccy .limit
  -- the allowance
  · intro a b ccy
    rw [latest_concat, ← h.allow]
    exact exec_figure _ sender a b call ccy .allow

/-! ### The result -/

/-- **Limits and allowances belong to the party that set them.** For distinct
`a` and `b`, `a` is told the latest limit and allow it has itself set about
`b`, and `b` is told the same figures when it asks with `reverse` set. -/
theorem figures_belong_to_setter (txs : List (Address × TrustlineCall)) {a b : Address}
    (h : a ≠ b) (ccy : String) :
    (World.after txs).contract.getLimit a b ccy false = latest (limitSet a b ccy) 0 txs ∧
      (World.after txs).contract.getAllow a b ccy false = latest (allowSet a b ccy) 0 txs ∧
      ∀ r, (World.after txs).contract.getLimit a b ccy r =
          (World.after txs).contract.getLimit b a ccy (!r) ∧
        (World.after txs).contract.getAllow a b ccy r =
          (World.after txs).contract.getAllow b a ccy (!r) := by
  have h_own := World.after_figuresOwned txs
  refine ⟨h_own.limit a b ccy, h_own.allow a b ccy, fun r => ⟨?_, ?_⟩⟩
  · exact PaymentService.getLimit_reverse _ _ _ _ r h
  · exact PaymentService.getAllow_reverse _ _ _ _ r h

/-- The larger address sets a limit twice, the second time to a negative amount. -/
theorem figures_belong_to_setter_larger :
    (World.after [(2, .setLimit 1 "GBP" 5), (2, .setLimit 1 "GBP" (-7))]).contract.getLimit
        2 1 "GBP" false = 5 :=
  (figures_belong_to_setter [(2, .setLimit 1 "GBP" 5), (2, .setLimit 1 "GBP" (-7))]
    (show (2 : Address) ≠ 1 by decide) "GBP").1.trans (by decide)

end Ethiso
