import Ethiso.Domain.TrustlineValue
import Ethiso.Framework.HighWater

/-!
# The debts on a Java trustline

Any code that has a handle on a trustline may call it, with any amounts, and make further
handles by reversing it. What the others see changes with each call, since all handles
share the objects; but a handle says no more than whose handle it is.

A debt may exceed what is in force now, if a limit was lowered after a payment. It is
bounded by the largest figure that was in force when an earlier payment to the same party
was accepted (`wellBehaved`). A payment in the other direction only lowers it.
-/

namespace Ethiso.Domain

open Domain.TrustlineValue

/-- A call through one of the handles. -/
inductive Call
  | setLimit (tv : TrustlineValue) (limitAmount : ℤ)
  | setAllow (tv : TrustlineValue) (allowAmount : ℤ)
  | sendPayment (tv : TrustlineValue) (paymentAmount : ℤ)

namespace Call

/-- The call of the method. -/
def invoke (o : DefaultTrustlineView) : Call → Invocation DefaultTrustlineView
  | setLimit tv limitAmount => tv.setLimit o limitAmount
  | setAllow tv allowAmount => tv.setAllow o allowAmount
  | sendPayment tv paymentAmount => tv.sendPayment o paymentAmount

/-- The object after the call. -/
def step (o : DefaultTrustlineView) (c : Call) : DefaultTrustlineView := (c.invoke o).state

/-- The objects after calls on a new trustline. -/
abbrev after (l : List Call) : DefaultTrustlineView := run step .zero l

/-- What is in force for the payments to a party, if the call is such a payment and returns. -/
def acceptedBound (p : Party) (o : DefaultTrustlineView) : Call → Option ℤ
  | sendPayment tv paymentAmount =>
    if tv.view.owner = p ∧ (tv.sendPayment o paymentAmount).thrown = none then some (o.inForce p)
    else none
  | _ => none

end Call

/-! ### One call -/

/-- No limit and no allow is negative. -/
def AllowAndLimit.Nonneg (x : AllowAndLimit) : Prop := 0 ≤ x.limit ∧ 0 ≤ x.allow

/-- What the two setters have in common. -/
structure AllowAndLimit.IsSetter (method : AllowAndLimit → Invocation AllowAndLimit) : Prop where
  nonneg : ∀ x : AllowAndLimit, x.Nonneg → (method x).state.Nonneg
  unchanged : ∀ x, (method x).thrown ≠ none → (method x).state = x

/-- `setLimit` sets its figure or throws. -/
theorem AllowAndLimit.isSetter_setLimit (n : ℤ) : IsSetter fun x => x.setLimit n := by
  unfold setLimit
  refine ⟨?_, ?_⟩
  · intro x h
    split_ifs with h_sign
    · exact h
    · exact ⟨not_lt.mp fun h_neg => h_sign (Int.sign_eq_neg_one_iff_neg.mpr h_neg), h.2⟩
  · intro x h
    split_ifs at h ⊢
    · rfl
    · exact absurd rfl h

theorem AllowAndLimit.isSetter_setAllow (n : ℤ) : IsSetter fun x => x.setAllow n := by
  unfold setAllow
  refine ⟨?_, ?_⟩
  · intro x h
    split_ifs with h_sign
    · exact h
    · exact ⟨h.1, not_lt.mp fun h_neg => h_sign (Int.sign_eq_neg_one_iff_neg.mpr h_neg)⟩
  · intro x h
    split_ifs at h ⊢
    · rfl
    · exact absurd rfl h

/-- No figure is negative. -/
def DefaultTrustlineView.Nonneg (o : DefaultTrustlineView) : Prop := ∀ r, (o.deref r).Nonneg

namespace Call

variable {o : DefaultTrustlineView} {c : Call}

/-- A call sets a figure, or it is a payment. -/
theorem invoke_cases (o : DefaultTrustlineView) (c : Call) :
    (∃ r method, AllowAndLimit.IsSetter method ∧ c.invoke o = o.invoke r method) ∨
      ∃ tv paymentAmount, c = sendPayment tv paymentAmount := by
  cases c with
  | setLimit tv n => exact Or.inl ⟨_, _, AllowAndLimit.isSetter_setLimit n, rfl⟩
  | setAllow tv n => exact Or.inl ⟨_, _, AllowAndLimit.isSetter_setAllow n, rfl⟩
  | sendPayment tv n => exact Or.inr ⟨tv, n, rfl⟩

/-- A call that throws leaves the object as it was. -/
theorem unchanged_of_thrown (h : (c.invoke o).thrown ≠ none) : (c.invoke o).state = o := by
  rcases invoke_cases o c with ⟨r, method, h_set, h_eq⟩ | ⟨tv, n, rfl⟩
  · rw [h_eq, DefaultTrustlineView.invoke_thrown] at h
    rw [h_eq]
    exact DefaultTrustlineView.invoke_of_same (h_set.unchanged _ h)
  · rcases tv.sendPayment_cases o n with ⟨-, h_eq⟩ | ⟨-, e, h_eq⟩
    · exact absurd (congrArg Invocation.thrown h_eq) h
    · exact congrArg Invocation.state h_eq

/-- **A call** leaves no figure negative. -/
theorem nonneg_step (h : o.Nonneg) (c : Call) : (c.invoke o).state.Nonneg := by
  rcases invoke_cases o c with ⟨r, method, h_set, h_eq⟩ | ⟨tv, n, rfl⟩
  -- a setter changes one pair of figures
  · intro r'
    rw [h_eq, DefaultTrustlineView.deref_invoke]
    split_ifs
    · exact h_set.nonneg _ (h r)
    · exact h r'
  -- a payment changes none
  · intro r'
    rcases tv.sendPayment_cases o n with ⟨-, h_eq⟩ | ⟨-, e, h_eq⟩
    · have h_state : (sendPayment tv n).invoke o = ⟨tv.withBalance o _, none⟩ := h_eq
      rw [h_state]
      cases r' with
      | p1ToP2 => exact h .p1ToP2
      | p2ToP1 => exact h .p2ToP1
    · have h_state : (sendPayment tv n).invoke o = ⟨o, some e⟩ := h_eq
      rw [h_state]
      exact h r'

/-- What the other party owes rises by an accepted payment to the party only, and then it is
within what is in force. -/
theorem owed_step (p : Party) (o : DefaultTrustlineView) (c : Call) :
    p.signed (step o c).p2OwesP1 ≤ p.signed o.p2OwesP1 ∨
      ∃ v, c.acceptedBound p o = some v ∧ p.signed (step o c).p2OwesP1 ≤ v := by
  unfold step
  rcases invoke_cases o c with ⟨r, method, -, h_eq⟩ | ⟨tv, n, rfl⟩
  · rw [h_eq, DefaultTrustlineView.invoke_p2OwesP1]
    exact Or.inl le_rfl
  rcases tv.sendPayment_cases o n with ⟨⟨h_nonneg, h_le⟩, h_eq⟩ | ⟨-, e, h_eq⟩
  · have h_state : (sendPayment tv n).invoke o = ⟨tv.withBalance o _, none⟩ := h_eq
    rw [h_state]
    unfold withBalance
    dsimp only
    by_cases h_owner : tv.view.owner = p
    · refine Or.inr ⟨o.inForce p, if_pos ⟨h_owner, congrArg Invocation.thrown h_eq⟩, ?_⟩
      rw [h_owner] at h_le ⊢
      rw [Party.signed_signed]
      exact h_le
    -- a payment to the other party lowers it
    · obtain rfl : p = tv.view.owner.other := by
        revert h_owner
        cases p <;> cases tv.view.owner <;> decide
      apply Or.inl
      rw [Party.signed_other, Party.signed_other, Party.signed_signed, tv.getBalance_eq]
      omega
  · have h_state : (sendPayment tv n).invoke o = ⟨o, some e⟩ := h_eq
    rw [h_state]
    exact Or.inl le_rfl

/-! ### Runs -/

/-- What holds after calls on a new trustline, through any of its handles: the other party owes
at most what was in force when one of its payments was accepted, and nothing if none was; no
figure is negative; the reversed handle sees the negated balance; and a further call that throws
changes nothing. -/
structure WellBehaved (l : List Call) : Prop where
  bounded : ∀ tv : TrustlineValue,
    tv.getBalance (after l) ≤ largest 0 (given step (acceptedBound tv.view.owner) .zero l)
  nonneg : ∀ tv : TrustlineValue, 0 ≤ tv.getLimit (after l) ∧ 0 ≤ tv.getAllow (after l)
  negated : ∀ tv : TrustlineValue,
    tv.reverse.getBalance (after l) = -tv.getBalance (after l)
  unchanged : ∀ c : Call, (c.invoke (after l)).thrown ≠ none → (c.invoke (after l)).state = after l

/-- **Debts are bounded** by what was in force for an accepted payment. -/
theorem wellBehaved (l : List Call) : WellBehaved l where
  bounded := by
    intro tv
    rw [tv.getBalance_eq]
    -- nobody owes anything at the start
    have h_init : tv.view.owner.signed DefaultTrustlineView.zero.p2OwesP1 ≤ 0 := by
      cases tv.view.owner <;> exact le_rfl
    exact @run_le_largest DefaultTrustlineView Call ℤ _ 0 step (acceptedBound tv.view.owner) .zero
      (fun o => tv.view.owner.signed o.p2OwesP1) h_init (owed_step tv.view.owner) l
  nonneg := by
    intro tv
    have h_init : DefaultTrustlineView.zero.Nonneg := fun r => by
      cases r <;> exact ⟨le_rfl, le_rfl⟩
    -- the figures stay as they should, by the step lemma
    have h_figures : (after l).Nonneg := run_invariant h_init (fun o c h => nonneg_step h c) l
    exact ⟨(h_figures _).1, (h_figures _).2⟩
  negated _ := rfl
  unchanged _ := unchanged_of_thrown

end Call

end Ethiso.Domain
