import Ethiso.Contracts.PaymentService
import Ethiso.Framework.CreditLedger
import Mathlib.Data.BitVec
import Mathlib.Tactic.Ring

/-!
# The contract keeps a credit ledger

The contract stores a trustline once, in a cell addressed by the smaller of the
two addresses, and picks the fields of the cell by the role of the sender. The
abstract `CreditLedger` has no roles: every figure is kept under the ordered
pair it is about. `PaymentService.toLedger` reads the contract as such a
ledger, through the contract's own queries, each asked by the first party of
the pair.

Under that reading every function of the contract is the ledger operation of
the same name (`setLimit_toLedger`, `setAllow_toLedger`,
`sendPayment_admitted`), or it leaves the contract untouched
(`setLimit_negative`, `setAllow_negative`, `sendPayment_refused`). The results
on runs of the contract use these six facts and never open the role tests
again. Each is proved by reading one cell out of a storage in which one cell
was written (`getTrustlineValue_putTrustlineValue`); the two roles the reader
can have against the writer are settled there.
-/

namespace Ethiso

namespace PaymentService

variable (s : PaymentService) (us them a b : Address) (ccy k : String) (amount : Int256)

/-! ### The storage cell of a pair -/

/-- Both parties of a trustline get the same cell. -/
theorem getTrustlineValue_comm :
    s.getTrustlineValue them us ccy = s.getTrustlineValue us them ccy := by
  unfold getTrustlineValue
  -- two addresses are ordered one way, the other way, or equal
  by_cases h : us < them
  · have h' : ¬them < us := BitVec.lt_asymm h
    rw [if_pos h, if_neg h']
  · by_cases h' : them < us
    · rw [if_neg h, if_pos h']
    · have h_eq : us = them := BitVec.le_antisymm (BitVec.not_lt.mp h') (BitVec.not_lt.mp h)
      rw [h_eq]

/-- What is read after one trustline was written. -/
theorem getTrustlineValue_putTrustlineValue (tlv : TrustlineValue) :
    (s.putTrustlineValue us them ccy tlv).getTrustlineValue a b k =
      if ((a = us ∧ b = them) ∨ (a = them ∧ b = us)) ∧ k = ccy then tlv
      else s.getTrustlineValue a b k := by
  unfold getTrustlineValue putTrustlineValue
  grind

/-! ### Reading the contract as a ledger -/

/-- The contract as a ledger of ordered pairs: each figure is what the first
party of the pair is told when it asks. -/
def toLedger : CreditLedger Address String Int256 where
  limit a b ccy := s.getLimit a b ccy false
  allow a b ccy := s.getAllow a b ccy false
  owed a b ccy := s.getAmountOwedTo a b ccy

/-- A party asking with `reverse` set is told the other party's limit. -/
theorem getLimit_reverse (r : Bool) (h : a ≠ b) :
    s.getLimit a b ccy r = s.getLimit b a ccy (!r) := by
  unfold getLimit senderIsP1Against
  rw [s.getTrustlineValue_comm a b ccy]
  grind

/-- A party asking with `reverse` set is told the other party's allow. -/
theorem getAllow_reverse (r : Bool) (h : a ≠ b) :
    s.getAllow a b ccy r = s.getAllow b a ccy (!r) := by
  unfold getAllow senderIsP1Against
  rw [s.getTrustlineValue_comm a b ccy]
  grind

/-! ### The functions as ledger operations -/

/-- A negative limit is turned away. -/
theorem setLimit_negative (h : amount.slt 0 = true) :
    s.setLimit us them ccy amount = ⟨s, [], false⟩ := by
  rw [setLimit, if_pos h]

/-- A negative allow is turned away. -/
theorem setAllow_negative (h : amount.slt 0 = true) :
    s.setAllow us them ccy amount = ⟨s, [], false⟩ := by
  rw [setAllow, if_pos h]

/-- **`setLimit` sets the sender's limit**, and no other figure. -/
theorem setLimit_toLedger (h : amount.slt 0 = false) :
    (s.setLimit us them ccy amount).state.toLedger =
      s.toLedger.setLimit us them ccy amount := by
  ext a b k
  · simp only [toLedger, CreditLedger.setLimit, CreditLedger.put, setLimit, getLimit, h,
      senderIsP1Against]
    grind [getTrustlineValue_putTrustlineValue, getTrustlineValue_comm]
  · -- a limit is never an allow: `tlv.p2OwesP1` is read at `allow` only
    simp only [toLedger, CreditLedger.setLimit, setLimit, getAllow, senderIsP1Against]
    grind [getTrustlineValue_putTrustlineValue, getTrustlineValue_comm]
  · simp only [toLedger, CreditLedger.setLimit, setLimit, getAmountOwedTo, senderIsP1Against]
    grind [getTrustlineValue_putTrustlineValue, getTrustlineValue_comm]

/-- **`setAllow` sets the sender's allow**, and no other figure. -/
theorem setAllow_toLedger (h : amount.slt 0 = false) :
    (s.setAllow us them ccy amount).state.toLedger =
      s.toLedger.setAllow us them ccy amount := by
  ext a b k
  · simp only [toLedger, CreditLedger.setAllow, setAllow, getLimit, senderIsP1Against]
    grind [getTrustlineValue_putTrustlineValue, getTrustlineValue_comm]
  · simp only [toLedger, CreditLedger.setAllow, CreditLedger.put, setAllow, getAllow, h,
      senderIsP1Against]
    grind [getTrustlineValue_putTrustlineValue, getTrustlineValue_comm]
  · simp only [toLedger, CreditLedger.setAllow, setAllow, getAmountOwedTo, senderIsP1Against]
    grind [getTrustlineValue_putTrustlineValue, getTrustlineValue_comm]

/-! ### The two setters as one -/

/-- The setter of a figure. -/
def setFigure : CreditLedger.Figure → Address → Address → String → Int256 → Result
  | .limit => s.setLimit
  | .allow => s.setAllow

/-- What the sender is told when it asks for a figure. -/
def getFigure : CreditLedger.Figure → Address → Address → String → Bool → Int256
  | .limit => s.getLimit
  | .allow => s.getAllow

section Figures

variable (F : CreditLedger.Figure)

/-- A negative amount is turned away. -/
theorem setFigure_negative (h : amount.slt 0 = true) :
    s.setFigure F us them ccy amount = ⟨s, [], false⟩ := by
  cases F with
  | limit => exact s.setLimit_negative us them ccy amount h
  | allow => exact s.setAllow_negative us them ccy amount h

/-- **A setter sets the sender's figure**, and no other. -/
theorem setFigure_toLedger (h : amount.slt 0 = false) :
    (s.setFigure F us them ccy amount).state.toLedger =
      s.toLedger.setFigure F us them ccy amount := by
  cases F with
  | limit => exact s.setLimit_toLedger us them ccy amount h
  | allow => exact s.setAllow_toLedger us them ccy amount h

/-- The other figure stays, whatever the amount. -/
theorem figure_setFigure_of_ne {F G : CreditLedger.Figure} (h_ne : F ≠ G) :
    (s.setFigure G us them ccy amount).state.toLedger.figure F = s.toLedger.figure F := by
  cases h : amount.slt 0 with
  | true => rw [setFigure_negative _ _ _ _ _ _ h]
  | false => rw [setFigure_toLedger _ _ _ _ _ _ h, CreditLedger.figure_setFigure, if_neg h_ne]

/-- A setter moves no debt. -/
theorem setFigure_owed :
    (s.setFigure F us them ccy amount).state.toLedger.owed = s.toLedger.owed := by
  cases h : amount.slt 0 with
  | true => rw [setFigure_negative _ _ _ _ _ _ h]
  | false => rw [setFigure_toLedger _ _ _ _ _ _ h, CreditLedger.owed_setFigure]

/-- What the ledger reading has of a figure is what is told; in reverse, it is the other pair's. -/
theorem getFigure_eq (h_ne : us ≠ them) (r : Bool) :
    s.getFigure F us them ccy r =
      if r then s.toLedger.figure F them us ccy else s.toLedger.figure F us them ccy := by
  cases F with
  | limit => cases r with
    | false => rfl
    | true => exact s.getLimit_reverse us them ccy true h_ne
  | allow => cases r with
    | false => rfl
    | true => exact s.getAllow_reverse us them ccy true h_ne

end Figures

/-! ### Payments -/

/-- The write of an accepted payment. -/
def book : PaymentService :=
  let tlv := s.getTrustlineValue us them ccy
  s.putTrustlineValue us them ccy
    { tlv with
      p2OwesP1Amount :=
        if senderIsP1Against us them then tlv.p2OwesP1Amount - amount
        else tlv.p2OwesP1Amount + amount }

variable {us them}

/-- The write of an accepted payment is the book entry of a transfer. -/
theorem book_toLedger (h : us ≠ them) :
    (s.book us them ccy amount).toLedger = s.toLedger.pay us them ccy amount := by
  ext a b k
  · simp only [toLedger, CreditLedger.pay, book, getLimit, senderIsP1Against]
    grind [getTrustlineValue_putTrustlineValue, getTrustlineValue_comm]
  · simp only [toLedger, CreditLedger.pay, book, getAllow, senderIsP1Against]
    grind [getTrustlineValue_putTrustlineValue, getTrustlineValue_comm]
  · simp only [toLedger, CreditLedger.pay, book, getAmountOwedTo, senderIsP1Against]
    grind [getTrustlineValue_putTrustlineValue, getTrustlineValue_comm]

/-- The contract takes the payment: the payee is another, valid address, the
amount is not negative, and the debt the contract computes is within the
payee's limit on the sender and the sender's own allow. -/
def Admits (s : PaymentService) (us them : Address) (ccy : String) (amount : Int256) : Prop :=
  them ≠ 0 ∧ them ≠ us ∧ amount.slt 0 = false ∧
    (s.toLedger.owed us them ccy + amount).sle (s.toLedger.limit them us ccy) = true ∧
    (s.toLedger.owed us them ccy + amount).sle (s.toLedger.allow us them ccy) = true

variable (messageId additionalProperties : String)

/-- The two branches of `sendPayment` make one comparison, in ledger terms: as
p1 the sender negates the cell, as p2 it reads it as it is. -/
theorem sendPayment_eq (h_zero : them ≠ 0) (h_self : them ≠ us)
    (h_neg : amount.slt 0 = false) :
    s.sendPayment us them ccy amount messageId additionalProperties =
      if (s.toLedger.owed us them ccy + amount).sle (s.toLedger.limit them us ccy) &&
          (s.toLedger.owed us them ccy + amount).sle (s.toLedger.allow us them ccy) then
        ⟨s.book us them ccy amount,
          [.paymentMessage us them messageId amount ccy additionalProperties,
            .resultMessage us messageId "payment successful" 0], true⟩
      else
        ⟨s, [.resultMessage us messageId "payment would exceed limits" 4], true⟩ := by
  unfold sendPayment
  rw [if_neg h_zero, if_neg h_self, h_neg, if_neg Bool.false_ne_true]
  -- which fields of the cell are compared depends on the role of the sender
  by_cases h_role : us < them
  · have h_role' : ¬them < us := BitVec.lt_asymm h_role
    have h_new : -((s.getTrustlineValue us them ccy).p2OwesP1Amount - amount) =
        s.toLedger.owed us them ccy + amount := by
      simp only [toLedger, getAmountOwedTo, senderIsP1Against, if_pos h_role, if_true]
      ring
    have h_lim : (s.getTrustlineValue us them ccy).p1OwesP2.limit =
        s.toLedger.limit them us ccy := by
      simp [toLedger, getLimit, senderIsP1Against, h_role', s.getTrustlineValue_comm us them]
    have h_all : (s.getTrustlineValue us them ccy).p1OwesP2.allow =
        s.toLedger.allow us them ccy := by
      simp [toLedger, getAllow, senderIsP1Against, h_role]
    simp only [senderIsP1Against, if_pos h_role, if_true, h_new, h_lim, h_all, book]
  · have h_role' : them < us :=
      BitVec.not_le.mp fun hc => h_self (BitVec.le_antisymm (BitVec.not_lt.mp h_role) hc)
    have h_new : (s.getTrustlineValue us them ccy).p2OwesP1Amount + amount =
        s.toLedger.owed us them ccy + amount := by
      simp [toLedger, getAmountOwedTo, senderIsP1Against, h_role]
    have h_lim : (s.getTrustlineValue us them ccy).p2OwesP1.limit =
        s.toLedger.limit them us ccy := by
      simp [toLedger, getLimit, senderIsP1Against, h_role', s.getTrustlineValue_comm us them]
    have h_all : (s.getTrustlineValue us them ccy).p2OwesP1.allow =
        s.toLedger.allow us them ccy := by
      simp [toLedger, getAllow, senderIsP1Against, h_role]
    simp only [senderIsP1Against, if_neg h_role, Bool.false_eq_true, if_false, h_new, h_lim,
      h_all, book]

/-- **A payment the contract takes** books one transfer and reports it, and
does nothing else. -/
theorem sendPayment_admitted (h : s.Admits us them ccy amount) :
    s.sendPayment us them ccy amount messageId additionalProperties =
      ⟨s.book us them ccy amount,
        [.paymentMessage us them messageId amount ccy additionalProperties,
          .resultMessage us messageId "payment successful" 0], true⟩ := by
  obtain ⟨h_zero, h_self, h_neg, h_limit, h_allow⟩ := h
  rw [sendPayment_eq s ccy amount _ _ h_zero h_self h_neg, h_limit, h_allow]
  rfl

/-- **A payment the contract does not take** leaves it untouched and reports a
single error. -/
theorem sendPayment_refused (h : ¬s.Admits us them ccy amount) :
    ∃ message errorType succeeded, errorType ≠ 0 ∧
      s.sendPayment us them ccy amount messageId additionalProperties =
        ⟨s, [.resultMessage us messageId message errorType], succeeded⟩ := by
  -- the four ways to be turned away, in the order in which the code checks them
  by_cases h_zero : them = 0
  · exact ⟨_, 1, false, by decide, by rw [sendPayment, if_pos h_zero]⟩
  by_cases h_self : them = us
  · exact ⟨_, 2, false, by decide, by rw [sendPayment, if_neg h_zero, if_pos h_self]⟩
  by_cases h_neg : amount.slt 0 = true
  · exact ⟨_, 3, false, by decide,
      by rw [sendPayment, if_neg h_zero, if_neg h_self, if_pos h_neg]⟩
  rw [Bool.not_eq_true] at h_neg
  refine ⟨"payment would exceed limits", 4, true, by decide, ?_⟩
  rw [sendPayment_eq s ccy amount _ _ h_zero h_self h_neg, if_neg]
  rw [Bool.and_eq_true]
  exact fun hc => h ⟨h_zero, h_self, h_neg, hc.1, hc.2⟩

/-- A payment, taken or not, leaves every limit and every allow alone. -/
theorem sendPayment_figure (F : CreditLedger.Figure) :
    (s.sendPayment us them ccy amount messageId additionalProperties).state.toLedger.figure F =
      s.toLedger.figure F := by
  by_cases h : s.Admits us them ccy amount
  · rw [sendPayment_admitted _ _ _ _ _ h, book_toLedger _ _ _ h.2.1.symm]
    cases F <;> rfl
  · obtain ⟨message, errorType, succeeded, -, h_eq⟩ :=
      s.sendPayment_refused ccy amount messageId additionalProperties h
    rw [h_eq]

end PaymentService

end Ethiso
