import Mathlib.Data.Int.Order.Basic
import Mathlib.Algebra.Order.Group.Int
import Mathlib.Algebra.Ring.Int.Defs
import Mathlib.Logic.Function.Iterate

/-!
# The Java trustline

`TrustlineValue.java`, the trustline that the Java services keep in memory. One
`DefaultTrustlineView` object holds the balance and two `AllowAndLimit` objects;
a `TrustlineValue` is a handle on it, through a view. `reverse` wraps the view
of a handle in a `ReverseTrustlineView`, which delegates every access to the
view below it with the two parties exchanged, and may itself be reversed again.

All handles obtained from one trustline share its objects, so the objects are
the state and a handle is a value (`TrustlineView` is the chain of delegates
down to the shared object). A method is a function of the state; it returns the
state it leaves behind and the exception it throws, if any (`Invocation`).
Amounts are `BigInteger`s, that is integers.
-/

namespace Ethiso.Domain

/-- `java.lang.IllegalArgumentException` -/
structure IllegalArgumentException where
  message : String
  deriving DecidableEq

/-- How a method invocation ended: the objects it leaves behind, and the exception it threw. -/
structure Invocation (σ : Type*) where
  state : σ
  thrown : Option IllegalArgumentException

/-- `AllowAndLimit` -/
structure AllowAndLimit where
  allow : ℤ
  limit : ℤ
  deriving DecidableEq

namespace AllowAndLimit

/-- Nothing is allowed and there is no credit. -/
def zero : AllowAndLimit := ⟨0, 0⟩

/-- `setAllow` -/
def setAllow (x : AllowAndLimit) (allowAmount : ℤ) : Invocation AllowAndLimit :=
  if allowAmount.sign = -1 then ⟨x, some ⟨"allowAmount < 0"⟩⟩
  else ⟨{ x with allow := allowAmount }, none⟩

/-- `setLimit` -/
def setLimit (x : AllowAndLimit) (limitAmount : ℤ) : Invocation AllowAndLimit :=
  if limitAmount.sign = -1 then ⟨x, some ⟨"limitAmount < 0"⟩⟩
  else ⟨{ x with limit := limitAmount }, none⟩

end AllowAndLimit

/-- The shared object. A negative balance means that p1 owes p2. -/
structure DefaultTrustlineView where
  p2OwesP1 : ℤ
  p1ToP2 : AllowAndLimit
  p2ToP1 : AllowAndLimit
  deriving DecidableEq

/-- A reference to one of the two `AllowAndLimit` objects. -/
inductive AllowAndLimitRef
  | p1ToP2
  | p2ToP1
  deriving DecidableEq

namespace DefaultTrustlineView

/-- A new trustline. -/
def zero : DefaultTrustlineView := ⟨0, .zero, .zero⟩

/-- The object a reference points to. -/
def deref (o : DefaultTrustlineView) : AllowAndLimitRef → AllowAndLimit
  | .p1ToP2 => o.p1ToP2
  | .p2ToP1 => o.p2ToP1

/-- Invoking a method of the object a reference points to. -/
def invoke (o : DefaultTrustlineView) (r : AllowAndLimitRef)
    (method : AllowAndLimit → Invocation AllowAndLimit) : Invocation DefaultTrustlineView :=
  match r with
  | .p1ToP2 => ⟨{ o with p1ToP2 := (method o.p1ToP2).state }, (method o.p1ToP2).thrown⟩
  | .p2ToP1 => ⟨{ o with p2ToP1 := (method o.p2ToP1).state }, (method o.p2ToP1).thrown⟩

end DefaultTrustlineView

/-- A view of the shared object: the object itself, or a `ReverseTrustlineView` and
its delegate. -/
inductive TrustlineView
  | default
  | reverse (delegate : TrustlineView)
  deriving DecidableEq

namespace TrustlineView

mutual

/-- The figures of the first party for the second. -/
def getP1ToP2 : TrustlineView → AllowAndLimitRef
  | default => .p1ToP2
  | reverse delegate => delegate.getP2ToP1

/-- The figures of the second party for the first. -/
def getP2ToP1 : TrustlineView → AllowAndLimitRef
  | default => .p2ToP1
  | reverse delegate => delegate.getP1ToP2

end

/-- The balance, negated by each reversal. -/
def getP2OwesP1 (o : DefaultTrustlineView) : TrustlineView → ℤ
  | default => o.p2OwesP1
  | reverse delegate => -delegate.getP2OwesP1 o

/-- Sets the balance, which each reversal negates. -/
def setP2OwesP1 (o : DefaultTrustlineView) (balance : ℤ) : TrustlineView → DefaultTrustlineView
  | default => { o with p2OwesP1 := balance }
  | reverse delegate => delegate.setP2OwesP1 o (-balance)

end TrustlineView

/-- A handle on a trustline. -/
structure TrustlineValue where
  view : TrustlineView
  deriving DecidableEq

namespace TrustlineValue

/-- The handle that `new TrustlineValue()` returns, on the object `DefaultTrustlineView.zero`. -/
def new : TrustlineValue := ⟨.default⟩

variable (tv : TrustlineValue) (o : DefaultTrustlineView)

/-- `setLimit` -/
def setLimit (limitAmount : ℤ) : Invocation DefaultTrustlineView :=
  o.invoke tv.view.getP1ToP2 fun x => x.setLimit limitAmount

/-- `getLimit` -/
def getLimit : ℤ := (o.deref tv.view.getP1ToP2).limit

/-- `setAllow` -/
def setAllow (allowAmount : ℤ) : Invocation DefaultTrustlineView :=
  o.invoke tv.view.getP2ToP1 fun x => x.setAllow allowAmount

/-- `getAllow` -/
def getAllow : ℤ := (o.deref tv.view.getP2ToP1).allow

/-- `sendPayment`: the new balance is compared before it is set. -/
def sendPayment (paymentAmount : ℤ) : Invocation DefaultTrustlineView :=
  if paymentAmount.sign = -1 then ⟨o, some ⟨"paymentAmount < 0"⟩⟩
  else
    let newBalance := tv.view.getP2OwesP1 o + paymentAmount
    let aToB := o.deref tv.view.getP1ToP2
    if newBalance > min aToB.limit aToB.allow then
      ⟨o, some ⟨toString (tv.view.getP2OwesP1 o) ++ " + " ++ toString paymentAmount ++ " > min(" ++
        toString aToB.limit ++ ", " ++ toString aToB.allow ++ ")"⟩⟩
    else ⟨tv.view.setP2OwesP1 o newBalance, none⟩

/-- `getBalance` -/
def getBalance : ℤ := tv.view.getP2OwesP1 o

/-- `reverse` -/
def reverse : TrustlineValue := ⟨.reverse tv.view⟩

end TrustlineValue

/-! ### Whose handle it is -/

/-- The two parties of a trustline: p1 and p2 of the shared object. -/
inductive Party
  | first
  | second
  deriving DecidableEq

namespace Party

/-- The one across the trustline. -/
def other : Party → Party
  | first => second
  | second => first

@[simp] theorem other_other (p : Party) : p.other.other = p := by cases p <;> rfl

theorem other_ne (p : Party) : p.other ≠ p := by cases p <;> decide

/-- The object that holds the party's limit, and the other party's allow. -/
def ref : Party → AllowAndLimitRef
  | first => .p1ToP2
  | second => .p2ToP1

/-- A balance of p1 from the point of view of a party. -/
def signed : Party → ℤ → ℤ
  | first, n => n
  | second, n => -n

@[simp] theorem signed_signed (p : Party) (n : ℤ) : p.signed (p.signed n) = n := by
  cases p
  · rfl
  · exact neg_neg n

@[simp] theorem signed_other (p : Party) (n : ℤ) : p.other.signed n = -p.signed n := by
  cases p
  · rfl
  · exact (neg_neg n).symm

end Party

namespace TrustlineView

/-- The party whose point of view this is. -/
def owner : TrustlineView → Party
  | default => .first
  | reverse delegate => delegate.owner.other

variable (view : TrustlineView) (o : DefaultTrustlineView) (balance : ℤ)

/-- A view says no more than whose view it is, however often it was reversed. -/
theorem refs_eq : view.getP1ToP2 = view.owner.ref ∧ view.getP2ToP1 = view.owner.other.ref := by
  induction view with
  | default => exact ⟨rfl, rfl⟩
  | reverse delegate ih =>
    refine ⟨ih.2, ?_⟩
    rw [owner, Party.other_other]
    exact ih.1

/-- **Any number of reversals** reads the balance as its owner sees it. -/
theorem getP2OwesP1_eq : view.getP2OwesP1 o = view.owner.signed o.p2OwesP1 := by
  induction view with
  | default => rfl
  | reverse delegate ih => rw [getP2OwesP1, ih, owner, Party.signed_other]

theorem setP2OwesP1_eq :
    view.setP2OwesP1 o balance = { o with p2OwesP1 := view.owner.signed balance } := by
  induction view generalizing balance with
  | default => rfl
  | reverse delegate ih =>
    rw [setP2OwesP1, ih, owner, Party.signed_other]
    cases delegate.owner <;> simp [Party.signed]

end TrustlineView

/-- A reversal passes the handle to the other party. -/
theorem TrustlineValue.owner_reverse (tv : TrustlineValue) :
    tv.reverse.view.owner = tv.view.owner.other := rfl

/-- Reversing a handle an even number of times gives a handle of the same party. -/
theorem TrustlineValue.owner_reverse_even (tv : TrustlineValue) (n : ℕ) :
    (TrustlineValue.reverse^[2 * n] tv).view.owner = tv.view.owner := by
  induction n with
  | zero => rfl
  | succ n ih =>
    rw [Nat.mul_succ, Nat.add_comm, Function.iterate_add_apply]
    show (TrustlineValue.reverse^[2 * n] tv).reverse.reverse.view.owner = _
    rw [owner_reverse, owner_reverse, Party.other_other, ih]

/-! ### One call -/

namespace DefaultTrustlineView

variable {o : DefaultTrustlineView} {r : AllowAndLimitRef}
  {method : AllowAndLimit → Invocation AllowAndLimit}

@[simp] theorem invoke_p2OwesP1 : (o.invoke r method).state.p2OwesP1 = o.p2OwesP1 := by
  cases r <;> rfl

@[simp] theorem invoke_thrown : (o.invoke r method).thrown = (method (o.deref r)).thrown := by
  cases r <;> rfl

/-- A method changes the object it is invoked on, and no other. -/
theorem deref_invoke (r' : AllowAndLimitRef) :
    (o.invoke r method).state.deref r' =
      if r' = r then (method (o.deref r)).state else o.deref r' := by
  cases r <;> cases r' <;> rfl

/-- A method that leaves its object as it is leaves everything as it is. -/
theorem invoke_of_same (h : (method (o.deref r)).state = o.deref r) :
    (o.invoke r method).state = o := by
  cases r <;> simp only [invoke, deref] at h ⊢ <;> rw [h]

end DefaultTrustlineView

/-- The Java payment on the handle of the payee, in terms of the objects. -/
theorem sendPayment_java (tv : TrustlineValue) (o : DefaultTrustlineView) (amount : ℤ)
    (h_sign : amount.sign ≠ -1) :
    ((tv.getBalance o + amount ≤ (o.deref tv.view.owner.ref).limit ∧
        tv.getBalance o + amount ≤ (o.deref tv.view.owner.ref).allow) ∧
      tv.sendPayment o amount =
        ⟨{ o with p2OwesP1 := tv.view.owner.signed (tv.getBalance o + amount) }, none⟩) ∨
    (¬(tv.getBalance o + amount ≤ (o.deref tv.view.owner.ref).limit ∧
        tv.getBalance o + amount ≤ (o.deref tv.view.owner.ref).allow) ∧
      ∃ e, tv.sendPayment o amount = ⟨o, some e⟩) := by
  unfold TrustlineValue.sendPayment
  rw [if_neg h_sign, (TrustlineView.refs_eq _).1, ← le_min_iff]
  dsimp only
  by_cases h_le : tv.getBalance o + amount ≤
      min (o.deref tv.view.owner.ref).limit (o.deref tv.view.owner.ref).allow
  · refine Or.inl ⟨h_le, (if_neg (not_lt.mpr h_le)).trans ?_⟩
    rw [TrustlineView.setP2OwesP1_eq]
    rfl
  · exact Or.inr ⟨h_le, _, if_pos (not_le.mp h_le)⟩

/-- What the other party may owe at most: the smaller of the party's limit and the other's
allow. -/
def DefaultTrustlineView.inForce (o : DefaultTrustlineView) (p : Party) : ℤ :=
  min (o.deref p.ref).limit (o.deref p.ref).allow

namespace TrustlineValue

variable (tv : TrustlineValue) (o : DefaultTrustlineView) (paymentAmount : ℤ)

/-- The payments that are accepted. -/
def Accepts : Prop :=
  0 ≤ paymentAmount ∧ tv.getBalance o + paymentAmount ≤ o.inForce tv.view.owner

/-- The objects with another balance of the handle. -/
def withBalance (balance : ℤ) : DefaultTrustlineView :=
  { o with p2OwesP1 := tv.view.owner.signed balance }

theorem sendPayment_cases :
    (tv.Accepts o paymentAmount ∧
      tv.sendPayment o paymentAmount =
        ⟨tv.withBalance o (tv.getBalance o + paymentAmount), none⟩) ∨
    (¬ tv.Accepts o paymentAmount ∧ ∃ e, tv.sendPayment o paymentAmount = ⟨o, some e⟩) := by
  unfold Accepts DefaultTrustlineView.inForce
  rw [le_min_iff]
  by_cases h_sign : paymentAmount.sign = -1
  · have h_neg := Int.sign_eq_neg_one_iff_neg.mp h_sign
    refine Or.inr ⟨fun h => absurd h.1 (not_le.mpr h_neg), ⟨"paymentAmount < 0"⟩, ?_⟩
    unfold sendPayment
    exact if_pos h_sign
  · have h_nonneg : 0 ≤ paymentAmount :=
      not_lt.mp fun h => h_sign (Int.sign_eq_neg_one_iff_neg.mpr h)
    rw [and_iff_right h_nonneg]
    exact sendPayment_java tv o paymentAmount h_sign

theorem getBalance_eq : tv.getBalance o = tv.view.owner.signed o.p2OwesP1 :=
  tv.view.getP2OwesP1_eq o

end TrustlineValue

end Ethiso.Domain
