import Mathlib.Algebra.Group.Hom.Defs
import Mathlib.Algebra.BigOperators.Group.List.Basic
import Mathlib.Tactic.Abel

/-!
# Bilateral credit ledgers

A credit ledger records, for every ordered pair of parties and every currency,
how much the first lets the second owe it (`limit`), how much the first lets
itself owe the second (`allow`), and how much the first owes the second
(`owed`). Each figure is kept under the ordered pair it is about, so the ledger
has no notion of which of the two parties comes first.

Debts move by transfers. `CreditLedger.pay` is the book entry of one transfer,
written on both sides at once; `net` is what a list of transfers leaves the
first party owing the second. `Accounts` says that a ledger's debts are the
image of the net of a list of transfers under an additive map, the map being
what the ledger's arithmetic does to exact amounts: the identity for exact
books, reduction modulo the word size for books kept in machine words.

A ledger has no order on its parties either, so a renaming of the parties
commutes with every operation (`Renamed.setLimit`, `Renamed.setAllow`,
`Renamed.pay`).
-/

namespace Ethiso

/-- A credit ledger over parties `α`, currencies `κ` and figures `R`. -/
structure CreditLedger (α κ R : Type*) where
  /-- What the first party lets the second owe it. -/
  limit : α → α → κ → R
  /-- What the first party lets itself owe the second. -/
  allow : α → α → κ → R
  /-- What the first party owes the second. -/
  owed : α → α → κ → R

/-- A transfer by which the payer comes to owe the payee `amount` more. -/
structure Transfer (α κ G : Type*) where
  payer : α
  payee : α
  ccy : κ
  amount : G

namespace CreditLedger

variable {α κ R G : Type*} [DecidableEq α] [DecidableEq κ]

omit [DecidableEq α] [DecidableEq κ] in
/-- Ledgers with the same figures are the same. -/
@[ext] theorem ext {L M : CreditLedger α κ R} (h_limit : ∀ a b k, L.limit a b k = M.limit a b k)
    (h_allow : ∀ a b k, L.allow a b k = M.allow a b k)
    (h_owed : ∀ a b k, L.owed a b k = M.owed a b k) : L = M := by
  cases L
  cases M
  congr
  · funext a b k; exact h_limit a b k
  · funext a b k; exact h_allow a b k
  · funext a b k; exact h_owed a b k

/-- Replace the figure kept under one ordered pair and currency. -/
def put (f : α → α → κ → R) (a b : α) (k : κ) (v : R) : α → α → κ → R :=
  fun x y z => if x = a ∧ y = b ∧ z = k then v else f x y z

@[simp] theorem put_self (f : α → α → κ → R) (a b : α) (k : κ) (v : R) :
    put f a b k v a b k = v := by
  simp [put]

theorem put_other {f : α → α → κ → R} {a b x y : α} {k z : κ} (v : R)
    (h : ¬(x = a ∧ y = b ∧ z = k)) : put f a b k v x y z = f x y z :=
  if_neg h

/-- Party `a` limits what `b` may owe it. -/
def setLimit (L : CreditLedger α κ R) (a b : α) (k : κ) (v : R) : CreditLedger α κ R :=
  { L with limit := put L.limit a b k v }

/-- Party `a` sets what it allows itself to owe `b`. -/
def setAllow (L : CreditLedger α κ R) (a b : α) (k : κ) (v : R) : CreditLedger α κ R :=
  { L with allow := put L.allow a b k v }

/-- The two figures of a pair that its first party sets. -/
inductive Figure
  | limit
  | allow
  deriving DecidableEq

/-- What the ledger keeps of a figure. -/
def figure (L : CreditLedger α κ R) : Figure → α → α → κ → R
  | .limit => L.limit
  | .allow => L.allow

/-- Party `a` sets a figure about `b`. -/
def setFigure (L : CreditLedger α κ R) : Figure → α → α → κ → R → CreditLedger α κ R
  | .limit => L.setLimit
  | .allow => L.setAllow

/-- A figure is put under the ordered pair of its setter, and the other figure stays. -/
theorem figure_setFigure (L : CreditLedger α κ R) (F G : Figure) (a b : α) (k : κ) (v : R) :
    (L.setFigure G a b k v).figure F = if F = G then put (L.figure F) a b k v else L.figure F := by
  cases F <;> cases G <;> rfl

/-- What is set is not a debt. -/
@[simp] theorem owed_setFigure (L : CreditLedger α κ R) (F : Figure) (a b : α) (k : κ) (v : R) :
    (L.setFigure F a b k v).owed = L.owed := by
  cases F <;> rfl

/-- The book entry of a transfer of `v` from `a` to `b`: `a` owes `b` that much
more, and `b` owes `a` that much less. -/
def pay [Add R] [Sub R] (L : CreditLedger α κ R) (a b : α) (k : κ) (v : R) :
    CreditLedger α κ R :=
  { L with
    owed := fun x y z =>
      if x = a ∧ y = b ∧ z = k then L.owed x y z + v
      else if x = b ∧ y = a ∧ z = k then L.owed x y z - v
      else L.owed x y z }

section Pay

variable [Add R] [Sub R] (L : CreditLedger α κ R) (a b : α) (k : κ) (v : R)

/-- A transfer leaves the debts of every other pair and currency alone. -/
theorem pay_owed_other {x y : α} {z : κ}
    (h : ¬(z = k ∧ ((x = a ∧ y = b) ∨ (x = b ∧ y = a)))) :
    (L.pay a b k v).owed x y z = L.owed x y z := by
  have h₁ : ¬(x = a ∧ y = b ∧ z = k) := fun hc => h ⟨hc.2.2, Or.inl ⟨hc.1, hc.2.1⟩⟩
  have h₂ : ¬(x = b ∧ y = a ∧ z = k) := fun hc => h ⟨hc.2.2, Or.inr ⟨hc.1, hc.2.1⟩⟩
  simp only [pay, if_neg h₁, if_neg h₂]

end Pay

/-! ### Ledgers that differ in the names of the parties -/

section Renaming

variable {β : Type*} [DecidableEq β]

/-- `M` is `L` with the parties renamed, as far as two distinct parties are concerned. -/
structure Renamed (σ : α ≃ β) (L : CreditLedger α κ R) (M : CreditLedger β κ R) : Prop where
  limit : ∀ a b k, a ≠ b → M.limit (σ a) (σ b) k = L.limit a b k
  allow : ∀ a b k, a ≠ b → M.allow (σ a) (σ b) k = L.allow a b k
  owed : ∀ a b k, a ≠ b → M.owed (σ a) (σ b) k = L.owed a b k

variable {σ : α ≃ β} {L : CreditLedger α κ R} {M : CreditLedger β κ R}

/-- Putting a figure under the renamed pair renames putting it. -/
theorem put_renamed {f : α → α → κ → R} {g : β → β → κ → R} {x y : α} {z : κ}
    (h : g (σ x) (σ y) z = f x y z) (a b : α) (k : κ) (v : R) :
    put g (σ a) (σ b) k v (σ x) (σ y) z = put f a b k v x y z := by
  simp only [put, EmbeddingLike.apply_eq_iff_eq, h]

/-- **Renamed ledgers stay renamed** under each ledger operation. -/
theorem Renamed.setLimit (h : Renamed σ L M) (a b : α) (k : κ) (v : R) :
    Renamed σ (L.setLimit a b k v) (M.setLimit (σ a) (σ b) k v) where
  limit x y z h_ne := put_renamed (h.limit x y z h_ne) a b k v
  allow := h.allow
  owed := h.owed

/-- Renaming before or after `setAllow` is the same. -/
theorem Renamed.setAllow (h : Renamed σ L M) (a b : α) (k : κ) (v : R) :
    Renamed σ (L.setAllow a b k v) (M.setAllow (σ a) (σ b) k v) where
  limit := h.limit
  allow x y z h_ne := put_renamed (h.allow x y z h_ne) a b k v
  owed := h.owed

theorem Renamed.pay [Add R] [Sub R] (h : Renamed σ L M) (a b : α) (k : κ) (v : R) :
    Renamed σ (L.pay a b k v) (M.pay (σ a) (σ b) k v) where
  limit := h.limit
  allow := h.allow
  owed x y z h_ne := by
    simp only [CreditLedger.pay, EmbeddingLike.apply_eq_iff_eq, h.owed x y z h_ne]

end Renaming

/-! ### What a list of transfers leaves owing -/

section Net

variable [AddCommGroup G]

/-- The total of the transfers from `a` to `b` in `k`. -/
def total (l : List (Transfer α κ G)) (a b : α) (k : κ) : G :=
  (l.map fun t => if a = t.payer ∧ b = t.payee ∧ k = t.ccy then t.amount else 0).sum

/-- What the transfers leave `a` owing `b` in `k`. -/
def net (l : List (Transfer α κ G)) (a b : α) (k : κ) : G :=
  total l a b k - total l b a k

@[simp] theorem net_nil (a b : α) (k : κ) : net ([] : List (Transfer α κ G)) a b k = 0 := by
  simp [net, total]

/-- What `b` is left owing `a` is what `a` is left owing `b`, negated. -/
theorem net_swap (l : List (Transfer α κ G)) (a b : α) (k : κ) :
    net l b a k = -net l a b k := by
  unfold net
  exact (neg_sub _ _).symm

/-- One more transfer counts if it has these parties and this currency. -/
theorem total_concat (l : List (Transfer α κ G)) (t : Transfer α κ G) (a b : α) (k : κ) :
    total (l ++ [t]) a b k =
      total l a b k + if a = t.payer ∧ b = t.payee ∧ k = t.ccy then t.amount else 0 := by
  simp [total]

end Net

/-! ### Ledgers that account for a list of transfers -/

variable [AddCommGroup G] [AddCommGroup R]

/-- The debts of `L` are the net of the transfers `l`, under `f`. -/
def Accounts (f : G →+ R) (l : List (Transfer α κ G)) (L : CreditLedger α κ R) : Prop :=
  ∀ a b k, L.owed a b k = f (net l a b k)

/-- Debts that account for transfers are antisymmetric. -/
theorem Accounts.owed_swap {f : G →+ R} {l : List (Transfer α κ G)} {L : CreditLedger α κ R}
    (h : Accounts f l L) (a b : α) (k : κ) : L.owed b a k = -L.owed a b k := by
  calc L.owed b a k = f (net l b a k) := h b a k
    _ = -f (net l a b k) := by rw [net_swap, map_neg]
    _ = -L.owed a b k := by rw [h a b k]

/-- **Booking a transfer.** A ledger that accounts for `l` and books one more
transfer, between distinct parties, accounts for `l` with that transfer added. -/
theorem Accounts.pay {f : G →+ R} {l : List (Transfer α κ G)} {L : CreditLedger α κ R}
    (h : Accounts f l L) (t : Transfer α κ G) (h_ne : t.payer ≠ t.payee) :
    Accounts f (l ++ [t]) (L.pay t.payer t.payee t.ccy (f t.amount)) := by
  intro a b k
  have h_old : L.owed a b k = f (total l a b k) - f (total l b a k) := by
    rw [h, net, map_sub]
  simp only [net, total_concat, map_sub, map_add, CreditLedger.pay, h_old]
  -- the pair is that of the transfer, the reverse one, or another; the parties are
  -- distinct, so it is one of these only
  by_cases h₁ : a = t.payer ∧ b = t.payee ∧ k = t.ccy
  · have h₂ : ¬(b = t.payer ∧ a = t.payee ∧ k = t.ccy) := fun hc =>
      h_ne (hc.1.symm.trans h₁.2.1)
    rw [if_pos h₁, if_pos h₁, if_neg h₂, map_zero]
    abel
  · rw [if_neg h₁, if_neg h₁, map_zero]
    by_cases h₂ : a = t.payee ∧ b = t.payer ∧ k = t.ccy
    · rw [if_pos h₂, if_pos ⟨h₂.2.1, h₂.1, h₂.2.2⟩]
      abel
    · rw [if_neg h₂, if_neg fun hc => h₂ ⟨hc.2.1, hc.1, hc.2.2⟩, map_zero]
      abel

end CreditLedger

end Ethiso
