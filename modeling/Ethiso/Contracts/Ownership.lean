import Ethiso.Contracts.Refinement

/-!
# Who can destroy the ledger

`PaymentService` inherits `close` from `Mortal` and the owner check from
`Owned`. This module models the deployed contract with all of its public
functions, its own and the inherited ones, and asks whether only the deployer
can ever close it.

Under the rule of Solidity ^0.4, a function is a constructor exactly when its
name is that of its contract (`isConstructor`). `Owned` calls its function
`owned`, so deployment never runs it: the owner stays zero, and `owned` is a
public function that makes any caller the owner. `ownerSafe_iff` states exactly
which runs keep the deployer in control: those in which the deployer is the
zero address the unwritten owner reads as, and nobody else calls `owned`.
-/

namespace Ethiso

/-- The constructor rule of Solidity ^0.4: names are compared case-sensitively. -/
def isConstructor (contract function : String) : Bool := contract == function

/-- A call of a public function of the deployed contract. -/
inductive Call
  | trustline (call : TrustlineCall)
  | getLimit (them : Address) (ccy : String) (reverse : Bool)
  | getAllow (them : Address) (ccy : String) (reverse : Bool)
  | getAmountOwedTo (them : Address) (ccy : String)
  | sendDebugMessage (a : String)
  | sendAmountMessage (message : String) (amount : Int256)
  | owned
  | close
  deriving DecidableEq

/-- How a call ends: it throws and changes nothing, it returns, or it destroys
the contract. -/
inductive CallOutcome
  | thrown
  | returned (state : PaymentService) (events : List Event)
  | destroyed

namespace PaymentService

/-- `Owned.owned`. -/
def owned (s : PaymentService) (sender : Address) : PaymentService := { s with owner := sender }

/-- `Mortal.close`, guarded by the modifier `onlyOwner`. -/
def close (s : PaymentService) (sender : Address) : CallOutcome :=
  if sender ≠ s.owner then .thrown else .destroyed

/-- The storage after deployment: `Owned` has a constructor only if `owned` is one. -/
def deploy (deployer : Address) : PaymentService :=
  if isConstructor "Owned" "owned" then empty.owned deployer else empty

/-- A call of a public function. A constructor is not one. -/
def call (s : PaymentService) (sender : Address) : Call → CallOutcome
  | .trustline c => .returned (c.exec s sender).state (c.exec s sender).events
  | .getLimit _ _ _ => .returned s []
  | .getAllow _ _ _ => .returned s []
  | .getAmountOwedTo _ _ => .returned s []
  | .sendDebugMessage a => .returned s [.debugMessage sender a]
  | .sendAmountMessage message amount => .returned s [.amountMessage sender message amount]
  | .owned => if isConstructor "Owned" "owned" then .thrown else .returned (s.owned sender) []
  | .close => s.close sender

end PaymentService

/-- One transaction on the contract's account, which is empty once the contract
has been destroyed. -/
def accountStep (account : Option PaymentService) (tx : Address × Call) :
    Option PaymentService :=
  account.bind fun s =>
    match s.call tx.1 tx.2 with
    | .thrown => some s
    | .returned s' _ => some s'
    | .destroyed => none

/-- The contract's account after its deployment and the transactions `txs`. -/
abbrev accountAfter (deployer : Address) (txs : List (Address × Call)) :
    Option PaymentService :=
  run accountStep (some (.deploy deployer)) txs

/-- In every state of the run the owner is the deployer, and every `close` that
succeeds was sent by the deployer. -/
structure OwnerSafe (deployer : Address) (txs : List (Address × Call)) : Prop where
  owner : ∀ pre, pre <+: txs → ∀ s, accountAfter deployer pre = some s → s.owner = deployer
  close : Along (fun pre tx => tx.2 = .close → ∀ s, accountAfter deployer pre = some s →
    s.close tx.1 = .destroyed → tx.1 = deployer) txs

/-- The deployer is the zero address, and every `owned` that reaches the
contract is sent by it. -/
def OnlyZeroOwns (deployer : Address) (txs : List (Address × Call)) : Prop :=
  deployer = 0 ∧
    Along (fun pre tx => tx.2 = .owned → accountAfter deployer pre ≠ none → tx.1 = deployer) txs

/-! ### The writers of `owner` -/

theorem deploy_owner (deployer : Address) : (PaymentService.deploy deployer).owner = 0 := by
  rw [PaymentService.deploy, if_neg (by decide)]
  rfl

/-- No trustline call changes the owner. -/
theorem TrustlineCall.exec_owner (s : PaymentService) (sender : Address) (c : TrustlineCall) :
    (c.exec s sender).state.owner = s.owner := by
  cases c with
  | setLimit them ccy amount =>
    unfold exec PaymentService.setLimit
    dsimp only
    split_ifs <;> rfl
  | setAllow them ccy amount =>
    unfold exec PaymentService.setAllow
    dsimp only
    split_ifs <;> rfl
  | sendPayment them ccy amount messageId additionalProperties =>
    unfold exec PaymentService.sendPayment
    dsimp only
    split_ifs <;> rfl

/-- The owner after a call that returns: the caller if it called `owned`, and
the old owner otherwise. -/
theorem call_owner {s s' : PaymentService} {sender : Address} {c : Call} {events : List Event}
    (h : s.call sender c = .returned s' events) :
    s'.owner = if c = .owned then sender else s.owner := by
  -- `owned` is the only function that writes the field
  cases c with
  | trustline c =>
    obtain ⟨rfl, -⟩ := CallOutcome.returned.inj h
    rw [if_neg (by simp)]
    exact c.exec_owner s sender
  | owned =>
    rw [PaymentService.call, if_neg (by decide)] at h
    obtain ⟨rfl, -⟩ := CallOutcome.returned.inj h
    rw [if_pos rfl]
    rfl
  | close =>
    rw [PaymentService.call, PaymentService.close] at h
    split at h <;> exact absurd h (by simp)
  | _ =>
    obtain ⟨rfl, -⟩ := CallOutcome.returned.inj h
    rw [if_neg (by simp)]

/-- What one transaction does to the owner of a contract that survives it. -/
theorem accountStep_owner {s s' : PaymentService} {tx : Address × Call}
    (h : accountStep (some s) tx = some s') :
    s'.owner = if tx.2 = .owned then tx.1 else s.owner := by
  rw [accountStep, Option.bind_some] at h
  cases h_call : s.call tx.1 tx.2 with
  -- a call of `owned` does not throw
  | thrown =>
    rw [h_call] at h
    obtain rfl := Option.some.inj h
    rw [if_neg]
    intro h_owned
    rw [h_owned, PaymentService.call, if_neg (by decide)] at h_call
    exact absurd h_call (by simp)
  | returned s'' events =>
    rw [h_call] at h
    obtain rfl := Option.some.inj h
    exact call_owner h_call
  | destroyed =>
    rw [h_call] at h
    exact absurd h (by simp)

/-! ### The result -/

/-- Along runs that meet the condition, the owner stays the deployer. -/
theorem OnlyZeroOwns.owner {deployer : Address} {txs : List (Address × Call)}
    (h : OnlyZeroOwns deployer txs) :
    ∀ s, accountAfter deployer txs = some s → s.owner = deployer := by
  refine @run_induction _ _ accountStep (some (.deploy deployer)) _
    (fun _ acc => ∀ s, acc = some s → s.owner = deployer) ?_ ?_ txs h.2
  · intro s hs
    obtain rfl := Option.some.inj hs
    rw [deploy_owner, h.1]
  · intro pre tx ih h_tx s' hs'
    -- a destroyed contract stays destroyed
    cases h_acc : run accountStep (some (.deploy deployer)) pre with
    | none =>
      rw [h_acc] at hs'
      exact absurd hs' (by simp [accountStep])
    | some s =>
      rw [h_acc] at hs'
      rw [accountStep_owner hs']
      split
      · next h_owned => exact h_tx h_owned (by rw [accountAfter, h_acc]; simp)
      · exact ih s h_acc

/-- **Exactly when only the deployer can close the contract.** -/
theorem ownerSafe_iff (deployer : Address) (txs : List (Address × Call)) :
    OwnerSafe deployer txs ↔ OnlyZeroOwns deployer txs := by
  refine ⟨?_, ?_⟩
  · intro h
    refine ⟨?_, ?_⟩
    · -- the state right after the deployment
      have h_init := h.owner [] List.nil_prefix _ rfl
      rw [deploy_owner] at h_init
      exact h_init.symm
    · intro pre tx post h_eq h_owned h_alive
      -- after a call of `owned` the owner is its sender
      obtain ⟨s, hs⟩ := Option.ne_none_iff_exists'.mp h_alive
      have h_next : accountAfter deployer (pre ++ [tx]) = some (s.owned tx.1) := by
        rw [accountAfter, run_concat]
        change accountStep (accountAfter deployer pre) tx = _
        rw [hs, accountStep, Option.bind_some, h_owned, PaymentService.call,
          if_neg (by decide)]
      exact h.owner (pre ++ [tx]) ⟨post, by rw [h_eq]; simp⟩ _ h_next
  · intro h
    refine ⟨?_, ?_⟩
    · intro pre h_pre s hs
      exact OnlyZeroOwns.owner ⟨h.1, h.2.restrict h_pre⟩ s hs
    · intro pre tx post h_eq _ s hs h_close
      have h_owner := OnlyZeroOwns.owner
        ⟨h.1, h.2.restrict (⟨tx :: post, h_eq.symm⟩ : pre <+: txs)⟩ s hs
      by_contra h_ne
      rw [PaymentService.close, if_pos (by rwa [h_owner])] at h_close
      exact absurd h_close (by simp)

/-- Anybody can take the contract over and destroy it: address 1 deploys,
address 2 calls `owned` and then `close`. -/
theorem not_ownerSafe_takeover :
    ¬OwnerSafe 1 [(2, .owned), (2, .close)] ∧
      accountAfter 1 [(2, .owned), (2, .close)] = none := by
  refine ⟨fun h => ?_, rfl⟩
  exact absurd (h.owner [] List.nil_prefix _ rfl) (by decide)

end Ethiso
