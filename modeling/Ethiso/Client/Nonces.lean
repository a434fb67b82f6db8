import Ethiso.Abi.Deserialisation
import Ethiso.Client.Ethereum
import Ethiso.Service.Values

/-!
# Gaps in the nonces

A node executes the transactions of an account in the order of their nonces, and none above
one that is missing. The client takes a nonce from its counter when it makes a transaction,
before it is known whether the node accepts it.

`NoGap` says that the nonces in use are those from the first one on, each in one transaction,
and that the transaction of each has been accepted or waits in the queue. A nonce is missing
when `newContract` throws after it has taken one, when the submit timer gives a transaction up
after the third `JsonRpcException` or ends with it in hand, and when the counter, a `long`,
overflows. `noGap_iff` says that it is missing in these cases only.
-/

namespace Ethiso

open Abi

namespace Ethereum

variable {ρ : Type}

/-! ### Gaps and the condition -/

/-- The nonces are used from `initial` on, and none of them is missing. -/
structure NoGap (initial : ℤ) (s : State ρ) : Prop where
  nonces : s.transactions.map Transaction.nonce =
    (List.range s.transactions.length).map fun k : ℕ => nonceString (initial + k)
  distinct : (s.transactions.map Transaction.nonce).Nodup
  counter : s.accountNonce = initial + s.transactions.length
  covered : ∀ k < s.transactions.length,
    k ∈ s.accepted ∨ k ∈ s.transactionQueue.map fun t => t.futureTransactionReceipt

/-- A step after which no nonce is missing. The counter does not overflow when a nonce is
taken. The node accepts a transaction of `newContract`, and in a tick of the submit timer it
accepts the transaction, or fails for the first or second time with a `JsonRpcException`. -/
def LeavesNoGap (s : State ρ) : Input ρ → Prop
  | .sendTransaction _ functionEncoding args => ∀ data, functionEncoding.encode args = .ok data →
    s.accountNonce + 1 < 2 ^ 63
  | .newContract code constructor args answer => ∀ data,
    creationData code constructor args = .ok data →
      s.accountNonce + 1 < 2 ^ 63 ∧ answer.accepted = true
  | .submit answer => s.submitTimerAlive = true → ∀ t queue, s.transactionQueue = t :: queue →
    answer.accepted = true ∨
      ∃ e, answer = .jsonRpcException e ∧ t.failures.length < TransactionAndReceipt.MAX_RETRIES
  | .poll _ _ => True

/-! ### Nonces -/

theorem toLong_range (n : ℤ) : -2 ^ 63 ≤ toLong n ∧ toLong n < 2 ^ 63 := by
  unfold toLong
  rw [Int.bmod_def]
  omega

/-- A number in this range is returned as it is. -/
theorem toLong_of_lt {n : ℤ} (h : -2 ^ 63 ≤ n ∧ n < 2 ^ 63) : toLong n = n := by
  unfold toLong
  rw [Int.bmod_def]
  omega

/-- Two `long`s have two texts. -/
theorem nonceString_injective {n m : ℤ} (h_n : -2 ^ 63 ≤ n ∧ n < 2 ^ 63)
    (h_m : -2 ^ 63 ≤ m ∧ m < 2 ^ 63) (h : nonceString n = nonceString m) : n = m := by
  unfold nonceString at h
  have h_value := numeral_injective (List.cons.inj (List.cons.inj h).2).2
  omega

/-- **Nonces are distinct** as long as the counter does not wrap. -/
theorem distinct_nonces {initial : ℤ} {length : ℕ} (h_initial : -2 ^ 63 ≤ initial)
    (h_length : initial + length < 2 ^ 63) :
    ((List.range length).map fun k : ℕ => nonceString (initial + k)).Nodup := by
  refine List.Nodup.map_on ?_ List.nodup_range
  intro k h_k l h_l h
  rw [List.mem_range] at h_k h_l
  have h_eq := nonceString_injective ⟨by omega, by omega⟩ ⟨by omega, by omega⟩ h
  omega

/-! ### The invariant -/

/-- In front of a run of steps that leave no gap: the transactions are those that wait and
those that were accepted. -/
structure Covered (initial : ℤ) (s : State ρ) : Prop where
  -- the counter is a `long`, so the nonces differ
  initial_ge : -2 ^ 63 ≤ initial
  counter : s.accountNonce = initial + s.transactions.length
  lt : s.accountNonce < 2 ^ 63
  nonces : s.transactions.map Transaction.nonce =
    (List.range s.transactions.length).map fun k : ℕ => nonceString (initial + k)
  held : (s.transactionQueue.map (fun t => t.futureTransactionReceipt) ++ s.accepted).Perm
    (List.range s.transactions.length)

namespace Covered

variable {initial : ℤ} {s : State ρ}

/-- The counter starts with the count that the node gives. -/
theorem init (transactionCount : ℤ) :
    Covered (toLong transactionCount) (State.init transactionCount : State ρ) where
  initial_ge := (toLong_range _).1
  counter := (Int.add_zero _).symm
  lt := (toLong_range _).2
  nonces := rfl
  held := List.Perm.refl []

/-- **No gap** where the invariant holds. -/
theorem noGap (h : Covered initial s) : NoGap initial s where
  nonces := h.nonces
  distinct := by
    rw [h.nonces]
    exact distinct_nonces h.initial_ge (h.counter ▸ h.lt)
  counter := h.counter
  covered k h_k := by
    have h_mem := h.held.mem_iff.mpr (List.mem_range.mpr h_k)
    exact (List.mem_append.mp h_mem).symm

/-! ### Calls -/

/-- Taking a nonce, unless the counter overflows. -/
theorem newTransaction (h : Covered initial s) {transaction : List Char → Transaction}
    (h_nonce : ∀ nonce, (transaction nonce).nonce = nonce) (h_lt : s.accountNonce + 1 < 2 ^ 63)
    {queue : List TransactionAndReceipt} {accepted : List ℕ}
    (h_held : (queue.map (fun t => t.futureTransactionReceipt) ++ accepted).Perm
      (List.range s.transactions.length ++ [s.transactions.length])) {s' : State ρ}
    (h_counter : s'.accountNonce = toLong (s.accountNonce + 1))
    (h_transactions : s'.transactions =
      s.transactions ++ [transaction (nonceString s.accountNonce)])
    (h_queue : s'.transactionQueue = queue) (h_accepted : s'.accepted = accepted) :
    Covered initial s' := by
  -- the counter has not wrapped before, and does not now
  have h_ge := h.initial_ge
  have h_before := h.counter
  have h_next : toLong (s.accountNonce + 1) = s.accountNonce + 1 :=
    toLong_of_lt ⟨by omega, h_lt⟩
  have h_length : s'.transactions.length = s.transactions.length + 1 := by
    rw [h_transactions, List.length_append, List.length_singleton]
  -- the counter, the numbers of the transactions, and which of them the node has accepted
  refine ⟨h_ge, ?_, ?_, ?_, ?_⟩
  · rw [h_counter, h_next, h_length, Nat.cast_succ]
    omega
  · rw [h_counter, h_next]
    exact h_lt
  · rw [h_length, List.range_succ, h_transactions, List.map_append, List.map_append, h.nonces]
    simp [h_nonce, h_before]
  · rw [h_queue, h_accepted, h_length, List.range_succ]
    exact h_held

/-- `sendTransaction` takes the next nonce and queues its transaction. -/
theorem sendTransaction (h : Covered initial s) {fromAccount contractAddress : RpcAddress}
    {functionEncoding : Abi.FunctionEncoding} {args : List JavaObject}
    (h_leaves : LeavesNoGap s (.sendTransaction contractAddress functionEncoding args)) :
    Covered initial (s.sendTransaction fromAccount contractAddress functionEncoding args) := by
  unfold State.sendTransaction
  cases h_data : functionEncoding.encode args with
  | error e => exact h
  | ok data =>
    refine h.newTransaction (fun _ => rfl) (h_leaves data h_data) ?_ rfl rfl rfl rfl
    -- the new transaction waits
    rw [List.map_append, List.append_assoc]
    refine (List.Perm.append_left _ List.perm_append_comm).trans ?_
    rw [← List.append_assoc]
    exact h.held.append_right _

/-- `newContract` keeps the invariant if the node accepts its transaction. -/
theorem newContract (h : Covered initial s) {fromAccount : RpcAddress} {code : List Char}
    {constructor : Option Abi.FunctionEncoding} {args : List JavaObject} {answer : SendAnswer}
    (h_leaves : LeavesNoGap s (.newContract code constructor args answer)) :
    Covered initial (s.newContract fromAccount code constructor args answer) := by
  unfold State.newContract
  cases h_data : creationData code constructor args with
  | error e => exact h
  | ok data =>
    obtain ⟨h_lt, h_accepted⟩ := h_leaves data h_data
    have h_held : (s.transactionQueue.map (fun t => t.futureTransactionReceipt) ++
        (s.accepted ++ [s.transactions.length])).Perm
          (List.range s.transactions.length ++ [s.transactions.length]) := by
      rw [← List.append_assoc]
      exact h.held.append_right _
    cases answer with
    | hash transactionHash => exact h.newTransaction (fun _ => rfl) h_lt h_held rfl rfl rfl rfl
    -- the node has not accepted it
    | null => exact absurd h_accepted Bool.false_ne_true
    | jsonRpcException e => exact absurd h_accepted Bool.false_ne_true
    | runtimeException accepted =>
      obtain rfl : accepted = true := h_accepted
      exact h.newTransaction (fun _ => rfl) h_lt h_held rfl rfl rfl rfl

/-! ### Ticks -/

/-- Handing transactions over. -/
theorem of_held (h : Covered initial s) {s' : State ρ}
    (h_same : s'.accountNonce = s.accountNonce ∧ s'.transactions = s.transactions)
    (h_held : (s'.transactionQueue.map (fun t => t.futureTransactionReceipt) ++ s'.accepted).Perm
      (List.range s.transactions.length)) : Covered initial s' := by
  refine ⟨h.initial_ge, ?_, ?_, ?_, ?_⟩
  · rw [h_same.1, h_same.2]
    exact h.counter
  · rw [h_same.1]
    exact h.lt
  · rw [h_same.2]
    exact h.nonces
  · rw [h_same.2]
    exact h_held

/-- A tick of the submit timer keeps it if the transaction is accepted or queued again. -/
theorem submit (h : Covered initial s) {answer : SendAnswer}
    (h_leaves : LeavesNoGap s (.submit answer)) : Covered initial (s.submit answer) := by
  unfold State.submit
  split_ifs with h_alive
  · cases h_queue : s.transactionQueue with
    | nil => exact h
    | cons t queue =>
      have h_held := h.held
      rw [h_queue, List.map_cons, List.cons_append] at h_held
      rcases h_leaves h_alive t queue h_queue with h_accepted | ⟨e, rfl, h_few⟩
      · -- from the front of the queue to the node
        have h_moved : (queue.map (fun t => t.futureTransactionReceipt) ++
            (s.accepted ++ [t.futureTransactionReceipt])).Perm
              (List.range s.transactions.length) := by
          rw [← List.append_assoc]
          exact (List.perm_append_singleton _ _).trans h_held
        cases answer with
        | hash transactionHash => exact h.of_held ⟨rfl, rfl⟩ h_moved
        -- a null hash is not an acceptance
        | null => exact absurd h_accepted Bool.false_ne_true
        | jsonRpcException e => exact absurd h_accepted Bool.false_ne_true
        | runtimeException accepted =>
          obtain rfl : accepted = true := h_accepted
          exact h.of_held ⟨rfl, rfl⟩ h_moved
      · -- from the front of the queue to its end
        dsimp only
        rw [if_pos (TransactionAndReceipt.failed_retry.mpr h_few)]
        refine h.of_held ⟨rfl, rfl⟩ ?_
        show (List.map _ (queue ++ [_]) ++ s.accepted).Perm _
        rw [List.map_append, List.append_assoc]
        exact List.perm_middle.trans h_held
  · exact h

/-- The poll touches neither nonces nor the queue. -/
theorem poll (h : Covered initial s) (rank : Hash → ℕ) (answer : Hash → ReceiptAnswer ρ) :
    Covered initial (s.poll rank answer) := by
  -- the poller touches neither the queue nor the counter
  unfold State.poll
  dsimp only
  split_ifs
  · exact h.of_held ⟨rfl, rfl⟩ h.held
  · exact h.of_held ⟨rfl, rfl⟩ h.held

/-- **One step** leaves no gap under its condition. -/
theorem step (h : Covered initial s) {fromAccount : RpcAddress} {i : Input ρ}
    (h_leaves : LeavesNoGap s i) : Covered initial (s.step fromAccount i) := by
  cases i with
  | sendTransaction contractAddress functionEncoding args => exact h.sendTransaction h_leaves
  | newContract code constructor args answer => exact h.newContract h_leaves
  | submit answer => exact h.submit h_leaves
  | poll rank answer => exact h.poll rank answer

/-! ### What happens otherwise -/

/-- A counter that goes on with the transactions has not overflowed. -/
theorem counter_lt (h : Covered initial s) {s' : State ρ} (h_noGap : NoGap initial s')
    (h_counter : s'.accountNonce = toLong (s.accountNonce + 1))
    (h_length : s'.transactions.length = s.transactions.length + 1) :
    s.accountNonce + 1 < 2 ^ 63 := by
  have h_before := h.counter
  have h_after := h_noGap.counter
  rw [h_counter, h_length, Nat.cast_succ] at h_after
  -- a `long` that overflows is negative
  have h_range := (toLong_range (s.accountNonce + 1)).2
  omega

/-- A step without a gap meets the condition: a call of `sendTransaction`, -/
theorem leaves_sendTransaction (h : Covered initial s) {fromAccount contractAddress : RpcAddress}
    {functionEncoding : Abi.FunctionEncoding} {args : List JavaObject}
    (h_noGap : NoGap initial
      (s.sendTransaction fromAccount contractAddress functionEncoding args)) :
    LeavesNoGap s (.sendTransaction contractAddress functionEncoding args) := by
  intro data h_data
  unfold State.sendTransaction at h_noGap
  rw [h_data] at h_noGap
  exact h.counter_lt h_noGap rfl List.length_append

/-- a call of `newContract`, -/
theorem leaves_newContract (h : Covered initial s) {fromAccount : RpcAddress} {code : List Char}
    {constructor : Option Abi.FunctionEncoding} {args : List JavaObject} {answer : SendAnswer}
    (h_noGap : NoGap initial (s.newContract fromAccount code constructor args answer)) :
    LeavesNoGap s (.newContract code constructor args answer) := by
  intro data h_data
  unfold State.newContract at h_noGap
  rw [h_data] at h_noGap
  -- the transaction of the nonce is not in the queue, and was not accepted before
  have h_new : s.transactions.length ∉
      s.transactionQueue.map (fun t => t.futureTransactionReceipt) ++ s.accepted := fun hc =>
    List.not_mem_range_self (h.held.mem_iff.mp hc)
  rw [List.mem_append, not_or] at h_new
  have h_lost {s' : State ρ} (h_length : s'.transactions.length = s.transactions.length + 1)
      (h_queue : s'.transactionQueue = s.transactionQueue) (h_accepted : s'.accepted = s.accepted) :
      ¬NoGap initial s' := by
    intro hc
    rcases hc.covered s.transactions.length (by omega) with h_mem | h_mem
    · exact h_new.2 (h_accepted ▸ h_mem)
    · exact h_new.1 (h_queue ▸ h_mem)
  cases answer with
  | hash transactionHash => exact ⟨h.counter_lt h_noGap rfl List.length_append, rfl⟩
  | null => exact absurd h_noGap (h_lost List.length_append rfl rfl)
  | jsonRpcException e => exact absurd h_noGap (h_lost List.length_append rfl rfl)
  | runtimeException accepted =>
    -- the call may have reached the node
    cases accepted with
    | true => exact ⟨h.counter_lt h_noGap rfl List.length_append, rfl⟩
    | false => exact absurd h_noGap (h_lost List.length_append rfl rfl)

/-- and a tick of the submit timer. -/
theorem leaves_submit (h : Covered initial s) {answer : SendAnswer}
    (h_noGap : NoGap initial (s.submit answer)) : LeavesNoGap s (.submit answer) := by
  intro h_alive t queue h_queue
  unfold State.submit at h_noGap
  rw [if_pos h_alive, h_queue] at h_noGap
  dsimp only at h_noGap
  have h_held := h.held
  rw [h_queue, List.map_cons, List.cons_append] at h_held
  have h_lt := List.mem_range.mp (h_held.subset List.mem_cons_self)
  have h_apart := (List.nodup_cons.mp (h_held.nodup_iff.mpr List.nodup_range)).1
  rw [List.mem_append, not_or] at h_apart
  -- the transaction in hand was not accepted before
  have h_lost {s' : State ρ} (h_transactions : s'.transactions = s.transactions)
      (h_queue' : s'.transactionQueue = queue) (h_accepted : s'.accepted = s.accepted) :
      ¬NoGap initial s' := by
    intro hc
    rcases hc.covered t.futureTransactionReceipt (h_transactions ▸ h_lt) with h_mem | h_mem
    · exact h_apart.2 (h_accepted ▸ h_mem)
    · exact h_apart.1 (h_queue' ▸ h_mem)
  cases answer with
  | hash transactionHash => exact Or.inl rfl
  | null => exact absurd h_noGap (h_lost rfl rfl rfl)
  | jsonRpcException e =>
    refine Or.inr ⟨e, rfl, ?_⟩
    dsimp only at h_noGap
    split_ifs at h_noGap with h_retry
    · exact TransactionAndReceipt.failed_retry.mp h_retry
    · exact absurd h_noGap (h_lost rfl rfl rfl)
  | runtimeException accepted =>
    cases accepted with
    | true => exact Or.inl rfl
    | false => exact absurd h_noGap (h_lost rfl rfl rfl)

/-- A step after which no nonce is missing has left no gap. -/
theorem leaves (h : Covered initial s) {fromAccount : RpcAddress} {i : Input ρ}
    (h_noGap : NoGap initial (s.step fromAccount i)) : LeavesNoGap s i := by
  cases i with
  | sendTransaction contractAddress functionEncoding args => exact h.leaves_sendTransaction h_noGap
  | newContract code constructor args answer => exact h.leaves_newContract h_noGap
  | submit answer => exact h.leaves_submit h_noGap
  | poll rank answer => trivial

end Covered

/-! ### Runs -/

/-- **When no nonce is missing**: after every step of a run the nonces are those from the first
one up to the counter, and the transaction of each was accepted or waits, if and only if
every step leaves no gap. -/
theorem noGap_iff (fromAccount : RpcAddress) (transactionCount : ℤ) (inputs : List (Input ρ)) :
    (∀ pre, pre <+: inputs →
        NoGap (toLong transactionCount) (State.after fromAccount transactionCount pre)) ↔
      Along (fun pre i => LeavesNoGap (State.after fromAccount transactionCount pre) i) inputs := by
  refine @along_iff _ (fun _ _ => True) _
    (fun pre => Covered (toLong transactionCount) (State.after fromAccount transactionCount pre)) _
    (Covered.init transactionCount) ?_ (fun _ h => h.noGap) inputs fun _ _ _ _ => trivial
  intro pre i h_pre _ h_or
  unfold State.after at h_or ⊢
  rw [run_concat] at h_or ⊢
  -- by cases on the step: the others cannot leave a gap
  have h_leaves :
      LeavesNoGap (run (State.step fromAccount) (State.init transactionCount) pre) i :=
    h_or.elim id fun h_noGap => Covered.leaves h_pre h_noGap
  exact ⟨h_leaves, Covered.step h_pre h_leaves⟩

/-- The node refuses the transaction of a contract. -/
theorem not_noGap_refusedContract :
    ¬NoGap 0 (State.after (Address.toRpc 1) 0
      [(.newContract [] none [] (.jsonRpcException ⟨"insufficient funds"⟩) : Input Unit)]) := by
  intro h
  have h_covered := h.covered 0 (by decide +kernel)
  exact absurd h_covered (by decide +kernel)

end Ethereum

end Ethiso
