import Ethiso.Client.Ethereum
import Ethiso.Framework.Custody
import Ethiso.Service.Values

/-!
# What becomes of a transaction

A transaction whose `sendTransaction` has returned is waiting in the queue, registered with
the poller, or its future is completed with the receipt of its own hash; nothing completes a
future exceptionally. The same is said of a transaction whose `newContract` has returned.

It gets lost in four ways: the submit timer ends with the transaction in hand, and leaves
those in the queue waiting for ever; it gives the transaction up after the third
`JsonRpcException`, without completing the future; a second transaction is registered under
the same hash. And if the poller is left by an exception when it has completed a future
already, the transaction stays registered.

`accountedFor_iff` says that nothing else goes wrong. The three situations are the places
of a library of places (`existsUnique_place`), and a step that keeps to the condition
permutes what they hold.
-/

namespace Ethiso

open Abi

namespace Ethereum

variable {ρ : Type}

/-! ### Situations -/

/-- Where a future can be. -/
inductive Situation
  | waiting
  | registered
  | completed
  deriving DecidableEq

namespace State

/-- The transactions that are in this situation. -/
def inSituation (s : State ρ) : Situation → List ℕ
  | .waiting =>
    if s.submitTimerAlive then s.transactionQueue.map fun t => t.futureTransactionReceipt else []
  | .registered => s.pendingTransactions.entries.map fun e => e.2.futureTransactionReceipt
  | .completed =>
    (s.completions.filter fun c => (c.future, c.transactionHash) ∈ s.hashes).map Completion.future

/-- Each transaction whose call has returned is in exactly one situation. -/
def AccountedFor (s : State ρ) : Prop := ∀ k ∈ s.returned, ∃! x : Situation, k ∈ s.inSituation x

end State

/-! ### The condition -/

/-- A step in which no transaction gets lost. The node does not return a hash that a
transaction is registered under; in a tick of the submit timer it returns a hash, or fails
for the first or second time with a `JsonRpcException`; and in one of the poller it does not
throw when it has returned a receipt. -/
def Keeps (s : State ρ) : Input ρ → Prop
  | .sendTransaction .. => True
  | .newContract code constructor args answer => ∀ data h,
    creationData code constructor args = .ok data → answer = .hash h → h ∉ s.pendingTransactions
  | .submit answer => s.submitTimerAlive = true → ∀ t queue, s.transactionQueue = t :: queue →
    (∃ h, answer = .hash h ∧ h ∉ s.pendingTransactions) ∨
      ∃ e, answer = .jsonRpcException e ∧ t.failures.length < TransactionAndReceipt.MAX_RETRIES
  | .poll rank answer =>
    let visited := (s.entries rank).takeWhile fun e => !(answer e.1).throws
    visited ≠ s.entries rank → ∀ e ∈ visited, answer e.1 = .null

/-! ### The loop of the poller -/

section Loop

variable {answer : Hash → ReceiptAnswer ρ} {es : List State.Entry}

/-- The poll stops early if an answer throws. -/
theorem pollEntries_thrown :
    (State.pollEntries answer es).2 = true ↔
      es.takeWhile (fun e => !(answer e.1).throws) ≠ es := by
  induction es with
  | nil => simp [State.pollEntries]
  | cons e es ih =>
    unfold State.pollEntries
    cases h : answer e.1 with
    | receipt r => simp [h, ReceiptAnswer.throws, ih]
    | null => simp [h, ReceiptAnswer.throws, ih]
    | runtimeException => simp [h, ReceiptAnswer.throws]

/-- The loop has found nothing if the node has returned no receipt up to the exception. -/
theorem pollEntries_eq_nil :
    (State.pollEntries answer es).1 = [] ↔
      ∀ e ∈ es.takeWhile (fun e => !(answer e.1).throws), answer e.1 = .null := by
  induction es with
  | nil => simp [State.pollEntries]
  | cons e es ih =>
    unfold State.pollEntries
    cases h : answer e.1 with
    | receipt r => simp [h, ReceiptAnswer.throws]
    | null => simp [h, ReceiptAnswer.throws, ih]
    | runtimeException => simp [h, ReceiptAnswer.throws]

/-- What the poll keeps was there before. -/
theorem pollEntries_sublist : ((State.pollEntries answer es).1.map Prod.fst).Sublist es := by
  induction es with
  | nil => exact List.Sublist.refl []
  | cons e es ih =>
    unfold State.pollEntries
    cases answer e.1 with
    | receipt r => exact ih.cons_cons e
    -- it stays with the poller
    | null => exact ih.cons e
    | runtimeException => exact List.nil_sublist _

/-- Futures that are not completed are completed one after the other. -/
theorem foldl_complete {completed : List (State.Entry × ρ)} {cs : List (Completion ρ)}
    (h : (cs.map Completion.future ++
      completed.map (fun e => e.1.2.futureTransactionReceipt)).Nodup) :
    completed.foldl State.complete cs =
      cs ++ completed.map fun e => ⟨e.1.2.futureTransactionReceipt, e.1.1, e.2⟩ := by
  induction completed generalizing cs with
  | nil => exact (List.append_nil cs).symm
  | cons e completed ih =>
    -- the first of them is not among those before it
    have h_new : e.1.2.futureTransactionReceipt ∉ cs.map Completion.future := fun hc =>
      (List.disjoint_of_nodup_append h) hc List.mem_cons_self
    rw [List.foldl_cons, State.complete, if_neg h_new, ih]
    · rw [List.append_assoc, List.map_cons]
      rfl
    · rw [List.map_append, List.append_assoc]
      exact h

end Loop

/-! ### The invariant -/

/-- What holds before and after each step that keeps the transactions. -/
structure Custody (s : State ρ) : Prop where
  alive : s.submitTimerAlive = true
  /-- The situations hold what was returned, each of it once. -/
  held : ([Situation.waiting, .registered, .completed].flatMap s.inSituation).Perm s.returned
  nodup : s.returned.Nodup
  lt : ∀ k ∈ s.returned, k < s.transactions.length
  /-- A transaction is registered under its own hash, and completed with it. -/
  registered : ∀ e ∈ s.pendingTransactions.entries,
    (e.2.futureTransactionReceipt, e.1) ∈ s.hashes
  completed : ∀ c ∈ s.completions, (c.future, c.transactionHash) ∈ s.hashes

namespace Custody

variable {s : State ρ}

/-- Nothing is returned at the start. -/
theorem init (transactionCount : ℤ) : Custody (State.init transactionCount : State ρ) where
  alive := rfl
  held := List.Perm.refl []
  nodup := List.nodup_nil
  lt _ h := absurd h List.not_mem_nil
  registered _ h := absurd h List.not_mem_nil
  completed _ h := absurd h List.not_mem_nil

/-- The three lists of what is held. -/
theorem flatMap_inSituation (h_alive : s.submitTimerAlive = true)
    (h : ∀ c ∈ s.completions, (c.future, c.transactionHash) ∈ s.hashes) :
    [Situation.waiting, .registered, .completed].flatMap s.inSituation =
      s.transactionQueue.map (fun t => t.futureTransactionReceipt) ++
        (s.pendingTransactions.entries.map (fun e => e.2.futureTransactionReceipt) ++
          s.completions.map Completion.future) := by
  have h_all : s.completions.filter (fun c => (c.future, c.transactionHash) ∈ s.hashes) =
      s.completions :=
    List.filter_eq_self.mpr fun c hc => decide_eq_true (h c hc)
  simp [State.inSituation, h_alive, h_all]

/-- **Every future is accounted for** where the invariant holds. -/
theorem accountedFor (h : Custody s) : s.AccountedFor := by
  intro k h_k
  have h_nodup := h.held.nodup_iff.mpr h.nodup
  obtain ⟨x, ⟨-, h_x⟩, h_unique⟩ := existsUnique_place h_nodup (h.held.mem_iff.mpr h_k)
  refine ⟨x, h_x, fun y h_y => h_unique y ⟨?_, h_y⟩⟩
  cases y <;> decide

/-- The three lists together are the futures that were returned. -/
theorem lists (h : Custody s) :
    (s.transactionQueue.map (fun t => t.futureTransactionReceipt) ++
      (s.pendingTransactions.entries.map (fun e => e.2.futureTransactionReceipt) ++
        s.completions.map Completion.future)).Perm s.returned := by
  rw [← flatMap_inSituation h.alive h.completed]
  exact h.held

/-- The invariant from its lists. -/
theorem of_lists (h_alive : s.submitTimerAlive = true)
    (h_lists : (s.transactionQueue.map (fun t => t.futureTransactionReceipt) ++
      (s.pendingTransactions.entries.map (fun e => e.2.futureTransactionReceipt) ++
        s.completions.map Completion.future)).Perm s.returned)
    (h_nodup : s.returned.Nodup) (h_lt : ∀ k ∈ s.returned, k < s.transactions.length)
    (h_registered : ∀ e ∈ s.pendingTransactions.entries,
      (e.2.futureTransactionReceipt, e.1) ∈ s.hashes)
    (h_completed : ∀ c ∈ s.completions, (c.future, c.transactionHash) ∈ s.hashes) : Custody s :=
  ⟨h_alive, (flatMap_inSituation h_alive h_completed).symm ▸ h_lists, h_nodup, h_lt, h_registered,
    h_completed⟩

/-- What is registered under a new hash was returned this hash. -/
theorem registered_insert (h : Custody s) {transactionHash : Hash}
    (h_free : transactionHash ∉ s.pendingTransactions) {t : TransactionAndReceipt} :
    ∀ e ∈ (s.pendingTransactions.insert transactionHash t).entries,
      (e.2.futureTransactionReceipt, e.1) ∈
        s.hashes ++ [(t.futureTransactionReceipt, transactionHash)] := by
  rw [AList.entries_insert_of_notMem h_free]
  intro e h_e
  rcases List.mem_cons.mp h_e with rfl | h_e
  · exact List.mem_append_right _ (List.mem_singleton.mpr rfl)
  · exact List.mem_append_left _ (h.registered e h_e)

/-! ### Calls -/

section Calls

variable {fromAccount : RpcAddress}

/-- The next transaction is not among those that were returned. -/
theorem fresh (h : Custody s) : s.transactions.length ∉ s.returned :=
  fun hc => Nat.lt_irrefl _ (h.lt _ hc)

/-- A new future is not among the old ones. -/
theorem nodup_concat (h : Custody s) : (s.returned ++ [s.transactions.length]).Nodup :=
  h.nodup.append (List.nodup_singleton _) (List.disjoint_singleton.mpr h.fresh)

/-- Every future has its number among the transactions. -/
theorem lt_concat (h : Custody s) (transaction : Transaction) :
    ∀ k ∈ s.returned ++ [s.transactions.length],
      k < (s.transactions ++ [transaction]).length := by
  intro k h_k
  rw [List.length_append, List.length_singleton]
  rcases List.mem_append.mp h_k with h_k | h_k
  · have := h.lt k h_k
    omega
  · rw [List.mem_singleton.mp h_k]
    exact Nat.lt_succ_self _

/-- `sendTransaction` keeps the invariant: its future waits in the queue. -/
theorem sendTransaction (h : Custody s) (contractAddress : RpcAddress)
    (functionEncoding : Abi.FunctionEncoding) (args : List JavaObject) :
    Custody (s.sendTransaction fromAccount contractAddress functionEncoding args) := by
  unfold State.sendTransaction
  cases functionEncoding.encode args with
  | error e => exact h
  | ok data =>
    refine of_lists h.alive ?_ h.nodup_concat (h.lt_concat _) h.registered h.completed
    show (List.map _ (s.transactionQueue ++ [_]) ++ _).Perm (s.returned ++ [_])
    -- the new transaction is behind those that wait
    rw [List.map_append, List.append_assoc]
    refine (List.Perm.append_left _ List.perm_append_comm).trans ?_
    rw [← List.append_assoc]
    exact h.lists.append_right _

/-- `newContract` keeps it if its request is answered. -/
theorem newContract (h : Custody s) {code : List Char} {constructor : Option Abi.FunctionEncoding}
    {args : List JavaObject} {answer : SendAnswer}
    (h_keeps : Keeps s (.newContract code constructor args answer)) :
    Custody (s.newContract fromAccount code constructor args answer) := by
  unfold State.newContract
  cases h_data : creationData code constructor args with
  | error e => exact h
  | ok data =>
    cases answer with
    | hash transactionHash =>
      -- from the hands of the caller to the poller, under a hash that is free
      have h_free := h_keeps data transactionHash h_data rfl
      refine of_lists h.alive ?_ h.nodup_concat (h.lt_concat _) ?_
        fun c hc => List.mem_append_left _ (h.completed c hc)
      · show (_ ++ (List.map _ (s.pendingTransactions.insert transactionHash _).entries ++ _)).Perm
          (s.returned ++ [_])
        rw [AList.entries_insert_of_notMem h_free, List.map_cons, List.cons_append]
        refine List.perm_middle.trans ?_
        exact (h.lists.cons _).trans (List.perm_append_singleton _ _).symm
      · exact h.registered_insert h_free
    -- the call throws, and has not returned
    | _ =>
      refine ⟨h.alive, h.held, h.nodup, fun k h_k => ?_, h.registered, h.completed⟩
      exact (h.lt k h_k).trans_le (List.length_append ▸ Nat.le_add_right _ _)

end Calls

/-! ### Ticks -/

/-- A tick of the submit timer keeps it if no transaction is lost. -/
theorem submit (h : Custody s) {answer : SendAnswer} (h_keeps : Keeps s (.submit answer)) :
    Custody (s.submit answer) := by
  unfold State.submit
  rw [if_pos h.alive]
  cases h_queue : s.transactionQueue with
  | nil => exact h
  | cons t queue =>
    have h_lists := h.lists
    rw [h_queue, List.map_cons, List.cons_append] at h_lists
    rcases h_keeps h.alive t queue h_queue with ⟨transactionHash, rfl, h_free⟩ | ⟨e, rfl, h_few⟩
    · refine of_lists h.alive ?_ h.nodup h.lt (h.registered_insert h_free)
        fun c hc => List.mem_append_left _ (h.completed c hc)
      -- from the front of the queue to the poller
      show (List.map _ queue ++ (List.map _ (s.pendingTransactions.insert transactionHash _).entries
        ++ _)).Perm s.returned
      rw [AList.entries_insert_of_notMem h_free, List.map_cons, List.cons_append]
      exact List.perm_middle.trans h_lists
    · dsimp only
      rw [if_pos (TransactionAndReceipt.failed_retry.mpr h_few)]
      refine of_lists h.alive ?_ h.nodup h.lt h.registered h.completed
      -- from the front of the queue to its end
      show (List.map _ (queue ++ [_]) ++ _).Perm s.returned
      rw [List.map_append, List.append_assoc]
      exact List.perm_middle.trans h_lists

/-- The entries that the poller completes and the rest. -/
theorem exists_rest (h : Custody s) (rank : Hash → ℕ) (answer : Hash → ReceiptAnswer ρ) :
    ∃ rest, s.pendingTransactions.entries.Perm
        ((State.pollEntries answer (s.entries rank)).1.map Prod.fst ++ rest) ∧
      (s.transactionQueue.map (fun t => t.futureTransactionReceipt) ++
        (rest.map (fun e => e.2.futureTransactionReceipt) ++
          (s.completions.map Completion.future ++ (State.pollEntries answer (s.entries rank)).1.map
            (fun e => e.1.2.futureTransactionReceipt)))).Perm s.returned := by
  have h_sublist : ((State.pollEntries answer (s.entries rank)).1.map Prod.fst).Sublist
      (s.entries rank) := pollEntries_sublist
  obtain ⟨rest, h_rest⟩ := h_sublist.exists_perm_append
  have h_entries := (List.perm_insertionSort _ s.pendingTransactions.entries).symm.trans h_rest
  refine ⟨rest, h_entries, ?_⟩
  -- the futures that are completed go behind those that were completed before
  have h_map := h_entries.map fun e => e.2.futureTransactionReceipt
  rw [List.map_append, List.map_map] at h_map
  refine (List.Perm.append_left _ ?_).trans h.lists
  rw [← List.append_assoc]
  refine List.perm_append_comm.trans ?_
  rw [← List.append_assoc]
  exact h_map.symm.append_right _

/-- The futures that the poller completes are new ones. -/
theorem completions_poll (h : Custody s) (rank : Hash → ℕ) (answer : Hash → ReceiptAnswer ρ) :
    (s.poll rank answer).completions =
      s.completions ++ (State.pollEntries answer (s.entries rank)).1.map
        fun e => ⟨e.1.2.futureTransactionReceipt, e.1.1, e.2⟩ := by
  obtain ⟨rest, -, h_moved⟩ := h.exists_rest rank answer
  have h_nodup := h_moved.nodup_iff.mpr h.nodup
  rw [← foldl_complete (List.nodup_append.mp (List.nodup_append.mp h_nodup).2.1).2.1]
  unfold State.poll
  dsimp only
  split_ifs <;> rfl

/-- A tick of the poll keeps it if no hash is lost. -/
theorem poll (h : Custody s) {rank : Hash → ℕ} {answer : Hash → ReceiptAnswer ρ}
    (h_keeps : Keeps s (.poll rank answer)) : Custody (s.poll rank answer) := by
  have h_new := h.completions_poll rank answer
  obtain ⟨rest, h_entries, h_moved⟩ := h.exists_rest rank answer
  unfold State.poll at h_new ⊢
  dsimp only at h_new ⊢
  by_cases h_thrown : (State.pollEntries answer (s.entries rank)).2 = true
  · -- nothing was completed before the exception
    rw [if_pos h_thrown, pollEntries_eq_nil.mpr (h_keeps (pollEntries_thrown.mp h_thrown))]
    exact h
  · rw [if_neg h_thrown] at h_new ⊢
    dsimp only at h_new
    set completed := (State.pollEntries answer (s.entries rank)).1 with h_completed
    -- what is erased is what was completed
    have h_left : (completed.foldl (fun map e => map.erase e.1.1)
        s.pendingTransactions).entries.Perm rest := by
      have h_erase := perm_foldl_erase h_entries
      rwa [List.foldl_map] at h_erase
    have h_mem {e : State.Entry} (h_e : e ∈ completed.map Prod.fst ∨ e ∈ rest) :
        (e.2.futureTransactionReceipt, e.1) ∈ s.hashes :=
      h.registered e (h_entries.mem_iff.mpr (List.mem_append.mpr h_e))
    refine of_lists h.alive ?_ h.nodup h.lt ?_ ?_
    · show (_ ++ (List.map _ (AList.entries _) ++
        List.map _ (completed.foldl State.complete s.completions))).Perm s.returned
      rw [h_new, List.map_append, List.map_map]
      exact (((h_left.map _).append_right _).append_left _).trans h_moved
    · intro e h_e
      exact h_mem (Or.inr (h_left.mem_iff.mp h_e))
    · intro c h_c
      have h_c' : c ∈ completed.foldl State.complete s.completions := h_c
      rw [h_new] at h_c'
      rcases List.mem_append.mp h_c' with h_c | h_c
      · exact h.completed c h_c
      · obtain ⟨e, h_e, rfl⟩ := List.mem_map.mp h_c
        exact h_mem (Or.inl (List.mem_map_of_mem h_e))

/-- **One step** keeps the invariant under its condition. -/
theorem step (h : Custody s) {fromAccount : RpcAddress} {i : Input ρ} (h_keeps : Keeps s i) :
    Custody (s.step fromAccount i) := by
  cases i with
  | sendTransaction contractAddress functionEncoding args =>
    exact h.sendTransaction contractAddress functionEncoding args
  | newContract code constructor args answer => exact h.newContract h_keeps
  | submit answer => exact h.submit h_keeps
  | poll rank answer => exact h.poll h_keeps

/-! ### What happens otherwise -/

/-- A future that is in the hands of nobody is in no situation. -/
theorem not_accountedFor {s' : State ρ} (h_accounted : s'.AccountedFor) {k : ℕ}
    (h_k : k ∈ s'.returned)
    (h_waiting : k ∉ s'.transactionQueue.map fun t => t.futureTransactionReceipt)
    (h_registered : k ∉ s'.pendingTransactions.entries.map fun e => e.2.futureTransactionReceipt)
    (h_completed : k ∉ s'.completions.map Completion.future) : False := by
  obtain ⟨x, h_x, -⟩ := h_accounted k h_k
  -- in each situation the future is in one of the three lists
  cases x with
  | waiting =>
    unfold State.inSituation at h_x
    split_ifs at h_x with h_alive
    · exact h_waiting h_x
    · exact List.not_mem_nil h_x
  | registered => exact h_registered h_x
  | completed => exact h_completed ((List.filter_sublist.map _).subset h_x)

/-- The future under a hash, if another one is registered under it. -/
theorem exists_overwritten (h : Custody s) {transactionHash : Hash}
    (h_key : transactionHash ∈ s.pendingTransactions) :
    ∃ k, (k :: (s.transactionQueue.map (fun t => t.futureTransactionReceipt) ++
      ((s.pendingTransactions.entries.kerase transactionHash).map
        (fun e => e.2.futureTransactionReceipt) ++
          s.completions.map Completion.future))).Perm s.returned := by
  obtain ⟨t, l₁, l₂, -, h_eq, h_erase⟩ := List.exists_of_kerase (AList.mem_keys.mp h_key)
  refine ⟨t.futureTransactionReceipt, List.Perm.trans ?_ h.lists⟩
  rw [h_erase, h_eq]
  simp only [List.map_append, List.map_cons]
  refine List.perm_middle.symm.trans (List.Perm.append_left _ ?_)
  rw [List.append_assoc, List.append_assoc]
  exact List.perm_middle.symm

/-- Conversely, a future of `newContract` that is accounted for was answered. -/
theorem keeps_newContract (h : Custody s) {fromAccount : RpcAddress} {code : List Char}
    {constructor : Option Abi.FunctionEncoding} {args : List JavaObject} {answer : SendAnswer}
    (h_accounted : (s.newContract fromAccount code constructor args answer).AccountedFor) :
    Keeps s (.newContract code constructor args answer) := by
  rintro data transactionHash h_data rfl h_key
  -- `k` is the transaction that was registered under the hash, and is overwritten
  obtain ⟨k, h_k⟩ := h.exists_overwritten h_key
  have h_apart := (List.nodup_cons.mp (h_k.nodup_iff.mpr h.nodup)).1
  have h_returned : k ∈ s.returned := h_k.subset List.mem_cons_self
  simp only [List.mem_append, not_or] at h_apart
  unfold State.newContract at h_accounted
  rw [h_data] at h_accounted
  refine not_accountedFor h_accounted (List.mem_append_left _ h_returned) h_apart.1 ?_ h_apart.2.2
  show k ∉ List.map _ (s.pendingTransactions.insert transactionHash _).entries
  rw [AList.entries_insert, List.map_cons, List.mem_cons, not_or]
  refine ⟨fun hc => ?_, h_apart.2.1⟩
  obtain rfl : k = s.transactions.length := hc
  exact h.fresh h_returned

/-- A tick of the submit timer that accounts for all futures lost no transaction. -/
theorem keeps_submit (h : Custody s) {answer : SendAnswer}
    (h_accounted : (s.submit answer).AccountedFor) : Keeps s (.submit answer) := by
  intro h_alive t queue h_queue
  unfold State.submit at h_accounted
  rw [if_pos h_alive, h_queue] at h_accounted
  dsimp only at h_accounted
  have h_lists := h.lists
  rw [h_queue, List.map_cons, List.cons_append] at h_lists
  have h_returned : t.futureTransactionReceipt ∈ s.returned := h_lists.subset List.mem_cons_self
  have h_apart := (List.nodup_cons.mp (h_lists.nodup_iff.mpr h.nodup)).1
  simp only [List.mem_append, not_or] at h_apart
  -- the transaction in hand is gone, if the other places are as they were
  have h_lost {s' : State ρ} (h_returned' : s'.returned = s.returned)
      (h_queue' : s'.transactionQueue = queue)
      (h_pending' : s'.pendingTransactions = s.pendingTransactions)
      (h_completions' : s'.completions = s.completions) : ¬s'.AccountedFor := fun hc =>
    not_accountedFor hc (h_returned' ▸ h_returned) (h_queue' ▸ h_apart.1) (h_pending' ▸ h_apart.2.1)
      (h_completions' ▸ h_apart.2.2)
  cases answer with
  | hash transactionHash =>
    -- the one that is overwritten is lost, not the one in hand
    refine Or.inl ⟨transactionHash, rfl, fun h_key => ?_⟩
    obtain ⟨k, h_k⟩ := h.exists_overwritten h_key
    have h_other := (List.nodup_cons.mp (h_k.nodup_iff.mpr h.nodup)).1
    rw [h_queue] at h_other
    simp only [List.map_cons, List.mem_append, List.mem_cons, not_or] at h_other
    refine not_accountedFor h_accounted (h_k.subset List.mem_cons_self) h_other.1.2 ?_ h_other.2.2
    show k ∉ List.map _ (s.pendingTransactions.insert transactionHash _).entries
    rw [AList.entries_insert, List.map_cons, List.mem_cons, not_or]
    exact ⟨h_other.1.1, h_other.2.1⟩
  | null => exact absurd h_accounted (h_lost rfl rfl rfl rfl)
  | jsonRpcException e =>
    refine Or.inr ⟨e, rfl, ?_⟩
    dsimp only at h_accounted
    split_ifs at h_accounted with h_retry
    · exact TransactionAndReceipt.failed_retry.mp h_retry
    · exact absurd h_accounted (h_lost rfl rfl rfl rfl)
  | runtimeException accepted => exact absurd h_accounted (h_lost rfl rfl rfl rfl)

/-- A tick of the poll that accounts for all futures lost no hash. -/
theorem keeps_poll (h : Custody s) {rank : Hash → ℕ} {answer : Hash → ReceiptAnswer ρ}
    (h_accounted : (s.poll rank answer).AccountedFor) : Keeps s (.poll rank answer) := by
  intro h_visited
  apply pollEntries_eq_nil.mp
  by_contra h_ne
  have h_thrown := pollEntries_thrown.mpr h_visited
  have h_new := h.completions_poll rank answer
  obtain ⟨e, h_e⟩ := List.exists_mem_of_ne_nil _ h_ne
  have h_entry : e.1 ∈ s.pendingTransactions.entries :=
    (List.perm_insertionSort _ _).subset (pollEntries_sublist.subset (List.mem_map_of_mem h_e))
  have h_same : (s.poll rank answer).returned = s.returned ∧
      (s.poll rank answer).hashes = s.hashes ∧
      (s.poll rank answer).pendingTransactions = s.pendingTransactions := by
    unfold State.poll
    dsimp only
    rw [if_pos h_thrown]
    exact ⟨rfl, rfl, rfl⟩
  -- the future is completed, and its transaction is still registered
  have h_registered : e.1.2.futureTransactionReceipt ∈
      (s.poll rank answer).inSituation .registered := by
    unfold State.inSituation
    rw [h_same.2.2]
    exact List.mem_map_of_mem h_entry
  have h_completed : e.1.2.futureTransactionReceipt ∈
      (s.poll rank answer).inSituation .completed := by
    unfold State.inSituation
    rw [h_new, h_same.2.1]
    refine List.mem_map.mpr ⟨⟨e.1.2.futureTransactionReceipt, e.1.1, e.2⟩, ?_, rfl⟩
    refine List.mem_filter.mpr ⟨List.mem_append_right _ (List.mem_map_of_mem h_e), ?_⟩
    exact decide_eq_true (h.registered e.1 h_entry)
  have h_returned : e.1.2.futureTransactionReceipt ∈ (s.poll rank answer).returned := by
    rw [h_same.1]
    refine h.lists.subset (List.mem_append_right _ (List.mem_append_left _ ?_))
    exact List.mem_map_of_mem h_entry
  exact absurd ((h_accounted _ h_returned).unique h_registered h_completed) (by decide)

/-- A step after which all transactions are accounted for has kept them. -/
theorem keeps (h : Custody s) {fromAccount : RpcAddress} {i : Input ρ}
    (h_accounted : (s.step fromAccount i).AccountedFor) : Keeps s i := by
  cases i with
  | sendTransaction contractAddress functionEncoding args => trivial
  | newContract code constructor args answer => exact h.keeps_newContract h_accounted
  | submit answer => exact h.keeps_submit h_accounted
  | poll rank answer => exact h.keeps_poll h_accounted

end Custody

/-! ### Runs -/

/-- **When no transaction disappears.** After every step of a run each transaction whose call
has returned is waiting, registered or completed, and not two of these, if and only if every
step keeps the transactions. -/
theorem accountedFor_iff (fromAccount : RpcAddress) (transactionCount : ℤ)
    (inputs : List (Input ρ)) :
    (∀ pre, pre <+: inputs → (State.after fromAccount transactionCount pre).AccountedFor) ↔
      Along (fun pre i => Keeps (State.after fromAccount transactionCount pre) i) inputs := by
  refine @along_iff _ (fun _ _ => True) _
    (fun pre => Custody (State.after fromAccount transactionCount pre)) _
    (Custody.init transactionCount) ?_ (fun _ h => h.accountedFor) inputs
    fun _ _ _ _ => trivial
  intro pre i h_pre _ h_or
  unfold State.after at h_or ⊢
  rw [run_concat] at h_or ⊢
  -- in either direction the step keeps the transactions
  have h_keeps : Keeps (run (State.step fromAccount) (State.init transactionCount) pre) i :=
    h_or.elim id fun h_accounted => Custody.keeps h_pre h_accounted
  exact ⟨h_keeps, Custody.step h_pre h_keeps⟩

/-- A call of `close()`, and a time-out when the node is sent its transaction. -/
def timeOutRun : List (Input Unit) :=
  [.sendTransaction (Address.toRpc 2) ⟨"0x43d726d6".toList, [], [], [], 0⟩ [],
    .submit (.runtimeException false)]

/-- In this run the time is out for a future that nothing completes. -/
theorem not_accountedFor_timeOutRun :
    ¬(State.after (Address.toRpc 1) 0 timeOutRun).AccountedFor := by
  intro h
  obtain ⟨x, h_x, -⟩ := h 0 (by decide +kernel)
  cases x with
  | waiting => exact absurd h_x (by decide +kernel)
  | registered => exact absurd h_x (by decide +kernel)
  | completed => exact absurd h_x (by decide +kernel)

end Ethereum

end Ethiso
