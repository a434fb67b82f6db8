import Ethiso.Events.Delivery

/-!
# Firing a block, attempt by attempt

The nested loops that fire a block are one loop over *attempts*: for each log, its
first topic is read, and then the log is offered to the listeners registered under
this topic, one after the other. An attempt makes its output, if it has one, even
if it throws (`perform_makes`): the handler has been called, or the decoding has
been tried. So a loop that throws has lost exactly what comes after the attempt
that threw, and it is complete, as far as passing on logs goes, if and only if
nothing was to be passed on after it (`passes_forEach_iff`).
-/

namespace Ethiso

open Outcome

variable {α ι : Type*}

/-- What the firing loops do, one after the other. -/
inductive Attempt (α ι : Type*) where
  | block (blockInfo : BlockInfo)
  | topic (logEntry : LogEntry)
  | offer (listener : FunctionEncodingAndHandler α ι) (logEntry : LogEntry)

namespace Attempt

/-- Performs an attempt; it may throw. -/
def perform [DecidableEq ι] (env : Environment α ι) (trace : List (Output α ι)) :
    Attempt α ι → Outcome (List (Output α ι))
  | .block blockInfo => .returned (trace ++ [.fired blockInfo])
  | .topic logEntry => if logEntry.topics = [] then .threw trace else .returned trace
  | .offer listener logEntry => listener.fire env logEntry trace

/-- The output of an attempt; none if the topics do not match. -/
def outputs : Attempt α ι → List (Output α ι)
  | .block blockInfo => [.fired blockInfo]
  | .topic _ => []
  | .offer listener logEntry =>
    if listener.topics.drop 1 <+: logEntry.topics.drop 1 then
      [.passed listener.handler logEntry (listener.decodeEvent logEntry)] else []

/-- What an attempt that does not throw puts out. -/
theorem perform_makes [DecidableEq ι] (env : Environment α ι) : Makes (perform env) outputs := by
  intro trace a
  cases a with
  | block blockInfo => rfl
  | topic logEntry =>
    unfold perform outputs
    rw [List.append_nil]
    dsimp only
    split_ifs <;> rfl
  | offer listener logEntry => exact fire_state listener logEntry trace

end Attempt

open Attempt

/-! ### The attempts of a block -/

/-- What is attempted for a log: its topic is read and its listeners are called. -/
def logAttempts (eventListeners : EventListeners α ι) (logEntry : LogEntry) :
    List (Attempt α ι) :=
  .topic logEntry :: ((logEntry.topics.head?.bind eventListeners).getD []).map fun listener =>
    .offer listener logEntry

/-- What is attempted for a block. -/
def blockAttempts (eventListeners : EventListeners α ι) (rpc : EthereumRpc)
    (blockInfo : BlockInfo) : List (Attempt α ι) :=
  .block blockInfo :: (blockLogs rpc blockInfo).flatMap (logAttempts eventListeners)

section Loops

variable {eventListeners : EventListeners α ι} {rpc : EthereumRpc} {trace : List (Output α ι)}

/-- The attempts for a log make its deliveries. -/
theorem outputs_logAttempts (logEntry : LogEntry) :
    (logAttempts eventListeners logEntry).flatMap outputs =
      logDeliveries eventListeners logEntry := by
  unfold logAttempts logDeliveries listenersFor
  rw [List.flatMap_cons, List.flatMap_map, map_filter_eq_flatMap]
  rfl

/-- Those for a block make what firing it puts out. -/
theorem outputs_blockAttempts (blockInfo : BlockInfo) :
    (blockAttempts eventListeners rpc blockInfo).flatMap outputs =
      firedOutputs eventListeners rpc blockInfo := by
  unfold blockAttempts firedOutputs blockDeliveries
  rw [List.flatMap_cons, List.flatMap_assoc]
  exact congrArg _ (List.flatMap_congr fun logEntry _ => outputs_logAttempts logEntry)

theorem outputs_blocksAttempts (blocks : List BlockInfo) :
    (blocks.flatMap (blockAttempts eventListeners rpc)).flatMap outputs =
      blocks.flatMap (firedOutputs eventListeners rpc) := by
  rw [List.flatMap_assoc]
  exact List.flatMap_congr fun blockInfo _ => outputs_blockAttempts blockInfo

variable [DecidableEq ι] {env : Environment α ι}

/-- **Firing a log** is performing its attempts. -/
theorem fireLog_eq (logEntry : LogEntry) (trace : List (Output α ι)) :
    fireLog env eventListeners trace logEntry =
      forEach (perform env) (logAttempts eventListeners logEntry) trace := by
  unfold fireLog logAttempts
  rw [forEach_cons]
  -- a log without topics throws at the first attempt
  cases h_topics : logEntry.topics with
  | nil =>
    rw [show perform env trace (.topic logEntry) = threw trace from if_pos h_topics, bind_threw]
  | cons topic topics =>
    rw [show perform env trace (.topic logEntry) = returned trace from
        if_neg (by rw [h_topics]; exact List.cons_ne_nil topic topics),
      bind_returned, forEach_map, List.head?_cons, Option.bind_some]
    dsimp only
    cases eventListeners topic <;> rfl

/-- With the receipts there, the loops of the code are one loop over the attempts. -/
theorem fireBlock_eq {blockInfo : BlockInfo} (h_receipts : ReceiptsServed rpc blockInfo)
    (trace : List (Output α ι)) :
    fireBlock env eventListeners rpc trace blockInfo =
      forEach (perform env) (blockAttempts eventListeners rpc blockInfo) trace := by
  have h_transaction : ∀ transactionHash ∈ blockInfo.transactions, ∀ trace,
      fireTransaction env eventListeners rpc trace transactionHash =
        forEach (fireLog env eventListeners)
          ((rpc.eth_getTransactionReceipt transactionHash).elim [] TransactionReceipt.logs)
          trace := by
    intro transactionHash h_mem trace
    obtain ⟨receipt, h_receipt⟩ := Option.ne_none_iff_exists'.mp (h_receipts _ h_mem)
    unfold fireTransaction
    rw [h_receipt]
    rfl
  unfold fireBlock blockAttempts blockLogs
  rw [forEach_congr h_transaction, forEach_flatMap, forEach_cons]
  exact (forEach_congr (fun logEntry _ trace => fireLog_eq logEntry trace) _).trans
    (forEach_flatMap _ _ _)

/-- Firing blocks is performing their attempts. -/
theorem fireBlocks_eq {blocks : List BlockInfo} (h_receipts : ∀ y ∈ blocks, ReceiptsServed rpc y)
    (trace : List (Output α ι)) :
    forEach (fireBlock env eventListeners rpc) blocks trace =
      forEach (perform env) (blocks.flatMap (blockAttempts eventListeners rpc)) trace :=
  (forEach_congr (fun y h_y trace => fireBlock_eq (h_receipts y h_y) trace) _).trans
    (forEach_flatMap _ _ _)

end Loops

/-! ### The logs that are passed on -/

/-- The outputs that pass a log to a handler. -/
def passes (trace : List (Output α ι)) : List (Output α ι) :=
  trace.filter fun
    | .passed .. => true
    | .fired _ => false

@[simp] theorem passes_append (s t : List (Output α ι)) : passes (s ++ t) = passes s ++ passes t :=
  List.filter_append ..

/-- The deliveries of a block are passes. -/
theorem passes_blockDeliveries (eventListeners : EventListeners α ι) (rpc : EthereumRpc)
    (blockInfo : BlockInfo) :
    passes (blockDeliveries eventListeners rpc blockInfo) =
      blockDeliveries eventListeners rpc blockInfo := by
  unfold passes
  rw [List.filter_eq_self]
  intro output h_output
  obtain ⟨logEntry, -, h_log⟩ := List.mem_flatMap.mp h_output
  obtain ⟨listener, -, rfl⟩ := List.mem_map.mp h_log
  rfl

/-- The passes among what is fired are the deliveries of the blocks. -/
theorem passes_firedOutputs (eventListeners : EventListeners α ι) (rpc : EthereumRpc)
    (blocks : List BlockInfo) :
    passes (blocks.flatMap (firedOutputs eventListeners rpc)) =
      blocks.flatMap (blockDeliveries eventListeners rpc) := by
  induction blocks with
  | nil => rfl
  | cons blockInfo blocks ih =>
    rw [List.flatMap_cons, List.flatMap_cons, passes_append, ih]
    exact congrArg (· ++ _) (passes_blockDeliveries eventListeners rpc blockInfo)

section CutsOff

variable [DecidableEq ι] {env : Environment α ι} {attempts : List (Attempt α ι)}
  {trace : List (Output α ι)}

/-- An attempt throws, and a log was to be passed on after it. -/
def CutsOff (env : Environment α ι) (trace : List (Output α ι)) (attempts : List (Attempt α ι)) :
    Prop :=
  ∃ before a after, attempts = before ++ a :: after ∧
    (a.perform env (trace ++ before.flatMap outputs)).isReturned = false ∧
      passes (after.flatMap outputs) ≠ []

/-- **Nothing is lost** in a loop if and only if no attempt cuts off another. -/
theorem passes_forEach_iff :
    (passes (forEach (perform env) attempts trace).state).length =
        (passes (trace ++ attempts.flatMap outputs)).length ↔ ¬CutsOff env trace attempts := by
  refine ⟨?_, ?_⟩
  · rintro h_length ⟨before, a, after, rfl, h_threw, h_lost⟩
    -- the loop gets no further than `a`, and loses what comes after it
    obtain ⟨done, h_done, h_state⟩ :=
      @Makes.forEach_stops _ _ _ _ (perform_makes env) before after a trace h_threw
    obtain ⟨rest, h_rest⟩ := h_done
    have h_split : (before ++ a :: after).flatMap outputs =
        done.flatMap outputs ++ rest.flatMap outputs ++ after.flatMap outputs := by
      rw [← List.flatMap_append, h_rest, ← List.flatMap_append, List.append_assoc,
        List.singleton_append]
    rw [h_state, h_split] at h_length
    simp only [passes_append, List.length_append] at h_length
    exact h_lost (List.eq_nil_of_length_eq_zero (by omega))
  · intro h_none
    -- a loop that throws at `a` has lost what comes after, and that is nothing
    cases h_loop : forEach (perform env) attempts trace with
    | returned t => rw [state_returned, (perform_makes env).forEach_returned h_loop]
    | threw t =>
      obtain ⟨before, a, after, rfl, h_threw, rfl⟩ := (perform_makes env).forEach_threw h_loop
      have h_lost : passes (after.flatMap outputs) = [] := by
        by_contra h_ne
        exact h_none ⟨before, a, after, rfl, h_threw, h_ne⟩
      have h_split : (before ++ a :: after).flatMap outputs =
          (before ++ [a]).flatMap outputs ++ after.flatMap outputs := by
        rw [← List.flatMap_append, List.append_assoc, List.singleton_append]
      congr 1
      calc passes (trace ++ (before ++ [a]).flatMap outputs)
          = passes (trace ++ (before ++ [a]).flatMap outputs) ++
              passes (after.flatMap outputs) := by
            rw [h_lost, List.append_nil]
        _ = passes (trace ++ (before ++ a :: after).flatMap outputs) := by
            rw [← passes_append, List.append_assoc, h_split]

end CutsOff

end Ethiso
