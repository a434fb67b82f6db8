import Ethiso.Events.PendingEvents

/-!
# What firing a block does

The logs of a block go, in order, to the listeners registered under their first
topic whose further topics match; `blockDeliveries` is the list of the outputs
this should make. The loops of the code make exactly these outputs, or throw
after a part of them (`fireBlock_appends`); nothing is passed twice, to another
listener or in another order, whatever throws.

Apart from a handler that throws (`Refused`), four things end the loops: a receipt
that is not there, a log without topics, a log with fewer topics than a listener
registered under its first topic asks for (`LogShaped` excludes both), and a
matching log that cannot be decoded (`Decodes`). If none of them occurs, only a
handler can throw (`refused_of_fireBlock`).
-/

namespace Ethiso

open Outcome

variable {α ι : Type*}

/-! ### The outputs a block should make -/

/-- The listeners a log is for: registered under its first topic, with all their
further topics the same. -/
def listenersFor (eventListeners : EventListeners α ι) (logEntry : LogEntry) :
    List (FunctionEncodingAndHandler α ι) :=
  ((logEntry.topics.head?.bind eventListeners).getD []).filter fun listener =>
    listener.topics.drop 1 <+: logEntry.topics.drop 1

/-- What a log makes the session pass to its listeners. -/
def logDeliveries (eventListeners : EventListeners α ι) (logEntry : LogEntry) :
    List (Output α ι) :=
  (listenersFor eventListeners logEntry).map fun listener =>
    .passed listener.handler logEntry (listener.decodeEvent logEntry)

/-- The logs of a block: those of its transactions' receipts, in order. -/
def blockLogs (rpc : EthereumRpc) (blockInfo : BlockInfo) : List LogEntry :=
  blockInfo.transactions.flatMap fun transactionHash =>
    (rpc.eth_getTransactionReceipt transactionHash).elim [] TransactionReceipt.logs

/-- What the logs of a block make it pass. -/
def blockDeliveries (eventListeners : EventListeners α ι) (rpc : EthereumRpc)
    (blockInfo : BlockInfo) : List (Output α ι) :=
  (blockLogs rpc blockInfo).flatMap (logDeliveries eventListeners)

/-- The outputs of a block that is fired. -/
def firedOutputs (eventListeners : EventListeners α ι) (rpc : EthereumRpc)
    (blockInfo : BlockInfo) : List (Output α ι) :=
  .fired blockInfo :: blockDeliveries eventListeners rpc blockInfo

/-! ### Comparing topics -/

/-- Topics match if they are a prefix of those of the log. -/
theorem matchTopics_eq_true {ts ls : List String} :
    matchTopics ts ls = some true ↔ ts <+: ls := by
  induction ts generalizing ls with
  | nil => simp [matchTopics]
  | cons t ts ih =>
    cases ls with
    | nil => simp [matchTopics]
    | cons l ls =>
      rw [List.cons_prefix_cons, ← ih, matchTopics]
      -- a mismatch further on is still a mismatch
      cases matchTopics ts ls <;> simp

/-- The comparison throws if the log has fewer topics. -/
theorem matchTopics_isSome {ts ls : List String} :
    (matchTopics ts ls).isSome ↔ ts.length ≤ ls.length := by
  induction ts generalizing ls with
  | nil => simp [matchTopics]
  | cons t ts ih =>
    cases ls with
    | nil => simp [matchTopics]
    | cons l ls => simpa [matchTopics] using ih

/-! ### The code makes these outputs -/

section Appends

variable [DecidableEq ι] {env : Environment α ι} {eventListeners : EventListeners α ι}
  {rpc : EthereumRpc}

/-- A handler makes its output if the topics match, and none otherwise, whether it
returns or throws. -/
theorem fire_state (listener : FunctionEncodingAndHandler α ι) (logEntry : LogEntry)
    (trace : List (Output α ι)) :
    (listener.fire env logEntry trace).state = trace ++
      if listener.topics.drop 1 <+: logEntry.topics.drop 1 then
        [.passed listener.handler logEntry (listener.decodeEvent logEntry)] else [] := by
  unfold FunctionEncodingAndHandler.fire
  have h_iff := @matchTopics_eq_true (listener.topics.drop 1) (logEntry.topics.drop 1)
  generalize matchTopics (listener.topics.drop 1) (logEntry.topics.drop 1) = m at h_iff ⊢
  -- a topic is missing, one differs, or all match
  rcases m with _ | _ | _
  · rw [if_neg fun h => absurd (h_iff.mpr h) (by simp), List.append_nil]
    rfl
  · rw [if_neg fun h => absurd (h_iff.mpr h) (by simp), List.append_nil]
    rfl
  · rw [if_pos (h_iff.mp rfl)]
    cases h_decode : listener.decodeEvent logEntry with
    | none => rfl
    | some event =>
      dsimp only
      split_ifs <;> rfl

/-- Filtering and mapping in one. -/
theorem map_filter_eq_flatMap {β γ : Type*} (p : β → Prop) [DecidablePred p] (g : β → γ)
    (l : List β) :
    (l.filter fun x => p x).map g = l.flatMap fun x => if p x then [g x] else [] := by
  induction l with
  | nil => rfl
  | cons x l ih =>
    rw [List.flatMap_cons, ← ih, List.filter_cons]
    by_cases h : p x <;> simp [h]

/-- Firing a log appends its deliveries, up to the first throw. -/
theorem fireLog_appends (logEntry : LogEntry) (trace : List (Output α ι)) :
    Appends (logDeliveries eventListeners logEntry) trace
      (fireLog env eventListeners trace logEntry) := by
  unfold fireLog logDeliveries listenersFor
  split
  -- no topic to look under: the code throws
  · exact Or.inr ⟨[], by simp⟩
  · next topic topics h_topics =>
    rw [h_topics, List.head?_cons, Option.bind_some]
    split
    · next h_none => exact Or.inl (by simp [h_none])
    · next handlers h_handlers =>
      have h_loop := Appends.forEach (f := fun trace listener => listener.fire env logEntry trace)
        (fun listener (_ : listener ∈ handlers) trace =>
          Appends.of_state (fire_state listener logEntry trace)) trace
      rw [← h_topics, h_handlers, Option.getD_some, map_filter_eq_flatMap]
      exact h_loop

/-- Firing a transaction appends those of its logs. -/
theorem fireTransaction_appends (transactionHash : String) (trace : List (Output α ι)) :
    Appends
      (((rpc.eth_getTransactionReceipt transactionHash).elim [] TransactionReceipt.logs).flatMap
        (logDeliveries eventListeners))
      trace (fireTransaction env eventListeners rpc trace transactionHash) := by
  unfold fireTransaction
  cases rpc.eth_getTransactionReceipt transactionHash with
  | none => exact Or.inr ⟨[], by simp⟩
  | some receipt => exact Appends.forEach (fun logEntry _ trace => fireLog_appends logEntry trace) _

/-- Firing a block makes the outputs of the block, or throws after a part of them. -/
theorem fireBlock_appends (trace : List (Output α ι)) (blockInfo : BlockInfo) :
    Appends (blockDeliveries eventListeners rpc blockInfo) (trace ++ [.fired blockInfo])
      (fireBlock env eventListeners rpc trace blockInfo) := by
  unfold fireBlock blockDeliveries blockLogs
  rw [List.flatMap_assoc]
  exact Appends.forEach (fun transactionHash _ trace =>
    fireTransaction_appends transactionHash trace) _

/-- Firing a list of blocks makes their outputs, or throws after a part of them. -/
theorem fireBlocks_appends (trace : List (Output α ι)) (blocks : List BlockInfo) :
    Appends (blocks.flatMap (firedOutputs eventListeners rpc)) trace
      (forEach (fireBlock env eventListeners rpc) blocks trace) :=
  Appends.forEach (fun blockInfo _ trace => (fireBlock_appends trace blockInfo).cons) trace

end Appends

/-! ### Reading the fired blocks off the outputs -/

section FiredIn

variable {eventListeners : EventListeners α ι} {rpc : EthereumRpc}

@[simp] theorem firedIn_append (s t : List (Output α ι)) :
    firedIn (s ++ t) = firedIn s ++ firedIn t :=
  List.filterMap_append

@[simp] theorem firedIn_cons_fired (blockInfo : BlockInfo) (t : List (Output α ι)) :
    firedIn (.fired blockInfo :: t) = blockInfo :: firedIn t := rfl

theorem firedIn_mono {s t : List (Output α ι)} (h : s <+: t) : firedIn s <+: firedIn t :=
  h.filterMap _

/-- Deliveries fire no blocks. -/
theorem firedIn_blockDeliveries (blockInfo : BlockInfo) :
    firedIn (blockDeliveries eventListeners rpc blockInfo) = [] := by
  unfold firedIn
  rw [List.filterMap_eq_nil_iff]
  intro output h_output
  obtain ⟨logEntry, -, h_log⟩ := List.mem_flatMap.mp h_output
  obtain ⟨listener, -, rfl⟩ := List.mem_map.mp h_log
  rfl

/-- What is put out for blocks fires just these. -/
theorem firedIn_firedOutputs (blocks : List BlockInfo) :
    firedIn (blocks.flatMap (firedOutputs eventListeners rpc)) = blocks := by
  induction blocks with
  | nil => rfl
  | cons blockInfo blocks ih =>
    rw [List.flatMap_cons, firedIn_append, ih, firedOutputs, firedIn_cons_fired,
      firedIn_blockDeliveries]
    rfl

/-- What the session has fired after these outputs. -/
theorem firedBlocks_of_trace {s s' : Session α ι} {blocks : List BlockInfo}
    (h_trace : s'.trace = s.trace ++ blocks.flatMap (firedOutputs eventListeners rpc)) :
    s'.firedBlocks = s.firedBlocks ++ blocks := by
  unfold Session.firedBlocks
  rw [h_trace, firedIn_append, firedIn_firedOutputs]

/-- A block that throws while it is fired has been fired. -/
theorem firedIn_of_threw [DecidableEq ι] {env : Environment α ι} {blockInfo : BlockInfo}
    {trace trace' : List (Output α ι)}
    (h_threw : fireBlock env eventListeners rpc trace blockInfo = threw trace') :
    firedIn trace' = firedIn trace ++ [blockInfo] := by
  have h_app := @fireBlock_appends _ _ _ env eventListeners rpc trace blockInfo
  obtain ⟨part, h_part, h_state⟩ := h_app.state
  rw [h_threw, state_threw] at h_state
  have h_nil : firedIn part = [] := by
    have h_prefix := firedIn_mono h_part
    rw [firedIn_blockDeliveries] at h_prefix
    exact List.prefix_nil.mp h_prefix
  rw [h_state, firedIn_append, firedIn_append, h_nil, List.append_nil]
  rfl

/-- Blocks that are fired without an exception have been fired, in order. -/
theorem firedIn_of_returned [DecidableEq ι] {env : Environment α ι} {blocks : List BlockInfo}
    {trace trace' : List (Output α ι)}
    (h_ret : forEach (fireBlock env eventListeners rpc) blocks trace = returned trace') :
    firedIn trace' = firedIn trace ++ blocks := by
  have h_app := @fireBlocks_appends _ _ _ env eventListeners rpc trace blocks
  rw [h_ret] at h_app
  rw [returned.inj (h_app.eq_of_isReturned rfl), firedIn_append, firedIn_firedOutputs]

end FiredIn

/-! ### What can throw -/

/-- The code can read the topics it compares: the first one, and as many as each
listener registered under it has. -/
def LogShaped (eventListeners : EventListeners α ι) (logEntry : LogEntry) : Prop :=
  logEntry.topics ≠ [] ∧
    ∀ listener ∈ (logEntry.topics.head?.bind eventListeners).getD [],
      listener.topics.length ≤ logEntry.topics.length

/-- Every listener the log is for can decode it. -/
def Decodes (eventListeners : EventListeners α ι) (logEntry : LogEntry) : Prop :=
  ∀ listener ∈ listenersFor eventListeners logEntry, listener.decodeEvent logEntry ≠ none

/-- The receipts of the block's transactions are there. -/
def ReceiptsServed (rpc : EthereumRpc) (blockInfo : BlockInfo) : Prop :=
  ∀ transactionHash ∈ blockInfo.transactions, rpc.eth_getTransactionReceipt transactionHash ≠ none

/-- The last output is a call of a handler, and the handler threw. -/
def Refused [DecidableEq ι] (env : Environment α ι) (trace : List (Output α ι)) : Prop :=
  ∃ earlier handler logEntry event, trace = earlier ++ [.passed handler logEntry (some event)] ∧
    env.accept handler (calls handler earlier) event = false

/-- Handlers that never throw. -/
def Environment.quiet : Environment α ι := ⟨fun _ _ _ => true, id, fun l => .refl l⟩

theorem Environment.not_refused_quiet [DecidableEq ι] (trace : List (Output α ι)) :
    ¬Refused Environment.quiet trace := by
  rintro ⟨_, _, _, _, -, h_refused⟩
  cases h_refused

section Throws

variable [DecidableEq ι] {env : Environment α ι} {eventListeners : EventListeners α ι}
  {rpc : EthereumRpc} {trace trace' : List (Output α ι)}

/-- For a log with the topics that are read and that can be decoded, only a handler
can throw. -/
theorem refused_of_fireLog {logEntry : LogEntry} (h_shaped : LogShaped eventListeners logEntry)
    (h_decodes : Decodes eventListeners logEntry)
    (h_threw : fireLog env eventListeners trace logEntry = threw trace') : Refused env trace' := by
  obtain ⟨h_ne, h_length⟩ := h_shaped
  obtain ⟨topic, topics, h_topics⟩ := List.exists_cons_of_ne_nil h_ne
  unfold fireLog at h_threw
  rw [h_topics] at h_threw
  dsimp only at h_threw
  cases h_handlers : eventListeners topic with
  | none =>
    rw [h_handlers] at h_threw
    cases h_threw
  | some handlers =>
    rw [h_handlers] at h_threw
    obtain ⟨listener, h_listener, earlier, h_fire⟩ := forEach_threw h_threw
    have h_here : listener ∈ (logEntry.topics.head?.bind eventListeners).getD [] := by
      rw [h_topics, List.head?_cons, Option.bind_some, h_handlers, Option.getD_some]
      exact h_listener
    -- the topics that are compared are all there
    have h_some : (matchTopics (listener.topics.drop 1) (logEntry.topics.drop 1)).isSome := by
      rw [matchTopics_isSome, List.length_drop, List.length_drop]
      exact Nat.sub_le_sub_right (h_length listener h_here) 1
    -- and what matches can be decoded
    have h_for : listener.topics.drop 1 <+: logEntry.topics.drop 1 →
        listener.decodeEvent logEntry ≠ none := by
      intro h_match
      exact h_decodes listener (List.mem_filter.mpr ⟨h_here, by simpa using h_match⟩)
    rw [← matchTopics_eq_true] at h_for
    unfold FunctionEncodingAndHandler.fire at h_fire
    generalize matchTopics (listener.topics.drop 1) (logEntry.topics.drop 1) = m
      at h_some h_for h_fire
    -- so it is the handler that threw
    rcases m with _ | _ | _
    · cases h_some
    · cases h_fire
    · obtain ⟨event, h_event⟩ := Option.ne_none_iff_exists'.mp (h_for rfl)
      rw [h_event] at h_fire
      dsimp only at h_fire
      split_ifs at h_fire with h_accept
      exact ⟨earlier, listener.handler, logEntry, event, (threw.inj h_fire).symm,
        Bool.eq_false_iff.mpr h_accept⟩

/-- If firing a block throws although its receipts are there and its logs are
sound, a handler threw. -/
theorem refused_of_fireBlock {blockInfo : BlockInfo} (h_receipts : ReceiptsServed rpc blockInfo)
    (h_logs : ∀ logEntry ∈ blockLogs rpc blockInfo,
      LogShaped eventListeners logEntry ∧ Decodes eventListeners logEntry)
    (h_threw : fireBlock env eventListeners rpc trace blockInfo = threw trace') :
    Refused env trace' := by
  -- what the nested loops throw is thrown by one log
  obtain ⟨transactionHash, h_mem, earlier, h_transaction⟩ := forEach_threw h_threw
  obtain ⟨receipt, h_receipt⟩ := Option.ne_none_iff_exists'.mp (h_receipts _ h_mem)
  unfold fireTransaction at h_transaction
  rw [h_receipt] at h_transaction
  obtain ⟨logEntry, h_log, earlier', h_fire⟩ := forEach_threw h_transaction
  have h_in : logEntry ∈ blockLogs rpc blockInfo := by
    refine List.mem_flatMap.mpr ⟨transactionHash, h_mem, ?_⟩
    rw [h_receipt]
    exact h_log
  exact refused_of_fireLog (h_logs _ h_in).1 (h_logs _ h_in).2 h_fire

end Throws

end Ethiso
