import Ethiso.Events.Runs

/-!
# The logs of other contracts

A contract is used through its `ContractProxy`, which knows the contract's address
and passes it on with every call. It does not with a listener: what is registered
is the hash of the event's signature, and any contract may emit logs with this
hash. So the logs of other contracts reach the listeners of this one, and those
that cannot be read or decoded end the call of `newBlock`.

To say when they have no influence, the run is compared with the *purged* run, in
which the receipts have only the logs of the contract (`Input.purge`). A log is
*inert* if it can be read, and if it only goes to handlers that are not the
proxy's and that take it without any effect on what they do later (`Inert`). If
all the foreign logs that are due are inert, the run and the purged run go the
same way (`after_mirrors`); so do two runs that have the purged run in common.
-/

namespace Ethiso

open Outcome PendingEvents

variable {α ι : Type*}

/-! ### Listeners that are registered through a proxy -/

/-- The signature hash of an event, and the decoder of its logs. -/
structure FunctionEncoding (α : Type*) where
  hash : String
  decodeEvent : LogEntry → Option α

/-- The proxy of a contract: its address and the encodings of its events. -/
structure ContractProxy (α : Type*) where
  contractAddress : String
  functionEncodings : String → Option (FunctionEncoding α)

/-- `Ethereum.addEventListener`; the poller passes it on as it is. -/
def Ethereum.addEventListener (functionEncoding : FunctionEncoding α) (handler : ι)
    (additionalTopics : List String) : Ethiso.Input α ι :=
  .addEventListener (functionEncoding.hash :: additionalTopics) functionEncoding.decodeEvent handler

/-- The call of the monitor; none if there is no such event. The address of the
contract is not passed on. -/
def ContractProxy.addEventListener (proxy : ContractProxy α) (name : String) (handler : ι)
    (additionalTopics : List String) : Option (Input α ι) :=
  (proxy.functionEncodings name).map fun functionEncoding =>
    Ethereum.addEventListener functionEncoding handler additionalTopics

/-- The handler is registered through the proxy in the run. -/
def ContractProxy.Registers (proxy : ContractProxy α) (l : List (Input α ι)) (handler : ι) : Prop :=
  ∃ name additionalTopics, ∃ i ∈ l, proxy.addEventListener name handler additionalTopics = some i

/-! ### Runs without foreign logs -/

/-- Only the logs of the contract at this address. -/
def TransactionReceipt.purge (address : String) (receipt : TransactionReceipt) :
    TransactionReceipt :=
  ⟨receipt.logs.filter fun logEntry => logEntry.address = address⟩

/-- The node without the logs of other contracts. -/
def EthereumRpc.purge (address : String) (rpc : EthereumRpc) : EthereumRpc where
  eth_getBlockByHash := rpc.eth_getBlockByHash
  eth_getTransactionReceipt transactionHash :=
    (rpc.eth_getTransactionReceipt transactionHash).map (TransactionReceipt.purge address)

/-- The input with such a node. -/
def Input.purge (address : String) : Input α ι → Input α ι
  | .addEventListener topics decodeEvent handler => .addEventListener topics decodeEvent handler
  | .newBlock rpc b => .newBlock (rpc.purge address) b

/-- Which calls of a run return, in order. -/
def Session.returns [DecidableEq ι] (c : ConfirmationCount) (env : Environment α ι) :
    Session α ι → List (Input α ι) → List Bool
  | _, [] => []
  | s, i :: l => (s.call c env i).isReturned :: (s.step c env i).returns c env l

/-! ### Inert logs -/

/-- The handler takes the event whatever it was called with before, and its later
answers are those it would give without it. -/
def Environment.Harmless (env : Environment α ι) (handler : ι) (event : α) : Prop :=
  ∀ earlier, env.accept handler earlier event = true ∧ ∀ later event',
    env.accept handler (earlier ++ event :: later) event' =
      env.accept handler (earlier ++ later) event'

/-- The log has the topics that are read, is for none of the `own` handlers, and
does no harm to those it is for. -/
def Inert (env : Environment α ι) (own : ι → Prop) (eventListeners : EventListeners α ι)
    (logEntry : LogEntry) : Prop :=
  LogShaped eventListeners logEntry ∧
    ∀ listener ∈ listenersFor eventListeners logEntry, ¬own listener.handler ∧
      ∃ event, listener.decodeEvent logEntry = some event ∧ env.Harmless listener.handler event

section Chain

variable [DecidableEq ι]

/-- The foreign logs of all the blocks that are due are inert. -/
def ForeignInert (T : BlockTree) (c : ConfirmationCount) (env : Environment α ι) (address : String)
    (own : ι → Prop) (pre : List (Input α ι)) : Input α ι → Prop
  | .addEventListener .. => True
  | .newBlock rpc b => ∀ y, (Session.after c env pre).Due T c b y →
      ∀ logEntry ∈ blockLogs rpc y, logEntry.address ≠ address →
        Inert env own (Session.after c env pre).pending.eventListeners logEntry

/-! ### Outputs that mirror each other -/

/-- The own handlers have been called with the same events, and all handlers will
answer alike. -/
structure Mirrors (env : Environment α ι) (own : ι → Prop) (t t' : List (Output α ι)) : Prop where
  calls_eq : ∀ handler, own handler → calls handler t = calls handler t'
  accept_eq : ∀ handler later event,
    env.accept handler (calls handler t ++ later) event =
      env.accept handler (calls handler t' ++ later) event

section Firing

variable {env : Environment α ι} {own : ι → Prop} {eventListeners : EventListeners α ι}
  {t t' : List (Output α ι)} {logEntry : LogEntry} {address : String} {rpc : EthereumRpc}

/-- A log that is passed calls its handler. -/
@[simp] theorem calls_concat_passed (handler handler' : ι) (t : List (Output α ι))
    (logEntry : LogEntry) (event : α) :
    calls handler (t ++ [.passed handler' logEntry (some event)]) =
      calls handler t ++ if handler' = handler then [event] else [] := by
  unfold calls
  rw [List.filterMap_append]
  by_cases h : handler' = handler <;> simp [h]

/-- A log that is not decoded calls nobody. -/
@[simp] theorem calls_concat_undecoded (handler handler' : ι) (t : List (Output α ι))
    (logEntry : LogEntry) :
    calls handler (t ++ [.passed handler' logEntry none]) = calls handler t := by
  unfold calls
  rw [List.filterMap_append]
  simp

/-- A block calls nobody. -/
@[simp] theorem calls_concat_fired (handler : ι) (t : List (Output α ι)) (b : BlockInfo) :
    calls handler (t ++ [.fired b]) = calls handler t := by
  unfold calls
  rw [List.filterMap_append]
  simp

theorem Mirrors.refl (t : List (Output α ι)) : Mirrors env own t t :=
  ⟨fun _ _ => rfl, fun _ _ _ => rfl⟩

/-- Firing the same block keeps two traces alike. -/
theorem Mirrors.fired (h : Mirrors env own t t') (b : BlockInfo) :
    Mirrors env own (t ++ [.fired b]) (t' ++ [.fired b]) := by
  refine ⟨?_, ?_⟩
  · intro handler h_own
    rw [calls_concat_fired, calls_concat_fired, h.calls_eq handler h_own]
  · intro handler later event
    rw [calls_concat_fired, calls_concat_fired, h.accept_eq]

/-- A log that both pass keeps them alike. -/
theorem Mirrors.passed (h : Mirrors env own t t') (handler : ι) (logEntry : LogEntry)
    (event : Option α) :
    Mirrors env own (t ++ [.passed handler logEntry event])
      (t' ++ [.passed handler logEntry event]) := by
  cases event with
  -- what is not decoded is no call
  | none =>
    refine ⟨?_, ?_⟩
    · intro handler' h_own
      rw [calls_concat_undecoded, calls_concat_undecoded, h.calls_eq handler' h_own]
    · intro handler' later event
      rw [calls_concat_undecoded, calls_concat_undecoded, h.accept_eq]
  -- the handler is called in both traces
  | some event =>
    refine ⟨?_, ?_⟩
    · intro handler' h_own
      rw [calls_concat_passed, calls_concat_passed, h.calls_eq handler' h_own]
    · intro handler' later event'
      rw [calls_concat_passed, calls_concat_passed, List.append_assoc, List.append_assoc,
        h.accept_eq]

/-- A harmless event, which only the first has, keeps them alike. -/
theorem Mirrors.harmless (h : Mirrors env own t t') {handler : ι} (h_foreign : ¬own handler)
    {event : α} (h_harmless : env.Harmless handler event) (logEntry : LogEntry) :
    Mirrors env own (t ++ [.passed handler logEntry (some event)]) t' := by
  refine ⟨?_, ?_⟩
  -- an own handler is another one
  · intro handler' h_own
    have h_ne : handler ≠ handler' := fun h_eq => h_foreign (h_eq ▸ h_own)
    rw [calls_concat_passed, if_neg h_ne, List.append_nil, h.calls_eq handler' h_own]
  · intro handler' later event'
    rw [calls_concat_passed]
    -- what the foreign handler accepts is not asked
    by_cases h_eq : handler = handler'
    · subst h_eq
      rw [if_pos rfl, List.append_assoc, List.singleton_append,
        (h_harmless (calls handler t)).2 later event', h.accept_eq]
    · rw [if_neg h_eq, List.append_nil, h.accept_eq]

/-! ### Firing a log -/

/-- What both have is passed in both, and ends the same way. -/
theorem fire_mirrors (listener : FunctionEncodingAndHandler α ι) (h : Mirrors env own t t') :
    Rel (Mirrors env own) (listener.fire env logEntry t) (listener.fire env logEntry t') := by
  unfold FunctionEncodingAndHandler.fire
  generalize matchTopics (listener.topics.drop 1) (logEntry.topics.drop 1) = m
  rcases m with _ | _ | _
  · exact .threw h
  · exact .returned h
  · cases h_decode : listener.decodeEvent logEntry with
    | none => exact .threw (h.passed _ _ _)
    | some event =>
      -- the handler answers alike
      have h_accept := h.accept_eq listener.handler [] event
      rw [List.append_nil, List.append_nil] at h_accept
      dsimp only
      rw [h_accept]
      split_ifs
      · exact .returned (h.passed _ _ _)
      · exact .threw (h.passed _ _ _)

/-- **Firing a log** keeps them alike, and throws in both or in neither. -/
theorem fireLog_mirrors (logEntry : LogEntry) (h : Mirrors env own t t') :
    Rel (Mirrors env own) (fireLog env eventListeners t logEntry)
      (fireLog env eventListeners t' logEntry) := by
  unfold fireLog
  split
  · exact .threw h
  · split
    · exact .returned h
    · exact forEach_rel (fun listener _ _ _ h' => fire_mirrors listener h') h

/-- An inert log, which only the first has, is passed on without an exception. -/
theorem fireLog_inert (h_inert : Inert env own eventListeners logEntry)
    (h : Mirrors env own t t') :
    ∃ t₁, fireLog env eventListeners t logEntry = returned t₁ ∧ Mirrors env own t₁ t' := by
  obtain ⟨⟨h_ne, h_length⟩, h_for⟩ := h_inert
  obtain ⟨topic, topics, h_topics⟩ := List.exists_cons_of_ne_nil h_ne
  unfold fireLog
  rw [h_topics]
  dsimp only
  cases h_handlers : eventListeners topic with
  | none => exact ⟨t, rfl, h⟩
  | some handlers =>
    refine forEach_returned (fun listener h_listener t₁ h₁ => ?_) h
    have h_here : listener ∈ (logEntry.topics.head?.bind eventListeners).getD [] := by
      rw [h_topics, List.head?_cons, Option.bind_some, h_handlers, Option.getD_some]
      exact h_listener
    unfold FunctionEncodingAndHandler.fire
    -- the topics are there, so nothing throws before they are compared
    have h_some : (matchTopics (listener.topics.drop 1) (logEntry.topics.drop 1)).isSome := by
      rw [matchTopics_isSome, List.length_drop, List.length_drop]
      exact Nat.sub_le_sub_right (h_length listener h_here) 1
    have h_iff := @matchTopics_eq_true (listener.topics.drop 1) (logEntry.topics.drop 1)
    generalize matchTopics (listener.topics.drop 1) (logEntry.topics.drop 1) = m at h_some h_iff ⊢
    rcases m with _ | _ | _
    · cases h_some
    · exact ⟨t₁, rfl, h₁⟩
    -- what matches is harmless, and for another contract
    · have h_match := h_iff.mp rfl
      obtain ⟨h_foreign, event, h_event, h_harmless⟩ :=
        h_for listener (List.mem_filter.mpr ⟨h_here, by simpa using h_match⟩)
      rw [h_event]
      dsimp only
      rw [if_pos (h_harmless _).1]
      exact ⟨_, rfl, h₁.harmless h_foreign h_harmless logEntry⟩

/-- Firing a block whose foreign logs are inert goes the same way without them. -/
theorem fireBlock_mirrors {y : BlockInfo}
    (h_inert : ∀ logEntry ∈ blockLogs rpc y, logEntry.address ≠ address →
      Inert env own eventListeners logEntry) (h : Mirrors env own t t') :
    Rel (Mirrors env own) (fireBlock env eventListeners rpc t y)
      (fireBlock env eventListeners (rpc.purge address) t' y) := by
  refine forEach_rel (fun transactionHash h_mem t₁ t₁' h₁ => ?_) (h.fired y)
  unfold fireTransaction EthereumRpc.purge
  dsimp only
  cases h_receipt : rpc.eth_getTransactionReceipt transactionHash with
  | none => exact .threw h₁
  | some receipt =>
    have h_logs : ∀ logEntry ∈ receipt.logs, logEntry ∈ blockLogs rpc y := fun logEntry h_log =>
      List.mem_flatMap.mpr ⟨transactionHash, h_mem, by rw [h_receipt]; exact h_log⟩
    -- the purged receipt has the logs of the contract only
    refine forEach_filter_rel (fun logEntry _ _ _ _ h₂ => fireLog_mirrors logEntry h₂) ?_ h₁
    intro logEntry h_log h_dropped t₂ t₂' h₂
    exact fireLog_inert (h_inert logEntry (h_logs logEntry h_log) (by simpa using h_dropped)) h₂

end Firing

/-! ### Sessions that mirror each other -/

/-- The monitors are the same, and the outputs mirror each other. -/
structure Session.Mirrors (env : Environment α ι) (own : ι → Prop) (s s' : Session α ι) :
    Prop where
  pending_eq : s.pending = s'.pending
  trace : Ethiso.Mirrors env own s.trace s'.trace

section Call

variable {T : BlockTree} {c : ConfirmationCount} {env : Environment α ι} {own : ι → Prop}
  {rpc rpc' : EthereumRpc} {s s' : Session α ι} {b : BlockInfo} {address : String}

omit [DecidableEq ι] in
/-- The import asks the node for blocks only. -/
theorem importFrom_congr (h_rpc : rpc.eth_getBlockByHash = rpc'.eth_getBlockByHash) (n : ℕ)
    (b : BlockInfo) (p : PendingEvents α ι) : importFrom rpc n b p = importFrom rpc' n b p := by
  induction n generalizing b p with
  | zero =>
    unfold importFrom
    rfl
  | succ n ih =>
    unfold importFrom
    rw [h_rpc]
    dsimp only
    -- both ask for the same parent
    split_ifs
    · rfl
    · cases rpc'.eth_getBlockByHash b.parentHash with
      | none => rfl
      | some parent => exact ih parent _

theorem addEventListener_mirrors (hs : s.Mirrors env own s') (topics : List String)
    (decodeEvent : LogEntry → Option α) (handler : ι) :
    Rel (Session.Mirrors env own) (s.call c env (.addEventListener topics decodeEvent handler))
      (s'.call c env (.addEventListener topics decodeEvent handler)) := by
  unfold Session.call PendingEvents.addEventListener
  dsimp only
  rw [← hs.pending_eq]
  cases topics with
  | nil => exact .threw ⟨rfl, hs.trace⟩
  | cons topic topics => exact .returned ⟨rfl, hs.trace⟩

/-- Removing a block goes the same way, if its foreign logs are inert. -/
theorem removeBlock_mirrors {inC : List Hash} {h : Hash} (hs : s.Mirrors env own s')
    (h_inert : h ∈ inC → ∀ y, s.pending.blockInfoMap h = some y → ∀ logEntry ∈ blockLogs rpc y,
      logEntry.address ≠ address → Inert env own s.pending.eventListeners logEntry) :
    Rel (Session.Mirrors env own) (Session.removeBlock env rpc inC s h)
      (Session.removeBlock env (rpc.purge address) inC s' h) := by
  unfold Session.removeBlock
  rw [← hs.pending_eq]
  split_ifs with h_in
  · cases h_y : s.pending.blockInfoMap h with
    | none => exact .threw ⟨rfl, hs.trace⟩
    | some y => exact (fireBlock_mirrors (h_inert h_in y h_y) hs.trace).map fun _ _ h' => ⟨rfl, h'⟩
  · exact .returned ⟨rfl, hs.trace⟩

/-- Removing a block takes its entry, whatever its handlers do. -/
theorem removeBlock_pending (inC : List Hash) (s : Session α ι) (h : Hash) :
    (Session.removeBlock env rpc inC s h).state.pending =
      { s.pending with blockInfoMap := Function.update s.pending.blockInfoMap h none } := by
  unfold Session.removeBlock
  dsimp only
  split_ifs
  · cases s.pending.blockInfoMap h with
    | none => rfl
    | some y =>
      dsimp only
      cases fireBlock env s.pending.eventListeners rpc s.trace y <;> rfl
  · rfl

/-- What a removal loop that began with `p` has left. -/
structure Session.LeftOf (p : PendingEvents α ι) (s : Session α ι) : Prop where
  listeners : s.pending.eventListeners = p.eventListeners
  info : ∀ {h y}, s.pending.blockInfoMap h = some y → p.blockInfoMap h = some y

/-- Removing a block keeps what is left of the blocks. -/
theorem Session.LeftOf.removeBlock {p : PendingEvents α ι} (hs : s.LeftOf p) (inC : List Hash)
    (h : Hash) : (Session.removeBlock env rpc inC s h).state.LeftOf p := by
  refine ⟨?_, ?_⟩
  · rw [removeBlock_pending]
    exact hs.listeners
  · intro h' y h_y
    rw [removeBlock_pending] at h_y
    dsimp only at h_y
    -- the removed hash has no block any more, the others keep theirs
    by_cases h_eq : h' = h
    · subst h_eq
      rw [Function.update_self] at h_y
      cases h_y
    · rw [Function.update_of_ne h_eq] at h_y
      exact hs.info h_y

/-- **The step.** A call goes the same way without the foreign logs of the blocks that
are due, if they are inert. -/
theorem newBlock_mirrors (h_rpc : rpc.AnswersBy T) (hp : Indexed T s.pending) (h_b : b ∈ T)
    (hs : s.Mirrors env own s')
    (h_inert : ∀ y, s.Due T c b y → ∀ logEntry ∈ blockLogs rpc y, logEntry.address ≠ address →
      Inert env own s.pending.eventListeners logEntry) :
    Rel (Session.Mirrors env own) (s.newBlock c env rpc b)
      (s'.newBlock c env (rpc.purge address) b) := by
  have h_imp := importBlocks_spec c h_rpc hp h_b
  -- the import of the purged node is the same
  have h_same :
      importBlocks c (rpc.purge address) b s'.pending = importBlocks c rpc b s.pending := by
    rw [← hs.pending_eq]
    exact @importFrom_congr _ _ (rpc.purge address) rpc rfl (fetchLimit c) b s.pending
  unfold Session.newBlock
  rw [h_same]
  cases h_o : importBlocks c rpc b s.pending with
  | threw p => exact .threw ⟨rfl, hs.trace⟩
  | returned p =>
    rw [h_o] at h_imp
    have h_listeners : p.eventListeners = s.pending.eventListeners := h_imp.listeners
    obtain ⟨lastKey, h_key⟩ := Session.exists_lastKey h_imp.indexed h_imp.mem_stored
    rw [map_returned, map_returned, bind_returned, bind_returned,
      @Session.removeBlocks_eq _ _ c env rpc ⟨p, s.trace⟩ _ _ h_key,
      @Session.removeBlocks_eq _ _ c env (rpc.purge address) ⟨p, s'.trace⟩ _ _ h_key]
    -- along the loop, what is still stored was stored when the loop began
    refine Rel.imp (R := fun s₁ s₁' => s₁.Mirrors env own s₁' ∧ s₁.LeftOf p)
      (Rel.bind ?_ ?_) fun _ _ h => h.1
    · refine forEach_rel (fun h h_mem s₁ s₁' ⟨h_mirrors, h_left⟩ => ?_)
        ⟨⟨rfl, hs.trace⟩, rfl, fun h_y => h_y⟩
      refine (removeBlock_mirrors h_mirrors fun h_in y h_y => ?_).and (h_left.removeBlock _ _)
      -- what is removed and on the chain is due
      have h_due : y ∈ due env p lastKey (removalBoundry c lastKey) :=
        List.mem_filterMap.mpr ⟨h, h_mem, by rw [if_pos h_in]; exact h_left.info h_y⟩
      rw [h_left.listeners, h_listeners]
      exact h_inert y (Session.due_of_mem h_imp h_key h_due)
    · rintro s₁ s₁' ⟨h_mirrors, h_left⟩
      refine .returned ⟨⟨?_, h_mirrors.trace⟩, h_left.listeners, h_left.info⟩
      unfold Session.clear
      rw [h_mirrors.pending_eq]

end Call

/-! ### Two runs -/

section Run

variable {T : BlockTree} {c : ConfirmationCount} {env : Environment α ι} {own : ι → Prop}
  {l l' : List (Input α ι)} {address : String}

/-- Which calls return in a longer run. -/
theorem returns_concat (s : Session α ι) (l : List (Input α ι)) (i : Input α ι) :
    s.returns c env (l ++ [i]) =
      s.returns c env l ++ [((run (Session.step c env) s l).call c env i).isReturned] := by
  induction l generalizing s with
  | nil => rfl
  | cons j l ih => exact congrArg _ (ih _)

/-- **The run.** A run and its purged run mirror each other, if the foreign logs that
are due are inert. -/
theorem after_mirrors (h_tree : Along (fun _ => FromTree T) l)
    (h_inert : Along (ForeignInert T c env address own) l) :
    (Session.after c env l).Mirrors env own (Session.after c env (l.map (Input.purge address))) ∧
      Session.init.returns c env l = Session.init.returns c env (l.map (Input.purge address)) := by
  refine @after_induction _ _ _ c env
    (fun pre i => Along (fun _ => FromTree T) (pre ++ [i]) ∧ ForeignInert T c env address own pre i)
    (fun l s => s.Mirrors env own (Session.after c env (l.map (Input.purge address))) ∧
      Session.init.returns c env l = Session.init.returns c env (l.map (Input.purge address)))
    ⟨⟨rfl, .refl _⟩, rfl⟩ ?_ l fun pre i post h_eq =>
      ⟨h_tree.restrict ⟨post, by simp [h_eq]⟩, h_inert pre i post h_eq⟩
  rintro pre i ⟨h_mirrors, h_returns⟩ ⟨h_concat, h_i⟩
  obtain ⟨h_pre, h_from⟩ := along_concat.mp h_concat
  -- the call and its purged call
  have h_call : Rel (Session.Mirrors env own) ((Session.after c env pre).call c env i)
      ((Session.after c env (pre.map (Input.purge address))).call c env (i.purge address)) := by
    cases i with
    | addEventListener topics decodeEvent handler =>
      exact addEventListener_mirrors h_mirrors topics decodeEvent handler
    | newBlock rpc b =>
      exact newBlock_mirrors h_from.2 (after_indexed pre h_pre) h_from.1 h_mirrors h_i
  rw [List.map_append, List.map_singleton, returns_concat, returns_concat, h_returns, after_concat,
    after_concat]
  exact ⟨h_call.state, congrArg _ (congrArg (fun r => [r]) h_call.isReturned)⟩

omit [DecidableEq ι] in
/-- Purging keeps the registrations. -/
theorem registers_purge {proxy : ContractProxy α} {handler : ι} :
    proxy.Registers (l.map (Input.purge address)) handler ↔ proxy.Registers l handler := by
  -- purging changes announcements only
  have h_fixed : ∀ {name : String} {additionalTopics : List String} {i j : Input α ι},
      proxy.addEventListener name handler additionalTopics = some i →
        (j.purge address = i ↔ j = i) := by
    intro name additionalTopics i j h_some
    obtain ⟨functionEncoding, -, rfl⟩ := Option.map_eq_some_iff.mp h_some
    cases j with
    | addEventListener topics decodeEvent handler' => exact Iff.rfl
    | newBlock rpc b => exact ⟨(fun h => nomatch h), (fun h => nomatch h)⟩
  refine ⟨?_, ?_⟩
  · rintro ⟨name, additionalTopics, i, h_mem, h_some⟩
    obtain ⟨j, h_j, h_purge⟩ := List.mem_map.mp h_mem
    exact ⟨name, additionalTopics, i, (h_fixed h_some).mp h_purge ▸ h_j, h_some⟩
  · rintro ⟨name, additionalTopics, i, h_mem, h_some⟩
    exact ⟨name, additionalTopics, i, List.mem_map.mpr ⟨i, h_mem, (h_fixed h_some).mpr rfl⟩, h_some⟩

omit [DecidableEq ι] in
/-- The purged input is from the tree if the input is. -/
theorem fromTree_purge {i : Input α ι} : FromTree T (i.purge address) ↔ FromTree T i := by
  cases i <;> exact Iff.rfl

omit [DecidableEq ι] in
/-- Blocks of the tree are announced in one run if they are in the other. -/
theorem fromTree_of_same (h_same : l.map (Input.purge address) = l'.map (Input.purge address))
    (h_tree : Along (fun _ => FromTree T) l) : Along (fun _ => FromTree T) l' := by
  rw [along_forall] at h_tree ⊢
  intro i h_i
  have h_mem : i.purge address ∈ l.map (Input.purge address) := by
    rw [h_same]
    exact List.mem_map_of_mem h_i
  obtain ⟨j, h_j, h_eq⟩ := List.mem_map.mp h_mem
  rw [← @fromTree_purge _ _ T address, ← h_eq, fromTree_purge]
  exact h_tree j h_j

/-- **Foreign logs.** Two runs that differ in the logs of other contracts call the
handlers of the contract with the same events, and their calls end alike, if all
those logs that are due are inert. -/
theorem foreign_logs_have_no_influence (T : BlockTree) (c : ConfirmationCount)
    (env : Environment α ι) (proxy : ContractProxy α) (l l' : List (Input α ι))
    (h_same : l.map (Input.purge proxy.contractAddress) =
      l'.map (Input.purge proxy.contractAddress))
    (h_tree : Along (fun _ => FromTree T) l)
    (h_inert : Along (ForeignInert T c env proxy.contractAddress (proxy.Registers l)) l)
    (h_inert' : Along (ForeignInert T c env proxy.contractAddress (proxy.Registers l')) l') :
    (∀ handler, proxy.Registers l handler →
        calls handler (Session.after c env l).trace = calls handler (Session.after c env l').trace) ∧
      Session.init.returns c env l = Session.init.returns c env l' := by
  -- each run mirrors the run without foreign logs, and these two runs are the same
  obtain ⟨h, h_returns⟩ := after_mirrors h_tree h_inert
  obtain ⟨h', h_returns'⟩ := after_mirrors (fromTree_of_same h_same h_tree) h_inert'
  refine ⟨?_, ?_⟩
  · intro handler h_reg
    have h_reg' : proxy.Registers l' handler := by
      rw [← @registers_purge _ _ _ proxy.contractAddress, ← h_same, registers_purge]
      exact h_reg
    rw [h.trace.calls_eq handler h_reg, h'.trace.calls_eq handler h_reg', h_same]
  · rw [h_returns, h_returns', h_same]

end Run

end Chain

/-! ### A forged payment -/

/-- A proxy with one event. -/
def paymentProxy : ContractProxy String where
  contractAddress := "0xc0"
  functionEncodings name :=
    if name = "PaymentMessage" then some ⟨"PaymentMessage", fun logEntry => some logEntry.data⟩
    else none

/-- A log of another contract, with the hash of the payment event. -/
def forgedLog : LogEntry := ⟨"0xa0", ["PaymentMessage"], "1000 GBP"⟩

/-- A log of another contract. -/
def transferLog : LogEntry := ⟨"0xa0", ["Transfer"], "7"⟩

theorem registers_paymentRun (logs : List LogEntry) (last : ℕ) :
    paymentProxy.Registers (paymentRun logs last) "bank" :=
  ⟨"PaymentMessage", [], _, List.mem_cons_self, rfl⟩

/-- A log is inert if nothing is registered under its first topic. -/
theorem inert_of_unregistered {env : Environment α ι} {own : ι → Prop}
    {eventListeners : EventListeners α ι} {logEntry : LogEntry} {topic : String}
    (h_topic : logEntry.topics.head? = some topic) (h_none : eventListeners topic = none) :
    Inert env own eventListeners logEntry := by
  -- nobody has registered for the topic, so nobody is called
  have h_nobody : (logEntry.topics.head?.bind eventListeners).getD [] = [] := by
    rw [h_topic, Option.bind_some, h_none, Option.getD_none]
  refine ⟨⟨fun h_nil => ?_, ?_⟩, ?_⟩
  · rw [h_nil] at h_topic
    cases h_topic
  · rw [h_nobody]
    intro listener h_listener
    cases h_listener
  · intro listener h_listener
    rw [listenersFor, h_nobody] at h_listener
    cases h_listener

/-- In this run no foreign log does any harm. -/
theorem foreignInert_paymentRun {logs : List LogEntry} {own : String → Prop}
    (h_logs : ∀ logEntry ∈ logs, logEntry.address ≠ "0xc0" →
      logEntry.topics.head? = some "Transfer")
    (h_none : ∀ n < 2, (Session.after oneConfirmation .quiet
      ((paymentRun logs 1).take (n + 1))).pending.eventListeners "Transfer" = none) :
    Along (ForeignInert (.line paymentBlocks) oneConfirmation .quiet "0xc0" own)
      (paymentRun logs 1) := by
  -- the logs of a block are those that the node is given
  have h_mem : ∀ y, ∀ logEntry ∈ blockLogs (lineRpc paymentBlocks fun _ => logs) y,
      logEntry ∈ logs := by
    intro y logEntry h_log
    obtain ⟨transactionHash, -, h_log⟩ := List.mem_flatMap.mp h_log
    exact h_log
  refine (along_concat (l := paymentRun logs 0)).mpr ⟨?_, ?_⟩
  · refine (along_concat (l := [_])).mpr ⟨(along_concat (l := [])).mpr ⟨along_nil, trivial⟩, ?_⟩
    intro y _ logEntry h_log h_foreign
    exact inert_of_unregistered (h_logs logEntry (h_mem y logEntry h_log) h_foreign)
      (h_none 0 (by decide))
  · intro y _ logEntry h_log h_foreign
    exact inert_of_unregistered (h_logs logEntry (h_mem y logEntry h_log) h_foreign)
      (h_none 1 (by decide))

/-- A log that nobody listens to changes nothing. -/
theorem foreign_logs_have_no_influence_transfer :
    (∀ handler, paymentProxy.Registers (paymentRun [paymentLog] 1) handler →
        calls handler (Session.after oneConfirmation .quiet (paymentRun [paymentLog] 1)).trace =
          calls handler
            (Session.after oneConfirmation .quiet (paymentRun [transferLog, paymentLog] 1)).trace) ∧
      Session.init.returns oneConfirmation .quiet (paymentRun [paymentLog] 1) =
        Session.init.returns oneConfirmation .quiet (paymentRun [transferLog, paymentLog] 1) :=
  foreign_logs_have_no_influence (.line paymentBlocks) oneConfirmation .quiet paymentProxy
    (paymentRun [paymentLog] 1) (paymentRun [transferLog, paymentLog] 1) rfl
    (fromTree_paymentRun _ (by decide))
    (foreignInert_paymentRun (by decide) (by decide +kernel))
    (foreignInert_paymentRun (by decide) (by decide +kernel))

/-- Without any log of the contract, the handler is called with the forged payment. -/
theorem not_sameCalls_forgedLog :
    (paymentRun [] 1).map (Input.purge paymentProxy.contractAddress) =
        (paymentRun [forgedLog] 1).map (Input.purge paymentProxy.contractAddress) ∧
      Along (fun _ => FromTree (.line paymentBlocks)) (paymentRun [] 1) ∧
      paymentProxy.Registers (paymentRun [] 1) "bank" ∧
      calls "bank" (Session.after oneConfirmation .quiet (paymentRun [] 1)).trace = [] ∧
      calls "bank" (Session.after oneConfirmation .quiet (paymentRun [forgedLog] 1)).trace =
        ["1000 GBP"] :=
  ⟨rfl, fromTree_paymentRun _ (by decide), registers_paymentRun _ _, by decide +kernel,
    by decide +kernel⟩

end Ethiso
