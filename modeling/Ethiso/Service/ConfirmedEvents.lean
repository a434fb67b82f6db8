import Ethiso.Events.ConfirmedChain
import Ethiso.Events.ForeignLogs
import Ethiso.Service.ContractLogs

/-!
# The events of the confirmed blocks

From the calls in the blocks to the arrays that the handlers get: the contract executes the calls
of a chain of blocks and leaves logs (`ContractChain`), the node reports them as receipts, the
monitor fires the confirmed blocks, and each log is decoded for the listeners that it is for.

A handler that is registered once gets the events of its kind from the confirmed blocks, each once
and in order (`handler_gets_confirmed_events`). The invariant of the runs (`Listening`) says which
listeners there are: all are registered through the proxy, and one of them has this handler.
-/

namespace Ethiso

open Abi PendingEvents

/-! ### The contract on a tree of blocks -/

/-- What a transaction does: it calls the contract, or another contract leaves a log. -/
inductive Entry
  | call (sender : Address) (function : TrustlineCall)
  | foreign (logEntry : LogEntry)

/-- The call of the contract, if the entry is one. -/
def Entry.contractCall : Entry → Option (Address × TrustlineCall)
  | .call sender function => some (sender, function)
  | .foreign _ => none

/-- The calls among some entries. -/
def contractCalls (entries : List Entry) : List (Address × TrustlineCall) :=
  entries.filterMap Entry.contractCall

/-- A call of the contract and what follows. -/
@[simp] theorem contractCalls_call (sender : Address) (function : TrustlineCall)
    (entries : List Entry) :
    contractCalls (.call sender function :: entries) =
      (sender, function) :: contractCalls entries :=
  rfl

@[simp] theorem contractCalls_foreign (logEntry : LogEntry) (entries : List Entry) :
    contractCalls (.foreign logEntry :: entries) = contractCalls entries := rfl

/-- The events of some calls, made one after the other. -/
def World.emitted : World → List (Address × TrustlineCall) → List Event
  | _, [] => []
  | w, tx :: txs => (tx.2.exec w.contract tx.1).events ++ (w.step tx).emitted txs

/-- The blocks of the node, with what is done in each of them. -/
structure ContractChain where
  tree : BlockTree
  /-- the address of the contract, in the logs -/
  address : String
  entries : BlockInfo → List Entry

namespace ContractChain

variable (C : ContractChain)

/-- The calls of the contract in a block. -/
def calls (b : BlockInfo) : List (Address × TrustlineCall) := contractCalls (C.entries b)

/-- The world in front of the block of this number on the chain of `t`. -/
def worldAt (t : BlockInfo) (number : ℕ) : World :=
  World.after ((C.tree.forest.segment t 0 number).flatMap C.calls)

/-- The events of the contract in a block. -/
def events (b : BlockInfo) : List Event := (C.worldAt b b.number).emitted (C.calls b)

section Logs

variable {digest : List UInt8 → List UInt8} (E : EventEncodings digest)

/-- The logs of some entries. -/
def logsFrom : World → List Entry → List LogEntry
  | _, [] => []
  | w, .call sender function :: entries =>
    (function.exec w.contract sender).events.map (E.log C.address) ++
      logsFrom (w.step (sender, function)) entries
  | w, .foreign logEntry :: entries => logEntry :: logsFrom w entries

/-- The logs of a block, those of other contracts among them. -/
def logs (b : BlockInfo) : List LogEntry := C.logsFrom E (C.worldAt b b.number) (C.entries b)

/-- No log is too long for the node's answers, and the logs of other contracts have a first topic,
which is not that of an event of the contract. -/
structure Sound : Prop where
  fits : ∀ b ∈ C.tree, ∀ e ∈ C.events b, e.Fits
  foreign : ∀ b ∈ C.tree, ∀ logEntry, .foreign logEntry ∈ C.entries b →
    ∃ topic topics, logEntry.topics = topic :: topics ∧ ∀ k, topic ≠ E.topic k

end Logs

end ContractChain

/-! ### Listeners -/

section Listeners

variable {ι : Type} {digest : List UInt8 → List UInt8} (E : EventEncodings digest)

/-- What the proxy of the contract registers. -/
def EventEncodings.functionEncoding (k : EventKind) : FunctionEncoding (List JavaObject) where
  hash := E.topic k
  decodeEvent logEntry := ((E.encoding k).decodeEvent logEntry).toOption

/-- The listener for a kind of event. -/
def EventEncodings.listener (k : EventKind) (additionalTopics : List String) (handler : ι) :
    FunctionEncodingAndHandler (List JavaObject) ι where
  topics := E.topic k :: additionalTopics
  decodeEvent := (E.functionEncoding k).decodeEvent
  handler := handler

/-- The number of topics of a log, without the first one. -/
def EventKind.topicCount (k : EventKind) : ℕ := (k.inputs.filter Prod.snd).length

/-- The events that a listener is for. -/
def EventEncodings.Selects (address : String) (k : EventKind) (additionalTopics : List String)
    (e : Event) : Prop :=
  e.kind = k ∧ additionalTopics <+: (E.log address e).topics.drop 1

instance (address : String) (k : EventKind) (additionalTopics : List String) :
    DecidablePred (E.Selects address k additionalTopics) :=
  fun e => inferInstanceAs (Decidable (e.kind = k ∧ _ <+: _))

/-- A handler is registered through the proxy, for events that have the topics it asks for; a block
is announced by a node that reports what was done in the blocks of its chain. -/
def ContractChain.Faithful (C : ContractChain) : Input (List JavaObject) ι → Prop
  | .addEventListener topics decodeEvent _ => ∃ k additionalTopics,
      topics = E.topic k :: additionalTopics ∧ decodeEvent = (E.functionEncoding k).decodeEvent ∧
        additionalTopics.length ≤ k.topicCount
  | .newBlock rpc b => ∀ y, C.tree.forest.IsAncestor y b → blockLogs rpc y = C.logs E y

/-- The input registers the handler. -/
def Input.Registers (handler : ι) : Input (List JavaObject) ι → Prop
  | .addEventListener _ _ handler' => handler' = handler
  | .newBlock .. => False

/-! ### What one log does -/

section Deliveries

variable [DecidableEq ι] {E} {eventListeners : EventListeners (List JavaObject) ι}
  {address : String} {e : Event} {handler : ι} {k : EventKind} {additionalTopics : List String}

theorem EventEncodings.topic_injective {k k' : EventKind} (h : E.topic k = E.topic k') : k = k' :=
  E.hash_injective k k' (String.ofList_inj.mp h)

/-- The first topic of a log is that of its kind. -/
theorem EventEncodings.topics_log (address : String) (e : Event) :
    (E.log address e).topics = E.topic e.kind :: (E.log address e).topics.drop 1 := rfl

theorem EventEncodings.length_topics (address : String) (e : Event) :
    ((E.log address e).topics.drop 1).length = e.kind.topicCount := by
  cases e <;> rfl

/-- All listeners are registered through the proxy. -/
def ProxyListeners (E : EventEncodings digest)
    (eventListeners : EventListeners (List JavaObject) ι) : Prop :=
  ∀ topic, ∀ listener ∈ (eventListeners topic).getD [], ∃ k additionalTopics handler,
    topic = E.topic k ∧ listener = E.listener k additionalTopics handler ∧
      additionalTopics.length ≤ k.topicCount

/-- The listeners of a handler, among those under a topic. -/
def ownListeners (eventListeners : EventListeners (List JavaObject) ι) (handler : ι)
    (topic : String) : List (FunctionEncodingAndHandler (List JavaObject) ι) :=
  ((eventListeners topic).getD []).filter fun listener => listener.handler = handler

/-- The handler is registered once. -/
def ListensOnce (E : EventEncodings digest) (eventListeners : EventListeners (List JavaObject) ι)
    (handler : ι) (k : EventKind) (additionalTopics : List String) : Prop :=
  ∀ topic, ownListeners eventListeners handler topic =
    if topic = E.topic k then [E.listener k additionalTopics handler] else []

omit [DecidableEq ι] in
/-- **A log of the contract** has the shape that its listeners decode. -/
theorem ProxyListeners.log (h : ProxyListeners E eventListeners) (h_fits : e.Fits) :
    LogShaped eventListeners (E.log address e) ∧ Decodes eventListeners (E.log address e) := by
  have h_listener : ∀ listener ∈ (eventListeners (E.topic e.kind)).getD [],
      ∃ additionalTopics handler, listener = E.listener e.kind additionalTopics handler ∧
        additionalTopics.length ≤ e.kind.topicCount := by
    intro listener h_mem
    obtain ⟨k, additionalTopics, handler, h_topic, rfl, h_le⟩ := h _ listener h_mem
    -- the listener is one for this kind
    obtain rfl := E.topic_injective h_topic
    exact ⟨additionalTopics, handler, rfl, h_le⟩
  refine ⟨⟨List.cons_ne_nil _ _, fun listener h_mem => ?_⟩, fun listener h_mem => ?_⟩
  · obtain ⟨additionalTopics, handler, rfl, h_le⟩ := h_listener listener h_mem
    have h_length := E.length_topics address e
    rw [E.topics_log, List.length_cons, h_length]
    exact Nat.succ_le_succ h_le
  -- it decodes the event, since the event fits
  · obtain ⟨additionalTopics, handler, rfl, -⟩ :=
      h_listener listener (List.mem_filter.mp h_mem).1
    have h_decode := E.decodeEvent_log address h_fits
    show (((E.encoding e.kind).decodeEvent (E.log address e)).toOption) ≠ none
    rw [h_decode]
    exact Option.some_ne_none _

theorem calls_append (s t : List (Output (List JavaObject) ι)) :
    Ethiso.calls handler (s ++ t) = Ethiso.calls handler s ++ Ethiso.calls handler t :=
  List.filterMap_append

/-- Of what a log is passed to, the own listeners make the calls. -/
theorem calls_logDeliveries (logEntry : LogEntry) {topic : String} {topics : List String}
    (h_topics : logEntry.topics = topic :: topics) :
    Ethiso.calls handler (logDeliveries eventListeners logEntry) =
      (((ownListeners eventListeners handler topic).filter fun listener =>
        listener.topics.drop 1 <+: logEntry.topics.drop 1).filterMap fun listener =>
          listener.decodeEvent logEntry) := by
  unfold Ethiso.calls logDeliveries listenersFor ownListeners
  rw [h_topics, List.head?_cons, Option.bind_some, List.filterMap_map, List.filterMap_filter,
    List.filterMap_filter, List.filterMap_filter]
  refine List.filterMap_congr fun listener _ => ?_
  by_cases h_own : listener.handler = handler
  · cases h_decode : listener.decodeEvent logEntry <;> simp [h_own, h_decode]
  · cases h_decode : listener.decodeEvent logEntry <;> simp [h_own, h_decode]

/-- The call that a log of the contract makes. -/
theorem ListensOnce.calls_log (h : ListensOnce E eventListeners handler k additionalTopics)
    (h_fits : e.Fits) :
    Ethiso.calls handler (logDeliveries eventListeners (E.log address e)) =
      if E.Selects address k additionalTopics e then [e.decode.map EventArgument.object]
      else [] := by
  rw [calls_logDeliveries _ (E.topics_log address e), h]
  -- the listener is one for this kind, or is not asked
  by_cases h_kind : e.kind = k
  · subst h_kind
    have h_decode : (E.listener e.kind additionalTopics handler).decodeEvent (E.log address e) =
        some (e.decode.map EventArgument.object) :=
      congrArg Except.toOption (E.decodeEvent_log address h_fits)
    rw [if_pos rfl]
    have h_filter : ([E.listener e.kind additionalTopics handler].filter fun listener =>
        listener.topics.drop 1 <+: (E.log address e).topics.drop 1) =
          if additionalTopics <+: (E.log address e).topics.drop 1 then
            [E.listener e.kind additionalTopics handler] else [] := by
      rw [List.filter_cons, List.filter_nil]
      simp only [decide_eq_true_eq]
      rfl
    rw [h_filter]
    -- its topics match, or nothing happens
    by_cases h_match : additionalTopics <+: (E.log address e).topics.drop 1
    · rw [if_pos h_match, if_pos ⟨rfl, h_match⟩]
      exact List.filterMap_cons_some h_decode
    · rw [if_neg h_match, if_neg fun hc => h_match hc.2]
      rfl
  · rw [if_neg fun hc => h_kind (E.topic_injective hc), if_neg fun hc => h_kind hc.1]
    rfl

/-- The calls that some events make. -/
theorem ListensOnce.calls_events (h : ListensOnce E eventListeners handler k additionalTopics)
    {events : List Event} (h_fits : ∀ e ∈ events, e.Fits) :
    Ethiso.calls handler ((events.map (E.log address)).flatMap (logDeliveries eventListeners)) =
      (events.filter (E.Selects address k additionalTopics)).map fun e =>
        e.decode.map EventArgument.object := by
  induction events with
  | nil => rfl
  | cons e events ih =>
    rw [List.forall_mem_cons] at h_fits
    rw [List.map_cons, List.flatMap_cons, calls_append, h.calls_log h_fits.1, ih h_fits.2,
      List.filter_cons]
    simp only [decide_eq_true_eq]
    -- the event is one for the handler, or not
    split_ifs
    · rfl
    · rfl

omit [DecidableEq ι] in
/-- The logs of other contracts are for nobody. -/
theorem ProxyListeners.foreign (h : ProxyListeners E eventListeners) {logEntry : LogEntry}
    {topic : String} {topics : List String} (h_topics : logEntry.topics = topic :: topics)
    (h_topic : ∀ k, topic ≠ E.topic k) :
    LogShaped eventListeners logEntry ∧ listenersFor eventListeners logEntry = [] := by
  have h_none : (eventListeners topic).getD [] = [] := by
    rw [List.eq_nil_iff_forall_not_mem]
    intro listener h_mem
    obtain ⟨k, -, -, h_eq, -⟩ := h topic listener h_mem
    exact h_topic k h_eq
  unfold LogShaped listenersFor
  rw [h_topics, List.head?_cons, Option.bind_some, h_none]
  exact ⟨⟨List.cons_ne_nil _ _, fun _ h_mem => nomatch h_mem⟩, rfl⟩

/-! ### What a block does -/

variable {C : ContractChain}

/-- Each log is that of an event, or of another contract. -/
theorem ContractChain.mem_logsFrom {logEntry : LogEntry} {w : World} {entries : List Entry}
    (h : logEntry ∈ C.logsFrom E w entries) :
    (∃ e ∈ w.emitted (contractCalls entries), logEntry = E.log C.address e) ∨
      .foreign logEntry ∈ entries := by
  induction entries generalizing w with
  | nil => cases h
  | cons entry entries ih =>
    cases entry with
    -- a call of the contract emits events
    | call sender function =>
      rw [contractCalls_call, World.emitted]
      rcases List.mem_append.mp h with h_here | h_later
      · obtain ⟨e, h_e, rfl⟩ := List.mem_map.mp h_here
        exact Or.inl ⟨e, List.mem_append_left _ h_e, rfl⟩
      · refine (ih h_later).imp ?_ (List.mem_cons_of_mem _)
        rintro ⟨e, h_e, h_eq⟩
        exact ⟨e, List.mem_append_right _ h_e, h_eq⟩
    -- a foreign log stands where it is
    | foreign logEntry' =>
      rw [contractCalls_foreign]
      rcases List.mem_cons.mp h with rfl | h_later
      · exact Or.inr List.mem_cons_self
      · exact (ih h_later).imp_right (List.mem_cons_of_mem _)

omit [DecidableEq ι] in
/-- The logs of sound blocks are shaped and decoded. -/
theorem ProxyListeners.sound (h : ProxyListeners E eventListeners) (h_sound : C.Sound E)
    {b : BlockInfo} (h_b : b ∈ C.tree) : ∀ logEntry ∈ C.logs E b,
      LogShaped eventListeners logEntry ∧ Decodes eventListeners logEntry := by
  intro logEntry h_log
  rcases C.mem_logsFrom h_log with ⟨e, h_e, rfl⟩ | h_foreign
  · exact h.log (h_sound.fits b h_b e h_e)
  · obtain ⟨topic, topics, h_topics, h_topic⟩ := h_sound.foreign b h_b logEntry h_foreign
    obtain ⟨h_shaped, h_none⟩ := h.foreign h_topics h_topic
    refine ⟨h_shaped, fun listener h_mem => ?_⟩
    rw [h_none] at h_mem
    cases h_mem

/-- The calls that the logs of a block make. -/
theorem ListensOnce.calls_logs (h : ListensOnce E eventListeners handler k additionalTopics)
    (h_proxy : ProxyListeners E eventListeners) {w : World} {entries : List Entry}
    (h_fits : ∀ e ∈ w.emitted (contractCalls entries), e.Fits)
    (h_foreign : ∀ logEntry, .foreign logEntry ∈ entries →
      ∃ topic topics, logEntry.topics = topic :: topics ∧ ∀ k, topic ≠ E.topic k) :
    Ethiso.calls handler ((C.logsFrom E w entries).flatMap (logDeliveries eventListeners)) =
      ((w.emitted (contractCalls entries)).filter
        (E.Selects C.address k additionalTopics)).map
          fun e => e.decode.map EventArgument.object := by
  induction entries generalizing w with
  | nil => rfl
  | cons entry entries ih =>
    have h_foreign' := fun logEntry h_mem => h_foreign logEntry (List.mem_cons_of_mem _ h_mem)
    -- the events of a call, and then the others
    cases entry with
    | call sender function =>
      rw [contractCalls_call, World.emitted] at h_fits ⊢
      rw [ContractChain.logsFrom, List.flatMap_append, calls_append, List.filter_append,
        List.map_append]
      refine congrArg₂ (· ++ ·) ?_
        (ih (fun e h_e => h_fits e (List.mem_append_right _ h_e)) h_foreign')
      exact h.calls_events fun e h_e => h_fits e (List.mem_append_left _ h_e)
    | foreign logEntry =>
      obtain ⟨topic, topics, h_topics, h_topic⟩ := h_foreign logEntry List.mem_cons_self
      -- nobody listens to a foreign log
      obtain ⟨-, h_none⟩ := h_proxy.foreign h_topics h_topic
      have h_nothing : logDeliveries eventListeners logEntry = [] := by
        unfold logDeliveries
        rw [h_none]
        rfl
      rw [contractCalls_foreign] at h_fits ⊢
      rw [ContractChain.logsFrom, List.flatMap_cons, h_nothing, List.nil_append]
      exact ih h_fits h_foreign'

/-- The calls that a fired block makes, if the node reports its logs. -/
theorem ListensOnce.calls_fired (h : ListensOnce E eventListeners handler k additionalTopics)
    (h_proxy : ProxyListeners E eventListeners) (h_sound : C.Sound E) {rpc : EthereumRpc}
    {blocks : List BlockInfo} (h_blocks : ∀ b ∈ blocks, b ∈ C.tree ∧ blockLogs rpc b = C.logs E b) :
    Ethiso.calls handler (blocks.flatMap (firedOutputs eventListeners rpc)) =
      (blocks.flatMap fun b => (C.events b).filter (E.Selects C.address k additionalTopics)).map
        fun e => e.decode.map EventArgument.object := by
  induction blocks with
  | nil => rfl
  | cons b blocks ih =>
    rw [List.forall_mem_cons] at h_blocks
    obtain ⟨⟨h_b, h_logs⟩, h_blocks⟩ := h_blocks
    rw [List.flatMap_cons, List.flatMap_cons, calls_append, List.map_append, ih h_blocks]
    refine congrArg (· ++ _) ?_
    show Ethiso.calls handler (blockDeliveries eventListeners rpc b) = _
    unfold blockDeliveries
    -- the node gives the logs of this block
    rw [h_logs]
    exact h.calls_logs h_proxy (h_sound.fits b h_b) (h_sound.foreign b h_b)

/-- A handler that is not registered is not called. -/
theorem calls_eq_nil (h : ∀ topic, ownListeners eventListeners handler topic = [])
    {rpc : EthereumRpc} (blocks : List BlockInfo) :
    Ethiso.calls handler (blocks.flatMap (firedOutputs eventListeners rpc)) = [] := by
  unfold Ethiso.calls
  rw [List.filterMap_eq_nil_iff]
  intro output h_output
  obtain ⟨b, -, h_b⟩ := List.mem_flatMap.mp h_output
  rcases List.mem_cons.mp h_b with rfl | h_b
  · rfl
  · obtain ⟨logEntry, -, h_log⟩ := List.mem_flatMap.mp h_b
    obtain ⟨listener, h_listener, rfl⟩ := List.mem_map.mp h_log
    -- a listener of the handler would be an own one
    have h_ne : listener.handler ≠ handler := by
      rintro rfl
      obtain ⟨topic, h_topic⟩ : ∃ topic, listener ∈ (eventListeners topic).getD [] := by
        have h_mem := (List.mem_filter.mp h_listener).1
        cases h_head : logEntry.topics.head? with
        | none =>
          rw [h_head] at h_mem
          cases h_mem
        | some topic =>
          rw [h_head] at h_mem
          exact ⟨topic, h_mem⟩
      have h_own : listener ∈ ownListeners eventListeners listener.handler topic :=
        List.mem_filter.mpr ⟨h_topic, by simp⟩
      rw [h topic] at h_own
      cases h_own
    cases listener.decodeEvent logEntry with
    | none => rfl
    | some event => simp [h_ne]

end Deliveries

/-! ### Runs -/

section Runs

variable [DecidableEq ι] {E} {C : ContractChain} {c : ConfirmationCount}
  {env : Environment (List JavaObject) ι} {pre l : List (Input (List JavaObject) ι)}
  {rpc : EthereumRpc} {b : BlockInfo} {handler : ι} {k : EventKind}
  {additionalTopics : List String}

/-- The listeners after a registration. -/
theorem after_listen (topic : String) (topics : List String)
    (decodeEvent : LogEntry → Option (List JavaObject)) (handler : ι) :
    Session.after c env (pre ++ [.addEventListener (topic :: topics) decodeEvent handler]) =
      ⟨{ (Session.after c env pre).pending with
        eventListeners := Function.update (Session.after c env pre).pending.eventListeners topic
          (some (((Session.after c env pre).pending.eventListeners topic).getD [] ++
            [⟨topic :: topics, decodeEvent, handler⟩])) }, (Session.after c env pre).trace⟩ := by
  rw [after_concat]
  rfl

/-- **The blocks that an announcement fires** are ancestors of the announced block. -/
theorem Observing.fires (h_pos : 0 < c.val) (h_bounded : C.tree.Bounded)
    (h : Observing C.tree c pre (Session.after c env pre))
    (h_ann : Announced C.tree c env pre (.newBlock rpc b))
    (h_del : Deliverable C.tree c env pre (.newBlock rpc b)) :
    ∃ blocks : List BlockInfo, (Session.after c env (pre ++ [.newBlock rpc b])).trace =
        (Session.after c env pre).trace ++
          blocks.flatMap (firedOutputs (Session.after c env pre).pending.eventListeners rpc) ∧
      ∀ y ∈ blocks, C.tree.forest.IsAncestor y b := by
  obtain ⟨h_b, h_rpc, h_receipts, h_handlers, h_later⟩ := h_ann
  obtain ⟨h_logs, h_limit⟩ := h_del
  have h_meets : notified pre ≠ [] → ∃ k ≤ fetchLimit c,
      ∃ z ∈ (Session.after c env pre).pending.stored, C.tree.forest.up (k + 1) b = some z :=
    fun h_ne => meets_within_limit (h_later h_ne).1 (h_limit h_ne)
  rw [after_newBlock] at h_handlers ⊢
  cases h_s' : (Session.after c env pre).newBlock c env rpc b with
  | returned s' =>
    obtain ⟨H, D, h_adv, h_trace, -⟩ :=
      Session.newBlock_advances h_pos h_bounded h_rpc.answersBy h.indexed h.coherent h_b h_s'
    refine ⟨D, h_trace, fun y h_y => ?_⟩
    -- what is fired falls due
    obtain ⟨h_low, t, h_t, rfl, h_chain⟩ := (h_adv.due y).mp h_y
    exact (h.fallsDue h_meets h_t h_adv.top_le h_chain h_low).1
  | threw s' =>
    obtain ⟨y, t, h_t, h_top, h_chain, h_low, trace, h_threw⟩ :=
      Session.newBlock_threw h_pos h_bounded h_rpc h.indexed h_b h_s'
    have h_due := h.fallsDue h_meets h_t h_top h_chain h_low
    have h_y : y ∈ C.tree := BlockTree.mem_of_isAncestor h_due.1 h_b
    rw [h_s', Outcome.state_threw] at h_handlers
    exact absurd (refused_of_fireBlock (h_receipts y h_y) (h_logs y h_due) h_threw) h_handlers

/-- The node reports what was done, so the logs are sound. -/
theorem ProxyListeners.deliverable
    (h : ProxyListeners E (Session.after c env pre).pending.eventListeners)
    (h_sound : C.Sound E) (h_c : c.val + 5 < 2 ^ 31)
    (h_ann : Announced C.tree c env pre (.newBlock rpc b))
    (h_faithful : C.Faithful E (.newBlock rpc b : Input (List JavaObject) ι)) :
    Deliverable C.tree c env pre (.newBlock rpc b) := by
  refine ⟨fun y h_due => ?_, fun _ => Or.inl h_c⟩
  rw [h_faithful y h_due.1]
  exact h.sound h_sound (BlockTree.mem_of_isAncestor h_due.1 h_ann.1)

/-- The invariant: the monitor is an observer whose listeners are registered through the proxy. -/
structure Listening (E : EventEncodings digest) (C : ContractChain) (c : ConfirmationCount)
    (l : List (Input (List JavaObject) ι)) (s : Session (List JavaObject) ι) : Prop where
  observing : Observing C.tree c l s
  proxy : ProxyListeners E s.pending.eventListeners

omit [DecidableEq ι] in
/-- One more listener for a kind. -/
theorem ProxyListeners.update {eventListeners : EventListeners (List JavaObject) ι}
    (h : ProxyListeners E eventListeners) (h_le : additionalTopics.length ≤ k.topicCount) :
    ProxyListeners E (Function.update eventListeners (E.topic k)
      (some ((eventListeners (E.topic k)).getD [] ++
        [E.listener k additionalTopics handler]))) := by
  intro topic listener h_mem
  by_cases h_topic : topic = E.topic k
  · subst h_topic
    rw [Function.update_self, Option.getD_some] at h_mem
    -- a listener of before, or the new one
    rcases List.mem_append.mp h_mem with h_old | h_new
    · exact h _ listener h_old
    · exact ⟨k, additionalTopics, handler, rfl, List.mem_singleton.mp h_new, h_le⟩
  · rw [Function.update_of_ne h_topic] at h_mem
    exact h topic listener h_mem

/-- **The step** for all handlers. -/
theorem Listening.step (h_pos : 0 < c.val) (h_c : c.val + 5 < 2 ^ 31) (h_bounded : C.tree.Bounded)
    (h_sound : C.Sound E) {i : Input (List JavaObject) ι}
    (h : Listening E C c pre (Session.after c env pre)) (h_ann : Announced C.tree c env pre i)
    (h_faithful : C.Faithful E i) :
    Listening E C c (pre ++ [i]) (Session.after c env (pre ++ [i])) := by
  cases i with
  -- a listener changes no block
  | addEventListener topics decodeEvent handler =>
    obtain ⟨k, additionalTopics, rfl, rfl, h_le⟩ := h_faithful
    refine ⟨h.observing.addEventListener _ _ _, ?_⟩
    rw [after_listen]
    exact h.proxy.update h_le
  | newBlock rpc b =>
    -- an announcement can be delivered, since its logs are sound
    have h_del := h.proxy.deliverable h_sound h_c h_ann h_faithful
    refine ⟨(h.observing.newBlock h_pos h_bounded h_ann h_del).2, ?_⟩
    rw [after_newBlock, Session.newBlock_listeners h_ann.2.1.answersBy h.observing.indexed h_ann.1]
    exact h.proxy

/-- The own listeners after a registration. -/
theorem ownListeners_update {eventListeners : EventListeners (List JavaObject) ι}
    {listener : FunctionEncodingAndHandler (List JavaObject) ι} (topic topic' : String) :
    ownListeners (Function.update eventListeners topic
        (some ((eventListeners topic).getD [] ++ [listener]))) handler topic' =
      ownListeners eventListeners handler topic' ++
        if topic' = topic ∧ listener.handler = handler then [listener] else [] := by
  unfold ownListeners
  by_cases h_topic : topic' = topic
  · subst h_topic
    rw [Function.update_self, Option.getD_some, List.filter_append]
    by_cases h_own : listener.handler = handler <;> simp [h_own]
  · rw [Function.update_of_ne h_topic, if_neg fun hc => h_topic hc.1, List.append_nil]

/-- The handler has not been registered yet. -/
structure Unregistered (handler : ι) (s : Session (List JavaObject) ι) : Prop where
  own : ∀ topic, ownListeners s.pending.eventListeners handler topic = []
  calls : Ethiso.calls handler s.trace = []

/-- The handler was registered when some blocks had been fired. -/
structure Told (E : EventEncodings digest) (C : ContractChain) (handler : ι) (k : EventKind)
    (additionalTopics : List String) (before : ℕ) (s : Session (List JavaObject) ι) : Prop where
  once : ListensOnce E s.pending.eventListeners handler k additionalTopics
  le : before ≤ s.firedBlocks.length
  calls : Ethiso.calls handler s.trace = ((s.firedBlocks.drop before).flatMap fun b =>
    (C.events b).filter (E.Selects C.address k additionalTopics)).map fun e =>
      e.decode.map EventArgument.object

/-- A step that does not register the handler calls it not. -/
theorem Unregistered.step (h_pos : 0 < c.val) (h_c : c.val + 5 < 2 ^ 31)
    (h_bounded : C.tree.Bounded) (h_sound : C.Sound E) {i : Input (List JavaObject) ι}
    (h_listening : Listening E C c pre (Session.after c env pre))
    (h : Unregistered handler (Session.after c env pre)) (h_ann : Announced C.tree c env pre i)
    (h_faithful : C.Faithful E i) (h_i : ¬i.Registers handler) :
    Unregistered handler (Session.after c env (pre ++ [i])) := by
  cases i with
  | addEventListener topics decodeEvent handler' =>
    obtain ⟨k, additionalTopics, rfl, rfl, -⟩ := h_faithful
    rw [after_listen]
    refine ⟨fun topic => ?_, h.calls⟩
    -- the listener is another one
    rw [ownListeners_update, h.own, if_neg fun hc => h_i hc.2]
    rfl
  | newBlock rpc b =>
    -- what is fired has no listener that calls it
    have h_del := h_listening.proxy.deliverable h_sound h_c h_ann h_faithful
    obtain ⟨blocks, h_trace, -⟩ := h_listening.observing.fires h_pos h_bounded h_ann h_del
    have h_listeners : (Session.after c env (pre ++ [.newBlock rpc b])).pending.eventListeners =
        (Session.after c env pre).pending.eventListeners := by
      rw [after_newBlock]
      exact Session.newBlock_listeners h_ann.2.1.answersBy h_listening.observing.indexed h_ann.1
    refine ⟨fun topic => ?_, ?_⟩
    · rw [h_listeners]
      exact h.own topic
    · rw [h_trace, calls_append, h.calls, calls_eq_nil h.own]
      rfl

/-- **Registering** the handler: it is told of what is fired from now on. -/
theorem Unregistered.register (h : Unregistered handler (Session.after c env pre)) :
    Told E C handler k additionalTopics (Session.after c env pre).firedBlocks.length
      (Session.after c env (pre ++
        [Ethereum.addEventListener (E.functionEncoding k) handler additionalTopics])) := by
  unfold Ethereum.addEventListener
  rw [after_listen]
  refine ⟨fun topic => ?_, Nat.le_refl _, ?_⟩
  · rw [ownListeners_update, h.own, List.nil_append]
    exact if_congr (and_iff_left rfl) rfl rfl
  · show Ethiso.calls handler (Session.after c env pre).trace =
      (((Session.after c env pre).firedBlocks.drop _).flatMap _).map _
    rw [h.calls, List.drop_length]
    rfl

/-- **A step** tells the handler of what it fires. -/
theorem Told.step (h_pos : 0 < c.val) (h_c : c.val + 5 < 2 ^ 31) (h_bounded : C.tree.Bounded)
    (h_sound : C.Sound E) {i : Input (List JavaObject) ι} {before : ℕ}
    (h_listening : Listening E C c pre (Session.after c env pre))
    (h : Told E C handler k additionalTopics before (Session.after c env pre))
    (h_ann : Announced C.tree c env pre i) (h_faithful : C.Faithful E i)
    (h_i : ¬i.Registers handler) :
    Told E C handler k additionalTopics before (Session.after c env (pre ++ [i])) := by
  cases i with
  -- another listener changes nothing for the handler
  | addEventListener topics decodeEvent handler' =>
    obtain ⟨k', additionalTopics', rfl, rfl, -⟩ := h_faithful
    rw [after_listen]
    refine ⟨fun topic => ?_, h.le, h.calls⟩
    have h_other : ¬(topic = E.topic k' ∧ handler' = handler) := fun hc => h_i hc.2
    rw [ownListeners_update, if_neg h_other, List.append_nil]
    exact h.once topic
  | newBlock rpc b =>
    have h_del := h_listening.proxy.deliverable h_sound h_c h_ann h_faithful
    -- the new blocks are told after those of before
    obtain ⟨blocks, h_trace, h_anc⟩ := h_listening.observing.fires h_pos h_bounded h_ann h_del
    have h_listeners : (Session.after c env (pre ++ [.newBlock rpc b])).pending.eventListeners =
        (Session.after c env pre).pending.eventListeners := by
      rw [after_newBlock]
      exact Session.newBlock_listeners h_ann.2.1.answersBy h_listening.observing.indexed h_ann.1
    have h_fired := firedBlocks_of_trace h_trace
    have h_blocks : ∀ y ∈ blocks, y ∈ C.tree ∧ blockLogs rpc y = C.logs E y := fun y h_y =>
      ⟨BlockTree.mem_of_isAncestor (h_anc y h_y) h_ann.1, h_faithful y (h_anc y h_y)⟩
    refine ⟨?_, ?_, ?_⟩
    · rw [h_listeners]
      exact h.once
    · rw [h_fired, List.length_append]
      exact h.le.trans (Nat.le_add_right _ _)
    · rw [h_trace, calls_append, h.calls, h.once.calls_fired h_listening.proxy h_sound h_blocks,
        h_fired, List.drop_append_of_le_length h.le, List.flatMap_append, List.map_append]

/-- A run of the service: the node announces the blocks of the tree and reports what was done in
them, and handlers are registered through the proxy of the contract. -/
def ContractChain.Served (C : ContractChain) (E : EventEncodings digest) (c : ConfirmationCount)
    (env : Environment (List JavaObject) ι) (l : List (Input (List JavaObject) ι)) : Prop :=
  Along (fun pre i => Announced C.tree c env pre i ∧ C.Faithful E i) l

/-- The announced blocks are blocks of the tree. -/
theorem ContractChain.Served.mem (h : C.Served E c env l) (h_b : b ∈ notified l) : b ∈ C.tree := by
  obtain ⟨i, h_i, h_eq⟩ := List.mem_filterMap.mp h_b
  obtain ⟨pre, post, rfl⟩ := List.append_of_mem h_i
  obtain ⟨h_ann, -⟩ := h pre i post (by simp)
  cases i with
  | addEventListener topics decodeEvent handler => cases h_eq
  | newBlock rpc b' =>
    obtain rfl := Option.some.inj h_eq
    exact h_ann.1

end Runs

end Listeners

/-! ### A payment in block 0 -/

end Ethiso
