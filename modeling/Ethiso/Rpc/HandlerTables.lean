import Ethiso.Framework.KeySet
import Ethiso.Framework.Outcome
import Ethiso.Rpc.RabbitMQ

/-!
# The handler tables of a transport

A `RabbitMQJsonRpcTransport` keeps two tables under the correlation ids of its requests, one of
the result handlers and one of the error handlers. `sendInternal` puts both handlers before it
publishes the request and takes both back if the client library reports an `IOException`. The
consumer of the replies takes the result handler out, and nothing takes out the error handler of
a request that was answered.

Here is one transport with all that it does to its tables. A call of the client library returns,
throws an `IOException`, or throws something unchecked, such as the exception of a channel that is
closed already. `outstanding` is no field of the class: it lists the ids of the requests that were
published and not answered.

The tables are in step with the requests if both have exactly the outstanding ids (`InStep`). From
such a state an operation leads to one again exactly if it is none of those that leave a handler
behind or take out that of another request (`inStep_step`).
-/

namespace Ethiso.RabbitMQ

open Abi Outcome

variable {ρ ε : Type*}

/-- `correlationId` -/
abbrev CorrelationId := List Char

/-- The constructor takes no other keys. -/
abbrev TransportKey := { key : Key // key ≠ [] }

/-- How a call of the client library ends. -/
inductive CallEnd
  | returns
  | ioException
  | unchecked
deriving DecidableEq

/-- What a transport does to the outside. -/
inductive Effect (ρ ε : Type*)
  | published (queue : Key) (correlationId : CorrelationId) (request : List Char)
  | failed (errorHandler : ε)
  | accepted (resultHandler : ρ) (body : List Char)

/-- The fields of `RabbitMQJsonRpcTransport`, and which requests are outstanding. -/
structure RabbitMQJsonRpcTransport (ρ ε : Type*) where
  key : TransportKey
  closed : Bool
  listening : Bool
  correlationIdCounter : ℤ
  resultHandlers : CorrelationId → Option ρ
  errorHandlers : CorrelationId → Option ε
  outstanding : List CorrelationId
  effects : List (Effect ρ ε)

/-- The arguments of a call of `send`, which may be `null`, and what happens during it. -/
structure SendCall (ρ ε : Type*) where
  request : Option (List Char)
  resultHandler : Option ρ
  errorHandler : Option ε
  -- how the declaration of the queues ends, and the call that publishes
  declare : CallEnd
  publish : CallEnd
  -- whether the error handler returns
  accepts : Bool

/-- What is done with the transport. -/
inductive Operation (ρ ε : Type*)
  | send (call : SendCall ρ ε)
  | deliver (correlationId : Option CorrelationId) (body : List Char) (accepts : Bool)
  | close

namespace RabbitMQJsonRpcTransport

/-- A new transport. -/
def new (key : TransportKey) : RabbitMQJsonRpcTransport ρ ε :=
  ⟨key, false, false, 0, fun _ => none, fun _ => none, [], []⟩

/-! ### Sending -/

/-- `queueDeclare`, twice, and `basicConsume`, if the transport does not listen yet. -/
def listen (t : RabbitMQJsonRpcTransport ρ ε) (call : SendCall ρ ε) :
    Outcome (RabbitMQJsonRpcTransport ρ ε) :=
  if t.listening then
    returned t
  else
    match call.declare with
    | .returns => returned { t with listening := true }
    | .unchecked => threw t
    | .ioException =>
      match call.errorHandler with
      | none => threw t
      | some errorHandler =>
        let t := { t with effects := t.effects ++ [.failed errorHandler] }
        if call.accepts then returned t else threw t

/-- `String.valueOf(correlationIdCounter.get())` -/
def correlationId (t : RabbitMQJsonRpcTransport ρ ε) : CorrelationId :=
  BigInteger.toString 10 t.correlationIdCounter

/-- `getAndIncrement` on an `AtomicInteger`, which wraps. -/
def increment (t : RabbitMQJsonRpcTransport ρ ε) : RabbitMQJsonRpcTransport ρ ε :=
  { t with correlationIdCounter := BigInteger.intValue (t.correlationIdCounter + 1) }

/-- `resultHandlers.put` -/
def putResult (t : RabbitMQJsonRpcTransport ρ ε) (correlationId : CorrelationId)
    (resultHandler : ρ) : RabbitMQJsonRpcTransport ρ ε :=
  { t with
    resultHandlers := Function.update t.resultHandlers correlationId (some resultHandler) }

/-- `errorHandlers.put` -/
def putError (t : RabbitMQJsonRpcTransport ρ ε) (correlationId : CorrelationId)
    (errorHandler : ε) : RabbitMQJsonRpcTransport ρ ε :=
  { t with
    errorHandlers := Function.update t.errorHandlers correlationId (some errorHandler) }

/-- The two `remove`s. -/
def withdraw (t : RabbitMQJsonRpcTransport ρ ε) (correlationId : CorrelationId) :
    RabbitMQJsonRpcTransport ρ ε :=
  { t with
    resultHandlers := Function.update t.resultHandlers correlationId none
    errorHandlers := Function.update t.errorHandlers correlationId none }

/-- `basicPublish`, and what follows an `IOException`. -/
def publish (t : RabbitMQJsonRpcTransport ρ ε) (correlationId : CorrelationId)
    (call : SendCall ρ ε) : Outcome (RabbitMQJsonRpcTransport ρ ε) :=
  match call.request with
  | none => threw t -- `request.getBytes()`
  | some request =>
    match call.publish with
    | .returns =>
      returned { t with
        outstanding := t.outstanding ++ [correlationId]
        effects := t.effects ++ [.published (t.key ++ OUT_SUFFIX) correlationId request] }
    | .unchecked => threw t
    | .ioException => threw (t.withdraw correlationId)

/-- The handlers are put, neither of which may be `null`, and the request is published. -/
def enter (t : RabbitMQJsonRpcTransport ρ ε) (correlationId : CorrelationId)
    (call : SendCall ρ ε) : Outcome (RabbitMQJsonRpcTransport ρ ε) :=
  match call.resultHandler with
  | none => threw t
  | some resultHandler =>
    match call.errorHandler with
    | none => threw (t.putResult correlationId resultHandler)
    | some errorHandler =>
      ((t.putResult correlationId resultHandler).putError correlationId errorHandler).publish
        correlationId call

/-- `sendInternal` -/
def sendInternal (t : RabbitMQJsonRpcTransport ρ ε) (call : SendCall ρ ε) :
    Outcome (RabbitMQJsonRpcTransport ρ ε) :=
  (t.listen call).bind fun t =>
    if t.listening then t.increment.enter t.correlationId call else returned t.increment

/-- `send`, which a closed transport refuses. -/
def send (t : RabbitMQJsonRpcTransport ρ ε) (call : SendCall ρ ε) :
    Outcome (RabbitMQJsonRpcTransport ρ ε) :=
  if t.closed then threw t else t.sendInternal call

/-! ### Receiving -/

/-- A reply came for the id, whatever the transport makes of it. -/
def answer (t : RabbitMQJsonRpcTransport ρ ε) (correlationId : CorrelationId) :
    RabbitMQJsonRpcTransport ρ ε :=
  { t with outstanding := t.outstanding.erase correlationId }

/-- `resultHandlers.remove`, and the call of the handler. -/
def accept (t : RabbitMQJsonRpcTransport ρ ε) (correlationId : CorrelationId)
    (resultHandler : ρ) (body : List Char) : RabbitMQJsonRpcTransport ρ ε :=
  { t with
    resultHandlers := Function.update t.resultHandlers correlationId none
    effects := t.effects ++ [.accepted resultHandler body] }

/-- The consumer of the replies; `containsKey` does not take `null`. -/
def handleDelivery (t : RabbitMQJsonRpcTransport ρ ε) (correlationId : Option CorrelationId)
    (body : List Char) (accepts : Bool) : Outcome (RabbitMQJsonRpcTransport ρ ε) :=
  match correlationId with
  | none => threw t
  | some correlationId =>
    match t.resultHandlers correlationId with
    | none => threw (t.answer correlationId)
    | some resultHandler =>
      let t := (t.answer correlationId).accept correlationId resultHandler body
      if accepts then returned t else threw t

/-- `close`, as far as it concerns the fields. -/
def close (t : RabbitMQJsonRpcTransport ρ ε) : RabbitMQJsonRpcTransport ρ ε :=
  { t with closed := true }

/-- One operation. -/
def perform (t : RabbitMQJsonRpcTransport ρ ε) : Operation ρ ε →
    Outcome (RabbitMQJsonRpcTransport ρ ε)
  | .send call => t.send call
  | .deliver correlationId body accepts => t.handleDelivery correlationId body accepts
  | .close => returned t.close

/-- An operation that throws leaves the state as it is then. -/
def step (t : RabbitMQJsonRpcTransport ρ ε) (o : Operation ρ ε) :
    RabbitMQJsonRpcTransport ρ ε :=
  (t.perform o).state

/-- The transport after a run. -/
def after (key : TransportKey) (l : List (Operation ρ ε)) : RabbitMQJsonRpcTransport ρ ε :=
  run step (new key) l

/-! ### Being in step -/

/-- The ids of the requests that were published and not answered. -/
def outstandingIds (t : RabbitMQJsonRpcTransport ρ ε) : Set CorrelationId :=
  { correlationId | correlationId ∈ t.outstanding }

/-- Both tables have exactly the outstanding ids. -/
structure InStep (t : RabbitMQJsonRpcTransport ρ ε) : Prop where
  results : keys t.resultHandlers = t.outstandingIds
  errors : keys t.errorHandlers = t.outstandingIds

/-- The call gets to the tables. -/
def Enters (t : RabbitMQJsonRpcTransport ρ ε) (call : SendCall ρ ε) : Prop :=
  t.closed = false ∧ (t.listening = true ∨ call.declare = .returns)

end RabbitMQJsonRpcTransport

/-- The call puts a handler and then fails otherwise than by an `IOException`. -/
def SendCall.Abandons (call : SendCall ρ ε) : Prop :=
  call.resultHandler ≠ none ∧
    (call.errorHandler = none ∨ call.request = none ∨ call.publish = .unchecked)

/-- The call puts its handlers and takes them back. -/
def SendCall.Withdraws (call : SendCall ρ ε) : Prop :=
  call.resultHandler ≠ none ∧ call.errorHandler ≠ none ∧ call.request ≠ none ∧
    call.publish = .ioException

namespace RabbitMQJsonRpcTransport

/-- The operation is no reply to an outstanding request. If it is a call that fails once it
has put a handler, its id is that of an outstanding request where the handlers stay, and
is not where they are taken back. -/
def KeepsStep (t : RabbitMQJsonRpcTransport ρ ε) : Operation ρ ε → Prop
  | .send call =>
    t.Enters call → (call.Abandons → t.correlationId ∈ t.outstanding) ∧
      (call.Withdraws → t.correlationId ∉ t.outstanding)
  | .deliver correlationId _ _ => ∀ id, correlationId = some id → id ∉ t.outstanding
  | .close => True

section Step

variable {t : RabbitMQJsonRpcTransport ρ ε} {call : SendCall ρ ε} {id : CorrelationId}

/-- A new transport is in step. -/
theorem inStep_new (key : TransportKey) : InStep (new key : RabbitMQJsonRpcTransport ρ ε) := by
  have h_out : (new key : RabbitMQJsonRpcTransport ρ ε).outstandingIds = ∅ := by
    ext id
    simp [outstandingIds, new]
  exact ⟨keys_empty.trans h_out.symm, keys_empty.trans h_out.symm⟩

/-- Being in step is a matter of the tables and the outstanding ids. -/
theorem inStep_iff (t' : RabbitMQJsonRpcTransport ρ ε) (out : Set CorrelationId)
    {results errors : Set CorrelationId} (h_results : keys t'.resultHandlers = results)
    (h_errors : keys t'.errorHandlers = errors)
    (h_out : t'.outstandingIds = out) : InStep t' ↔ results = out ∧ errors = out := by
  subst h_results h_errors h_out
  exact ⟨fun h => ⟨h.results, h.errors⟩, fun h => ⟨h.1, h.2⟩⟩

/-! ### Sending -/

/-- One more handler is one too many, unless its id is outstanding already. -/
theorem insert_outstandingIds :
    insert id t.outstandingIds = t.outstandingIds ↔ id ∈ t.outstanding :=
  Set.insert_eq_self

/-- One handler less is one too few, unless its id is not outstanding. -/
theorem outstandingIds_sdiff :
    t.outstandingIds \ {id} = t.outstandingIds ↔ id ∉ t.outstanding := by
  refine ⟨?_, ?_⟩
  · intro h_eq h_mem
    have h_out : id ∈ t.outstandingIds \ {id} := by
      rw [h_eq]
      exact h_mem
    exact h_out.2 rfl
  · intro h_out
    exact Set.sdiff_singleton_eq_self h_out

/-- What is outstanding after one more request. -/
theorem outstandingIds_published {t' : RabbitMQJsonRpcTransport ρ ε}
    (h : t'.outstanding = t.outstanding ++ [id]) :
    t'.outstandingIds = insert id t.outstandingIds := by
  ext id'
  unfold outstandingIds
  rw [h, Set.mem_ofPred_eq, List.mem_append, List.mem_singleton, Set.mem_insert_iff, or_comm,
    Set.mem_ofPred_eq]

/-- **Sending**, once it gets to the tables. -/
theorem inStep_enter (h : InStep t) : InStep (t.enter id call).state ↔
    (call.Abandons → id ∈ t.outstanding) ∧ (call.Withdraws → id ∉ t.outstanding) := by
  unfold enter SendCall.Abandons SendCall.Withdraws
  cases call.resultHandler with
  | none => simpa using h
  | some resultHandler =>
    have h_result : keys (t.putResult id resultHandler).resultHandlers =
        insert id t.outstandingIds := by
      rw [← h.results]
      exact keys_put
    cases call.errorHandler with
    | none =>
      -- `errorHandlers.put` throws, after `resultHandlers.put`
      refine (inStep_iff _ t.outstandingIds h_result h.errors rfl).trans ?_
      rw [insert_outstandingIds]
      simp
    | some errorHandler =>
      have h_result' : keys ((t.putResult id resultHandler).putError id
          errorHandler).resultHandlers = insert id t.outstandingIds := h_result
      have h_error : keys ((t.putResult id resultHandler).putError id
          errorHandler).errorHandlers = insert id t.outstandingIds := by
        rw [← h.errors]
        exact keys_put
      unfold publish
      cases call.request with
      | none =>
        refine (inStep_iff _ t.outstandingIds h_result' h_error rfl).trans ?_
        rw [insert_outstandingIds]
        simp
      | some request =>
        cases call.publish with
        | returns =>
          -- with one more outstanding id
          exact iff_of_true ⟨h_result'.trans (outstandingIds_published rfl).symm,
            h_error.trans (outstandingIds_published rfl).symm⟩ (by simp)
        | unchecked =>
          refine (inStep_iff _ t.outstandingIds h_result' h_error rfl).trans ?_
          rw [insert_outstandingIds]
          simp
        | ioException =>
          -- both handlers are taken back, those of an older request under this id too
          have h_remove : keys (((t.putResult id resultHandler).putError id errorHandler).withdraw
              id).resultHandlers = insert id t.outstandingIds \ {id} := by
            rw [← h_result']
            exact keys_remove
          have h_remove' : keys (((t.putResult id resultHandler).putError id errorHandler).withdraw
              id).errorHandlers = insert id t.outstandingIds \ {id} := by
            rw [← h_error]
            exact keys_remove
          refine (inStep_iff _ t.outstandingIds h_remove h_remove' rfl).trans ?_
          rw [Set.insert_sdiff_of_mem _ (Set.mem_singleton id), outstandingIds_sdiff]
          simp

/-- The declaration of the queues touches neither the tables nor the counter, and the call
goes on to the tables if the transport listens then. -/
structure Listened (t : RabbitMQJsonRpcTransport ρ ε) (call : SendCall ρ ε)
    (o : Outcome (RabbitMQJsonRpcTransport ρ ε)) : Prop where
  results : o.state.resultHandlers = t.resultHandlers
  errors : o.state.errorHandlers = t.errorHandlers
  out : o.state.outstanding = t.outstanding
  counter : o.state.correlationIdCounter = t.correlationIdCounter
  listening : o.state.listening = true ↔ t.listening = true ∨ call.declare = .returns
  returns : o.state.listening = true → o.isReturned = true

/-- **What `listen` does**, by cases on the declaration. -/
theorem listen_spec (t : RabbitMQJsonRpcTransport ρ ε) (call : SendCall ρ ε) :
    Listened t call (t.listen call) := by
  unfold listen
  by_cases h_listening : t.listening = true
  -- it listens already
  · rw [if_pos h_listening]
    exact ⟨rfl, rfl, rfl, rfl, iff_of_true h_listening (Or.inl h_listening), fun _ => rfl⟩
  · rw [if_neg h_listening]
    have h_off : ∀ {d : CallEnd}, d ≠ .returns →
        (t.listening = true ↔ t.listening = true ∨ d = .returns) := fun h_d =>
      iff_of_false h_listening (not_or.mpr ⟨h_listening, h_d⟩)
    have h_throws : ∀ {b : Bool}, t.listening = true → b = true := fun h =>
      absurd h h_listening
    -- the declaration returns, or throws one of two kinds of exceptions
    cases h_declare : call.declare with
    | returns =>
      refine ⟨rfl, rfl, rfl, rfl, ?_, fun _ => rfl⟩
      rw [h_declare]
      exact iff_of_true rfl (Or.inr rfl)
    | unchecked => exact ⟨rfl, rfl, rfl, rfl, h_off (by rw [h_declare]; decide), h_throws⟩
    | ioException =>
      have h_ne : call.declare ≠ .returns := by
        rw [h_declare]
        decide
      cases call.errorHandler with
      | none => exact ⟨rfl, rfl, rfl, rfl, h_off h_ne, h_throws⟩
      | some errorHandler =>
        cases h_accepts : call.accepts with
        | true => exact ⟨rfl, rfl, rfl, rfl, h_off h_ne, h_throws⟩
        | false => exact ⟨rfl, rfl, rfl, rfl, h_off h_ne, h_throws⟩

/-- Which requests keep the tables in step. -/
theorem inStep_sendInternal (h : InStep t) : InStep (t.sendInternal call).state ↔
    (t.listening = true ∨ call.declare = .returns →
      (call.Abandons → t.correlationId ∈ t.outstanding) ∧
        (call.Withdraws → t.correlationId ∉ t.outstanding)) := by
  have h_listen := listen_spec t call
  unfold sendInternal
  generalize t.listen call = o at h_listen
  obtain ⟨h_results, h_errors, h_out, h_counter, h_listening, h_returns⟩ := h_listen
  -- the tables are those of `t` when the call gets to them
  have h_state : InStep o.state := by
    refine ⟨?_, ?_⟩
    · rw [h_results, h.results]
      unfold outstandingIds
      rw [h_out]
    · rw [h_errors, h.errors]
      unfold outstandingIds
      rw [h_out]
  cases o with
  | threw t' =>
    have h_off : ¬(t.listening = true ∨ call.declare = .returns) := by
      rw [← h_listening]
      intro h_on
      cases h_returns h_on
    exact iff_of_true h_state fun h_on => absurd h_on h_off
  | returned t' =>
    rw [bind_returned]
    by_cases h_on : t'.listening = true
    · rw [if_pos h_on]
      have h_next : InStep t'.increment := ⟨h_state.results, h_state.errors⟩
      have h_id : t'.correlationId = t.correlationId := by
        unfold correlationId
        exact congrArg (BigInteger.toString 10) h_counter
      have h_out' : t'.increment.outstanding = t.outstanding := h_out
      rw [inStep_enter h_next, h_out', h_id, iff_true_intro (h_listening.mp h_on),
        true_imp_iff]
    · rw [if_neg h_on]
      exact iff_of_true (⟨h_state.results, h_state.errors⟩ : InStep t'.increment) fun h_on' =>
        absurd (h_listening.mpr h_on') h_on

theorem inStep_send (h : InStep t) : InStep (t.send call).state ↔ t.KeepsStep (.send call) := by
  unfold send KeepsStep Enters
  cases h_closed : t.closed with
  | true =>
    refine iff_of_true h ?_
    rintro ⟨h_eq, -⟩
    cases h_eq
  | false =>
    rw [if_neg Bool.false_ne_true, inStep_sendInternal h]
    simp

/-! ### Receiving -/

/-- A reply to an outstanding request takes out the result handler alone. -/
theorem inStep_handleDelivery (h : InStep t) (correlationId : Option CorrelationId)
    (body : List Char) (accepts : Bool) :
    InStep (t.handleDelivery correlationId body accepts).state ↔
      t.KeepsStep (.deliver correlationId body accepts) := by
  unfold handleDelivery KeepsStep
  cases correlationId with
  | none => exact iff_of_true h fun id h_id => nomatch h_id
  | some id =>
    have h_one : (∀ id', some id = some id' → id' ∉ t.outstanding) ↔ id ∉ t.outstanding := by
      simp
    dsimp only
    rw [h_one]
    cases h_handler : t.resultHandlers id with
    | none =>
      -- no reply to a request of this transport
      have h_out : id ∉ t.outstanding := by
        intro h_mem
        have h_key : id ∈ keys t.resultHandlers := by
          rw [h.results]
          exact h_mem
        exact h_key h_handler
      have h_ids : (t.answer id).outstandingIds = t.outstandingIds := by
        unfold outstandingIds answer
        rw [List.erase_of_not_mem h_out]
      refine iff_of_true ⟨?_, ?_⟩ h_out
      · exact h.results.trans h_ids.symm
      · exact h.errors.trans h_ids.symm
    | some resultHandler =>
      have h_key : id ∈ keys t.resultHandlers := mem_keys_iff_exists.mpr ⟨resultHandler, h_handler⟩
      rw [h.results] at h_key
      refine iff_of_false ?_ (not_not_intro h_key)
      -- the error handler stays
      have h_left : ∀ {t' : RabbitMQJsonRpcTransport ρ ε},
          t' = (t.answer id).accept id resultHandler body → ¬InStep t' := by
        rintro _ rfl h_step
        have h_error : id ∈ keys t.errorHandlers := by
          rw [h.errors]
          exact h_key
        have h_result : id ∈ keys (Function.update t.resultHandlers id none) := by
          have h_same := h_step.results.trans h_step.errors.symm
          exact h_same.symm ▸ h_error
        rw [keys_remove] at h_result
        exact h_result.2 rfl
      cases accepts with
      | true => exact h_left rfl
      | false => exact h_left rfl

/-- **The step.** An operation keeps a transport in step exactly under the condition. -/
theorem inStep_step (h : InStep t) (o : Operation ρ ε) : InStep (t.step o) ↔ t.KeepsStep o := by
  cases o with
  | send call => exact inStep_send h
  | deliver correlationId body accepts => exact inStep_handleDelivery h correlationId body accepts
  | close => exact iff_of_true ⟨h.results, h.errors⟩ trivial

end Step

/-- **The handler tables** have exactly the ids of the outstanding requests in all states of a
run if and only if all its operations keep step. -/
theorem handler_tables (key : TransportKey) (l : List (Operation ρ ε)) :
    (∀ pre, pre <+: l → InStep (after key pre)) ↔
      Along (fun pre o => (after key pre).KeepsStep o) l := by
  refine @along_iff _ (fun _ _ => True) (fun pre o => (after key pre).KeepsStep o)
    (fun l => InStep (after key l)) _ (inStep_new key) ?_ (fun _ h => h) l
    (fun _ _ _ _ => trivial)
  intro pre o h_pre _ h_or
  have h_step : InStep (after key (pre ++ [o])) ↔ (after key pre).KeepsStep o := by
    unfold after
    -- the last operation decides, if the state before is in step
    rw [run_concat]
    exact inStep_step h_pre o
  rcases h_or with h_keeps | h_next
  · exact ⟨h_keeps, h_step.mpr h_keeps⟩
  · exact ⟨h_step.mp h_next, h_next⟩

/-! ### One request and its reply -/

/-- A call during which nothing fails. -/
def smoothCall : SendCall ℕ ℕ := ⟨some ['p', 'a', 'y'], some 0, some 0, .returns, .returns, true⟩

/-- A request and its reply. -/
def requestAndReply : List (Operation ℕ ℕ) :=
  [.send smoothCall, .deliver (some ['0']) ['o', 'k'] true]

/-- The reply leaves the error handler of its request behind. -/
theorem not_inStep_requestAndReply :
    (after ⟨['p'], List.cons_ne_nil _ _⟩ requestAndReply).outstanding = [] ∧
      (after ⟨['p'], List.cons_ne_nil _ _⟩ requestAndReply).errorHandlers ['0'] = some 0 ∧
      ¬InStep (after ⟨['p'], List.cons_ne_nil _ _⟩ requestAndReply) := by
  have h_out : (after ⟨['p'], List.cons_ne_nil _ _⟩ requestAndReply).outstanding = [] := by
    decide +kernel
  -- the reply has come, but the error handler is still there
  have h_error :
      (after ⟨['p'], List.cons_ne_nil _ _⟩ requestAndReply).errorHandlers ['0'] = some 0 := by
    decide +kernel
  refine ⟨h_out, h_error, ?_⟩
  intro h
  have h_mem : ['0'] ∈ keys (after ⟨['p'], List.cons_ne_nil _ _⟩ requestAndReply).errorHandlers :=
    mem_keys_iff_exists.mpr ⟨0, h_error⟩
  rw [h.errors] at h_mem
  unfold outstandingIds at h_mem
  rw [h_out] at h_mem
  cases h_mem

end RabbitMQJsonRpcTransport

end Ethiso.RabbitMQ
