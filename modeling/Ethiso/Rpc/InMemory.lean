import Ethiso.Rpc.JsonRpcClient
import Ethiso.Rpc.Replies
import Ethiso.Service.PaymentListenerWebSocket

/-!
# Calls in memory

An `InMemoryJsonRpcTransport` keeps the requests in a queue, each with its two handlers. A thread
takes them one by one and hands them to the consumer, which submits a task and gives the result
handler away; if the consumer throws, the error handler is called. The result handler completes
the future of the call, and a call that does not return a future waits for it, until it times
out.

A callback that is an argument is registered as a service itself, on the derived transport of a
new address; the receiver derives a transport from the address and calls the callback there.
There is one derived transport for each address. Closing the transport closes those that were
derived from it, and their threads.

The machine has one `JsonRpcFactory` with its transport and the derived ones, whose requests are
taken, whose tasks are run and whose futures are completed in any order. Calls are numbered in the
order in which they are made, and the number stands for the handlers. Every call is executed at
most once, by the object that its transport is for, and the calls on a transport are taken in their
order (`served_in_order`).
-/

namespace Ethiso.Rpc.InMemory

open Abi

variable {ν τ α ω : Type}

/-- `String.valueOf` of an `int`. -/
def decimal (n : ℤ) : JavaString := (BigInteger.toString 10 n).flatMap JavaString.utf16

/-! ### The transport -/

/-- `Task`, with the call whose handlers it has. -/
structure Task where
  call : ℕ
  request : JavaString

/-- A transport, and the object whose service its thread serves, if it has a thread. -/
structure Transport where
  waitingRequests : List Task
  consumer : Option ℕ
  closed : Bool

namespace Transport

/-- A new transport: open, without consumer. -/
def new : Transport := ⟨[], none, false⟩

/-- `send`, which throws if the transport is closed. -/
def send (t : Transport) (task : Task) : Option Transport :=
  if t.closed then none else some { t with waitingRequests := t.waitingRequests ++ [task] }

/-- `consumer`, which throws if the transport is closed. The thread of another object ends. -/
def serve (t : Transport) (object : ℕ) : Option Transport :=
  if t.closed then none else some { t with consumer := some object }

/-- `close`. The thread is interrupted. -/
def close (t : Transport) : Transport := { t with consumer := none, closed := true }

end Transport

/-- The transport of the factory, or the one that is derived from an address. -/
inductive Place
  | root
  | derived (callbackAddress : JavaString)
  deriving DecidableEq

/-! ### The factory -/

/-- The transport's key, the services of the objects, and what Jackson does: the text of a request,
and the members of a text. -/
structure JsonRpcFactory (ν τ α ω : Type) where
  key : JavaString
  services : ℕ → Service ν τ α ω
  libraries : Libraries ν τ (Option ω)
  writeRequest : JsonRpcRequest ν → Option JavaString
  readDocument : JavaString → Option (Document ν)

/-- What is known of a call: `send` threw; it waits; its error handler was called; its result
handler was called; or it did not wait any longer. -/
inductive CallStatus (ω : Type)
  | refused
  | waiting
  | rejected
  | answered (answer : Answer ω)
  | timedOut

/-- A call of a client proxy, and what has become of it. -/
structure Call (ν τ ω : Type) where
  place : Place
  request : JsonRpcRequest ν
  method : ClientMethod τ (Option ω)
  status : CallStatus (Option ω)

namespace Call

/-- A future is completed once. -/
def complete (status : CallStatus (Option ω)) (call : Call ν τ ω) : Call ν τ ω :=
  match call.status with
  | .waiting => { call with status := status }
  | _ => call

/-- The call does not wait if it returns the future. -/
def timeOut (call : Call ν τ ω) : Call ν τ ω :=
  if call.method.isFuture then call else call.complete .timedOut

end Call

/-- A task that was taken, the object that it was taken for, and how far the request is. -/
structure Handled (τ α ω : Type) where
  call : ℕ
  place : Place
  object : ℕ
  request : Request τ α ω

/-- The transports of one factory, its counters, the calls and what consumers have taken. -/
structure State (ν τ α ω : Type) where
  transports : Place → Option Transport
  derivedTransports : List JavaString
  callbackId : ℤ
  id : ℤ
  calls : List (Call ν τ ω)
  handled : List (Handled τ α ω)

/-- What the parties and the scheduler do. -/
inductive Input (ν τ ω : Type)
  | registerService (object : ℕ)
  | serialize (object : ℕ)
  | deserialize (callbackAddress : JavaString)
  | call (place : Place) (method : ClientMethod τ (Option ω)) (name : JavaString) (params : List ν)
  | take (place : Place)
  | runTask (k : ℕ) (invocation : Invocation ω)
  | complete (k : ℕ) (completion : Completion ω)
  | timeOut (call : ℕ)
  | close

namespace State

/-- The root transport is there from the start. -/
def init : State ν τ α ω :=
  ⟨Function.update (fun _ => none) .root (some .new), [], 0, 0, [], []⟩

/-! ### Services -/

/-- `deriveCallbackTransport`: the transport of an address is made once. -/
def deriveCallbackTransport (s : State ν τ α ω) (callbackAddress : JavaString) : State ν τ α ω :=
  { s with
    transports :=
      match s.transports (.derived callbackAddress) with
      | none => Function.update s.transports (.derived callbackAddress) (some .new)
      | some _ => s.transports
    derivedTransports := s.derivedTransports ++ [callbackAddress] }

/-- `registerService`: the transport may be closed, or missing. -/
def registerService (s : State ν τ α ω) (place : Place) (object : ℕ) : State ν τ α ω :=
  match (s.transports place).bind fun t => t.serve object with
  | some t => { s with transports := Function.update s.transports place (some t) }
  | none => s

/-- The transports that were derived are closed too. -/
def close (s : State ν τ α ω) : State ν τ α ω :=
  { s with
    transports := fun place =>
      match place with
      | .root => (s.transports place).map .close
      | .derived callbackAddress =>
        if callbackAddress ∈ s.derivedTransports then (s.transports place).map .close
        else s.transports place }

end State

namespace JsonRpcFactory

variable (factory : JsonRpcFactory ν τ α ω)

/-- The address of a callback, by the value of the counter. -/
def callbackAddress (callbackId : ℤ) : JavaString := factory.key ++ 0x2F :: decimal callbackId

/-- `CallbackSerializer.serialize` -/
def serialize (s : State ν τ α ω) (object : ℕ) : State ν τ α ω :=
  let callbackAddress := factory.callbackAddress s.callbackId
  let s' := { s with callbackId := BigInteger.intValue (s.callbackId + 1) }
  (s'.deriveCallbackTransport callbackAddress).registerService (.derived callbackAddress) object

/-! ### Calls -/

/-- A method of a proxy for the transport. -/
def call (s : State ν τ α ω) (place : Place) (method : ClientMethod τ (Option ω))
    (name : JavaString) (params : List ν) : State ν τ α ω :=
  let request := ⟨some (decimal s.id), some name, params⟩
  let sent := (factory.writeRequest request).bind fun text =>
    (s.transports place).bind fun t => t.send ⟨s.calls.length, text⟩
  { s with
    transports :=
      match sent with
      | some t => Function.update s.transports place (some t)
      | none => s.transports
    id := BigInteger.intValue (s.id + 1)
    calls := s.calls ++ [⟨place, request, method, if sent.isSome then .waiting else .refused⟩] }

/-- How the future is completed with a text. -/
def handle (method : ClientMethod τ (Option ω)) (text : JavaString) : Answer (Option ω) :=
  match method.resultClass with
  | none => .failed .linkage
  | some cls =>
    match (factory.readDocument text).bind factory.libraries.readResponse with
    | none => .failed .unreadable
    | some r => factory.libraries.getResultAs r cls

/-- How the call ends then. -/
def answer (method : ClientMethod τ (Option ω)) (text : JavaString) : Answer (Option ω) :=
  match factory.handle method text with
  | .returned value =>
    if method.isFuture ∨ method.accepts value then .returned value else .failed .linkage
  | .failed e => .failed (if method.isFuture ∨ method.mayThrow e then e else .undeclared e)

/-- The result handler. -/
def resultHandler (text : JavaString) (call : Call ν τ ω) : Call ν τ ω :=
  call.complete (.answered (factory.answer call.method text))

/-! ### Tasks -/

/-- The thread of the transport takes a request. -/
def take (s : State ν τ α ω) (place : Place) : State ν τ α ω :=
  match s.transports place with
  | some ⟨task :: rest, some object, closed⟩ =>
    let request := (factory.services object).deliver task.request
    { s with
      transports := Function.update s.transports place (some ⟨rest, some object, closed⟩)
      handled := s.handled ++ [⟨task.call, place, object, request⟩]
      calls :=
        match request.status with
        -- an exception, which the error handler gets
        | .finished _ => s.calls.modify task.call (Call.complete .rejected)
        | _ => s.calls }
  | _ => s

/-- A request makes progress, and the result handler of its call gets what is replied. -/
def advance (s : State ν τ α ω) (k : ℕ)
    (progress : Service ν τ α ω → Request τ α ω → Request τ α ω) : State ν τ α ω :=
  match s.handled[k]? with
  | none => s
  | some h =>
    let service := factory.services h.object
    let request := progress service h.request
    let texts := (request.responses.drop h.request.responses.length).filterMap
      service.writeValueAsString
    { s with
      handled := s.handled.set k { h with request := request }
      calls := texts.foldl (fun calls text => calls.modify h.call (factory.resultHandler text))
        s.calls }

/-- One step. -/
def step (s : State ν τ α ω) : Input ν τ ω → State ν τ α ω
  | .registerService object => s.registerService .root object
  | .serialize object => factory.serialize s object
  | .deserialize callbackAddress => s.deriveCallbackTransport callbackAddress
  | .call place method name params => factory.call s place method name params
  | .take place => factory.take s place
  | .runTask k invocation => factory.advance s k fun service => service.runTask invocation
  | .complete k completion => factory.advance s k fun service => service.complete completion
  | .timeOut call => { s with calls := s.calls.modify call Call.timeOut }
  | .close => s.close

/-- The state that the inputs lead to. -/
abbrev after (inputs : List (Input ν τ ω)) : State ν τ α ω := run factory.step .init inputs

end JsonRpcFactory

/-! ### What is sent and what is taken -/

/-- Where the call was sent to, if it was. -/
def Call.sentTo (call : Call ν τ ω) : Option Place :=
  match call.status with
  | .refused => none
  | _ => some call.place

namespace State

/-- The calls that were sent on the transport. -/
def sentTo (s : State ν τ α ω) (place : Place) : List ℕ :=
  ((s.calls.map Call.sentTo).zipIdx.filter fun x => x.1 = some place).map Prod.snd

/-- Those that were taken. -/
def takenFrom (s : State ν τ α ω) (place : Place) : List ℕ :=
  ((s.handled.map fun h => (h.place, h.call)).filter fun x => x.1 = place).map Prod.snd

/-- The tasks that wait. -/
def tasksAt (s : State ν τ α ω) (place : Place) : List Task :=
  ((s.transports place).map Transport.waitingRequests).getD []

end State

/-- The objects that were passed on as callbacks. -/
def callbacksIn (inputs : List (Input ν τ ω)) : List ℕ :=
  inputs.filterMap fun
    | .serialize object => some object
    | _ => none

/-- What the call waits for, if its task was taken. -/
def JsonRpcFactory.statusFor (factory : JsonRpcFactory ν τ α ω) (call : Call ν τ ω)
    (h : Handled τ α ω) : CallStatus (Option ω) :=
  match h.request.status with
  | .finished .consumerThrew => .rejected
  | _ =>
    match h.request.responses.filterMap (factory.services h.object).writeValueAsString with
    | [] => .waiting
    | text :: _ => .answered (factory.answer call.method text)

/-! ### The invariant -/

/-- The calls on a transport are those that were taken and those that wait. A task belongs to the
call that wrote it, and the call is as far as its request. -/
structure Inv (factory : JsonRpcFactory ν τ α ω) (s : State ν τ α ω) : Prop where
  queue : ∀ place, s.sentTo place = s.takenFrom place ++ (s.tasksAt place).map Task.call
  task : ∀ place, ∀ task ∈ s.tasksAt place, ∃ c, s.calls[task.call]? = some c ∧
    c.place = place ∧ factory.writeRequest c.request = some task.request ∧
      (c.status = .waiting ∨ c.status = .timedOut)
  handled : ∀ h ∈ s.handled, ∃ c, s.calls[h.call]? = some c ∧ c.place = h.place ∧
    factory.writeRequest c.request = some h.request.message ∧
      (factory.services h.object).Progress h.request ∧
        (c.status = factory.statusFor c h ∨ c.status = .timedOut)

section Inv

variable {factory : JsonRpcFactory ν τ α ω} {s s' : State ν τ α ω}

/-- A call is sent once. -/
theorem nodup_sentTo (s : State ν τ α ω) (place : Place) : (s.sentTo place).Nodup := by
  have h_sublist : (s.sentTo place).Sublist ((s.calls.map Call.sentTo).zipIdx.map Prod.snd) :=
    List.filter_sublist.map _
  rw [List.zipIdx_map_snd] at h_sublist
  exact h_sublist.nodup (List.nodup_range' _)

/-- Pairs with different second parts for each first part, where the first part depends on the
second. -/
theorem nodup_snd {β γ : Type*} [DecidableEq β] {l : List (β × γ)} {f : γ → Option β}
    (h_fst : ∀ x ∈ l, f x.2 = some x.1)
    (h : ∀ b, ((l.filter fun x => x.1 = b).map Prod.snd).Nodup) : (l.map Prod.snd).Nodup := by
  rw [List.Nodup, List.pairwise_map, List.pairwise_iff_forall_sublist]
  intro x y h_xy h_eq
  have h_mem : ∀ z ∈ [x, y], z ∈ l := fun z h_z => h_xy.subset h_z
  have h_b : x.1 = y.1 := by
    have h_x := h_fst x (h_mem x (by simp))
    have h_y := h_fst y (h_mem y (by simp))
    rw [h_eq] at h_x
    exact Option.some.inj (h_x.symm.trans h_y)
  -- both are in the list for this first part
  have h_filter := (h_xy.filter fun z => decide (z.1 = y.1)).map Prod.snd
  simp only [List.filter_cons, h_b, decide_true, if_true, List.filter_nil, List.map_cons,
    List.map_nil] at h_filter
  have h_nodup := h_filter.nodup (h y.1)
  exact (List.nodup_cons.mp h_nodup).1 (h_eq ▸ List.mem_cons_self)

/-- What was taken for a place was sent to it. -/
theorem Inv.place_eq (h : Inv factory s) {x : Place × ℕ}
    (h_x : x ∈ s.handled.map fun h => (h.place, h.call)) :
    (s.calls[x.2]?).map Call.place = some x.1 := by
  obtain ⟨h', h_mem, rfl⟩ := List.mem_map.mp h_x
  obtain ⟨c, h_c, h_place, -⟩ := h.handled h' h_mem
  dsimp only
  rw [h_c, ← h_place]
  rfl

/-- **At most once**: no call is taken twice. -/
theorem Inv.nodup (h : Inv factory s) : (s.handled.map Handled.call).Nodup := by
  have h_snd := @nodup_snd _ _ _ (s.handled.map fun h => (h.place, h.call))
    (fun k => (s.calls[k]?).map Call.place) (fun x h_x => h.place_eq h_x) fun place => by
      have h_nodup := nodup_sentTo s place
      rw [h.queue place] at h_nodup
      exact (List.nodup_append.mp h_nodup).1
  rwa [List.map_map] at h_snd

/-- A call that waits in the queue was not taken. -/
theorem Inv.notTaken (h : Inv factory s) {place : Place} {task : Task}
    (h_task : task ∈ s.tasksAt place) : task.call ∉ s.handled.map Handled.call := by
  intro h_mem
  obtain ⟨h', h_mem, h_call⟩ := List.mem_map.mp h_mem
  obtain ⟨c, h_c, h_place, -⟩ := h.task place task h_task
  obtain ⟨c', h_c', h_place', -⟩ := h.handled h' h_mem
  rw [h_call, h_c] at h_c'
  obtain rfl := Option.some.inj h_c'
  have h_nodup := nodup_sentTo s place
  rw [h.queue place] at h_nodup
  refine (List.nodup_append.mp h_nodup).2.2 task.call ?_ task.call
    (List.mem_map_of_mem h_task) rfl
  refine List.mem_map.mpr ⟨(h'.place, h'.call), List.mem_filter.mpr ⟨?_, ?_⟩, h_call⟩
  · exact List.mem_map_of_mem h_mem
  · exact decide_eq_true (h_place'.symm.trans h_place)

/-- The invariant depends on the queues, the calls and the handled requests only. -/
theorem Inv.congr (h : Inv factory s) (h_tasks : ∀ place, s'.tasksAt place = s.tasksAt place)
    (h_calls : s'.calls = s.calls) (h_handled : s'.handled = s.handled) : Inv factory s' := by
  refine ⟨fun place => ?_, fun place task h_task => ?_, fun h' h_mem => ?_⟩
  · have h_queue := h.queue place
    unfold State.sentTo State.takenFrom at h_queue ⊢
    rw [h_calls, h_handled, h_tasks, h_queue]
  · rw [h_calls]
    exact h.task place task (h_tasks place ▸ h_task)
  · rw [h_calls]
    exact h.handled h' (h_handled ▸ h_mem)

/-! ### Services and closing -/

/-- One transport changes its own queue. -/
theorem tasksAt_update {place : Place} {t : Transport}
    (h : s'.transports = Function.update s.transports place (some t)) (place' : Place) :
    s'.tasksAt place' = if place' = place then t.waitingRequests else s.tasksAt place' := by
  unfold State.tasksAt
  rw [h, Function.update_apply]
  split_ifs <;> rfl

/-- The queue of a transport. -/
theorem tasksAt_of_some {place : Place} {t : Transport} (h : s.transports place = some t) :
    s.tasksAt place = t.waitingRequests := by
  unfold State.tasksAt
  rw [h]
  rfl

/-- Nothing changes if the tasks of the transport are the same. -/
theorem tasksAt_update_self {place : Place} {t : Transport}
    (h : s'.transports = Function.update s.transports place (some t))
    (h_t : t.waitingRequests = s.tasksAt place) (place' : Place) :
    s'.tasksAt place' = s.tasksAt place' := by
  rw [tasksAt_update h]
  split_ifs with h_eq
  · rw [h_t, h_eq]
  · rfl

/-- Deriving a transport leaves the queues. -/
theorem Inv.deriveCallbackTransport (h : Inv factory s) (callbackAddress : JavaString) :
    Inv factory (s.deriveCallbackTransport callbackAddress) := by
  refine h.congr (fun place => ?_) rfl rfl
  cases h_t : s.transports (.derived callbackAddress) with
  | some t =>
    unfold State.deriveCallbackTransport State.tasksAt
    rw [h_t]
  -- the new transport has no queue yet
  | none =>
    refine @tasksAt_update_self _ _ _ _ _ _ (.derived callbackAddress) .new ?_ ?_ place
    · unfold State.deriveCallbackTransport
      rw [h_t]
    · unfold State.tasksAt
      rw [h_t]
      rfl

/-- What serving does: the transport is open and gets its consumer. -/
theorem serve_eq {t t' : Transport} {object : ℕ} (h : t.serve object = some t') :
    t.closed = false ∧ t' = { t with consumer := some object } := by
  unfold Transport.serve at h
  split_ifs at h with h_closed
  exact ⟨by simpa using h_closed, (Option.some.inj h).symm⟩

theorem Inv.registerService (h : Inv factory s) (place : Place) (object : ℕ) :
    Inv factory (s.registerService place object) := by
  unfold State.registerService
  cases h_serve : (s.transports place).bind fun t => t.serve object with
  | none => exact h
  | some t' =>
    obtain ⟨t, h_t, h_serve⟩ := Option.bind_eq_some_iff.mp h_serve
    obtain ⟨-, rfl⟩ := serve_eq h_serve
    exact h.congr (tasksAt_update_self rfl (tasksAt_of_some h_t).symm) rfl rfl

/-- Closing a transport keeps what waits in its queue. -/
theorem waitingRequests_close (t : Option Transport) :
    (t.map Transport.close).map Transport.waitingRequests = t.map Transport.waitingRequests := by
  cases t <;> rfl

theorem Inv.close (h : Inv factory s) : Inv factory s.close := by
  refine h.congr (fun place => ?_) rfl rfl
  unfold State.tasksAt State.close
  cases place with
  | root => exact congrArg (Option.getD · []) (waitingRequests_close _)
  | derived callbackAddress =>
    dsimp only
    split_ifs
    · rw [waitingRequests_close]
    · rfl

/-! ### Calls -/

/-- Completing a call changes not where it was sent. -/
theorem Call.sentTo_complete {status : CallStatus (Option ω)} (h_status : status ≠ .refused)
    (call : Call ν τ ω) : (call.complete status).sentTo = call.sentTo := by
  unfold Call.complete
  cases h_call : call.status with
  | waiting =>
    unfold Call.sentTo
    rw [h_call]
    cases status with
    | refused => exact absurd rfl h_status
    | _ => rfl
  | _ => rfl

theorem Call.sentTo_timeOut (call : Call ν τ ω) : call.timeOut.sentTo = call.sentTo := by
  unfold Call.timeOut
  split_ifs
  · rfl
  · exact call.sentTo_complete (by simp)

theorem map_sentTo_modify {f : Call ν τ ω → Call ν τ ω} (h : ∀ call, (f call).sentTo = call.sentTo)
    (calls : List (Call ν τ ω)) (k : ℕ) :
    (calls.modify k f).map Call.sentTo = calls.map Call.sentTo := by
  refine List.ext_getElem (by simp) fun j h_j h_j' => ?_
  rw [List.getElem_map, List.getElem_map, List.getElem_modify]
  split_ifs
  · exact h _
  · rfl

/-- A call keeps its place, request and method. -/
structure Call.Same (c c' : Call ν τ ω) : Prop where
  place : c'.place = c.place
  request : c'.request = c.request
  method : c'.method = c.method

theorem Call.same_complete (status : CallStatus (Option ω)) (call : Call ν τ ω) :
    call.Same (call.complete status) := by
  unfold Call.complete
  cases call.status <;> exact ⟨rfl, rfl, rfl⟩

theorem Call.same_timeOut (call : Call ν τ ω) : call.Same call.timeOut := by
  unfold Call.timeOut
  split_ifs
  · exact ⟨rfl, rfl, rfl⟩
  · exact call.same_complete _

theorem Call.complete_waiting {call : Call ν τ ω} {status : CallStatus (Option ω)}
    (h : call.status = .waiting) : (call.complete status).status = status := by
  unfold Call.complete
  rw [h]

/-- A call whose time is out stays so. -/
theorem Call.complete_timedOut {call : Call ν τ ω} {status : CallStatus (Option ω)}
    (h : call.status = .timedOut) : (call.complete status).status = .timedOut := by
  unfold Call.complete
  rw [h]
  exact h

/-- A call that times out, or one that is done with. -/
theorem Call.timeOut_status (call : Call ν τ ω) :
    call.timeOut.status = call.status ∨ call.timeOut.status = .timedOut := by
  unfold Call.timeOut
  split_ifs
  · exact Or.inl rfl
  · unfold Call.complete
    cases h : call.status with
    | waiting => exact Or.inr rfl
    | _ => exact Or.inl h

/-- What a call is answered with depends on its request only. -/
theorem statusFor_congr {c c' : Call ν τ ω} (h : c.Same c') (h' : Handled τ α ω) :
    factory.statusFor c' h' = factory.statusFor c h' := by
  unfold JsonRpcFactory.statusFor
  rw [h.method]

/-- What is read after a change of one entry. -/
theorem getElem?_modify_of_some {β : Type*} {l : List β} {f : β → β} {j k : ℕ} {x : β}
    (h : l[j]? = some x) : (l.modify k f)[j]? = some (if k = j then f x else x) := by
  rw [List.getElem?_modify, h]
  rfl

/-- A time-out keeps the invariant. -/
theorem Inv.timeOut (h : Inv factory s) (k : ℕ) :
    Inv factory { s with calls := s.calls.modify k Call.timeOut } := by
  -- a call of the run, and what has become of it
  have h_call {j : ℕ} {c : Call ν τ ω} (h_c : s.calls[j]? = some c) :
      ∃ c', (s.calls.modify k Call.timeOut)[j]? = some c' ∧ c.Same c' ∧
        (c'.status = c.status ∨ c'.status = .timedOut) := by
    refine ⟨_, getElem?_modify_of_some h_c, ?_⟩
    split_ifs
    · exact ⟨c.same_timeOut, c.timeOut_status⟩
    · exact ⟨⟨rfl, rfl, rfl⟩, Or.inl rfl⟩
  refine ⟨fun place => ?_, fun place task h_task => ?_, fun h' h_mem => ?_⟩
  · have h_queue := h.queue place
    unfold State.sentTo at h_queue ⊢
    rwa [map_sentTo_modify Call.sentTo_timeOut]
  · obtain ⟨c, h_c, h_place, h_text, h_status⟩ := h.task place task h_task
    obtain ⟨c', h_c', h_same, h_status'⟩ := h_call h_c
    refine ⟨c', h_c', h_same.place.trans h_place, h_same.request ▸ h_text, ?_⟩
    rcases h_status' with h_eq | h_out
    · rwa [h_eq]
    · exact Or.inr h_out
  · obtain ⟨c, h_c, h_place, h_text, h_progress, h_status⟩ := h.handled h' h_mem
    obtain ⟨c', h_c', h_same, h_status'⟩ := h_call h_c
    refine ⟨c', h_c', h_same.place.trans h_place, h_same.request ▸ h_text, h_progress, ?_⟩
    rcases h_status' with h_eq | h_out
    · rwa [h_eq, statusFor_congr h_same]
    · exact Or.inr h_out

/-- A new call is sent to its place, or to none. -/
theorem sentTo_concat {c : Call ν τ ω} (h : s'.calls = s.calls ++ [c]) (place : Place) :
    s'.sentTo place = s.sentTo place ++ if c.sentTo = some place then [s.calls.length] else [] := by
  unfold State.sentTo
  rw [h, List.map_append, List.zipIdx_append, List.filter_append, List.map_append]
  congr 1
  simp only [List.map_cons, List.map_nil, List.zipIdx_cons, List.zipIdx_nil, List.length_map,
    Nat.zero_add, List.filter_cons, List.filter_nil, decide_eq_true_eq]
  split_ifs <;> rfl

/-- Sending queues the task. -/
theorem send_eq {t t' : Transport} {task : Task} (h : t.send task = some t') :
    t' = { t with waitingRequests := t.waitingRequests ++ [task] } := by
  unfold Transport.send at h
  split_ifs at h
  exact (Option.some.inj h).symm

/-- A call that is sent, or refused. -/
theorem Inv.concat (h : Inv factory s) {c : Call ν τ ω} (h_calls : s'.calls = s.calls ++ [c])
    (h_handled : s'.handled = s.handled)
    (h_tasks : (c.status = .refused ∧ ∀ place, s'.tasksAt place = s.tasksAt place) ∨
      c.status = .waiting ∧ ∃ text, factory.writeRequest c.request = some text ∧
        ∀ place, s'.tasksAt place = s.tasksAt place ++
          if place = c.place then [⟨s.calls.length, text⟩] else []) : Inv factory s' := by
  -- the calls of before have kept their numbers
  have h_old {j : ℕ} {c' : Call ν τ ω} (h_c : s.calls[j]? = some c') :
      s'.calls[j]? = some c' := by
    rw [h_calls, List.getElem?_append_left (List.getElem?_eq_some_iff.mp h_c).1]
    exact h_c
  refine ⟨fun place => ?_, fun place task h_task => ?_, fun h' h_mem => ?_⟩
  · have h_queue := h.queue place
    have h_taken : s'.takenFrom place = s.takenFrom place := by
      unfold State.takenFrom
      rw [h_handled]
    rw [sentTo_concat h_calls, h_queue, h_taken]
    rcases h_tasks with ⟨h_status, h_tasks⟩ | ⟨h_status, text, -, h_tasks⟩
    · have h_sentTo : c.sentTo = none := by
        unfold Call.sentTo
        rw [h_status]
      rw [h_sentTo, if_neg (by simp), List.append_nil, h_tasks]
    · have h_sentTo : c.sentTo = some c.place := by
        unfold Call.sentTo
        rw [h_status]
      rw [h_sentTo, h_tasks, List.map_append, List.append_assoc]
      by_cases h_place : place = c.place
      · rw [if_pos (congrArg some h_place.symm), if_pos h_place]
        rfl
      · rw [if_neg fun h_eq => h_place (Option.some.inj h_eq).symm, if_neg h_place]
        rfl
  · have h_cases : task ∈ s.tasksAt place ∨ place = c.place ∧ c.status = .waiting ∧
        task.call = s.calls.length ∧ factory.writeRequest c.request = some task.request := by
      rcases h_tasks with ⟨-, h_tasks⟩ | ⟨h_status, text, h_text, h_tasks⟩
      · exact Or.inl (h_tasks place ▸ h_task)
      · rw [h_tasks place] at h_task
        -- an old task, or that of the new call
        rcases List.mem_append.mp h_task with h_task | h_task
        · exact Or.inl h_task
        · split_ifs at h_task with h_place
          · obtain rfl := List.mem_singleton.mp h_task
            exact Or.inr ⟨h_place, h_status, rfl, h_text⟩
          · cases h_task
    rcases h_cases with h_task | ⟨h_place, h_status, h_call, h_text⟩
    · obtain ⟨c', h_c, h_rest⟩ := h.task place task h_task
      exact ⟨c', h_old h_c, h_rest⟩
    · refine ⟨c, ?_, h_place.symm, h_text, Or.inl h_status⟩
      rw [h_calls, h_call]
      exact List.getElem?_concat_length
  · obtain ⟨c', h_c, h_rest⟩ := h.handled h' (h_handled ▸ h_mem)
    exact ⟨c', h_old h_c, h_rest⟩

/-- **A call** keeps the invariant: it is refused, or its task is queued last. -/
theorem Inv.call (h : Inv factory s) (place : Place) (method : ClientMethod τ (Option ω))
    (name : JavaString) (params : List ν) :
    Inv factory (factory.call s place method name params) := by
  unfold JsonRpcFactory.call
  dsimp only
  cases h_sent : (factory.writeRequest ⟨some (decimal s.id), some name, params⟩).bind fun text =>
      (s.transports place).bind fun t => t.send ⟨s.calls.length, text⟩ with
  | none => exact h.concat rfl rfl (Or.inl ⟨rfl, fun _ => rfl⟩)
  | some t' =>
    obtain ⟨text, h_text, h_sent⟩ := Option.bind_eq_some_iff.mp h_sent
    obtain ⟨t, h_t, h_send⟩ := Option.bind_eq_some_iff.mp h_sent
    obtain rfl := send_eq h_send
    refine h.concat rfl rfl (Or.inr ⟨rfl, text, h_text, fun place' => ?_⟩)
    rw [@tasksAt_update _ _ _ _ s _ place _ rfl]
    split_ifs with h_place
    · rw [h_place, tasksAt_of_some h_t]
    · exact (List.append_nil _).symm

/-! ### Tasks -/

/-- What is taken from a place after one more. -/
theorem takenFrom_concat {h : Handled τ α ω} (h_eq : s'.handled = s.handled ++ [h])
    (place : Place) :
    s'.takenFrom place = s.takenFrom place ++ if h.place = place then [h.call] else [] := by
  unfold State.takenFrom
  rw [h_eq, List.map_append, List.filter_append, List.map_append]
  congr 1
  simp only [List.map_cons, List.map_nil, List.filter_cons, List.filter_nil, decide_eq_true_eq]
  split_ifs <;> rfl

/-- The request of a task that was just taken: the consumer has thrown, or nothing is replied. -/
theorem deliver_cases (service : Service ν τ α ω) (message : JavaString) :
    (service.deliver message : Request τ α ω) = ⟨message, .finished .consumerThrew, []⟩ ∨
      ∃ task, service.deliver message = ⟨message, .submitted task, []⟩ := by
  unfold Service.deliver
  cases service.consumer message with
  | none => exact Or.inl rfl
  | some task => exact Or.inr ⟨task, rfl⟩

/-- A call that completes has its status or its time is out. -/
theorem complete_cases {c : Call ν τ ω} {status : CallStatus (Option ω)}
    (h : c.status = .waiting ∨ c.status = .timedOut) :
    (c.complete status).status = status ∨ (c.complete status).status = .timedOut := by
  rcases h with h | h
  · exact Or.inl (Call.complete_waiting h)
  · exact Or.inr (Call.complete_timedOut h)

/-- A task is taken: its call gets the status that its request asks for. -/
theorem Inv.taken (h : Inv factory s) {place : Place} {task : Task} {rest : List Task}
    {h' : Handled τ α ω} (h_task : s.tasksAt place = task :: rest)
    (h_place : h'.place = place) (h_call : h'.call = task.call)
    (h_message : h'.request.message = task.request)
    (h_progress : (factory.services h'.object).Progress h'.request)
    (h_tasks : ∀ place', s'.tasksAt place' = if place' = place then rest else s.tasksAt place')
    (h_handled : s'.handled = s.handled ++ [h'])
    (h_calls : s'.calls = s.calls ∧ (∀ c, factory.statusFor c h' = .waiting) ∨
      s'.calls = s.calls.modify task.call (Call.complete .rejected) ∧
        ∀ c, factory.statusFor c h' = .rejected) : Inv factory s' := by
  have h_queued (place' : Place) : ∀ task' ∈ s'.tasksAt place', task' ∈ s.tasksAt place' := by
    intro task' h_task'
    rw [h_tasks] at h_task'
    split_ifs at h_task' with h_eq
    · rw [h_eq, h_task]
      exact List.mem_cons_of_mem task h_task'
    · exact h_task'
  have h_mem : task ∈ s.tasksAt place := h_task ▸ List.mem_cons_self
  -- the calls other than that of the task
  have h_other {j : ℕ} {c : Call ν τ ω} (h_j : j ≠ task.call) (h_c : s.calls[j]? = some c) :
      s'.calls[j]? = some c := by
    rcases h_calls with ⟨h_calls, -⟩ | ⟨h_calls, -⟩
    · rwa [h_calls]
    · rw [h_calls, getElem?_modify_of_some h_c, if_neg h_j.symm]
  refine ⟨fun place' => ?_, fun place' task' h_task' => ?_, fun h'' h_mem'' => ?_⟩
  · have h_sentTo : s'.sentTo place' = s.sentTo place' := by
      unfold State.sentTo
      rcases h_calls with ⟨h_calls, -⟩ | ⟨h_calls, -⟩
      · rw [h_calls]
      · rw [h_calls, map_sentTo_modify (Call.sentTo_complete (by simp))]
    rw [h_sentTo, h.queue place', takenFrom_concat h_handled, h_tasks, h_place, h_call,
      List.append_assoc]
    by_cases h_eq : place' = place
    · rw [if_pos h_eq.symm, if_pos h_eq, h_eq, h_task]
      rfl
    · rw [if_neg fun h => h_eq h.symm, if_neg h_eq]
      rfl
  · obtain ⟨c, h_c, h_c_place, h_rest⟩ := h.task place' task' (h_queued place' task' h_task')
    refine ⟨c, h_other (fun h_eq => ?_) h_c, h_c_place, h_rest⟩
    -- the call of the task does not wait in the queue any more
    obtain ⟨c', h_c', h_c'_place, -⟩ := h.task place task h_mem
    obtain rfl := Option.some.inj (h_c.symm.trans (h_eq ▸ h_c'))
    obtain rfl : place' = place := h_c_place.symm.trans h_c'_place
    rw [h_tasks, if_pos rfl] at h_task'
    have h_nodup := nodup_sentTo s place'
    rw [h.queue place', h_task] at h_nodup
    have h_cons := (List.nodup_append.mp h_nodup).2.1
    rw [List.map_cons, List.nodup_cons] at h_cons
    exact h_cons.1 (h_eq ▸ List.mem_map_of_mem h_task')
  · rw [h_handled] at h_mem''
    rcases List.mem_append.mp h_mem'' with h_old | h_new
    · obtain ⟨c, h_c, h_rest⟩ := h.handled h'' h_old
      refine ⟨c, h_other (fun h_eq => ?_) h_c, h_rest⟩
      exact h.notTaken h_mem (h_eq ▸ List.mem_map_of_mem h_old)
    · obtain rfl := List.mem_singleton.mp h_new
      obtain ⟨c, h_c, h_c_place, h_text, h_status⟩ := h.task place task h_mem
      rw [h_call, h_message, h_place]
      rcases h_calls with ⟨h_calls, h_for⟩ | ⟨h_calls, h_for⟩
      · exact ⟨c, h_calls ▸ h_c, h_c_place, h_text, h_progress, (h_for c).symm ▸ h_status⟩
      · have h_same := c.same_complete .rejected
        refine ⟨c.complete .rejected, ?_, h_same.place.trans h_c_place, h_same.request ▸ h_text,
          h_progress, ?_⟩
        · rw [h_calls, getElem?_modify_of_some h_c, if_pos rfl]
        · rw [h_for]
          exact complete_cases h_status

/-- **A task that is taken** keeps the invariant. -/
theorem Inv.take (h : Inv factory s) (place : Place) : Inv factory (factory.take s place) := by
  unfold JsonRpcFactory.take
  split
  · next task rest object closed h_t =>
    dsimp only
    have h_progress := @progress_deliver _ _ _ _ (factory.services object) task.request
    have h_tasks := tasksAt_of_some h_t
    -- the consumer throws, or the request is submitted
    rcases deliver_cases (factory.services object) task.request with h_eq | ⟨submitted, h_eq⟩
    · refine @Inv.taken _ _ _ _ _ _ _ h place task rest _ h_tasks rfl rfl ?_ h_progress
        (@tasksAt_update _ _ _ _ s _ place ⟨rest, some object, closed⟩ rfl) rfl
        (Or.inr ⟨?_, fun c => ?_⟩)
      · rw [h_eq]
      · rw [h_eq]
      · unfold JsonRpcFactory.statusFor
        rw [h_eq]
    · refine @Inv.taken _ _ _ _ _ _ _ h place task rest _ h_tasks rfl rfl ?_ h_progress
        (@tasksAt_update _ _ _ _ s _ place ⟨rest, some object, closed⟩ rfl) rfl
        (Or.inl ⟨?_, fun c => ?_⟩)
      · rw [h_eq]
      · rw [h_eq]
      · unfold JsonRpcFactory.statusFor
        rw [h_eq]
        rfl
  · exact h

/-- A request that stays as it is, or one that is under way and is replied to at most once. -/
inductive Advances (r : Request τ α ω) : Request τ α ω → Prop
  | refl : Advances r r
  | reply {r' : Request τ α ω} (h_status : ∀ finish, r.status ≠ .finished finish)
      (h_message : r'.message = r.message) (h_status' : r'.status ≠ .finished .consumerThrew)
      (response : Option (JsonRpcResponse ω))
      (h_eq : r'.responses = r.responses ++ response.toList) : Advances r r'

/-- Running a task advances its request. -/
theorem advances_runTask (service : Service ν τ α ω) (invocation : Invocation ω)
    (r : Request τ α ω) : Advances r (service.runTask invocation r) := by
  obtain ⟨message, status, responses⟩ := r
  unfold Service.runTask
  cases status with
  | awaiting task => exact .refl
  | finished finish => exact .refl
  | submitted task =>
    dsimp only
    cases task.method with
    | none => exact .reply (by simp) rfl (by simp) none (List.append_nil _).symm
    | some method =>
      cases invocation with
      | returns result => exact .reply (by simp) rfl (by simp) _ rfl
      | throws e => exact .reply (by simp) rfl (by simp) _ rfl
      | refused => exact .reply (by simp) rfl (by simp) none (List.append_nil _).symm
      | returnsFuture isCompletionStage =>
        cases isCompletionStage <;>
          exact .reply (by simp) rfl (by simp) none (List.append_nil _).symm

theorem advances_complete (service : Service ν τ α ω) (completion : Completion ω)
    (r : Request τ α ω) : Advances r (service.complete completion r) := by
  obtain ⟨message, status, responses⟩ := r
  unfold Service.complete
  cases status with
  | submitted task => exact .refl
  | finished finish => exact .refl
  | awaiting task => exact .reply (by simp) rfl (by simp) _ rfl

/-- Nothing is replied to a request that is under way. -/
theorem responses_of_progress {service : Service ν τ α ω} {r : Request τ α ω}
    (h : service.Progress r) (h_status : ∀ finish, r.status ≠ .finished finish) :
    r.responses = [] := by
  unfold Service.Progress at h
  cases h_r : r.status with
  | submitted task =>
    rw [h_r] at h
    exact h.2
  | awaiting task =>
    rw [h_r] at h
    exact h.2.2
  | finished finish => exact absurd h_r (h_status finish)

/-- What a request answers with, unless its consumer threw. -/
theorem statusFor_eq {h : Handled τ α ω} (h_status : h.request.status ≠ .finished .consumerThrew)
    (c : Call ν τ ω) : factory.statusFor c h =
      match h.request.responses.filterMap (factory.services h.object).writeValueAsString with
      | [] => .waiting
      | text :: _ => .answered (factory.answer c.method text) := by
  unfold JsonRpcFactory.statusFor
  split
  · next h_eq => exact absurd h_eq h_status
  · rfl

/-- The requests keep their places and calls when one of them advances. -/
theorem map_set_request {k : ℕ} {h' : Handled τ α ω} (h_k : s.handled[k]? = some h')
    (request : Request τ α ω) :
    ((s.handled.set k { h' with request := request }).map fun h => (h.place, h.call)) =
      s.handled.map fun h => (h.place, h.call) := by
  refine List.ext_getElem (by simp) fun j h_j h_j' => ?_
  rw [List.getElem_map, List.getElem_map, List.getElem_set]
  split_ifs with h_eq
  · subst h_eq
    obtain ⟨h_lt, rfl⟩ := List.getElem?_eq_some_iff.mp h_k
    rfl
  · rfl

/-- A request makes progress: its call gets the status that it asks for. -/
theorem Inv.progress (h : Inv factory s) {k : ℕ} {h' : Handled τ α ω}
    (h_k : s.handled[k]? = some h') {request : Request τ α ω}
    (h_message : request.message = h'.request.message)
    (h_progress : (factory.services h'.object).Progress request)
    (h_transports : s'.transports = s.transports)
    (h_handled : s'.handled = s.handled.set k { h' with request := request })
    {f : Call ν τ ω → Call ν τ ω} (h_calls : s'.calls = s.calls.modify h'.call f)
    (h_sentTo : ∀ c, (f c).sentTo = c.sentTo) (h_same : ∀ c : Call ν τ ω, c.Same (f c))
    (h_status : ∀ c : Call ν τ ω, c.status = factory.statusFor c h' ∨ c.status = .timedOut →
      (f c).status = factory.statusFor c { h' with request := request } ∨
        (f c).status = .timedOut) : Inv factory s' := by
  have h_mem : h' ∈ s.handled := List.mem_of_getElem? h_k
  have h_tasks (place : Place) : s'.tasksAt place = s.tasksAt place := by
    unfold State.tasksAt
    rw [h_transports]
  have h_other {j : ℕ} {c : Call ν τ ω} (h_j : j ≠ h'.call) (h_c : s.calls[j]? = some c) :
      s'.calls[j]? = some c := by
    rw [h_calls, getElem?_modify_of_some h_c, if_neg h_j.symm]
  refine ⟨fun place => ?_, fun place task h_task => ?_, fun h'' h_mem'' => ?_⟩
  · have h_queue := h.queue place
    unfold State.sentTo State.takenFrom at h_queue ⊢
    rw [h_calls, map_sentTo_modify h_sentTo, h_handled, map_set_request h_k, h_tasks, h_queue]
  · rw [h_tasks] at h_task
    obtain ⟨c, h_c, h_rest⟩ := h.task place task h_task
    refine ⟨c, h_other (fun h_eq => ?_) h_c, h_rest⟩
    exact h.notTaken h_task (h_eq ▸ List.mem_map_of_mem h_mem)
  · rw [h_handled] at h_mem''
    obtain ⟨j, h_j, rfl⟩ := List.mem_iff_getElem.mp h_mem''
    rw [List.length_set] at h_j
    rw [List.getElem_set]
    obtain ⟨h_lt, h_get⟩ := List.getElem?_eq_some_iff.mp h_k
    split_ifs with h_eq
    · obtain ⟨c, h_c, h_place, h_text, -, h_c_status⟩ := h.handled h' h_mem
      refine ⟨f c, ?_, (h_same c).place.trans h_place, ?_, h_progress, ?_⟩
      · rw [h_calls, getElem?_modify_of_some h_c, if_pos rfl]
      · rw [(h_same c).request, h_text, h_message]
      · rw [statusFor_congr (h_same c)]
        exact h_status c h_c_status
    · obtain ⟨c, h_c, h_rest⟩ := h.handled _ (List.getElem_mem h_j)
      refine ⟨c, h_other (fun h_call => h_eq ?_) h_c, h_rest⟩
      -- calls are taken once
      have h_nodup := List.nodup_iff_injective_get.mp h.nodup
      have h_fin : (⟨k, by simpa using h_lt⟩ : Fin (s.handled.map Handled.call).length) =
          ⟨j, by simpa using h_j⟩ := by
        apply h_nodup
        simp only [List.get_eq_getElem, List.getElem_map, h_get]
        exact h_call.symm
      exact congrArg Fin.val h_fin

/-- **Advancing a request** keeps the invariant: its call is answered once, if at all. -/
theorem Inv.advance (h : Inv factory s) (k : ℕ)
    {progress : Service ν τ α ω → Request τ α ω → Request τ α ω}
    (h_advances : ∀ (service : Service ν τ α ω) r, Advances r (progress service r))
    (h_progress : ∀ (service : Service ν τ α ω) r,
      service.Progress r → service.Progress (progress service r)) :
    Inv factory (factory.advance s k progress) := by
  unfold JsonRpcFactory.advance
  cases h_k : s.handled[k]? with
  | none => exact h
  | some h' =>
    dsimp only
    obtain ⟨c₀, -, -, -, h_before, -⟩ := h.handled h' (List.mem_of_getElem? h_k)
    have h_after := h_progress _ _ h_before
    generalize h_request : progress (factory.services h'.object) h'.request = request at h_after ⊢
    have h_adv : Advances h'.request request := h_request ▸ h_advances _ _
    cases h_adv with
    | refl =>
      rw [List.drop_length, List.filterMap_nil, List.foldl_nil]
      refine @Inv.progress _ _ _ _ _ s _ h k h' h_k _ rfl h_before rfl rfl id ?_ (fun _ => rfl)
        (fun _ => ⟨rfl, rfl, rfl⟩) fun _ h => h
      rw [List.modify_id]
    | reply h_status h_message h_status' response h_eq =>
      have h_nil := responses_of_progress h_before h_status
      -- before the reply there are no texts, so the call waits
      rw [h_nil, List.nil_append] at h_eq
      rw [h_nil, List.length_nil, List.drop_zero]
      have h_waiting (c : Call ν τ ω) : factory.statusFor c h' = .waiting := by
        rw [statusFor_eq (h_status _), h_nil, List.filterMap_nil]
      cases h_texts : request.responses.filterMap
          (factory.services h'.object).writeValueAsString with
      | nil =>
        refine @Inv.progress _ _ _ _ _ s _ h k h' h_k request h_message h_after rfl rfl id ?_
          (fun _ => rfl) (fun _ => ⟨rfl, rfl, rfl⟩) fun c h_c => ?_
        · rw [List.modify_id]
          rfl
        · rw [h_waiting] at h_c
          rw [statusFor_eq h_status']
          dsimp only
          -- one reply makes one text at most
          rwa [h_texts]
      | cons text texts =>
        have h_texts_nil : texts = [] := by
          have h_length := List.length_filterMap_le
            (factory.services h'.object).writeValueAsString request.responses
          rw [h_texts, h_eq, List.length_cons] at h_length
          have h_one : response.toList.length ≤ 1 := by cases response <;> simp
          exact List.eq_nil_of_length_eq_zero (by omega)
        subst h_texts_nil
        refine @Inv.progress _ _ _ _ _ s _ h k h' h_k request h_message h_after rfl rfl
          (factory.resultHandler text) rfl (fun c => c.sentTo_complete (by simp))
          (fun c => c.same_complete _) fun c h_c => ?_
        rw [h_waiting] at h_c
        rw [statusFor_eq h_status']
        dsimp only
        rw [h_texts]
        exact complete_cases h_c

/-! ### The run -/

/-- The invariant at the start. -/
theorem Inv.init : Inv factory (.init : State ν τ α ω) := by
  have h_tasks (place : Place) : (State.init : State ν τ α ω).tasksAt place = [] := by
    rw [@tasksAt_update _ _ _ _ ⟨fun _ => none, [], 0, 0, [], []⟩ .init .root .new rfl]
    split_ifs <;> rfl
  refine ⟨fun place => ?_, fun place task h_task => ?_, List.forall_mem_nil _⟩
  · rw [h_tasks]
    rfl
  · rw [h_tasks] at h_task
    cases h_task

/-- **The step.** -/
theorem Inv.step (h : Inv factory s) (i : Input ν τ ω) : Inv factory (factory.step s i) := by
  cases i with
  | registerService object => exact h.registerService .root object
  | serialize object =>
    -- the counter is not read by the invariant
    have h_counted : Inv factory { s with callbackId := BigInteger.intValue (s.callbackId + 1) } :=
      h.congr (fun _ => rfl) rfl rfl
    exact (h_counted.deriveCallbackTransport _).registerService _ object
  | deserialize callbackAddress => exact h.deriveCallbackTransport callbackAddress
  | call place method name params => exact h.call place method name params
  | take place => exact h.take place
  | runTask k invocation =>
    exact h.advance k (fun service => advances_runTask service invocation) fun service r h_r =>
      progress_runTask h_r invocation
  | complete k completion =>
    exact h.advance k (fun service => advances_complete service completion) fun service r h_r =>
      progress_complete h_r completion
  | timeOut call => exact h.timeOut call
  | close => exact h.close

/-- **After every run** the invariant holds. -/
theorem inv_after (inputs : List (Input ν τ ω)) : Inv factory (factory.after inputs) :=
  run_invariant Inv.init (fun _ i h => h.step i) inputs

end Inv

/-! ### Callbacks -/

/-- The object is registered on the transport. For the transport of the factory, that is a call of
`registerService`; for a derived one, the object was passed on as a callback with this address. -/
def JsonRpcFactory.Serves (factory : JsonRpcFactory ν τ α ω) (inputs : List (Input ν τ ω))
    (object : ℕ) : Place → Prop
  | .root => .registerService object ∈ inputs
  | .derived callbackAddress => ∃ i : ℕ, (callbacksIn inputs)[i]? = some object ∧
      callbackAddress = factory.callbackAddress (BigInteger.intValue i)

/-- The object that the thread of the transport serves. -/
def State.consumerAt (s : State ν τ α ω) (place : Place) : Option ℕ :=
  (s.transports place).bind Transport.consumer

/-- A transport serves an object that is registered on it, and so did it when a task was taken. -/
structure Registered (factory : JsonRpcFactory ν τ α ω) (inputs : List (Input ν τ ω))
    (s : State ν τ α ω) : Prop where
  callbackId : s.callbackId = BigInteger.intValue (callbacksIn inputs).length
  consumer : ∀ place object, s.consumerAt place = some object → factory.Serves inputs object place
  handled : ∀ h ∈ s.handled, factory.Serves inputs h.object h.place

section Registered

variable {factory : JsonRpcFactory ν τ α ω} {s s' : State ν τ α ω} {inputs : List (Input ν τ ω)}

theorem callbacksIn_concat (inputs : List (Input ν τ ω)) (i : Input ν τ ω) :
    callbacksIn (inputs ++ [i]) = callbacksIn inputs ++ callbacksIn [i] :=
  List.filterMap_append

/-- What was registered stays so. -/
theorem JsonRpcFactory.Serves.concat {object : ℕ} {place : Place}
    (h : factory.Serves inputs object place) (i : Input ν τ ω) :
    factory.Serves (inputs ++ [i]) object place := by
  cases place with
  | root => exact List.mem_append_left [i] h
  | derived callbackAddress =>
    obtain ⟨k, h_k, h_address⟩ := h
    refine ⟨k, ?_, h_address⟩
    rw [callbacksIn_concat, List.getElem?_append_left (List.getElem?_eq_some_iff.mp h_k).1]
    exact h_k

/-- A step that passes on no callback. -/
theorem Registered.step_of {i : Input ν τ ω} (h : Registered factory inputs s)
    (h_i : callbacksIn [i] = []) (h_id : s'.callbackId = s.callbackId)
    (h_consumer : ∀ place object, s'.consumerAt place = some object →
      s.consumerAt place = some object ∨ factory.Serves (inputs ++ [i]) object place)
    (h_handled : ∀ h' ∈ s'.handled, (∃ h ∈ s.handled, h.place = h'.place ∧ h.object = h'.object) ∨
      s.consumerAt h'.place = some h'.object) : Registered factory (inputs ++ [i]) s' := by
  refine ⟨?_, fun place object h_some => ?_, fun h' h_mem => ?_⟩
  · rw [h_id, h.callbackId, callbacksIn_concat, h_i, List.append_nil]
  -- who consumes at a place has been registered for it
  · rcases h_consumer place object h_some with h_some | h_serves
    · exact (h.consumer place object h_some).concat i
    · exact h_serves
  -- what has been handled was consumed there
  · rcases h_handled h' h_mem with ⟨h'', h_mem'', h_place, h_object⟩ | h_some
    · rw [← h_place, ← h_object]
      exact (h.handled h'' h_mem'').concat i
    · exact (h.consumer _ _ h_some).concat i

/-! The fields after a step. -/

/-- One transport changes its own consumer. -/
theorem consumerAt_update {place : Place} {t : Transport}
    (h : s'.transports = Function.update s.transports place (some t)) (place' : Place) :
    s'.consumerAt place' = if place' = place then t.consumer else s.consumerAt place' := by
  unfold State.consumerAt
  rw [h, Function.update_apply]
  split_ifs <;> rfl

/-- A derived transport comes without consumer, and leaves the others. -/
@[simp]
theorem consumerAt_deriveCallbackTransport (callbackAddress : JavaString) (place : Place) :
    (s.deriveCallbackTransport callbackAddress).consumerAt place = s.consumerAt place := by
  cases h_t : s.transports (.derived callbackAddress) with
  | some t =>
    unfold State.deriveCallbackTransport State.consumerAt
    rw [h_t]
  -- nobody consumed there before
  | none =>
    rw [@consumerAt_update _ _ _ _ s _ (.derived callbackAddress) .new]
    · split_ifs with h_eq
      · rw [h_eq]
        unfold State.consumerAt
        rw [h_t]
        rfl
      · rfl
    · unfold State.deriveCallbackTransport
      rw [h_t]

/-- The object is served if the transport is open. -/
theorem consumerAt_registerService {place place' : Place} {object object' : ℕ}
    (h : (s.registerService place object).consumerAt place' = some object') :
    place' = place ∧ object' = object ∨ s.consumerAt place' = some object' := by
  unfold State.registerService at h
  cases h_serve : (s.transports place).bind fun t => t.serve object with
  | none =>
    rw [h_serve] at h
    exact Or.inr h
  -- the transport that is served has a new consumer, the others keep theirs
  | some t' =>
    rw [h_serve] at h
    obtain ⟨t, h_t, h_serve⟩ := Option.bind_eq_some_iff.mp h_serve
    obtain ⟨-, rfl⟩ := serve_eq h_serve
    rw [consumerAt_update rfl] at h
    split_ifs at h with h_eq
    · exact Or.inl ⟨h_eq, (Option.some.inj h).symm⟩
    · exact Or.inr h

/-- A transport that is closed serves nothing. -/
theorem consumerAt_close {place : Place} {object : ℕ}
    (h : s.close.consumerAt place = some object) : s.consumerAt place = some object := by
  have h_closed (t : Option Transport) :
      (t.map Transport.close).bind Transport.consumer = none := by
    cases t <;> rfl
  unfold State.consumerAt State.close at h
  cases place with
  | root => exact absurd ((h_closed _).symm.trans h) (by simp)
  | derived callbackAddress =>
    dsimp only at h
    split_ifs at h
    · exact absurd ((h_closed _).symm.trans h) (by simp)
    · exact h

/-- A call changes the queue only. -/
@[simp]
theorem consumerAt_call (place : Place) (method : ClientMethod τ (Option ω)) (name : JavaString)
    (params : List ν) (place' : Place) :
    (factory.call s place method name params).consumerAt place' = s.consumerAt place' := by
  unfold JsonRpcFactory.call
  dsimp only
  cases h_sent : (factory.writeRequest ⟨some (decimal s.id), some name, params⟩).bind fun text =>
      (s.transports place).bind fun t => t.send ⟨s.calls.length, text⟩ with
  | none => rfl
  | some t' =>
    -- sending changes the queue only
    obtain ⟨text, h_text, h_sent⟩ := Option.bind_eq_some_iff.mp h_sent
    obtain ⟨t, h_t, h_send⟩ := Option.bind_eq_some_iff.mp h_sent
    obtain rfl := send_eq h_send
    rw [@consumerAt_update _ _ _ _ s _ place _ rfl]
    split_ifs with h_eq
    · rw [h_eq]
      unfold State.consumerAt
      rw [h_t]
      rfl
    · rfl

/-- Taking a task changes no consumer. -/
@[simp]
theorem consumerAt_take (place place' : Place) :
    (factory.take s place).consumerAt place' = s.consumerAt place' := by
  unfold JsonRpcFactory.take
  split
  · next task rest object closed h_t =>
    rw [@consumerAt_update _ _ _ _ s _ place _ rfl]
    split_ifs with h_eq
    · rw [h_eq]
      unfold State.consumerAt
      rw [h_t]
      rfl
    · rfl
  · rfl

@[simp]
theorem consumerAt_advance (k : ℕ) (progress : Service ν τ α ω → Request τ α ω → Request τ α ω)
    (place : Place) : (factory.advance s k progress).consumerAt place = s.consumerAt place := by
  unfold JsonRpcFactory.advance
  cases s.handled[k]? <;> rfl

@[simp]
theorem callbackId_advance (k : ℕ) (progress : Service ν τ α ω → Request τ α ω → Request τ α ω) :
    (factory.advance s k progress).callbackId = s.callbackId := by
  unfold JsonRpcFactory.advance
  cases s.handled[k]? <;> rfl

@[simp]
theorem callbackId_registerService (place : Place) (object : ℕ) :
    (s.registerService place object).callbackId = s.callbackId := by
  unfold State.registerService
  cases (s.transports place).bind fun t => t.serve object <;> rfl

@[simp]
theorem handled_registerService (place : Place) (object : ℕ) :
    (s.registerService place object).handled = s.handled := by
  unfold State.registerService
  cases (s.transports place).bind fun t => t.serve object <;> rfl

@[simp]
theorem callbackId_take (place : Place) : (factory.take s place).callbackId = s.callbackId := by
  unfold JsonRpcFactory.take
  split <;> rfl

/-- A task is taken for the object that the transport serves then. -/
theorem handled_take {place : Place} {h' : Handled τ α ω}
    (h_mem : h' ∈ (factory.take s place).handled) :
    h' ∈ s.handled ∨ s.consumerAt h'.place = some h'.object := by
  unfold JsonRpcFactory.take at h_mem
  split at h_mem
  · next task rest object closed h_t =>
    rcases List.mem_append.mp h_mem with h_mem | h_mem
    · exact Or.inl h_mem
    -- the consumer of the transport is the one that handles it
    · obtain rfl := List.mem_singleton.mp h_mem
      refine Or.inr ?_
      unfold State.consumerAt
      dsimp only
      rw [h_t]
      rfl
  · exact Or.inl h_mem

/-- A request that makes progress stays with its object. -/
theorem handled_advance {k : ℕ} {progress : Service ν τ α ω → Request τ α ω → Request τ α ω}
    {h' : Handled τ α ω} (h_mem : h' ∈ (factory.advance s k progress).handled) :
    ∃ h ∈ s.handled, h.place = h'.place ∧ h.object = h'.object := by
  unfold JsonRpcFactory.advance at h_mem
  cases h_k : s.handled[k]? with
  | none =>
    rw [h_k] at h_mem
    exact ⟨h', h_mem, rfl, rfl⟩
  | some h =>
    rw [h_k] at h_mem
    rcases List.mem_or_eq_of_mem_set h_mem with h_mem | rfl
    · exact ⟨h', h_mem, rfl, rfl⟩
    · exact ⟨h, List.mem_of_getElem? h_k, rfl, rfl⟩

/-- A callback is passed on: its address is new, or that of the callback it replaces. -/
theorem Registered.serialize (h : Registered factory inputs s) (object : ℕ) :
    Registered factory (inputs ++ [.serialize object]) (factory.serialize s object) := by
  have h_append : callbacksIn (inputs ++ [.serialize object]) = callbacksIn inputs ++ [object] :=
    callbacksIn_concat inputs _
  unfold JsonRpcFactory.serialize
  refine ⟨?_, fun place object' h_some => ?_, fun h' h_mem => ?_⟩
  · rw [callbackId_registerService]
    show BigInteger.intValue (s.callbackId + 1) = _
    rw [h.callbackId, h_append, List.length_append]
    exact Int.bmod_add_bmod
  · rcases consumerAt_registerService h_some with ⟨rfl, rfl⟩ | h_some
    -- the callback is the last one so far
    · refine ⟨(callbacksIn inputs).length, ?_, ?_⟩
      · rw [h_append]
        exact List.getElem?_concat_length
      · rw [h.callbackId]
    · rw [consumerAt_deriveCallbackTransport] at h_some
      exact (h.consumer place object' h_some).concat _
  · rw [handled_registerService] at h_mem
    exact (h.handled h' h_mem).concat _

/-- **One step** keeps track of who serves what. -/
theorem Registered.step (h : Registered factory inputs s) (i : Input ν τ ω) :
    Registered factory (inputs ++ [i]) (factory.step s i) := by
  have h_same (h' : Handled τ α ω) (h_mem : h' ∈ s.handled) :
      (∃ h ∈ s.handled, h.place = h'.place ∧ h.object = h'.object) ∨
        s.consumerAt h'.place = some h'.object := Or.inl ⟨h', h_mem, rfl, rfl⟩
  cases i with
  | registerService object =>
    refine h.step_of rfl (callbackId_registerService .root object)
      (fun place object' h_some => ?_) fun h' h_mem => h_same h' (by
        rwa [← handled_registerService .root object])
    rcases consumerAt_registerService h_some with ⟨rfl, rfl⟩ | h_some
    · exact Or.inr List.mem_concat_self
    · exact Or.inl h_some
  | serialize object => exact h.serialize object
  | deserialize callbackAddress =>
    exact h.step_of rfl rfl (fun _ _ h_some =>
      Or.inl ((consumerAt_deriveCallbackTransport callbackAddress _) ▸ h_some)) h_same
  | call place method name params =>
    exact h.step_of rfl rfl (fun _ _ h_some =>
      Or.inl ((consumerAt_call place method name params _) ▸ h_some)) h_same
  | take place =>
    refine h.step_of rfl (callbackId_take place) (fun _ _ h_some =>
      Or.inl ((consumerAt_take place _) ▸ h_some)) fun h' h_mem => ?_
    rcases handled_take h_mem with h_mem | h_some
    · exact h_same h' h_mem
    · exact Or.inr h_some
  | runTask k invocation =>
    exact h.step_of rfl (callbackId_advance k _) (fun _ _ h_some =>
      Or.inl ((consumerAt_advance k _ _) ▸ h_some)) fun h' h_mem => Or.inl (handled_advance h_mem)
  | complete k completion =>
    exact h.step_of rfl (callbackId_advance k _) (fun _ _ h_some =>
      Or.inl ((consumerAt_advance k _ _) ▸ h_some)) fun h' h_mem => Or.inl (handled_advance h_mem)
  | timeOut call => exact h.step_of rfl rfl (fun _ _ h_some => Or.inl h_some) h_same
  | close => exact h.step_of rfl rfl (fun _ _ h_some => Or.inl (consumerAt_close h_some)) h_same

theorem registered_after (inputs : List (Input ν τ ω)) :
    Registered factory inputs (factory.after inputs) := by
  induction inputs using List.reverseRecOn with
  | nil =>
    refine ⟨?_, fun place object h_some => ?_, List.forall_mem_nil _⟩
    · show (0 : ℤ) = BigInteger.intValue ((0 : ℕ) : ℤ)
      unfold BigInteger.intValue
      rw [Nat.cast_zero, Int.zero_bmod]
    -- no transport has a consumer yet
    · cases place <;> cases h_some
  | append_singleton inputs i ih =>
    unfold JsonRpcFactory.after
    rw [run_concat]
    exact ih.step i

/-- The counter has `2 ^ 32` values. -/
theorem callbackAddress_injective {i j : ℕ} (h_i : i < 2 ^ 32) (h_j : j < 2 ^ 32)
    (h : factory.callbackAddress (BigInteger.intValue i) =
      factory.callbackAddress (BigInteger.intValue j)) : i = j := by
  have h_decimal := (List.cons.inj (List.append_cancel_left h)).2
  unfold decimal at h_decimal
  rw [toString_eq, toString_eq] at h_decimal
  have h_eq := (@formatInt_injective ⟨0x30, by decide⟩ _ _ h_decimal).2
  unfold BigInteger.intValue at h_eq
  rw [Int.bmod_def, Int.bmod_def] at h_eq
  omega

/-- As long as the addresses do not wrap around, that of a callback is not used again. -/
theorem JsonRpcFactory.Serves.eq_callback {object object' i : ℕ}
    (h : factory.Serves inputs object (.derived (factory.callbackAddress (BigInteger.intValue i))))
    (h_callbacks : (callbacksIn inputs).length ≤ 2 ^ 32)
    (h_i : (callbacksIn inputs)[i]? = some object') : object = object' := by
  obtain ⟨j, h_j, h_address⟩ := h
  have h_lt := (List.getElem?_eq_some_iff.mp h_i).1
  have h_lt' := (List.getElem?_eq_some_iff.mp h_j).1
  obtain rfl := callbackAddress_injective (by omega) (by omega) h_address
  exact Option.some.inj (h_j.symm.trans h_i)

end Registered

/-! ### The result -/

/-- The calls that were sent on a transport are taken in their order, and each call is taken at
most once; a call that was not taken is not answered. A task that was taken is that of its call,
which is answered as its own request is replied to. On the address of a callback it was taken for
this callback. -/
structure Served (factory : JsonRpcFactory ν τ α ω) (inputs : List (Input ν τ ω))
    (s : State ν τ α ω) : Prop where
  inOrder : ∀ place, s.sentTo place = s.takenFrom place ++ (s.tasksAt place).map Task.call
  once : (s.handled.map Handled.call).Nodup
  untaken : ∀ (k : ℕ) (c : Call ν τ ω), s.calls[k]? = some c → k ∉ s.handled.map Handled.call →
    c.status = .refused ∨ c.status = .waiting ∨ c.status = .timedOut
  taken : ∀ h ∈ s.handled, ∃ c, s.calls[h.call]? = some c ∧ c.place = h.place ∧
    factory.writeRequest c.request = some h.request.message ∧
      (c.status = factory.statusFor c h ∨ c.status = .timedOut)
  callback : ∀ h ∈ s.handled, ∀ (i object : ℕ), (callbacksIn inputs)[i]? = some object →
    h.place = .derived (factory.callbackAddress (BigInteger.intValue i)) → h.object = object

section Result

variable {factory : JsonRpcFactory ν τ α ω} {s : State ν τ α ω}

/-- What was sent to a place is among its calls. -/
theorem mem_sentTo {k : ℕ} {c : Call ν τ ω} {place : Place} (h_k : s.calls[k]? = some c)
    (h_place : c.sentTo = some place) : k ∈ s.sentTo place := by
  refine List.mem_map.mpr ⟨(c.sentTo, k), List.mem_filter.mpr ⟨?_, ?_⟩, rfl⟩
  · rw [List.mem_zipIdx_iff_getElem?, List.getElem?_map, h_k]
    rfl
  · exact decide_eq_true h_place

/-- A call that nobody has taken is not answered. -/
theorem Inv.untaken (h : Inv factory s) {k : ℕ} {c : Call ν τ ω} (h_k : s.calls[k]? = some c)
    (h_not : k ∉ s.handled.map Handled.call) :
    c.status = .refused ∨ c.status = .waiting ∨ c.status = .timedOut := by
  cases h_sent : c.sentTo with
  | none =>
    unfold Call.sentTo at h_sent
    cases h_status : c.status with
    | refused => exact Or.inl rfl
    | _ =>
      rw [h_status] at h_sent
      cases h_sent
  | some place =>
    have h_mem := mem_sentTo h_k h_sent
    rw [h.queue place] at h_mem
    rcases List.mem_append.mp h_mem with h_mem | h_mem
    · obtain ⟨x, h_x, rfl⟩ := List.mem_map.mp h_mem
      -- it would have been taken, or it is in the queue
      obtain ⟨h', h_mem', rfl⟩ := List.mem_map.mp (List.mem_filter.mp h_x).1
      exact absurd (List.mem_map_of_mem h_mem') h_not
    · obtain ⟨task, h_task, rfl⟩ := List.mem_map.mp h_mem
      obtain ⟨c', h_c', -, -, h_status⟩ := h.task place task h_task
      rw [h_k] at h_c'
      obtain rfl := Option.some.inj h_c'
      exact Or.inr h_status

end Result

/-- **In order and once.** Whatever is called, passed on as a callback, taken, run and completed,
and in whatever order, as long as the addresses of the callbacks do not wrap around. -/
theorem served_in_order (factory : JsonRpcFactory ν τ α ω) (inputs : List (Input ν τ ω))
    (h_callbacks : (callbacksIn inputs).length ≤ 2 ^ 32) :
    Served factory inputs (factory.after inputs) := by
  have h := @inv_after _ _ _ _ factory inputs
  have h_registered := @registered_after _ _ _ _ factory inputs
  refine ⟨h.queue, h.nodup, fun k c h_k h_not => h.untaken h_k h_not, fun h' h_mem => ?_,
    fun h' h_mem i object h_i h_place => ?_⟩
  -- each request that was handled is that of its call
  · obtain ⟨c, h_c, h_place, h_text, -, h_status⟩ := h.handled h' h_mem
    exact ⟨c, h_c, h_place, h_text, h_status⟩
  · have h_serves := h_registered.handled h' h_mem
    rw [h_place] at h_serves
    exact h_serves.eq_callback h_callbacks h_i

/-! ### A callback -/

/-- JSON values that are texts, and errors. -/
inductive SampleTree
  | text (s : JavaString)
  | error (e : Error)

/-- The name of the service in the tests. -/
def SUM : JavaString := .ofString "sum"
/-- Its method. -/
def APPLY : JavaString := .ofString "apply"
/-- What it is asked. -/
def WIBBLE : JavaString := .ofString "wibble"
/-- What it answers. -/
def UPPER_WIBBLE : JavaString := .ofString "WIBBLE"

/-- The request of the tests. -/
def applyRequest : JsonRpcRequest SampleTree :=
  ⟨some (.ofString "0"), some APPLY, [.text WIBBLE]⟩

/-- Its text. -/
def APPLY_REQUEST : JavaString := .ofString
  "\x7b\"jsonrpc\":\"2.0\",\"id\":\"0\",\"method\":\"apply\",\"params\":[\"wibble\"]\x7d"

/-- The text of the response. -/
def APPLY_RESPONSE : JavaString := .ofString
  "\x7b\"jsonrpc\":\"2.0\",\"id\":\"0\",\"result\":\"WIBBLE\"\x7d"

/-- Whether it is this request. -/
def isApply (request : JsonRpcRequest SampleTree) : Bool :=
  match request with
  | ⟨some id, some method, [.text param]⟩ =>
    id = .ofString "0" && method = APPLY && param = WIBBLE
  | _ => false

/-- A function from strings to strings. -/
def upperCaseService : Service SampleTree Unit JavaString JavaString where
  methods := [⟨APPLY, [()]⟩]
  readValue := fun message =>
    if message = APPLY_REQUEST then .ok (some applyRequest) else .error .ioException
  convertValue := fun value _ =>
    match value with
    | .text s => .ok s
    | .error _ => .error .illegalArgument
  writeValueAsString := fun response =>
    if response.id = ['0'] ∧ response.result = some UPPER_WIBBLE ∧ response.error.isNone = true then
      some APPLY_RESPONSE
    else none

/-- What the libraries do with it. -/
def sampleLibraries : Libraries SampleTree Unit (Option JavaString) where
  readString := fun value =>
    match value with
    | .text s => some s
    | .error _ => none
  readError := fun value =>
    match value with
    | .text _ => none
    | .error e => some ⟨e.code, e.message, some (.text (.ofString e.data))⟩
  convertValue := fun value _ =>
    match value with
    | none => some none
    | some (.text s) => some (some s)
    | some (.error _) => none
  writeValueAsString := fun _ => []
  valueOf := fun value =>
    match value with
    | .text s => s
    | .error _ => []
  newInstance := fun _ _ => .caught

/-- A factory with this service. -/
def upperCaseFactory : JsonRpcFactory SampleTree Unit JavaString JavaString where
  key := SUM
  services := fun _ => upperCaseService
  libraries := sampleLibraries
  writeRequest := fun request => if isApply request = true then some APPLY_REQUEST else none
  readDocument := fun text =>
    if text = APPLY_RESPONSE then
      some [⟨JSON_RPC, some (.text (.ofString "2.0"))⟩, ⟨ID, some (.text (.ofString "0"))⟩,
        ⟨RESULT, some (.text UPPER_WIBBLE)⟩]
    else none

/-- The method of the proxy. -/
def applyMethod : ClientMethod Unit (Option JavaString) :=
  ⟨false, some (), fun _ => true, fun _ => true⟩

/-- The function is passed on, and called. -/
def upperCaseRun : List (Input SampleTree Unit JavaString) :=
  let place := Place.derived (.ofString "sum/0")
  [.serialize 7, .deserialize (.ofString "sum/0"), .call place applyMethod APPLY [.text WIBBLE],
    .take place, .runTask 0 (.returns (some UPPER_WIBBLE))]

theorem served_in_order_upperCaseRun :
    Served upperCaseFactory upperCaseRun (upperCaseFactory.after upperCaseRun) :=
  served_in_order upperCaseFactory upperCaseRun (by decide)

end Ethiso.Rpc.InMemory
