import Ethiso.Rpc.InMemory

/-!
# Remote calls are local calls

A client calls a method of its proxy. The method is written into a request, read and found by the
consumer, invoked by a task, and what it returns or throws is written into a response, which the
result handler reads. Then the call should end as if the method had been called on the object
itself: it returns the result, or throws the exception.

Jackson reads what it has written (`Faithful`): the members of a response may be in any order. A
result is that of the call if Jackson converts it back, and an exception if it can be made again
from its class and its message (`Transparent`); an exception that the catch clause of `getResultAs`
catches cannot. Under these conditions remote calls are local ones, in every run of a factory and
its transport (`remote_calls_are_local_calls`).
-/

namespace Ethiso.Rpc.InMemory

open Abi

variable {ν τ α ω : Type}

/-! ### Numbers of requests -/

theorem decimalDigit_ascii {d : ℕ} (h : d < 10) :
    decimalDigit (UInt16.ofNat (d + 0x30)) = some d := by
  have h_all : ∀ d < 10, decimalDigit (UInt16.ofNat (d + 0x30)) = some d := by decide +kernel
  exact h_all d h

/-- A numeral is read as its number. -/
theorem parseDecimal_ascii {ds : List ℕ} (h_ne : ds ≠ []) (h_lt : ∀ d ∈ ds, d < 10) :
    parseDecimal (ds.map fun d => UInt16.ofNat (d + 0x30)) = some (ofBigEndian 10 ds) := by
  have h_mapM : (ds.map fun d => UInt16.ofNat (d + 0x30)).mapM decimalDigit = some ds := by
    clear h_ne
    induction ds with
    | nil => rfl
    | cons d ds ih =>
      obtain ⟨h_d, h_ds⟩ := List.forall_mem_cons.mp h_lt
      rw [List.map_cons, List.mapM_cons, decimalDigit_ascii h_d, ih h_ds]
      rfl
  unfold parseDecimal
  rw [if_neg fun h => h_ne (List.map_eq_nil_iff.mp h), h_mapM]
  rfl

/-- The number of a request is read as it was written. -/
theorem valueOf_decimal {n : ℤ} (h_n : -2 ^ 31 ≤ n ∧ n < 2 ^ 31) :
    Integer.valueOf (some (decimal n)) = some n := by
  obtain ⟨ds, h_ne, h_lt, h_value, h_text⟩ := exists_formatInt 0x30 n
  have h_digits := parseDecimal_ascii h_ne h_lt
  rw [h_value] at h_digits
  unfold decimal
  rw [toString_eq, h_text]
  by_cases h_neg : n < 0
  · rw [if_pos h_neg]
    unfold Integer.valueOf
    simp only [List.singleton_append, Option.bind_eq_bind, Option.bind_some, h_digits]
    have h_abs : -(n.natAbs : ℤ) = n := by omega
    show (if -2 ^ 31 ≤ -(n.natAbs : ℤ) ∧ -(n.natAbs : ℤ) < 2 ^ 31 then some (-(n.natAbs : ℤ))
      else none) = some n
    rw [h_abs, if_pos h_n]
  · rw [if_neg h_neg, List.nil_append]
    -- the first digit is no sign
    obtain ⟨d, ds, rfl⟩ := List.exists_cons_of_ne_nil h_ne
    have h_d := h_lt d List.mem_cons_self
    have h_sign : ∀ d < 10, UInt16.ofNat (d + 0x30) ≠ 0x2D ∧ UInt16.ofNat (d + 0x30) ≠ 0x2B := by
      decide
    obtain ⟨h_minus, h_plus⟩ := h_sign d h_d
    have h_abs : (n.natAbs : ℤ) = n := by omega
    unfold Integer.valueOf
    simp only [List.map_cons, Option.bind_eq_bind, Option.bind_some] at h_digits ⊢
    split
    · next h_eq => exact absurd (List.cons.inj h_eq).1 h_minus
    · next h_eq => exact absurd (List.cons.inj h_eq).1 h_plus
    · rw [h_digits, Option.map_some, Option.bind_some, Int.ofNat_eq_natCast, h_abs, if_pos h_n]

/-! ### Local calls -/

/-- How a method or its future has ended. -/
abbrev Ending (ω : Type) := Except Throwable (Option ω)

/-- How the request has ended, if it was invoked and has. -/
def ending (r : Request τ α ω) : Option (Ending ω) :=
  match r.status with
  | .finished (.invoked (.returns result)) => some (.ok result)
  | .finished (.invoked (.throws e)) => some (.error e)
  | .finished (.completed (.normally result)) => some (.ok result)
  | .finished (.completed (.exceptionally e)) => some (.error e)
  | _ => none

/-- How a call ends that is made on the object itself. -/
def localAnswer : Ending ω → Answer (Option ω)
  | .ok result => .returned result
  | .error e => .failed (.thrown e)

/-- The response for it. -/
def response (id : ℤ) : Ending ω → JsonRpcResponse ω
  | .ok result => ⟨BigInteger.toString 10 id, result, none⟩
  | .error e => ⟨BigInteger.toString 10 id, none,
      some ⟨JsonRpcResponse.DEFAULT_ERROR_CODE, e.message, e.className⟩⟩

/-! ### What is assumed of Jackson -/

/-- The JSON values of results, strings and errors. -/
structure Trees (ν ω : Type) where
  ofValue : ω → ν
  ofString : JavaString → ν
  ofError : Error → ν

/-- The members of a response that is written. -/
def Trees.members (trees : Trees ν ω) (response : JsonRpcResponse ω) : Document ν :=
  [⟨JSON_RPC, some (trees.ofString (.ofString "2.0"))⟩,
    ⟨ID, some (trees.ofString (response.id.flatMap JavaString.utf16))⟩,
    match response.error with
    | some error => ⟨ERROR, some (trees.ofError error)⟩
    | none => ⟨RESULT, response.result.map trees.ofValue⟩]

/-- Jackson reads what it has written. -/
structure Faithful (factory : JsonRpcFactory ν τ α ω) (trees : Trees ν ω) : Prop where
  readValue : ∀ object request text, factory.writeRequest request = some text →
    (factory.services object).readValue text = .ok (some request)
  readDocument : ∀ object response text,
    (factory.services object).writeValueAsString response = some text →
      ∃ document, factory.readDocument text = some document ∧
        document.Perm (trees.members response)
  readString : ∀ s, factory.libraries.readString (trees.ofString s) = some s
  readError : ∀ e, factory.libraries.readError (trees.ofError e) =
    some ⟨e.code, e.message, some (trees.ofString (.ofString e.data))⟩
  valueOf : ∀ s, factory.libraries.valueOf (trees.ofString s) = s

/-- The response can be written. A result is converted back, and is one of the method; an exception
can be made again, is not caught on the way, and is one of the method. -/
structure Transparent (factory : JsonRpcFactory ν τ α ω) (trees : Trees ν ω) (c : Call ν τ ω)
    (h : Handled τ α ω) (ending : Ending ω) : Prop where
  written : ∀ id, Integer.valueOf c.request.id = some id →
    ((factory.services h.object).writeValueAsString (response id ending)).isSome = true
  returned : ∀ result, ending = .ok result → ∃ cls, c.method.resultClass = some cls ∧
    factory.libraries.convertValue (result.map trees.ofValue) cls = some result ∧
      (c.method.isFuture = true ∨ c.method.accepts result = true)
  thrown : ∀ e, ending = .error e → c.method.resultClass ≠ none ∧
    factory.libraries.newInstance (.ofString e.className) e.message = .instance_ e false ∧
      (c.method.isFuture = true ∨ c.method.mayThrow (.thrown e) = true)

/-! ### Reading a response -/

section Reading

variable {factory : JsonRpcFactory ν τ α ω} {trees : Trees ν ω}

/-- Each member of a response can be read. -/
theorem isReadable_members (h : Faithful factory trees) (response : JsonRpcResponse ω) :
    ∀ m ∈ trees.members response, m.IsReadable factory.libraries := by
  intro m h_m
  unfold Trees.members at h_m
  -- the version, the id, the result and the error
  rcases List.mem_cons.mp h_m with rfl | h_m
  · refine Or.inr (Or.inr ⟨Or.inr rfl, fun v h_v => ?_⟩)
    rw [← Option.some.inj h_v, h.readString]
    rfl
  · rcases List.mem_cons.mp h_m with rfl | h_m
    · refine Or.inr (Or.inr ⟨Or.inl rfl, fun v h_v => ?_⟩)
      rw [← Option.some.inj h_v, h.readString]
      rfl
    · obtain rfl := List.mem_singleton.mp h_m
      cases response.error with
      | none => exact Or.inl rfl
      | some error =>
        refine Or.inr (Or.inl ⟨rfl, fun v h_v => ?_⟩)
        rw [← Option.some.inj h_v, h.readError]
        rfl

/-- What a response says, as it is read. -/
def Trees.content (trees : Trees ν ω) : Ending ω → Content ν
  | .ok result => .result (result.map trees.ofValue)
  | .error e => .error ⟨JsonRpcResponse.DEFAULT_ERROR_CODE, e.message,
      some (trees.ofString (.ofString e.className))⟩

/-- Only the last member says anything. -/
theorem filterMap_members (h : Faithful factory trees) (id : ℤ) (ending : Ending ω) :
    (trees.members (response id ending)).filterMap (Member.content factory.libraries) =
      [trees.content ending] := by
  have h_jsonRpc (v : Option ν) : Member.content factory.libraries ⟨JSON_RPC, v⟩ = none := by
    unfold Member.content
    rw [if_neg (show JSON_RPC ≠ RESULT by decide), if_neg (show JSON_RPC ≠ ERROR by decide)]
  have h_id (v : Option ν) : Member.content factory.libraries ⟨ID, v⟩ = none := by
    unfold Member.content
    rw [if_neg (show ID ≠ RESULT by decide), if_neg (show ID ≠ ERROR by decide)]
  unfold Trees.members
  rw [List.filterMap_cons_none (h_jsonRpc _), List.filterMap_cons_none (h_id _)]
  cases ending with
  | ok result => exact List.filterMap_cons_some (if_pos rfl)
  | error e => exact List.filterMap_cons_some (content_error (h.readError _))

/-- The response is read, whatever the order of its members. -/
theorem exists_read_response (h : Faithful factory trees) {object : ℕ} {id : ℤ}
    {ending : Ending ω} {text : JavaString}
    (h_text : (factory.services object).writeValueAsString (response id ending) = some text) :
    ∃ r, (factory.readDocument text).bind factory.libraries.readResponse = some r ∧
      r.content = trees.content ending := by
  obtain ⟨document, h_document, h_perm⟩ := h.readDocument object _ text h_text
  -- the document has these members in some order
  have h_some : (factory.libraries.readResponse document).isSome = true :=
    isSome_readResponse.mpr fun m h_m => isReadable_members h _ m (h_perm.mem_iff.mp h_m)
  obtain ⟨r, h_r⟩ := Option.isSome_iff_exists.mp h_some
  refine ⟨r, ?_, ?_⟩
  · rw [h_document]
    exact h_r
  · have h_content := h_perm.filterMap (Member.content factory.libraries)
    rw [filterMap_members h, List.perm_singleton] at h_content
    rw [content_of_readResponse h_r, h_content]
    rfl

/-- **The answer** to a call is that of the local one. -/
theorem answer_eq (h : Faithful factory trees) {c : Call ν τ ω} {h' : Handled τ α ω}
    {ending : Ending ω} (h_transparent : Transparent factory trees c h' ending) {id : ℤ}
    {text : JavaString}
    (h_text : (factory.services h'.object).writeValueAsString (response id ending) = some text) :
    factory.answer c.method text = localAnswer ending := by
  obtain ⟨r, h_r, h_content⟩ := exists_read_response h h_text
  unfold ReceivedResponse.content at h_content
  unfold JsonRpcFactory.answer JsonRpcFactory.handle
  rw [h_r]
  cases ending with
  | ok result =>
    obtain ⟨cls, h_cls, h_convert, h_accepts⟩ := h_transparent.returned result rfl
    -- the result is converted as the method says
    have h_result : r.error = none ∧ r.result = result.map trees.ofValue := by
      cases h_error : r.error with
      | none =>
        rw [h_error] at h_content
        exact ⟨rfl, Content.result.inj h_content⟩
      | some error =>
        rw [h_error] at h_content
        cases h_content
    rw [h_cls]
    dsimp only
    unfold Libraries.getResultAs
    rw [h_result.1, h_result.2]
    dsimp only
    rw [h_convert]
    exact if_pos h_accepts
  | error e =>
    obtain ⟨h_cls, h_new, h_throws⟩ := h_transparent.thrown e rfl
    obtain ⟨cls, h_cls⟩ := Option.ne_none_iff_exists'.mp h_cls
    rw [h_cls]
    dsimp only
    unfold Libraries.getResultAs
    cases h_error : r.error with
    | none =>
      rw [h_error] at h_content
      cases h_content
    -- the error is thrown as the service threw it
    | some error =>
      rw [h_error] at h_content
      obtain rfl := Content.error.inj h_content
      have h_thrown : factory.libraries.thrownFor ⟨JsonRpcResponse.DEFAULT_ERROR_CODE, e.message,
          some (trees.ofString (.ofString e.className))⟩ = .thrown e := by
        unfold Libraries.thrownFor
        dsimp only
        rw [h.valueOf, h_new]
        rfl
      dsimp only
      rw [h_thrown]
      exact congrArg Answer.failed (if_pos h_throws)

end Reading

/-! ### The calls of a run -/

/-- A call has an `int` for its number, and does not time out if it returns the future. -/
structure Call.Regular (c : Call ν τ ω) : Prop where
  id : ∃ n : ℤ, (-2 ^ 31 ≤ n ∧ n < 2 ^ 31) ∧ c.request.id = some (decimal n)
  waits : c.status = .timedOut → c.method.isFuture = false

section Run

variable {factory : JsonRpcFactory ν τ α ω} {s : State ν τ α ω}

/-- Completing keeps a call regular. -/
theorem Call.Regular.complete {c : Call ν τ ω} (h : c.Regular) {status : CallStatus (Option ω)}
    (h_status : status ≠ .timedOut) : (c.complete status).Regular := by
  have h_same := c.same_complete status
  refine ⟨h_same.request ▸ h.id, fun h_out => ?_⟩
  rw [h_same.method]
  unfold Call.complete at h_out
  cases h_c : c.status with
  | waiting =>
    rw [h_c] at h_out
    exact absurd h_out h_status
  | timedOut => exact h.waits h_c
  -- a call that is answered or refused was not waiting
  | _ =>
    rw [h_c] at h_out
    exact h.waits h_out

/-- A time-out keeps it regular. -/
theorem Call.Regular.timeOut {c : Call ν τ ω} (h : c.Regular) : c.timeOut.Regular := by
  refine ⟨c.same_timeOut.request ▸ h.id, fun h_out => ?_⟩
  rw [c.same_timeOut.method]
  unfold Call.timeOut at h_out
  split_ifs at h_out with h_future
  · exact h.waits h_out
  · exact Bool.eq_false_of_not_eq_true h_future

theorem regular_modify {calls : List (Call ν τ ω)} (h : ∀ c ∈ calls, c.Regular)
    {f : Call ν τ ω → Call ν τ ω} (h_f : ∀ c, c.Regular → (f c).Regular) (k : ℕ) :
    ∀ c ∈ calls.modify k f, c.Regular := by
  intro c h_c
  obtain ⟨j, h_j, rfl⟩ := List.mem_iff_getElem.mp h_c
  rw [List.length_modify] at h_j
  rw [List.getElem_modify]
  split_ifs
  · exact h_f _ (h _ (List.getElem_mem h_j))
  · exact h _ (List.getElem_mem h_j)

/-- The values of the counter, and the calls. -/
structure Numbered (s : State ν τ α ω) : Prop where
  id : -2 ^ 31 ≤ s.id ∧ s.id < 2 ^ 31
  calls : ∀ c ∈ s.calls, c.Regular

/-- Registering a service keeps ids in range. -/
theorem Numbered.registerService (h : Numbered s) (place : Place) (object : ℕ) :
    Numbered (s.registerService place object) := by
  unfold State.registerService
  cases (s.transports place).bind fun t => t.serve object <;> exact ⟨h.id, h.calls⟩

/-- An `int`. -/
theorem intValue_bounds (n : ℤ) :
    -2 ^ 31 ≤ BigInteger.intValue n ∧ BigInteger.intValue n < 2 ^ 31 := by
  unfold BigInteger.intValue
  rw [Int.bmod_def]
  omega

/-- A call keeps ids in range. -/
theorem Numbered.call (h : Numbered s) (place : Place) (method : ClientMethod τ (Option ω))
    (name : JavaString) (params : List ν) :
    Numbered (factory.call s place method name params) := by
  refine ⟨intValue_bounds _, fun c h_c => ?_⟩
  rcases List.mem_append.mp h_c with h_c | h_c
  · exact h.calls c h_c
  · obtain rfl := List.mem_singleton.mp h_c
    refine ⟨⟨s.id, h.id, rfl⟩, fun h_out => ?_⟩
    dsimp only at h_out
    split_ifs at h_out

/-- Taking a task does. -/
theorem Numbered.take (h : Numbered s) (place : Place) : Numbered (factory.take s place) := by
  unfold JsonRpcFactory.take
  split
  · next task rest object closed h_t =>
    refine ⟨h.id, ?_⟩
    dsimp only
    split
    · exact regular_modify h.calls (fun c h_c => h_c.complete (by simp)) _
    · exact h.calls
  · exact h

theorem Numbered.advance (h : Numbered s) (k : ℕ)
    (progress : Service ν τ α ω → Request τ α ω → Request τ α ω) :
    Numbered (factory.advance s k progress) := by
  unfold JsonRpcFactory.advance
  cases s.handled[k]? with
  | none => exact h
  | some h' =>
    refine ⟨h.id, ?_⟩
    have h_fold (texts : List JavaString) (calls : List (Call ν τ ω))
        (h_calls : ∀ c ∈ calls, c.Regular) : ∀ c ∈ texts.foldl
          (fun calls text => calls.modify h'.call (factory.resultHandler text)) calls,
            c.Regular := by
      induction texts generalizing calls with
      | nil => exact h_calls
      | cons text texts ih =>
        exact ih _ (regular_modify h_calls (fun c h_c => h_c.complete (by simp)) _)
    exact h_fold _ _ h.calls

/-- **After every run** ids are in range. -/
theorem numbered_after (inputs : List (Input ν τ ω)) : Numbered (factory.after inputs) := by
  have h_zero : -2 ^ 31 ≤ (0 : ℤ) ∧ (0 : ℤ) < 2 ^ 31 := by decide
  refine run_invariant ⟨h_zero, List.forall_mem_nil _⟩ (fun s i h => ?_) inputs
  cases i with
  -- one case for each input; most of them leave the calls
  | registerService object => exact h.registerService .root object
  | serialize object =>
    have h_derived : Numbered (State.deriveCallbackTransport
        { s with callbackId := BigInteger.intValue (s.callbackId + 1) }
          (factory.callbackAddress s.callbackId)) := ⟨h.id, h.calls⟩
    exact h_derived.registerService _ object
  | deserialize callbackAddress => exact ⟨h.id, h.calls⟩
  | call place method name params => exact h.call place method name params
  | take place => exact h.take place
  | runTask k invocation => exact h.advance k fun service => service.runTask invocation
  | complete k completion => exact h.advance k fun service => service.complete completion
  | timeOut call => exact ⟨h.id, regular_modify h.calls (fun c h_c => h_c.timeOut) _⟩
  | close => exact ⟨h.id, h.calls⟩

/-! ### The replies to an ending -/

/-- A request that has ended has one response, if it can be written. -/
theorem responses_ending {service : Service ν τ α ω} {r : Request τ α ω} {e : Ending ω}
    (h : service.Progress r) (h_ending : ending r = some e) :
    r.responses = ((service.writeValueAsString (response (service.requestId r.message) e)).map
      fun _ => response (service.requestId r.message) e).toList := by
  unfold Service.Progress at h
  unfold ending at h_ending
  split at h_ending
  -- a result, an exception of a future, or a result of one
  · next result h_r =>
    obtain rfl := Option.some.inj h_ending
    rw [h_r] at h
    rw [h.2]
    exact congrArg Option.toList (reply_value _ result)
  · next t h_r =>
    obtain rfl := Option.some.inj h_ending
    rw [h_r] at h
    rw [h.2]
    exact congrArg Option.toList (reply_error _ t)
  · next result h_r =>
    obtain rfl := Option.some.inj h_ending
    rw [h_r] at h
    rw [h.2]
    exact congrArg Option.toList (reply_value _ result)
  · next t h_r =>
    obtain rfl := Option.some.inj h_ending
    rw [h_r] at h
    rw [h.2]
    exact congrArg Option.toList (reply_error _ t)
  · cases h_ending

/-- There are no replies otherwise. -/
theorem responses_of_ending_none {service : Service ν τ α ω} {r : Request τ α ω}
    (h : service.Progress r) (h_ending : ending r = none) : r.responses = [] := by
  -- only requests that have ended without result remain
  by_cases h_status : ∃ finish, r.status = .finished finish
  · obtain ⟨finish, h_r⟩ := h_status
    unfold Service.Progress at h
    unfold ending at h_ending
    rw [h_r] at h h_ending
    cases finish with
    | consumerThrew => exact h.2
    | taskThrew => exact h.2
    | invoked invocation =>
      cases invocation with
      | returns result => cases h_ending
      | throws e => cases h_ending
      | returnsFuture isCompletionStage => exact h.2
      | refused => exact h.2
    | completed completion =>
      cases completion with
      | normally result => cases h_ending
      | exceptionally e => cases h_ending
  · exact responses_of_progress h fun finish h_r => h_status ⟨finish, h_r⟩

theorem status_of_ending {r : Request τ α ω} {e : Ending ω} (h : ending r = some e) :
    r.status ≠ .finished .consumerThrew := by
  intro h_r
  unfold ending at h
  rw [h_r] at h
  cases h

/-! ### The result -/

/-- The request was taken for an object that is registered where the call was sent to: for the
callback that is called, as long as the addresses of the callbacks do not wrap around. The task of
the request is that of the method that fits the call, with the parameters. As soon as the method or
its future has ended, the call is answered as a local one, or has timed out. -/
structure AsLocal (factory : JsonRpcFactory ν τ α ω) (trees : Trees ν ω)
    (inputs : List (Input ν τ ω)) (c : Call ν τ ω) (h : Handled τ α ω) : Prop where
  object : factory.Serves inputs h.object c.place
  callback : ∀ i object : ℕ, (callbacksIn inputs)[i]? = some object →
    c.place = .derived (factory.callbackAddress (BigInteger.intValue i)) →
      (callbacksIn inputs).length ≤ 2 ^ 32 → h.object = object
  invoked : ∀ method params,
    (factory.services h.object).Chooses c.request (factory.services h.object).methods method
      params → ∃ id, (factory.services h.object).consumer h.request.message =
        some ⟨some method, params, none, id⟩
  answered : ∀ e, ending h.request = some e → Transparent factory trees c h e →
    c.status = .answered (localAnswer e) ∨ c.status = .timedOut ∧ c.method.isFuture = false

/-- The status that an ending asks for. -/
theorem statusFor_ending {trees : Trees ν ω} (h : Faithful factory trees) {c : Call ν τ ω}
    {h' : Handled τ α ω} {e : Ending ω} (h_regular : c.Regular)
    (h_message : factory.writeRequest c.request = some h'.request.message)
    (h_progress : (factory.services h'.object).Progress h'.request)
    (h_ending : ending h'.request = some e) (h_transparent : Transparent factory trees c h' e) :
    factory.statusFor c h' = .answered (localAnswer e) := by
  -- the id is read back by the service
  obtain ⟨n, h_n, h_id⟩ := h_regular.id
  have h_valueOf : Integer.valueOf c.request.id = some n := by rw [h_id, valueOf_decimal h_n]
  have h_requestId : (factory.services h'.object).requestId h'.request.message = n := by
    unfold Service.requestId
    rw [h.readValue h'.object _ _ h_message]
    dsimp only
    rw [h_valueOf]
    rfl
  rw [statusFor_eq (status_of_ending h_ending), responses_ending h_progress h_ending, h_requestId]
  -- and its response is written
  obtain ⟨text, h_text⟩ := Option.isSome_iff_exists.mp (h_transparent.written n h_valueOf)
  rw [h_text, Option.map_some, Option.toList_some, List.filterMap_cons_some h_text]
  dsimp only
  rw [answer_eq h h_transparent h_text]

/-- **What the consumer does** with the request: it submits the task for the chosen method. -/
theorem consumer_eq {trees : Trees ν ω} (h : Faithful factory trees) {c : Call ν τ ω}
    (h_regular : c.Regular) {object : ℕ} {text : JavaString}
    (h_text : factory.writeRequest c.request = some text) {method : Method τ} {params : List α}
    (h_chooses : (factory.services object).Chooses c.request (factory.services object).methods
      method params) :
    ∃ id, (factory.services object).consumer text = some ⟨some method, params, none, id⟩ := by
  obtain ⟨n, h_n, h_id⟩ := h_regular.id
  refine ⟨n, ?_⟩
  unfold Service.consumer
  rw [h.readValue object _ _ h_text]
  dsimp only
  rw [h_id, valueOf_decimal h_n]
  dsimp only
  rw [findMethod_eq_some.mpr h_chooses]

/-- **Remote calls are local calls**, in every run, and whatever the order in which tasks are taken
and run and futures completed. The request of a call that was taken is executed as the method of the
object that is called, with its parameters, and its answer is that of the method. No call is
answered otherwise. -/
theorem remote_calls_are_local_calls (factory : JsonRpcFactory ν τ α ω) (trees : Trees ν ω)
    (h_faithful : Faithful factory trees) (inputs : List (Input ν τ ω)) (k : ℕ) (c : Call ν τ ω)
    (h_k : (factory.after inputs).calls[k]? = some c) :
    (∀ h ∈ (factory.after inputs).handled, h.call = k → AsLocal factory trees inputs c h) ∧
      ∀ answer, c.status = .answered answer → ∃ h ∈ (factory.after inputs).handled,
        h.call = k ∧ h.place = c.place ∧ ∃ e, ending h.request = some e ∧
          (Transparent factory trees c h e → answer = localAnswer e) := by
  have h_inv := @inv_after _ _ _ _ factory inputs
  have h_registered := @registered_after _ _ _ _ factory inputs
  have h_regular := (@numbered_after _ _ _ _ factory inputs).calls c (List.mem_of_getElem? h_k)
  refine ⟨fun h' h_mem h_call => ?_, fun answer h_answer => ?_⟩
  · obtain ⟨c', h_c', h_place, h_text, h_progress, h_status⟩ := h_inv.handled h' h_mem
    rw [h_call, h_k] at h_c'
    obtain rfl := Option.some.inj h_c'
    have h_serves : factory.Serves inputs h'.object c.place :=
      h_place ▸ h_registered.handled h' h_mem
    refine ⟨h_serves, fun i object h_i h_derived h_callbacks => ?_,
      fun method params h_chooses => consumer_eq h_faithful h_regular h_text h_chooses,
      fun e h_ending h_transparent => ?_⟩
    · rw [h_derived] at h_serves
      exact h_serves.eq_callback h_callbacks h_i
    rcases h_status with h_status | h_status
    · refine Or.inl (h_status.trans ?_)
      exact statusFor_ending h_faithful h_regular h_text h_progress h_ending h_transparent
    · exact Or.inr ⟨h_status, h_regular.waits h_status⟩
  · have h_taken : k ∈ (factory.after inputs).handled.map Handled.call := by
      by_contra h_not
      rcases h_inv.untaken h_k h_not with h | h | h
      all_goals exact absurd (h_answer.symm.trans h) (by simp)
    obtain ⟨h', h_mem, h_call⟩ := List.mem_map.mp h_taken
    obtain ⟨c', h_c', h_place, h_text, h_progress, h_status⟩ := h_inv.handled h' h_mem
    rw [h_call, h_k] at h_c'
    obtain rfl := Option.some.inj h_c'
    have h_for : factory.statusFor c h' = .answered answer := by
      rcases h_status with h_status | h_status
      · exact h_status.symm.trans h_answer
      · exact absurd (h_answer.symm.trans h_status) (by simp)
    refine ⟨h', h_mem, h_call, h_place.symm, ?_⟩
    cases h_ending : ending h'.request with
    | none =>
      -- there is nothing that it was answered with
      unfold JsonRpcFactory.statusFor at h_for
      rw [responses_of_ending_none h_progress h_ending, List.filterMap_nil] at h_for
      split at h_for <;> cases h_for
    | some e =>
      refine ⟨e, rfl, fun h_transparent => ?_⟩
      have h_eq := statusFor_ending h_faithful h_regular h_text h_progress h_ending h_transparent
      exact CallStatus.answered.inj (h_for.symm.trans h_eq)

end Run

/-! ### A callback -/

/-- The trees of the sample. -/
def sampleTrees : Trees SampleTree JavaString := ⟨.text, .text, .error⟩

/-- The request of the sample. -/
theorem eq_of_isApply {request : JsonRpcRequest SampleTree} (h : isApply request = true) :
    request = applyRequest := by
  unfold isApply at h
  split at h
  · next id method param =>
    rw [Bool.and_eq_true, Bool.and_eq_true, decide_eq_true_eq, decide_eq_true_eq,
      decide_eq_true_eq] at h
    rw [h.1.1, h.1.2, h.2]
    rfl
  · cases h

/-- The sample keeps its promises. -/
theorem faithful_upperCase : Faithful upperCaseFactory sampleTrees where
  readValue := by
    intro object request text h_text
    unfold upperCaseFactory at h_text
    dsimp only at h_text
    split_ifs at h_text with h_apply
    obtain rfl := Option.some.inj h_text
    obtain rfl := eq_of_isApply h_apply
    show (if APPLY_REQUEST = APPLY_REQUEST then Except.ok (some applyRequest)
      else Except.error Thrown.ioException) = _
    exact if_pos rfl
  readDocument := by
    intro object response text h_text
    unfold upperCaseFactory upperCaseService at h_text
    dsimp only at h_text
    -- one request and one response are known to it
    split_ifs at h_text with h_eq
    obtain rfl := Option.some.inj h_text
    obtain ⟨id, result, error⟩ := response
    obtain ⟨rfl, rfl, h_error⟩ := h_eq
    obtain rfl := Option.isNone_iff_eq_none.mp h_error
    have h_read : upperCaseFactory.readDocument APPLY_RESPONSE =
        some (sampleTrees.members ⟨['0'], some UPPER_WIBBLE, none⟩) := by
      unfold upperCaseFactory
      dsimp only
      rw [if_pos rfl]
      rfl
    exact ⟨_, h_read, .refl _⟩
  readString := fun _ => rfl
  readError := fun _ => rfl
  valueOf := fun _ => rfl

/-- The call of the sample. -/
def applyCall : Call SampleTree Unit JavaString :=
  ⟨.derived (.ofString "sum/0"), applyRequest, applyMethod,
    .answered (.returned (some UPPER_WIBBLE))⟩

example (h : Handled Unit JavaString JavaString) :
    Transparent upperCaseFactory sampleTrees applyCall h (.ok (some UPPER_WIBBLE)) where
  written := by
    intro id h_id
    have h_zero := @valueOf_decimal 0 (by decide)
    obtain rfl := Option.some.inj (h_zero.symm.trans h_id)
    rfl
  returned := by
    intro result h_result
    obtain rfl := Except.ok.inj h_result
    exact ⟨(), rfl, rfl, Or.inr rfl⟩
  thrown := fun _ h_e => nomatch h_e

/-- The call is answered as a local one would be. -/
theorem remote_calls_are_local_calls_upperCaseRun :
    (∀ h ∈ (upperCaseFactory.after upperCaseRun).handled, h.call = 0 →
        AsLocal upperCaseFactory sampleTrees upperCaseRun applyCall h) ∧
      ∀ answer, applyCall.status = .answered answer →
        ∃ h ∈ (upperCaseFactory.after upperCaseRun).handled, h.call = 0 ∧
          h.place = applyCall.place ∧ ∃ e, ending h.request = some e ∧
            (Transparent upperCaseFactory sampleTrees applyCall h e →
              answer = localAnswer e) :=
  remote_calls_are_local_calls upperCaseFactory sampleTrees faithful_upperCase upperCaseRun 0
    applyCall rfl

end Ethiso.Rpc.InMemory
