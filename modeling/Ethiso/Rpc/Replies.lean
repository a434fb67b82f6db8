import Ethiso.Rpc.JsonRpcFactory

/-!
# Which requests are answered

A request that is done with should have been answered once, with its id, and with an error
just in case no method of the service fits it, or the method or its future has failed
(`Answered`).

Where no method fits, the consumer puts a `NoSuchMethodError` into the task, but the task
invokes the method before it looks at it. `Method.invoke` is then called on `null`, and no
reply is sent. A message that has no integer id does not even get that far. So an unknown
method is never answered; `answered_iff` says which requests are.
-/

namespace Ethiso.Rpc

open Abi

variable {ν τ α ω : Type} (service : Service ν τ α ω)

/-! ### Answers -/

/-- The id of the request, `-1` if no integer can be read. -/
def Service.requestId (message : JavaString) : ℤ :=
  match service.readValue message with
  | .ok (some request) => (Integer.valueOf request.id).getD (-1)
  | _ => -1

/-- The method has the name and the number of parameters. -/
def JsonRpcRequest.Names (request : JsonRpcRequest ν) (method : Method τ) : Prop :=
  request.method = some method.name ∧ method.parameterTypes.length = request.params.length

/-- The parameters can be converted to those of the method. -/
def Service.Fits (request : JsonRpcRequest ν) (method : Method τ) : Prop :=
  request.Names method ∧ ∃ params,
    service.convertParams method.parameterTypes request.params = .ok params

/-- Some method fits the request. -/
def Service.Matches (message : JavaString) : Prop :=
  ∃ request, service.readValue message = .ok (some request) ∧
    ∃ method ∈ service.methods, service.Fits request method

/-- The method or its future has failed. -/
def Finish.Failed : Finish ω → Prop
  | .invoked (.throws _) => True
  | .invoked .refused => True
  | .completed (.exceptionally _) => True
  | _ => False

/-- The response handler was called once, with the right id and the right kind of response. -/
def Request.Answered (r : Request τ α ω) (finish : Finish ω) : Prop :=
  ∃ response, r.responses = [response] ∧
    response.id = BigInteger.toString 10 (service.requestId r.message) ∧
    (response.error.isSome = true ↔ ¬service.Matches r.message ∨ finish.Failed)

/-! ### The condition -/

/-- The request fits the method with these parameters. In front of the method there may be others
of the name and the number of parameters, whose parameters are rejected with an
`IllegalArgumentException`. -/
def Service.Chooses (request : JsonRpcRequest ν) (methods : List (Method τ)) (method : Method τ)
    (params : List α) : Prop :=
  ∃ others rest, methods = others ++ method :: rest ∧ request.Names method ∧
    service.convertParams method.parameterTypes request.params = .ok params ∧
    ∀ m ∈ others, request.Names m →
      service.convertParams m.parameterTypes request.params = .error .illegalArgument

/-- The message is a request with an integer id, which fits some method. -/
def Service.WellAddressed (message : JavaString) : Prop :=
  ∃ request id method params, service.readValue message = .ok (some request) ∧
    Integer.valueOf request.id = some id ∧ service.Chooses request service.methods method params

/-- Jackson can write the response that there is to write. -/
def Service.Writes (id : ℤ) : Finish ω → Prop
  | .invoked (.returns result) =>
    (service.writeValueAsString ⟨BigInteger.toString 10 id, result, none⟩).isSome = true
  | .invoked (.throws e) =>
    (service.writeValueAsString ⟨BigInteger.toString 10 id, none,
      some ⟨JsonRpcResponse.DEFAULT_ERROR_CODE, e.message, e.className⟩⟩).isSome = true
  | .completed (.normally result) =>
    (service.writeValueAsString ⟨BigInteger.toString 10 id, result, none⟩).isSome = true
  | .completed (.exceptionally e) =>
    (service.writeValueAsString ⟨BigInteger.toString 10 id, none,
      some ⟨JsonRpcResponse.DEFAULT_ERROR_CODE, e.message, e.className⟩⟩).isSome = true
  | _ => False

/-! ### The consumer -/

section Consumer

variable {service}
variable {request : JsonRpcRequest ν} {message : JavaString}

theorem chooses_nil {method : Method τ} {params : List α} :
    ¬service.Chooses request [] method params := by
  rintro ⟨others, rest, h_eq, -⟩
  exact absurd h_eq.symm (by simp)

/-- The first method is chosen, if its parameters can be converted. -/
theorem chooses_head {m method : Method τ} {methods : List (Method τ)} {params params' : List α}
    (h_names : request.Names m)
    (h_params : service.convertParams m.parameterTypes request.params = .ok params') :
    service.Chooses request (m :: methods) method params ↔ m = method ∧ params' = params := by
  refine ⟨?_, ?_⟩
  -- no method before it takes the parameters
  · rintro ⟨others, rest, h_eq, -, h_method, h_others⟩
    cases others with
    | nil =>
      obtain ⟨rfl, rfl⟩ := List.cons.inj h_eq
      exact ⟨rfl, Except.ok.inj (h_params.symm.trans h_method)⟩
    | cons m' others =>
      obtain ⟨rfl, rfl⟩ := List.cons.inj h_eq
      exact absurd (h_params.symm.trans (h_others m List.mem_cons_self h_names)) (by simp)
  · rintro ⟨rfl, rfl⟩
    exact ⟨[], methods, rfl, h_names, h_params, List.forall_mem_nil _⟩

/-- The choice is among the methods behind `m`, if `m` is passed over. -/
theorem chooses_skip {m method : Method τ} {methods : List (Method τ)} {params : List α}
    (h_skip : request.Names m →
      service.convertParams m.parameterTypes request.params = .error .illegalArgument) :
    service.Chooses request (m :: methods) method params ↔
      service.Chooses request methods method params := by
  refine ⟨?_, ?_⟩
  -- a method that does not take them is passed over
  · rintro ⟨others, rest, h_eq, h_names, h_params, h_others⟩
    cases others with
    | nil =>
      obtain ⟨rfl, rfl⟩ := List.cons.inj h_eq
      exact absurd (h_params.symm.trans (h_skip h_names)) (by simp)
    | cons m' others =>
      obtain ⟨rfl, rfl⟩ := List.cons.inj h_eq
      exact ⟨others, rest, rfl, h_names, h_params, (List.forall_mem_cons.mp h_others).2⟩
  · rintro ⟨others, rest, rfl, h_names, h_params, h_others⟩
    exact ⟨m :: others, rest, rfl, h_names, h_params,
      List.forall_mem_cons.mpr ⟨h_skip, h_others⟩⟩

/-- No method is chosen if an exception other than an `IllegalArgumentException` is first. -/
theorem not_chooses {m method : Method τ} {methods : List (Method τ)} {params : List α} {e : Thrown}
    (h_names : request.Names m)
    (h_params : service.convertParams m.parameterTypes request.params = .error e)
    (h_e : e ≠ .illegalArgument) : ¬service.Chooses request (m :: methods) method params := by
  rintro ⟨others, rest, h_eq, -, h_method, h_others⟩
  cases others with
  | nil =>
    obtain ⟨rfl, rfl⟩ := List.cons.inj h_eq
    exact absurd (h_params.symm.trans h_method) (by simp)
  | cons m' others =>
    obtain ⟨rfl, rfl⟩ := List.cons.inj h_eq
    have h_error := h_params.symm.trans (h_others m List.mem_cons_self h_names)
    exact h_e (Except.error.inj h_error)

/-- **The loop over the methods** finds the method that is chosen. -/
theorem findMethod_eq_some {methods : List (Method τ)} {method : Method τ} {params : List α} :
    service.findMethod request methods = .ok (some (method, params)) ↔
      service.Chooses request methods method params := by
  induction methods with
  | nil => exact ⟨fun h => absurd (Except.ok.inj h) (by simp), fun h => absurd h chooses_nil⟩
  | cons m methods ih =>
    unfold Service.findMethod
    cases h_method : request.method with
    | none =>
      refine ⟨fun h => absurd h (by simp [throw, throwThe, MonadExceptOf.throw]), ?_⟩
      rintro ⟨others, rest, -, h_names, -⟩
      exact absurd (h_method.symm.trans h_names.1) (by simp)
    | some name =>
      dsimp only
      -- the first method of this name that takes the parameters is chosen
      split_ifs with h_name
      · have h_names : request.Names m := ⟨h_name.1 ▸ h_method, h_name.2⟩
        cases h_params : service.convertParams m.parameterTypes request.params with
        | ok params' =>
          rw [chooses_head h_names h_params]
          simp [pure, Except.pure]
        | error e =>
          by_cases h_e : e = .illegalArgument
          · -- the loop goes on
            subst h_e
            rw [chooses_skip fun _ => h_params]
            exact ih
          · -- the exception leaves the loop
            refine ⟨fun h => ?_, fun h => absurd h (not_chooses h_names h_params h_e)⟩
            cases e with
            | illegalArgument => exact absurd rfl h_e
            | _ => exact absurd h (by simp [throw, throwThe, MonadExceptOf.throw])
      · have h_not : ¬request.Names m := fun hc =>
          h_name ⟨Option.some.inj (h_method.symm.trans hc.1), hc.2⟩
        rw [chooses_skip fun hc => absurd hc h_not]
        exact ih

/-- A task with a method is that of a well-addressed message. -/
theorem consumer_method {task : Task τ α} (h : service.consumer message = some task)
    (h_method : task.method ≠ none) :
    task.t = none ∧ task.id = service.requestId message ∧ service.WellAddressed message := by
  unfold Service.consumer at h
  unfold Service.requestId Service.WellAddressed
  -- the cases are those of the consumer; a task with a method comes of the last one only
  cases h_read : service.readValue message with
  | error e =>
    rw [h_read] at h
    dsimp only at h
    split_ifs at h
    obtain rfl := Option.some.inj h
    exact absurd rfl h_method
  | ok request =>
    rw [h_read] at h
    cases request with
    | none => exact absurd h (by simp)
    | some request =>
      dsimp only at h ⊢
      cases h_id : Integer.valueOf request.id with
      -- the consumer throws
      | none => exact absurd (h_id ▸ h) (by simp)
      | some id =>
        rw [h_id] at h
        cases h_find : service.findMethod request service.methods with
        | error e =>
          rw [h_find] at h
          dsimp only at h
          split_ifs at h
          obtain rfl := Option.some.inj h
          exact absurd rfl h_method
        | ok found =>
          rw [h_find] at h
          cases found with
          | none =>
            obtain rfl := Option.some.inj h
            exact absurd rfl h_method
          | some found =>
            obtain rfl := Option.some.inj h
            exact ⟨rfl, rfl, request, id, found.1, found.2, rfl, h_id,
              findMethod_eq_some.mp h_find⟩

/-- A well-addressed message is submitted with its method. -/
theorem consumer_of_wellAddressed (h : service.WellAddressed message) :
    ∃ task, service.consumer message = some task ∧ task.method ≠ none := by
  obtain ⟨request, id, method, params, h_read, h_id, h_chooses⟩ := h
  refine ⟨⟨some method, params, none, id⟩, ?_, by simp⟩
  unfold Service.consumer
  rw [h_read]
  dsimp only
  rw [h_id]
  dsimp only
  rw [findMethod_eq_some.mpr h_chooses]

/-- What is addressed well is matched. -/
theorem matches_of_wellAddressed (h : service.WellAddressed message) : service.Matches message := by
  obtain ⟨request, id, method, params, h_read, -, others, rest, h_eq, h_names, h_params, -⟩ := h
  refine ⟨request, h_read, method, ?_, h_names, params, h_params⟩
  rw [h_eq]
  exact List.mem_append_right _ List.mem_cons_self

end Consumer

/-! ### Progress -/

/-- The calls of the response handler after the task or the continuation has ended. -/
def Service.responses (id : ℤ) : Finish ω → List (JsonRpcResponse ω)
  | .invoked (.returns result) => (service.reply id result none).toList
  | .invoked (.throws e) => (service.reply id none (some e)).toList
  | .completed (.normally result) => (service.reply id result none).toList
  | .completed (.exceptionally e) => (service.reply id none (some e)).toList
  | _ => []

/-- How far the request is: a task with a method leads to an invocation and its responses, any
other end of the request to none. -/
def Service.Progress (r : Request τ α ω) : Prop :=
  match r.status with
  | .submitted task => service.consumer r.message = some task ∧ r.responses = []
  | .awaiting task =>
    service.consumer r.message = some task ∧ task.method ≠ none ∧ r.responses = []
  | .finished .consumerThrew => service.consumer r.message = none ∧ r.responses = []
  | .finished .taskThrew =>
    (∃ task, service.consumer r.message = some task ∧ task.method = none) ∧ r.responses = []
  | .finished finish => service.WellAddressed r.message ∧
    r.responses = service.responses (service.requestId r.message) finish

section Progress

variable {service}
variable {r : Request τ α ω}

/-- A request that is delivered makes progress. -/
theorem progress_deliver (message : JavaString) :
    service.Progress (service.deliver message : Request τ α ω) := by
  unfold Service.deliver
  cases h : service.consumer message with
  | none => exact ⟨h, rfl⟩
  | some task => exact ⟨h, rfl⟩

theorem progress_runTask (h : service.Progress r) (invocation : Invocation ω) :
    service.Progress (service.runTask invocation r) := by
  obtain ⟨message, status, responses⟩ := r
  unfold Service.runTask
  cases status with
  | awaiting task => exact h
  | finished finish => exact h
  | submitted task =>
    obtain ⟨h_consumer, h_responses⟩ := h
    dsimp only at h_consumer h_responses ⊢
    cases h_method : task.method with
    -- `invoke` is called on `null`
    | none => exact ⟨⟨task, h_consumer, h_method⟩, h_responses⟩
    | some method =>
      have h_some : task.method ≠ none := by simp [h_method]
      obtain ⟨h_t, h_id, h_addressed⟩ := consumer_method h_consumer h_some
      subst h_responses
      cases invocation with
      | returns result =>
        refine ⟨h_addressed, ?_⟩
        rw [h_t, h_id]
        rfl
      | throws e =>
        refine ⟨h_addressed, ?_⟩
        rw [h_t, h_id]
        rfl
      | refused => exact ⟨h_addressed, rfl⟩
      | returnsFuture isCompletionStage =>
        cases isCompletionStage with
        | true => exact ⟨h_consumer, h_some, rfl⟩
        | false => exact ⟨h_addressed, rfl⟩

theorem progress_complete (h : service.Progress r) (completion : Completion ω) :
    service.Progress (service.complete completion r) := by
  obtain ⟨message, status, responses⟩ := r
  unfold Service.complete
  cases status with
  -- only a request that waits for its future has a continuation
  | submitted task => exact h
  | finished finish => exact h
  | awaiting task =>
    obtain ⟨h_consumer, h_some, h_responses⟩ := h
    obtain ⟨h_t, h_id, h_addressed⟩ := consumer_method h_consumer h_some
    dsimp only at h_responses h_id
    subst h_responses
    cases completion with
    | normally result =>
      refine ⟨h_addressed, ?_⟩
      dsimp only
      rw [h_t, h_id]
      rfl
    | exceptionally e =>
      refine ⟨h_addressed, ?_⟩
      dsimp only
      rw [h_t, h_id]
      rfl

/-- **After every run** all requests have made progress. -/
theorem progress_after (inputs : List (Input ω)) :
    ∀ r ∈ (service.after inputs : List (Request τ α ω)), service.Progress r := by
  refine @run_invariant _ _ _ _ (fun rs : List (Request τ α ω) => ∀ r ∈ rs, service.Progress r)
    (List.forall_mem_nil _) ?_ inputs
  intro requests i h_all
  -- one request is changed, the others stay
  have h_modify {f : Request τ α ω → Request τ α ω} {k : ℕ}
      (h_f : ∀ r, service.Progress r → service.Progress (f r)) :
      ∀ r ∈ requests.modify k f, service.Progress r := by
    intro r h_r
    obtain ⟨j, h_j, rfl⟩ := List.mem_iff_getElem.mp h_r
    rw [List.getElem_modify]
    split_ifs
    · exact h_f _ (h_all _ (List.getElem_mem _))
    · exact h_all _ (List.getElem_mem _)
  cases i with
  | deliver message =>
    intro r h_r
    rcases List.mem_append.mp h_r with h_r | h_r
    · exact h_all r h_r
    · rw [List.mem_singleton.mp h_r]
      exact progress_deliver message
  | runTask k invocation => exact h_modify fun r h => progress_runTask h invocation
  | complete k completion => exact h_modify fun r h => progress_complete h completion

end Progress

/-! ### The result -/

section Result

variable {service}

/-- A reply is one response, if it can be written. -/
theorem reply_eq {id : ℤ} {value : Option ω} {e : Option Throwable} {response : JsonRpcResponse ω}
    (h : JsonRpcResponse.new id value e = some response) :
    service.reply id value e = (service.writeValueAsString response).map fun _ => response := by
  unfold Service.reply
  rw [h]
  show (service.writeValueAsString response).bind (fun _ => some response) = _
  cases service.writeValueAsString response <;> rfl

/-- A reply with a result. -/
theorem reply_value (id : ℤ) (result : Option ω) :
    service.reply id result none =
      (service.writeValueAsString ⟨BigInteger.toString 10 id, result, none⟩).map
        fun _ => ⟨BigInteger.toString 10 id, result, none⟩ := by
  cases result with
  | none => exact reply_eq rfl
  | some result => exact reply_eq rfl

/-- A reply with an error. -/
theorem reply_error (id : ℤ) (e : Throwable) :
    service.reply id none (some e) =
      (service.writeValueAsString ⟨BigInteger.toString 10 id, none,
        some ⟨JsonRpcResponse.DEFAULT_ERROR_CODE, e.message, e.className⟩⟩).map
          fun _ => ⟨BigInteger.toString 10 id, none,
            some ⟨JsonRpcResponse.DEFAULT_ERROR_CODE, e.message, e.className⟩⟩ :=
  reply_eq rfl

/-- A response is sent, once, if it can be written. -/
theorem exists_sent {text : Option JavaString} {response : JsonRpcResponse ω}
    {P : JsonRpcResponse ω → Prop} (h : P response) :
    (∃ r, (text.map fun _ => response).toList = [r] ∧ P r) ↔ text.isSome = true := by
  cases text with
  | none => simp
  | some text => simpa using h

/-- What is sent is one response of the right kind, if it can be written. -/
theorem responses_iff {id : ℤ} {finish : Finish ω} :
    (∃ response, service.responses id finish = [response] ∧
      response.id = BigInteger.toString 10 id ∧
        (response.error.isSome = true ↔ finish.Failed)) ↔ service.Writes id finish := by
  -- nothing is sent unless there is an outcome
  have h_nothing {P : JsonRpcResponse ω → Prop} :
      (∃ r, ([] : List (JsonRpcResponse ω)) = [r] ∧ P r) ↔ False := by simp
  cases finish with
  | consumerThrew => exact h_nothing
  | taskThrew => exact h_nothing
  | invoked invocation =>
    cases invocation with
    | returns result =>
      show (∃ r, (service.reply id result none).toList = [r] ∧ _) ↔ _
      rw [reply_value]
      exact exists_sent ⟨rfl, by simp [Finish.Failed]⟩
    | throws e =>
      show (∃ r, (service.reply id none (some e)).toList = [r] ∧ _) ↔ _
      rw [reply_error]
      exact exists_sent ⟨rfl, by simp [Finish.Failed]⟩
    | returnsFuture isCompletionStage => exact h_nothing
    | refused => exact h_nothing
  | completed completion =>
    cases completion with
    | normally result =>
      show (∃ r, (service.reply id result none).toList = [r] ∧ _) ↔ _
      rw [reply_value]
      exact exists_sent ⟨rfl, by simp [Finish.Failed]⟩
    | exceptionally e =>
      show (∃ r, (service.reply id none (some e)).toList = [r] ∧ _) ↔ _
      rw [reply_error]
      exact exists_sent ⟨rfl, by simp [Finish.Failed]⟩

end Result

/-- **Which requests are answered.** Whatever messages are delivered and in whatever order tasks
are run and futures completed, a request that is done with was answered, once and rightly, if
and only if its message is well addressed and there is a response that can be written. -/
theorem answered_iff (inputs : List (Input ω)) (r : Request τ α ω) (h : r ∈ service.after inputs)
    (finish : Finish ω) (h_finish : r.status = .finished finish) :
    r.Answered service finish ↔
      service.WellAddressed r.message ∧ service.Writes (service.requestId r.message) finish := by
  have h_progress := progress_after inputs r h
  unfold Service.Progress at h_progress
  rw [h_finish] at h_progress
  unfold Request.Answered
  by_cases h_addressed : service.WellAddressed r.message
  · have h_failed : ¬service.Matches r.message ∨ finish.Failed ↔ finish.Failed :=
      or_iff_right (not_not_intro (matches_of_wellAddressed h_addressed))
    obtain ⟨task, h_task, h_method⟩ := consumer_of_wellAddressed h_addressed
    rw [and_iff_right h_addressed, ← responses_iff]
    simp only [h_failed]
    -- a well-addressed message is submitted with a method, and its method is invoked
    cases finish with
    | consumerThrew => exact absurd (h_task.symm.trans h_progress.1) (by simp)
    | taskThrew =>
      obtain ⟨⟨task', h_task', h_none⟩, -⟩ := h_progress
      obtain rfl := Option.some.inj (h_task.symm.trans h_task')
      exact absurd h_none h_method
    | invoked invocation => rw [h_progress.2]
    | completed completion => rw [h_progress.2]
  · -- there is no task with a method, so there is no response
    have h_none : r.responses = [] := by
      cases finish with
      | consumerThrew => exact h_progress.2
      | taskThrew => exact h_progress.2
      | invoked invocation => exact absurd h_progress.1 h_addressed
      | completed completion => exact absurd h_progress.1 h_addressed
    rw [h_none]
    simp [h_addressed]

/-! ### A service with one method -/

/-- A request. -/
def PING : JavaString := .ofString "\x7b\"id\":\"7\",\"method\":\"ping\"\x7d"

/-- A request that names no method. -/
def PONG : JavaString := .ofString "\x7b\"id\":\"8\",\"method\":\"pong\"\x7d"

/-- An interface with the method `void ping()`; of Jackson, what is needed to call it. -/
def pingService : Service Empty Empty Empty Empty where
  methods := [⟨.ofString "ping", []⟩]
  readValue message :=
    if message = PING then .ok (some ⟨some (.ofString "7"), some (.ofString "ping"), []⟩)
    else if message = PONG then .ok (some ⟨some (.ofString "8"), some (.ofString "pong"), []⟩)
    else .error .ioException
  convertValue _ type := nomatch type
  writeValueAsString response :=
    if response.error.isSome then none
    else some (.ofString ("\x7b\"jsonrpc\":\"2.0\",\"id\":\"" ++ String.ofList response.id ++
      "\",\"result\":null\x7d"))

/-- The request is answered. -/
theorem answered_ping :
    (⟨PING, .finished (.invoked (.returns none)), [⟨['7'], none, none⟩]⟩ :
      Request Empty Empty Empty).Answered pingService (.invoked (.returns none)) := by
  have h_names : (⟨some (.ofString "7"), some (.ofString "ping"), []⟩ :
      JsonRpcRequest Empty).Names (⟨.ofString "ping", []⟩ : Method Empty) := ⟨rfl, rfl⟩
  have h_id : Integer.valueOf (some (.ofString "7")) = some 7 := by decide +kernel
  have h_read : pingService.readValue PING =
      .ok (some ⟨some (.ofString "7"), some (.ofString "ping"), []⟩) := by
    simp only [pingService, if_true]
  have h_addressed : pingService.WellAddressed PING :=
    ⟨_, 7, _, [], h_read, h_id, [], [], rfl, h_names, rfl, List.forall_mem_nil _⟩
  exact (answered_iff pingService [.deliver PING, .runTask 0 (.returns none)] _
    (List.mem_singleton.mpr rfl) _ rfl).mpr ⟨h_addressed, rfl⟩

/-- A call of `pong()` is not answered. -/
theorem not_answered_pong :
    ∃ r ∈ (pingService.after [.deliver PONG, .runTask 0 (.returns none)] :
        List (Request Empty Empty Empty)),
      r.status = .finished .taskThrew ∧ ¬r.Answered pingService .taskThrew := by
  refine ⟨⟨PONG, .finished .taskThrew, []⟩, List.mem_singleton.mpr rfl, rfl, ?_⟩
  rintro ⟨response, h_responses, -⟩
  exact absurd h_responses (by simp)

end Ethiso.Rpc
