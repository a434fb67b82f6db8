import Ethiso.Framework.Custody
import Ethiso.Rpc.RabbitMQ

/-!
# Clients that share a service

Clients with the same key send to the same queue and take their replies from the same queue,
and their correlation ids and callback addresses are counted from 0 in each of them. A reply
can reach another client that waits for a request with the same correlation id, and an
invocation another listener with the same address.

`isolated_of_unambiguous` says that nothing else goes wrong: if no request is sent while a
request with the same correlation id waits on the same queue, and no listener is registered
under an address that is in use, then each reply is handed to the handler of its request and
each invocation reaches its listener, whatever the broker does.
-/

namespace Ethiso.RabbitMQ

open Abi List

/-! ### Isolation and the condition -/

/-- Each reply was handed to the handler of the request that it answers, and each invocation
reached the listener that it was for. -/
structure Isolated (s : State) : Prop where
  handed : ∀ p ∈ s.handed, p.1 = p.2
  invoked : ∀ p ∈ s.invoked, p.1 = p.2

namespace State

/-- The requests that are under way, or their replies. -/
def inFlight (s : State) : List ℕ :=
  s.messages.map (fun m => m.request) ++ s.received.map fun p => p.request

end State

/-- The correlation id of a request that is sent belongs to no request that waits for a reply on
the same queue. Of the requests of the transport itself it may belong to one that is not under
way any more. The address of a listener that is passed on is new. -/
def Unambiguous (s : State) : Input → Prop
  | .send t callback => ∀ transport, s.transports[t]? = some transport →
    (∀ (t' : ℕ) (transport' : Transport) (r : ℕ), s.transports[t']? = some transport' →
      transport'.key = transport.key →
      transport'.resultHandlers transport.correlationId = some r → t' = t ∧ r ∉ s.inFlight) ∧
    (callback = true → transport.registration = none →
      transport.callbackAddress ∉ s.consumers)
  | .deliver _ _ | .reply _ => True

/-! ### The invariant -/

/-- A transport of this key waits for a reply to the request under the correlation id. -/
def Waits (transports : List Transport) (key : Key) (correlationId : List Char) (r : ℕ) : Prop :=
  ∃ (t : ℕ) (transport : Transport), transports[t]? = some transport ∧ transport.key = key ∧
    transport.resultHandlers correlationId = some r

/-- What is known of a message: a transport waits for the reply, an invocation is on the queue
of its listener, and a callback address is that of its listener. -/
structure Addressed (s : State) (m : Message) : Prop where
  waits : ∃ key, Waits s.transports key m.correlationId m.request ∧
    (m.queue = key ++ OUT_SUFFIX ∨ m.queue = key ++ IN_SUFFIX)
  invokes : ∀ l, m.invokes = some l → ∃ key, s.consumers[l]? = some key ∧
    m.queue = key ++ OUT_SUFFIX
  callback : ∀ c, m.callback = some c → s.consumers[c.2]? = some c.1

/-- Two transports of one key do not wait under the same correlation id. -/
def Unique (transports : List Transport) : Prop :=
  ∀ (t t' : ℕ) (transport transport' : Transport) (c : List Char) (r r' : ℕ),
    transports[t]? = some transport → transports[t']? = some transport' →
    transport.key = transport'.key → transport.resultHandlers c = some r →
    transport'.resultHandlers c = some r' → t = t'

/-- The invariant of the runs without ambiguous requests and addresses. -/
structure Inv (s : State) : Prop where
  isolated : Isolated s
  /-- A request is under way once. -/
  inFlight_nodup : s.inFlight.Nodup
  inFlight_lt : ∀ r ∈ s.inFlight, r < s.requests.length
  messages : ∀ m ∈ s.messages, Addressed s m
  /-- A transport with the key of the service waits for the reply. -/
  received : ∀ p ∈ s.received, ∃ key, s.consumers[p.consumer]? = some key ∧
    Waits s.transports key p.correlationId p.request
  unique : Unique s.transports
  /-- No two services have the same key. -/
  consumers_nodup : s.consumers.Nodup
  /-- A transport that was derived from a callback address has the key of the listener. -/
  registered : ∀ transport ∈ s.transports, ∀ l, transport.registration = some l →
    s.consumers[l]? = some transport.key

/-! ### Lemmas on the parts of the state -/

/-- The suffix of requests tells keys apart. -/
theorem outSuffix_inj {k k' : Key} : k ++ OUT_SUFFIX = k' ++ OUT_SUFFIX ↔ k = k' :=
  List.append_left_inj _

theorem inSuffix_inj {k k' : Key} : k ++ IN_SUFFIX = k' ++ IN_SUFFIX ↔ k = k' :=
  List.append_left_inj _

/-- Requests and replies are on different queues. -/
theorem outSuffix_ne_inSuffix (k k' : Key) : k ++ OUT_SUFFIX ≠ k' ++ IN_SUFFIX := by
  intro h
  have h_last := congrArg List.getLast? h
  rw [List.getLast?_append, List.getLast?_append] at h_last
  have h_char : some 't' = some 'n' := h_last
  simp at h_char

/-- What waits goes on waiting when transports are added. -/
theorem Waits.append {transports : List Transport} {key c r} (h : Waits transports key c r)
    (l : List Transport) : Waits (transports ++ l) key c r := by
  obtain ⟨t, transport, h_t, h⟩ := h
  exact ⟨t, transport, by rw [List.getElem?_append_left (List.getElem?_eq_some_iff.mp h_t).1, h_t],
    h⟩

/-- A transport that takes the place of another one keeps the waits of this one that its handlers
keep. -/
theorem Waits.set {transports : List Transport} {key c r} (h : Waits transports key c r)
    {t : ℕ} {old new : Transport} (h_t : transports[t]? = some old) (h_key : new.key = old.key)
    (h_new : old.key = key → old.resultHandlers c = some r → new.resultHandlers c = some r) :
    Waits (transports.set t new) key c r := by
  obtain ⟨t', transport, h_t', rfl, h_r⟩ := h
  by_cases h_eq : t = t'
  · subst h_eq
    obtain rfl : old = transport := Option.some.inj (h_t.symm.trans h_t')
    refine ⟨t, new, ?_, h_key, h_new rfl h_r⟩
    rw [List.getElem?_set_self (List.getElem?_eq_some_iff.mp h_t).1]
  · exact ⟨t', transport, by rw [List.getElem?_set_ne h_eq, h_t'], rfl, h_r⟩

/-- One handler is replaced, and requests still wait in one place. -/
theorem Unique.set {transports : List Transport} (h : Unique transports) {t : ℕ}
    {old new : Transport} (h_t : transports[t]? = some old) (h_key : new.key = old.key)
    (h_new : ∀ (t' : ℕ) (transport : Transport) (c : List Char) (r r' : ℕ),
      transports[t']? = some transport → transport.key = old.key →
      new.resultHandlers c = some r → transport.resultHandlers c = some r' → t' = t) :
    Unique (transports.set t new) := by
  have h_self : (transports.set t new)[t]? = some new :=
    List.getElem?_set_self (List.getElem?_eq_some_iff.mp h_t).1
  intro t₁ t₂ transport₁ transport₂ c r₁ r₂ h₁ h₂ h_keys h_r₁ h_r₂
  -- each of the two is the new transport or an old one
  by_cases h_t₁ : t = t₁ <;> by_cases h_t₂ : t = t₂
  · exact h_t₁.symm.trans h_t₂
  · subst h_t₁
    obtain rfl : new = transport₁ := Option.some.inj (h_self.symm.trans h₁)
    rw [List.getElem?_set_ne h_t₂] at h₂
    exact (h_new t₂ transport₂ c r₁ r₂ h₂ (h_keys.symm.trans h_key) h_r₁ h_r₂).symm
  · subst h_t₂
    obtain rfl : new = transport₂ := Option.some.inj (h_self.symm.trans h₂)
    rw [List.getElem?_set_ne h_t₁] at h₁
    exact h_new t₁ transport₁ c r₂ r₁ h₁ (h_keys.trans h_key) h_r₂ h_r₁
  · rw [List.getElem?_set_ne h_t₁] at h₁
    rw [List.getElem?_set_ne h_t₂] at h₂
    exact h t₁ t₂ transport₁ transport₂ c r₁ r₂ h₁ h₂ h_keys h_r₁ h_r₂

/-- New transports wait for nothing. -/
theorem Unique.append {transports l : List Transport} (h : Unique transports)
    (h_l : ∀ transport ∈ l, ∀ c, transport.resultHandlers c = none) : Unique (transports ++ l) := by
  -- the new transports wait for nothing
  have h_old : ∀ (t : ℕ) (transport : Transport) (c : List Char) (r : ℕ),
      (transports ++ l)[t]? = some transport → transport.resultHandlers c = some r →
      transports[t]? = some transport := by
    intro t transport c r h_t h_r
    by_cases h_lt : t < transports.length
    · rwa [List.getElem?_append_left h_lt] at h_t
    · rw [List.getElem?_append_right (Nat.le_of_not_lt h_lt)] at h_t
      rw [h_l transport (List.mem_of_getElem? h_t) c] at h_r
      cases h_r
  intro t₁ t₂ transport₁ transport₂ c r₁ r₂ h₁ h₂ h_keys h_r₁ h_r₂
  exact h t₁ t₂ transport₁ transport₂ c r₁ r₂ (h_old _ _ _ _ h₁ h_r₁) (h_old _ _ _ _ h₂ h_r₂)
    h_keys h_r₁ h_r₂

/-- What was addressed stays so. -/
theorem Addressed.imp {s s' : State} {m : Message} (h : Addressed s m)
    (h_waits : ∀ key, Waits s.transports key m.correlationId m.request →
      Waits s'.transports key m.correlationId m.request)
    (h_consumers : ∀ (j : ℕ) key, s.consumers[j]? = some key → s'.consumers[j]? = some key) :
    Addressed s' m where
  waits := by
    obtain ⟨key, h_key, h_queue⟩ := h.waits
    exact ⟨key, h_waits key h_key, h_queue⟩
  invokes l h_l := by
    obtain ⟨key, h_key, h_queue⟩ := h.invokes l h_l
    exact ⟨key, h_consumers l key h_key, h_queue⟩
  callback c h_c := h_consumers c.2 c.1 (h.callback c h_c)

theorem mem_inFlight_of_message {s : State} {m : Message} (h : m ∈ s.messages) :
    m.request ∈ s.inFlight :=
  List.mem_append_left _ (List.mem_map_of_mem h)

theorem mem_inFlight_of_received {s : State} {p : Received} (h : p ∈ s.received) :
    p.request ∈ s.inFlight :=
  List.mem_append_right _ (List.mem_map_of_mem h)

/-! ### Sending -/

section Send

variable {s : State} {t : ℕ} {callback : Bool} {transport : Transport}

/-- A request that is under way keeps its handler. -/
theorem waits_send (h_i : Unambiguous s (.send t callback)) (key : Key) (c : List Char) (r : ℕ)
    (h_r : r ∈ s.inFlight) (h : Waits s.transports key c r) :
    Waits (s.send t callback).transports key c r := by
  -- the transport waits for what it waited for, and for this request
  cases h_t : s.transports[t]? with
  | none =>
    simp only [State.send, h_t]
    exact h
  | some transport =>
    simp only [State.send, h_t]
    refine h.set h_t rfl fun h_key h_c => ?_
    by_cases h_eq : c = transport.correlationId
    · subst h_eq
      exact absurd h_r ((h_i transport h_t).1 t transport r h_t rfl h_c).2
    · rw [← h_c]
      exact Function.update_of_ne h_eq _ _

/-- Sending removes no consumer. -/
theorem consumers_send (j : ℕ) (key : Key) (h : s.consumers[j]? = some key) :
    (s.send t callback).consumers[j]? = some key := by
  unfold State.send
  split
  · exact h
  · show (if _ then _ else _ : List Key)[j]? = some key
    split
    · rw [List.getElem?_append_left (List.getElem?_eq_some_iff.mp h).1, h]
    · exact h

/-- The transport waits for the request that it has sent. -/
theorem waits_send_self (h_t : s.transports[t]? = some transport) :
    Waits (s.send t callback).transports transport.key transport.correlationId
      s.requests.length := by
  simp only [State.send, h_t]
  refine ⟨t, _, List.getElem?_set_self (List.getElem?_eq_some_iff.mp h_t).1, rfl, ?_⟩
  exact Function.update_self _ _ _

/-- **A send** keeps requests waiting in one place, if its id is not in use. -/
theorem unique_send (h : Unique s.transports) (h_i : Unambiguous s (.send t callback)) :
    Unique (s.send t callback).transports := by
  cases h_t : s.transports[t]? with
  | none =>
    simp only [State.send, h_t]
    exact h
  | some transport =>
    simp only [State.send, h_t]
    refine h.set h_t rfl fun t' transport' c r r' h_t' h_key h_r h_r' => ?_
    -- the new id, or an old one
    by_cases h_eq : c = transport.correlationId
    · subst h_eq
      exact ((h_i transport h_t).1 t' transport' r' h_t' h_key h_r').1
    · apply h t' t transport' transport c r' r h_t' h_t h_key h_r'
      rw [← h_r]
      exact (Function.update_of_ne h_eq _ _).symm

/-- One more request is in flight. -/
theorem inFlight_send (h_t : s.transports[t]? = some transport) :
    (s.send t callback).inFlight.Perm (s.requests.length :: s.inFlight) := by
  simp only [State.send, h_t, State.inFlight, List.map_append, List.map_cons, List.map_nil,
    List.append_assoc, List.singleton_append]
  exact List.perm_middle

/-- A send keeps the invariant. -/
theorem Inv.send (h : Inv s) (h_i : Unambiguous s (.send t callback)) :
    Inv (s.send t callback) := by
  cases h_t : s.transports[t]? with
  | none =>
    simp only [State.send, h_t]
    exact h
  | some transport =>
    have h_mem : transport ∈ s.transports := List.mem_of_getElem? h_t
    have h_perm := @inFlight_send s t callback transport h_t
    have h_requests : (s.send t callback).requests.length = s.requests.length + 1 := by
      simp [State.send, h_t]
    refine ⟨?_, ?_, ?_, ?_, ?_, unique_send h.unique h_i, ?_, ?_⟩
    · simp only [State.send, h_t]
      exact ⟨h.isolated.handed, h.isolated.invoked⟩
    · -- the number of the request is new
      rw [h_perm.nodup_iff]
      refine List.nodup_cons.mpr ⟨fun h_in => ?_, h.inFlight_nodup⟩
      exact absurd (h.inFlight_lt _ h_in) (Nat.lt_irrefl _)
    · intro r h_r
      rw [h_requests]
      rcases List.mem_cons.mp (h_perm.mem_iff.mp h_r) with rfl | h_r
      · exact Nat.lt_succ_self _
      · exact Nat.lt_succ_of_lt (h.inFlight_lt r h_r)
    · intro m h_m
      have h_m' : m ∈ s.messages ∨ m = ⟨transport.key ++ OUT_SUFFIX, transport.correlationId,
          s.requests.length, transport.registration,
          if callback && transport.registration.isNone then
            some (transport.callbackAddress, s.consumers.length) else none⟩ := by
        simpa only [State.send, h_t, List.mem_append, List.mem_singleton] using h_m
      rcases h_m' with h_m | rfl
      · -- no handler of a request that is under way is replaced
        refine (h.messages m h_m).imp (fun key => ?_) consumers_send
        exact waits_send h_i key _ _ (mem_inFlight_of_message h_m)
      · refine ⟨⟨transport.key, waits_send_self h_t, Or.inl rfl⟩, fun l h_l => ?_, fun c h_c => ?_⟩
        · exact ⟨transport.key, consumers_send l _ (h.registered transport h_mem l h_l), rfl⟩
        · dsimp only at h_c
          split at h_c
          · next h_callback =>
            cases h_c
            simp [State.send, h_t, h_callback]
          · cases h_c
    · intro p h_p
      have h_p' : p ∈ s.received := by
        simpa only [State.send, h_t] using h_p
      obtain ⟨key, h_key, h_w⟩ := h.received p h_p'
      exact ⟨key, consumers_send _ _ h_key,
        waits_send h_i key _ _ (mem_inFlight_of_received h_p') h_w⟩
    · simp only [State.send, h_t]
      split
      · next h_callback =>
        -- the address that is passed on is not in use
        obtain ⟨rfl, h_none⟩ := Bool.and_eq_true_iff.mp h_callback
        refine List.nodup_append.mpr ⟨h.consumers_nodup, List.nodup_singleton _, ?_⟩
        rintro key h_key _ h_eq rfl
        rw [List.mem_singleton.mp h_eq] at h_key
        exact (h_i transport h_t).2 rfl (Option.isNone_iff_eq_none.mp h_none) h_key
      · exact h.consumers_nodup
    · intro transport' h_transport' l h_l
      apply consumers_send l _
      simp only [State.send, h_t] at h_transport'
      -- the transport keeps its key and its registration
      rcases List.mem_or_eq_of_mem_set h_transport' with h_old | rfl
      · exact h.registered transport' h_old l h_l
      · exact h.registered transport h_mem l h_l

end Send

/-! ### Delivering a request -/

section Deliver

variable {s : State} {m : ℕ} {message : Message}

/-- A message that has left its queue. -/
theorem inFlight_eraseIdx (h_m : s.messages[m]? = some message) :
    s.inFlight.Perm (message.request :: { s with messages := s.messages.eraseIdx m }.inFlight) :=
  ((perm_cons_eraseIdx h_m).map _).append_right _

/-- A request that is handled is still in flight, now as received. -/
theorem inFlight_handleRequest (s : State) (j : ℕ) (message : Message) :
    (s.handleRequest j message).inFlight.Perm (message.request :: s.inFlight) := by
  unfold State.inFlight State.handleRequest
  calc s.messages.map (fun m => m.request) ++
        (s.received ++ [Received.mk j message.correlationId message.request]).map
          (fun p => p.request)
      = (s.messages.map (fun m => m.request) ++ s.received.map fun p => p.request) ++
          [message.request] := by
        rw [List.map_append, ← List.append_assoc]
        rfl
    _ ~ message.request ::
          (s.messages.map (fun m => m.request) ++ s.received.map fun p => p.request) :=
        List.perm_append_singleton _ _

/-- A consumer of the queue of a request has the key of the transport that waits for it, and is
the listener that the request invokes, if it does. -/
theorem Addressed.consumer (h : Addressed s message) (h_nodup : s.consumers.Nodup) {j : ℕ}
    {key : Key} (h_j : s.consumers[j]? = some key) (h_queue : key ++ OUT_SUFFIX = message.queue) :
    Waits s.transports key message.correlationId message.request ∧
      ∀ l, message.invokes = some l → l = j := by
  refine ⟨?_, ?_⟩
  -- the queue is one for requests, so the message is one
  · obtain ⟨key', h_w, h_out | h_in⟩ := h.waits
    · obtain rfl : key = key' := outSuffix_inj.mp (h_queue.trans h_out)
      exact h_w
    · exact absurd (h_queue.trans h_in) (outSuffix_ne_inSuffix key key')
  -- the listener's consumer is the one that takes it
  · intro l h_l
    obtain ⟨key', h_l, h_out⟩ := h.invokes l h_l
    obtain rfl : key = key' := outSuffix_inj.mp (h_queue.trans h_out)
    obtain ⟨h_lt, h_l⟩ := List.getElem?_eq_some_iff.mp h_l
    obtain ⟨h_lt', h_j⟩ := List.getElem?_eq_some_iff.mp h_j
    exact (h_nodup.getElem_inj_iff).mp (h_l.trans h_j.symm)

/-- A delivery to a consumer keeps the invariant. -/
theorem Inv.handleRequest (h : Inv s) (h_m : s.messages[m]? = some message) {j : ℕ} {key : Key}
    (h_j : s.consumers[j]? = some key) (h_queue : key ++ OUT_SUFFIX = message.queue) :
    Inv ({ s with messages := s.messages.eraseIdx m }.handleRequest j message) := by
  have h_message := h.messages message (List.mem_of_getElem? h_m)
  obtain ⟨h_waits, h_invokes⟩ := h_message.consumer h.consumers_nodup h_j h_queue
  have h_perm := (inFlight_handleRequest _ j message).trans (inFlight_eraseIdx h_m).symm
  refine ⟨⟨h.isolated.handed, ?_⟩, ?_, ?_, ?_, ?_, ?_, h.consumers_nodup, ?_⟩
  · intro p h_p
    rcases List.mem_append.mp h_p with h_p | h_p
    · exact h.isolated.invoked p h_p
    · -- only the listener consumes the queue of its address
      obtain ⟨l, h_l, rfl⟩ := List.mem_map.mp h_p
      exact h_invokes l (Option.mem_toList.mp h_l)
  · exact h_perm.nodup_iff.mpr h.inFlight_nodup
  · exact fun r h_r => h.inFlight_lt r (h_perm.mem_iff.mp h_r)
  · intro m' h_m'
    exact (h.messages m' (List.mem_of_mem_eraseIdx h_m')).imp (fun key h_w => h_w.append _)
      fun _ _ h_key => h_key
  · intro p h_p
    rcases List.mem_append.mp h_p with h_p | h_p
    · obtain ⟨key', h_key', h_w⟩ := h.received p h_p
      exact ⟨key', h_key', h_w.append _⟩
    · obtain rfl := List.mem_singleton.mp h_p
      exact ⟨key, h_j, h_waits.append _⟩
  · -- the derived transport waits for nothing
    apply h.unique.append
    intro transport h_transport c
    obtain ⟨a, -, rfl⟩ := List.mem_map.mp h_transport
    rfl
  · intro transport h_transport l h_l
    rcases List.mem_append.mp h_transport with h_transport | h_transport
    · exact h.registered transport h_transport l h_l
    · -- the message has the address and the listener that it is of
      obtain ⟨a, h_a, rfl⟩ := List.mem_map.mp h_transport
      cases h_l
      exact h_message.callback a (Option.mem_toList.mp h_a)

/-! ### Delivering a reply -/

variable {t : ℕ} {transport : Transport}

/-- A transport of the key of the queue that waits under the correlation id of a reply is the one
that waits for this reply. -/
theorem Addressed.request_eq (h : Addressed s message) (h_unique : Unique s.transports)
    (h_t : s.transports[t]? = some transport)
    (h_queue : transport.key ++ IN_SUFFIX = message.queue) {r : ℕ}
    (h_r : transport.resultHandlers message.correlationId = some r) : r = message.request := by
  obtain ⟨key, ⟨t', transport', h_t', rfl, h_r'⟩, h_out | h_in⟩ := h.waits
  · exact absurd (h_out.symm.trans h_queue.symm) (outSuffix_ne_inSuffix _ _)
  · have h_key : transport.key = transport'.key := inSuffix_inj.mp (h_queue.trans h_in)
    obtain rfl := h_unique t t' transport transport' _ r _ h_t h_t' h_key h_r h_r'
    obtain rfl : transport = transport' := Option.some.inj (h_t.symm.trans h_t')
    exact Option.some.inj (h_r.symm.trans h_r')

theorem Inv.handleReply (h : Inv s) (h_m : s.messages[m]? = some message)
    (h_t : s.transports[t]? = some transport)
    (h_queue : transport.key ++ IN_SUFFIX = message.queue) :
    Inv ({ s with messages := s.messages.eraseIdx m }.handleReply t transport message) := by
  have h_message := h.messages message (List.mem_of_getElem? h_m)
  have h_perm := inFlight_eraseIdx h_m
  obtain ⟨h_new, h_nodup⟩ := List.nodup_cons.mp (h_perm.nodup_iff.mp h.inFlight_nodup)
  -- the handler that is removed is not that of another request under way
  have h_waits : ∀ key c, ∀ r ∈ { s with messages := s.messages.eraseIdx m }.inFlight,
      Waits s.transports key c r → Waits (s.transports.set t { transport with
        resultHandlers := Function.update transport.resultHandlers message.correlationId none })
        key c r := by
    intro key c r h_r h_w
    refine h_w.set h_t rfl fun h_key h_c => ?_
    by_cases h_eq : c = message.correlationId
    · subst h_eq
      rw [h_message.request_eq h.unique h_t h_queue h_c] at h_r
      exact absurd h_r h_new
    · rw [← h_c]
      exact Function.update_of_ne h_eq _ _
  refine ⟨⟨?_, h.isolated.invoked⟩, h_nodup, ?_, ?_, ?_, ?_, h.consumers_nodup, ?_⟩
  · intro p h_p
    rcases List.mem_append.mp h_p with h_p | h_p
    · exact h.isolated.handed p h_p
    · -- no other transport of the queue waits under the correlation id
      obtain ⟨r, h_r, rfl⟩ := List.mem_map.mp h_p
      exact (h_message.request_eq h.unique h_t h_queue (Option.mem_toList.mp h_r)).symm
  · exact fun r h_r => h.inFlight_lt r (h_perm.mem_iff.mpr (List.mem_cons_of_mem _ h_r))
  · intro m' h_m'
    refine (h.messages m' (List.mem_of_mem_eraseIdx h_m')).imp (fun key => ?_)
      fun _ _ h_key => h_key
    exact h_waits key _ _ (mem_inFlight_of_message h_m')
  · intro p h_p
    obtain ⟨key, h_key, h_w⟩ := h.received p h_p
    exact ⟨key, h_key, h_waits key _ _ (mem_inFlight_of_received h_p) h_w⟩
  · refine h.unique.set h_t rfl fun t' transport' c r r' h_t' h_key h_r h_r' => ?_
    apply h.unique t' t transport' transport c r' r h_t' h_t h_key h_r'
    by_cases h_eq : c = message.correlationId
    · subst h_eq
      simp at h_r
    · rw [← h_r]
      exact (Function.update_of_ne h_eq _ _).symm
  · intro transport' h_transport' l h_l
    rcases List.mem_or_eq_of_mem_set h_transport' with h_old | rfl
    · exact h.registered transport' h_old l h_l
    · exact h.registered transport (List.mem_of_getElem? h_t) l h_l

theorem Inv.deliver (h : Inv s) (m : ℕ) (recipient : Recipient) : Inv (s.deliver m recipient) := by
  unfold State.deliver
  split
  · exact h
  · next message h_m =>
    split
    · split
      · exact h
      · next key h_j =>
        split
        · next h_queue => exact h.handleRequest h_m h_j h_queue
        · exact h
    · split
      · exact h
      · next transport h_t =>
        split
        · next h_queue => exact h.handleReply h_m h_t h_queue.2
        · exact h

end Deliver

/-! ### Replying -/

/-- A reply is in flight for what was received. -/
theorem inFlight_reply {s : State} {i : ℕ} {received : Received}
    (h_i : s.received[i]? = some received) (reply : Message)
    (h_reply : reply.request = received.request) :
    { s with messages := s.messages ++ [reply], received := s.received.eraseIdx i }.inFlight.Perm
      s.inFlight := by
  unfold State.inFlight
  calc (s.messages ++ [reply]).map (fun m => m.request) ++
        (s.received.eraseIdx i).map (fun p => p.request)
      = s.messages.map (fun m => m.request) ++
          (received :: s.received.eraseIdx i).map fun p => p.request := by
        rw [List.map_append, List.append_assoc]
        show _ ++ reply.request :: _ = _ ++ received.request :: _
        rw [h_reply]
        rfl
    _ ~ s.messages.map (fun m => m.request) ++ s.received.map fun p => p.request :=
        ((perm_cons_eraseIdx h_i).symm.map _).append_left _

/-- Replying keeps the invariant. -/
theorem Inv.reply {s : State} (h : Inv s) (i : ℕ) : Inv (s.reply i) := by
  unfold State.reply
  split
  · exact h
  · next received h_i =>
    obtain ⟨key, h_key, h_waits⟩ := h.received received (List.mem_of_getElem? h_i)
    simp only [h_key]
    refine ⟨⟨h.isolated.handed, h.isolated.invoked⟩, ?_, ?_, ?_, ?_, h.unique, h.consumers_nodup,
      h.registered⟩
    · exact (inFlight_reply h_i _ rfl).nodup_iff.mpr h.inFlight_nodup
    · exact fun r h_r => h.inFlight_lt r ((inFlight_reply h_i _ rfl).mem_iff.mp h_r)
    -- the messages of before, and the reply
    · intro m h_m
      rcases List.mem_append.mp h_m with h_m | h_m
      · exact (h.messages m h_m).imp (fun _ h_w => h_w) fun _ _ h_key => h_key
      · -- the reply goes to the queue that the transports with this key consume
        obtain rfl := List.mem_singleton.mp h_m
        exact ⟨⟨key, h_waits, Or.inr rfl⟩, (fun _ h_l => nomatch h_l), (fun _ h_c => nomatch h_c)⟩
    · exact fun p h_p => h.received p (List.mem_of_mem_eraseIdx h_p)

/-! ### Runs -/

/-- The invariant at the start: nothing is sent. -/
theorem Inv.init (key : Key) (clients : ℕ) : Inv (.init key clients) := by
  have h_new : ∀ transport ∈ List.replicate clients (Transport.new key none),
      transport = .new key none := fun transport h => List.eq_of_mem_replicate h
  refine ⟨⟨?_, ?_⟩, List.nodup_nil, ?_, ?_, ?_, ?_, List.nodup_singleton key, ?_⟩
  · exact fun p h => absurd h List.not_mem_nil
  · exact fun p h => absurd h List.not_mem_nil
  · exact fun r h => absurd h List.not_mem_nil
  · exact fun m h => absurd h List.not_mem_nil
  · exact fun p h => absurd h List.not_mem_nil
  · intro t t' transport transport' c r r' h_t h_t' h_key h_r
    rw [h_new transport (List.mem_of_getElem? h_t)] at h_r
    cases h_r
  · intro transport h l h_l
    rw [h_new transport h] at h_l
    cases h_l

/-- **One step** keeps it, if the step is unambiguous. -/
theorem Inv.step {s : State} (h : Inv s) (i : Input) (h_i : Unambiguous s i) :
    Inv (State.step s i) := by
  cases i with
  | send t callback => exact h.send h_i
  | deliver m recipient => exact h.deliver m recipient
  | reply i => exact h.reply i

/-- **No crossing.** In every run in which no request and no callback address is ambiguous, each
reply is handed to the handler of its request and each invocation reaches its listener. -/
theorem isolated_of_unambiguous (key : Key) (clients : ℕ) (inputs : List Input)
    (h : Along (fun pre i => Unambiguous (State.after key clients pre) i) inputs) :
    ∀ pre, pre <+: inputs → Isolated (State.after key clients pre) := by
  intro pre h_pre
  have h_run := @run_induction State Input State.step (State.init key clients)
    (fun pre i => Unambiguous (State.after key clients pre) i) (fun _ s => Inv s)
    (Inv.init key clients) (fun pre i h_inv h_i => h_inv.step i h_i)
  exact (h_run pre (h.restrict h_pre)).isolated

/-- A client passes on a listener, which the server invokes while the client waits. -/
def listenerRun : List Input :=
  [.send 0 true, .deliver 0 (.consumer 0), .send 2 false, .deliver 0 (.consumer 1), .reply 1,
    .deliver 0 (.transport 2)]

/-- One listener is isolated. -/
theorem isolated_listenerRun : Isolated (State.after ['k'] 2 listenerRun) := by
  refine isolated_of_unambiguous ['k'] 2 listenerRun ?_ listenerRun (List.prefix_refl _)
  -- no id is in use when its request is sent
  have h_first : Unambiguous (.init ['k'] 2) (.send 0 true) := by
    rintro transport ⟨⟩
    refine ⟨?_, fun _ _ => by decide⟩
    rintro (_ | _ | t') transport' r ⟨⟩ - h
    · cases h
    · cases h
  have h_second : Unambiguous (State.after ['k'] 2 [.send 0 true, .deliver 0 (.consumer 0)])
      (.send 2 false) := by
    rintro transport ⟨⟩
    refine ⟨?_, fun h => nomatch h⟩
    rintro (_ | _ | _ | t') transport' r ⟨⟩ h_key h
    · exact absurd h_key (by decide)
    · exact absurd h_key (by decide)
    · cases h
  have h_along : Along (fun pre i => Unambiguous (State.after ['k'] 2 pre) i)
      ([] ++ [.send 0 true] ++ [.deliver 0 (.consumer 0)] ++ [.send 2 false] ++
        [.deliver 0 (.consumer 1)] ++ [.reply 1] ++ [.deliver 0 (.transport 2)]) := by
    simp only [along_concat]
    exact ⟨⟨⟨⟨⟨⟨along_nil, h_first⟩, trivial⟩, h_second⟩, trivial⟩, trivial⟩, trivial⟩
  exact h_along

/-- Two clients send their first requests, and each gets the reply to the other one's. -/
def crossedReplies : List Input :=
  [.send 0 false, .send 1 false, .deliver 0 (.consumer 0), .reply 0, .deliver 1 (.transport 1)]

/-- Two clients register their first listeners, and the server invokes the one of the first
client. -/
def crossedInvocation : List Input :=
  [.send 0 true, .send 1 true, .deliver 0 (.consumer 0), .send 2 false, .deliver 1 (.consumer 2)]

/-- Two clients with one key take each other's replies, and two listeners each other's calls. -/
theorem not_isolated_crossed :
    ¬ Isolated (State.after ['k'] 2 crossedReplies) ∧
      ¬ Isolated (State.after ['k'] 2 crossedInvocation) := by
  refine ⟨?_, ?_⟩
  · intro h
    have h_handed : (State.after ['k'] 2 crossedReplies).handed = [(0, 1)] := by decide +kernel
    exact absurd (h.handed (0, 1) (by rw [h_handed]; exact List.mem_singleton_self _)) (by decide)
  · intro h
    have h_invoked : (State.after ['k'] 2 crossedInvocation).invoked = [(1, 2)] := by decide +kernel
    exact absurd (h.invoked (1, 2) (by rw [h_invoked]; exact List.mem_singleton_self _)) (by decide)

end Ethiso.RabbitMQ
