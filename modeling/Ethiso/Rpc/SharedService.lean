import Ethiso.Abi.Java
import Ethiso.Framework.KeySet
import Ethiso.Framework.Leases
import Ethiso.Framework.Outcome
import Ethiso.Framework.Run

/-!
# JSON-RPC over HTTP: the services that transports share

The transports on a port share one Spark service. `HttpJsonRpcTransport` keeps the services by
port and a reference counter for each, in two static maps; a constructor takes a reference and
`close` drops one, and the service is stopped when its counter is zero.

`close` does not look whether the transport is closed already, so a transport that is closed
twice drops the reference of another one. The references are leases (`Framework.Leases`), and the
counter shows their balance as an `int`. All is well in the states of a run exactly if at each
call of `close` the balance is a multiple of `2 ^ 32` when, and only when, no transport is left
that holds the service (`shared_services`). This is so where no transport is closed twice and
fewer than `2 ^ 32` are made (`keepsServices_of_closed_once`).

Services are numbered in the order in which they are made. Of the class only the part that
concerns the services is modelled; `derivedTransports` is empty, as no callback transport can be
derived. The calls of the HTTP client and of Spark do not fail.
-/

namespace Ethiso.Http

open Abi Outcome

/-- A transport, with the number of calls of its `close`: the first one sets `closed`. -/
structure HttpJsonRpcTransport where
  port : ℕ
  service : ℕ
  closings : ℕ
deriving DecidableEq

/-- The maps of the code, and which services were made and stopped. -/
structure State where
  sparkServices : ℕ → Option ℕ
  serviceReferenceCount : ℕ → Option ℤ
  -- how many services were made, and those that were stopped
  services : ℕ
  stopped : List ℕ
  transports : List HttpJsonRpcTransport

/-- Calls of the constructor, whose arguments may be `null`, and of `close`. -/
inductive Operation
  | construct (port : Option ℕ) (path : Option (List Char))
  | close (i : ℕ)

namespace State

/-- No service and no transport. -/
def init : State := ⟨fun _ => none, fun _ => none, 0, [], []⟩

/-- The counter of the service is set. -/
def recount (s : State) (service : ℕ) (referenceCount : ℤ) : State :=
  { s with
    serviceReferenceCount :=
      Function.update s.serviceReferenceCount service (some referenceCount) }

/-- The service of the port; `none` if its counter is missing. -/
def getSharedService (s : State) (port : ℕ) : Option (ℕ × State) :=
  match s.sparkServices port with
  | none =>
    some (s.services, { s with
      services := s.services + 1
      sparkServices := Function.update s.sparkServices port (some s.services)
      serviceReferenceCount := Function.update s.serviceReferenceCount s.services (some 1) })
  | some service =>
    match s.serviceReferenceCount service with
    | none => none
    | some referenceCount =>
      some (service, s.recount service (BigInteger.intValue (referenceCount + 1)))

/-- The constructor takes no empty path, and no address that is `null`. -/
def construct (s : State) (port : Option ℕ) (path : Option (List Char)) : Outcome State :=
  match path, port with
  | none, _ => threw s
  | some [], _ => threw s
  | some (_ :: _), none => threw s
  | some (_ :: _), some port =>
    match s.getSharedService port with
    | none => threw s
    | some (service, s) =>
      returned { s with transports := s.transports ++ [⟨port, service, 0⟩] }

/-- The service is stopped and leaves both maps. -/
def release (s : State) (t : HttpJsonRpcTransport) : State :=
  { s with
    sparkServices := Function.update s.sparkServices t.port none
    stopped := t.service :: s.stopped
    serviceReferenceCount := Function.update s.serviceReferenceCount t.service none }

/-- `ungetSharedService` -/
def ungetSharedService (s : State) (t : HttpJsonRpcTransport) : Outcome State :=
  match s.serviceReferenceCount t.service with
  | none => threw s
  | some n =>
    let referenceCount := BigInteger.intValue (n - 1)
    if referenceCount = 0 then returned (s.release t)
    else returned (s.recount t.service referenceCount)

/-- `closed = true` -/
def closing (s : State) (i : ℕ) (t : HttpJsonRpcTransport) : State :=
  { s with transports := s.transports.set i { t with closings := t.closings + 1 } }

/-- Closes the transport of this number, if there is one. -/
def close (s : State) (i : ℕ) : Outcome State :=
  match s.transports[i]? with
  | none => returned s
  | some t => (s.closing i t).ungetSharedService t

/-- One operation. -/
def perform (s : State) : Operation → Outcome State
  | .construct port path => s.construct port path
  | .close i => s.close i

/-- The state that it leaves. -/
def step (s : State) (o : Operation) : State := (s.perform o).state

/-- The state that the operations lead to. -/
abbrev after (l : List Operation) : State := run step init l

/-! ### The life of the services -/

/-- Unclosed transports hold services that run, one for each port. When all transports on a
port are closed, their services are stopped and none is registered for the port. -/
structure Lives (s : State) : Prop where
  running : ∀ t ∈ s.transports, t.closings = 0 → t.service ∉ s.stopped
  shared : ∀ t ∈ s.transports, ∀ t' ∈ s.transports, t.closings = 0 → t'.closings = 0 →
    t.port = t'.port → t.service = t'.service
  ended : ∀ t ∈ s.transports, (∀ t' ∈ s.transports, t'.port = t.port → t'.closings ≠ 0) →
    t.service ∈ s.stopped ∧ s.sparkServices t.port = none

/-- A call of `close` returns. -/
def ClosesWell (s : State) : Operation → Prop
  | .construct .. => True
  | .close i => (s.close i).isReturned = true

/-- Some transport holds the service that was never closed. -/
def IsHeld (transports : List HttpJsonRpcTransport) (service : ℕ) : Prop :=
  Held HttpJsonRpcTransport.service HttpJsonRpcTransport.closings service transports

/-- The number of transports that hold the service, less the calls of their `close`. -/
def references (transports : List HttpJsonRpcTransport) (service : ℕ) : ℤ :=
  balance HttpJsonRpcTransport.service HttpJsonRpcTransport.closings service transports

/-- With this call, the number of references is a multiple of `2 ^ 32` if and only if no
unclosed transport holds the service. -/
def KeepsServices (s : State) : Operation → Prop
  | .construct .. => True
  | .close i => ∀ t, s.transports[i]? = some t →
      (2 ^ 32 ∣ references (s.closing i t).transports t.service ↔
        ¬IsHeld (s.closing i t).transports t.service)

/-- The maps agree with the transports: a service is registered as long as a transport holds
it, and its counter shows the references. -/
structure Consistent (s : State) : Prop where
  known : ∀ t ∈ s.transports, t.service < s.services
  known_stopped : ∀ v ∈ s.stopped, v < s.services
  one_port : ∀ t ∈ s.transports, ∀ t' ∈ s.transports, t.service = t'.service → t.port = t'.port
  registered : ∀ t ∈ s.transports, t.closings = 0 → s.sparkServices t.port = some t.service
  held : ∀ p v, s.sparkServices p = some v →
    ∃ t ∈ s.transports, t.port = p ∧ t.service = v ∧ t.closings = 0
  counted : ∀ p v, s.sparkServices p = some v → v ∉ s.stopped ∧
    s.serviceReferenceCount v = some (BigInteger.intValue (references s.transports v))
  ended : ∀ t ∈ s.transports, s.sparkServices t.port ≠ some t.service →
    t.service ∈ s.stopped ∧ s.serviceReferenceCount t.service = none ∧
      2 ^ 32 ∣ references s.transports t.service

/-- The invariant at the start. -/
theorem consistent_init : Consistent init where
  known _ h := nomatch h
  known_stopped _ h := nomatch h
  one_port _ h := nomatch h
  registered _ h := nomatch h
  held _ _ h := nomatch h
  counted _ _ h := nomatch h
  ended _ h := nomatch h

section Consistent

variable {s : State} {t : HttpJsonRpcTransport} {p v i : ℕ}

/-- A registered service is held on its port alone. -/
theorem Consistent.port_eq (h : Consistent s) (h_v : s.sparkServices p = some v)
    (h_t : t ∈ s.transports) (h_service : t.service = v) : t.port = p := by
  obtain ⟨t', h_t', h_port, h_service', -⟩ := h.held p v h_v
  rw [← h_port]
  exact h.one_port t h_t t' h_t' (h_service.trans h_service'.symm)

/-- A service is registered for one port at most. -/
theorem Consistent.port_unique (h : Consistent s) {q : ℕ} (h_p : s.sparkServices p = some v)
    (h_q : s.sparkServices q = some v) : p = q := by
  obtain ⟨t, h_t, h_port, h_service, -⟩ := h.held p v h_p
  rw [← h_port]
  exact h.port_eq h_q h_t h_service

theorem Consistent.lives (h : Consistent s) : Lives s where
  running t h_t h_open := (h.counted _ _ (h.registered t h_t h_open)).1
  shared := by
    intro t h_t t' h_t' h_open h_open' h_port
    have h_eq := h.registered t h_t h_open
    rw [h_port, h.registered t' h_t' h_open'] at h_eq
    exact (Option.some.inj h_eq).symm
  ended := by
    intro t h_t h_all
    -- a registered service would be held by an unclosed transport on the port
    have h_none : s.sparkServices t.port = none := by
      by_contra h_some
      obtain ⟨v, h_v⟩ := Option.ne_none_iff_exists'.mp h_some
      obtain ⟨t', h_t', h_port, -, h_open⟩ := h.held _ v h_v
      exact h_all t' h_t' h_port h_open
    refine ⟨(h.ended t h_t ?_).1, h_none⟩
    rw [h_none]
    exact fun h_eq => nomatch h_eq

/-! ### Making a transport -/

/-- A service that is in no transport has no references. -/
theorem references_eq_zero (h : ∀ t ∈ s.transports, t.service ≠ v) :
    references s.transports v = 0 :=
  balance_eq_zero h

/-- A new transport is one more reference to its service. -/
theorem references_concat (transports : List HttpJsonRpcTransport) (p v w : ℕ) :
    references (transports ++ [⟨p, v, 0⟩]) w =
      references transports w + if v = w then 1 else 0 := by
  unfold references
  rw [balance_concat]
  simp

/-- A transport of another service does not count. -/
theorem references_concat_of_ne {transports : List HttpJsonRpcTransport} {w : ℕ} (h : v ≠ w) :
    references (transports ++ [⟨p, v, 0⟩]) w = references transports w := by
  rw [references_concat, if_neg h, add_zero]

theorem mem_concat_new {transports : List HttpJsonRpcTransport}
    (h : t ∈ transports ++ [⟨p, v, 0⟩]) : t ∈ transports ∨ t = ⟨p, v, 0⟩ :=
  (List.mem_append.mp h).imp_right List.mem_singleton.mp

/-- A new transport that has a service on its port leaves the ports of the services as they
are. -/
theorem Consistent.port_concat (h : Consistent s)
    (h_v : ∀ t ∈ s.transports, t.service = v → t.port = p) :
    ∀ t ∈ s.transports ++ [⟨p, v, 0⟩], ∀ t' ∈ s.transports ++ [⟨p, v, 0⟩],
      t.service = t'.service → t.port = t'.port := by
  intro t h_t t' h_t' h_eq
  rcases mem_concat_new h_t with h_t | rfl <;> rcases mem_concat_new h_t' with h_t' | rfl
  · exact h.one_port t h_t t' h_t' h_eq
  · exact h_v t h_t h_eq
  · exact (h_v t' h_t' h_eq.symm).symm
  · rfl

/-- A service that is registered has another port than one where none is. -/
theorem port_ne {w : ℕ} (h_none : s.sparkServices p = none)
    (h_t : s.sparkServices t.port = some w) : t.port ≠ p := by
  intro h_port
  rw [h_port, h_none] at h_t
  cases h_t

theorem intValue_intValue_add (n k : ℤ) :
    BigInteger.intValue (BigInteger.intValue n + k) = BigInteger.intValue (n + k) := by
  unfold BigInteger.intValue
  exact Int.bmod_add_bmod

/-- The counter is zero at multiples of `2 ^ 32`. -/
theorem intValue_eq_zero {n : ℤ} : BigInteger.intValue n = 0 ↔ 2 ^ 32 ∣ n := by
  unfold BigInteger.intValue
  exact Int.dvd_iff_bmod_eq_zero.symm

/-- The first transport on a port makes a service. -/
theorem Consistent.ignite (h : Consistent s) (h_none : s.sparkServices p = none) :
    Consistent { s with
      services := s.services + 1
      sparkServices := Function.update s.sparkServices p (some s.services)
      serviceReferenceCount := Function.update s.serviceReferenceCount s.services (some 1)
      transports := s.transports ++ [⟨p, s.services, 0⟩] } where
  known := by
    intro t h_t
    rcases mem_concat_new h_t with h_t | rfl
    · exact (h.known t h_t).trans (Nat.lt_succ_self _)
    · exact Nat.lt_succ_self _
  known_stopped v h_v := (h.known_stopped v h_v).trans (Nat.lt_succ_self _)
  -- no other transport has the new service
  one_port := h.port_concat fun t h_t h_eq => absurd h_eq (h.known t h_t).ne
  registered := by
    intro t h_t h_open
    dsimp only
    rcases mem_concat_new h_t with h_t | rfl
    · have h_reg := h.registered t h_t h_open
      exact put_eq_some_iff.mpr (Or.inr ⟨port_ne h_none h_reg, h_reg⟩)
    · exact Function.update_self ..
  held := by
    intro q v h_v
    rcases put_eq_some_iff.mp h_v with ⟨rfl, rfl⟩ | ⟨-, h_v⟩
    · exact ⟨⟨q, s.services, 0⟩, by simp, rfl, rfl, rfl⟩
    · obtain ⟨t, h_t, h_rest⟩ := h.held q v h_v
      exact ⟨t, List.mem_append_left _ h_t, h_rest⟩
  counted := by
    intro q v h_v
    dsimp only
    rcases put_eq_some_iff.mp h_v with ⟨-, rfl⟩ | ⟨-, h_v⟩
    · refine ⟨fun h_mem => (h.known_stopped _ h_mem).false, ?_⟩
      rw [references_concat, Function.update_self,
        references_eq_zero fun t h_t => (h.known t h_t).ne, if_pos rfl]
      rfl
    · have h_ne : s.services ≠ v := by
        obtain ⟨t, h_t, -, rfl, -⟩ := h.held q v h_v
        exact (h.known t h_t).ne'
      rw [references_concat_of_ne h_ne, Function.update_of_ne h_ne.symm]
      exact h.counted q v h_v
  ended := by
    intro t h_t h_reg
    dsimp only at h_reg ⊢
    rcases mem_concat_new h_t with h_t | rfl
    · have h_ne := (h.known t h_t).ne'
      rw [references_concat_of_ne h_ne, Function.update_of_ne h_ne.symm]
      refine h.ended t h_t fun h_old => h_reg ?_
      exact put_eq_some_iff.mpr (Or.inr ⟨port_ne h_none h_old, h_old⟩)
    · rw [Function.update_self] at h_reg
      exact absurd rfl h_reg

/-- A further transport on the port shares the service. -/
theorem Consistent.share (h : Consistent s) (h_v : s.sparkServices p = some v) :
    Consistent { s with
      serviceReferenceCount := Function.update s.serviceReferenceCount v
        (some (BigInteger.intValue (BigInteger.intValue (references s.transports v) + 1)))
      transports := s.transports ++ [⟨p, v, 0⟩] } where
  known := by
    intro t h_t
    rcases mem_concat_new h_t with h_t | rfl
    -- the transports of before know their services
    · exact h.known t h_t
    · obtain ⟨t', h_t', -, rfl, -⟩ := h.held p v h_v
      exact h.known t' h_t'
  known_stopped := h.known_stopped
  one_port := h.port_concat fun _ h_t => h.port_eq h_v h_t
  registered := by
    intro t h_t h_open
    rcases mem_concat_new h_t with h_t | rfl
    · exact h.registered t h_t h_open
    · exact h_v
  held := by
    intro q w h_w
    obtain ⟨t, h_t, h_rest⟩ := h.held q w h_w
    exact ⟨t, List.mem_append_left _ h_t, h_rest⟩
  counted := by
    intro q w h_w
    obtain ⟨h_out, h_count⟩ := h.counted q w h_w
    refine ⟨h_out, ?_⟩
    dsimp only
    by_cases h_eq : w = v
    -- the counter of this service goes up, the others stay
    · rw [h_eq, references_concat, Function.update_self, if_pos rfl, intValue_intValue_add]
    · rw [references_concat_of_ne (Ne.symm h_eq), Function.update_of_ne h_eq, h_count]
  ended := by
    intro t h_t h_reg
    dsimp only at h_reg ⊢
    rcases mem_concat_new h_t with h_t | rfl
    · have h_ne : t.service ≠ v := by
        intro h_eq
        rw [h.port_eq h_v h_t h_eq, h_eq] at h_reg
        exact h_reg h_v
      rw [references_concat_of_ne h_ne.symm, Function.update_of_ne h_ne]
      exact h.ended t h_t h_reg
    · exact absurd h_v h_reg

/-- **Constructing** keeps the invariant. -/
theorem Consistent.construct (h : Consistent s) (port : Option ℕ) (path : Option (List Char)) :
    Consistent (s.construct port path).state := by
  unfold State.construct
  match path, port with
  | none, _ => exact h
  | some [], _ => exact h
  | some (_ :: _), none => exact h
  | some (_ :: _), some p =>
    unfold getSharedService
    dsimp only
    -- a service is ignited, or the one of the port is shared
    cases h_p : s.sparkServices p with
    | none => exact h.ignite h_p
    | some v =>
      dsimp only
      rw [(h.counted p v h_p).2]
      exact h.share h_p

/-! ### Closing a transport -/

/-- What a transport is after one of them has been closed. -/
theorem mem_closing {t' : HttpJsonRpcTransport} (h_i : s.transports[i]? = some t)
    (h : t' ∈ (s.closing i t).transports) :
    (∃ t₀ ∈ s.transports, t₀.port = t'.port ∧ t₀.service = t'.service) ∧
      (t'.closings = 0 → t' ∈ s.transports) := by
  rcases List.mem_or_eq_of_mem_set h with h_mem | rfl
  · exact ⟨⟨t', h_mem, rfl, rfl⟩, fun _ => h_mem⟩
  · exact ⟨⟨t, List.mem_of_getElem? h_i, rfl, rfl⟩, fun h_zero => nomatch h_zero⟩

/-- Each call of `close` takes one off the references to the service. -/
theorem references_closing (h_i : s.transports[i]? = some t) (w : ℕ) :
    references (s.closing i t).transports w =
      references s.transports w - if t.service = w then 1 else 0 :=
  balance_set h_i rfl rfl

/-- Closing a transport of another service does not count. -/
theorem references_closing_of_ne (h_i : s.transports[i]? = some t) {w : ℕ}
    (h : t.service ≠ w) :
    references (s.closing i t).transports w = references s.transports w := by
  rw [references_closing h_i, if_neg h, sub_zero]

/-- The counter after the call, if the service is registered. -/
theorem intValue_closing (h_i : s.transports[i]? = some t) :
    BigInteger.intValue (BigInteger.intValue (references s.transports t.service) - 1) =
      BigInteger.intValue (references (s.closing i t).transports t.service) := by
  rw [sub_eq_add_neg, intValue_intValue_add, references_closing h_i, if_pos rfl, sub_eq_add_neg]

/-- Closing a transport leaves the ports of the services as they are. -/
theorem Consistent.port_closing (h : Consistent s) (h_i : s.transports[i]? = some t)
    {t' t'' : HttpJsonRpcTransport} (h_t' : t' ∈ (s.closing i t).transports)
    (h_t'' : t'' ∈ (s.closing i t).transports) (h_eq : t'.service = t''.service) :
    t'.port = t''.port := by
  obtain ⟨⟨t₀, h_t₀, h_port, h_service⟩, -⟩ := mem_closing h_i h_t'
  obtain ⟨⟨t₁, h_t₁, h_port', h_service'⟩, -⟩ := mem_closing h_i h_t''
  rw [← h_port, ← h_port']
  apply h.one_port t₀ h_t₀ t₁ h_t₁
  rw [h_service, h_service', h_eq]

/-- The last transport lets its service go. -/
theorem Consistent.release (h : Consistent s) (h_i : s.transports[i]? = some t)
    (h_reg : s.sparkServices t.port = some t.service)
    (h_dvd : 2 ^ 32 ∣ references (s.closing i t).transports t.service)
    (h_free : ¬IsHeld (s.closing i t).transports t.service) :
    Consistent ((s.closing i t).release t) where
  known := by
    intro t' h_t'
    obtain ⟨⟨t₀, h_t₀, -, h_service⟩, -⟩ := mem_closing h_i h_t'
    rw [← h_service]
    exact h.known t₀ h_t₀
  known_stopped := by
    intro v h_v
    rcases List.mem_cons.mp h_v with rfl | h_v
    · exact h.known t (List.mem_of_getElem? h_i)
    · exact h.known_stopped v h_v
  one_port _ h_t' _ h_t'' := h.port_closing h_i h_t' h_t''
  registered := by
    intro t' h_t' h_open
    have h_old := h.registered t' ((mem_closing h_i h_t').2 h_open) h_open
    -- an unclosed transport on the port would hold the service
    have h_port : t'.port ≠ t.port := by
      intro h_port
      rw [h_port, h_reg] at h_old
      exact h_free ⟨t', h_t', (Option.some.inj h_old).symm, h_open⟩
    exact remove_eq_some_iff.mpr ⟨h_port, h_old⟩
  held := by
    intro p v h_v
    obtain ⟨h_p, h_v⟩ := remove_eq_some_iff.mp h_v
    obtain ⟨t', h_t', rfl, h_rest⟩ := h.held p v h_v
    have h_ne : t' ≠ t := fun h_eq => h_p (congrArg HttpJsonRpcTransport.port h_eq)
    exact ⟨t', mem_set_of_mem h_i h_t' h_ne, rfl, h_rest⟩
  counted := by
    intro p v h_v
    obtain ⟨h_p, h_v⟩ := remove_eq_some_iff.mp h_v
    obtain ⟨h_out, h_count⟩ := h.counted p v h_v
    have h_ne : t.service ≠ v := by
      intro h_eq
      rw [h_eq] at h_reg
      exact h_p (h.port_unique h_v h_reg)
    change v ∉ t.service :: s.stopped ∧
      Function.update s.serviceReferenceCount t.service none v =
        some (BigInteger.intValue (references (s.closing i t).transports v))
    rw [references_closing_of_ne h_i h_ne, List.mem_cons, not_or]
    exact ⟨⟨h_ne.symm, h_out⟩, remove_eq_some_iff.mpr ⟨h_ne.symm, h_count⟩⟩
  ended := by
    intro t' h_t' h_off
    change t'.service ∈ t.service :: s.stopped ∧
      Function.update s.serviceReferenceCount t.service none t'.service = none ∧
        2 ^ 32 ∣ references (s.closing i t).transports t'.service
    by_cases h_service : t'.service = t.service
    · rw [h_service, Function.update_self]
      exact ⟨List.mem_cons_self, rfl, h_dvd⟩
    · obtain ⟨⟨t₀, h_t₀, h_port₀, h_service₀⟩, -⟩ := mem_closing h_i h_t'
      have h_old : s.sparkServices t₀.port ≠ some t₀.service := by
        intro h_old
        rw [h_port₀, h_service₀] at h_old
        refine h_off (remove_eq_some_iff.mpr ⟨fun h_port => ?_, h_old⟩)
        rw [h_port, h_reg] at h_old
        exact h_service (Option.some.inj h_old).symm
      obtain ⟨h_stopped, h_count, h_dvd'⟩ := h.ended t₀ h_t₀ h_old
      rw [h_service₀] at h_stopped h_count h_dvd'
      rw [references_closing_of_ne h_i (Ne.symm h_service), Function.update_of_ne h_service]
      exact ⟨List.mem_cons_of_mem _ h_stopped, h_count, h_dvd'⟩

/-- Another transport still holds the service. -/
theorem Consistent.keep (h : Consistent s) (h_i : s.transports[i]? = some t)
    (h_reg : s.sparkServices t.port = some t.service)
    (h_held : IsHeld (s.closing i t).transports t.service) :
    Consistent ((s.closing i t).recount t.service
      (BigInteger.intValue (references (s.closing i t).transports t.service))) where
  known := by
    intro t' h_t'
    obtain ⟨⟨t₀, h_t₀, -, h_service⟩, -⟩ := mem_closing h_i h_t'
    rw [← h_service]
    exact h.known t₀ h_t₀
  known_stopped := h.known_stopped
  one_port _ h_t' _ h_t'' := h.port_closing h_i h_t' h_t''
  registered t' h_t' h_open := h.registered t' ((mem_closing h_i h_t').2 h_open) h_open
  held := by
    intro p v h_v
    -- somebody holds the service still
    obtain ⟨t', h_t', rfl, rfl, h_open⟩ := h.held p v h_v
    by_cases h_eq : t' = t
    · -- the port has the service of `t`, which another transport holds
      subst h_eq
      obtain ⟨t'', h_t'', h_service, h_open'⟩ := h_held
      have h_t : t' ∈ s.transports := List.mem_of_getElem? h_i
      have h_port : t''.port = t'.port :=
        h.one_port t'' ((mem_closing h_i h_t'').2 h_open') t' h_t h_service
      exact ⟨t'', h_t'', h_port, h_service, h_open'⟩
    · exact ⟨t', mem_set_of_mem h_i h_t' h_eq, rfl, rfl, h_open⟩
  counted := by
    intro p v h_v
    obtain ⟨h_out, h_count⟩ := h.counted p v h_v
    refine ⟨h_out, ?_⟩
    change Function.update s.serviceReferenceCount t.service
        (some (BigInteger.intValue (references (s.closing i t).transports t.service))) v =
      some (BigInteger.intValue (references (s.closing i t).transports v))
    by_cases h_eq : v = t.service
    · rw [h_eq, Function.update_self]
    · rw [references_closing_of_ne h_i (Ne.symm h_eq), Function.update_of_ne h_eq, h_count]
  ended := by
    intro t' h_t' h_off
    obtain ⟨⟨t₀, h_t₀, h_port, h_service⟩, -⟩ := mem_closing h_i h_t'
    have h_off₀ : s.sparkServices t₀.port ≠ some t₀.service := by
      rw [h_port, h_service]
      exact h_off
    have h_ne : t₀.service ≠ t.service := by
      intro h_eq
      rw [h.port_eq h_reg h_t₀ h_eq, h_eq] at h_off₀
      exact h_off₀ h_reg
    obtain ⟨h_stopped, h_count, h_dvd⟩ := h.ended t₀ h_t₀ h_off₀
    rw [← h_service]
    refine ⟨h_stopped, ?_, ?_⟩
    · change Function.update s.serviceReferenceCount t.service _ t₀.service = none
      -- the counters of other services stay
      rw [Function.update_of_ne h_ne, h_count]
    · change 2 ^ 32 ∣ references (s.closing i t).transports t₀.service
      rwa [references_closing_of_ne h_i (Ne.symm h_ne)]

/-- What a call of `close` does if the service is registered. -/
theorem Consistent.close_eq (h : Consistent s) (h_i : s.transports[i]? = some t)
    (h_reg : s.sparkServices t.port = some t.service) :
    s.close i =
      if 2 ^ 32 ∣ references (s.closing i t).transports t.service then
        returned ((s.closing i t).release t)
      else
        returned ((s.closing i t).recount t.service
          (BigInteger.intValue (references (s.closing i t).transports t.service))) := by
  have h_count : (s.closing i t).serviceReferenceCount t.service =
      some (BigInteger.intValue (references s.transports t.service)) :=
    (h.counted t.port t.service h_reg).2
  unfold State.close
  rw [h_i]
  dsimp only
  unfold ungetSharedService
  rw [h_count]
  dsimp only
  rw [intValue_closing h_i]
  exact if_congr intValue_eq_zero rfl rfl

/-- If it is not, its transports are closed, and the call throws. -/
theorem Consistent.close_threw (h : Consistent s) (h_i : s.transports[i]? = some t)
    (h_off : s.sparkServices t.port ≠ some t.service) :
    s.close i = threw (s.closing i t) ∧
      2 ^ 32 ∣ references s.transports t.service ∧
      ¬IsHeld (s.closing i t).transports t.service := by
  have h_t : t ∈ s.transports := List.mem_of_getElem? h_i
  obtain ⟨-, h_none, h_dvd⟩ := h.ended t h_t h_off
  -- the map has no counter for a stopped service
  refine ⟨?_, h_dvd, ?_⟩
  · unfold State.close
    rw [h_i]
    dsimp only
    unfold ungetSharedService
    rw [show (s.closing i t).serviceReferenceCount t.service = none from h_none]
  · rintro ⟨t', h_t', h_service, h_open⟩
    have h_mem := (mem_closing h_i h_t').2 h_open
    have h_reg := h.registered t' h_mem h_open
    rw [h.one_port t' h_mem t h_t h_service, h_service] at h_reg
    exact h_off h_reg

/-- **Closing well.** Under the condition a call of `close` returns, to a consistent state. -/
theorem Consistent.close (h : Consistent s) (h_keeps : s.KeepsServices (.close i)) :
    s.ClosesWell (.close i) ∧ Consistent (s.step (.close i)) := by
  unfold ClosesWell step perform
  dsimp only
  cases h_i : s.transports[i]? with
  | none =>
    unfold State.close
    rw [h_i]
    exact ⟨rfl, h⟩
  | some t =>
    have h_iff := h_keeps t h_i
    -- the references to a service that was let go were a multiple of `2 ^ 32` before
    have h_reg : s.sparkServices t.port = some t.service := by
      by_contra h_off
      obtain ⟨-, h_dvd, h_free⟩ := h.close_threw h_i h_off
      have h_dvd' := h_iff.mpr h_free
      rw [references_closing h_i, if_pos rfl] at h_dvd'
      omega
    rw [h.close_eq h_i h_reg]
    split_ifs with h_dvd
    · exact ⟨rfl, h.release h_i h_reg h_dvd (h_iff.mp h_dvd)⟩
    · exact ⟨rfl, h.keep h_i h_reg (not_not.mp fun h_free => h_dvd (h_iff.mpr h_free))⟩

/-- Otherwise it throws, or the services do not live as they should. -/
theorem Consistent.keepsServices (h : Consistent s) (h_well : s.ClosesWell (.close i))
    (h_lives : Lives (s.step (.close i))) : s.KeepsServices (.close i) := by
  intro t h_i
  unfold ClosesWell at h_well
  unfold step perform at h_lives
  dsimp only at h_lives h_well
  have h_reg : s.sparkServices t.port = some t.service := by
    by_contra h_off
    rw [(h.close_threw h_i h_off).1] at h_well
    cases h_well
  rw [h.close_eq h_i h_reg] at h_lives
  split_ifs at h_lives with h_dvd
  · -- the service is stopped, so no unclosed transport may hold it
    refine iff_of_true h_dvd ?_
    rintro ⟨t', h_t', h_service, h_open⟩
    apply h_lives.running t' h_t' h_open
    rw [h_service]
    exact List.mem_cons_self
  · -- the service stays registered, so some transport on its port must be unclosed
    refine iff_of_false h_dvd (not_not_intro ?_)
    by_contra h_free
    have h_closed : ∀ t' ∈ (s.closing i t).transports, t'.port = t.port → t'.closings ≠ 0 := by
      intro t' h_t' h_port h_open
      have h_old := h.registered t' ((mem_closing h_i h_t').2 h_open) h_open
      rw [h_port, h_reg] at h_old
      exact h_free ⟨t', h_t', (Option.some.inj h_old).symm, h_open⟩
    have h_mem : { t with closings := t.closings + 1 } ∈ (s.closing i t).transports :=
      List.mem_iff_getElem?.mpr ⟨i, List.getElem?_set_self (List.getElem?_eq_some_iff.mp h_i).1⟩
    have h_none : s.sparkServices t.port = none := (h_lives.ended _ h_mem h_closed).2
    rw [h_reg] at h_none
    cases h_none

end Consistent

/-- **The shared services** live as they should in all states of a run, and no call of `close`
throws, if and only if the references agree with the transports at each call of `close`. -/
theorem shared_services (l : List Operation) :
    (∀ pre, pre <+: l → Lives (after pre) ∧ Along (fun pre o => (after pre).ClosesWell o) pre) ↔
      Along (fun pre o => (after pre).KeepsServices o) l := by
  refine @along_iff _ (fun _ _ => True) (fun pre o => (after pre).KeepsServices o)
    (fun l => Consistent (after l) ∧ Along (fun pre o => (after pre).ClosesWell o) l) _
    ⟨consistent_init, along_nil⟩ ?_ (fun l h => ⟨h.1.lives, h.2⟩) l (fun _ _ _ _ => trivial)
  rintro pre o ⟨h, h_well⟩ - h_or
  have h_after : after (pre ++ [o]) = (after pre).step o := run_concat pre o
  rw [along_concat, h_after] at h_or ⊢
  -- by cases on the operation; constructing can do no harm
  cases o with
  | construct port path => exact ⟨trivial, h.construct port path, h_well, trivial⟩
  | close i =>
    have h_keeps : (after pre).KeepsServices (.close i) := by
      rcases h_or with h_keeps | ⟨h_lives, -, h_closes⟩
      · exact h_keeps
      · exact h.keepsServices h_closes h_lives
    obtain ⟨h_closes, h_next⟩ := h.close h_keeps
    exact ⟨h_keeps, h_next, h_well, h_closes⟩

/-! ### Runs that close no transport twice -/

/-- The transport that an operation closes. -/
def closedBy : Operation → Option ℕ
  | .construct .. => none
  | .close i => some i

section ClosedOnce

variable {s : State} {t : HttpJsonRpcTransport} {i : ℕ}

/-- The release changes no transport. -/
theorem ungetSharedService_transports (s : State) (t : HttpJsonRpcTransport) :
    (s.ungetSharedService t).state.transports = s.transports := by
  unfold ungetSharedService
  split
  · rfl
  · dsimp only
    split_ifs <;> rfl

/-- What closing does to the transports. -/
theorem step_close_transports (h_i : s.transports[i]? = some t) :
    (s.step (.close i)).transports = (s.closing i t).transports := by
  unfold step perform
  dsimp only
  unfold close
  rw [h_i]
  exact ungetSharedService_transports _ t

/-- Constructing adds a transport, or fails. -/
theorem construct_transports (s : State) (port : Option ℕ) (path : Option (List Char)) :
    (s.construct port path).state.transports = s.transports ∨
      ∃ p v, (s.construct port path).state.transports = s.transports ++ [⟨p, v, 0⟩] := by
  unfold construct
  match path, port with
  | none, _ => exact Or.inl rfl
  | some [], _ => exact Or.inl rfl
  | some (_ :: _), none => exact Or.inl rfl
  | some (_ :: _), some p =>
    unfold getSharedService
    dsimp only
    cases s.sparkServices p with
    | none => exact Or.inr ⟨p, _, rfl⟩
    | some v =>
      dsimp only
      cases s.serviceReferenceCount v with
      | none => exact Or.inl rfl
      | some n => exact Or.inr ⟨p, v, rfl⟩

/-- A transport is closed once at most, and only if its number is among those closed. -/
def ClosedOnce (l : List Operation) (s : State) : Prop :=
  s.transports.length ≤ l.length ∧ ∀ i t, s.transports[i]? = some t →
    t.closings ≤ 1 ∧ (t.closings ≠ 0 → i ∈ l.filterMap closedBy)

/-- One more operation. -/
theorem ClosedOnce.mono {pre : List Operation} (h : ClosedOnce pre s) (o : Operation) :
    ClosedOnce (pre ++ [o]) s := by
  obtain ⟨h_length, h_once⟩ := h
  refine ⟨h_length.trans (by simp), fun i t h_i => ⟨(h_once i t h_i).1, fun h_t => ?_⟩⟩
  rw [List.filterMap_append]
  exact List.mem_append_left _ ((h_once i t h_i).2 h_t)

/-- Constructing closes nothing. -/
theorem ClosedOnce.construct {pre : List Operation} (h : ClosedOnce pre s) (port : Option ℕ)
    (path : Option (List Char)) :
    ClosedOnce (pre ++ [.construct port path]) (s.construct port path).state := by
  have h_more := h.mono (.construct port path)
  unfold ClosedOnce
  rcases construct_transports s port path with h_same | ⟨p, v, h_new⟩
  · rw [h_same]
    exact h_more
  · rw [h_new]
    refine ⟨by simpa using h.1, fun i t h_i => ?_⟩
    -- a transport of before, or the new one
    rcases Nat.lt_or_ge i s.transports.length with h_lt | h_ge
    · rw [List.getElem?_append_left h_lt] at h_i
      exact h_more.2 i t h_i
    · rw [List.getElem?_append_right h_ge, List.getElem?_singleton] at h_i
      split_ifs at h_i
      obtain rfl := Option.some.inj h_i
      exact ⟨Nat.zero_le _, fun h_ne => absurd rfl h_ne⟩

/-- Closing what has not been closed. -/
theorem ClosedOnce.close {pre : List Operation} (h : ClosedOnce pre s)
    (h_i : i ∉ pre.filterMap closedBy) : ClosedOnce (pre ++ [.close i]) (s.step (.close i)) := by
  have h_more := h.mono (.close i)
  cases h_t : s.transports[i]? with
  | none =>
    have h_same : s.step (.close i) = s := by
      unfold step perform
      dsimp only
      unfold State.close
      rw [h_t]
      rfl
    rw [h_same]
    exact h_more
  | some t =>
    unfold ClosedOnce
    rw [step_close_transports h_t]
    unfold closing
    dsimp only
    rw [List.length_set]
    refine ⟨h_more.1, fun j t' h_j => ?_⟩
    -- the transport that is closed now, or another
    by_cases h_eq : i = j
    · -- the transport was not closed before
      subst h_eq
      rw [List.getElem?_set_self (List.getElem?_eq_some_iff.mp h_t).1] at h_j
      obtain rfl := Option.some.inj h_j
      have h_zero : t.closings = 0 := by
        by_contra h_ne
        exact h_i ((h.2 i t h_t).2 h_ne)
      refine ⟨by simp [h_zero], fun _ => ?_⟩
      rw [List.filterMap_append]
      exact List.mem_append_right _ List.mem_cons_self
    · rw [List.getElem?_set_ne h_eq] at h_j
      exact h_more.2 j t' h_j

/-- **One step** keeps transports closed once. -/
theorem closedOnce_step {pre : List Operation} {o : Operation} (h : ClosedOnce pre s)
    (h_o : ∀ i, closedBy o = some i → i ∉ pre.filterMap closedBy) :
    ClosedOnce (pre ++ [o]) (s.step o) := by
  cases o with
  | construct port path => exact h.construct port path
  | close i => exact h.close (h_o i rfl)

/-- **Closed once.** Where no transport is closed twice, and fewer than `2 ^ 32` operations are
made, the references agree with the transports. -/
theorem keepsServices_of_closed_once (l : List Operation)
    (h_once : (l.filterMap closedBy).Nodup) (h_length : l.length < 2 ^ 32) :
    Along (fun pre o => (after pre).KeepsServices o) l := by
  have h_fresh := along_fresh h_once
  intro pre o post h_eq
  have h_pre : ClosedOnce pre (after pre) := by
    refine @run_induction State Operation step init _ ClosedOnce ⟨Nat.le_refl _, ?_⟩
      (fun pre o h_pre h_o => closedOnce_step h_pre h_o) pre
      (h_fresh.restrict ⟨o :: post, h_eq.symm⟩)
    intro i t h_i
    cases h_i
  have h_next := closedOnce_step h_pre (h_fresh pre o post h_eq)
  cases o with
  | construct port path => trivial
  | close i =>
    intro t h_i
    obtain ⟨h_le, h_all⟩ := h_next
    rw [step_close_transports h_i] at h_le h_all
    have h_returns : ∀ t' ∈ ((after pre).closing i t).transports, t'.closings ≤ 1 := by
      intro t' h_t'
      obtain ⟨j, h_j⟩ := List.mem_iff_getElem?.mp h_t'
      exact (h_all j t' h_j).1
    unfold IsHeld references
    rw [← balance_eq_zero_iff h_returns]
    refine ⟨fun h_dvd => ?_, fun h_zero => h_zero ▸ dvd_zero _⟩
    -- the balance is a number of transports
    have h_count := @balance_eq_countP _ _ HttpJsonRpcTransport.service
      HttpJsonRpcTransport.closings _ t.service _ h_returns
    rw [h_count] at h_dvd ⊢
    have h_bound := (List.countP_le_length (l := ((after pre).closing i t).transports)
      (p := fun a => decide (a.service = t.service ∧ a.closings = 0))).trans h_le
    have h_short : (pre ++ [Operation.close i]).length ≤ l.length := by
      rw [h_eq]
      simp
    have h_lt := h_bound.trans_lt (h_short.trans_lt h_length)
    exact_mod_cast Nat.eq_zero_of_dvd_of_lt (by exact_mod_cast h_dvd) h_lt

end ClosedOnce

/-! ### A transport that is closed twice -/

/-- Two transports are made on a port, and the first one is closed twice. -/
def closedTwice : List Operation :=
  [.construct (some 4567) (some ['/', '1']), .construct (some 4567) (some ['/', '2']),
    .close 0, .close 0]

/-- The service of the second transport is stopped, and once more the first one cannot be
closed at all. -/
theorem not_lives_closedTwice :
    (after closedTwice).transports[1]? = some ⟨4567, 0, 0⟩ ∧ 0 ∈ (after closedTwice).stopped ∧
      ¬Lives (after closedTwice) ∧ ¬(after closedTwice).ClosesWell (.close 1) := by
  have h_second : (after closedTwice).transports[1]? = some ⟨4567, 0, 0⟩ := by decide +kernel
  have h_stopped : 0 ∈ (after closedTwice).stopped := by decide +kernel
  refine ⟨h_second, h_stopped, ?_, ?_⟩
  · intro h
    exact h.running ⟨4567, 0, 0⟩ (List.mem_of_getElem? h_second) rfl h_stopped
  · unfold ClosesWell
    decide +kernel

end State

end Ethiso.Http
