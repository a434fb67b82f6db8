import Ethiso.Framework.Custody
import Ethiso.Service.PaymentFutures

/-!
# Futures tell the truth about their payments

The invariant (`Inv`) ties four things together. The promises in the map are sound, and their
names are the message ids of the payments. Each future has its transaction in
one place: in a call that has started, in flight, or executed. The transactions are those of
the payments. And each result for the bank in the log was emitted by an execution of one of
them.

When a result is delivered, the map gives the future that was registered under its message
id, and the execution that emitted it has a future whose payment has this message id. As
message ids are used once, it is the same future.
-/

namespace Ethiso

open Abi PaymentServiceImpl

namespace PaymentFutures

variable {α : Type}

/-! ### One payment -/

/-- What `encode` accepts, besides texts that are not too long. -/
theorem sendTransaction_ok {p : Payment} {call : TrustlineCall} (h : p.sendTransaction = .ok call) :
    0 ≤ p.paymentAmount ∧ p.paymentAmount < 2 ^ 256 ∧
      call = .sendPayment (.ofRpc p.toAddress) p.currency.toString
        (BitVec.ofInt 256 p.paymentAmount) p.messageId
        (String.ofList p.additionalProperties.characters) := by
  obtain ⟨text, h_encode, h_call⟩ := bind_eq_ok.mp h
  rw [pure_eq_ok] at h_call
  obtain ⟨as, h_converters, h_objects, h_returns⟩ :=
    Abi.FunctionEncoding.encode_returns (by decide) h_encode
  -- the third argument is the amount
  have h_amount : ∃ a ∈ as, a.typeConverter = ⟨.bigInteger, .uint ⟨256, by decide⟩⟩ ∧
      a.object = ⟨.bigInteger, p.paymentAmount⟩ := by
    have h_conv : (as.map Argument.typeConverter)[2]? = sendPaymentEncoding.inputParameters[2]? :=
      congrArg (fun l => l[2]?) h_converters
    have h_obj : (as.map Argument.object)[2]? = p.args[2]? := congrArg (fun l => l[2]?) h_objects
    rw [List.getElem?_map] at h_conv h_obj
    obtain ⟨a, h_a, h_conv⟩ := Option.map_eq_some_iff.mp h_conv
    rw [h_a] at h_obj
    exact ⟨a, List.mem_of_getElem? h_a, h_conv, Option.some.inj h_obj⟩
  obtain ⟨⟨c, converter, value⟩, h_mem, h_conv, h_obj⟩ := h_amount
  obtain ⟨rfl, h_value⟩ := JavaObject.mk.inj h_obj
  obtain rfl := eq_of_heq h_value
  obtain rfl := eq_of_heq (Sigma.mk.inj h_conv).2
  obtain ⟨h_nonneg, h_lt⟩ := h_returns.accepted _ h_mem
  exact ⟨h_nonneg, h_lt, h_call.symm⟩

/-- A word that is not negative is the number that it was made of. -/
theorem toInt_ofInt_of_not_slt {n : ℤ} (h : 0 ≤ n ∧ n < 2 ^ 256)
    (h_neg : (BitVec.ofInt 256 n).slt 0 = false) : (BitVec.ofInt 256 n).toInt = n := by
  have h_nonneg : ¬(BitVec.ofInt 256 n).toInt < 0 := by
    rw [BitVec.slt_eq_decide] at h_neg
    simpa using h_neg
  rw [BitVec.toInt_ofInt, Int.bmod_def] at h_nonneg ⊢
  split_ifs at h_nonneg ⊢ <;> omega

section Payment

variable {us : Address} {p : Payment} {e : Execution}

/-- An executed payment is applied or refused. -/
theorem applied_or_refused (h : p.sendTransaction = .ok e.call) :
    Applied us p e ∨
      ∃ message, Refused e.before us p.messageId message (e.call.exec e.before us) := by
  obtain ⟨h_nonneg, h_lt, h_call⟩ := sendTransaction_ok h
  unfold Applied
  rw [h_call]
  -- admitted, refused by a guard, or over the limit
  rcases @admits_or_guard_or_overLimit e.before us (.ofRpc p.toAddress) p.currency.toString
    (BitVec.ofInt 256 p.paymentAmount) with h_adm | h_guard | h_over
  · left
    exact ⟨_, toInt_ofInt_of_not_slt ⟨h_nonneg, h_lt⟩ h_adm.2.2.1, Settled.of_admits _ _ h_adm⟩
  · right
    obtain ⟨h_state, h_payment, ⟨message, errorType, h_ne, h_result⟩, -⟩ :=
      Rejected.of_guard p.messageId (String.ofList p.additionalProperties.characters) h_guard
    exact ⟨message, h_state, h_payment, errorType, h_ne, h_result⟩
  · right
    refine ⟨"payment would exceed limits", ?_⟩
    have h_eq := sendPayment_overLimit p.messageId (String.ofList p.additionalProperties.characters)
      h_over
    rw [TrustlineCall.exec, h_eq]
    exact ⟨rfl, rfl, 4, by decide, rfl⟩

/-- **The result of an executed payment** has its message id, and tells what the execution
did. -/
theorem result_tells (h : p.sendTransaction = .ok e.call) {sender : Address}
    {messageId message : String} {errorType : Int256}
    (h_mem : .resultMessage sender messageId message errorType ∈
      (e.call.exec e.before us).events) :
    messageId = p.messageId ∧
      Outcome.Tells us p e
        (if errorType.toInt ≠ 0 then .exceptionally message else .normally) := by
  have h_mem' : .resultMessage sender messageId message errorType ∈
      resultMessages (e.call.exec e.before us).events :=
    List.mem_filter.mpr ⟨h_mem, rfl⟩
  -- one result was emitted, so it is this one
  rcases applied_or_refused h with ⟨amount, h_amount, h_settled⟩ | ⟨message', h_refused⟩
  · obtain ⟨message', h_result⟩ := h_settled.result
    rw [h_result, List.mem_singleton] at h_mem'
    obtain ⟨-, rfl, -, rfl⟩ := Event.resultMessage.inj h_mem'
    exact ⟨rfl, amount, h_amount, h_settled⟩
  · obtain ⟨errorType', h_ne, h_result⟩ := h_refused.result
    rw [h_result, List.mem_singleton] at h_mem'
    obtain ⟨-, rfl, rfl, rfl⟩ := Event.resultMessage.inj h_mem'
    have h_int : errorType.toInt ≠ 0 := fun hc => h_ne (BitVec.toInt_inj.mp hc)
    rw [if_pos h_int]
    exact ⟨rfl, h_refused⟩

end Payment

/-! ### The invariant -/

/-- The futures whose transactions are about to be sent, in flight, or executed. -/
def State.custody (s : State) : List ℕ :=
  s.started.map Prod.fst ++ (s.transactions.map Prod.fst ++ s.executions.map Execution.future)

/-- The invariant: who has which future. -/
structure Inv (us : Address) (s : State) : Prop where
  promises : s.pendingPayments.Sound
  names : s.pendingPayments.names = s.payments.map Payment.messageId
  fulfilled : s.pendingPayments.fulfilled = s.completions.map Completion.future
  custody : s.custody.Nodup
  custody_lt : ∀ k ∈ s.custody, k < s.payments.length
  started : ∀ t ∈ s.started, s.payments[t.1]? = some t.2
  transactions : ∀ t ∈ s.transactions, ∃ p, s.payments[t.1]? = some p ∧
    p.sendTransaction = .ok t.2
  executions : ∀ e ∈ s.executions, ∃ p, s.payments[e.future]? = some p ∧
    p.sendTransaction = .ok e.call
  log : ∀ l ∈ s.log, ∀ messageId message errorType,
    l.event = .resultMessage us messageId message errorType →
      ∃ e ∈ s.executions, l.future = some e.future ∧ l.event ∈ (e.call.exec e.before us).events
  truthful : ∀ c ∈ s.completions, Truthful us s c

section Step

variable {us : Address} {s : State}

/-- What was truthful stays so. -/
theorem Truthful.mono {t : State} {c : Completion}
    (h_payments : ∀ (k : ℕ) p, s.payments[k]? = some p → t.payments[k]? = some p)
    (h_executions : ∀ e ∈ s.executions, e ∈ t.executions) (h : Truthful us s c) :
    Truthful us t c := by
  obtain ⟨p, h_p, e, h_e, h_rest⟩ := h
  exact ⟨p, h_payments _ _ h_p, e, h_executions e h_e, h_rest⟩

/-- A new payment has its future. -/
theorem Inv.register (h : Inv us s) {p : Payment}
    (h_fresh : p.messageId ∉ s.pendingPayments.names) :
    Inv us { s with
      pendingPayments := s.pendingPayments.register p.messageId
      payments := s.payments ++ [p]
      started := s.started ++ [(s.payments.length, p)] } := by
  have h_old : ∀ (k : ℕ) q, s.payments[k]? = some q → (s.payments ++ [p])[k]? = some q := by
    intro k q h_q
    rw [List.getElem?_append_left (List.getElem?_eq_some_iff.mp h_q).1, h_q]
  -- the new future is the number of payments so far
  have h_perm : (State.custody { s with started := s.started ++ [(s.payments.length, p)] }).Perm
      (s.payments.length :: s.custody) := by
    unfold State.custody
    dsimp only
    rw [List.map_append, List.append_assoc]
    exact List.perm_middle
  refine ⟨h.promises.register h_fresh, ?_, h.fulfilled, ?_, ?_, ?_, ?_, ?_, h.log, ?_⟩
  · show s.pendingPayments.names ++ [p.messageId] = (s.payments ++ [p]).map Payment.messageId
    rw [h.names, List.map_append, List.map_singleton]
  · exact h_perm.nodup_iff.mpr
      (List.nodup_cons.mpr ⟨fun hc => Nat.lt_irrefl _ (h.custody_lt _ hc), h.custody⟩)
  · intro k h_k
    show k < (s.payments ++ [p]).length
    rw [List.length_append, List.length_singleton]
    rcases List.mem_cons.mp (h_perm.mem_iff.mp h_k) with rfl | h_k
    · omega
    · have := h.custody_lt k h_k
      omega
  · intro t h_t
    rcases List.mem_append.mp h_t with h_t | h_t
    · exact h_old _ _ (h.started t h_t)
    · rw [List.mem_singleton.mp h_t]
      exact List.getElem?_concat_length
  · intro t h_t
    obtain ⟨q, h_q, h_call⟩ := h.transactions t h_t
    exact ⟨q, h_old _ _ h_q, h_call⟩
  · intro e h_e
    obtain ⟨q, h_q, h_call⟩ := h.executions e h_e
    exact ⟨q, h_old _ _ h_q, h_call⟩
  · exact fun c h_c => (h.truthful c h_c).mono h_old fun e h_e => h_e

/-- Sending a transaction keeps the invariant. -/
theorem Inv.sendTransaction (h : Inv us s) (i : ℕ) : Inv us (s.sendTransaction i) := by
  unfold State.sendTransaction
  cases h_i : s.started[i]? with
  | none => exact h
  | some t =>
    obtain ⟨k, p⟩ := t
    have h_p : s.payments[k]? = some p := h.started _ (List.mem_of_getElem? h_i)
    have h_perm : s.custody.Perm (k :: ((s.started.eraseIdx i).map Prod.fst ++
        (s.transactions.map Prod.fst ++ s.executions.map Execution.future))) :=
      ((perm_cons_eraseIdx h_i).map Prod.fst).append_right _
    -- there is a transaction, unless `encode` throws
    let calls : List (ℕ × TrustlineCall) := p.sendTransaction.toOption.toList.map fun c => (k, c)
    have h_calls : (calls.map Prod.fst).Sublist [k] ∧
        ∀ t ∈ calls, t.1 = k ∧ p.sendTransaction = .ok t.2 := by
      unfold calls
      cases p.sendTransaction with
      | error _ => exact ⟨List.nil_sublist _, fun t h_t => absurd h_t List.not_mem_nil⟩
      | ok call => exact ⟨List.Sublist.refl _, fun t h_t => by
          obtain rfl := List.mem_singleton.mp h_t
          exact ⟨rfl, rfl⟩⟩
    have h_sub : (State.custody { s with
        started := s.started.eraseIdx i, transactions := s.transactions ++ calls }).Subperm
          s.custody := by
      refine List.Subperm.trans ?_ h_perm.symm.subperm
      unfold State.custody
      dsimp only
      rw [List.map_append, List.append_assoc]
      have h_middle : ((s.started.eraseIdx i).map Prod.fst ++ (s.transactions.map Prod.fst ++
          k :: s.executions.map Execution.future)).Perm
            (k :: ((s.started.eraseIdx i).map Prod.fst ++
              (s.transactions.map Prod.fst ++ s.executions.map Execution.future))) :=
        (List.perm_middle.append_left _).trans List.perm_middle
      refine List.Subperm.trans (List.Sublist.subperm ?_) h_middle.subperm
      exact List.Sublist.append_left (List.Sublist.append_left (h_calls.1.append_right _) _) _
    dsimp only
    refine { h with
      custody := nodup_of_subperm h.custody h_sub
      custody_lt := fun j h_j => h.custody_lt j (h_sub.subset h_j)
      started := fun t h_t => h.started t (List.mem_of_mem_eraseIdx h_t)
      transactions := ?_ }
    intro t h_t
    rcases List.mem_append.mp h_t with h_t | h_t
    · exact h.transactions t h_t
    · obtain ⟨h_k, h_ok⟩ := h_calls.2 t h_t
      exact ⟨p, by rw [h_k]; exact h_p, h_ok⟩

/-- The events of an execution of the bank's own payment. -/
theorem Inv.execute (h : Inv us s) (i : ℕ) : Inv us (s.execute us i) := by
  unfold State.execute
  cases h_i : s.transactions[i]? with
  | none => exact h
  | some t =>
    obtain ⟨k, call⟩ := t
    obtain ⟨p, h_p, h_ok⟩ := h.transactions _ (List.mem_of_getElem? h_i)
    have h_old : ∀ e ∈ s.executions, e ∈ s.executions ++ [⟨k, s.contract, call⟩] := fun e h_e =>
      List.mem_append_left _ h_e
    -- the future moves from the transactions in flight to those that were executed
    have h_perm : (State.custody { s with
        transactions := s.transactions.eraseIdx i
        executions := s.executions ++ [⟨k, s.contract, call⟩] }).Perm s.custody := by
      unfold State.custody
      dsimp only
      apply List.Perm.append_left _
      rw [List.map_append, ← List.append_assoc]
      refine (List.perm_append_singleton _ _).trans ?_
      exact (((perm_cons_eraseIdx h_i).map Prod.fst).append_right _).symm
    dsimp only
    refine { h with
      custody := h_perm.nodup_iff.mpr h.custody
      custody_lt := fun j h_j => h.custody_lt j (h_perm.mem_iff.mp h_j)
      transactions := fun t h_t => h.transactions t (List.mem_of_mem_eraseIdx h_t)
      executions := ?_
      log := ?_
      truthful := ?_ }
    · intro e h_e
      rcases List.mem_append.mp h_e with h_e | h_e
      · exact h.executions e h_e
      · obtain rfl := List.mem_singleton.mp h_e
        exact ⟨p, h_p, h_ok⟩
    · intro l h_l messageId message errorType h_event
      -- an old event, or one of this execution
      rcases List.mem_append.mp h_l with h_l | h_l
      · obtain ⟨e, h_e, h_future⟩ := h.log l h_l _ _ _ h_event
        exact ⟨e, h_old e h_e, h_future⟩
      · obtain ⟨event, h_mem, rfl⟩ := List.mem_map.mp h_l
        exact ⟨⟨k, s.contract, call⟩, List.mem_append_right _ (List.mem_singleton_self _), rfl,
          h_mem⟩
    · intro c h_c
      exact Truthful.mono (s := s) (fun _ _ h_q => h_q) h_old (h.truthful c h_c)

/-- A result for the bank comes from a payment that the bank has sent. -/
theorem sender_of_resultMessage {contract : PaymentService} {sender fromBank : Address}
    {call : TrustlineCall} {messageId message : String} {errorType : Int256}
    (h : .resultMessage fromBank messageId message errorType ∈ (call.exec contract sender).events) :
    sender = fromBank ∧ ∃ them ccy amount id properties,
      call = .sendPayment them ccy amount id properties := by
  have h_report : .resultMessage fromBank messageId message errorType ∈
      paymentReports (call.exec contract sender).events := List.mem_filter.mpr ⟨h, rfl⟩
  cases call with
  -- the setters report no payment
  | setLimit them ccy amount =>
    rw [TrustlineCall.exec, (setLimit_answer contract sender them ccy amount).2] at h_report
    exact absurd h_report List.not_mem_nil
  | setAllow them ccy amount =>
    rw [TrustlineCall.exec, (setAllow_answer contract sender them ccy amount).2] at h_report
    exact absurd h_report List.not_mem_nil
  | sendPayment them ccy amount id properties =>
    refine ⟨?_, them, ccy, amount, id, properties, rfl⟩
    rcases eq_of_mem_sendPayment _ _ h with h_eq | ⟨message', errorType', h_eq⟩
    · exact absurd h_eq (by simp)
    · exact (Event.resultMessage.inj h_eq).1.symm

/-- A call of somebody else keeps it: it reports nothing on payments of the service. -/
theorem Inv.call (h : Inv us s) {sender : Address} {call : TrustlineCall}
    (h_else : Input.PaysFromElsewhere us (.call sender call : Input α)) :
    Inv us (s.call sender call) := by
  refine { h with log := ?_ }
  intro l h_l messageId message errorType h_event
  rcases List.mem_append.mp h_l with h_l | h_l
  · exact h.log l h_l _ _ _ h_event
  · obtain ⟨event, h_mem, rfl⟩ := List.mem_map.mp h_l
    obtain rfl : event = .resultMessage us messageId message errorType := h_event
    obtain ⟨h_sender, _, _, _, _, _, rfl⟩ := sender_of_resultMessage h_mem
    exact absurd h_sender h_else

/-! ### Deliveries -/

/-- Only the bank's own results pass the filter. -/
theorem paymentResult_eq_some {e : Event} {fromAccount : RpcAddress} {result : PaymentResult}
    (h : e.paymentResult fromAccount = some result) :
    ∃ errorType : Int256, result.errorType = errorType.toInt ∧
      e = .resultMessage (.ofRpc fromAccount) result.messageId result.message errorType := by
  unfold Event.paymentResult at h
  cases e with
  -- the only event with a handler here
  | resultMessage fromBank messageId message errorType =>
    obtain ⟨h_text, h⟩ := Option.ite_none_right_eq_some.mp h
    obtain rfl := Address.eq_of_toWideAddressString h_text
    obtain ⟨-, h⟩ := Option.ite_none_right_eq_some.mp h
    obtain rfl := Option.some.inj h
    exact ⟨errorType, rfl, rfl⟩
  | trustlineModified => exact absurd h (by simp)
  | paymentMessage => exact absurd h (by simp)
  | debugMessage => exact absurd h (by simp)
  | amountMessage => exact absurd h (by simp)

/-- **A result is delivered.** The future that is pending under its message id is the one
whose execution has emitted it. -/
theorem Inv.onResult (h : Inv us s) {l : Logged} (h_l : l ∈ s.log) {result : PaymentResult}
    {errorType : Int256} (h_type : result.errorType = errorType.toInt)
    (h_event : l.event = .resultMessage us result.messageId result.message errorType) :
    Inv us (s.onResult l result) := by
  refine { h with
    promises := h.promises.fulfil _
    fulfilled := ?_
    truthful := ?_ }
  · show s.pendingPayments.fulfilled ++ _ = List.map Completion.future (s.completions ++ _)
    rw [h.fulfilled, List.map_append]
    cases s.pendingPayments.pending result.messageId <;> rfl
  · intro c h_c
    rcases List.mem_append.mp h_c with h_c | h_c
    · exact h.truthful c h_c
    obtain ⟨k, h_k, rfl⟩ := List.mem_map.mp h_c
    have h_pending := Option.mem_toList.mp h_k
    obtain ⟨h_name, -⟩ := h.promises.pending _ _ h_pending
    -- `k` was pending, `e` has emitted the result
    obtain ⟨e, h_e, h_future, h_mem⟩ := h.log l h_l _ _ _ h_event
    obtain ⟨p, h_p, h_ok⟩ := h.executions e h_e
    have h_mem' := h_mem
    rw [h_event] at h_mem'
    obtain ⟨h_id, h_tells⟩ := result_tells h_ok h_mem'
    -- both futures are registered under the message id
    have h_name' : s.pendingPayments.names[e.future]? = some result.messageId := by
      rw [h.names, List.getElem?_map, h_p, h_id]
      rfl
    obtain rfl := h.promises.eq_of_name h_name h_name'
    rw [← h_type] at h_tells
    exact ⟨p, h_p, e, h_e, rfl, h_ok, h_future, h_mem, h_tells⟩

/-- **A delivery** keeps it: a future is completed by the report on its payment. -/
theorem Inv.deliver {fromAccount : RpcAddress} (h : Inv (.ofRpc fromAccount) s) (i : ℕ) :
    Inv (.ofRpc fromAccount) (s.deliver fromAccount i) := by
  unfold State.deliver
  cases h_i : s.log[i]? with
  | none => exact h
  | some l =>
    dsimp only
    cases h_result : l.event.paymentResult fromAccount with
    | none => exact h
    | some result =>
      obtain ⟨errorType, h_type, h_event⟩ := paymentResult_eq_some h_result
      exact h.onResult (List.mem_of_getElem? h_i) h_type h_event

/-! ### Runs -/

/-- The invariant at the start. -/
theorem inv_init : Inv us State.init where
  promises := Promises.sound_empty
  names := rfl
  fulfilled := rfl
  custody := List.nodup_nil
  custody_lt _ h := absurd h List.not_mem_nil
  started _ h := absurd h List.not_mem_nil
  transactions _ h := absurd h List.not_mem_nil
  executions _ h := absurd h List.not_mem_nil
  log _ h := absurd h List.not_mem_nil
  truthful _ h := absurd h List.not_mem_nil

end Step

section Run

variable {writeValueAsString : Properties α → Option JavaString} {fromAccount : RpcAddress}

/-- The message id of a payment is that of its order. -/
theorem messageId_payment {registrar : NameToAddressRegistrar} {x : PaymentOrder α} {p : Payment}
    (h : x.payment writeValueAsString registrar = .ok p) : p.messageId = x.messageId := by
  obtain ⟨_, -, h_eq⟩ := bind_eq_ok.mp h
  rw [pure_eq_ok] at h_eq
  rw [← h_eq]

/-- **One step keeps the invariant.** -/
theorem Inv.step {s : State} (h : Inv (.ofRpc fromAccount) s) {i : Input α}
    (h_fresh : ∀ id, i.messageId = some id → id ∉ s.pendingPayments.names)
    (h_else : i.PaysFromElsewhere (.ofRpc fromAccount)) :
    Inv (.ofRpc fromAccount) (s.step writeValueAsString fromAccount i) := by
  cases i with
  -- the name of the order is fresh, by assumption
  | sendPaymentAsync x =>
    show Inv _ (s.sendPaymentAsync writeValueAsString x)
    unfold State.sendPaymentAsync
    cases h_p : x.payment writeValueAsString s.registrar with
    | error _ => exact h
    | ok p => exact h.register (h_fresh p.messageId (congrArg some (messageId_payment h_p).symm))
  | sendTransaction i => exact h.sendTransaction i
  | execute i => exact h.execute i
  | call sender call => exact h.call h_else
  | setAddress name a => exact { h with }
  | deliver i => exact h.deliver i

end Run

end PaymentFutures

end Ethiso
