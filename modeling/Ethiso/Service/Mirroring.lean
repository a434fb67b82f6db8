import Ethiso.Service.EchoBot

/-!
# When Echo mirrors its counterparties

As long as the calls of the banks are `Answerable`, nobody has a limit on the bot and
the bot has no allow towards anybody. What is left to deliver and to execute is
harmless, or makes the bot's limit on a party equal to that party's allow
(`Inv`). Once all of it is done, the bot's figures are those of the other parties.

Each answer to an event is the other party's allow at the time of the answer, since the party
does not change it before the bot has followed. The event of the bot's own `setLimit`, which
is delivered to the bot as well, has no answer then: it shows the same figures in both
directions.
-/

namespace Ethiso

namespace EchoBot

open PaymentServiceImpl

/-! ### Answers -/

theorem int256_toInt {v : Int256} (h : 0 ≤ v.toInt) : int256 v.toInt = some v := by
  unfold int256
  have h_lt := @BitVec.toInt_lt 256 v
  rw [if_pos ⟨h, by omega⟩, BitVec.ofInt_toInt]

section Answers

variable {p1 p2 : Address} {ccy trustType : String} {fl rl fa ra : Int256}

/-- An event in an unknown currency is not answered. -/
theorem answers_unknown (h : Currency.valueOf ccy = none) :
    answers (.trustlineModified p1 p2 ccy trustType fl rl fa ra) = [] := by
  unfold answers
  rw [trustlineNotification_eq, h]
  rfl

/-- An event that shows the same figures in both directions has no answer. -/
theorem answers_same (h_allow : fa = rl) (h_limit : fl = ra) :
    answers (.trustlineModified p1 p2 ccy trustType fl rl fa ra) = [] := by
  unfold answers
  rw [trustlineNotification_eq, h_allow, h_limit]
  cases Currency.valueOf ccy with
  | none => rfl
  | some currency =>
    simp [trustlineModified]

/-- If the party has no limit on the bot, the bot follows its allow. -/
theorem answers_allow (h_ccy : Currency.valueOf ccy ≠ none) (h_ne : fa ≠ rl)
    (h_nonneg : 0 ≤ fa.toInt) :
    ∃ calls, answers (.trustlineModified p1 p2 ccy trustType 0 rl fa ra) =
        .setLimit p2 ccy fa :: calls ∧ ∀ call ∈ calls, call = .setAllow p2 ccy 0 := by
  obtain ⟨currency, h_currency⟩ := Option.ne_none_iff_exists'.mp h_ccy
  have h_name := Currency.valueOf_eq_some.mp h_currency
  -- as the words differ, so do the integers
  have h_int : fa.toInt ≠ rl.toInt := fun hc => h_ne (BitVec.toInt_inj.mp hc)
  unfold answers
  rw [trustlineNotification_eq, h_currency, Option.map_some]
  dsimp only
  unfold trustlineModified
  dsimp only
  rw [if_pos h_int, setLimit, int256_toInt h_nonneg, h_name]
  -- a second answer, if the allowance is not zero
  by_cases h_ra : (0 : Int256).toInt ≠ ra.toInt
  · rw [if_pos h_ra, setAllow, int256_toInt (by decide), h_name]
    exact ⟨[.setAllow p2 ccy 0], rfl, by simp⟩
  · rw [if_neg h_ra]
    exact ⟨[], rfl, by simp⟩

end Answers

/-! ### The invariant -/

/-- The bot will answer the event by following the allow of `a`. -/
def Asks (echo : Address) (s : State) (e : Caused Event) (a : Address) (ccy : String) : Prop :=
  e.cause.them = echo ∧ Currency.valueOf ccy ≠ none ∧
    ∃ trustType rl ra, s.contract.toLedger.allow a echo ccy ≠ rl ∧
      e.value =
        .trustlineModified echo a ccy trustType 0 rl (s.contract.toLedger.allow a echo ccy) ra

/-- The call makes the bot's limit on `a` equal to the allow of `a`. -/
def Follows (echo : Address) (s : State) (call : Caused TrustlineCall) (a : Address)
    (ccy : String) : Prop :=
  call.value = .setLimit a ccy (s.contract.toLedger.allow a echo ccy)

/-- What an event asks does not depend on other allowances. -/
theorem Asks.of_allow {echo a : Address} {s t : State} {e : Caused Event} {ccy : String}
    (h_allow : t.contract.toLedger.allow a echo ccy = s.contract.toLedger.allow a echo ccy)
    (h : Asks echo s e a ccy) : Asks echo t e a ccy := by
  unfold Asks at h ⊢
  rwa [h_allow]

theorem Follows.of_allow {echo a : Address} {s t : State} {call : Caused TrustlineCall}
    {ccy : String}
    (h_allow : t.contract.toLedger.allow a echo ccy = s.contract.toLedger.allow a echo ccy)
    (h : Follows echo s call a ccy) : Follows echo t call a ccy := by
  unfold Follows at h ⊢
  rwa [h_allow]

/-- What holds as long as the calls are answerable. -/
structure Inv (echo : Address) (s : State) : Prop where
  nonneg : ∀ a b ccy, 0 ≤ (s.contract.toLedger.allow a b ccy).toInt
  limit : ∀ a ≠ echo, ∀ ccy, s.contract.toLedger.limit a echo ccy = 0
  allow : ∀ a ≠ echo, ∀ ccy, s.contract.toLedger.allow echo a ccy = 0
  inbox : ∀ e ∈ s.inbox, answers e.value = [] ∨ ∃ a ccy, a ≠ echo ∧ Asks echo s e a ccy
  outbox : ∀ call ∈ s.outbox, call.cause.them = echo ∧
    ∃ a ccy, a ≠ echo ∧ (Follows echo s call a ccy ∨ call.value = .setAllow a ccy 0)
  followed : ∀ a ≠ echo, ∀ ccy,
    s.contract.toLedger.limit echo a ccy = s.contract.toLedger.allow a echo ccy ∨
      (∃ e ∈ s.inbox, Asks echo s e a ccy) ∨ ∃ call ∈ s.outbox, Follows echo s call a ccy

/-- **The mirror**, where the invariant holds. -/
theorem Inv.mirrorsCounterparties {echo : Address} {s : State} (h : Inv echo s) :
    MirrorsCounterparties echo s where
  mirrored h_inbox h_outbox a h_a ccy := by
    refine ⟨?_, (h.allow a h_a ccy).trans (h.limit a h_a ccy).symm⟩
    rcases h.followed a h_a ccy with h_eq | ⟨e, he, -⟩ | ⟨call, hc, -⟩
    · exact h_eq
    · exact absurd he (by simp [h_inbox])
    · exact absurd hc (by simp [h_outbox])
  foreign call outbox h_outbox h_cause :=
    absurd (h.outbox call (by simp [h_outbox])).1 h_cause

/-! ### Calls -/

/-- The figures between the bot and the others are the same in both ledgers, unless the
bot's limit follows the other party's allow. -/
structure SameFigures (echo : Address) (L M : CreditLedger Address String Int256) : Prop where
  limit : ∀ a ≠ echo, ∀ ccy, M.limit a echo ccy = L.limit a echo ccy
  allow : ∀ a ≠ echo, ∀ ccy, M.allow a echo ccy = L.allow a echo ccy
  ownLimit : ∀ a ≠ echo, ∀ ccy,
    M.limit echo a ccy = L.limit echo a ccy ∨ M.limit echo a ccy = L.allow a echo ccy
  ownAllow : ∀ a ≠ echo, ∀ ccy, M.allow echo a ccy = L.allow echo a ccy

theorem exec_nonneg {s : PaymentService} (h : ∀ a b ccy, 0 ≤ (s.toLedger.allow a b ccy).toInt)
    (sender : Address) (call : TrustlineCall) (a b : Address) (ccy : String) :
    0 ≤ ((call.exec s sender).state.toLedger.allow a b ccy).toInt :=
  exec_figure_nonneg (F := .allow) (h a b ccy) sender call

section Step

variable {echo : Address} {s : State}

/-- **Steps that leave the bot's trustlines alone**, and whose events have no answers. -/
theorem Inv.quiet (h : Inv echo s) {contract : PaymentService} {events : List (Caused Event)}
    (h_nonneg : ∀ a b ccy, 0 ≤ (contract.toLedger.allow a b ccy).toInt)
    (h_same : SameFigures echo s.contract.toLedger contract.toLedger)
    (h_events : ∀ e ∈ events, answers e.value = []) :
    Inv echo ⟨contract, s.inbox ++ events, s.outbox⟩ := by
  refine ⟨h_nonneg, ?_, ?_, ?_, ?_, ?_⟩
  -- the figures of the bot are those of before
  · intro a h_a ccy
    exact (h_same.limit a h_a ccy).trans (h.limit a h_a ccy)
  · intro a h_a ccy
    exact (h_same.ownAllow a h_a ccy).trans (h.allow a h_a ccy)
  · intro e he
    rcases List.mem_append.mp he with he | he
    · exact (h.inbox e he).imp_right fun ⟨a, ccy, h_a, h_e⟩ =>
        ⟨a, ccy, h_a, h_e.of_allow (h_same.allow a h_a ccy)⟩
    -- the new events ask nothing of the bot
    · exact Or.inl (h_events e he)
  · intro call hc
    obtain ⟨h_cause, a, ccy, h_a, h_call⟩ := h.outbox call hc
    exact ⟨h_cause, a, ccy, h_a,
      h_call.imp_left fun h_call => h_call.of_allow (h_same.allow a h_a ccy)⟩
  -- the allowance is followed, or it will be
  · intro a h_a ccy
    rcases h.followed a h_a ccy with h_eq | ⟨e, he, h_e⟩ | ⟨call, hc, h_call⟩
    · left
      rw [h_same.allow a h_a ccy]
      exact (h_same.ownLimit a h_a ccy).elim (fun h_own => h_own.trans h_eq) id
    · exact Or.inr (Or.inl ⟨e, List.mem_append_left _ he, h_e.of_allow (h_same.allow a h_a ccy)⟩)
    · exact Or.inr (Or.inr ⟨call, hc, h_call.of_allow (h_same.allow a h_a ccy)⟩)

/-- A call by another bank leaves the bot's own figures. -/
theorem exec_ownFigures (s : PaymentService) {sender : Address} (h : sender ≠ echo)
    (call : TrustlineCall) (F : CreditLedger.Figure) (a : Address) (ccy : String) :
    (call.exec s sender).state.toLedger.figure F echo a ccy = s.toLedger.figure F echo a ccy := by
  rw [exec_figure]
  cases F <;> cases call <;> simp [figureSet, limitSet, allowSet, h]

/-- A call about somebody else leaves the figures of the other parties towards the bot. -/
theorem exec_figures_other (s : PaymentService) {sender : Address} {call : TrustlineCall}
    (h : call.them ≠ echo) (F : CreditLedger.Figure) (a : Address) (ccy : String) :
    (call.exec s sender).state.toLedger.figure F a echo ccy = s.toLedger.figure F a echo ccy := by
  rw [exec_figure]
  cases F <;> cases call <;> simp_all [figureSet, limitSet, allowSet, TrustlineCall.them]

/-- A call between others changes no figure of the bot. -/
theorem sameFigures_foreign (s : PaymentService) {sender : Address} {call : TrustlineCall}
    (h_sender : sender ≠ echo) (h_them : call.them ≠ echo) :
    SameFigures echo s.toLedger (call.exec s sender).state.toLedger where
  limit a _ ccy := exec_figures_other s h_them .limit a ccy
  allow a _ ccy := exec_figures_other s h_them .allow a ccy
  ownLimit a _ ccy := Or.inl (exec_ownFigures s h_sender call .limit a ccy)
  ownAllow a _ ccy := exec_ownFigures s h_sender call .allow a ccy

/-- A call that changes nothing and emits nothing. -/
theorem State.exec_idle {sender : Address} {call : Caused TrustlineCall}
    (h_state : (call.value.exec s.contract sender).state = s.contract)
    (h_events : (call.value.exec s.contract sender).events = []) : s.exec sender call = s := by
  unfold State.exec
  dsimp only
  rw [h_state, h_events]
  simp [trustlineModifications]

/-- `setLimit` to what is there does nothing. -/
theorem exec_setLimit_idle {sender them : Address} {ccy : String} {amount : Int256}
    {cause : TrustlineCall}
    (h : amount.slt 0 = true ∨ s.contract.getLimit sender them ccy false = amount) :
    s.exec sender ⟨.setLimit them ccy amount, cause⟩ = s := by
  refine State.exec_idle (s.contract.setLimit_idle sender them ccy amount h) ?_
  show (s.contract.setLimit sender them ccy amount).events = []
  rw [PaymentService.setLimit_events, if_pos h]

theorem exec_setAllow_idle {sender them : Address} {ccy : String} {amount : Int256}
    {cause : TrustlineCall}
    (h : amount.slt 0 = true ∨ s.contract.getAllow sender them ccy false = amount) :
    s.exec sender ⟨.setAllow them ccy amount, cause⟩ = s := by
  refine State.exec_idle (s.contract.setAllow_idle sender them ccy amount h) ?_
  show (s.contract.setAllow sender them ccy amount).events = []
  rw [PaymentService.setAllow_events, if_pos h]

/-- A call about somebody else, the event of which has no answer. -/
theorem Inv.foreign (h : Inv echo s) {sender : Address} {call : TrustlineCall}
    (h_sender : sender ≠ echo) (h_them : call.them ≠ echo)
    (h_events : ∀ e ∈ (call.exec s.contract sender).events, answers e = []) :
    Inv echo (s.step echo (.call sender call)) := by
  refine h.quiet (exec_nonneg h.nonneg sender call)
    (sameFigures_foreign s.contract h_sender h_them) ?_
  intro e he
  obtain ⟨e', he', rfl⟩ := List.mem_map.mp he
  exact h_events e' (List.mem_of_mem_filter he')

/-- **A payment** keeps the mirror: it changes no figure. -/
theorem Inv.payment (h : Inv echo s) {sender them : Address} {ccy messageId properties : String}
    {amount : Int256} :
    Inv echo (s.step echo (.call sender (.sendPayment them ccy amount messageId properties))) := by
  refine h.quiet (exec_nonneg h.nonneg sender _) ?_ ?_
  · have h_limit := @PaymentService.sendPayment_figure s.contract sender them ccy amount messageId
      properties .limit
    have h_allow := @PaymentService.sendPayment_figure s.contract sender them ccy amount messageId
      properties .allow
    exact ⟨fun a _ k => congrFun₃ h_limit a echo k, fun a _ k => congrFun₃ h_allow a echo k,
      fun a _ k => Or.inl (congrFun₃ h_limit echo a k), fun a _ k => congrFun₃ h_allow echo a k⟩
  -- its events are no trustline notifications
  · intro e he
    obtain ⟨e', he', rfl⟩ := List.mem_map.mp he
    have h_none := sendPayment_trustlineNotification sender them s.contract ccy amount messageId
      properties e' (List.mem_of_mem_filter he')
    show answers e' = []
    rw [answers, h_none]

section Asked

variable {sender : Address} {ccy : String} {amount : Int256}

/-- What a `setAllow` towards the bot does to the figures. -/
theorem setAllow_figures_echo (h_ne : sender ≠ echo) (h_neg : amount.slt 0 = false) :
    let L := s.contract.toLedger
    let M := (s.contract.setAllow sender echo ccy amount).state.toLedger
    M.limit = L.limit ∧ M.allow sender echo ccy = amount ∧
      (∀ a k, ¬(a = sender ∧ k = ccy) → M.allow a echo k = L.allow a echo k) ∧
      ∀ a k, M.allow echo a k = L.allow echo a k := by
  -- only one allowance changes
  have h_ledger := s.contract.setAllow_toLedger sender echo ccy amount h_neg
  refine ⟨by rw [h_ledger]; rfl, ?_, ?_, ?_⟩
  · rw [h_ledger]
    exact CreditLedger.put_self _ _ _ _ _
  · intro a k h_diff
    rw [h_ledger]
    exact CreditLedger.put_other _ fun hc => h_diff ⟨hc.1, hc.2.2⟩
  · intro a k
    rw [h_ledger]
    exact CreditLedger.put_other _ fun hc => h_ne hc.1.symm

/-- If the bot has nothing left to do, its limit is the allow of the other party. -/
theorem Inv.limit_eq_of_nothingLeft (h : Inv echo s) (h_ne : sender ≠ echo)
    (h_left : NothingLeft echo s sender ccy) :
    s.contract.toLedger.limit echo sender ccy = s.contract.toLedger.allow sender echo ccy := by
  rcases h.followed sender h_ne ccy with h_eq | ⟨e, he, h_e⟩ | ⟨call, hc, h_call⟩
  · exact h_eq
  · obtain ⟨-, -, trustType, rl, ra, -, h_value⟩ := h_e
    exact absurd h_value (h_left.1 e he _ _ _ _ _)
  · exact absurd (by rw [h_call]; exact ⟨rfl, rfl⟩) (h_left.2 call hc)

/-- The event of a larger address has the bot first, and the new allow as the last figure
but one. -/
theorem Inv.step_asked (h : Inv echo s) (h_role : echo < sender)
    (h_left : NothingLeft echo s sender ccy)
    (h_active : ¬(amount.slt 0 = true ∨ s.contract.getAllow sender echo ccy false = amount)) :
    s.step echo (.call sender (.setAllow echo ccy amount)) =
      ⟨(s.contract.setAllow sender echo ccy amount).state,
        s.inbox ++ [⟨.trustlineModified echo sender ccy "allow" 0
          (s.contract.toLedger.allow sender echo ccy) amount
          (s.contract.toLedger.allow sender echo ccy), .setAllow echo ccy amount⟩],
        s.outbox⟩ := by
  have h_ne : sender ≠ echo := fun hc => by bv_omega
  have h_role' : ¬sender < echo := fun hc => by bv_omega
  have h_zero : s.contract.getLimit sender echo ccy false = 0 := h.limit sender h_ne ccy
  -- the limit of the bot on the sender has followed the sender's allow
  have h_reverse : s.contract.getLimit sender echo ccy true =
      s.contract.toLedger.allow sender echo ccy :=
    (s.contract.getFigure_eq sender echo ccy .limit h_ne true).trans
      (h.limit_eq_of_nothingLeft h_ne h_left)
  unfold State.step State.exec
  dsimp only [TrustlineCall.exec]
  rw [PaymentService.setAllow_events, if_neg h_active, if_neg h_role', if_neg h_role', h_zero,
    h_reverse]
  rfl

/-- **A larger address sets its allow** towards the bot, which has nothing left to do about
this trustline. -/
theorem Inv.asked (h : Inv echo s) (h_role : echo < sender) (h_ccy : Currency.valueOf ccy ≠ none)
    (h_left : NothingLeft echo s sender ccy)
    (h_active : ¬(amount.slt 0 = true ∨ s.contract.getAllow sender echo ccy false = amount)) :
    Inv echo (s.step echo (.call sender (.setAllow echo ccy amount))) := by
  have h_ne : sender ≠ echo := fun hc => by bv_omega
  have h_neg : amount.slt 0 = false := Bool.eq_false_iff.mpr (not_or.mp h_active).1
  obtain ⟨h_limit, h_self, h_other, h_own⟩ :=
    @setAllow_figures_echo echo s sender ccy amount h_ne h_neg
  rw [h.step_asked h_role h_left h_active]
  set e₀ : Caused Event := ⟨.trustlineModified echo sender ccy "allow" 0
    (s.contract.toLedger.allow sender echo ccy) amount
    (s.contract.toLedger.allow sender echo ccy), .setAllow echo ccy amount⟩
  set t : State := ⟨(s.contract.setAllow sender echo ccy amount).state, s.inbox ++ [e₀], s.outbox⟩
  have h_ask : Asks echo t e₀ sender ccy := by
    refine ⟨rfl, h_ccy, "allow", s.contract.toLedger.allow sender echo ccy,
      s.contract.toLedger.allow sender echo ccy, ?_, ?_⟩
    · rw [h_self]
      exact fun hc => h_active (Or.inr hc.symm)
    · rw [h_self]
  -- what is left to do is about other trustlines
  have h_asks {e a k} (he : e ∈ s.inbox) (h_e : Asks echo s e a k) : Asks echo t e a k := by
    refine h_e.of_allow (h_other a k ?_)
    rintro ⟨rfl, rfl⟩
    obtain ⟨-, -, trustType, rl, ra, -, h_value⟩ := h_e
    exact h_left.1 e he _ _ _ _ _ h_value
  have h_follows {call a k} (hc : call ∈ s.outbox) (h_call : Follows echo s call a k) :
      Follows echo t call a k := by
    refine h_call.of_allow (h_other a k ?_)
    rintro ⟨rfl, rfl⟩
    exact h_left.2 call hc (by rw [h_call]; exact ⟨rfl, rfl⟩)
  refine ⟨exec_nonneg h.nonneg sender (.setAllow echo ccy amount), ?_, ?_, ?_, ?_, ?_⟩
  · intro a h_a k
    rw [h_limit]
    exact h.limit a h_a k
  · intro a h_a k
    rw [h_own]
    exact h.allow a h_a k
  · intro e he
    rcases List.mem_append.mp he with he | he
    · exact (h.inbox e he).imp_right fun ⟨a, k, h_a, h_e⟩ => ⟨a, k, h_a, h_asks he h_e⟩
    · obtain rfl := List.mem_singleton.mp he
      exact Or.inr ⟨sender, ccy, h_ne, h_ask⟩
  · intro call hc
    obtain ⟨h_cause, a, k, h_a, h_call⟩ := h.outbox call hc
    exact ⟨h_cause, a, k, h_a, h_call.imp_left (h_follows hc)⟩
  · intro a h_a k
    by_cases h_diff : a = sender ∧ k = ccy
    · obtain ⟨rfl, rfl⟩ := h_diff
      exact Or.inr (Or.inl ⟨e₀, List.mem_append_right _ (List.mem_singleton.mpr rfl), h_ask⟩)
    · rw [h_limit, h_other a k h_diff]
      apply (h.followed a h_a k).imp_right
      rintro (⟨e, he, h_e⟩ | ⟨call, hc, h_call⟩)
      · exact Or.inl ⟨e, List.mem_append_left _ he, h_asks he h_e⟩
      · exact Or.inr ⟨call, hc, h_follows hc h_call⟩

end Asked

/-- **A call of another bank** that the bot gets right. -/
theorem Inv.call (h : Inv echo s) {sender : Address} {call : TrustlineCall}
    (h_sender : sender ≠ echo) (h_call : Answerable echo s (.call sender call)) :
    Inv echo (s.step echo (.call sender call)) := by
  cases call with
  | setLimit them ccy amount =>
    rcases h_call with h_neg | h_same | ⟨h_them, h_answers⟩
    · rw [State.step, exec_setLimit_idle (Or.inl h_neg)]
      exact h
    · rw [State.step, exec_setLimit_idle (Or.inr h_same)]
      exact h
    · refine h.foreign h_sender h_them ?_
      show ∀ e ∈ (s.contract.setLimit sender them ccy amount).events, answers e = []
      rw [PaymentService.setLimit_events, PaymentService.forall_mem_emitted]
      right
      rcases h_answers with h_ccy | ⟨h_allow, h_limit⟩
      · exact answers_unknown h_ccy
      · exact answers_same h_allow h_limit
  | setAllow them ccy amount =>
    by_cases h_idle : amount.slt 0 = true ∨ s.contract.getAllow sender them ccy false = amount
    · rw [State.step, exec_setAllow_idle h_idle]
      exact h
    have h_active := not_or.mp h_idle
    rcases h_call with h_neg | h_same | ⟨rfl, h_role, h_ccy, h_left⟩ | ⟨h_them, h_answers⟩
    · exact absurd h_neg h_active.1
    · exact absurd h_same h_active.2
    -- the one kind of call that the bot has to answer
    · exact h.asked h_role h_ccy h_left h_idle
    · refine h.foreign h_sender h_them ?_
      show ∀ e ∈ (s.contract.setAllow sender them ccy amount).events, answers e = []
      rw [PaymentService.setAllow_events, PaymentService.forall_mem_emitted]
      right
      rcases h_answers with h_ccy | ⟨h_allow, h_limit⟩
      · exact answers_unknown h_ccy
      · exact answers_same h_allow h_limit
  | sendPayment them ccy amount messageId properties => exact h.payment

/-- **Delivering an event** moves its answers to the outbox. -/
theorem Inv.deliver (h : Inv echo s) : Inv echo (s.step echo .deliver) := by
  unfold State.step
  dsimp only
  cases h_inbox : s.inbox with
  | nil => exact h
  | cons e inbox =>
    have h_e := h.inbox e (by simp [h_inbox])
    have h_mem {e'} (he : e' ∈ s.inbox) : e' = e ∨ e' ∈ inbox := by
      rw [h_inbox] at he
      exact List.mem_cons.mp he
    refine ⟨h.nonneg, h.limit, h.allow, ?_, ?_, ?_⟩
    · intro e' he'
      exact h.inbox e' (by simp [h_inbox, he'])
    · intro call hc
      rcases List.mem_append.mp hc with hc | hc
      · exact h.outbox call hc
      · obtain ⟨value, h_value, rfl⟩ := List.mem_map.mp hc
        -- only an event that asks for something has answers
        rcases h_e with h_none | ⟨a, k, h_a, h_cause, h_ccy, trustType, rl, ra, h_ne, h_eq⟩
        · exact absurd h_value (by simp [h_none])
        · obtain ⟨calls, h_answers, h_calls⟩ := answers_allow h_ccy h_ne (h.nonneg a echo k)
          rw [h_eq, h_answers] at h_value
          refine ⟨h_cause, a, k, h_a, ?_⟩
          rcases List.mem_cons.mp h_value with rfl | h_value
          · exact Or.inl rfl
          · exact Or.inr (h_calls value h_value)
    · intro a h_a k
      rcases h.followed a h_a k with h_eq | ⟨e', he', h_asks⟩ | ⟨call, hc, h_call⟩
      · exact Or.inl h_eq
      · rcases h_mem he' with rfl | he'
        -- the event that was delivered asked for it, and its first answer follows
        · obtain ⟨h_cause, h_ccy, trustType, rl, ra, h_ne, h_eq⟩ := h_asks
          obtain ⟨calls, h_answers, -⟩ := answers_allow h_ccy h_ne (h.nonneg a echo k)
          refine Or.inr (Or.inr ⟨⟨.setLimit a k (s.contract.toLedger.allow a echo k), e'.cause⟩,
            List.mem_append_right _ ?_, rfl⟩)
          rw [h_eq, h_answers]
          exact List.mem_cons_self
        · exact Or.inr (Or.inl ⟨e', he', h_asks⟩)
      · exact Or.inr (Or.inr ⟨call, List.mem_append_left _ hc, h_call⟩)

/-- An answer that is not needed any more changes nothing. -/
theorem Inv.drop (h : Inv echo s) {call : Caused TrustlineCall}
    {outbox : List (Caused TrustlineCall)} (h_outbox : s.outbox = call :: outbox)
    (h_done : ∀ a ≠ echo, ∀ k, Follows echo s call a k →
      s.contract.toLedger.limit echo a k = s.contract.toLedger.allow a echo k) :
    Inv echo { s with outbox := outbox } := by
  refine ⟨h.nonneg, h.limit, h.allow, h.inbox, ?_, ?_⟩
  · intro call' hc
    exact h.outbox call' (by simp [h_outbox, hc])
  · intro a h_a k
    -- the allowance is followed already, by an event, or by another call
    rcases h.followed a h_a k with h_eq | h_asks | ⟨call', hc, h_call⟩
    · exact Or.inl h_eq
    · exact Or.inr (Or.inl h_asks)
    · rw [h_outbox] at hc
      rcases List.mem_cons.mp hc with rfl | hc
      · exact Or.inl (h_done a h_a k h_call)
      · exact Or.inr (Or.inr ⟨call', hc, h_call⟩)

/-- The event of the bot's own `setLimit` shows the same figures in both directions. -/
theorem Inv.exec_follows (h : Inv echo s) {a : Address} (h_a : a ≠ echo) {ccy : String}
    {call : Caused TrustlineCall} (h_call : Follows echo s call a ccy) :
    Inv echo (s.exec echo call) ∧
      (s.exec echo call).contract.toLedger.limit echo a ccy =
        s.contract.toLedger.allow a echo ccy := by
  obtain ⟨value, cause⟩ := call
  obtain rfl : value = .setLimit a ccy (s.contract.toLedger.allow a echo ccy) := h_call
  set v := s.contract.toLedger.allow a echo ccy with h_v
  have h_neg : v.slt 0 = false := slt_zero_eq_false_iff.mpr (h.nonneg a echo ccy)
  have h_ledger := s.contract.setLimit_toLedger echo a ccy v h_neg
  have h_new : (s.contract.setLimit echo a ccy v).state.toLedger.limit echo a ccy = v := by
    rw [h_ledger]
    exact CreditLedger.put_self _ _ _ _ _
  refine ⟨?_, h_new⟩
  refine h.quiet (exec_nonneg h.nonneg echo (.setLimit a ccy v)) ⟨?_, ?_, ?_, ?_⟩ ?_
  -- only the limit of the bot on `a` is another one
  · intro a' h_a' k
    show (s.contract.setLimit echo a ccy v).state.toLedger.limit a' echo k = _
    rw [h_ledger]
    exact CreditLedger.put_other _ fun hc => h_a' hc.1
  · exact fun a' _ k => congrFun₃ (congrArg CreditLedger.allow h_ledger) a' echo k
  · intro a' _ k
    by_cases h_same : a' = a ∧ k = ccy
    · obtain ⟨rfl, rfl⟩ := h_same
      exact Or.inr h_new
    · left
      show (s.contract.setLimit echo a ccy v).state.toLedger.limit echo a' k = _
      rw [h_ledger]
      exact CreditLedger.put_other _ fun hc => h_same hc.2
  · exact fun a' _ k => congrFun₃ (congrArg CreditLedger.allow h_ledger) echo a' k
  · intro e he
    obtain ⟨e', he', rfl⟩ := List.mem_map.mp he
    have h_mem : e' ∈ (s.contract.setLimit echo a ccy v).events := List.mem_of_mem_filter he'
    rw [PaymentService.setLimit_events] at h_mem
    split_ifs at h_mem
    · exact absurd h_mem List.not_mem_nil
    -- the new limit is the allow of `a`, and the two other figures are zero
    · obtain rfl := List.mem_singleton.mp h_mem
      refine answers_same ?_ ?_
      · rw [s.contract.getLimit_reverse echo a ccy true h_a.symm]
        exact (h.allow a h_a ccy).trans (h.limit a h_a ccy).symm
      · rw [s.contract.getAllow_reverse echo a ccy true h_a.symm]
        rfl

/-- **Executing an answer** makes the bot's limit the other party's allow. -/
theorem Inv.execute (h : Inv echo s) : Inv echo (s.step echo .execute) := by
  unfold State.step
  dsimp only
  cases h_outbox : s.outbox with
  | nil => exact h
  | cons call outbox =>
    obtain ⟨h_cause, a, ccy, h_a, h_call | h_call⟩ := h.outbox call (by simp [h_outbox])
    -- once executed, the answer is not needed any more
    · obtain ⟨h_inv, h_limit⟩ := h.exec_follows h_a h_call
      apply h_inv.drop h_outbox
      intro a' _ k h_follows
      obtain ⟨rfl, rfl, h_allow⟩ := TrustlineCall.setLimit.inj (h_call.symm.trans h_follows)
      exact h_limit.trans h_allow
    · -- the bot has no allow towards anybody
      obtain ⟨value, cause⟩ := call
      obtain rfl : value = .setAllow a ccy 0 := h_call
      dsimp only
      rw [exec_setAllow_idle (s := ⟨s.contract, s.inbox, outbox⟩) (Or.inr (h.allow a h_a ccy))]
      apply h.drop h_outbox
      intro a' h_a' k h_follows
      exact absurd h_follows (by simp [Follows])

end Step

/-! ### Runs -/

/-- The invariant at the start. -/
theorem inv_init (echo : Address) : Inv echo State.init := by
  have h_limit (a b ccy) : State.init.contract.toLedger.limit a b ccy = 0 :=
    World.figuresOwned_init.limit a b ccy
  have h_allow (a b ccy) : State.init.contract.toLedger.allow a b ccy = 0 :=
    World.figuresOwned_init.allow a b ccy
  refine ⟨?_, fun a _ => h_limit a echo, fun a _ => h_allow echo a, ?_, ?_, ?_⟩
  · intro a b ccy
    rw [h_allow]
    decide
  · exact fun e he => absurd he List.not_mem_nil
  · exact fun call hc => absurd hc List.not_mem_nil
  · exact fun a _ ccy => Or.inl ((h_limit echo a ccy).trans (h_allow a echo ccy).symm)

/-- **One step** keeps the mirror, if it can be answered. -/
theorem Inv.step {echo : Address} {s : State} (h : Inv echo s) {i : Input}
    (h_others : ByOthers echo i) (h_i : Answerable echo s i) : Inv echo (s.step echo i) := by
  cases i with
  | call sender call => exact h.call h_others h_i
  | deliver => exact h.deliver
  | execute => exact h.execute

/-- **Echo mirrors its counterparties** in every state of every run whose calls are answerable. -/
theorem mirrors_of_answerable (echo : Address) (inputs : List Input)
    (h_others : ∀ i ∈ inputs, ByOthers echo i)
    (h_answerable : Along (fun pre i => Answerable echo (State.after echo pre) i) inputs) :
    MirrorsCounterparties echo (State.after echo inputs) := by
  apply Inv.mirrorsCounterparties
  refine @run_induction _ _ (State.step echo) State.init
    (fun pre i => Answerable echo (State.after echo pre) i ∧ ByOthers echo i)
    (fun _ s => Inv echo s)
    (inv_init echo) ?_ inputs (h_answerable.and (along_forall.mpr h_others))
  intro pre i h_pre h_i
  exact h_pre.step h_i.2 h_i.1

/-- Bank 2 allows itself to owe 5 pounds to the bot of bank 1, which follows. -/
theorem mirrors_of_answerable_allow :
    MirrorsCounterparties 1
      (State.after 1 [.call 2 (.setAllow 1 "GBP" 5), .deliver, .execute, .deliver]) := by
  refine mirrors_of_answerable 1 _ ?_ ?_
  · simp [ByOthers]
  · refine (along_concat (l := [_, _, _])).mpr ⟨(along_concat (l := [_, _])).mpr
      ⟨(along_concat (l := [_])).mpr ⟨(along_concat (l := [])).mpr ⟨along_nil, ?_⟩, trivial⟩,
        trivial⟩, trivial⟩
    exact Or.inr (Or.inr (Or.inl ⟨rfl, by decide, by decide, List.forall_mem_nil _,
      List.forall_mem_nil _⟩))

/-- Bank 2 limits the bot of bank 1 to owing it 5 pounds: the bot sets its allow towards
itself. -/
theorem not_mirrors_limit :
    ¬MirrorsCounterparties 1
      (State.after 1 [.call 2 (.setLimit 1 "GBP" 5), .deliver, .execute, .deliver, .execute,
        .deliver, .execute, .execute]) := by
  intro h
  have h_figures := (h.mirrored (by decide +kernel) (by decide +kernel) 2 (by decide) "GBP").2
  exact absurd h_figures (by decide +kernel)

end EchoBot

end Ethiso
