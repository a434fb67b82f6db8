import Ethiso.Contracts.OwnFigures

/-!
# What `TrustlineModified` says about the new trustline

The two setters emit `TrustlineModified` before they write, at four sites: two
setters, and two roles of the sender in each. `setLimit_events` and
`setAllow_events` say what is emitted in terms of what the sender is told when
it asks, and nothing later opens the sites again.

The event should describe the trustline as it is after the call, from the
sender's point of view (`DescribesTrustline`). Both sites of `setLimit` do. Both
sites of `setAllow` fill the last argument with the sender's own allow, as it
was before the call, instead of the other party's; and the site of the larger
address also swaps the two parties. `describesTrustline_iff` states which calls
are described correctly all the same: those of `setAllow` by the smaller
address, when its old allow happens to be the other party's.
-/

namespace Ethiso

namespace PaymentService

variable (s : PaymentService) (us them : Address) (ccy : String) (amount : Int256)

/-! ### The four sites -/

/-- A setter changes nothing when the amount is negative, or already there. -/
theorem setLimit_idle (h : amount.slt 0 = true ∨ s.getLimit us them ccy false = amount) :
    (s.setLimit us them ccy amount).state = s := by
  unfold setLimit
  unfold getLimit at h
  grind

/-- `setAllow` does nothing for a negative or an unchanged amount. -/
theorem setAllow_idle (h : amount.slt 0 = true ∨ s.getAllow us them ccy false = amount) :
    (s.setAllow us them ccy amount).state = s := by
  unfold setAllow
  unfold getAllow at h
  grind

/-- What `setLimit` emits: the new limit and the three figures next to it. -/
theorem setLimit_events :
    (s.setLimit us them ccy amount).events =
      if amount.slt 0 = true ∨ s.getLimit us them ccy false = amount then []
      else [.trustlineModified us them ccy "limit" amount (s.getLimit us them ccy true)
        (s.getAllow us them ccy false) (s.getAllow us them ccy true)] := by
  unfold setLimit getLimit getAllow
  by_cases h_role : senderIsP1Against us them = true
  · simp only [h_role]
    grind
  · simp only [h_role]
    grind

/-- What holds of all that a setter emits, which is nothing if the setter is idle. -/
theorem forall_mem_emitted {idle : Prop} [Decidable idle] {e : Event} {P : Event → Prop} :
    (∀ e' ∈ (if idle then [] else [e]), P e') ↔ idle ∨ P e := by
  by_cases h : idle
  · rw [if_pos h]
    exact iff_of_true (List.forall_mem_nil P) (Or.inl h)
  · rw [if_neg h, List.forall_mem_singleton, or_iff_right h]

/-- What `setAllow` emits. The parties come in the order of their addresses, and
the last figure is the allow that is about to be replaced. -/
theorem setAllow_events :
    (s.setAllow us them ccy amount).events =
      if amount.slt 0 = true ∨ s.getAllow us them ccy false = amount then []
      else [.trustlineModified (if us < them then us else them) (if us < them then them else us)
        ccy "allow" (s.getLimit us them ccy false) (s.getLimit us them ccy true) amount
        (s.getAllow us them ccy false)] := by
  unfold setAllow getLimit getAllow senderIsP1Against
  by_cases h_role : us < them
  · simp only [h_role, if_true]
    grind
  · simp only [h_role, if_false]
    grind

/-! ### The figures after the call -/

variable {s us them ccy amount}

/-- A setter that is not turned away sets the sender's figure, and leaves the other three figures
of the trustline. -/
theorem setFigure_figures (F : CreditLedger.Figure) (h_ne : us ≠ them)
    (h_neg : amount.slt 0 = false) :
    (s.setFigure F us them ccy amount).state.getFigure F us them ccy false = amount ∧
      (s.setFigure F us them ccy amount).state.getFigure F us them ccy true =
        s.getFigure F us them ccy true ∧
      ∀ G ≠ F, ∀ r, (s.setFigure F us them ccy amount).state.getFigure G us them ccy r =
        s.getFigure G us them ccy r := by
  have h_eq := s.setFigure_toLedger us them ccy amount F h_neg
  simp only [getFigure_eq _ _ _ _ _ h_ne, h_eq, CreditLedger.figure_setFigure]
  refine ⟨?_, ?_, fun G h_G r => ?_⟩
  · exact CreditLedger.put_self _ _ _ _ _
  -- in reverse, it is the figure of the other pair that is told
  · exact CreditLedger.put_other _ fun hc => h_ne hc.1.symm
  · rw [if_neg h_G]

end PaymentService

/-! ### Describing the new trustline -/

/-- The `TrustlineModified` events among `events`. -/
def trustlineModifications (events : List Event) : List Event :=
  events.filter fun
    | .trustlineModified .. => true
    | _ => false

/-- The event is about the sender's trustline with `them`, and has the four figures
that the sender is told in the state `s`. -/
def Event.Describes (s : PaymentService) (sender them : Address) (ccy : String) (e : Event) :
    Prop :=
  ∃ trustType, e = .trustlineModified sender them ccy trustType
    (s.getLimit sender them ccy false) (s.getLimit sender them ccy true)
    (s.getAllow sender them ccy false) (s.getAllow sender them ccy true)

/-- A call that changes the stored value of the trustline emits exactly one
`TrustlineModified`, which describes it as it is after the call; a call that
changes nothing emits none. -/
def Announces (s : PaymentService) (sender them : Address) (ccy : String) (r : Result) : Prop :=
  (r.state.getTrustlineValue sender them ccy ≠ s.getTrustlineValue sender them ccy →
      ∃ e, trustlineModifications r.events = [e] ∧ e.Describes r.state sender them ccy) ∧
    (r.state.getTrustlineValue sender them ccy = s.getTrustlineValue sender them ccy →
      trustlineModifications r.events = [])

/-- A setter called about another party announces what it does. -/
def DescribesTrustline (s : PaymentService) : Address × TrustlineCall → Prop
  | (sender, .setLimit them ccy amount) =>
    them ≠ sender → Announces s sender them ccy (s.setLimit sender them ccy amount)
  | (sender, .setAllow them ccy amount) =>
    them ≠ sender → Announces s sender them ccy (s.setAllow sender them ccy amount)
  | (_, .sendPayment ..) => True

/-- A `setAllow` about another party that changes the stored allow is sent by the
smaller address, and replaces an allow equal to the other party's. -/
def AllowsMatch (s : PaymentService) : Address × TrustlineCall → Prop
  | (sender, .setAllow them ccy amount) =>
    them = sender ∨ amount.slt 0 = true ∨ s.getAllow sender them ccy false = amount ∨
      (sender < them ∧ s.getAllow sender them ccy false = s.getAllow sender them ccy true)
  | _ => True

section Step

variable {s : PaymentService} {sender them : Address} {ccy : String} {amount : Int256}

/-- A call that is idle announces it. -/
theorem announces_of_idle {r : Result} (h_state : r.state = s) (h_events : r.events = []) :
    Announces s sender them ccy r := by
  refine ⟨fun h => absurd (by rw [h_state]) h, fun _ => ?_⟩
  rw [h_events]
  rfl

/-- A call that changes a figure is announced by the one event it emits, if that
describes the new trustline. -/
theorem announces_iff_describes {r : Result} {e : Event}
    (h_events : trustlineModifications r.events = [e])
    (h_cell : r.state.getTrustlineValue sender them ccy ≠ s.getTrustlineValue sender them ccy) :
    Announces s sender them ccy r ↔ e.Describes r.state sender them ccy := by
  refine ⟨?_, ?_⟩
  · intro h
    obtain ⟨e', h_eq, h_desc⟩ := h.1 h_cell
    obtain rfl : e = e' := List.singleton_inj.mp (h_events.symm.trans h_eq)
    exact h_desc
  · intro h
    exact ⟨fun _ => ⟨e, h_events, h⟩, fun hc => absurd hc h_cell⟩

/-- Both sites of `setLimit` describe the new trustline. -/
theorem setLimit_announces (h_ne : them ≠ sender) :
    Announces s sender them ccy (s.setLimit sender them ccy amount) := by
  have h_events := s.setLimit_events sender them ccy amount
  by_cases h_idle : amount.slt 0 = true ∨ s.getLimit sender them ccy false = amount
  · rw [if_pos h_idle] at h_events
    exact announces_of_idle (s.setLimit_idle sender them ccy amount h_idle) h_events
  rw [if_neg h_idle] at h_events
  rw [not_or, Bool.not_eq_true] at h_idle
  obtain ⟨h_own, h_back, h_other⟩ :=
    @PaymentService.setFigure_figures s sender them ccy amount .limit h_ne.symm h_idle.1
  have h_allow := h_other .allow (by decide)
  dsimp only [PaymentService.setFigure, PaymentService.getFigure] at h_own h_back h_allow
  have h_cell : (s.setLimit sender them ccy amount).state.getTrustlineValue sender them ccy ≠
      s.getTrustlineValue sender them ccy := by
    -- the sender is told another limit, which it reads from the cell
    intro hc
    rw [PaymentService.getLimit, hc] at h_own
    exact h_idle.2 h_own
  rw [announces_iff_describes (by rw [h_events]; rfl) h_cell]
  refine ⟨"limit", ?_⟩
  rw [h_own, h_back, h_allow, h_allow]

/-- The sites of `setAllow` describe the new trustline if the sender comes first and
the allow it replaces is the other party's. -/
theorem setAllow_announces_iff (h_ne : them ≠ sender) :
    Announces s sender them ccy (s.setAllow sender them ccy amount) ↔
      (amount.slt 0 = true ∨ s.getAllow sender them ccy false = amount ∨
        (sender < them ∧ s.getAllow sender them ccy false = s.getAllow sender them ccy true)) := by
  have h_events := s.setAllow_events sender them ccy amount
  by_cases h_idle : amount.slt 0 = true ∨ s.getAllow sender them ccy false = amount
  · rw [if_pos h_idle] at h_events
    exact iff_of_true
      (announces_of_idle (s.setAllow_idle sender them ccy amount h_idle) h_events)
      (h_idle.imp_right Or.inl)
  rw [if_neg h_idle] at h_events
  rw [not_or, Bool.not_eq_true] at h_idle
  obtain ⟨h_own, h_back, h_other⟩ :=
    @PaymentService.setFigure_figures s sender them ccy amount .allow h_ne.symm h_idle.1
  have h_limit := h_other .limit (by decide)
  dsimp only [PaymentService.setFigure, PaymentService.getFigure] at h_own h_back h_limit
  have h_cell : (s.setAllow sender them ccy amount).state.getTrustlineValue sender them ccy ≠
      s.getTrustlineValue sender them ccy := by
    -- the sender is told another allow
    intro hc
    rw [PaymentService.getAllow, hc] at h_own
    exact h_idle.2 h_own
  rw [announces_iff_describes (by rw [h_events]; rfl) h_cell, Event.Describes,
    h_own, h_back, h_limit, h_limit]
  refine ⟨?_, ?_⟩
  · rintro ⟨trustType, h_eq⟩
    obtain ⟨h_p1, -, -, -, -, -, -, h_last⟩ := Event.trustlineModified.inj h_eq
    refine Or.inr (Or.inr ⟨?_, h_last⟩)
    -- a larger sender comes second
    by_contra h_role
    rw [if_neg h_role] at h_p1
    exact h_ne h_p1
  · rintro (hc | hc | ⟨h_role, h_last⟩)
    · exact absurd (h_idle.1.symm.trans hc) Bool.false_ne_true
    · exact absurd hc h_idle.2
    · refine ⟨"allow", ?_⟩
      rw [if_pos h_role, if_pos h_role, h_last]

end Step

/-- **One transaction** announces what it does exactly when it meets the condition. -/
theorem describesTrustline_step (s : PaymentService) (tx : Address × TrustlineCall) :
    DescribesTrustline s tx ↔ AllowsMatch s tx := by
  obtain ⟨sender, call⟩ := tx
  cases call with
  | setLimit them ccy amount => exact iff_of_true (fun h => setLimit_announces h) trivial
  | setAllow them ccy amount =>
    unfold DescribesTrustline AllowsMatch
    dsimp only
    by_cases h_ne : them = sender
    -- a trustline to oneself has equal parties, so the event is right by chance
    · exact iff_of_true (fun hc => absurd h_ne hc) (Or.inl h_ne)
    · rw [or_iff_right h_ne, forall_prop_of_true h_ne, setAllow_announces_iff h_ne]
  | sendPayment them ccy amount messageId additionalProperties => exact Iff.rfl

/-! ### The result -/

/-- **Trustline events describe the new trustline** along a run if and only if every
`setAllow` of the run that changes an allow towards another party is sent by the
smaller address and replaces an allow equal to the other party's. -/
theorem describesTrustline_iff (txs : List (Address × TrustlineCall)) :
    Along (fun pre tx => DescribesTrustline (World.after pre).contract tx) txs ↔
      Along (fun pre tx => AllowsMatch (World.after pre).contract tx) txs :=
  along_congr fun pre tx => describesTrustline_step (World.after pre).contract tx

/-- The larger address allows itself to owe 5: the event names the other party as
p1. -/
theorem not_describesTrustline_swapped :
    ¬Along (fun pre tx => DescribesTrustline (World.after pre).contract tx)
      [(2, .setAllow 1 "GBP" 5)] := by
  intro h
  have h_call := h [] (2, .setAllow 1 "GBP" 5) [] rfl (by decide)
  obtain ⟨e, h_event, trustType, rfl⟩ := h_call.1 (by decide +kernel)
  have h_p1 := (Event.trustlineModified.inj (List.singleton_inj.mp h_event)).1
  exact absurd h_p1 (by decide)

end Ethiso
